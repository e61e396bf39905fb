import SoliditySession.Abi.Type
import SoliditySession.Text.Utf8
/- Reading return data. A sequence of values has a head and a tail: a static value stands in the
head, a dynamic one in the tail at the offset that the head gives for it. -/
namespace SoliditySession.Abi

/-- Reading stops at a fault that it tells, or it crashes and tells nothing. -/
inductive Failure
  | fault (e : AbiFault)
  | crash
deriving DecidableEq

abbrev Decoded (α : Type) := Except Failure α

def slice (data : Bytes) (offset length : Nat) : Decoded Bytes :=
  if offset + length ≤ data.length then .ok ((data.drop offset).take length)
  else .error (.fault (.shortData offset length data.length))

def word (data : Bytes) (offset : Nat) : Decoded Bytes := slice data offset 32

def bigEndian (bytes : Bytes) : Nat := bytes.foldl (fun n b => n * 256 + b.toNat) 0

/-- The two's complement number of a word. -/
def signed (bytes : Bytes) : Int :=
  let n := bigEndian bytes
  if n < Nat.pow 2 255 then n else (n : Int) - Nat.pow 2 256

/-- A word that has to fit 64 bits. -/
def size (data : Bytes) (offset : Nat) : Decoded Nat :=
  match word data offset with
  | .error e => .error e
  | .ok w =>
    if bigEndian w < Nat.pow 2 64 then .ok (bigEndian w)
    else .error (.fault (.overflow (Text.hex w)))

/-- How one item of a sequence is read. -/
structure Item where
  dynamic : Bool
  headSize : Nat
  read : Bytes → Decoded Value

def Item.at (i : Item) (data : Bytes) (offset : Nat) : Decoded Value :=
  if i.dynamic then
    match size data offset with
    | .error e => .error e
    | .ok start =>
      if start ≤ data.length then i.read (data.drop start)
      else .error (.fault (.shortData start 0 data.length))
  else i.read (data.drop offset)

def readItems (data : Bytes) : Nat → List Item → Decoded (List Value)
  | _, [] => .ok []
  | offset, i :: is =>
    match i.at data offset with
    | .error e => .error e
    | .ok v => (readItems data (offset + i.headSize) is).map (v :: ·)

/-- So many values of one kind. -/
def readCopies (data : Bytes) (i : Item) : Nat → Nat → Decoded (List Value)
  | _, 0 => .ok []
  | offset, n + 1 =>
    match i.at data offset with
    | .error e => .error e
    | .ok v => (readCopies data i (offset + i.headSize) n).map (v :: ·)

theorem readCopies_eq (data : Bytes) (i : Item) (offset n : Nat) :
    readCopies data i offset n = readItems data offset (List.replicate n i) := by
  induction n generalizing offset with
  | zero => rfl
  | succ n ih => simp only [readCopies, List.replicate_succ, readItems, ih]

/-- The first bytes of a word; taking more than it has crashes. -/
def front (n : Nat) (w : Bytes) : Decoded Bytes :=
  if n ≤ 32 then .ok (w.take n) else .error .crash

/-- A list of types is one block of at most 2 ^ 63 - 8 bytes, of which each type takes 24. Asking for
a longer one crashes before any memory is asked for. -/
def maxListed : Nat := (Nat.pow 2 63 - 8) / 24

/-- The bytes behind a length. -/
def payload (data : Bytes) : Decoded Bytes :=
  match size data 0 with
  | .error e => .error e
  | .ok length => slice data 32 length

/-- Tuples are shown by their names if all components have one. -/
def tupleValue (fields : List (String × AbiType)) (values : List Value) : Value :=
  if AbiType.allNamed fields then .struct ((fields.map (·.1)).zip values) else .tuple values

mutual
/-- One value whose encoding starts at the beginning of the data. -/
def readValue : AbiType → Bytes → Decoded Value
  | .uint _, data => (word data 0).map fun w => .uint (bigEndian w)
  | .int _, data => (word data 0).map fun w => .int (signed w)
  | .bool, data => (word data 0).map fun w => .bool (w.getLast?.any (· != 0))
  | .address, data => (word data 0).map fun w => .address (w.drop 12)
  | .fixedBytes n, data => ((word data 0).bind (front n)).map .bytes
  | .bytes, data => (payload data).map .bytes
  | .string, data => (payload data).map fun b => .string (Text.ofBytesLossy b)
  | .array t, data =>
    match size data 0 with
    | .error e => .error e
    | .ok length =>
      -- With a word of data for each, the types of the elements can be listed.
      match slice data 32 (min (length * 32) (Nat.pow 2 64 - 1)) with
      | .error e => .error e
      | .ok _ =>
        (readCopies (data.drop 32) ⟨t.isDynamic, t.headSize, readValue t⟩ 0 length).map .array
  | .fixedArray t length, data =>
    -- The types of the elements are listed before any is read; nothing bounds the length.
    if length ≤ maxListed then
      (readCopies data ⟨t.isDynamic, t.headSize, readValue t⟩ 0 length).map .array
    else .error .crash
  | .tuple fields, data => (readItems data 0 (itemsOf fields)).map (tupleValue fields)

def itemsOf : List (String × AbiType) → List Item
  | [] => []
  | (_, t) :: r => ⟨t.isDynamic, t.headSize, readValue t⟩ :: itemsOf r
end

def Item.of (t : AbiType) : Item := ⟨t.isDynamic, t.headSize, readValue t⟩

/-- Reads data laid out as the sequence of the types. -/
def decode (types : List AbiType) (data : Bytes) : Decoded (List Value) :=
  readItems data 0 (types.map .of)

/-- A tuple is read as the sequence of its components. -/
theorem readValue_tuple (fields : List (String × AbiType)) (data : Bytes) :
    readValue (.tuple fields) data =
      (decode (fields.map (·.2)) data).map (tupleValue fields) := by
  have hitems : itemsOf fields = (fields.map (·.2)).map .of := by
    induction fields with
    | nil => rfl
    | cons f fields ih => rw [itemsOf, ih, List.map_cons, List.map_cons, Item.of]
  rw [readValue, hitems, decode]

/-- One output is shown bare, several as a tuple, none not at all. -/
def outcome : List Value → Option Value
  | [] => none
  | [v] => some v
  | vs => some (.tuple vs)

def decodeOutputs (outputs : List AbiParam) (data : Bytes) : Decoded (Option Value) :=
  match outputs.mapM AbiType.ofParam with
  | .error e => .error (.fault e)
  | .ok types => (decode types data).map outcome

end SoliditySession.Abi
