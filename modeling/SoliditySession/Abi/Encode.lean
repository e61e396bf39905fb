import SoliditySession.Abi.Decode
/- The head and tail layout of the contract ABI, from values to bytes, and which values a type has. -/
namespace SoliditySession.Abi

/-- The lowest `8 * length` bits, the highest byte first. -/
def bigEndianBytes : Nat → Nat → Bytes
  | 0, _ => []
  | length + 1, n => bigEndianBytes length (n / 256) ++ [UInt8.ofNat (n % 256)]

def numberWord (n : Nat) : Bytes := bigEndianBytes 32 n

def signedWord (n : Int) : Bytes := numberWord (n % Nat.pow 2 256).toNat

/-- Fills up with zeros to whole words. -/
def padRight (b : Bytes) : Bytes := b ++ List.replicate ((32 - b.length % 32) % 32) 0

def padLeft (b : Bytes) : Bytes := List.replicate (32 - b.length) 0 ++ b

/-- The room that the heads of encoded items take. -/
def headLength : List (Bool × Bytes) → Nat
  | [] => 0
  | (true, _) :: r => 32 + headLength r
  | (false, b) :: r => b.length + headLength r

/-- Encoded items with whether each is dynamic: the heads, then the tails. -/
def layOut (items : List (Bool × Bytes)) : Bytes :=
  let rec go (offset : Nat) : List (Bool × Bytes) → Bytes × Bytes
    | [] => ([], [])
    | (true, b) :: r =>
      let (heads, tails) := go (offset + b.length) r
      (numberWord offset ++ heads, b ++ tails)
    | (false, b) :: r =>
      let (heads, tails) := go offset r
      (b ++ heads, tails)
  let (heads, tails) := go (headLength items) items
  heads ++ tails

mutual
/-- The encoding of a value of the type; nothing for other values. -/
def encodeValue : AbiType → Value → Bytes
  | .uint _, .uint n => numberWord n
  | .int _, .int n => signedWord n
  | .bool, .bool b => numberWord (if b then 1 else 0)
  | .address, .address b => padLeft b
  | .fixedBytes _, .bytes b => padRight b
  | .bytes, .bytes b => numberWord b.length ++ padRight b
  | .string, .string s => numberWord (Text.toBytes s).length ++ padRight (Text.toBytes s)
  | .array t, .array vs =>
    numberWord vs.length ++ layOut (vs.map fun v => (t.isDynamic, encodeValue t v))
  | .fixedArray t _, .array vs => layOut (vs.map fun v => (t.isDynamic, encodeValue t v))
  | .tuple fields, .tuple vs => layOut (encodeFields fields vs)
  | .tuple fields, .struct vs => layOut (encodeFields fields (vs.map (·.2)))
  | _, _ => []

def encodeFields : List (String × AbiType) → List Value → List (Bool × Bytes)
  | (_, t) :: fs, v :: vs => (t.isDynamic, encodeValue t v) :: encodeFields fs vs
  | _, _ => []
end

def encode (types : List AbiType) (values : List Value) : Bytes :=
  layOut (List.zipWith (fun t v => (t.isDynamic, encodeValue t v)) types values)

theorem encodeFields_eq (fields : List (String × AbiType)) (values : List Value) :
    encodeFields fields values =
      List.zipWith (fun t v => (t.isDynamic, encodeValue t v)) (fields.map (·.2)) values := by
  induction fields generalizing values with
  | nil => cases values <;> rfl
  | cons f fields ih =>
      cases values with
      | nil => rfl
      | cons v values => rw [encodeFields, ih, List.map_cons, List.zipWith_cons_cons]

theorem encodeValue_tuple (fields : List (String × AbiType)) (values : List Value) :
    encodeValue (.tuple fields) (.tuple values) = encode (fields.map (·.2)) values := by
  rw [encodeValue, encodeFields_eq, encode]

theorem encodeValue_struct (fields : List (String × AbiType)) (named : List (String × Value)) :
    encodeValue (.tuple fields) (.struct named) =
      encode (fields.map (·.2)) (named.map (·.2)) := by
  rw [encodeValue, encodeFields_eq, encode]

mutual
/-- The values that encodings of a type stand for. A fixed array has none where so many elements
cannot be held. -/
def HasType : AbiType → Value → Prop
  | .uint bits, .uint n => n < Nat.pow 2 bits
  | .int bits, .int n => -(Nat.pow 2 (bits - 1) : Int) ≤ n ∧ n < (Nat.pow 2 (bits - 1) : Int)
  | .bool, .bool _ => True
  | .address, .address b => b.length = 20
  | .fixedBytes n, .bytes b => b.length = n
  | .bytes, .bytes _ => True
  | .string, .string _ => True
  | .array t, .array vs => ∀ v ∈ vs, HasType t v
  | .fixedArray t n, .array vs => vs.length = n ∧ n ≤ maxListed ∧ ∀ v ∈ vs, HasType t v
  | .tuple fields, .struct vs =>
    AbiType.allNamed fields = true ∧ vs.map (·.1) = fields.map (·.1) ∧
      HaveTypes fields (vs.map (·.2))
  | .tuple fields, .tuple vs => AbiType.allNamed fields = false ∧ HaveTypes fields vs
  | _, _ => False

def HaveTypes : List (String × AbiType) → List Value → Prop
  | [], [] => True
  | (_, t) :: fs, v :: vs => HasType t v ∧ HaveTypes fs vs
  | _, _ => False
end

end SoliditySession.Abi
