import SoliditySession.Json
/- Reading typed data out of JSON values. A record is an object, visited in the order of its
entries, or an array of its fields in their own order. -/
namespace SoliditySession.Json

inductive Mismatch
  | wrongSort (found : Json) (expected : String)
  | missingField (name : String)
  | duplicateField (name : String)
  | unknownVariant (name : String) (known : List String)
  | notOneKey
  | tooShort (length : Nat) (record : String) (fields : Nat)
  | tooLong (length : Nat)
  | unreadable
  | outOfRange (n : Int) (expected : String)

def backquoted (s : String) : String := "\x60" ++ s ++ "\x60"

def Mismatch.message : Mismatch → String
  | .wrongSort found expected => "invalid type: " ++ found.sort ++ ", expected " ++ expected
  | .missingField name => "missing field " ++ backquoted name
  | .duplicateField name => "duplicate field " ++ backquoted name
  | .unknownVariant name known =>
    "unknown variant " ++ backquoted name ++ ", expected one of " ++
      ", ".intercalate (known.map backquoted)
  | .notOneKey => "invalid value: map, expected map with a single key"
  | .tooShort length record fields =>
    "invalid length " ++ toString length ++ ", expected struct " ++ record ++ " with " ++
      toString fields ++ (if fields == 1 then " element" else " elements")
  | .tooLong length => "invalid length " ++ toString length ++ ", expected fewer elements in array"
  | .unreadable => "unreadable value"
  | .outOfRange n expected =>
    "invalid value: integer " ++ backquoted (toString n) ++ ", expected " ++ expected

abbrev Reader (α : Type) := Json → Except Mismatch α

/-- Refuses a value of another sort than `expected` names. -/
def wrong {α : Type} (j : Json) (expected : String) : Except Mismatch α :=
  match j with
  | .unreadable => .error .unreadable
  | j => .error (.wrongSort j expected)

def readText : Reader String
  | .str s => .ok s
  | j => wrong j "a string"

def readInt64 : Reader Int
  | .int n => if isInt64 n then .ok n else .error (.outOfRange n "a 64-bit integer")
  | j => wrong j "a 64-bit integer"

/-- Any value that can be read as a whole. -/
def readAny : Reader Json := fun j =>
  if j.readable then .ok j.normal else .error .unreadable

def nullable {α : Type} (read : Reader α) : Reader (Option α)
  | .null => .ok none
  | j => (read j).map some

def listOf {α : Type} (read : Reader α) : Reader (List α)
  | .arr items => items.mapM read
  | j => wrong j "a sequence"

def tableOf {α : Type} (read : Reader α) : Reader (Table α)
  | .obj entries => (entries.mapM fun e => (read e.2).map (e.1, ·)).map Table.ofList
  | j => wrong j "a map"

/-- A name standing alone, or as the only key over null. -/
def variantOf {α : Type} (known : List (String × α)) : Reader α
  | .str s => pick s
  | .obj [(s, .null)] => pick s
  | .obj [(s, j)] =>
    match pick s with
    | .ok _ => wrong j "unit"
    | e => e
  | .obj _ => .error .notOneKey
  | j => wrong j "string or map"
where
  pick (s : String) : Except Mismatch α :=
    match known.lookup s with
    | some v => .ok v
    | none => .error (.unknownVariant s (known.map (·.1)))

inductive Source
  | entries (es : List (String × Json))
  | items (js : List Json)

/-- What has been read of some fields: the failures with their places in the source, the required
fields that are absent with their own places, and the value if there is neither. -/
structure Draft (α : Type) where
  faults : List (Nat × Mismatch)
  absent : List (Nat × String)
  value : Option α

/-- A way to read fields, given how many come before them. -/
structure Fields (α : Type) where
  count : Nat
  draft : Nat → Source → Draft α

namespace Fields
variable {α β : Type}

instance : Functor Fields where
  map f a := ⟨a.count, fun i s =>
    let d := a.draft i s
    ⟨d.faults, d.absent, d.value.map f⟩⟩

instance : Pure Fields := ⟨fun v => ⟨0, fun _ _ => ⟨[], [], some v⟩⟩⟩

instance : Seq Fields where
  seq f a :=
    let a := a ()
    ⟨f.count + a.count, fun i s =>
      let d := f.draft i s
      let e := a.draft (i + f.count) s
      ⟨d.faults ++ e.faults, d.absent ++ e.absent,
        match d.value, e.value with
        | some g, some v => some (g v)
        | _, _ => none⟩⟩

/-- The values of the entries called `name` with their places. -/
def occurrences (name : String) : Nat → List (String × Json) → List (Nat × Json)
  | _, [] => []
  | i, (k, j) :: es =>
    if k == name then (i, j) :: occurrences name (i + 1) es else occurrences name (i + 1) es

/-- A field that takes `default` where it is absent; without one it is required. -/
def field (name : String) (default : Option α) (read : Reader α) : Fields α :=
  ⟨1, fun i s =>
    let found := match s with
      | .entries es => occurrences name 0 es
      | .items js => (js[i]?.map (i, ·)).toList
    match found with
    | [] =>
      match default with
      | some v => ⟨[], [], some v⟩
      | none => ⟨[], [(i, name)], none⟩
    | (at1, j) :: more =>
      match read j, more with
      | .error e, _ => ⟨[(at1, e)], [], none⟩
      | .ok v, [] => ⟨[], [], some v⟩
      | .ok _, (at2, _) :: _ => ⟨[(at2, .duplicateField name)], [], none⟩⟩

def required (name : String) (read : Reader α) : Fields α := field name none read

def withDefault (name : String) (v : α) (read : Reader α) : Fields α := field name (some v) read

def earliest : List (Nat × Mismatch) → Option (Nat × Mismatch)
  | [] => none
  | f :: fs =>
    match earliest fs with
    | some g => if g.1 < f.1 then some g else some f
    | none => some f

/-- The record called `name` with these fields. -/
def record (name : String) (fields : Fields α) : Reader α := fun j =>
  match j with
  | .obj es => finish (fields.draft 0 (.entries es)) (fun _ f => .missingField f) none
  | .arr js =>
    finish (fields.draft 0 (.items js)) (fun i _ => .tooShort i name fields.count)
      (if fields.count < js.length then some (.tooLong js.length) else none)
  | j => wrong j ("struct " ++ name)
where
  finish (d : Draft α) (missing : Nat → String → Mismatch) (surplus : Option Mismatch) :
      Except Mismatch α :=
    match earliest d.faults, d.absent, surplus, d.value with
    | some (_, e), _, _, _ => .error e
    | none, (i, f) :: _, _, _ => .error (missing i f)
    | none, [], some e, _ => .error e
    | none, [], none, some v => .ok v
    | none, [], none, none => .error .unreadable

end Fields
end SoliditySession.Json
