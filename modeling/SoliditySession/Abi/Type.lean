import SoliditySession.Compiler
import SoliditySession.Text.Basic
import SoliditySession.Text.Hex
/- The types of the contract ABI and their spellings; the values that contracts return, and how they
are shown. -/
namespace SoliditySession

inductive AbiType
  | uint (bits : Nat)
  | int (bits : Nat)
  | address
  | bool
  | fixedBytes (length : Nat)
  | bytes
  | string
  | array (element : AbiType)
  | fixedArray (element : AbiType) (length : Nat)
  | tuple (fields : List (String × AbiType))
deriving Inhabited

inductive AbiFault
  | unsupportedType (spelling : String)
  | shortData (offset needed available : Nat)
  /-- The word, in hexadecimal, does not fit 64 bits. -/
  | overflow (word : String)
deriving DecidableEq

def AbiFault.message : AbiFault → String
  | .unsupportedType t => "unsupported ABI type '" ++ t ++ "'"
  | .shortData offset needed available =>
    "return data too short: need " ++ toString needed ++ " bytes at offset " ++ toString offset ++
      ", have " ++ toString available
  | .overflow w => "offset or length does not fit in memory: 0x" ++ w

namespace AbiType

/-- A 64-bit count: decimal digits, which a plus sign may precede. -/
def numeral? (cs : List Char) : Option Nat :=
  let ds := match cs with
    | '+' :: r => r
    | r => r
  if ds.isEmpty || !ds.all Char.isDigit then none
  else
    let n := ds.foldl (fun n c => n * 10 + (c.toNat - 48)) 0
    if n < Nat.pow 2 64 then some n else none

def intWidth? (cs : List Char) : Option Nat :=
  (numeral? cs).filter fun n => n % 8 == 0 && 8 ≤ n && n ≤ 256

def bytesLength? (cs : List Char) : Option Nat :=
  (numeral? cs).filter fun n => 1 ≤ n && n ≤ 32

/-- What stands behind `head`, if the text begins with it. -/
def behind? (head : String) (cs : List Char) : Option (List Char) :=
  if head.toList.isPrefixOf cs then some (cs.drop head.toList.length) else none

/-- A spelling without dimensions; `components` are those of a tuple. -/
def ofBase (base : List Char) (components : Except AbiFault (List (String × AbiType))) :
    Except AbiFault AbiType :=
  let s := String.ofList base
  let sized (found : Option AbiType) : Except AbiFault AbiType :=
    match found with
    | some t => .ok t
    | none => .error (.unsupportedType s)
  if s == "address" then .ok .address
  else if s == "bool" then .ok .bool
  else if s == "string" then .ok .string
  else if s == "bytes" then .ok .bytes
  else if s == "function" then .ok (.fixedBytes 24)
  else if s == "uint" then .ok (.uint 256)
  else if s == "int" then .ok (.int 256)
  else if s == "tuple" then components.map .tuple
  else
    match behind? "uint" base, behind? "int" base, behind? "bytes" base with
    | some w, _, _ => sized ((intWidth? w).map .uint)
    | none, some w, _ => sized ((intWidth? w).map .int)
    | none, none, some w => sized ((bytesLength? w).map .fixedBytes)
    | none, none, none => sized none

/-- One pair of brackets: what is inside, and the spelling that ends with it. -/
structure Dimension where
  inside : List Char
  spelling : List Char

/-- Takes the dimensions off a spelling read backwards, the outermost first. -/
def peel : List Char → Except AbiFault (List Char × List Dimension)
  | ']' :: r =>
    match _h : r.dropWhile (· != '[') with
    | [] => .error (.unsupportedType (.ofList (']' :: r).reverse))
    | _ :: inner =>
      have : inner.length < r.length + 1 := by
        have := (r.dropWhile_suffix (· != '[')).length_le
        simp_all
        omega
      (peel inner).map fun (base, ds) =>
        (base, ds ++ [⟨(r.takeWhile (· != '[')).reverse, (']' :: r).reverse⟩])
  | r => .ok (r.reverse, [])
termination_by r => r.length

/-- Applies dimensions, the leftmost innermost. -/
def dimensioned (t : AbiType) : List Dimension → Except AbiFault AbiType
  | [] => .ok t
  | d :: ds =>
    if d.inside.isEmpty then dimensioned (.array t) ds
    else
      match numeral? d.inside with
      | some n => dimensioned (.fixedArray t n) ds
      | none => .error (.unsupportedType (.ofList d.spelling))

def ofSpelling (spelling : String) (components : Except AbiFault (List (String × AbiType))) :
    Except AbiFault AbiType :=
  match peel spelling.toList.reverse with
  | .error e => .error e
  | .ok (base, ds) =>
    match ofBase base components with
    | .error e => .error e
    | .ok t => dimensioned t ds

mutual
def ofParam : AbiParam → Except AbiFault AbiType
  | ⟨_, type, components, _⟩ => ofSpelling type (ofComponents components)

def ofComponents : List AbiParam → Except AbiFault (List (String × AbiType))
  | [] => .ok []
  | p :: ps =>
    match ofParam p with
    | .error e => .error e
    | .ok t => (ofComponents ps).map ((p.name, t) :: ·)
end

/-- The type of a spelling with the components of its tuple. -/
def parse (spelling : String) (components : List AbiParam) : Except AbiFault AbiType :=
  ofSpelling spelling (ofComponents components)

mutual
/-- Whether a value is reached through an offset. -/
def isDynamic : AbiType → Bool
  | .bytes | .string | .array _ => true
  | .fixedArray t _ => t.isDynamic
  | .tuple fields => anyDynamic fields
  | _ => false

def anyDynamic : List (String × AbiType) → Bool
  | [] => false
  | (_, t) :: r => t.isDynamic || anyDynamic r
end

mutual
/-- The bytes a value takes in the head of what holds it. -/
def headSize : AbiType → Nat
  | .fixedArray t n => if t.isDynamic then 32 else t.headSize * n
  | .tuple fields => if anyDynamic fields then 32 else headSizes fields
  | _ => 32

def headSizes : List (String × AbiType) → Nat
  | [] => 0
  | (_, t) :: r => t.headSize + headSizes r
end

/-- Whether a tuple with these fields is shown by their names. -/
def allNamed (fields : List (String × AbiType)) : Bool :=
  !fields.isEmpty && fields.all fun f => f.1 != ""

end AbiType

abbrev Bytes := List UInt8

inductive Value
  | uint (n : Nat)
  | int (n : Int)
  | bool (b : Bool)
  | address (bytes : Bytes)
  | bytes (bytes : Bytes)
  | string (s : String)
  | array (items : List Value)
  /-- A tuple whose components all have names. -/
  | struct (fields : List (String × Value))
  | tuple (items : List Value)
deriving Inhabited

namespace Value

mutual
def display : Value → String
  | .uint n => toString n
  | .int n => toString n
  | .bool true => "true"
  | .bool false => "false"
  | .address b => "0x" ++ Text.hex b
  | .bytes b => "0x" ++ Text.hex b
  | .string s => Text.quoted s
  | .array items => "[" ++ ", ".intercalate (displays items) ++ "]"
  | .struct [] => "\x7b\x7d"
  | .struct (f :: fs) => "\x7b " ++ ", ".intercalate (displayFields (f :: fs)) ++ " \x7d"
  | .tuple items => "[" ++ ", ".intercalate (displays items) ++ "]"

def displays : List Value → List String
  | [] => []
  | v :: vs => v.display :: displays vs

def displayFields : List (String × Value) → List String
  | [] => []
  | (n, v) :: r => (n ++ ": " ++ v.display) :: displayFields r
end

end Value

end SoliditySession
