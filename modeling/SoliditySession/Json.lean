import SoliditySession.Decimal.Shortest
import SoliditySession.Table
import SoliditySession.Text.Basic
import SoliditySession.Text.Visible
/- JSON values. Objects keep the order and the repetitions of their keys; `normal` forgets both. -/
namespace SoliditySession

inductive Json
  | null
  | bool (b : Bool)
  | int (n : Int)
  /-- A number that is no 64-bit integer, by the bits of its binary approximation. -/
  | float (bits : UInt64)
  | str (s : String)
  | arr (items : List Json)
  | obj (entries : List (String × Json))
  /-- Well-formed text without a value: an unpaired surrogate, a number out of range, or nesting
  beyond the limit. -/
  | unreadable
deriving Inhabited

namespace Json

mutual
/-- Whether the whole value can be read. -/
def readable : Json → Bool
  | .arr items => readableItems items
  | .obj entries => readableEntries entries
  | .unreadable => false
  | _ => true

def readableItems : List Json → Bool
  | [] => true
  | j :: js => readable j && readableItems js

def readableEntries : List (String × Json) → Bool
  | [] => true
  | (_, j) :: js => readable j && readableEntries js
end

mutual
/-- Sorts the keys of every object; of several values for one key the last stays. -/
def normal : Json → Json
  | .arr items => .arr (normalItems items)
  | .obj entries => .obj (Table.ofList (normalEntries entries)).entries
  | j => j

def normalItems : List Json → List Json
  | [] => []
  | j :: js => normal j :: normalItems js

def normalEntries : List (String × Json) → List (String × Json)
  | [] => []
  | (k, j) :: js => (k, normal j) :: normalEntries js
end

mutual
/-- How many values lie inside one another, this one included. -/
def depth : Json → Nat
  | .arr items => depthItems items + 1
  | .obj entries => depthEntries entries + 1
  | _ => 1

def depthItems : List Json → Nat
  | [] => 0
  | j :: js => max (depth j) (depthItems js)

def depthEntries : List (String × Json) → Nat
  | [] => 0
  | (_, j) :: js => max (depth j) (depthEntries js)
end

/-- What a value is, as an error text names it. -/
def sort : Json → String
  | .null => "null"
  | .bool true => "boolean \x60true\x60"
  | .bool false => "boolean \x60false\x60"
  | .int n => "integer \x60" ++ toString n ++ "\x60"
  | .float bits => "floating point \x60" ++ (Decimal.ofBits bits).text ++ "\x60"
  | .str s => "string " ++ Text.visible '"' s.toList
  | .arr _ => "sequence"
  | .obj _ => "map"
  | .unreadable => "unreadable value"

/-- Whether 64 bits with a sign hold a number. -/
def isInt64 (n : Int) : Bool := -(Nat.pow 2 63 : Int) ≤ n && n < (Nat.pow 2 63 : Int)

def entry? (j : Json) (key : String) : Option Json :=
  match j with
  | .obj entries => entries.lookup key
  | _ => none

mutual
def text : Json → String
  | .null => "null"
  | .bool true => "true"
  | .bool false => "false"
  | .int n => toString n
  | .float bits => (Decimal.ofBits bits).text
  | .str s => Text.quoted s
  | .arr items => "[" ++ itemsText items ++ "]"
  | .obj entries => "\x7b" ++ entriesText entries ++ "\x7d"
  | .unreadable => "null"

def itemsText : List Json → String
  | [] => ""
  | [j] => text j
  | j :: k :: js => text j ++ "," ++ itemsText (k :: js)

def entriesText : List (String × Json) → String
  | [] => ""
  | [(n, j)] => Text.quoted n ++ ":" ++ text j
  | (n, j) :: e :: es => Text.quoted n ++ ":" ++ text j ++ "," ++ entriesText (e :: es)
end

end Json
end SoliditySession
