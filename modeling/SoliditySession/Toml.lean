import SoliditySession.Json
/- TOML data, and how keys and headers build it up. A table remembers how it came about, since that
decides whether it may be named again. -/
namespace SoliditySession

inductive Toml.Origin
  /-- Complete as it stands, between braces. -/
  | inline
  | header
  /-- On the way to the table of a header. -/
  | implied
  /-- On the way along a dotted key. -/
  | dotted
deriving DecidableEq

/-- Numbers with a fraction and moments are read without their value: nothing asks for it. -/
inductive Toml
  | string (s : String)
  | integer (n : Int)
  | float
  | boolean (b : Bool)
  | moment
  | array (items : List Toml)
  | table (origin : Toml.Origin) (entries : List (String × Toml))
  /-- The tables of one repeated header, the latest apart. -/
  | tables (earlier : List (List (String × Toml))) (latest : List (String × Toml))

namespace Toml

abbrev Entries := List (String × Toml)

def put (key : String) (v : Toml) : Entries → Entries
  | [] => [(key, v)]
  | (k, w) :: es => if k == key then (k, v) :: es else (k, w) :: put key v es

/-- Changes the table at the end of a path; tables that are missing on the way are made. A dotted
key does not pass through a table that has a header. -/
def alter (dotted : Bool) (change : Origin → Entries → Option Entries) :
    List String → Origin → Entries → Option Entries
  | [], o, es => change o es
  | k :: path, _, es =>
    match es.lookup k with
    | none =>
      let o := if dotted then .dotted else .implied
      (alter dotted change path o []).map fun inner => put k (.table o inner) es
    | some (.table o inner) =>
      if o == .inline || (dotted && o == .header) then none
      else (alter dotted change path o inner).map fun inner => put k (.table o inner) es
    | some (.tables earlier latest) =>
      (alter dotted change path .header latest).map fun inner => put k (.tables earlier inner) es
    | some _ => none

/-- Gives a key of a table its value. The last part of a dotted key belongs to a table that dotted
keys made, and the only part of any other key to one that they did not. -/
def assign (path : List String) (key : String) (v : Toml) : Origin → Entries → Option Entries :=
  alter true (fun o es =>
    if (o == .dotted) == path.isEmpty || (es.lookup key).isSome then none
    else some (es ++ [(key, v)])) path

/-- Opens the table of a header. -/
def openTable (path : List String) (key : String) : Entries → Option Entries :=
  alter false (fun _ es =>
    match es.lookup key with
    | none => some (put key (.table .header []) es)
    | some (.table .implied inner) => some (put key (.table .header inner) es)
    | some _ => none) path .header

/-- Opens one more table of a repeated header. -/
def openNext (path : List String) (key : String) : Entries → Option Entries :=
  alter false (fun _ es =>
    match es.lookup key with
    | none => some (put key (.tables [] []) es)
    | some (.tables earlier latest) => some (put key (.tables (earlier ++ [latest]) []) es)
    | some _ => none) path .header

mutual
/-- The value as readers of records take it. A moment reads as a record of unknown fields. -/
def json : Toml → Json
  | .string s => .str s
  | .integer n => .int n
  | .float => .float 0
  | .boolean b => .bool b
  | .moment => .obj [("moment", .null)]
  | .array items => .arr (jsonItems items)
  | .table _ entries => .obj (jsonEntries entries)
  | .tables earlier latest => .arr (jsonTables earlier ++ [.obj (jsonEntries latest)])

def jsonItems : List Toml → List Json
  | [] => []
  | t :: ts => json t :: jsonItems ts

def jsonEntries : List (String × Toml) → List (String × Json)
  | [] => []
  | (k, t) :: es => (k, json t) :: jsonEntries es

def jsonTables : List (List (String × Toml)) → List Json
  | [] => []
  | es :: r => .obj (jsonEntries es) :: jsonTables r
end

end Toml
end SoliditySession
