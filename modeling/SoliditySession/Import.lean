import SoliditySession.FileTree
import SoliditySession.Pattern
import SoliditySession.Table
/- Import directives of a source text and the units they refer to; gathering a source and all it
imports, directly or through others; and resolving imports in a file system. -/
namespace SoliditySession.Import
open Pattern

def isQuote (c : Char) : Bool := c == '"' || c == '\''

def directive : Pattern :=
  lineStart ++ blanks ++ word "import" ++ blanks1 ++
    optional (.few 0 (fun c => !isQuote c && c != ';') ++ wordEdge ++ word "from" ++ blanks1) ++
    .char isQuote ++ .mark "path" (.many 1 (!isQuote ·)) ++ .char isQuote

/-- The paths named by the directives, in order. -/
def paths (source : String) : List String :=
  (directive.all source).filterMap fun found => found.2.mark? "path"

/-- Walks through components from a stack of names. -/
def descend (names : List String) : List Path.Component → List String
  | [] => names
  | .here :: r => descend names r
  | .up :: r => descend names.dropLast r
  | c :: r => descend (names ++ [c.text]) r

/-- The components of the directory that holds a unit. -/
def directory (unit : String) : List Path.Component :=
  match (Path.components unit).reverse with
  | [] => []
  | [.root] => []
  | _ :: r => r.reverse

def isRelative (path : String) : Bool :=
  "./".toList.isPrefixOf path.toList || "../".toList.isPrefixOf path.toList

/-- The unit that a path refers to: a relative path starts from the importer's directory. -/
def unitName (importer path : String) : String :=
  if isRelative path then
    "/".intercalate (descend [] (directory importer ++ Path.components path))
  else path

inductive Fault
  | notFound (searched : List String)
  | unreadable (path reason : String)
deriving DecidableEq

def Fault.message : Fault → String
  | .notFound searched => "File not found in:\n" ++ "\n".intercalate searched
  | .unreadable path reason => "cannot read '" ++ path ++ "': " ++ reason

abbrev Resolver := String → Except Fault String

def Resolver.ofTable (files : Table String) : Resolver := fun unit =>
  match files.get? unit with
  | some text => .ok text
  | none => .error (.notFound [])

/-- What has been gathered: finished units, units that do not resolve, units whose imports are
still to be followed, the latest first, and the units asked for, in order. -/
structure Collection where
  sources : Table String
  unresolved : List (String × Fault)
  pending : List (String × String)
  asked : List String

namespace Collection

def knows (c : Collection) (unit : String) : Bool :=
  c.sources.contains unit || c.pending.any (·.1 == unit) || c.unresolved.any (·.1 == unit)

/-- Follows one path from a unit. -/
def follow (resolve : Resolver) (importer : String) (c : Collection) (path : String) :
    Collection :=
  let unit := unitName importer path
  if unit == importer || c.knows unit then c
  else
    let asked := c.asked ++ [unit]
    match resolve unit with
    | .ok text => { c with pending := (unit, text) :: c.pending, asked }
    | .error e => { c with unresolved := c.unresolved ++ [(unit, e)], asked }

/-- Finishes one unit. -/
def finish (resolve : Resolver) (unit text : String) (c : Collection) : Collection :=
  let c := (paths text).foldl (follow resolve unit) c
  { c with sources := c.sources.insert unit text }

/-- Finishes pending units, the latest first, in at most this many rounds. -/
def work (resolve : Resolver) : Nat → Collection → Collection
  | 0, c => c
  | n + 1, c =>
    match c.pending with
    | [] => c
    | (unit, text) :: pending => work resolve n (finish resolve unit text { c with pending })

/-- Gathers what the root imports. A round finishes one unit: the root itself, one that the root
names, of which there are fewer than characters in its text, or one of at most `bound` units that
resolve and that other units can name. -/
def ofRoot (resolve : Resolver) (bound : Nat) (unit text : String) : Collection :=
  work resolve (text.length + bound + 1) ⟨∅, [], [(unit, text)], []⟩

end Collection

structure SearchRoots where
  roots : List String
deriving DecidableEq

namespace SearchRoots

/-- A project directory, then its dependencies. -/
def ofProject (directory : String) : SearchRoots :=
  ⟨[directory, Path.join directory "node_modules"]⟩

def add (r : SearchRoots) (root : String) : SearchRoots :=
  if r.roots.any (Path.same root) then r else ⟨r.roots ++ [root]⟩

def candidates (r : SearchRoots) (path : String) : List String :=
  r.roots.map (Path.join · path)

/-- The first candidate that is a file decides. -/
def resolver (r : SearchRoots) (files : FileTree) (cwd : String) : Resolver := fun path =>
  match (r.candidates path).find? (files.isFile cwd) with
  | none => .error (.notFound (r.candidates path))
  | some candidate =>
    match files.read cwd candidate with
    | .ok text => .ok text
    | .error e => .error (.unreadable candidate e.message)

/-- No fewer than the units that the files can name and that resolve: each is spelled by plain names
from some root or from the top of the tree, or stands literally in some file. -/
def bound (r : SearchRoots) (files : FileTree) : Nat := (r.roots.length + 2) * files.extent

end SearchRoots

end SoliditySession.Import
