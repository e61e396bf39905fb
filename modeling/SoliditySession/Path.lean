/- File paths as texts: joined without being tidied, taken apart into components. -/
namespace SoliditySession.Path

inductive Component
  | root
  | here
  | up
  | name (s : String)
deriving DecidableEq

def Component.text : Component → String
  | .root => "/"
  | .here => "."
  | .up => ".."
  | .name s => s

def segments (path : String) : List String := (path.toList.splitOn '/').map .ofList

def isAbsolute (path : String) : Bool := path.toList.head? == some '/'

/-- The components of segments that follow another one: empty ones and `.` vanish. -/
def inner : List String → List Component
  | [] => []
  | s :: r =>
    if s == "" || s == "." then inner r
    else (if s == ".." then .up else .name s) :: inner r

def components (path : String) : List Component :=
  if isAbsolute path then .root :: inner (segments path)
  else
    match segments path with
    | "." :: r => .here :: inner r
    | r => inner r

/-- An absolute right side replaces the left one. -/
def join (a b : String) : String :=
  if isAbsolute b || a == "" then b
  else if a.toList.getLast? == some '/' then a ++ b
  else a ++ "/" ++ b

/-- Drops segments that are no components from the end, given in reverse. -/
def tidyEnd (absolute : Bool) : List String → List String
  | [] => []
  | [s] => if s == "" || (s == "." && absolute) then [] else [s]
  | s :: r => if s == "" || s == "." then tidyEnd absolute r else s :: r

/-- What remains of a path without its last component. -/
def parent? (path : String) : Option String :=
  let absolute := isAbsolute path
  let ss := segments path
  let rest := if absolute then ss.drop 1 else ss
  match tidyEnd absolute rest.reverse with
  | [] => none
  | _ :: r =>
    let kept := (tidyEnd absolute r).reverse
    some ((if absolute then "/" else "") ++ "/".intercalate kept)

/-- A path and the directories above it. -/
def ancestors (path : String) : List String := go (segments path).length path
where
  go : Nat → String → List String
    | 0, path => [path]
    | n + 1, path =>
      match parent? path with
      | some above => path :: go n above
      | none => [path]

def same (a b : String) : Bool := components a == components b

end SoliditySession.Path
