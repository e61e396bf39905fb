import SoliditySession.Path
import SoliditySession.Text.Utf8
/- A file system without links, and looking paths up in it. -/
namespace SoliditySession

inductive FileFault
  | missing
  | notADirectory
  | isADirectory
  | exists
  | nameTooLong
  | nulInPath
  | notText
  /-- Whatever else the operating system answers, by its text. -/
  | other (message : String)
deriving DecidableEq

def FileFault.message : FileFault → String
  | .missing => "No such file or directory (os error 2)"
  | .notADirectory => "Not a directory (os error 20)"
  | .isADirectory => "Is a directory (os error 21)"
  | .exists => "File exists (os error 17)"
  | .nameTooLong => "File name too long (os error 36)"
  | .nulInPath => "file name contained an unexpected NUL byte"
  | .notText => "stream did not contain valid UTF-8"
  | .other message => message

/-- A file has a content, or it cannot be read. -/
inductive FileTree
  | file (content : Except FileFault (List UInt8))
  | directory (entries : List (String × FileTree))
deriving Inhabited

namespace FileTree

/-- Goes through the segments of a path; the directories passed are kept for going up again. -/
def walk (above : List FileTree) (here : FileTree) :
    List String → Except FileFault FileTree
  | [] => .ok here
  | s :: r =>
    match here with
    | .file _ => .error .notADirectory
    | .directory entries =>
      if s == "" || s == "." then walk above here r
      else if s == ".." then
        match above with
        | [] => walk [] here r
        | d :: ds => walk ds d r
      else if 255 < s.utf8ByteSize then .error .nameTooLong
      else
        match entries.lookup s with
        | none => .error .missing
        | some next => walk (here :: above) next r

/-- What a path leads to from an absolute working directory. -/
def find (root : FileTree) (cwd path : String) : Except FileFault FileTree :=
  if path.toList.contains '\x00' then .error .nulInPath
  else if path == "" then .error .missing
  else if 4095 < path.utf8ByteSize then .error .nameTooLong
  else walk [] root ((Path.segments (Path.join cwd path)).drop 1)

def isFile (root : FileTree) (cwd path : String) : Bool :=
  match root.find cwd path with
  | .ok (.file _) => true
  | _ => false

def isPresent (root : FileTree) (cwd path : String) : Bool :=
  match root.find cwd path with
  | .ok _ => true
  | .error _ => false

def read (root : FileTree) (cwd path : String) : Except FileFault String :=
  match root.find cwd path with
  | .error e => .error e
  | .ok (.directory _) => .error .isADirectory
  | .ok (.file (.error e)) => .error e
  | .ok (.file (.ok content)) =>
    match Text.ofBytes? content with
    | some s => .ok s
    | none => .error .notText

/-- Puts something at a path of plain names; directories on the way are made. -/
def put (node : FileTree) : List String → FileTree → FileTree
  | [], _ => node
  | s :: r, .directory entries =>
    let old := (entries.lookup s).getD (.directory [])
    .directory (entries.filter (·.1 != s) ++ [(s, put node r old)])
  | s :: r, .file _ => .directory [(s, put node r (.directory []))]

/-- The names on the way to an absolute path, where `..` takes one back. -/
def plainNames (path : String) : List String :=
  ((Path.segments path).foldl (fun above s =>
    if s == "" || s == "." then above else if s == ".." then above.drop 1 else s :: above) []).reverse

/-- Writes a file at an absolute path. -/
def write (root : FileTree) (path : String) (content : List UInt8) : FileTree :=
  put (.file (.ok content)) (plainNames path) root

/-- Makes the first directory of a list of paths that each stand above the one before; those above
it come first if it cannot be made without them. -/
def makeFirst (root : FileTree) (cwd : String) : List String → Except FileFault FileTree
  | [] => .ok root
  | "" :: _ => .ok root
  | path :: above =>
    match root.find cwd path with
    | .ok (.directory _) => .ok root
    | .ok (.file _) => .error .exists
    | .error .missing =>
      match makeFirst root cwd above with
      | .error e => .error e
      | .ok root =>
        match root.find cwd path with
        | .ok (.directory _) => .ok root
        | .ok (.file _) => .error .exists
        | .error .missing => .ok (put (.directory []) (plainNames (Path.join cwd path)) root)
        | .error e => .error e
    | .error e => .error e

/-- Makes a directory and those above it. -/
def makeDirectory (root : FileTree) (cwd path : String) : Except FileFault FileTree :=
  root.makeFirst cwd (Path.ancestors path)

mutual
/-- The number of files and directories and the length of all contents. -/
def extent : FileTree → Nat
  | .file (.ok content) => content.length + 1
  | .file (.error _) => 1
  | .directory entries => extents entries + 1

def extents : List (String × FileTree) → Nat
  | [] => 0
  | (_, t) :: r => extent t + extents r
end

end FileTree
end SoliditySession
