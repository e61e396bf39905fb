import SoliditySession.Text.Cluster
import SoliditySession.Text.Utf8
/- The lines of the input: cut at line feeds, read as text, and with their backspaces obeyed. -/
namespace SoliditySession.Prompt

def splitBytes : List UInt8 → List (List UInt8)
  | [] => [[]]
  | b :: bs =>
    match splitBytes bs with
    | [] => [[b]]
    | l :: ls => if b == 10 then [] :: l :: ls else (b :: l) :: ls

def dropReturn (l : List UInt8) : List UInt8 :=
  if l.getLast? == some 13 then l.dropLast else l

/-- What is kept of a line while it is read. -/
structure Kept where
  /-- The text, its last character first. -/
  text : List Char
  /-- The sizes of the clusters it was made of, the last first, each in a byte. -/
  sizes : List UInt8

/-- All but the first characters that fill `n` bytes. -/
def dropBytes : List Char → Nat → List Char
  | [], _ => []
  | c :: cs, n => if n == 0 then c :: cs else dropBytes cs (n - c.utf8Size)

def byteSize (cs : List Char) : Nat := cs.foldr (fun c n => c.utf8Size + n) 0

namespace Kept

def add (k : Kept) (cluster : List Char) : Kept :=
  ⟨cluster.reverse ++ k.text, (byteSize cluster).toUInt8 :: k.sizes⟩

/-- Takes the last cluster away, if there is one. -/
def rubOut (k : Kept) : Kept :=
  match k.sizes with
  | [] => k
  | n :: sizes => ⟨dropBytes k.text n.toNat, sizes⟩

def read (k : Kept) (cluster : List Char) : Kept :=
  if cluster == ['\x08'] then k.rubOut else k.add cluster

end Kept

/-- The line as its writer meant it: a backspace takes the cluster before it away. -/
def obeyBackspaces (line : String) : String :=
  .ofList (((Text.clusters line.toList).foldl Kept.read ⟨[], []⟩).text.reverse)

/-- The lines of the input without their ends; a line that is no text has none. -/
def inputLines (bytes : List UInt8) : List (Option String) :=
  let parts := splitBytes bytes
  let ended := parts.dropLast.map dropReturn
  let lines := match parts.getLast? with
    | none | some [] => ended
    | some l => ended ++ [l]
  lines.map fun l => (Text.ofBytes? l).map obeyBackspaces

end SoliditySession.Prompt
