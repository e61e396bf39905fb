import SoliditySession.Toml.Text
/- Reading TOML documents: values, keys, and lines. -/
namespace SoliditySession.Toml

/-- Neither keys nor values have so many levels. -/
def levels : Nat := 80

def isBare (c : Char) : Bool := c.isAlphanum || c == '_' || c == '-'

def keyPart (cs : List Char) : Parse String :=
  match cs.takeWhile isBare with
  | [] => shortString cs
  | w => some (.ofList w, cs.dropWhile isBare)

/-- The parts of a key, of which the last stands apart; there are at most as many as the first
argument says. -/
def key : Nat → List Char → Parse (List String × String)
  | 0, _ => none
  | n + 1, cs =>
    match keyPart (skipBlank cs) with
    | none => none
    | some (k, r) =>
      match skipBlank r with
      | '.' :: r => (key n r).map fun (ks, r) => ((k :: ks.1, ks.2), r)
      | r => some (([], k), r)

def anyKey (cs : List Char) : Parse (List String × String) := key (levels - 1) cs

/-- Skips blanks, comments and line ends; the first argument bounds the comments. -/
def skipGaps : Nat → List Char → List Char
  | 0, cs => cs
  | n + 1, cs =>
    match skipLines cs with
    | '#' :: r =>
      match newline? (r.dropWhile isPlain) with
      | some r => skipGaps n r
      | none => '#' :: r
    | r => r

def skipAllGaps (cs : List Char) : List Char := skipGaps (cs.length + 1) cs

def literal (word : String) (v : Toml) (cs : List Char) : Parse Toml :=
  if word.toList.isPrefixOf cs then some (v, cs.drop word.length) else none

mutual
def value (level : Nat) : Nat → List Char → Parse Toml
  | 0, _ => none
  | n + 1, cs =>
    match cs with
    | '[' :: r => if level + 1 < levels then items (level + 1) n r [] else none
    | '{' :: r =>
      if level + 1 < levels then
        match skipBlank r with
        | '}' :: r => some (.table .inline [], r)
        | r => pairs (level + 1) n r []
      else none
    | 't' :: _ => literal "true" (.boolean true) cs
    | 'f' :: _ => literal "false" (.boolean false) cs
    | 'i' :: _ => literal "inf" .float cs
    | 'n' :: _ => literal "nan" .float cs
    | '"' :: _ => (quoted cs).map fun (s, r) => (.string s, r)
    | '\'' :: _ => (quoted cs).map fun (s, r) => (.string s, r)
    | _ => numberOrMoment cs

/-- The items of an array that follow those read already. -/
def items (level : Nat) : Nat → List Char → List Toml → Parse Toml
  | 0, _, _ => none
  | n + 1, cs, acc =>
    match skipAllGaps cs with
    | ']' :: r => some (.array acc.reverse, r)
    | r =>
      match value level n r with
      | none => none
      | some (v, r) =>
        match skipAllGaps r with
        | ',' :: r => items level n r (v :: acc)
        | ']' :: r => some (.array (v :: acc).reverse, r)
        | _ => none

/-- The entries between braces that follow those read already. -/
def pairs (level : Nat) : Nat → List Char → Entries → Parse Toml
  | 0, _, _ => none
  | n + 1, cs, es =>
    match anyKey cs with
    | some ((path, k), '=' :: r) =>
      match value level n (skipBlank r) with
      | none => none
      | some (v, r) =>
        match assign path k v .header es, skipBlank r with
        | some es, ',' :: r => pairs level n r es
        | some es, '}' :: r => some (.table .inline es, r)
        | _, _ => none
    | _ => none
end

/-- What has been read, and the path of the last header. -/
structure Document where
  entries : Entries := []
  path : List String := []

namespace Document

def header (cs : List Char) (d : Document) : Option (Document × List Char) := do
  let ((path, k), r) ← anyKey cs
  let r ← expect ']' r
  let entries ← openTable path k d.entries
  some (⟨entries, path ++ [k]⟩, r)

def nextHeader (cs : List Char) (d : Document) : Option (Document × List Char) := do
  let ((path, k), r) ← anyKey cs
  let r ← expect ']' r
  let r ← expect ']' r
  let entries ← openNext path k d.entries
  some (⟨entries, path ++ [k]⟩, r)

def assignment (cs : List Char) (d : Document) : Option (Document × List Char) := do
  let ((path, k), r) ← anyKey cs
  let r ← expect '=' r
  let (v, r) ← value 0 (r.length + 1) (skipBlank r)
  let entries ← alter false (assign path k v) d.path .header d.entries
  some ({ d with entries }, r)

/-- Reads what a line with a content holds. -/
def line (cs : List Char) (d : Document) : Option (Document × List Char) :=
  match skipBlank cs with
  | '[' :: '[' :: r => d.nextHeader r
  | '[' :: r => d.header r
  | r => d.assignment r

def lines : Nat → List Char → Document → Option Document
  | 0, _, _ => none
  | _ + 1, [], d => some d
  | n + 1, c :: cs, d =>
    match lineEnd? (c :: cs) with
    | some r => lines n r d
    | none =>
      match d.line (c :: cs) with
      | none => none
      | some (d, r) =>
        match lineEnd? r with
        | some r => lines n r d
        | none => none

end Document

def dropMark : List Char → List Char
  | '\uFEFF' :: r => r
  | r => r

/-- The table that a text describes, if it is well-formed. A byte order mark may come first. -/
def parse? (s : String) : Option Toml :=
  let cs := dropMark s.toList
  (Document.lines (cs.length + 1) cs {}).map fun d => .table .header d.entries

end SoliditySession.Toml
