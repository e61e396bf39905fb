import SoliditySession.Text.Basic
/- Commands at the prompt, which begin with a point, and completing the word before the cursor. -/
namespace SoliditySession.Prompt

inductive Command
  | exit | help | session | source | pop | reset
deriving DecidableEq

namespace Command

def all : List Command := [exit, help, session, source, pop, reset]

def word : Command → String
  | exit => ".exit"
  | help => ".help"
  | session => ".session"
  | source => ".source"
  | pop => ".pop"
  | reset => ".reset"

def purpose : Command → String
  | exit => "Exit the REPL"
  | help => "Print this message"
  | session => "Print current session"
  | source => "Print the last synthesized source"
  | pop => "Drop the last accepted line"
  | reset => "Clear the session"

end Command

inductive Entry
  | statement
  | unknown
  | command (c : Command)
deriving DecidableEq

/-- Letters of the English alphabet count alike in both cases. -/
def Entry.of (line : String) : Entry :=
  let cs := (Text.trim line).toList
  if cs.head? == some '.' then
    let word := String.ofList (cs.map Char.toLower)
    match Command.all.find? (·.word == word) with
    | some c => .command c
    | none => .unknown
  else .statement

def keywords : List String :=
  ["address", "bool", "bytes", "bytes32", "calldata", "constant", "contract", "emit", "enum",
    "event", "external", "function", "import", "int256", "interface", "internal", "library",
    "mapping", "memory", "new", "payable", "private", "public", "pure", "return", "returns",
    "storage", "string", "struct", "type", "uint256", "using", "view"]

def breaksWord (c : Char) : Bool := Text.isBlank c || "([\x7b,;=".toList.contains c

/-- What lies before a place given in bytes. -/
def before (bytes : Nat) : List Char → List Char
  | [] => []
  | c :: cs => if c.utf8Size ≤ bytes then c :: before (bytes - c.utf8Size) cs else []

def byteLength : List Char → Nat
  | [] => 0
  | c :: cs => c.utf8Size + byteLength cs

/-- Where the word before the cursor begins, in bytes, and what it may become. -/
def complete (line : String) (position : Nat) : Nat × List String :=
  let passed := before position line.toList
  let word := (passed.reverse.takeWhile (!breaksWord ·)).reverse
  let start := byteLength passed - byteLength word
  if word.isEmpty then (start, [])
  else
    let pool :=
      if start == 0 && word.head? == some '.' then Command.all.map (·.word) else keywords
    (start, pool.filter fun w => word.isPrefixOf w.toList)

end SoliditySession.Prompt
