/- White space as the Unicode property White_Space has it, and trimming. Lines: a line feed ends
one, and a carriage return just before it goes with it. Quotations: the two characters that would
end or bend one, and the control characters, are written as escapes. -/
namespace SoliditySession.Text

def isBlank (c : Char) : Bool :=
  let n := c.toNat
  (9 ≤ n && n ≤ 13) || n == 0x20 || n == 0x85 || n == 0xA0 || n == 0x1680 ||
    (0x2000 ≤ n && n ≤ 0x200A) || n == 0x2028 || n == 0x2029 || n == 0x202F || n == 0x205F ||
    n == 0x3000

def dropBlank (cs : List Char) : List Char := cs.dropWhile isBlank

/-- Drops the blank characters at the end. -/
def dropBlankEnd (cs : List Char) : List Char := (dropBlank cs.reverse).reverse

def trim (s : String) : String := .ofList (dropBlankEnd (dropBlank s.toList))

def trimEnd (s : String) : String := .ofList (dropBlankEnd s.toList)

/-- The first maximal run of characters that are not blank. -/
def firstWord (s : String) : Option String :=
  match dropBlank s.toList with
  | [] => none
  | c :: cs => some (.ofList (c :: cs.takeWhile (!isBlank ·)))

def dropReturn (l : List Char) : List Char :=
  if l.getLast? == some '\r' then l.dropLast else l

/-- The lines without their ends; what follows the last line feed is a line unless empty. -/
def lineChars (cs : List Char) : List (List Char) :=
  let parts := cs.splitOn '\n'
  let ended := parts.dropLast.map dropReturn
  match parts.getLast? with
  | none => ended
  | some [] => ended
  | some l => ended ++ [l]

def lines (s : String) : List String := (lineChars s.toList).map .ofList

/-- A digit below 16; those behind 9 are small letters. -/
def hexDigit (n : Nat) : Char := if n < 10 then .ofNat (48 + n) else .ofNat (87 + n)

def quotedChar (c : Char) : List Char :=
  if c == '"' then ['\\', '"']
  else if c == '\\' then ['\\', '\\']
  else if c == '\x08' then ['\\', 'b']
  else if c == '\x0c' then ['\\', 'f']
  else if c == '\n' then ['\\', 'n']
  else if c == '\r' then ['\\', 'r']
  else if c == '\t' then ['\\', 't']
  else if c.toNat < 0x20 then
    ['\\', 'u', '0', '0', hexDigit (c.toNat / 16), hexDigit (c.toNat % 16)]
  else [c]

def quotedChars (cs : List Char) : List Char := '"' :: cs.flatMap quotedChar ++ ['"']

def quoted (s : String) : String := .ofList (quotedChars s.toList)

end SoliditySession.Text
