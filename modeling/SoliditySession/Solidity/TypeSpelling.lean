import SoliditySession.Pattern
/- How Solidity types are spelled, in declarations and in the compiler's messages. -/
namespace SoliditySession.Solidity
open Pattern

def isIdentStart (c : Char) : Bool := c.isAlpha || c == '$' || c == '_'

def isIdentChar (c : Char) : Bool := c.isAlphanum || c == '$' || c == '_'

def identifier : Pattern := .char isIdentStart ++ .many 0 isIdentChar

/-- Identifiers joined by points. -/
def userPath : Pattern := identifier ++ .star (exactly '.' ++ identifier)

/-- The widths of integer types, widest first. -/
def intWidths : List String := (List.range 32).map fun i => toString (256 - 8 * i)

def bytesType : Pattern :=
  word "bytes" ++ optional (
    (exactly '3' ++ oneOf "012") <|> (oneOf "12" ++ .char Char.isDigit) <|> oneOf "123456789")

def uintType : Pattern := word "uint" ++ optional (words intWidths)

def intType : Pattern := word "int" ++ optional (words intWidths)

def fixedType : Pattern :=
  optional (exactly 'u') ++ word "fixed" ++
    optional (.many 1 Char.isDigit ++ exactly 'x' ++ .many 1 Char.isDigit)

/-- A built-in type; its name has to end where a word ends. -/
def elementary : Pattern :=
  choice [word "address payable", word "address", word "bool", word "string", bytesType, uintType,
    intType, fixedType] ++ wordEdge

def isBracket (c : Char) : Bool := c == '[' || c == ']'

/-- Array dimensions: `[]`, `[3]`, `[][N]`. -/
def dimensions : Pattern :=
  .star (exactly '[' ++ .many 0 (!isBracket ·) ++ exactly ']')

def locations : List String := ["calldata", "memory", "storage"]

def isParen (c : Char) : Bool := c == '(' || c == ')'

def functionType : Pattern :=
  let parameters := blanks ++ exactly '(' ++ .many 0 (!isParen ·) ++ exactly ')'
  word "function" ++ parameters ++
    .star (blanks1 ++ words
      ["public", "private", "internal", "external", "pure", "view", "payable"]) ++
    optional (blanks1 ++ word "returns" ++ parameters)

/-- A mapping whose inside is made of characters in `inside`; it may nest. -/
def mapping (inside : Char → Bool) : Pattern :=
  word "mapping" ++ blanks ++ exactly '(' ++ .many 1 inside ++ word "=>" ++ .many 1 inside ++
    exactly ')'

def elementaryArray : Pattern := elementary ++ dimensions

def userArray : Pattern := userPath ++ dimensions

/-- Any type that a variable can have. -/
def typeName (inside : Char → Bool) : Pattern :=
  choice [mapping inside, functionType, elementary, userPath] ++ dimensions

def locatedTypeName (inside : Char → Bool) : Pattern :=
  typeName inside ++ optional (blanks1 ++ words locations)

def anyChar : Char → Bool := fun _ => true

def inLine (c : Char) : Bool := c != '\n'

/-- Words that may begin a statement and hence name no type. -/
def statementKeywords : List String :=
  ["return", "delete", "emit", "revert", "if", "else", "for", "while", "do", "break", "continue",
    "unchecked", "assembly", "try", "new", "import", "using", "pragma"]

def isStatementKeyword (s : String) : Bool := statementKeywords.contains s

/-- What may follow a location in a compiler message. -/
def locationDetail : Pattern := optional (blanks1 ++ words ["pointer", "ref", "slice"])

def trailingLocation : Pattern :=
  .char Text.isBlank ++ .mark "location" (words locations) ++ locationDetail ++ textEnd

def innerLocation : Pattern :=
  blanks1 ++ words locations ++ locationDetail ++ blanks ++ exactly '['

/-- The built-in type with its dimensions at the start of a text. -/
def elementaryPrefix? (s : String) : Option String := elementaryArray.taken? s

/-- The user-defined path with its dimensions at the start of a text. -/
def userPrefix? (s : String) : Option String := userArray.taken? s

/-- The data location at the end of a spelling. -/
def location? (s : String) : Option String :=
  (trailingLocation.find? s).bind fun found => found.2.mark? "location"

/-- Drops the data locations written between array dimensions. -/
def withoutInnerLocations (s : String) : String := innerLocation.replaceAll "[" s

/-- Types that cannot be returned without a data location. -/
def needsLocation (s : String) : Bool :=
  s.toList.getLast? == some ']' || s == "string" || s == "bytes"

end SoliditySession.Solidity
