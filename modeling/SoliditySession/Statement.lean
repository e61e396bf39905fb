import SoliditySession.Solidity.TypeSpelling
/- Statements, the accepted lines of a session, and what each is, judged by its own text alone: the
first fitting description wins. -/
namespace SoliditySession
open Pattern Solidity

/-- The characters that end a statement or a block. -/
def isTerminator (c : Char) : Bool := c == ';' || c == '{' || c == '}'

/-- Adds a semicolon unless the last character already ends a statement or block. -/
def terminate (cs : List Char) : List Char :=
  if cs.getLast?.any isTerminator then cs else cs ++ [';']

/-- Trims a line and ends it. -/
def normalizeTerminator (raw : String) : String :=
  .ofList (terminate (Text.trim raw).toList)

structure Statement where
  text : String
deriving DecidableEq, Inhabited

namespace Statement

def ofRaw (raw : String) : Statement := ⟨normalizeTerminator raw⟩

/-- The text without its semicolon. -/
def body (s : Statement) : String :=
  let cs := s.text.toList
  .ofList (Text.dropBlankEnd (if cs.getLast? == some ';' then cs.dropLast else cs))

end Statement

inductive Role
  | importDirective | typeAlias | enum | constant | struct | interface | library | contract
  | usingDirective | declaration | event | function | expression
deriving DecidableEq, Inhabited

namespace Role

def all : List Role :=
  [importDirective, typeAlias, enum, constant, struct, interface, library, contract,
    usingDirective, declaration, event, function, expression]

def label : Role → String
  | importDirective => "import"
  | typeAlias => "type_alias"
  | enum => "enum"
  | constant => "constant"
  | struct => "struct"
  | interface => "interface"
  | library => "library"
  | contract => "contract"
  | usingDirective => "using_directive"
  | declaration => "declaration"
  | event => "event"
  | function => "function"
  | expression => "expression"

/-- The width of the longest label. -/
def labelWidth : Nat := (all.map (·.label.length)).foldl max 0

/-- The roles that stand outside the container contract, in the order of their rendering. -/
def topLevel : List Role :=
  [importDirective, typeAlias, enum, constant, struct, interface, library, contract]

def isTopLevel (r : Role) : Bool := topLevel.contains r

end Role

/-- A statement's role with what its text reveals. -/
inductive Part
  | importDirective
  | typeAlias
  | enum
  | constant (name type : String)
  | struct
  | interface
  | library
  | contract
  | usingDirective
  | declaration (name type : String) (value : Option String)
  | event
  | function
  /-- `target` is what is assigned or stepped. -/
  | expression (target : Option String)
deriving DecidableEq

namespace Part

def role : Part → Role
  | importDirective => .importDirective
  | typeAlias => .typeAlias
  | enum => .enum
  | constant .. => .constant
  | struct => .struct
  | interface => .interface
  | library => .library
  | contract => .contract
  | usingDirective => .usingDirective
  | declaration .. => .declaration
  | event => .event
  | function => .function
  | expression _ => .expression

/-- What can be read back after the statement. -/
def name? : Part → Option String
  | constant name _ => some name
  | declaration name _ _ => some name
  | expression target => target
  | _ => none

/-- A declaration with a data location lives in a function body only. -/
def isLocal : Part → Bool
  | declaration _ type _ => (location? type).isSome
  | _ => false

def importHead : Pattern := word "import" ++ wordEdge

def typeAliasLine : Pattern :=
  word "type" ++ blanks1 ++ identifier ++ blanks1 ++ word "is" ++ blanks1 ++ elementary ++ blanks ++
    exactly ';' ++ textEnd

def blockHead (keyword : String) : Pattern :=
  word keyword ++ blanks1 ++ identifier ++ blanks ++ exactly '{'

def namedHead (keyword : String) : Pattern :=
  word keyword ++ blanks1 ++ identifier ++ wordEdge

def contractHead : Pattern := optional (word "abstract" ++ blanks1) ++ namedHead "contract"

def constantLine : Pattern :=
  .mark "type" (typeName anyChar) ++ blanks1 ++ word "constant" ++ blanks1 ++
    .mark "name" identifier ++ blanks ++ exactly '=' ++ blanks ++ .many 1 anyChar ++
    exactly ';' ++ textEnd

def usingLine : Pattern :=
  word "using" ++ blanks1 ++ .char (!Text.isBlank ·) ++ .many 0 anyChar ++ blanks1 ++ word "for" ++
    blanks1 ++ .many 1 anyChar ++ exactly ';' ++ textEnd

def declarationLine : Pattern :=
  .mark "type" (locatedTypeName anyChar) ++
    .star (blanks1 ++ words ["public", "private", "internal", "immutable", "override"]) ++
    blanks1 ++ .mark "name" identifier ++
    optional (blanks ++ exactly '=' ++ blanks ++ .mark "value" (.many 1 anyChar)) ++
    exactly ';' ++ textEnd

def functionHead : Pattern :=
  (words ["function", "modifier"] ++ blanks1 ++ identifier ++ wordEdge) <|>
    (words ["constructor", "receive", "fallback"] ++ blanks ++ exactly '(')

def eventHead : Pattern :=
  words ["event", "error"] ++ blanks1 ++ identifier ++ blanks ++ exactly '('

/-- An identifier followed by member and bracket accesses. -/
def assignable : Pattern :=
  identifier ++ .star ((exactly '.' ++ identifier) <|>
    (exactly '[' ++ .many 0 (!isBracket ·) ++ exactly ']'))

def assignmentLine : Pattern :=
  .mark "target" assignable ++ blanks ++ optional (oneOf "-+*/%|&^" <|> words ["<<", ">>"]) ++
    exactly '=' ++ blanks ++ .char (· != '=') ++ .many 0 anyChar ++ exactly ';' ++ textEnd

def steps : Pattern := words ["++", "--"]

def stepLine : Pattern :=
  ((steps ++ blanks ++ .mark "target" assignable) <|> (.mark "target" assignable ++ blanks ++ steps)) ++
    blanks ++ exactly ';' ++ textEnd

def newOnTheRight : Pattern := exactly '=' ++ blanks ++ word "new" ++ wordEdge

def constant? (text : String) : Option Part :=
  (constantLine.match? text).bind fun found =>
    match found.mark? "name", found.mark? "type" with
    | some name, some type => some (.constant name type)
    | _, _ => none

/-- A line such as `return x;` has the form of a declaration without being one. -/
def declaration? (text : String) : Option Part :=
  (declarationLine.match? text).bind fun found =>
    match found.mark? "name", found.mark? "type" with
    | some name, some type =>
      if isStatementKeyword ((Text.firstWord type).getD "") || isStatementKeyword name then none
      else some (.declaration name type ((found.mark? "value").map Text.trim))
    | _, _ => none

def target? (text : String) : Option String :=
  match assignmentLine.match? text with
  | some found => found.mark? "target"
  | none => (stepLine.match? text).bind (·.mark? "target")

def ofText (text : String) : Part :=
  if importHead.matches? text then .importDirective
  else if typeAliasLine.matches? text then .typeAlias
  else if (blockHead "enum").matches? text then .enum
  else if (blockHead "struct").matches? text then .struct
  else if (namedHead "interface").matches? text then .interface
  else if (namedHead "library").matches? text then .library
  else if contractHead.matches? text then .contract
  else
    match constant? text with
    | some part => part
    | none =>
      if usingLine.matches? text then .usingDirective
      else
        match declaration? text with
        | some part => part
        | none =>
          if functionHead.matches? text then .function
          else if eventHead.matches? text then .event
          else .expression (target? text)

/-- What names something is a constant, a declaration or an expression. -/
theorem cases_of_name? {text name : String} (h : (ofText text).name? = some name) :
    constant? text = some (ofText text) ∨ declaration? text = some (ofText text) ∨
      ofText text = .expression (target? text) := by
  generalize hpart : ofText text = part at h ⊢
  rw [ofText] at hpart
  -- the heads name nothing
  iterate 7
    split at hpart
    · rw [← hpart] at h
      cases h
  split at hpart
  · next hconstant => exact .inl (hpart ▸ hconstant)
  split at hpart
  · rw [← hpart] at h
    cases h
  split at hpart
  · next hdeclaration => exact .inr (.inl (hpart ▸ hdeclaration))
  iterate 2
    split at hpart
    · rw [← hpart] at h
      cases h
  exact .inr (.inr hpart.symm)

end Part

namespace Statement

def part (s : Statement) : Part := .ofText s.text

def role (s : Statement) : Role := s.part.role

/-- Whether something is assigned a new instance. -/
def createsInstance (s : Statement) : Bool := (Part.newOnTheRight.find? s.text).isSome

end Statement

end SoliditySession
