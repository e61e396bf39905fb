import SoliditySession.Compiler
import SoliditySession.Solidity.TypeSpelling
/- Corrections that a diagnostic asks for, read off the wording of the compiler's messages. -/
namespace SoliditySession
open Pattern Solidity

/-- What the entry point should return instead. -/
inductive ReturnFix
  | type (spelling : String)
  | noValue
deriving DecidableEq

/-- Reads corrections out of diagnostics. -/
structure Interpreter where
  returnFix? : Diagnostic → Option ReturnFix
  needsMutation : Diagnostic → Bool

namespace ReturnFix

/-- A path with nothing behind it but a data location; so no internal spelling such as
`int_const 5` passes for a type. -/
def bareUserType? (text : String) : Option String :=
  (userPrefix? text).bind fun path =>
    match Text.firstWord (.ofList (text.toList.drop path.length)) with
    | none => some path
    | some w => if locations.contains w then some path else none

def qualifiers : List String := ["enum", "struct", "contract", "library", "interface"]

/-- The qualifier at the start of a spelling and what follows its space. -/
def splitQualifier (text : String) : Option String × String :=
  let cs := text.toList
  let head := String.ofList (cs.takeWhile (· != ' '))
  if cs.contains ' ' && qualifiers.contains head then
    (some head, .ofList (cs.drop (head.length + 1)))
  else (none, text)

def withLocation (reported : String) (qualifier : Option String) (base : String) : String :=
  match location? reported with
  | some "calldata" => base ++ " calldata"
  | some "memory" => base ++ " memory"
  | _ => if needsLocation base || qualifier == some "struct" then base ++ " memory" else base

/-- Turns a type as the compiler spells it into one that can be returned. -/
def ofReported? (text : String) : Option ReturnFix :=
  let reported := withoutInnerLocations (Text.trim text)
  if reported == "tuple()" then some .noValue
  else if "literal_string".toList.isPrefixOf reported.toList then some (.type "string memory")
  else
    let (qualifier, rest) := splitQualifier reported
    let base := match qualifier with
      | some _ => userPrefix? rest
      | none => (elementaryPrefix? rest).orElse fun _ => bareUserType? rest
    base.map fun b => .type (withLocation reported qualifier b)

end ReturnFix

namespace Interpreter

def returnMismatch : Pattern :=
  word "Return argument type " ++ .mark "type" (.few 1 inLine) ++
    word " is not implicitly convertible to expected type"

def stateModified : Pattern :=
  word "Function declared as " ++ words ["view", "pure"] ++
    word ", but this expression (potentially) modifies the state"

/-- The interpreter for the wording of the Solidity 0.8 compiler. -/
def solidity : Interpreter where
  returnFix? d :=
    ((returnMismatch.match? d.message).bind (·.mark? "type")).bind ReturnFix.ofReported?
  needsMutation d := stateModified.matches? d.message

end Interpreter
end SoliditySession
