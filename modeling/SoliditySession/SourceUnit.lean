import SoliditySession.Statement
import SoliditySession.Text.Basic
/- The source unit that a session is rendered into: one contract whose entry point yields the
value of the last statement. -/
namespace SoliditySession

/-- Names and settings of the rendered unit. -/
structure UnitOptions where
  pragma : String := "^0.8.0"
  contractName : String := "Main"
  entryPoint : String := "exec"
  sourceName : String := "main.sol"
  /-- The return type to try first. -/
  placeholderType : String := "int256"
deriving DecidableEq

/-- How the entry point closes; without an expression it returns nothing. -/
structure ReturnSpec where
  returnType : String
  mayMutate : Bool
  expression : Option String
deriving DecidableEq

/-- The expression that reads back the last statement. -/
def returnExpression (statements : List Statement) : Option String :=
  statements.getLast?.bind fun last =>
    let part := last.part
    match part.role with
    | .expression | .declaration | .constant => some (part.name?.getD last.body)
    | _ => none

/-- Whether a statement creates an instance, so that the entry point cannot be a view. -/
def forcesMutation (statements : List Statement) : Bool :=
  statements.any fun s =>
    match s.role with
    | .expression | .declaration | .constant => s.createsInstance
    | _ => false

/-- The specification to try first. -/
def ReturnSpec.guess (options : UnitOptions) (statements : List Statement) : ReturnSpec :=
  ⟨options.placeholderType, forcesMutation statements, returnExpression statements⟩

/-- Where a statement goes. -/
inductive Slot
  | outside (role : Role)
  | member
  | body
  /-- The return clause evaluates it. -/
  | returned
deriving DecidableEq

/-- Only a last statement without a target is left to the return clause. -/
def Slot.of (spec : ReturnSpec) (last : Bool) (part : Part) : Slot :=
  match part with
  | .declaration .. => if part.isLocal then .body else .member
  | .usingDirective | .event | .function => .member
  | .expression none => if last && spec.expression.isSome then .returned else .body
  | .expression (some _) => .body
  | _ => .outside part.role

def placements (spec : ReturnSpec) : List Statement → List (Slot × String)
  | [] => []
  | [s] => [(Slot.of spec true s.part, s.text)]
  | s :: t :: r => (Slot.of spec false s.part, s.text) :: placements spec (t :: r)

/-- The texts in one slot, in session order. -/
def inSlot (placed : List (Slot × String)) (slot : Slot) : List String :=
  (placed.filter (·.1 == slot)).map (·.2)

/-- The lines of a text, indented unless blank. -/
def indented (indent text : String) : List String :=
  (Text.lines text).map fun l => if l.toList.all Text.isBlank then "" else indent ++ l

def block (texts : List String) : List String :=
  if texts.isEmpty then [] else "" :: texts.flatMap (indented "")

def signature (options : UnitOptions) (spec : ReturnSpec) : String :=
  "function " ++ options.entryPoint ++ "() public" ++
    match spec.expression with
    | some _ => (if spec.mayMutate then "" else " view") ++ " returns (" ++ spec.returnType ++ ")"
    | none => ""

/-- The rendered unit, line by line. -/
def unitLines (options : UnitOptions) (spec : ReturnSpec) (statements : List Statement) :
    List String :=
  let placed := placements spec statements
  let members := inSlot placed .member
  ["// SPDX-License-Identifier: UNLICENSED", "pragma solidity " ++ options.pragma ++ ";"] ++
    Role.topLevel.flatMap (fun r => block (inSlot placed (.outside r))) ++
    ["", "contract " ++ options.contractName ++ " \x7b"] ++
    members.flatMap (indented "    ") ++
    (if members.isEmpty then [] else [""]) ++
    ["    " ++ signature options spec ++ " \x7b"] ++
    (inSlot placed .body).flatMap (indented "        ") ++
    (match spec.expression with
      | some e => ["        return " ++ e ++ ";"]
      | none => []) ++
    ["    \x7d", "\x7d"]

structure SourceUnit where
  source : String
  spec : ReturnSpec
deriving DecidableEq

/-- Renders a session. -/
def SourceUnit.assemble (options : UnitOptions) (spec : ReturnSpec)
    (statements : List Statement) : SourceUnit :=
  ⟨String.join ((unitLines options spec statements).map (· ++ "\n")), spec⟩

def SourceUnit.preview (options : UnitOptions) (statements : List Statement) : SourceUnit :=
  .assemble options (.guess options statements) statements

end SoliditySession
