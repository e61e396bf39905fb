import SoliditySession.Compiler
import SoliditySession.Diagnostic.Signal
import SoliditySession.SourceUnit
/- Finding the entry point's return type and mutability by trial compilation. The first trial
guesses; each later one applies one correction that the first error of the trial before it asks
for, in the order of the ladder. -/
namespace SoliditySession

structure Attempt where
  unit : SourceUnit
  diagnostics : List Diagnostic
  artifact : Option Artifact

def Attempt.error? (a : Attempt) : Option Diagnostic := Diagnostic.firstError? a.diagnostics

inductive Correction
  | returnType
  | mutability
deriving DecidableEq

def Correction.ladder : List Correction := [.returnType, .mutability]

/-- The corrected specification, if the diagnostic asks for this correction. -/
def Correction.apply? (c : Correction) (i : Interpreter) (d : Diagnostic) (spec : ReturnSpec) :
    Option ReturnSpec :=
  match c with
  | .returnType =>
    match i.returnFix? d with
    | some (.type t) => some { spec with returnType := t }
    | some .noValue => some { spec with expression := none }
    | none => none
  | .mutability =>
    if spec.mayMutate || !i.needsMutation d then none else some { spec with mayMutate := true }

structure Toolchain (σ : Type) where
  compiler : Compiler σ
  interpreter : Interpreter
  options : UnitOptions

/-- The attempts made for one session, in order. -/
structure Resolution where
  earlier : List Attempt
  last : Attempt

namespace Resolution

def attempts (r : Resolution) : List Attempt := r.earlier ++ [r.last]

/-- The number of the trial that ended it. -/
def trial (r : Resolution) : Nat := r.earlier.length + 1

end Resolution

/-- What the trials for a session come to. -/
structure Verdict where
  unit : SourceUnit
  error : Option Diagnostic
  artifact : Option Artifact
  warnings : List Diagnostic

def Resolution.verdict (r : Resolution) : Verdict :=
  ⟨r.last.unit, r.last.error?, r.last.artifact, Diagnostic.warnings r.last.diagnostics⟩

/-- Reads a compiler's answer; an answer without an error has to hold the container contract. -/
def Attempt.ofAnswer (options : UnitOptions) (unit : SourceUnit) :
    Except String CompilerOutput → Attempt
  | .error text => ⟨unit, [.ofError "ServiceError" text], none⟩
  | .ok output =>
    match Diagnostic.firstError? output.diagnostics, output.contracts.get? options.contractName with
    | some _, _ => ⟨unit, output.diagnostics, none⟩
    | none, some artifact => ⟨unit, output.diagnostics, some artifact⟩
    | none, none =>
      ⟨unit, output.diagnostics ++ [.ofError "ServiceError"
        ("compiler output has no contract '" ++ options.contractName ++ "'")], none⟩

namespace Toolchain
variable {σ : Type}

def attempt (t : Toolchain σ) (statements : List Statement) (spec : ReturnSpec) (s : σ) :
    Attempt × σ :=
  let unit := SourceUnit.assemble t.options spec statements
  let (answer, s) := t.compiler.compile ⟨t.options.sourceName, unit.source⟩ s
  (.ofAnswer t.options unit answer, s)

def climb (t : Toolchain σ) (statements : List Statement) :
    List Correction → Resolution → σ → Resolution × σ
  | [], r, s => (r, s)
  | c :: cs, r, s =>
    match r.last.error? with
    | none => (r, s)
    | some d =>
      match c.apply? t.interpreter d r.last.unit.spec with
      | none => climb t statements cs r s
      | some spec =>
        let (a, s) := t.attempt statements spec s
        climb t statements cs ⟨r.attempts, a⟩ s

/-- Makes the trials for a session. -/
def resolve (t : Toolchain σ) (statements : List Statement) (s : σ) : Resolution × σ :=
  let (a, s) := t.attempt statements (.guess t.options statements) s
  t.climb statements Correction.ladder ⟨[], a⟩ s

/-- Makes the trials for a whole session of raw lines. -/
def compileAll (t : Toolchain σ) (lines : List String) (s : σ) : Resolution × σ :=
  t.resolve (lines.map .ofRaw) s

end Toolchain
end SoliditySession
