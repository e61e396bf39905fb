import SoliditySession.Abi.Type
import SoliditySession.Resolution
/- A session, which grows and shrinks at its end only, and one turn of the shell: a line is added to
the session, compiled, and run. -/
namespace SoliditySession

/-- The accepted statements. -/
structure Session where
  statements : List Statement
deriving DecidableEq

namespace Session
variable {σ : Type}

def new : Session := ⟨[]⟩

def push (s : Session) (x : Statement) : Session := ⟨s.statements ++ [x]⟩

def dropLast (s : Session) : Session := ⟨s.statements.dropLast⟩

/-- Drops the last statement. -/
def pop (s : Session) : Option Statement × Session := (s.statements.getLast?, s.dropLast)

/-- Makes the trials for the session with one more line, which stays if they end in an artifact. -/
def submit (s : Session) (t : Toolchain σ) (raw : String) (st : σ) : Resolution × Session × σ :=
  let tried := s.push (.ofRaw raw)
  let (r, st) := t.resolve tried.statements st
  (r, if r.last.artifact.isSome then tried else s, st)

end Session

/-- Runs an entry point; it may fail with a text, and yields no value where none is returned. -/
structure Executor (τ : Type) where
  run : Artifact → String → τ → Except String (Option Value) × τ

inductive Outcome
  | value (v : Value)
  | noValue
  /-- Compiled without running, with the type of what would be returned. -/
  | compiled (returnType : Option String)
  | compileFailed (d : Diagnostic)
  | execFailed (text : String)

def Outcome.isFailure : Outcome → Bool
  | .compileFailed _ | .execFailed _ => true
  | _ => false

structure Services (σ τ : Type) where
  toolchain : Toolchain σ
  executor : Option (Executor τ)

/-- A session with the source compiled last and the states of the services. -/
structure Shell (σ τ : Type) where
  session : Session
  lastSource : Option String
  compilerState : σ
  executorState : τ

namespace Shell
variable {σ τ : Type}

def new (s : σ) (t : τ) : Shell σ τ := ⟨.new, none, s, t⟩

def reset (sh : Shell σ τ) : Shell σ τ := { sh with session := .new, lastSource := none }

def pop (sh : Shell σ τ) : Option Statement × Shell σ τ :=
  let (dropped, session) := sh.session.pop
  (dropped, { sh with session })

def compileFailure (a : Attempt) : Diagnostic :=
  a.error?.getD (.ofError "ServiceError" "compiler produced no artifact")

/-- What is shown of a compiled session that is not run. -/
def compiledType (spec : ReturnSpec) : Option String := spec.expression.map fun _ => spec.returnType

/-- Runs a compiled session; a failure undoes the line just added. -/
def run (e : Executor τ) (entryPoint : String) (a : Artifact) (sh : Shell σ τ) :
    Outcome × Shell σ τ :=
  let (result, executorState) := e.run a entryPoint sh.executorState
  let sh := { sh with executorState }
  match result with
  | .ok (some v) => (.value v, sh)
  | .ok none => (.noValue, sh)
  | .error text => (.execFailed text, { sh with session := sh.session.dropLast })

def eval (services : Services σ τ) (line : String) (sh : Shell σ τ) : Outcome × Shell σ τ :=
  let (r, session, compilerState) := sh.session.submit services.toolchain line sh.compilerState
  let sh := { sh with session, compilerState, lastSource := some r.last.unit.source }
  match r.last.artifact, services.executor with
  | none, _ => (.compileFailed (compileFailure r.last), sh)
  | some _, none => (.compiled (compiledType r.last.unit.spec), sh)
  | some a, some e => run e services.toolchain.options.entryPoint a sh

/-- Evaluates lines up to the first that fails; the last outcome is given. -/
def evalAll (services : Services σ τ) :
    List String → Option Outcome → Shell σ τ → Option Outcome × Shell σ τ
  | [], last, sh => (last, sh)
  | line :: lines, _, sh =>
    let (outcome, sh) := sh.eval services line
    if outcome.isFailure then (some outcome, sh) else evalAll services lines (some outcome) sh

end Shell

end SoliditySession
