import SoliditySession.Import
import SoliditySession.Json
import SoliditySession.StandardJson
import SoliditySession.Text.Basic
/- The compiler as a program: the imports are gathered first, and one document is sent. -/
namespace SoliditySession.StandardJson

/-- What a run of a program leaves behind. -/
structure Run where
  stdout : String
  stderr : String
  exit : Nat

inductive RunFault
  | notStarted (reason : String)
  | pipe (reason : String)

/-- A program with its answers to documents and its version text. -/
structure Program (σ : Type) where
  path : String
  compile : Json → σ → Except RunFault Run × σ
  version : Except RunFault Run

inductive Fault
  | spawn (program reason : String)
  | pipe (reason : String)
  | failed (exit : Nat) (stderr : String)
  | malformed

def Fault.message : Fault → String
  | .spawn program reason => "failed to spawn " ++ program ++ ": " ++ reason
  | .pipe reason => "io error talking to solc: " ++ reason
  | .failed exit stderr => "solc exited with exit status: " ++ toString exit ++ ": " ++ stderr
  | .malformed => "malformed solc output: not the expected document"

def missingImport (u : String × Import.Fault) : Diagnostic :=
  .ofError "ImportError" ("Source \"" ++ u.1 ++ "\" not found: " ++ u.2.message)

/-- Reads what the program left; no output at all is a failure. -/
def readRun (program unit : String) : Except RunFault Run → Except Fault CompilerOutput
  | .error (.notStarted reason) => .error (.spawn program reason)
  | .error (.pipe reason) => .error (.pipe reason)
  | .ok run =>
    if run.stdout == "" then .error (.failed run.exit run.stderr)
    else
      match output? run.stdout unit with
      | some output => .ok output
      | none => .error .malformed

/-- The program is not run if some import is missing. -/
def compile {σ : Type} (program : Program σ) (settings : Settings) (resolve : Import.Resolver)
    (bound : Nat) (s : Submission) (st : σ) : Except Fault CompilerOutput × σ :=
  let found := Import.Collection.ofRoot resolve bound s.name s.source
  if found.unresolved.isEmpty then
    let (run, st) := program.compile (input found.sources settings) st
    (readRun program.path s.name run, st)
  else (.ok ⟨found.unresolved.map missingImport, ∅⟩, st)

def compiler {σ : Type} (program : Program σ) (settings : Settings) (resolve : Import.Resolver)
    (bound : Nat) : Compiler σ where
  compile s st :=
    let (answer, st) := compile program settings resolve bound s st
    (answer.mapError (·.message), st)

def versionMark : List Char := "Version:".toList

/-- The version in the first line that states one. -/
def parseVersion (stdout : String) : Option String :=
  (Text.lines stdout).findSome? fun l =>
    let cs := (Text.trim l).toList
    if versionMark.isPrefixOf cs then
      some (Text.trim (.ofList (cs.drop versionMark.length)))
    else none

def version {σ : Type} (program : Program σ) : Except Fault String :=
  match program.version with
  | .error (.notStarted reason) => .error (.spawn program.path reason)
  | .error (.pipe reason) => .error (.pipe reason)
  | .ok run =>
    match parseVersion run.stdout with
    | some v => .ok v
    | none => .error (.failed run.exit run.stderr)

end SoliditySession.StandardJson
