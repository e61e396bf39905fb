import SoliditySession.Table
/- The compiler as a session sees it: what it is given, what it reports, and the contracts that it
compiles. -/
namespace SoliditySession

inductive Severity
  | error | warning | info
deriving DecidableEq

def Severity.label : Severity → String
  | .error => "error"
  | .warning => "warning"
  | .info => "info"

structure Diagnostic where
  severity : Severity
  message : String
  /-- The message as shown, with its place in the source. -/
  rendered : String
  kind : Option String
  code : Option String
deriving DecidableEq

namespace Diagnostic

def ofError (kind message : String) : Diagnostic :=
  ⟨.error, message, kind ++ ": " ++ message, some kind, none⟩

def isError (d : Diagnostic) : Bool := d.severity == .error

def firstError? (ds : List Diagnostic) : Option Diagnostic := ds.find? (·.isError)

def warnings (ds : List Diagnostic) : List Diagnostic := ds.filter (!·.isError)

end Diagnostic

/-- A parameter; `components` are those of a tuple. -/
structure AbiParam where
  name : String
  type : String
  components : List AbiParam
  internalType : Option String

structure AbiEntry where
  kind : String
  name : Option String
  inputs : List AbiParam
  outputs : List AbiParam
  stateMutability : Option String

structure Artifact where
  name : String
  abi : List AbiEntry
  /-- Creation code in hexadecimal. -/
  bytecode : String
  /-- Selectors in hexadecimal by signature. -/
  selectors : Table String

namespace Artifact

def function? (a : Artifact) (name : String) : Option AbiEntry :=
  a.abi.find? fun e => e.kind == "function" && e.name == some name

/-- The selector of a function without parameters. -/
def selector? (a : Artifact) (name : String) : Option String := a.selectors.get? (name ++ "()")

end Artifact

/-- A source text and the name of its unit. -/
structure Submission where
  name : String
  source : String
deriving DecidableEq

structure CompilerOutput where
  diagnostics : List Diagnostic
  contracts : Table Artifact

/-- A service that may fail with a text and whose answers may depend on its state. -/
structure Compiler (σ : Type) where
  compile : Submission → σ → Except String CompilerOutput × σ

/-- A service whose answers depend on the submission alone. -/
def Compiler.ofFunction (f : Submission → Except String CompilerOutput) : Compiler Unit :=
  ⟨fun s _ => (f s, ())⟩

end SoliditySession
