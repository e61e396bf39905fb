import SoliditySession.Artifact.Json
import SoliditySession.Compiler
import SoliditySession.Json.Parser
/- The documents that a Solidity compiler exchanges: sources and settings in, diagnostics and
contracts out. -/
namespace SoliditySession.StandardJson
open Json Json.Fields

structure Settings where
  optimize : Bool := false
  evmVersion : Option String := none

def settingsJson (s : Settings) : Json :=
  .obj ([("optimizer", Json.obj [("enabled", .bool s.optimize)]),
    ("outputSelection", .obj [("*", .obj [("*", .arr
      [.str "abi", .str "evm.bytecode.object", .str "evm.methodIdentifiers"])])])] ++
    match s.evmVersion with
    | some v => [("evmVersion", .str v)]
    | none => [])

def sourcesJson (sources : Table String) : Json :=
  .obj (sources.entries.map fun e => (e.1, .obj [("content", .str e.2)]))

def input (sources : Table String) (settings : Settings) : Json :=
  .obj [("language", .str "Solidity"), ("sources", sourcesJson sources),
    ("settings", settingsJson settings)]

def severityOf (s : String) : Severity :=
  if s == "warning" then .warning else if s == "info" then .info else .error

def ofError (severity message : String) (formatted kind code : Option String) : Diagnostic where
  severity := severityOf severity
  message
  rendered := formatted.getD (kind.getD "Error" ++ ": " ++ message)
  kind
  code

def readError : Reader Diagnostic := record "error" <|
  ofError <$> required "severity" readText <*> required "message" readText <*>
    withDefault "formattedMessage" none (nullable readText) <*>
    withDefault "type" none (nullable readText) <*>
    withDefault "errorCode" none (nullable readText)

def readBytecode : Reader String := record "bytecode" <|
  id <$> withDefault "object" "" readText

def readEvm : Reader (String × Table String) := record "evm" <|
  Prod.mk <$> withDefault "bytecode" "" readBytecode <*>
    withDefault "methodIdentifiers" ∅ (tableOf readText)

structure Contract where
  abi : List AbiEntry
  bytecode : String
  selectors : Table String

def readContract : Reader Contract := record "contract" <|
  (fun abi (evm : String × Table String) => Contract.mk abi evm.1 evm.2) <$>
    withDefault "abi" [] (listOf readEntry) <*> withDefault "evm" ("", ∅) readEvm

structure Document where
  errors : List Diagnostic
  contracts : Table (Table Contract)

def readDocument : Reader Document := record "output" <|
  Document.mk <$> withDefault "errors" [] (listOf readError) <*>
    withDefault "contracts" ∅ (tableOf (tableOf readContract))

def Contract.artifact (name : String) (c : Contract) : Artifact :=
  ⟨name, c.abi, c.bytecode, c.selectors⟩

/-- Keeps the contracts of one unit. -/
def Document.output (d : Document) (unit : String) : CompilerOutput where
  diagnostics := d.errors
  contracts := Table.ofList
    (((d.contracts.get? unit).getD ∅).entries.map fun e => (e.1, e.2.artifact e.1))

/-- Reads a compiler's answer for one unit. -/
def output? (text unit : String) : Option CompilerOutput :=
  match (Json.parse? text).map readDocument with
  | some (.ok d) => some (d.output unit)
  | _ => none

end SoliditySession.StandardJson
