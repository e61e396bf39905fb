import SoliditySession.Json.Reader
import SoliditySession.Path
import SoliditySession.Toml.Document
/- The configuration: its defaults, its text, and what a text leaves to the defaults. -/
namespace SoliditySession
open Json Json.Fields

structure CompilerConfig where
  program : String := "solc"
  pragma : String := "^0.8.0"
  evmVersion : Option String := none
  optimize : Bool := false

structure NodeConfig where
  url : String := "http://127.0.0.1:8545"
  /-- The sending account; the node's first account if there is none. -/
  signer : Option String := none
  gas : Nat := 6000000
  /-- In seconds. -/
  timeout : Nat := 30

structure Config where
  compiler : CompilerConfig := {}
  /-- Where imports are looked for, relative to the project, in this order. -/
  roots : List String := [".", "node_modules"]
  node : NodeConfig := {}
  historyPath : Option String := none

namespace Config

def readNumber : Reader Nat
  | .int n => if 0 ≤ n then .ok n.toNat else .error (.outOfRange n "a natural number")
  | j => wrong j "a natural number"

def readFlag : Reader Bool
  | .bool b => .ok b
  | j => wrong j "a boolean"

/-- A part of the configuration. As an array it may be shorter or longer than its fields. -/
def part {α : Type} (name : String) (fields : Fields α) : Reader α
  | .arr js => record name fields (.arr (js.take fields.count))
  | j => record name fields j

def readCompiler : Reader CompilerConfig :=
  let d : CompilerConfig := {}
  part "compiler" <|
    CompilerConfig.mk <$> withDefault "solc" d.program readText <*>
      withDefault "pragma" d.pragma readText <*>
      withDefault "evm_version" d.evmVersion (nullable readText) <*>
      withDefault "optimize" d.optimize readFlag

def readRoots : Reader (List String) :=
  part "imports" <| id <$> withDefault "roots" ({} : Config).roots (listOf readText)

def readNode : Reader NodeConfig :=
  let d : NodeConfig := {}
  part "node" <|
    NodeConfig.mk <$> withDefault "rpc_url" d.url readText <*>
      withDefault "signer" d.signer (nullable readText) <*> withDefault "gas" d.gas readNumber <*>
      withDefault "timeout_secs" d.timeout readNumber

def readHistoryPath : Reader (Option String) :=
  part "repl" <| id <$> withDefault "history_path" none (nullable readText)

def readConfig : Reader Config :=
  let d : Config := {}
  record "configuration" <|
    Config.mk <$> withDefault "compiler" d.compiler readCompiler <*>
      withDefault "imports" d.roots readRoots <*> withDefault "node" d.node readNode <*>
      withDefault "repl" d.historyPath readHistoryPath

/-- The configuration that a text describes, if it describes one. -/
def parse? (text : String) : Option Config :=
  match (Toml.parse? text).map fun t => readConfig t.json with
  | some (.ok c) => some c
  | _ => none

/-- The directories that imports are looked for in. -/
def importRoots (c : Config) (project : String) : List String :=
  c.roots.map fun root => if Path.same root "." then project else Path.join project root

/-- A text that states the defaults. -/
def template : String := String.join <| List.map (· ++ "\n")
  ["# solrepl configuration",
    "",
    "[compiler]",
    "solc = \"solc\"",
    "pragma = \"^0.8.0\"",
    "# evm_version = \"paris\"",
    "optimize = false",
    "",
    "[imports]",
    "# Searched in order, relative to the project directory",
    "roots = [\".\", \"node_modules\"]",
    "",
    "[node]",
    "rpc_url = \"http://127.0.0.1:8545\"",
    "# signer = \"0x...\"",
    "gas = 6000000",
    "timeout_secs = 30",
    "",
    "[repl]",
    "# history_path = \"~/.solrepl/history\""]

end Config
end SoliditySession
