import SoliditySession.Compiler
import SoliditySession.Json.Reader
/- Artifacts and diagnostics as JSON. Empty components and absent internal types are left out;
other absent fields are written as null. -/
namespace SoliditySession
open Json Json.Fields

def optionalText : Option String → Json
  | some s => .str s
  | none => .null

mutual
def AbiParam.toJson : AbiParam → Json
  | ⟨name, type, components, internalType⟩ =>
    .obj ([("name", Json.str name), ("type", Json.str type)] ++
      (if components.isEmpty then [] else [("components", Json.arr (paramsJson components))]) ++
      match internalType with
      | some t => [("internalType", Json.str t)]
      | none => [])

def paramsJson : List AbiParam → List Json
  | [] => []
  | p :: ps => p.toJson :: paramsJson ps
end

def AbiEntry.toJson (e : AbiEntry) : Json :=
  .obj [("type", .str e.kind), ("name", optionalText e.name), ("inputs", .arr (paramsJson e.inputs)),
    ("outputs", .arr (paramsJson e.outputs)), ("stateMutability", optionalText e.stateMutability)]

def selectorsJson (t : Table String) : Json := .obj (t.entries.map fun e => (e.1, .str e.2))

def Artifact.toJson (a : Artifact) : Json :=
  .obj [("name", .str a.name), ("abi", .arr (a.abi.map (·.toJson))), ("bytecode", .str a.bytecode),
    ("method_identifiers", selectorsJson a.selectors)]

def Diagnostic.toJson (d : Diagnostic) : Json :=
  .obj [("severity", .str d.severity.label), ("message", .str d.message),
    ("rendered", .str d.rendered), ("kind", optionalText d.kind), ("code", optionalText d.code)]

/-- Reads a parameter nested no deeper than the given bound. -/
def readParam : Nat → Reader AbiParam
  | 0 => fun _ => .error .unreadable
  | n + 1 => record "AbiParam" <|
    AbiParam.mk <$> withDefault "name" "" readText <*> required "type" readText <*>
      withDefault "components" [] (listOf (readParam n)) <*>
      withDefault "internalType" none (nullable readText)

def readParams : Reader (List AbiParam) := fun j => listOf (readParam j.depth) j

def readEntry : Reader AbiEntry := record "AbiEntry" <|
  AbiEntry.mk <$> required "type" readText <*> withDefault "name" none (nullable readText) <*>
    withDefault "inputs" [] readParams <*> withDefault "outputs" [] readParams <*>
    withDefault "stateMutability" none (nullable readText)

def readArtifact : Reader Artifact := record "CompiledArtifact" <|
  Artifact.mk <$> required "name" readText <*> required "abi" (listOf readEntry) <*>
    required "bytecode" readText <*> required "method_identifiers" (tableOf readText)

def readSeverity : Reader Severity :=
  variantOf [("error", .error), ("warning", .warning), ("info", .info)]

def readDiagnostic : Reader Diagnostic := record "Diagnostic" <|
  Diagnostic.mk <$> required "severity" readSeverity <*> required "message" readText <*>
    required "rendered" readText <*> withDefault "kind" none (nullable readText) <*>
    withDefault "code" none (nullable readText)

end SoliditySession
