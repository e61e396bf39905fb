import SoliditySession.Proofs.Closure
import SoliditySession.Proofs.Records
import SoliditySession.Proofs.Recording
/- What passes between a session and a compiler program: which document is sent, if any, and what
the session makes of each way in which the program can end. -/
namespace SoliditySession.StandardJson
open Json Json.Fields

/-- What an entry of the errors says. Only two texts stand for something else than an error. -/
structure Reports (src : Source) (severity : String) (formatted : Option String)
    (d : Diagnostic) : Prop where
  severity_text : Shape.text.field "severity" 0 none src severity
  message_text : Shape.text.field "message" 1 none src d.message
  formatted_text : Shape.text.orNull.field "formattedMessage" 2 (some none) src formatted
  kind_text : Shape.text.orNull.field "type" 3 (some none) src d.kind
  code_text : Shape.text.orNull.field "errorCode" 4 (some none) src d.code
  rendered : d.rendered = formatted.getD (d.kind.getD "Error" ++ ": " ++ d.message)
  error_iff : d.severity = .error ↔ severity ≠ "warning" ∧ severity ≠ "info"
  warning_iff : d.severity = .warning ↔ severity = "warning"

def reportShape : Shape Diagnostic := .record 5 fun src d =>
  ∃ severity formatted, Reports src severity formatted d

def bytecodeShape : Shape String := .record 1 fun src code =>
  Shape.text.field "object" 0 (some "") src code

def evmShape : Shape (String × Table String) := .record 2 fun src evm =>
  bytecodeShape.field "bytecode" 0 (some "") src evm.1 ∧
    Shape.text.table.field "methodIdentifiers" 1 (some ∅) src evm.2

def entryShape : Shape AbiEntry := fun j e => readEntry j = .ok e

def contractShape : Shape Contract := .record 2 fun src c =>
  entryShape.list.field "abi" 0 (some []) src c.abi ∧
    evmShape.field "evm" 1 (some ("", ∅)) src (c.bytecode, c.selectors)

def documentShape : Shape Document := .record 2 fun src d =>
  reportShape.list.field "errors" 0 (some []) src d.errors ∧
    contractShape.table.table.field "contracts" 1 (some ∅) src d.contracts

/-- The answer lists what the document lists, and holds the contracts of one unit alone. -/
structure Keeps (unit : String) (d : Document) (output : CompilerOutput) : Prop where
  diagnostics : output.diagnostics = d.errors
  contracts : ∀ name artifact, output.contracts.get? name = some artifact ↔
    ∃ own c, d.contracts.get? unit = some own ∧ own.get? name = some c ∧ artifact = c.artifact name

/-- What is made of a run of the program, for one unit. -/
inductive Answers (program unit : String) : Except RunFault Run → Except Fault CompilerOutput → Prop
  | notStarted (reason : String) :
      Answers program unit (.error (.notStarted reason)) (.error (.spawn program reason))
  | pipe (reason : String) : Answers program unit (.error (.pipe reason)) (.error (.pipe reason))
  | silent {run : Run} : run.stdout = "" →
      Answers program unit (.ok run) (.error (.failed run.exit run.stderr))
  | malformed {run : Run} : run.stdout ≠ "" →
      (∀ j d, Json.parse? run.stdout = some j → ¬ documentShape j d) →
      Answers program unit (.ok run) (.error .malformed)
  | wellFormed {run : Run} {j : Json} {d : Document} {output : CompilerOutput} :
      Json.parse? run.stdout = some j → documentShape j d → Keeps unit d output →
      Answers program unit (.ok run) (.ok output)

/-- The unit is the submission or imported by it, directly or through others, and has this text. -/
def Needs (resolve : Import.Resolver) (s : Submission) (unit text : String) : Prop :=
  Import.Reached resolve s.name s.source unit ∧
    Import.textOf? resolve s.name s.source unit = some text

/-- The document for a submission, made of what it needs. -/
inductive Requests (resolve : Import.Resolver) (settings : Settings) (s : Submission) : Json → Prop
  | input {sources : Table String} :
      (∀ unit text, sources.get? unit = some text ↔ Needs resolve s unit text) →
      Requests resolve settings s (input sources settings)

namespace Requests
variable {resolve : Import.Resolver} {settings : Settings} {s : Submission} {document : Json}

theorem unique {document' : Json} (h : Requests resolve settings s document)
    (h' : Requests resolve settings s document') : document = document' := by
  obtain ⟨hsources⟩ := h
  obtain ⟨hsources'⟩ := h'
  exact congrArg (StandardJson.input · settings)
    (Table.ext_get? fun unit text => (hsources unit text).trans (hsources' unit text).symm)

/-- The sources of the document are exactly what the submission needs, once each. -/
theorem sources (h : Requests resolve settings s document) :
    ∃ members, document.entry? "sources" = some (.obj members) ∧ (members.map (·.1)).Nodup ∧
      ∀ unit content, (unit, content) ∈ members ↔
        ∃ text, Needs resolve s unit text ∧ content = .obj [("content", .str text)] := by
  obtain @⟨sources, hsources⟩ := h
  refine ⟨sources.entries.map fun e => (e.1, .obj [("content", .str e.2)]), rfl, ?_, ?_⟩
  · rw [List.map_map]
    exact sources.nodup_keys
  · intro unit content
    simp only [← hsources, Table.get?_eq_some_iff, List.mem_map, Prod.mk.injEq]
    constructor
    · rintro ⟨e, he, rfl, rfl⟩
      exact ⟨e.2, he, rfl⟩
    · rintro ⟨text, he, rfl⟩
      exact ⟨(unit, text), he, rfl, rfl⟩

end Requests

section
variable {σ : Type} (program : Program σ) (settings : Settings) {resolve : Import.Resolver}
  {bound : Nat} {s : Submission} (st : σ)

variable {program settings st}

end

end SoliditySession.StandardJson
