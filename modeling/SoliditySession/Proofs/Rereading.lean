import SoliditySession.Artifact.Json
import SoliditySession.Proofs.KeyOrder
import SoliditySession.Proofs.Spelling
/- Artifacts and diagnostics are read back from what is written of them, however deep their parameters
nest. Some fields are left out where they hold nothing, others are written as null. -/
namespace SoliditySession
open Json Json.Fields

namespace Json

theorem depth_pos (j : Json) : 0 < j.depth := by
  cases j with
  | arr items => exact Nat.succ_pos _
  | obj es => exact Nat.succ_pos _
  | _ => exact Nat.one_pos

theorem depth_le_of_mem_items {j : Json} {items : List Json} (h : j ∈ items) :
    j.depth ≤ depthItems items := by
  induction items with
  | nil => cases h
  | cons i items ih =>
    rw [depthItems]
    rcases List.mem_cons.1 h with rfl | h
    · exact Nat.le_max_left _ _
    · exact (ih h).trans (Nat.le_max_right _ _)

theorem depth_le_of_mem_entries {e : String × Json} {es : List (String × Json)} (h : e ∈ es) :
    e.2.depth ≤ depthEntries es := by
  induction es with
  | nil => cases h
  | cons f es ih =>
    rw [depthEntries]
    rcases List.mem_cons.1 h with rfl | h
    · exact Nat.le_max_left _ _
    · exact (ih h).trans (Nat.le_max_right _ _)

def Source.depth : Source → Nat
  | .entries es => depthEntries es
  | .items js => depthItems js

namespace Shape

theorem depth_le_of_given {name : String} {place : Nat} {src : Source} {j : Json}
    (h : j ∈ given name place src) : j.depth ≤ src.depth := by
  cases src with
  | entries es =>
    obtain ⟨e, he, rfl⟩ := List.mem_map.1 h
    exact depth_le_of_mem_entries (List.mem_of_mem_filter he)
  | items js =>
    have hj : js[place]? = some j := Option.mem_toList.1 h
    exact depth_le_of_mem_items (List.mem_of_getElem? hj)

variable {α : Type} {P Q : Shape α}

/-- A field says the same in two shapes that agree on what it is given. -/
theorem field_congr {name : String} {place : Nat} {default : Option α} {src : Source} {v : α}
    (h : ∀ j ∈ given name place src, P j v ↔ Q j v) :
    P.field name place default src v ↔ Q.field name place default src v := by
  rw [field, field]
  cases hgiven : given name place src with
  | nil => exact .rfl
  | cons j js =>
    cases js with
    | nil => exact h j (by rw [hgiven]; exact List.mem_singleton_self j)
    | cons => exact .rfl

theorem list_congr {j : Json} {vs : List α} (h : ∀ i v, i.depth < j.depth → (P i v ↔ Q i v)) :
    P.list j vs ↔ Q.list j vs := by
  cases j with
  | arr items =>
    have hitems : ∀ i ∈ items, ∀ v, P i v ↔ Q i v := fun i hi v =>
      h i v (Nat.lt_succ_of_le (depth_le_of_mem_items hi))
    rw [list, list]
    clear h
    induction items generalizing vs with
    | nil => simp
    | cons i items ih =>
      rw [List.forall_mem_cons] at hitems
      simp only [List.forall₂_cons_left_iff, hitems.1, ih hitems.2]
  | _ => exact .rfl

theorem record_congr {n : Nat} {F G : Source → α → Prop} {j : Json} {v : α}
    (h : ∀ src : Source, src.depth < j.depth → (F src v ↔ G src v)) :
    record n F j v ↔ record n G j v := by
  cases j with
  | obj es => exact h (.entries es) (Nat.lt_succ_self _)
  | arr js => exact and_congr_right fun _ => h (.items js) (Nat.lt_succ_self _)
  | _ => exact .rfl

section
variable {name : String} {place : Nat} {src : Source}

theorem field.of_given {default : Option α} {v : α} {j : Json}
    (hgiven : given name place src = [j]) (h : P j v) : P.field name place default src v := by
  rw [field, hgiven]
  exact h

theorem field.of_text {default : Option String} {s : String}
    (hgiven : given name place src = [.str s]) : text.field name place default src s :=
  .of_given hgiven rfl

theorem field.of_absent {v : α} (hgiven : given name place src = []) :
    P.field name place (some v) src v := by
  rw [field, hgiven]

end

theorem list_written {write : α → Json} {vs : List α} (h : ∀ v ∈ vs, P (write v) v) :
    P.list (.arr (vs.map write)) vs := by
  rw [list, List.forall₂_map_left_iff, List.forall₂_same]
  exact h

theorem orNull_written (o : Option String) : text.orNull (optionalText o) o := by
  cases o with
  | none => rfl
  | some s => exact ⟨s, rfl, rfl⟩

theorem table_written (t : Table String) : text.table (selectorsJson t) t := by
  rw [selectorsJson]
  constructor
  · intro e he
    obtain ⟨e, -, rfl⟩ := List.mem_map.1 he
    exact ⟨e.2, rfl⟩
  · intro k v
    rw [← List.map_reverse, Table.lookup_map_value, Table.lookup_reverse_entries]
    simp [text]

theorem unordered_optionalText (o : Option String) : text.orNull.Unordered o :=
  .orNull fun s _ => .text s

end Shape
end Json

namespace AbiParam

/-- The fields of a parameter whose components have some shape. -/
structure Fields (P : Shape AbiParam) (src : Source) (p : AbiParam) : Prop where
  name : Shape.text.field "name" 0 (some "") src p.name
  type : Shape.text.field "type" 1 none src p.type
  components : P.list.field "components" 2 (some []) src p.components
  internalType : Shape.text.orNull.field "internalType" 3 (some none) src p.internalType

theorem Fields.congr {P Q : Shape AbiParam} {src : Source} {p : AbiParam}
    (h : ∀ j q, j.depth < src.depth → (P j q ↔ Q j q)) : Fields P src p ↔ Fields Q src p := by
  have hcomponents : P.list.field "components" 2 (some []) src p.components ↔
      Q.list.field "components" 2 (some []) src p.components := by
    apply Shape.field_congr
    intro j hj
    apply Shape.list_congr
    intro i q hi
    exact h i q (Nat.lt_of_lt_of_le hi (Shape.depth_le_of_given hj))
  exact ⟨fun hp => ⟨hp.name, hp.type, hcomponents.1 hp.components, hp.internalType⟩,
    fun hp => ⟨hp.name, hp.type, hcomponents.2 hp.components, hp.internalType⟩⟩

theorem meets_readParam (n : Nat) : Meets (readParam (n + 1))
    (.record 4 (Fields fun j p => readParam n j = .ok p)) := by
  apply meets_record
  intro src p
  simp only [yields_map, yields_seq, yields_withDefault meets_text, yields_required meets_text,
    yields_withDefault (meets_self (readParam n)).list, yields_withDefault meets_text.orNull,
    count_map, count_seq, count_required, count_withDefault]
  constructor
  · rintro ⟨name, hname, type, htype, components, hcomponents, internalType, hinternal, rfl⟩
    exact ⟨hname, htype, hcomponents, hinternal⟩
  · intro h
    obtain ⟨name, type, components, internalType⟩ := p
    exact ⟨name, h.name, type, h.type, components, h.components, internalType, h.internalType, rfl⟩

/-- A bound that the value keeps to makes no difference. -/
theorem readParam_eq_ok_iff {n m : Nat} {j : Json} {p : AbiParam} (hn : j.depth ≤ n)
    (hm : j.depth ≤ m) : readParam n j = .ok p ↔ readParam m j = .ok p := by
  induction n generalizing m j p with
  | zero => exact absurd j.depth_pos (Nat.not_lt.2 hn)
  | succ n ih =>
    cases m with
    | zero => exact absurd j.depth_pos (Nat.not_lt.2 hm)
    | succ m =>
      rw [meets_readParam n j p, meets_readParam m j p]
      apply Shape.record_congr
      intro src hsrc
      apply Fields.congr
      intro i q hi
      exact ih (by omega) (by omega)

/-- Values that stand for parameters, nested to any depth. -/
def shape : Shape AbiParam := fun j p => readParam j.depth j = .ok p

theorem shape_iff {j : Json} {p : AbiParam} : shape j p ↔ Shape.record 4 (Fields shape) j p := by
  obtain ⟨n, hn⟩ := Nat.exists_eq_succ_of_ne_zero (Nat.pos_iff_ne_zero.1 j.depth_pos)
  rw [shape, hn, meets_readParam n j p]
  apply Shape.record_congr
  intro src hsrc
  apply Fields.congr
  intro i q hi
  exact readParam_eq_ok_iff (by omega) (Nat.le_refl _)

theorem meets_readParams : Meets readParams shape.list := by
  intro j ps
  rw [readParams, (meets_self (readParam j.depth)).list j ps]
  apply Shape.list_congr
  intro i p hi
  exact readParam_eq_ok_iff (Nat.le_of_lt hi) (Nat.le_refl _)

theorem paramsJson_eq (ps : List AbiParam) : paramsJson ps = ps.map toJson := by
  induction ps with
  | nil => rfl
  | cons p ps ih => rw [paramsJson, ih, List.map_cons]

theorem shape_toJson (p : AbiParam) : shape p.toJson p := by
  induction p using AbiParam.nested with
  | node name type components internalType ih =>
    have hlist : shape.list (.arr (paramsJson components)) components := by
      rw [paramsJson_eq]
      exact Shape.list_written ih
    rw [shape_iff]
    unfold toJson
    constructor
    · apply Shape.field.of_text
      cases components <;> cases internalType <;> simp [Shape.given]
    · apply Shape.field.of_text
      cases components <;> cases internalType <;> simp [Shape.given]
    · cases components with
      | nil =>
        apply Shape.field.of_absent
        cases internalType <;> simp [Shape.given]
      | cons p components =>
        apply Shape.field.of_given _ hlist
        cases internalType <;> simp [Shape.given]
    · cases internalType with
      | none =>
        apply Shape.field.of_absent
        cases components <;> simp [Shape.given]
      | some t =>
        apply Shape.field.of_given _ (Shape.orNull_written (some t))
        cases components <;> simp [Shape.given, optionalText]

theorem shape_list_paramsJson (ps : List AbiParam) : shape.list (.arr (paramsJson ps)) ps := by
  rw [paramsJson_eq]
  exact Shape.list_written fun p _ => p.shape_toJson

theorem unordered_shape (p : AbiParam) : shape.Unordered p := by
  induction p using AbiParam.nested with
  | node name type components internalType ih =>
    intro j hj
    rw [shape_iff] at hj ⊢
    apply Shape.Unordered.record _ j hj
    intro src h
    exact ⟨(Shape.Unordered.text _).field h.name, (Shape.Unordered.text _).field h.type,
      (Shape.Unordered.list ih).field h.components,
      (Shape.unordered_optionalText _).field h.internalType⟩

theorem unordered_shape_list (ps : List AbiParam) : shape.list.Unordered ps :=
  .list fun p _ => p.unordered_shape

end AbiParam

namespace AbiEntry

structure Fields (src : Source) (e : AbiEntry) : Prop where
  kind : Shape.text.field "type" 0 none src e.kind
  name : Shape.text.orNull.field "name" 1 (some none) src e.name
  inputs : AbiParam.shape.list.field "inputs" 2 (some []) src e.inputs
  outputs : AbiParam.shape.list.field "outputs" 3 (some []) src e.outputs
  stateMutability : Shape.text.orNull.field "stateMutability" 4 (some none) src e.stateMutability

def shape : Shape AbiEntry := .record 5 Fields

theorem meets_readEntry : Meets readEntry shape := by
  apply meets_record
  intro src e
  simp only [yields_map, yields_seq, yields_required meets_text,
    yields_withDefault meets_text.orNull, yields_withDefault AbiParam.meets_readParams, count_map,
    count_seq, count_required, count_withDefault]
  constructor
  · rintro ⟨kind, hkind, name, hname, inputs, hinputs, outputs, houtputs, mutability, hmutability,
      rfl⟩
    exact ⟨hkind, hname, hinputs, houtputs, hmutability⟩
  · intro h
    exact ⟨_, h.kind, _, h.name, _, h.inputs, _, h.outputs, _, h.stateMutability, rfl⟩

theorem shape_toJson (e : AbiEntry) : shape e.toJson e where
  kind := .of_text (by simp [Shape.given])
  name := .of_given (by simp [Shape.given]) (Shape.orNull_written e.name)
  inputs := .of_given (by simp [Shape.given]) (AbiParam.shape_list_paramsJson e.inputs)
  outputs := .of_given (by simp [Shape.given]) (AbiParam.shape_list_paramsJson e.outputs)
  stateMutability := .of_given (by simp [Shape.given]) (Shape.orNull_written e.stateMutability)

theorem unordered_shape (e : AbiEntry) : shape.Unordered e := by
  apply Shape.Unordered.record
  intro src h
  exact ⟨(Shape.Unordered.text _).field h.kind, (Shape.unordered_optionalText _).field h.name,
    (AbiParam.unordered_shape_list _).field h.inputs,
    (AbiParam.unordered_shape_list _).field h.outputs,
    (Shape.unordered_optionalText _).field h.stateMutability⟩

end AbiEntry

namespace Artifact

structure Fields (src : Source) (a : Artifact) : Prop where
  name : Shape.text.field "name" 0 none src a.name
  abi : AbiEntry.shape.list.field "abi" 1 none src a.abi
  bytecode : Shape.text.field "bytecode" 2 none src a.bytecode
  selectors : Shape.text.table.field "method_identifiers" 3 none src a.selectors

def shape : Shape Artifact := .record 4 Fields

theorem meets_readArtifact : Meets readArtifact shape := by
  apply meets_record
  intro src a
  simp only [yields_map, yields_seq, yields_required meets_text,
    yields_required AbiEntry.meets_readEntry.list, yields_required meets_text.table, count_map,
    count_seq, count_required]
  constructor
  · rintro ⟨name, hname, abi, habi, bytecode, hbytecode, selectors, hselectors, rfl⟩
    exact ⟨hname, habi, hbytecode, hselectors⟩
  · intro h
    exact ⟨_, h.name, _, h.abi, _, h.bytecode, _, h.selectors, rfl⟩

theorem shape_toJson (a : Artifact) : shape a.toJson a where
  name := .of_text (by simp [Shape.given])
  abi := .of_given (by simp [Shape.given]) (Shape.list_written fun e _ => e.shape_toJson)
  bytecode := .of_text (by simp [Shape.given])
  selectors := .of_given (by simp [Shape.given]) (Shape.table_written a.selectors)

theorem unordered_shape (a : Artifact) : shape.Unordered a := by
  apply Shape.Unordered.record
  intro src h
  have habi : AbiEntry.shape.list.Unordered a.abi := .list fun e _ => e.unordered_shape
  have hselectors : Shape.text.table.Unordered a.selectors := .table meets_text fun _ s _ => .text s
  exact ⟨(Shape.Unordered.text _).field h.name, habi.field h.abi,
    (Shape.Unordered.text _).field h.bytecode, hselectors.field h.selectors⟩

end Artifact

def Severity.shape : Shape Severity := fun j s => readSeverity j = .ok s

theorem Severity.shape_label (s : Severity) : Severity.shape (.str s.label) s := by
  cases s <;> rfl

namespace Diagnostic

structure Fields (src : Source) (d : Diagnostic) : Prop where
  severity : Severity.shape.field "severity" 0 none src d.severity
  message : Shape.text.field "message" 1 none src d.message
  rendered : Shape.text.field "rendered" 2 none src d.rendered
  kind : Shape.text.orNull.field "kind" 3 (some none) src d.kind
  code : Shape.text.orNull.field "code" 4 (some none) src d.code

def shape : Shape Diagnostic := .record 5 Fields

theorem meets_readDiagnostic : Meets readDiagnostic shape := by
  apply meets_record
  intro src d
  simp only [yields_map, yields_seq, yields_required (meets_self readSeverity),
    yields_required meets_text, yields_withDefault meets_text.orNull, count_map, count_seq,
    count_required, count_withDefault]
  constructor
  · rintro ⟨severity, hseverity, message, hmessage, rendered, hrendered, kind, hkind, code, hcode,
      rfl⟩
    exact ⟨hseverity, hmessage, hrendered, hkind, hcode⟩
  · intro h
    exact ⟨_, h.severity, _, h.message, _, h.rendered, _, h.kind, _, h.code, rfl⟩

theorem shape_toJson (d : Diagnostic) : shape d.toJson d where
  severity := .of_given (by simp [Shape.given]) d.severity.shape_label
  message := .of_text (by simp [Shape.given])
  rendered := .of_text (by simp [Shape.given])
  kind := .of_given (by simp [Shape.given]) (Shape.orNull_written d.kind)
  code := .of_given (by simp [Shape.given]) (Shape.orNull_written d.code)

theorem unordered_shape (d : Diagnostic) : shape.Unordered d := by
  apply Shape.Unordered.record
  intro src h
  have hseverity : Severity.shape.Unordered d.severity := .variant _ d.severity
  exact ⟨hseverity.field h.severity, (Shape.Unordered.text _).field h.message,
    (Shape.Unordered.text _).field h.rendered, (Shape.unordered_optionalText _).field h.kind,
    (Shape.unordered_optionalText _).field h.code⟩

end Diagnostic

@[simp] theorem optionalText_eq_null_iff {o : Option String} : optionalText o = .null ↔ o = none := by
  cases o <;> simp [optionalText]

@[simp] theorem normal_optionalText (o : Option String) : (optionalText o).normal = optionalText o := by
  cases o <;> rfl

theorem AbiParam.left_out (p : AbiParam) : p.toJson.InEitherOrder fun j =>
    (p.components = [] ↔ j.entry? "components" = none) ∧
    (p.internalType = none ↔ j.entry? "internalType" = none) := by
  obtain ⟨name, type, components, internalType⟩ := p
  unfold toJson InEitherOrder
  cases components <;> cases internalType <;>
    simp [entry_obj, entry_normal, List.lookup_cons]

theorem AbiEntry.null_iff (e : AbiEntry) : e.toJson.InEitherOrder fun j =>
    (e.name = none ↔ j.entry? "name" = some .null) ∧
    (e.stateMutability = none ↔ j.entry? "stateMutability" = some .null) := by
  unfold toJson InEitherOrder
  simp [entry_obj, entry_normal, List.lookup_cons]

theorem Diagnostic.null_iff (d : Diagnostic) : d.toJson.InEitherOrder fun j =>
    (d.kind = none ↔ j.entry? "kind" = some .null) ∧
    (d.code = none ↔ j.entry? "code" = some .null) := by
  unfold toJson InEitherOrder
  simp [entry_obj, entry_normal, List.lookup_cons]

/-- Artifacts and diagnostics are read back from what is written of them. Components are left out
where there are none, and internal types that are absent; other fields that hold nothing are
written as null. -/
theorem written_read_back :
    (∀ a : Artifact, a.toJson.InEitherOrder fun j => readArtifact j = .ok a) ∧
    (∀ ds : List Diagnostic, (Json.arr (ds.map (·.toJson))).InEitherOrder fun j =>
      listOf readDiagnostic j = .ok ds) ∧
    (∀ p : AbiParam, p.toJson.InEitherOrder fun j =>
      (p.components = [] ↔ j.entry? "components" = none) ∧
      (p.internalType = none ↔ j.entry? "internalType" = none)) ∧
    (∀ e : AbiEntry, e.toJson.InEitherOrder fun j =>
      (e.name = none ↔ j.entry? "name" = some .null) ∧
      (e.stateMutability = none ↔ j.entry? "stateMutability" = some .null)) ∧
    (∀ d : Diagnostic, d.toJson.InEitherOrder fun j =>
      (d.kind = none ↔ j.entry? "kind" = some .null) ∧
      (d.code = none ↔ j.entry? "code" = some .null)) := by
  refine ⟨fun a => ?_, fun ds => ?_, AbiParam.left_out, AbiEntry.null_iff, Diagnostic.null_iff⟩
  · exact inEitherOrder_read Artifact.meets_readArtifact a.unordered_shape a.shape_toJson
  · apply inEitherOrder_read Diagnostic.meets_readDiagnostic.list
    · exact .list fun d _ => d.unordered_shape
    · exact Shape.list_written fun d _ => d.shape_toJson

example : AbiParam.toJson ⟨"points", "tuple[]", [⟨"", "uint8", [], some "enum Color"⟩], none⟩ =
    .obj [("name", .str "points"), ("type", .str "tuple[]"),
      ("components", .arr [.obj [("name", .str ""), ("type", .str "uint8"),
        ("internalType", .str "enum Color")]])] := rfl

end SoliditySession
