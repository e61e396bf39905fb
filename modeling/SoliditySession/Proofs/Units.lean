import SoliditySession.SourceUnit
/- Units of one session that differ in how the entry point closes: the texts tell them apart, so a
compiler can answer each in its own way. -/
namespace SoliditySession

/-- Where statements go does not depend on what is returned, but on whether anything is. -/
theorem placements_eq (expression : Option String) (type type' : String) (may may' : Bool)
    (statements : List Statement) :
    placements ⟨type, may, expression⟩ statements =
      placements ⟨type', may', expression⟩ statements := by
  have hslot : ∀ last part,
      Slot.of ⟨type, may, expression⟩ last part = Slot.of ⟨type', may', expression⟩ last part := by
    intro last part
    simp only [Slot.of]
  induction statements with
  | nil => rfl
  | cons x xs ih =>
      cases xs with
      | nil => simp only [placements, hslot]
      | cons y ys => simp only [placements, hslot, ih]

theorem signature_eq_of_source_eq {options : UnitOptions} {expression : Option String}
    {statements : List Statement} {type type' : String} {may may' : Bool}
    (h : (SourceUnit.assemble options ⟨type, may, expression⟩ statements).source =
      (SourceUnit.assemble options ⟨type', may', expression⟩ statements).source) :
    signature options ⟨type, may, expression⟩ = signature options ⟨type', may', expression⟩ := by
  simp only [SourceUnit.assemble, unitLines, placements_eq expression type type' may may',
    List.map_append, String.join_append, String.append_left_inj, String.append_right_inj] at h
  simpa only [List.map_cons, List.map_nil, String.join_cons, String.join_nil,
    String.append_left_inj, String.append_right_inj] using h

theorem returns_clause : " returns (" = " r" ++ "eturns (" := by decide +kernel

theorem view_keyword : " view" = " v" ++ "iew" := by decide +kernel

theorem returns_ne_view (u v : String) :
    "" ++ " returns (" ++ u ++ ")" ≠ " view" ++ " returns (" ++ v ++ ")" := by
  intro h
  rw [returns_clause, view_keyword] at h
  have hchars := congrArg (fun s : String => s.toList[1]?) h
  simp at hchars

/-- Where something is returned, the signature tells both the type and the mutability. -/
theorem signature_inj {options : UnitOptions} {expression type type' : String} {may may' : Bool}
    (h : signature options ⟨type, may, some expression⟩ =
      signature options ⟨type', may', some expression⟩) : type = type' ∧ may = may' := by
  simp only [signature, String.append_right_inj] at h
  cases may with
  | false =>
      cases may' with
      | false => simpa only [String.append_left_inj, String.append_right_inj, and_true] using h
      | true => exact absurd h.symm (returns_ne_view type' type)
  | true =>
      cases may' with
      | false => exact absurd h (returns_ne_view type type')
      | true => simpa only [String.append_left_inj, String.append_right_inj, and_true] using h

/-- Units of one session that differ in type or mutability differ as texts. -/
theorem source_inj {options : UnitOptions} {expression type type' : String} {may may' : Bool}
    {statements : List Statement}
    (h : (SourceUnit.assemble options ⟨type, may, some expression⟩ statements).source =
      (SourceUnit.assemble options ⟨type', may', some expression⟩ statements).source) :
    type = type' ∧ may = may' :=
  signature_inj (signature_eq_of_source_eq h)

/-- Only a last expression moves, between the body and the return clause, with what is returned. -/
theorem inSlot_placements {spec spec' : ReturnSpec} {slot : Slot} (hreturned : slot ≠ .returned)
    (hbody : slot ≠ .body) (statements : List Statement) :
    inSlot (placements spec statements) slot = inSlot (placements spec' statements) slot := by
  have hmoved : ∀ (spec : ReturnSpec) last,
      (Slot.of spec last (.expression none) == slot) = false := by
    intro spec last
    simp only [Slot.of]
    split
    · exact beq_false_of_ne hreturned.symm
    · exact beq_false_of_ne hbody.symm
  have hslot : ∀ last part,
      (Slot.of spec last part == slot) = (Slot.of spec' last part == slot) := by
    intro last part
    cases part with
    | expression target =>
        cases target with
        | none => rw [hmoved, hmoved]
        | some target => rfl
    | _ => rfl
  induction statements with
  | nil => rfl
  | cons x xs ih =>
      cases xs with
      | nil =>
          simp only [placements, inSlot, List.filter_cons, hslot]
          split <;> rfl
      | cons y ys =>
          simp only [inSlot] at ih
          simp only [placements, inSlot, List.filter_cons, hslot]
          split
          · simp only [List.map_cons, ih]
          · exact ih

/-- A unit that returns something is none that returns nothing. -/
theorem source_ne_of_valueless {options : UnitOptions} {expression type type' : String}
    {may may' : Bool} (statements : List Statement) :
    (SourceUnit.assemble options ⟨type, may, some expression⟩ statements).source ≠
      (SourceUnit.assemble options ⟨type', may', none⟩ statements).source := by
  intro h
  have houtside : ∀ r, inSlot (placements ⟨type, may, some expression⟩ statements) (.outside r) =
      inSlot (placements ⟨type', may', none⟩ statements) (.outside r) :=
    fun r => inSlot_placements Slot.noConfusion Slot.noConfusion statements
  have hmember : inSlot (placements ⟨type, may, some expression⟩ statements) .member =
      inSlot (placements ⟨type', may', none⟩ statements) .member :=
    inSlot_placements Slot.noConfusion Slot.noConfusion statements
  simp only [SourceUnit.assemble, unitLines, houtside, hmember, List.map_append,
    String.join_append, String.append_right_inj, String.append_assoc] at h
  simp only [List.map_cons, List.map_nil, String.join_cons, String.join_nil, signature,
    String.append_right_inj, String.append_assoc] at h
  rw [returns_clause, view_keyword] at h
  have hchars := congrArg (fun s : String => s.toList[1]?) h
  cases may with
  | false => simp at hchars
  | true => simp at hchars

theorem source_eq_of_valueless (options : UnitOptions) (type type' : String) (may may' : Bool)
    (statements : List Statement) :
    (SourceUnit.assemble options ⟨type, may, none⟩ statements).source =
      (SourceUnit.assemble options ⟨type', may', none⟩ statements).source := by
  simp only [SourceUnit.assemble, unitLines, placements_eq none type type' may may']
  rfl

end SoliditySession
