import Mathlib.Data.List.Basic
import Mathlib.Data.List.Infix
import Mathlib.Data.List.Nodup
import SoliditySession.SourceUnit
/- What is in a rendered unit: up to white space the texts of the session, each once, sorted by
where statements of their kind belong and otherwise in session order. -/
namespace SoliditySession

namespace Text

/-- The characters that are not blank. -/
def withoutBlanks (s : String) : List Char := s.toList.filter (!isBlank ·)

theorem withoutBlanks_append (s t : String) :
    withoutBlanks (s ++ t) = withoutBlanks s ++ withoutBlanks t := by
  simp [withoutBlanks]

theorem withoutBlanks_join (texts : List String) :
    withoutBlanks (String.join texts) = texts.flatMap withoutBlanks := by
  induction texts with
  | nil => rfl
  | cons s texts ih => rw [String.join_cons, withoutBlanks_append, ih, List.flatMap_cons]

theorem withoutBlanks_of_blank {s : String} (h : s.toList.all isBlank = true) :
    withoutBlanks s = [] := by
  rw [withoutBlanks, List.filter_eq_nil_iff]
  intro c hc
  simp [List.all_eq_true.1 h c hc]

theorem filter_dropBlankEnd (cs : List Char) :
    (dropBlankEnd cs).filter (!isBlank ·) = cs.filter (!isBlank ·) := by
  have hdrop : ∀ l : List Char, (dropBlank l).filter (!isBlank ·) = l.filter (!isBlank ·) := by
    intro l
    induction l with
    | nil => rfl
    | cons c l ih => cases h : isBlank c <;> simp [dropBlank, h, ← ih]
  rw [dropBlankEnd, List.filter_reverse, hdrop, List.filter_reverse, List.reverse_reverse]

theorem filter_intercalate {sep : Char} (h : isBlank sep = true) (parts : List (List Char)) :
    ([sep].intercalate parts).filter (!isBlank ·) = parts.flatMap (·.filter (!isBlank ·)) := by
  induction parts with
  | nil => rfl
  | cons l parts ih =>
    cases parts with
    | nil => simp
    | cons m parts =>
      rw [List.intercalate_cons_cons, List.filter_append, List.filter_append, ih, List.flatMap_cons]
      simp [h]

theorem filter_dropReturn (l : List Char) :
    (dropReturn l).filter (!isBlank ·) = l.filter (!isBlank ·) := by
  rw [dropReturn]
  split
  · next h =>
    have hl : l.dropLast ++ ['\r'] = l := List.dropLast_append_getLast? '\r' (by simpa using h)
    have hr : ['\r'].filter (!isBlank ·) = [] := by decide
    conv_rhs => rw [← hl, List.filter_append, hr, List.append_nil]
  · rfl

theorem flatMap_lineChars (cs : List Char) :
    (lineChars cs).flatMap (·.filter (!isBlank ·)) =
      (cs.splitOn '\n').flatMap (·.filter (!isBlank ·)) := by
  have hended : ∀ parts : List (List Char),
      (parts.map dropReturn).flatMap (·.filter (!isBlank ·)) =
        parts.flatMap (·.filter (!isBlank ·)) := by
    intro parts
    rw [List.flatMap_map]
    exact List.flatMap_congr fun l _ => filter_dropReturn l
  rw [lineChars]
  generalize cs.splitOn '\n' = parts
  cases hlast : parts.getLast? with
  | none =>
    rw [List.getLast?_eq_none_iff.1 hlast]
    rfl
  | some l =>
    have hparts : parts.dropLast ++ [l] = parts :=
      List.dropLast_append_getLast? l (by simpa using hlast)
    conv_rhs => rw [← hparts, List.flatMap_append]
    cases l with
    | nil => simpa using hended parts.dropLast
    | cons c l => simpa using hended parts.dropLast

/-- Cutting a text into lines takes white space away and nothing else. -/
theorem flatMap_lines (s : String) : (lines s).flatMap withoutBlanks = withoutBlanks s := by
  have hnewline : isBlank '\n' = true := by decide
  rw [lines, List.flatMap_map]
  simp only [withoutBlanks, String.toList_ofList]
  rw [flatMap_lineChars, ← filter_intercalate hnewline, List.intercalate_splitOn]

end Text

open Text

theorem flatMap_indented {indent : String} (h : withoutBlanks indent = []) (text : String) :
    (indented indent text).flatMap withoutBlanks = withoutBlanks text := by
  rw [indented, List.flatMap_map, ← flatMap_lines text]
  refine List.flatMap_congr fun l _ => ?_
  split
  · next hblank => exact (withoutBlanks_of_blank hblank).symm
  · rw [withoutBlanks_append, h, List.nil_append]

theorem flatMap_indented_texts {indent : String} (h : withoutBlanks indent = [])
    (texts : List String) :
    (texts.flatMap (indented indent)).flatMap withoutBlanks = texts.flatMap withoutBlanks := by
  rw [List.flatMap_assoc]
  exact List.flatMap_congr fun text _ => flatMap_indented h text

theorem flatMap_block (texts : List String) :
    (block texts).flatMap withoutBlanks = texts.flatMap withoutBlanks := by
  rw [block]
  split
  · next h => rw [List.isEmpty_iff.1 h]
  · rw [List.flatMap_cons, flatMap_indented_texts rfl]
    rfl

namespace Part

/-- An expression that neither assigns nor steps anything. -/
def isBare (part : Part) : Bool := part == .expression none

/-- What stands in the contract beside the entry point; a declaration does unless it is local. -/
def isMember (part : Part) : Bool :=
  match part.role with
  | .usingDirective | .event | .function => true
  | .declaration => !part.isLocal
  | _ => false

/-- What the entry point runs. -/
def isStep (part : Part) : Bool :=
  match part.role with
  | .expression => true
  | .declaration => part.isLocal
  | _ => false

/-- Every part is of exactly one kind. -/
theorem cases_kind (part : Part) :
    (part.role ∈ Role.topLevel ∧ part.isMember = false ∧ part.isStep = false) ∨
      (part.role ∉ Role.topLevel ∧ part.isMember = true ∧ part.isStep = false) ∨
      (part.role ∉ Role.topLevel ∧ part.isMember = false ∧ part.isStep = true) := by
  cases part with
  | declaration name type value =>
    cases h : (declaration name type value).isLocal <;>
      simp [isMember, isStep, role, h, Role.topLevel]
  | _ => simp [isMember, isStep, role, Role.topLevel]

end Part

/-- The groups of statements in the order of their rendering. -/
def statementGroups : List (Statement → Bool) :=
  (Role.topLevel.map fun r s => s.role == r) ++ [(·.part.isMember), (·.part.isStep)]

/-- The statements that are rendered themselves: all but a last bare expression where the return
clause evaluates something. -/
def rendered (spec : ReturnSpec) (statements : List Statement) : List Statement :=
  if statements.getLast?.any (·.part.isBare) && spec.expression.isSome then statements.dropLast
  else statements

theorem rendered_cons_cons (spec : ReturnSpec) (s t : Statement) (r : List Statement) :
    rendered spec (s :: t :: r) = s :: rendered spec (t :: r) := by
  simp only [rendered, List.getLast?_cons_cons, List.dropLast_cons_cons]
  split <;> rfl

/-- Where a statement goes, by its kind. -/
theorem slot_eq (spec : ReturnSpec) (last : Bool) (part : Part) :
    Slot.of spec last part =
      if last && (part.isBare && spec.expression.isSome) then .returned
      else if part.isMember then .member
      else if part.isStep then .body
      else .outside part.role := by
  cases part with
  | expression target =>
    cases target <;> cases last <;>
      simp [Slot.of, Part.isBare, Part.isMember, Part.isStep, Part.role]
  | declaration name type value =>
    cases h : (Part.declaration name type value).isLocal <;>
      simp [Slot.of, Part.isBare, Part.isMember, Part.isStep, Part.role, h]
  | _ => simp [Slot.of, Part.isBare, Part.isMember, Part.isStep, Part.role]

/-- The texts in a slot are those of the rendered statements that belong there. -/
theorem inSlot_eq {spec : ReturnSpec} {slot : Slot} {p : Statement → Bool}
    (hreturned : slot ≠ .returned) (hp : ∀ s : Statement, (Slot.of spec false s.part == slot) = p s)
    (statements : List Statement) :
    inSlot (placements spec statements) slot =
      ((rendered spec statements).filter p).map (·.text) := by
  have hlast : ∀ s : Statement, (s.part.isBare && spec.expression.isSome) = false →
      (Slot.of spec true s.part == slot) = p s := by
    intro s h
    rw [← hp, slot_eq, slot_eq, h]
    rfl
  have hbare : ∀ s : Statement, (s.part.isBare && spec.expression.isSome) = true →
      (Slot.of spec true s.part == slot) = false := by
    intro s h
    rw [slot_eq, h]
    exact beq_false_of_ne hreturned.symm
  induction statements with
  | nil => rfl
  | cons s statements ih =>
    cases statements with
    | nil =>
      cases h : s.part.isBare && spec.expression.isSome with
      | true => simp [placements, inSlot, rendered, h, hbare s h]
      | false =>
        have hkept : rendered spec [s] = [s] := by simp [rendered, h]
        rw [hkept]
        cases hs : p s <;> simp [placements, inSlot, hlast s h, hs]
    | cons t r =>
      simp only [inSlot] at ih
      rw [rendered_cons_cons]
      simp only [placements, inSlot, List.filter_cons, hp]
      split
      · simp only [List.map_cons, ih]
      · exact ih

section
variable (spec : ReturnSpec) (statements : List Statement)

theorem inSlot_outside {r : Role} (hr : r ∈ Role.topLevel) :
    inSlot (placements spec statements) (.outside r) =
      ((rendered spec statements).filter (·.role == r)).map (·.text) := by
  refine inSlot_eq Slot.noConfusion (fun s => ?_) statements
  have hrole : (s.role == r) = true → s.part.role ∈ Role.topLevel := fun h => by
    rwa [← eq_of_beq h] at hr
  rw [slot_eq]
  rcases s.part.cases_kind with ⟨-, hm, hs⟩ | ⟨hr', hm, hs⟩ | ⟨hr', hm, hs⟩
  · by_cases heq : s.part.role = r <;> simp [hm, hs, Statement.role, heq]
  · have hno : (s.role == r) = false := Bool.eq_false_iff.2 fun h => hr' (hrole h)
    simp [hm, hno]
  · have hno : (s.role == r) = false := Bool.eq_false_iff.2 fun h => hr' (hrole h)
    simp [hm, hs, hno]

theorem inSlot_member :
    inSlot (placements spec statements) .member =
      ((rendered spec statements).filter (·.part.isMember)).map (·.text) := by
  refine inSlot_eq Slot.noConfusion (fun s => ?_) statements
  rw [slot_eq]
  cases s.part.isMember <;> cases s.part.isStep <;> simp

theorem inSlot_body :
    inSlot (placements spec statements) .body =
      ((rendered spec statements).filter (·.part.isStep)).map (·.text) := by
  refine inSlot_eq Slot.noConfusion (fun s => ?_) statements
  rw [slot_eq]
  rcases s.part.cases_kind with ⟨-, hm, hs⟩ | ⟨-, hm, hs⟩ | ⟨-, hm, hs⟩ <;> simp [hm, hs]

end

/-- The texts of some statements without white space. -/
def gathered (statements : List Statement) : List Char :=
  statements.flatMap fun s => withoutBlanks s.text

/-- The head of the unit. -/
def unitHead (options : UnitOptions) : String :=
  "// SPDX-License-Identifier: UNLICENSED" ++ ("pragma solidity " ++ options.pragma ++ ";")

/-- The head of the entry point: a view where it returns something and must not change the state. -/
def entryHead (options : UnitOptions) (spec : ReturnSpec) : String :=
  "function " ++ options.entryPoint ++ "() public" ++
    (if spec.expression.isSome && !spec.mayMutate then " view" else "") ++
    (if spec.expression.isSome then " returns (" ++ spec.returnType ++ ")" else "") ++ " \x7b"

/-- The clause that returns the expression, if there is one. -/
def returnClause (spec : ReturnSpec) : String :=
  match spec.expression with
  | some e => "return " ++ e ++ ";"
  | none => ""

theorem withoutBlanks_source (options : UnitOptions) (spec : ReturnSpec)
    (statements : List Statement) :
    withoutBlanks (SourceUnit.assemble options spec statements).source =
      (unitLines options spec statements).flatMap withoutBlanks := by
  have hend : withoutBlanks "\n" = [] := by decide
  rw [SourceUnit.assemble, withoutBlanks_join, List.flatMap_map]
  exact List.flatMap_congr fun l _ => by rw [withoutBlanks_append, hend, List.append_nil]

theorem withoutBlanks_signature (options : UnitOptions) (spec : ReturnSpec) :
    withoutBlanks ("    " ++ signature options spec ++ " \x7b") =
      withoutBlanks (entryHead options spec) := by
  have hindent : withoutBlanks "    " = [] := by decide
  rw [String.append_assoc, withoutBlanks_append, hindent, List.nil_append, signature, entryHead]
  cases spec.expression with
  | none => simp [withoutBlanks]
  | some e => cases spec.mayMutate <;> simp [withoutBlanks]

theorem withoutBlanks_returnLine (spec : ReturnSpec) :
    (match spec.expression with
      | some e => ["        return " ++ e ++ ";"]
      | none => []).flatMap withoutBlanks = withoutBlanks (returnClause spec) := by
  have hindent : withoutBlanks "        return " = withoutBlanks "return " := by decide
  rw [returnClause]
  cases spec.expression with
  | none => rfl
  | some e => simp [withoutBlanks_append, hindent]

section
variable (spec : ReturnSpec) (statements : List Statement)

theorem flatMap_outside :
    (Role.topLevel.flatMap fun r =>
        block (inSlot (placements spec statements) (.outside r))).flatMap withoutBlanks =
      Role.topLevel.flatMap fun r =>
        gathered ((rendered spec statements).filter (·.role == r)) := by
  rw [List.flatMap_assoc]
  refine List.flatMap_congr fun r hr => ?_
  rw [flatMap_block, inSlot_outside spec statements hr, List.flatMap_map]
  rfl

/-- The margin in front of the texts of a slot does not count. -/
theorem flatMap_slot {slot : Slot} {p : Statement → Bool} {margin : String}
    (hmargin : withoutBlanks margin = []) (hslot : inSlot (placements spec statements) slot =
      ((rendered spec statements).filter p).map (·.text)) :
    ((inSlot (placements spec statements) slot).flatMap (indented margin)).flatMap withoutBlanks =
      gathered ((rendered spec statements).filter p) := by
  rw [flatMap_indented_texts hmargin, hslot, List.flatMap_map]
  rfl

end

/-- The pieces of a unit in order, without white space. -/
def unitPieces (options : UnitOptions) (spec : ReturnSpec) (statements : List Statement) :
    List (List Char) :=
  let kept := rendered spec statements
  [withoutBlanks (unitHead options),
    Role.topLevel.flatMap fun r => gathered (kept.filter (·.role == r)),
    withoutBlanks ("contract " ++ options.contractName ++ " \x7b"),
    gathered (kept.filter (·.part.isMember)),
    withoutBlanks (entryHead options spec),
    gathered (kept.filter (·.part.isStep)),
    withoutBlanks (returnClause spec),
    withoutBlanks "\x7d\x7d"]

theorem source_withoutBlanks (options : UnitOptions) (spec : ReturnSpec)
    (statements : List Statement) :
    withoutBlanks (SourceUnit.assemble options spec statements).source =
      (unitPieces options spec statements).flatten := by
  have hhead : ["// SPDX-License-Identifier: UNLICENSED",
      "pragma solidity " ++ options.pragma ++ ";"].flatMap withoutBlanks =
      withoutBlanks (unitHead options) := by
    rw [List.flatMap_cons, List.flatMap_singleton]
    exact (withoutBlanks_append _ _).symm
  have hcontract : ["", "contract " ++ options.contractName ++ " \x7b"].flatMap withoutBlanks =
      withoutBlanks ("contract " ++ options.contractName ++ " \x7b") := by
    rw [List.flatMap_cons, List.flatMap_singleton]
    rfl
  have hgap : ∀ texts : List String,
      (if texts.isEmpty then [] else [""]).flatMap withoutBlanks = [] := by
    intro texts
    cases texts <;> rfl
  have hmargin : withoutBlanks "    " = [] := by decide
  have hmembers := flatMap_slot spec statements hmargin (inSlot_member spec statements)
  have hdeep : withoutBlanks "        " = [] := by decide
  have hbody := flatMap_slot spec statements hdeep (inSlot_body spec statements)
  have hclose : ["    \x7d", "\x7d"].flatMap withoutBlanks = withoutBlanks "\x7d\x7d" := by decide
  rw [withoutBlanks_source, unitLines]
  simp only [List.flatMap_append, hhead, flatMap_outside, hcontract, hmembers, hgap,
    List.append_nil, List.nil_append, List.flatMap_singleton, withoutBlanks_signature, hbody,
    hclose, unitPieces, List.flatten_cons, List.flatten_nil, List.append_assoc,
    List.append_right_inj, List.append_left_inj]
  exact withoutBlanks_returnLine spec

/-- The groups share no statement and leave none out. -/
theorem countP_statementGroups (s : Statement) : statementGroups.countP (· s) = 1 := by
  have htop : (Role.topLevel.map fun r s => s.role == r).countP (fun p : Statement → Bool => p s) =
      Role.topLevel.count s.part.role := by
    rw [List.countP_map, List.count]
    refine List.countP_congr fun r _ => ?_
    rw [beq_iff_eq, Function.comp_apply, beq_iff_eq, eq_comm, Statement.role]
  have hnodup : Role.topLevel.Nodup := by decide
  rw [statementGroups, List.countP_append, htop]
  rcases s.part.cases_kind with ⟨hr, hm, hs⟩ | ⟨hr, hm, hs⟩ | ⟨hr, hm, hs⟩
  · simp [List.count_eq_one_of_mem hnodup hr, hm, hs]
  · simp [List.count_eq_zero_of_not_mem hr, hm, hs]
  · simp [List.count_eq_zero_of_not_mem hr, hm, hs]

theorem infix_flatMap {α β : Type} {f : α → List β} {l : List α} {a : α} (h : a ∈ l) :
    f a <:+: l.flatMap f := by
  rw [List.flatMap_def]
  exact List.infix_of_mem_flatten (List.mem_map_of_mem h)

theorem prefix_withoutBlanks_body (s : Statement) :
    withoutBlanks s.body <+: withoutBlanks s.text := by
  rw [withoutBlanks, Statement.body, String.toList_ofList, filter_dropBlankEnd, withoutBlanks]
  split
  · exact (List.dropLast_prefix _).filter _
  · exact List.prefix_rfl

theorem infix_of_piece {options : UnitOptions} {spec : ReturnSpec} {statements : List Statement}
    {piece : List Char} (i : Nat) (h : (unitPieces options spec statements)[i]? = some piece) :
    piece <:+: (unitPieces options spec statements).flatten :=
  List.infix_of_mem_flatten (List.mem_of_getElem? h)

/-- What is rendered itself stands in the unit in one piece. -/
theorem infix_of_rendered (options : UnitOptions) {spec : ReturnSpec} {statements : List Statement}
    {s : Statement} (h : s ∈ rendered spec statements) :
    withoutBlanks s.text <:+:
      withoutBlanks (SourceUnit.assemble options spec statements).source := by
  have hgroup : ∀ p : Statement → Bool, p s = true →
      withoutBlanks s.text <:+: gathered ((rendered spec statements).filter p) := by
    intro p hp
    have hmem : s ∈ (rendered spec statements).filter p := List.mem_filter.2 ⟨h, hp⟩
    exact infix_flatMap (f := fun s : Statement => withoutBlanks s.text) hmem
  rw [source_withoutBlanks]
  rcases s.part.cases_kind with ⟨hr, -, -⟩ | ⟨-, hm, -⟩ | ⟨-, -, hs⟩
  · have houtside : withoutBlanks s.text <:+:
        Role.topLevel.flatMap fun r => gathered ((rendered spec statements).filter (·.role == r)) :=
      (hgroup (·.role == s.role) (by simp)).trans (infix_flatMap
        (f := fun r => gathered ((rendered spec statements).filter (·.role == r))) hr)
    exact houtside.trans (infix_of_piece 1 rfl)
  · exact (hgroup (·.part.isMember) hm).trans (infix_of_piece 3 rfl)
  · exact (hgroup (·.part.isStep) hs).trans (infix_of_piece 5 rfl)

/-- A last statement that is left out is what the return clause evaluates. -/
theorem body_of_not_rendered {spec : ReturnSpec} {statements : List Statement}
    (hspec : spec.expression = none ∨ spec.expression = returnExpression statements)
    {s : Statement} (hs : s ∈ statements) (h : s ∉ rendered spec statements) :
    spec.expression = some s.body := by
  rw [rendered] at h
  split at h
  · next hleft =>
    obtain ⟨hbare, hsome⟩ := Bool.and_eq_true_iff.1 hleft
    cases hlast : statements.getLast? with
    | none => simp [hlast] at hbare
    | some last =>
      have hstatements : statements.dropLast ++ [last] = statements :=
        List.dropLast_append_getLast? last hlast
      rw [← hstatements] at hs
      rcases List.mem_append.1 hs with hs | hs
      · exact absurd hs h
      · obtain rfl := List.mem_singleton.1 hs
        have hpart : s.part = .expression none := by simpa [hlast, Part.isBare] using hbare
        rcases hspec with hnone | hexpression
        · simp [hnone] at hsome
        · rw [hexpression, returnExpression, hlast, Option.bind_some, hpart]
          rfl
  · exact absurd hs h

/-- A unit holds the texts of its statements, each group in session order between what surrounds
it; each statement is in exactly one group, and only a last bare expression is left out where the
unit returns something. Where that is what the session's last statement asks for, nothing of a
statement is missing but white space and a semicolon. -/
theorem assemble_keeps (options : UnitOptions) (spec : ReturnSpec) (statements : List Statement) :
    withoutBlanks (SourceUnit.assemble options spec statements).source =
        (unitPieces options spec statements).flatten ∧
      (∀ s : Statement, statementGroups.countP (· s) = 1) ∧
      (spec.expression = none ∨ spec.expression = returnExpression statements →
        ∀ s ∈ statements, withoutBlanks s.body <:+:
          withoutBlanks (SourceUnit.assemble options spec statements).source) := by
  refine ⟨source_withoutBlanks options spec statements, countP_statementGroups, ?_⟩
  intro hspec s hs
  by_cases h : s ∈ rendered spec statements
  · exact (prefix_withoutBlanks_body s).isInfix.trans (infix_of_rendered options h)
  · have hbody := body_of_not_rendered hspec hs h
    have hclause : withoutBlanks s.body <:+: withoutBlanks (returnClause spec) := by
      simp only [returnClause, hbody, withoutBlanks_append]
      exact List.infix_append _ _ _
    rw [source_withoutBlanks]
    exact hclause.trans (infix_of_piece 6 rfl)

theorem assemble_keeps_tail :
    let statements := ["import 'a.sol'", "uint[] memory xs = f()",
      "function f() public \x7b\r\n\r\n  g();\n\x7d", "xs [0]"].map Statement.ofRaw
    let spec := ReturnSpec.guess {} statements
    spec.expression = returnExpression statements ∧ rendered spec statements = statements.dropLast ∧
      Statement.ofRaw "xs [0]" ∈ statements ∧
      withoutBlanks (Statement.ofRaw "xs [0]").body <:+:
        withoutBlanks (SourceUnit.assemble {} spec statements).source := by
  intro statements spec
  have hspec : spec.expression = returnExpression statements := rfl
  have hmem : Statement.ofRaw "xs [0]" ∈ statements := List.mem_map_of_mem (by simp)
  have hkeeps := assemble_keeps {} spec statements
  exact ⟨hspec, by decide +kernel, hmem, hkeeps.2.2 (.inr hspec) _ hmem⟩

end SoliditySession
