import SoliditySession.Proofs.Operators
/- Constants with words of visibility. The description of constants leaves no place for them and that
of declarations none for the word for constants, so that a line with both is an expression. -/
namespace SoliditySession
open Pattern Solidity Text

namespace Solidity

def visibilityWords : List String := ["public", "private", "internal"]

/-- The definition of a constant of a built-in type, with or without words of visibility before and
after the word for constants. -/
structure QualifiedConstant where
  type : String
  builtIn : Elementary type
  before : List (Word visibilityWords)
  constant : Word ["constant"]
  after : List (Word visibilityWords)
  gap : List Char
  isGap : Gap gap
  name : Identifier
  initialiser : Initialiser

/-- What goes on with another word, behind blanks, has no target. -/
theorem not_targets_of_word {w gap more : List Char} {c : Char}
    (hw : ∀ c ∈ w, isIdentChar c = true) (hne : w ≠ []) (hgap : Gap gap)
    (hc : isIdentStart c = true) (t : Target) : ¬ Targets t.chars (w ++ (gap ++ c :: more)) := by
  have hchar : isIdentChar c = true := isIdentChar_of_isIdentStart hc
  have hstop : ∀ b ∈ (gap ++ c :: more).head?, carriesOn b = false := fun b hb =>
    carriesOn_of_isBlank (head?_gap_append hgap b hb)
  intro ht
  rcases ht.cases_front with ⟨gap', d, more', hgap', hd, heq⟩ | ⟨s, hs, b, b', -, -, heq⟩
  · have hsign := carriesOn_head? hgap' hd more'
    rw [Target.chars, List.append_assoc] at heq
    obtain ⟨-, hrest⟩ := append_inj_of_stop hw t.first.chars_char
      (fun b hb => isIdentChar_of_carriesOn (hstop b hb))
      (isIdentChar_head?_accesses hsign t.accesses) heq
    have hnil : (List.map Access.chars []).flatten ++ (gap ++ c :: more) =
        (t.accesses.map Access.chars).flatten ++ (gap' ++ d :: more') := hrest
    obtain ⟨-, hrest⟩ := accesses_append_inj hstop hsign hnil
    have hword : ∀ b ∈ (c :: more).head?, isBlank b = false := by
      rintro b ⟨⟩
      exact isBlank_of_isIdentChar hchar
    have hoperator : ∀ b ∈ (d :: more').head?, isBlank b = false := by
      rintro b ⟨⟩
      exact isBlank_of_sign hd
    obtain ⟨-, hcons⟩ := append_inj_of_stop hgap.2 hgap' hword hoperator hrest
    obtain rfl : c = d := (List.cons.inj hcons).1
    rw [isIdentChar_of_carriesOn (carriesOn_of_sign hd)] at hchar
    cases hchar
  · obtain ⟨d, ds, hds, hd⟩ := exists_sign_of_step hs (b ++ (t.chars ++ (b' ++ [';'])))
    obtain ⟨a, w, rfl⟩ := List.exists_cons_of_ne_nil hne
    rw [hds] at heq
    obtain rfl : a = d := (List.cons.inj heq).1
    have hnot := isIdentChar_of_carriesOn (carriesOn_of_sign hd)
    rw [hw a List.mem_cons_self] at hnot
    cases hnot

namespace QualifiedConstant
variable (k : QualifiedConstant)

def qualifiers : List Token :=
  k.before.map Word.token ++ (k.constant.token :: k.after.map Word.token)

def tokens : List Token := k.qualifiers ++ [.word k.gap k.name.chars]

/-- The line without its semicolon. -/
def line : List Char := k.type.toList ++ (written k.tokens ++ k.initialiser.chars)

def chars : List Char := k.line ++ [';']

def visible : Bool := !(k.before ++ k.after).isEmpty

theorem proper_tokens : ∀ t ∈ k.tokens, t.Proper := by
  rw [tokens, List.forall_mem_append, List.forall_mem_singleton, qualifiers,
    List.forall_mem_append, List.forall_mem_cons, List.forall_mem_map, List.forall_mem_map]
  exact ⟨⟨fun w _ => w.proper (by decide), k.constant.proper (by decide),
    fun w _ => w.proper (by decide)⟩, k.isGap, k.name.isName_chars⟩

theorem isWord_tokens : ∀ t ∈ k.tokens, t.IsWord := by
  rw [tokens, List.forall_mem_append, List.forall_mem_singleton, qualifiers,
    List.forall_mem_append, List.forall_mem_cons]
  exact ⟨⟨Word.isWord_tokens _, trivial, Word.isWord_tokens _⟩, trivial⟩

theorem closing : Closing (k.initialiser.chars ++ [';']) := by
  refine .inr ⟨k.initialiser.gap, k.initialiser.text ++ [';'], k.initialiser.isBlank, ?_⟩
  rw [Initialiser.chars, List.append_assoc]
  rfl

/-- The type begins with a built-in name. -/
structure Cut (w : String) (ts : List Token) : Prop where
  opening : Opening w.toList ts
  type : k.type.toList = w.toList ++ written ts
  isWord : ∀ t ∈ ts, t.IsWord
  builtIn : Elementary w
  ne_nil : w.toList ≠ []
  ascii : ∀ c ∈ w.toList, isAsciiWord c = true

theorem exists_cut : ∃ w ts, k.Cut w ts := by
  rcases k.builtIn.chars with htype | ⟨hne, hchars⟩
  · refine ⟨"address", _, .payable, ?_, List.forall_mem_singleton.2 trivial, .plain (by decide),
      by decide, by decide⟩
    rw [htype]
    rfl
  · exact ⟨k.type, [], .name fun c hc => isPathChar_of_isAsciiWord (hchars c hc),
      (List.append_nil _).symm, nofun, k.builtIn, hne, hchars⟩

namespace Cut
variable {k} {w : String} {ts : List Token} (h : k.Cut w ts)
include h

theorem chars_eq :
    k.chars = w.toList ++ (written (ts ++ k.tokens) ++ (k.initialiser.chars ++ [';'])) := by
  rw [chars, line, h.type, written_append]
  simp only [List.append_assoc]

theorem proper : ∀ t ∈ ts ++ k.tokens, t.Proper :=
  List.forall_mem_append.2 ⟨h.opening.proper, k.proper_tokens⟩

theorem pieced : Pieced w.toList (ts ++ k.tokens) (k.initialiser.chars ++ [';']) :=
  ⟨h.opening.chars, h.proper, k.closing.inert, head?_written h.proper k.closing.head?⟩

/-- Behind the name blanks and a word stand. -/
theorem exists_word : ∃ gap c more, Gap gap ∧ isIdentStart c = true ∧
    k.chars = w.toList ++ (gap ++ c :: more) := by
  have hwords : ∀ t ∈ ts ++ k.tokens, t.IsWord :=
    List.forall_mem_append.2 ⟨h.isWord, k.isWord_tokens⟩
  have hne : ts ++ k.tokens ≠ [] := by simp [tokens]
  have hproper := h.proper
  rw [h.chars_eq]
  obtain ⟨t, us, heq⟩ := List.exists_cons_of_ne_nil hne
  rw [heq] at hwords hproper ⊢
  rw [List.forall_mem_cons] at hwords hproper
  cases t with
  | word gap text =>
    obtain ⟨c, text, rfl⟩ := List.exists_cons_of_ne_nil (ne_nil_of_isName hproper.1.2)
    refine ⟨gap, c, text ++ (written us ++ (k.initialiser.chars ++ [';'])), hproper.1.1,
      (Bool.and_eq_true_iff.1 hproper.1.2).1, ?_⟩
    simp [Token.chars]
  | list => exact hwords.1.elim
  | group => exact hwords.1.elim

theorem begins : Begins w k.chars := by
  obtain ⟨gap, c, more, hgap, -, hchars⟩ := h.exists_word
  exact ⟨_, hchars, fun c hc => isWord_of_isBlank (head?_gap_append hgap c hc)⟩

theorem not_begins {x : String} (hx : x ∈ openingWords ++ memberWords ++ listWords) :
    ¬ Begins x k.chars := by
  have hascii : ∀ x ∈ openingWords ++ memberWords ++ listWords, ∀ c ∈ x.toList,
      isAsciiWord c = true := by decide
  intro hbegins
  have heq : x = w := hbegins.unique h.begins
    (fun c hc => isWord_of_isAsciiWord (hascii x hx c hc))
    fun c hc => isWord_of_isAsciiWord (h.ascii c hc)
  exact h.builtIn.not_mem (by decide) (heq ▸ hx)

theorem ne_function : w.toList ≠ "function".toList := by
  intro heq
  exact h.builtIn.not_mem (l := ["function"]) (by decide) (by rw [String.toList_inj.1 heq]; simp)

theorem ne_mapping : w.toList ≠ "mapping".toList := by
  intro heq
  exact h.builtIn.not_mem (l := ["mapping"]) (by decide) (by rw [String.toList_inj.1 heq]; simp)

/-- Where the line is read as a constant, its word for constants stands behind the type. -/
theorem qualifiers_of_constantLine {q : Place} (hq : Part.constantLine.Reads (.start k.chars) q) :
    k.visible = false ∧
      q.marks = [("name", k.name.chars), ("type", k.type.toList)] := by
  rw [h.chars_eq] at hq
  rcases h.pieced.of_constantLine hq with ⟨hw, -⟩ | ⟨us, ds, c, gap, x, ho, htokens, hmarks⟩
  · exact absurd hw h.ne_mapping
  · have hcut : (ts ++ k.qualifiers) ++ [.word k.gap k.name.chars] =
        (us ++ ds.map Brackets.token ++ [c.token]) ++ [.word gap x.chars] := by
      rw [tokens, ← List.append_assoc] at htokens
      simpa using htokens
    obtain ⟨hinit, hlast⟩ := List.append_inj' hcut rfl
    have hnone : ∀ t ∈ us ++ ds.map Brackets.token ++ [c.token], t.isIn visibilityWords = false := by
      rw [List.forall_mem_append, List.forall_mem_append, List.forall_mem_map,
        List.forall_mem_singleton]
      have hconstant : ∀ s ∈ ["constant"], s ∉ visibilityWords := by decide
      exact ⟨⟨ho.isIn (by decide) fun hw => absurd hw h.ne_function, fun _ _ => rfl⟩,
        Token.isIn_word (hconstant _ c.listed)⟩
    have hempty : k.before ++ k.after = [] := by
      refine List.eq_nil_iff_forall_not_mem.2 fun v hv => ?_
      have hnot := hnone v.token (by
        rw [← hinit, qualifiers]
        rcases List.mem_append.1 hv with hv | hv
        · simp [List.mem_map_of_mem hv]
        · simp [List.mem_map_of_mem hv])
      rw [v.isIn_token] at hnot
      cases hnot
    obtain ⟨hbefore, hafter⟩ := List.append_eq_nil_iff.1 hempty
    refine ⟨by rw [visible, hempty]; rfl, ?_⟩
    rw [qualifiers, hbefore, hafter] at hinit
    obtain ⟨rfl, -⟩ := List.append_inj' hinit rfl
    rw [hmarks, h.type, (Token.word.inj (List.singleton_inj.1 hlast)).2]

theorem not_declarationLine : Part.declarationLine.match? (.ofList k.chars) = none := by
  cases hq : Part.declarationLine.match? (.ofList k.chars) with
  | none => rfl
  | some q =>
    rw [h.chars_eq] at hq
    rcases h.pieced.of_declarationLine hq with ⟨hw, -⟩ | ⟨us, ds, l, ms, gap, x, ho, htokens⟩
    · exact absurd hw h.ne_mapping
    · rw [tokens, ← List.append_assoc] at htokens
      obtain ⟨hinit, -⟩ := List.append_inj' htokens rfl
      have hnot := isIn_constant ho ds l ms k.constant.token (by rw [← hinit, qualifiers]; simp)
      rw [k.constant.isIn_token] at hnot
      cases hnot

theorem not_targets (t : Target) : ¬ Targets t.chars k.chars := by
  obtain ⟨gap, c, more, hgap, hc, hchars⟩ := h.exists_word
  rw [hchars]
  exact not_targets_of_word (fun c hc => isIdentChar_of_isAsciiWord (h.ascii c hc)) h.ne_nil hgap hc t

end Cut

/-- Without a word of visibility the line is read as a constant. -/
theorem exists_constantLine (hvisible : k.visible = false) :
    ∃ q, Part.constantLine.Reads (.start k.chars) q := by
  have hempty : k.before ++ k.after = [] := by simpa [visible] using hvisible
  obtain ⟨hbefore, hafter⟩ := List.append_eq_nil_iff.1 hempty
  have hconstant : k.constant.text = "constant" := List.mem_singleton.1 k.constant.listed
  have hchars : k.chars = k.type.toList ++ ([] ++ (k.constant.gap ++ ("constant".toList ++ (k.gap ++
      (k.name.chars ++ (k.initialiser.gap ++ (['='] ++ ([] ++ (k.initialiser.text ++
        ([';'] ++ [])))))))))) := by
    simp [chars, line, tokens, qualifiers, hbefore, hafter, Word.token, Token.chars, hconstant,
      Initialiser.chars]
  have hvalue : k.initialiser.text ≠ [] := by
    obtain ⟨c, hc, -⟩ := k.initialiser.solid
    exact List.ne_nil_of_mem hc
  rw [hchars]
  refine ⟨_, _, ⟨_, ⟨_, ⟨_, ⟨_, ⟨_, ⟨_, ⟨_, ⟨_, ⟨_, ⟨_, ⟨_, reads_base (.inl (.inr ⟨_, k.builtIn, rfl⟩))
    ?_ [] [], spells_dimensions.reads ⟨[], rfl⟩ _ _ _⟩, rfl⟩, spells_gap.reads k.constant.isGap _ _ _⟩,
    (Spells.word "constant").reads rfl _ _ _⟩, spells_gap.reads k.isGap _ _ _⟩, _,
    spells_identifier.reads ⟨k.name, rfl⟩ _ _ _, rfl⟩,
    spells_blanks.reads k.initialiser.isBlank _ _ _⟩, (Spells.exactly '=').reads rfl _ _ _⟩,
    spells_blanks.reads blank_nil _ _ _⟩, spells_any.reads hvalue _ _ _⟩,
    (Spells.exactly ';').reads rfl _ [] _⟩, rfl, rfl⟩
  exact fun c hc => isWord_of_isBlank (head?_gap_append k.constant.isGap c hc)

theorem constant?_eq (hvisible : k.visible = false) :
    Part.constant? (.ofList k.chars) = some (.constant (.ofList k.name.chars) k.type) := by
  obtain ⟨w, ts, hcut⟩ := k.exists_cut
  obtain ⟨q, hq⟩ := k.exists_constantLine hvisible
  rw [← String.toList_ofList (l := k.chars)] at hq
  obtain ⟨found, hfound, hreads⟩ := exists_match? hq
  rw [String.toList_ofList] at hreads
  obtain ⟨-, hmarks⟩ := hcut.qualifiers_of_constantLine hreads
  have hname : found.mark? "name" = some (.ofList k.name.chars) := by
    rw [Place.mark?, hmarks]
    rfl
  have htype : found.mark? "type" = some k.type := by
    rw [Place.mark?, hmarks, ← String.ofList_toList (s := k.type), String.toList_ofList]
    rfl
  rw [Part.constant?, hfound, Option.bind_some, hname, htype]

theorem ofText_eq : Part.ofText (.ofList k.chars) =
    if k.visible then .expression none
    else .constant (.ofList k.name.chars) k.type := by
  obtain ⟨w, ts, hcut⟩ := k.exists_cut
  have hplain : Plain k.chars := .of_not_begins fun x hx =>
    hcut.not_begins (List.mem_append_left _ (List.mem_append_left _ hx))
  have hheaded : ¬ Headed memberWords k.chars := fun h => by
    obtain ⟨x, hx, hbegins⟩ := h.begins
    exact hcut.not_begins (List.mem_append_left _ (List.mem_append_right _ hx)) hbegins
  have hlisted : ¬ Listed listWords k.chars := fun h => by
    obtain ⟨x, hx, hbegins⟩ := h.begins
    exact hcut.not_begins (List.mem_append_right _ hx) hbegins
  cases hvisible : k.visible with
  | true =>
    have hconstant : ∀ q, ¬ Part.constantLine.Reads (.start k.chars) q := by
      intro q hq
      rw [(hcut.qualifiers_of_constantLine hq).1] at hvisible
      cases hvisible
    have hnone : Part.target? (.ofList k.chars) = none := by
      rw [target?_eq_none_iff, String.toList_ofList]
      exact hcut.not_targets
    rw [ofText_eq_expression hplain hconstant hcut.not_declarationLine hheaded hlisted, hnone]
    rfl
  | false =>
    rw [ofText_eq_of_plain hplain, k.constant?_eq hvisible]
    rfl

end QualifiedConstant

end Solidity

namespace Statement

theorem text_ofRaw_constant (k : QualifiedConstant) :
    ofRaw (.ofList k.chars) = ⟨.ofList k.chars⟩ := by
  obtain ⟨w, ts, hcut⟩ := k.exists_cut
  obtain ⟨c, cs, hcs⟩ := List.exists_cons_of_ne_nil hcut.ne_nil
  have hhead : k.chars.head? = some c := by
    rw [hcut.chars_eq, hcs]
    rfl
  have hc : Text.isBlank c = false := by
    refine isBlank_of_isWord (isWord_of_isAsciiWord (hcut.ascii c ?_))
    rw [hcs]
    exact List.mem_cons_self
  exact ofRaw_ofList hhead hc (by rw [QualifiedConstant.chars, List.getLast?_concat])

/-- A constant is recognised, read back by its name and put outside of the contract where it has no
word of visibility; otherwise its line is an expression, read back as a whole, in the body. -/
theorem part_constant (k : QualifiedConstant) (before : List Statement) (spec : ReturnSpec)
    (last : Bool) :
    (ofRaw (.ofList k.chars)).part =
        (if k.visible then .expression none else .constant (.ofList k.name.chars) k.type) ∧
      returnExpression (before ++ [ofRaw (.ofList k.chars)]) =
        some (if k.visible then .ofList (Text.dropBlankEnd k.line) else .ofList k.name.chars) ∧
      Slot.of spec last (ofRaw (.ofList k.chars)).part =
        if k.visible then (if last && spec.expression.isSome then .returned else .body)
        else .outside .constant := by
  have hpart : part ⟨.ofList k.chars⟩ =
      if k.visible then .expression none else .constant (.ofList k.name.chars) k.type :=
    k.ofText_eq
  rw [text_ofRaw_constant]
  cases hvisible : k.visible with
  | true =>
    rw [hvisible] at hpart
    refine ⟨hpart, ?_, by rw [hpart]; rfl⟩
    rw [returnExpression_of_expression hpart, QualifiedConstant.chars, body_ofList]
    rfl
  | false =>
    rw [hvisible] at hpart
    refine ⟨hpart, ?_, by rw [hpart]; rfl⟩
    rw [returnExpression, List.getLast?_append, List.getLast?_singleton, Option.some_or,
      Option.bind_some, hpart]
    rfl

/-- Neither order of the words is recognised. -/
theorem part_public_constant :
    part ⟨"uint256 public constant X = 5;"⟩ = .expression none ∧
      part ⟨"uint256 constant public X = 5;"⟩ = .expression none ∧
      returnExpression [⟨"uint256 public constant X = 5;"⟩] =
        some "uint256 public constant X = 5" := by
  decide +kernel

end Statement
end SoliditySession
