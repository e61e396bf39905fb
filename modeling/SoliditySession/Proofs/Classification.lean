import SoliditySession.Proofs.Heads
import SoliditySession.Proofs.Normalization
/- How written declarations are classified. -/
namespace SoliditySession
open Pattern Solidity Text
namespace Solidity

namespace Declaration
variable (d : Declaration)

theorem exists_opening (h : d.type.isMapping = false) : ∃ w ts, Opening w ts ∧
    w ≠ "mapping".toList ∧ d.typeChars = w ++ written (ts ++
      (d.type.dimensions.map Brackets.token ++ d.location.toList.map Word.token)) := by
  cases htype : d.type with
  | named n ds =>
    obtain ⟨w, ts, ho, hn, -, hmapping⟩ := n.exists_opening
    exact ⟨w, ts, ho, hmapping, d.typeChars_of_named htype hn⟩
  | function ps ws rs ds =>
    exact ⟨_, _, .function ps ws rs, by decide, d.typeChars_of_function htype⟩
  | mapping =>
    rw [htype] at h
    cases h

/-- Behind a type that is no mapping every word before the last is the declaration's. -/
theorem not_constant_of_opening (h : d.type.isMapping = false) (q : Place) :
    ¬ Part.constantLine.Reads (.start d.chars) q := by
  intro hq
  obtain ⟨w, ts, ho, hne, htype⟩ := d.exists_opening h
  have hfront := List.forall_mem_append.2 ⟨ho.proper, proper_front d.type.dimensions d.location⟩
  rw [d.chars_pieced htype] at hq
  rcases (d.pieced ho.chars hfront).of_constantLine hq with
    ⟨hw, -⟩ | ⟨us, ds, c, gap, x, -, htokens, -⟩
  · exact hne hw
  · have hcut : (ts ++ (d.type.dimensions.map Brackets.token ++
        d.location.toList.map Word.token) ++ d.modifiers.map Word.token) ++
          [.word d.gap d.name.chars] = (us ++ ds.map Brackets.token ++ [c.token]) ++
            [.word gap x.chars] := by simpa using htokens
    obtain ⟨hinit, -⟩ := List.append_inj' hcut rfl
    have hnot := isIn_constant ho d.type.dimensions d.location d.modifiers c.token
      (by rw [hinit]; exact List.mem_append_right _ (.head _))
    rw [c.isIn_token] at hnot
    cases hnot

/-- Behind a mapping nothing is assigned. -/
theorem not_constant_of_mapping (h : d.type.isMapping = true)
    (hhides : ∀ b ∈ d.type.brackets, ¬ b.Hides) (q : Place) :
    ¬ Part.constantLine.Reads (.start d.chars) q := by
  intro hq
  obtain ⟨_, r, ds, c, gap, x, b, v, -, hr, -, hgap, hb, -, hahead, -⟩ := reads_constantLine hq
  have hproper : ∀ t ∈ [c.token, .word gap x.chars], t.Proper := by
    rw [List.forall_mem_cons, List.forall_mem_singleton]
    exact ⟨c.proper (by decide), hgap, x.isName_chars⟩
  have hwords : ∀ t ∈ [c.token, .word gap x.chars], t.IsWord := by
    rw [List.forall_mem_cons, List.forall_mem_singleton]
    exact ⟨trivial, trivial⟩
  rcases reads_typeBase hr with ⟨u, hu, hpast⟩ | ⟨w, ts, ho, hpast⟩
  · exact d.neverAssigns_of_mapping h hhides hu hpast ds _ hahead
      (assigns_written hproper hwords (List.cons_ne_nil _ _) hb)
  · exact d.not_opening_of_mapping h ho hpast hproper hwords (List.cons_ne_nil _ _)
      (.inr ⟨b, _, hb, rfl⟩) hahead

theorem not_constant (hhides : d.type.isMapping = true → ∀ b ∈ d.type.brackets, ¬ b.Hides)
    (q : Place) : ¬ Part.constantLine.Reads (.start d.chars) q := by
  cases h : d.type.isMapping with
  | false => exact d.not_constant_of_opening h q
  | true => exact d.not_constant_of_mapping h (hhides h) q

end Declaration

/-- A word that begins a type and opens no statement of another kind. -/
structure TypeWord (w : String) : Prop where
  ne_nil : w.toList ≠ []
  isWord : ∀ c ∈ w.toList, Text.isWord c = true
  notOpening : w ∉ openingWords

theorem TypeWord.not_begins {k w : String} {cs : List Char} (hw : TypeWord w) (h : Begins w cs)
    (hk : k ∈ openingWords) : ¬ Begins k cs := by
  intro hbegins
  rw [hbegins.unique h (isWord_openingWords k hk) hw.isWord] at hk
  exact hw.notOpening hk

theorem Begins.append {w : String} {cs ds : List Char} (h : Begins w cs)
    (hds : ∀ c ∈ ds.head?, Text.isWord c = false) : Begins w (cs ++ ds) := by
  obtain ⟨r, rfl, hr⟩ := h
  refine ⟨r ++ ds, List.append_assoc _ _ _, ?_⟩
  cases r with
  | nil => exact hds
  | cons b r => exact hr

theorem NamedType.exists_begins (n : NamedType) : ∃ w, TypeWord w ∧ Begins w n.chars := by
  have hsub : ∀ {w : String}, w ∉ reservedWords → w ∉ openingWords := fun hw h =>
    hw (List.mem_append_left _ h)
  cases n with
  | elementary name builtIn =>
    rcases builtIn.chars with rfl | ⟨hne, hchars⟩
    · refine ⟨"address", ⟨by decide, isWord_of_isAsciiWords (by decide), by decide⟩,
        " payable".toList, rfl, ?_⟩
      rintro c ⟨⟩
      exact isWord_of_parting (.inl (by decide))
    · exact ⟨name, ⟨hne, isWord_of_isAsciiWords hchars, hsub builtIn.not_reserved⟩, [],
        (List.append_nil _).symm, nofun⟩
  | path p words notReserved =>
    obtain ⟨r, hr, hstop⟩ := p.exists_behind_first []
    rw [List.append_nil] at hr
    refine ⟨.ofList p.first.chars, ⟨?_, ?_, hsub notReserved⟩, r, ?_, ?_⟩
    · rw [String.toList_ofList]
      exact List.cons_ne_nil _ _
    · rw [String.toList_ofList]
      intro c hc
      rcases words c (List.mem_append_left _ hc) with h | rfl
      · exact isWord_of_isAsciiWord h
      · exact absurd (p.first.chars_char _ hc) (by decide)
    · rw [String.toList_ofList]
      exact hr
    · intro c hc
      rcases hstop c hc with rfl | hc
      · exact isWord_of_parting (.inr (by decide))
      · cases hc

theorem WrittenType.exists_begins (t : WrittenType) : ∃ w, TypeWord w ∧ Begins w t.chars := by
  cases t with
  | named n ds =>
    obtain ⟨w, hw, hbegins⟩ := n.exists_begins
    refine ⟨w, hw, hbegins.append ?_⟩
    cases ds with
    | nil => exact nofun
    | cons d ds =>
      rintro c ⟨⟩
      exact isWord_of_parting (.inr (by decide))
  | function ps ws rs ds =>
    refine ⟨"function", ⟨by decide, isWord_of_isAsciiWords (by decide), by decide⟩, _,
      chars_function ps ws rs ds, ?_⟩
    rw [functionTokens, List.cons_append, written_cons, Parameters.token, Token.chars,
      List.append_assoc, List.cons_append]
    exact isWord_head?_list ps.isBlank
  | mapping gap key value label hgap hlabel ds =>
    refine ⟨"mapping", ⟨by decide, isWord_of_isAsciiWords (by decide), by decide⟩,
      gap ++ '(' :: (key.chars ++ (value.chars ++ (label ++ ([')'] ++
        written (ds.map Brackets.token))))), ?_, isWord_head?_list hgap⟩
    rw [chars_mapping]
    simp only [List.append_assoc, List.cons_append]

namespace Declaration
variable (d : Declaration)

theorem exists_begins : ∃ w, TypeWord w ∧ Begins w d.typeChars ∧ Begins w d.chars := by
  have hwords : ∀ t ∈ d.modifiers.map Word.token ++ [.word d.gap d.name.chars], t.IsWord :=
    List.forall_mem_append.2 ⟨Word.isWord_tokens _, List.forall_mem_singleton.2 trivial⟩
  obtain ⟨w, hw, hbegins⟩ := d.type.exists_begins
  have htype : Begins w d.typeChars := by
    refine hbegins.append ?_
    cases d.location with
    | none => exact nofun
    | some l => exact fun c hc => isWord_of_isBlank (head?_gap_append l.isGap c (by
        simpa [Word.token, Token.chars] using hc))
  refine ⟨w, hw, htype, htype.append fun c hc => isWord_of_isBlank ?_⟩
  exact head?_words (proper_modifiers d.modifiers d.isGap d.name) hwords (by simp) _ c hc

theorem not_begins {k : String} (hk : k ∈ openingWords) : ¬ Begins k d.chars := by
  obtain ⟨w, hw, -, hbegins⟩ := d.exists_begins
  exact hw.not_begins hbegins hk

theorem head?_typeChars : ∃ c cs, d.typeChars = c :: cs ∧ Text.isBlank c = false := by
  obtain ⟨w, hw, ⟨r, htype, -⟩, -⟩ := d.exists_begins
  obtain ⟨c, cs, hcons⟩ := List.exists_cons_of_ne_nil hw.ne_nil
  refine ⟨c, cs ++ r, by rw [htype, hcons]; rfl, isBlank_of_isWord (hw.isWord c ?_)⟩
  rw [hcons]
  exact List.mem_cons_self

/-- The type alone is not taken for a statement. -/
theorem not_keyword_firstWord :
    isStatementKeyword ((Text.firstWord (.ofList d.typeChars)).getD "") = false := by
  rw [isStatementKeyword, ← Bool.not_eq_true, List.contains_iff_mem]
  intro hmem
  obtain ⟨w, hw, hbegins, -⟩ := d.exists_begins
  obtain ⟨c, cs, hcons, hc⟩ := d.head?_typeChars
  have hfirst : Text.firstWord (.ofList d.typeChars) =
      some (.ofList (d.typeChars.takeWhile (!Text.isBlank ·))) := by
    have hdrop : Text.dropBlank (c :: cs) = c :: cs :=
      List.dropWhile_cons_of_neg (by simp [hc])
    rw [hcons, Text.firstWord, String.toList_ofList, hdrop,
      List.takeWhile_cons_of_pos (by rw [hc]; rfl)]
  rw [hfirst, Option.getD_some] at hmem
  refine hw.not_begins hbegins (List.mem_append_left _ hmem)
    ⟨d.typeChars.dropWhile (!Text.isBlank ·), ?_, ?_⟩
  · rw [String.toList_ofList, List.takeWhile_append_dropWhile]
  · intro x hx
    have hblank := List.head?_dropWhile_not (!Text.isBlank ·) d.typeChars
    rw [Option.mem_def.1 hx] at hblank
    exact isWord_of_isBlank (by simpa using hblank)

end Declaration

/-- Words that a data location ends in. -/
def locationEnds : List String := locations ++ ["pointer", "ref", "slice"]

/-- How the text of a type without a data location may end. -/
inductive Ending : List Char → Prop
  | closer {u : List Char} {c : Char} : isCloser c = true → Ending (u ++ [c])
  | solid {cs : List Char} : (∀ c ∈ cs, Text.isBlank c = false) → Ending cs
  | word {u : List Char} {b : Char} {w : String} : Text.isBlank b = true → w ∉ locationEnds →
      (∀ c ∈ w.toList, isIdentChar c = true) → Ending (u ++ b :: w.toList)

/-- A text in which a data location is found ends in one of these words, behind a blank. -/
theorem exists_locationEnd {cs : List Char} (h : (location? (.ofList cs)).isSome = true) :
    ∃ u b w, cs = u ++ b :: String.toList w ∧ Text.isBlank b = true ∧ w ∈ locationEnds := by
  obtain ⟨u, a, w, d, rfl, ha, hw, hd⟩ := location?_isSome_iff.1 h
  rcases hd with ⟨gap, ⟨hpos, hgap⟩, _, ⟨s, hs, rfl⟩, rfl⟩ | rfl
  · obtain ⟨gap, b, rfl⟩ :=
      (List.eq_nil_or_concat' gap).resolve_left (List.ne_nil_of_length_pos hpos)
    exact ⟨u ++ a :: (w.toList ++ gap), b, s, by simp, hgap b (by simp),
      List.mem_append_right _ hs⟩
  · exact ⟨u, a, w, by simp, ha, List.mem_append_left _ hw⟩

theorem Ending.location? {cs : List Char} (h : Ending cs) :
    (location? (.ofList cs)).isSome = false := by
  rw [← Bool.not_eq_true]
  intro hsome
  obtain ⟨u, b, x, hcs, hb, hx⟩ := exists_locationEnd hsome
  have hends : ∀ x ∈ locationEnds, x.toList ≠ [] ∧ ∀ c ∈ x.toList, isIdentChar c = true := by
    decide
  have hblank : ∀ {b : Char}, Text.isBlank b = true → isIdentChar b = false := fun hb =>
    isIdentChar_of_isPathChar (isPathChar_of_isBlank hb)
  cases h with
  | @closer v c hc =>
    have hident : isIdentChar c = false := by
      rw [← Bool.not_eq_true]
      intro hident
      have hnot := isCloser_of_isLabelChar (by rw [isLabelChar, hident]; rfl)
      rw [hc] at hnot
      cases hnot
    exact (hends x hx).1
      (append_inj_of_last isIdentChar hident (hblank hb) (List.forall_mem_nil _) (hends x hx).2
        hcs).symm
  | solid hsolid =>
    have hnot := hsolid b (by rw [hcs]; simp)
    rw [hb] at hnot
    cases hnot
  | word hb' hw' hword =>
    have heq := append_inj_of_last isIdentChar (hblank hb') (hblank hb) hword (hends x hx).2 hcs
    rw [← String.toList_inj.1 heq] at hx
    exact hw' hx

theorem Ending.of_dimensions {cs : List Char} (h : Ending cs) (ds : List Brackets) :
    Ending (cs ++ written (ds.map Brackets.token)) := by
  rcases List.eq_nil_or_concat' ds with rfl | ⟨ds, d, rfl⟩
  · rwa [List.map_nil, written_nil, List.append_nil]
  · have hchars : cs ++ written ((ds ++ [d]).map Brackets.token) =
        (cs ++ (written (ds.map Brackets.token) ++ '[' :: d.content)) ++ [']'] := by
      simp [Brackets.token, Token.chars]
    rw [hchars]
    exact .closer rfl

theorem NamedType.ending (n : NamedType) : Ending n.chars := by
  cases n with
  | elementary name builtIn =>
    rcases builtIn.chars with rfl | ⟨-, hchars⟩
    · exact .word (u := "address".toList) (b := ' ') (w := "payable") (by decide) (by decide)
        (by decide)
    · exact .solid fun c hc => isBlank_of_isIdentChar (isIdentChar_of_isAsciiWord (hchars c hc))
  | path p words notReserved =>
    refine .solid fun c hc => ?_
    rcases p.chars_char c hc with h | rfl
    · exact isBlank_of_isIdentChar h
    · decide

/-- A function type ends in a parenthesis or in one of its attributes. -/
theorem ending_of_function (cs : List Char) (ps : Parameters) (ws : List (Word attributeWords))
    (rs : Option Results) : Ending (cs ++ written (WrittenType.functionTokens ps ws rs)) := by
  have hlist : ∀ (cs : List Char) (ps : Parameters), Ending (cs ++ ps.token.chars) := by
    intro cs ps
    have hchars : cs ++ ps.token.chars = (cs ++ (ps.gap ++ '(' :: ps.content)) ++ [')'] := by
      simp [Parameters.token, Token.chars]
    rw [hchars]
    exact .closer rfl
  cases rs with
  | some r =>
    have hchars : cs ++ written (WrittenType.functionTokens ps ws (some r)) =
        (cs ++ written (ps.token :: (ws.map Word.token ++ [.word r.gap "returns".toList]))) ++
          r.parameters.token.chars := by
      simp [WrittenType.functionTokens, Results.tokens]
    rw [hchars]
    exact hlist _ _
  | none =>
    rcases List.eq_nil_or_concat' ws with rfl | ⟨ws, w, rfl⟩
    · have hchars : written (WrittenType.functionTokens ps [] none) = ps.token.chars :=
        List.append_nil _
      rw [hchars]
      exact hlist cs ps
    · obtain ⟨gap, b, hgap⟩ := (List.eq_nil_or_concat' w.gap).resolve_left w.isGap.1
      have hattribute : ∀ s ∈ attributeWords, s ∉ locationEnds ∧
          ∀ c ∈ s.toList, isIdentChar c = true := by decide
      have hchars : cs ++ written (WrittenType.functionTokens ps (ws ++ [w]) none) =
          (cs ++ (written (ps.token :: ws.map Word.token) ++ gap)) ++ b :: w.text.toList := by
        simp [WrittenType.functionTokens, Word.token, Token.chars, hgap]
      rw [hchars]
      exact .word (w.isGap.2 b (by rw [hgap]; simp)) (hattribute _ w.listed).1
        (hattribute _ w.listed).2

theorem WrittenType.ending (t : WrittenType) : Ending t.chars := by
  cases t with
  | named n ds => exact n.ending.of_dimensions ds
  | function ps ws rs ds =>
    rw [chars_function, written_append, ← List.append_assoc]
    exact (ending_of_function _ ps ws rs).of_dimensions ds
  | mapping gap key value label hgap hlabel ds =>
    have hchars : (mapping gap key value label hgap hlabel ds).chars =
        (("mapping".toList ++ (gap ++ '(' :: key.chars)) ++ (value.chars ++ label) ++ [')']) ++
          written (ds.map Brackets.token) := by
      rw [chars_mapping]
      simp only [List.append_assoc]
    rw [hchars]
    exact (Ending.closer rfl).of_dimensions ds

/-- The type text holds a data location exactly where one is written. -/
theorem Declaration.isSome_location? (d : Declaration) :
    (location? (.ofList d.typeChars)).isSome = d.location.isSome := by
  cases h : d.location with
  | none =>
    have hchars : d.typeChars = d.type.chars := by
      rw [typeChars, h]
      exact List.append_nil _
    rw [hchars]
    exact d.type.ending.location?
  | some l =>
    obtain ⟨gap, b, hgap⟩ := (List.eq_nil_or_concat' l.gap).resolve_left l.isGap.1
    refine location?_isSome_iff.2 ⟨d.type.chars ++ gap, b, l.text, [], ?_,
      l.isGap.2 b (by rw [hgap]; simp), l.listed, .inr rfl⟩
    rw [typeChars, h]
    simp [Word.token, Token.chars, hgap]

namespace Declaration
variable (d : Declaration)

theorem getLast?_chars : d.chars.getLast? = some ';' := by
  rw [chars, behind, closing]
  simp only [List.getLast?_append, List.getLast?_singleton, Option.some_or]

theorem text_ofRaw : (Statement.ofRaw (.ofList d.chars)).text = .ofList d.chars := by
  obtain ⟨c, cs, htype, hc⟩ := d.head?_typeChars
  have hhead : d.chars.head? = some c := by
    rw [chars, htype]
    rfl
  rw [Statement.ofRaw_ofList hhead hc d.getLast?_chars]

theorem declaration?_eq (hhides : d.type.isMapping = true → ∀ b ∈ d.type.brackets, ¬ b.Hides) :
    Part.declaration? (.ofList d.chars) =
      some (.declaration (.ofList d.name.chars) (.ofList d.typeChars)
        (d.initialiser.map fun i => Text.trim (.ofList i.text))) := by
  obtain ⟨q, hq, hfound⟩ := d.exists_found_of_brackets hhides
  have hmatch : Part.declarationLine.match? (.ofList d.chars) = some q := by
    rw [match?, String.toList_ofList, hq]
  rw [Part.declaration?, hmatch, Option.bind_some, hfound.name, hfound.type]
  simp only [d.not_keyword_firstWord, d.notKeyword, Bool.or_self, Bool.false_eq_true, if_false,
    hfound.value]

end Declaration

/-- Without a closing parenthesis nothing is hidden. -/
theorem Brackets.not_hides {b : Brackets} (h : ')' ∉ b.content) : ¬ b.Hides := by
  rintro ⟨before, after, hcontent, -⟩
  exact h (by rw [hcontent]; simp)

end Solidity

namespace Statement

/-- A declaration is recognised with its name, its type as it is written and what it is given, and
it is local where a data location is written; no bracket group of a mapping may hide an
assignment. -/
theorem part_declaration (d : Declaration)
    (hhides : d.type.isMapping = true → ∀ b ∈ d.type.brackets, ¬ b.Hides) :
    (ofRaw (.ofList d.chars)).part = .declaration (.ofList d.name.chars) (.ofList d.typeChars)
        (d.initialiser.map fun i => Text.trim (.ofList i.text)) ∧
      (ofRaw (.ofList d.chars)).part.isLocal = d.location.isSome := by
  have hpart : (ofRaw (.ofList d.chars)).part = .declaration (.ofList d.name.chars)
      (.ofList d.typeChars) (d.initialiser.map fun i => Text.trim (.ofList i.text)) := by
    rw [part, d.text_ofRaw]
    exact ofText_eq_declaration (.of_not_begins fun _ => d.not_begins) (d.not_constant hhides)
      (d.declaration?_eq hhides)
  refine ⟨hpart, ?_⟩
  rw [hpart]
  exact d.isSome_location?

/-- A mapping of arrays of mappings. -/
def flagsDeclaration : Declaration where
  type := .mapping []
    ⟨[], .elementary "address" (.plain (by decide)), " owner ".toList, [' '], by decide, by decide⟩
    (.mapping [] ⟨[], .path ⟨⟨'I', ['d'], by decide, by decide⟩, []⟩ (by decide) (by decide), [' '],
      [' '], by decide, by decide⟩ (.named (.elementary "bool" (.plain (by decide))) []) []
      (by decide) (by decide) [⟨['8'], by decide⟩])
    " flags".toList (by decide) (by decide) []
  location := none
  modifiers := [⟨[' '], "public", by decide, by decide⟩, ⟨[' '], "override", by decide, by decide⟩]
  gap := ['\t']
  name := ⟨'t', "able".toList, by decide, by decide⟩
  initialiser := none
  isGap := by decide
  notKeyword := by decide
  modified := .inr ⟨rfl, rfl⟩
  given := .inl rfl

theorem part_flagsDeclaration :
    (∀ b ∈ flagsDeclaration.type.brackets, ¬ b.Hides) ∧
      (ofRaw (.ofList flagsDeclaration.chars)).part = .declaration "table"
        "mapping(address owner => mapping(Id => bool)[8] flags)" none ∧
      (ofRaw (.ofList flagsDeclaration.chars)).part.isLocal = false := by
  have hhides : ∀ b ∈ flagsDeclaration.type.brackets, ¬ b.Hides := by
    intro b hb
    obtain rfl := List.mem_singleton.1 hb
    exact Brackets.not_hides (by decide)
  obtain ⟨hpart, hlocal⟩ := part_declaration flagsDeclaration fun _ => hhides
  exact ⟨hhides, hpart.trans (by decide), hlocal⟩

/-- A mapping whose dimension holds a comment. -/
def balancesDeclaration : Declaration where
  type := .mapping []
    ⟨[], .elementary "address" (.plain (by decide)), [' '], [' '], by decide, by decide⟩
    (.named (.elementary "uint256" (.integer (s := "uint") (n := 256) (by decide) (by decide)
      (by decide) (by decide))) []) [] (by decide) (by decide)
    [⟨"2 /* (in) n = 2 */".toList, by decide⟩]
  location := none
  modifiers := []
  gap := [' ']
  name := ⟨'b', "alances".toList, by decide, by decide⟩
  initialiser := none
  isGap := by decide
  notKeyword := by decide
  modified := .inl rfl
  given := .inl rfl

/-- What the comment says is taken for the name and the value. -/
theorem part_balancesDeclaration :
    (ofRaw (.ofList balancesDeclaration.chars)).part = .declaration "n"
        "mapping(address => uint256)[2 /* (in)" (some "2 */] balances") ∧
      (ofRaw (.ofList balancesDeclaration.chars)).part ≠ .declaration
        (.ofList balancesDeclaration.name.chars) (.ofList balancesDeclaration.typeChars)
        (balancesDeclaration.initialiser.map fun i => Text.trim (.ofList i.text)) := by
  decide +kernel

end Statement

end SoliditySession
