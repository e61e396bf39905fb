import SoliditySession.Proofs.DataLocation
import SoliditySession.Proofs.Declaration
import SoliditySession.Statement
/- What the patterns for the pieces of a declaration read, one after the other. -/
namespace SoliditySession
open Pattern Solidity Text

namespace Solidity

theorem spells_blanks : blanks.Spells {w | Blank w} :=
  (Spells.many 0 Text.isBlank).of_mem_iff fun _ => ⟨And.right, fun h => ⟨Nat.zero_le _, h⟩⟩

theorem spells_gap : blanks1.Spells {w | Gap w} :=
  (Spells.many 1 Text.isBlank).of_mem_iff fun _ => and_congr_left' List.length_pos_iff

/-- Any text that is not empty. -/
theorem spells_any : (many 1 anyChar).Spells {w | w ≠ []} :=
  (Spells.many 1 anyChar).of_mem_iff fun _ =>
    ⟨fun h => List.length_pos_iff.1 h.1, fun h => ⟨List.length_pos_iff.2 h, fun _ _ => rfl⟩⟩

theorem Token.chars_ne_nil {t : Token} (ht : t.Proper) : t.chars ≠ [] := by
  cases t with
  | word gap text => exact List.append_ne_nil_of_left_ne_nil ht.1.1 _
  | list gap content => exact List.append_ne_nil_of_right_ne_nil _ (List.cons_ne_nil _ _)
  | group content => exact List.cons_ne_nil _ _

section
variable {α : Type} {token : α → Token} {a : Pattern}

/-- A pattern for pieces of one kind, read as often as possible. -/
theorem spells_pieces (ha : a.Spells {w | ∃ x, (token x).chars = w})
    (htoken : ∀ x, (token x).Proper) :
    (star a).Spells {w | ∃ xs : List α, written (xs.map token) = w} := by
  refine (ha.star ?_).of_mem_iff fun w => ?_
  · rintro _ ⟨x, rfl⟩
    exact (token x).chars_ne_nil (htoken x)
  · have hwritten : ∀ xs : List α,
        written (xs.map token) = (xs.map fun x => (token x).chars).flatten := by
      intro xs
      rw [written, List.flatMap_map]
      rfl
    constructor
    · rintro ⟨pieces, rfl, hpieces⟩
      obtain ⟨xs, rfl⟩ := (Set.range_list_map fun x => (token x).chars).ge hpieces
      exact ⟨xs, hwritten xs⟩
    · rintro ⟨xs, rfl⟩
      refine Language.mem_kstar.2 ⟨_, hwritten xs, ?_⟩
      exact List.forall_mem_map.2 fun x _ => ⟨x, rfl⟩

theorem spells_optional (ha : a.Spells {w | ∃ x, (token x).chars = w}) :
    (optional a).Spells {w | ∃ x : Option α, written (x.toList.map token) = w} := by
  refine ha.optional.of_mem_iff fun w => ?_
  constructor
  · rintro (⟨x, rfl⟩ | rfl)
    · exact ⟨some x, List.append_nil _⟩
    · exact ⟨none, rfl⟩
  · rintro ⟨_ | x, rfl⟩
    · exact .inr rfl
    · exact .inl ⟨x, (List.append_nil _).symm⟩

end

theorem spells_word (l : List String) :
    (blanks1 ++ words l).Spells {w | ∃ t : Word l, t.token.chars = w} := by
  refine (spells_gap.append (Spells.words l)).of_mem_iff fun w => ?_
  constructor
  · rintro ⟨gap, hgap, _, ⟨s, hs, rfl⟩, rfl⟩
    exact ⟨⟨gap, s, hgap, hs⟩, rfl⟩
  · rintro ⟨t, rfl⟩
    exact ⟨t.gap, t.isGap, _, ⟨t.text, t.listed, rfl⟩, rfl⟩

theorem spells_parameters :
    (blanks ++ exactly '(' ++ .many 0 (!isParen ·) ++ exactly ')').Spells
      {w | ∃ p : Parameters, p.token.chars = w} := by
  refine (((spells_blanks.append (.exactly '(')).append (.many 0 (!isParen ·))).append
    (.exactly ')')).of_mem_iff fun w => ?_
  constructor
  · rintro ⟨_, ⟨_, ⟨gap, hgap, _, rfl, rfl⟩, content, ⟨-, hflat⟩, rfl⟩, _, rfl, rfl⟩
    refine ⟨⟨gap, content, hgap, fun c hc => by simpa using hflat c hc⟩, ?_⟩
    simp [Parameters.token, Token.chars]
  · rintro ⟨p, rfl⟩
    refine ⟨_, ⟨_, ⟨p.gap, p.isBlank, _, rfl, rfl⟩, p.content,
      ⟨Nat.zero_le _, fun c hc => by simp [p.flat c hc]⟩, rfl⟩, _, rfl, ?_⟩
    simp [Parameters.token, Token.chars]

theorem spells_brackets :
    (exactly '[' ++ .many 0 (!isBracket ·) ++ exactly ']').Spells
      {w | ∃ d : Brackets, d.token.chars = w} := by
  refine spells_bracketed.of_mem_iff fun w => ?_
  constructor
  · rintro ⟨content, hflat, rfl⟩
    exact ⟨⟨content, hflat⟩, rfl⟩
  · rintro ⟨d, rfl⟩
    exact ⟨d.content, d.flat, rfl⟩

theorem spells_dimensions :
    dimensions.Spells {w | ∃ ds : List Brackets, written (ds.map Brackets.token) = w} :=
  spells_pieces spells_brackets Brackets.proper

/-- What a function type says of its results, if anything. -/
theorem spells_results : (optional (blanks1 ++ word "returns" ++
    (blanks ++ exactly '(' ++ .many 0 (!isParen ·) ++ exactly ')'))).Spells
      {w | ∃ r : Option Results, written ((r.map Results.tokens).getD []) = w} := by
  refine (((spells_gap.append (.word "returns")).append
    spells_parameters).optional).of_mem_iff fun w => ?_
  constructor
  · rintro (⟨_, ⟨gap, hgap, _, rfl, rfl⟩, _, ⟨p, rfl⟩, rfl⟩ | rfl)
    · refine ⟨some ⟨gap, hgap, p⟩, ?_⟩
      simp [Results.tokens, Token.chars]
    · exact ⟨none, rfl⟩
  · rintro ⟨_ | r, rfl⟩
    · exact .inr rfl
    · refine .inl ⟨_, ⟨r.gap, r.isGap, _, rfl, rfl⟩, _, ⟨r.parameters, rfl⟩, ?_⟩
      simp [Results.tokens, Token.chars]

theorem spells_attributes : (star (blanks1 ++ words attributeWords)).Spells
    {w | ∃ ws : List (Word attributeWords), written (ws.map Word.token) = w} :=
  spells_pieces (spells_word attributeWords) fun w => w.proper (by decide)

theorem spells_functionType : functionType.Spells {w | ∃ ps ws rs,
    "function".toList ++ written (WrittenType.functionTokens ps ws rs) = w} := by
  refine ((((Spells.word "function").append spells_parameters).append spells_attributes).append
    spells_results).of_mem_iff fun w => ?_
  constructor
  · rintro ⟨_, ⟨_, ⟨_, rfl, _, ⟨ps, rfl⟩, rfl⟩, _, ⟨ws, rfl⟩, rfl⟩, _, ⟨rs, rfl⟩, rfl⟩
    refine ⟨ps, ws, rs, ?_⟩
    simp [WrittenType.functionTokens]
  · rintro ⟨ps, ws, rs, rfl⟩
    refine ⟨_, ⟨_, ⟨_, rfl, _, ⟨ps, rfl⟩, rfl⟩, _, ⟨ws, rfl⟩, rfl⟩, _, ⟨rs, rfl⟩, ?_⟩
    simp [WrittenType.functionTokens]

/-- Texts that begin and end like a mapping, with an arrow inside. -/
def mappingTexts : Language Char :=
  {w | ∃ gap u v, Blank gap ∧ u ≠ [] ∧ v ≠ [] ∧
    "mapping".toList ++ (gap ++ '(' :: (u ++ ("=>".toList ++ (v ++ [')'])))) = w}

theorem spells_mapping : (mapping anyChar).Spells mappingTexts := by
  have h := ((((((Spells.word "mapping").append spells_blanks).append
    (.exactly '(')).append spells_any).append (.word "=>")).append
      spells_any).append (.exactly ')')
  refine h.of_mem_iff fun w => ?_
  constructor
  · rintro ⟨_, ⟨_, ⟨_, ⟨_, ⟨_, ⟨_, rfl, gap, hgap, rfl⟩, _, rfl, rfl⟩, u, hu, rfl⟩, _, rfl, rfl⟩, v,
      hv, rfl⟩, _, rfl, rfl⟩
    exact ⟨gap, u, v, hgap, hu, hv, by simp⟩
  · rintro ⟨gap, u, v, hgap, hu, hv, rfl⟩
    exact ⟨_, ⟨_, ⟨_, ⟨_, ⟨_, ⟨_, rfl, gap, hgap, rfl⟩, _, rfl, rfl⟩, u, hu, rfl⟩, _, rfl, rfl⟩, v,
      hv, rfl⟩, _, rfl, by simp⟩

theorem spells_identifier : identifier.Spells {w | ∃ i : Identifier, i.chars = w} := by
  refine ((Spells.char isIdentStart).append (.many 0 isIdentChar)).of_mem_iff fun w => ?_
  constructor
  · rintro ⟨_, ⟨c, hc, rfl⟩, rest, ⟨-, hrest⟩, rfl⟩
    exact ⟨⟨c, rest, hc, hrest⟩, rfl⟩
  · rintro ⟨i, rfl⟩
    exact ⟨_, ⟨i.first, i.first_start, rfl⟩, i.rest, ⟨Nat.zero_le _, i.rest_char⟩, rfl⟩

theorem spells_userPath : userPath.Spells {w | ∃ p : Path, p.chars = w} := by
  have hmore := (Spells.exactly '.').append spells_identifier
  refine (spells_identifier.append (hmore.star ?_)).of_mem_iff fun w => ?_
  · rintro _ ⟨_, rfl, _, -, rfl⟩
    exact List.cons_ne_nil _ _
  · constructor
    · rintro ⟨_, ⟨i, rfl⟩, _, ⟨pieces, rfl, hpieces⟩, rfl⟩
      have hrange : ∀ w ∈ pieces, w ∈ Set.range fun i : Identifier => '.' :: i.chars := by
        intro w hw
        obtain ⟨_, rfl, _, ⟨i, rfl⟩, rfl⟩ := hpieces w hw
        exact ⟨i, rfl⟩
      obtain ⟨more, rfl⟩ := (Set.range_list_map fun i : Identifier => '.' :: i.chars).ge hrange
      exact ⟨⟨i, more⟩, rfl⟩
    · rintro ⟨p, rfl⟩
      refine ⟨_, ⟨p.first, rfl⟩, _, Language.mem_kstar.2 ⟨_, rfl, ?_⟩, rfl⟩
      exact List.forall_mem_map.2 fun i _ => ⟨_, rfl, _, ⟨i, rfl⟩, rfl⟩

def typeBase : Pattern := choice [mapping anyChar, functionType, elementary, userPath]

def functionTexts : Language Char :=
  {w | ∃ ps ws rs, "function".toList ++ written (WrittenType.functionTokens ps ws rs) = w}

def elementaryTexts : Language Char := {w | ∃ s, Elementary s ∧ s.toList = w}

def pathTexts : Language Char := {w | ∃ p : Path, p.chars = w}

def baseTexts : Language Char := mappingTexts + functionTexts + elementaryTexts + pathTexts

theorem exists_base_of_reads {p r : Place} (h : typeBase.Reads p r) :
    ∃ w ∈ baseTexts, p.Past w r := by
  rw [typeBase, reads_choice] at h
  obtain ⟨a, ha, h⟩ := h
  simp only [List.mem_cons, List.not_mem_nil, or_false] at ha
  rcases ha with rfl | rfl | rfl | rfl
  · obtain ⟨w, hw, hpast⟩ := (spells_mapping p r).1 h
    exact ⟨w, .inl (.inl (.inl hw)), hpast⟩
  · obtain ⟨w, hw, hpast⟩ := (spells_functionType p r).1 h
    exact ⟨w, .inl (.inl (.inr hw)), hpast⟩
  · obtain ⟨s, hs, hpast, -⟩ := reads_elementary.1 h
    exact ⟨s.toList, .inl (.inr ⟨s, hs, rfl⟩), hpast⟩
  · obtain ⟨w, hw, hpast⟩ := (spells_userPath p r).1 h
    exact ⟨w, .inr hw, hpast⟩

/-- The name in front of the pieces, or the word that a function type begins with. -/
inductive Opening : List Char → List Token → Prop
  | name {w : List Char} : (∀ c ∈ w, isPathChar c = true) → Opening w []
  | payable : Opening "address".toList [.word [' '] "payable".toList]
  | function (ps : Parameters) (ws : List (Word attributeWords)) (rs : Option Results) :
      Opening "function".toList (WrittenType.functionTokens ps ws rs)

theorem isPathChar_of_isAsciiWord {c : Char} (h : Text.isAsciiWord c = true) :
    isPathChar c = true := by
  rw [isPathChar, isIdentChar_of_isAsciiWord h, Bool.true_or]

theorem Path.isPathChar_chars (p : Path) : ∀ c ∈ p.chars, isPathChar c = true := by
  intro c hc
  rw [isPathChar, Bool.or_eq_true, beq_iff_eq]
  exact p.chars_char c hc

theorem Opening.of_elementary {s : String} (hs : Elementary s) :
    ∃ w ts, Opening w ts ∧ s.toList = w ++ written ts := by
  rcases hs.chars with rfl | ⟨-, hchars⟩
  · exact ⟨_, _, .payable, rfl⟩
  · exact ⟨s.toList, [], .name fun c hc => isPathChar_of_isAsciiWord (hchars c hc),
      (List.append_nil _).symm⟩

namespace Opening
variable {w v : List Char} {ts us : List Token}

theorem chars (h : Opening w ts) : ∀ c ∈ w, isPathChar c = true := by
  cases h with
  | name h => exact h
  | payable => decide
  | function => decide

theorem proper (h : Opening w ts) : ∀ t ∈ ts, t.Proper := by
  cases h with
  | name => exact nofun
  | payable =>
    rw [List.forall_mem_singleton]
    exact ⟨⟨by decide, by decide⟩, by decide⟩
  | function ps ws rs => exact WrittenType.proper_functionTokens ps ws rs

end Opening

theorem exists_opening_of_base {w : List Char} (h : w ∈ baseTexts) :
    w ∈ mappingTexts ∨ ∃ v ts, Opening v ts ∧ w = v ++ written ts := by
  rcases h with ((hw | ⟨ps, ws, rs, rfl⟩) | ⟨s, hs, rfl⟩) | ⟨path, rfl⟩
  · exact .inl hw
  · exact .inr ⟨_, _, .function ps ws rs, rfl⟩
  · exact .inr (Opening.of_elementary hs)
  · exact .inr ⟨path.chars, [], .name path.isPathChar_chars, (List.append_nil _).symm⟩

theorem reads_typeBase {p r : Place} (h : typeBase.Reads p r) :
    (∃ w ∈ mappingTexts, p.Past w r) ∨
      ∃ w ts, Opening w ts ∧ p.Past (w ++ written ts) r := by
  obtain ⟨w, hw, hpast⟩ := exists_base_of_reads h
  rcases exists_opening_of_base hw with hmapping | ⟨v, ts, ho, rfl⟩
  · exact .inl ⟨w, hmapping, hpast⟩
  · exact .inr ⟨v, ts, ho, hpast⟩

/-- A text that begins with a name and goes on with pieces, behind which nothing of the kind
stands. -/
structure Pieced (w : List Char) (front : List Token) (rest : List Char) : Prop where
  name : ∀ c ∈ w, isPathChar c = true
  proper : ∀ t ∈ front, t.Proper
  inert : Inert rest
  head : ∀ c ∈ (written front ++ rest).head?, isPathChar c = false

namespace Pieced
variable {w w' : List Char} {front ts us : List Token} {rest cs : List Char}

theorem next_eq_head? (h : Pieced w front rest) :
    (next (written front ++ rest)).map Prod.fst = front.head? := by
  cases front with
  | nil => exact congrArg (Option.map Prod.fst) h.inert.next
  | cons t front => exact congrArg (Option.map Prod.fst) (next_written h.proper h.inert)

/-- A mapping begins with its word and a list. -/
theorem of_mapping (h : Pieced w front rest) {v : List Char} (hv : v ∈ mappingTexts)
    (heq : w ++ (written front ++ rest) = v ++ cs) :
    w = "mapping".toList ∧ ∃ gap content, front.head? = some (.list gap content) := by
  obtain ⟨gap, u, u', hgap, -, -, rfl⟩ := hv
  have hcut : w ++ (written front ++ rest) = "mapping".toList ++
      (gap ++ '(' :: (u ++ ("=>".toList ++ (u' ++ ([')'] ++ cs))))) := by
    rw [heq]
    simp
  obtain ⟨hw, hrest⟩ := append_inj_of_stop h.name (by decide) h.head
    (head?_blank_append hgap (by decide)) hcut
  have hnext := h.next_eq_head?
  rw [hrest, next_paren hgap] at hnext
  exact ⟨hw, gap, _, hnext.symm⟩

/-- Where a type is read at the beginning, its name is that of the text, and so are the pieces. -/
theorem of_opening (h : Pieced w front rest) (ho : Opening w' ts) (hus : ∀ t ∈ us, t.Proper)
    (hcs : Closing cs) (heq : w ++ (written front ++ rest) = w' ++ (written (ts ++ us) ++ cs)) :
    w' = w ∧ ts ++ us = front ∧ cs = rest := by
  have hread : ∀ t ∈ ts ++ us, t.Proper := List.forall_mem_append.2 ⟨ho.proper, hus⟩
  obtain ⟨rfl, hrest⟩ := append_inj_of_stop ho.chars h.name (head?_written hread hcs.head?) h.head
    heq.symm
  obtain ⟨hfront, hrest⟩ := written_inj_of_inert hread h.proper hcs.inert h.inert hrest
  exact ⟨rfl, hfront, hrest⟩

end Pieced

/-- The end of a declaration, with the value as it is marked. -/
inductive Closes : List Char → Option (List Char) → Prop
  | plain : Closes [';'] none
  | value {b b' v : List Char} : Blank b → Blank b' → v ≠ [] →
      Closes (b ++ '=' :: (b' ++ (v ++ [';']))) (some v)

theorem Closes.closing {cs : List Char} {v : Option (List Char)} (h : Closes cs v) :
    Closing cs := by
  cases h with
  | plain => exact .inl rfl
  | value hb => exact .inr ⟨_, _, hb, rfl⟩

/-- What a declaration says behind its type. -/
def behindType : Pattern :=
  star (blanks1 ++ words modifierWords) ++ blanks1 ++ .mark "name" identifier ++
    optional (blanks ++ exactly '=' ++ blanks ++ .mark "value" (.many 1 anyChar)) ++
    exactly ';' ++ textEnd

theorem spells_modifiers : (star (blanks1 ++ words modifierWords)).Spells
    {w | ∃ ms : List (Word modifierWords), written (ms.map Word.token) = w} :=
  spells_pieces (spells_word modifierWords) fun w => w.proper (by decide)

theorem reads_behindType {p q : Place} (h : behindType.Reads p q) :
    ∃ (ms : List (Word modifierWords)) (gap : List Char) (x : Identifier) (cs : List Char)
      (v : Option (List Char)), Gap gap ∧ Closes cs v ∧
        p.ahead = written (ms.map Word.token ++ [.word gap x.chars]) ++ cs ∧
        q.marks = v.toList.map (Prod.mk "value") ++ ("name", x.chars) :: p.marks := by
  obtain ⟨a, ⟨b, ⟨c, ⟨d, ⟨e, hms, hgap⟩, f, hx, rfl⟩, hvalue⟩, hsemicolon⟩, rfl, hend⟩ := h
  obtain ⟨_, ⟨ms, rfl⟩, hms⟩ := (spells_modifiers p e).1 hms
  obtain ⟨gap, hgap, hpast⟩ := (spells_gap e d).1 hgap
  obtain ⟨_, ⟨x, rfl⟩, hx⟩ := (spells_identifier d f).1 hx
  have hsemicolon := reads_exactly.1 hsemicolon
  have hnil : q.ahead = [] := by simpa using hend
  have hmark : d.upTo f = x.chars := hx.upTo_eq
  have hahead : p.ahead = written (ms.map Word.token ++ [.word gap x.chars]) ++ f.ahead := by
    rw [hms.ahead, hpast.ahead, hx.ahead]
    simp [Token.chars]
  have hmarks : f.marks = p.marks := hx.marks.trans (hpast.marks.trans hms.marks)
  refine ⟨ms, gap, x, f.ahead, ?_⟩
  rcases hvalue with ⟨g, ⟨i, ⟨j, hb, hequals⟩, hb'⟩, k, hv, rfl⟩ | rfl
  · obtain ⟨b, hb, hpastb⟩ := (spells_blanks _ j).1 hb
    have hequals := reads_exactly.1 hequals
    obtain ⟨b', hb', hpastb'⟩ := (spells_blanks _ g).1 hb'
    obtain ⟨v, hv, hpastv⟩ := (spells_any _ k).1 hv
    refine ⟨some v, hgap, ?_, hahead, ?_⟩
    · have hclose : f.ahead = b ++ '=' :: (b' ++ (v ++ [';'])) := by
        have hk : k.ahead = [';'] := by
          have h := hsemicolon.ahead
          rwa [hnil] at h
        have h := hpastb.ahead
        rw [hequals.ahead, hpastb'.ahead, hpastv.ahead, hk] at h
        exact h
      rw [hclose]
      exact .value hb hb' hv
    · rw [hsemicolon.marks]
      change ("value", g.upTo k) :: k.marks = _
      rw [hpastv.upTo_eq, hpastv.marks, hpastb'.marks, hequals.marks, hpastb.marks]
      change ("value", v) :: ("name", d.upTo f) :: f.marks = _
      rw [hmark, hmarks]
      rfl
  · refine ⟨none, hgap, ?_, hahead, ?_⟩
    · have hclose : f.ahead = [';'] := by
        have h := hsemicolon.ahead
        rwa [hnil] at h
      rw [hclose]
      exact .plain
    · rw [hsemicolon.marks]
      change ("name", d.upTo f) :: f.marks = _
      rw [hmark, hmarks]
      rfl

theorem Declaration.reads_closing (d : Declaration) (behind : List Char)
    (marks : List (String × List Char)) : ∃ r q,
      (optional (blanks ++ exactly '=' ++ blanks ++ .mark "value" (.many 1 anyChar))).Reads
        ⟨behind, d.closing, marks⟩ r ∧ (exactly ';').Reads r q ∧ q.ahead = [] := by
  cases h : d.initialiser with
  | none =>
    have hclosing : d.closing = [';'] := by rw [Declaration.closing, h]; rfl
    rw [hclosing]
    exact ⟨_, _, .inr rfl, (Spells.exactly ';').reads rfl behind [] marks, rfl⟩
  | some i =>
    have hclosing : d.closing = i.gap ++ (['='] ++ ([] ++ (i.text ++ ([';'] ++ [])))) := by
      rw [Declaration.closing, h]
      simp [Initialiser.chars]
    have hvalue : i.text ≠ [] := by
      obtain ⟨c, hc, -⟩ := i.solid
      exact List.ne_nil_of_mem hc
    rw [hclosing]
    exact ⟨_, _, .inl ⟨_, ⟨_, ⟨_, spells_blanks.reads i.isBlank _ _ _,
      (Spells.exactly '=').reads rfl _ _ _⟩, spells_blanks.reads blank_nil _ _ _⟩, _,
      spells_any.reads hvalue _ _ _, rfl⟩, (Spells.exactly ';').reads rfl _ [] _, rfl⟩

theorem Declaration.reads_behindType (d : Declaration) (behind : List Char)
    (marks : List (String × List Char)) :
    ∃ q, behindType.Reads ⟨behind, d.behind, marks⟩ q := by
  have htext : d.behind = written (d.modifiers.map Word.token) ++
      (d.gap ++ (d.name.chars ++ d.closing)) := by
    simp [Declaration.behind, Token.chars]
  have hname := spells_identifier.reads ⟨d.name, rfl⟩
    (d.gap.reverse ++ ((written (d.modifiers.map Word.token)).reverse ++ behind)) d.closing marks
  obtain ⟨r, q, hvalue, hsemicolon, hend⟩ := d.reads_closing (d.name.chars.reverse ++
    (d.gap.reverse ++ ((written (d.modifiers.map Word.token)).reverse ++ behind)))
    (("name", d.name.chars) :: marks)
  have hmark : Place.upTo ⟨d.gap.reverse ++ ((written (d.modifiers.map Word.token)).reverse ++
      behind), d.name.chars ++ d.closing, marks⟩ ⟨d.name.chars.reverse ++ (d.gap.reverse ++
        ((written (d.modifiers.map Word.token)).reverse ++ behind)), d.closing, marks⟩ =
      d.name.chars := Place.upTo_append _ _ _ _ _ _
  rw [htext]
  refine ⟨q, q, ⟨r, ⟨_, ⟨_, ⟨_, spells_modifiers.reads ⟨d.modifiers, rfl⟩ _ _ _,
    spells_gap.reads d.isGap _ _ _⟩, _, hname, ?_⟩, hvalue⟩, hsemicolon⟩, rfl, ?_⟩
  · rw [hmark]
  · rw [hend]
    rfl

end Solidity
end SoliditySession
