import SoliditySession.Proofs.Classification
/- What is read off a statement stands in it: the type, name and value of a declaration, the type and
name of a constant, and what is assigned or stepped. -/
namespace SoliditySession
open Pattern Solidity Text

namespace Solidity

def dimensionTexts : Language Char :=
  {w | ∃ ds : List Brackets, written (ds.map Brackets.token) = w}

def typeTexts : Language Char := baseTexts * dimensionTexts

def locationTexts : Language Char :=
  {w | ∃ l : Option (Word locations), written (l.toList.map Word.token) = w}

/-- Types with or without a data location behind them. -/
def locatedTypeTexts : Language Char := typeTexts * locationTexts

theorem reads_base {w rest : List Char} (hw : w ∈ baseTexts)
    (hrest : ∀ c ∈ rest.head?, Text.isWord c = false) (behind : List Char)
    (marks : List (String × List Char)) :
    typeBase.Reads ⟨behind, w ++ rest, marks⟩ ⟨w.reverse ++ behind, rest, marks⟩ := by
  rw [typeBase, reads_choice]
  rcases hw with ((hw | hw) | ⟨s, hs, rfl⟩) | hw
  · exact ⟨_, by simp, spells_mapping.reads hw behind rest marks⟩
  · exact ⟨_, by simp, spells_functionType.reads hw behind rest marks⟩
  · exact ⟨elementary, by simp, reads_elementary.2
      ⟨s, hs, .intro behind s.toList rest marks, hs.wordEdge_iff.2 hrest⟩⟩
  · exact ⟨_, by simp, spells_userPath.reads hw behind rest marks⟩

/-- A member of what stands before it, or an element. -/
inductive Access
  | member (name : Identifier)
  | element (index : Brackets)

def Access.chars : Access → List Char
  | member name => '.' :: name.chars
  | element index => index.token.chars

/-- What can be assigned: an identifier, with accesses behind it. -/
structure Target where
  first : Identifier
  accesses : List Access

def Target.chars (t : Target) : List Char := t.first.chars ++ (t.accesses.map Access.chars).flatten

theorem spells_access : ((exactly '.' ++ identifier) <|>
    (exactly '[' ++ .many 0 (!isBracket ·) ++ exactly ']') : Pattern).Spells
      {w | ∃ a : Access, a.chars = w} := by
  refine (((Spells.exactly '.').append spells_identifier).alt spells_brackets).of_mem_iff
    fun w => ?_
  constructor
  · rintro (⟨_, rfl, _, ⟨i, rfl⟩, rfl⟩ | ⟨d, rfl⟩)
    · exact ⟨.member i, rfl⟩
    · exact ⟨.element d, rfl⟩
  · rintro ⟨i | d, rfl⟩
    · exact .inl ⟨_, rfl, _, ⟨i, rfl⟩, rfl⟩
    · exact .inr ⟨d, rfl⟩

theorem spells_assignable : Part.assignable.Spells {w | ∃ t : Target, t.chars = w} := by
  refine (spells_identifier.append (spells_access.star ?_)).of_mem_iff fun w => ?_
  · rintro _ ⟨i | d, rfl⟩
    · exact List.cons_ne_nil _ _
    · exact List.cons_ne_nil _ _
  · constructor
    · rintro ⟨_, ⟨i, rfl⟩, _, ⟨pieces, rfl, hpieces⟩, rfl⟩
      obtain ⟨accesses, rfl⟩ := (Set.range_list_map Access.chars).ge hpieces
      exact ⟨⟨i, accesses⟩, rfl⟩
    · rintro ⟨t, rfl⟩
      refine ⟨_, ⟨t.first, rfl⟩, _, Language.mem_kstar.2 ⟨_, rfl, ?_⟩, rfl⟩
      exact List.forall_mem_map.2 fun a _ => ⟨a, rfl⟩

/-- What may stand in front of the equals sign of an assignment. -/
def compoundWords : List String := ["-", "+", "*", "/", "%", "|", "&", "^", "<<", ">>"]

def stepWords : List String := ["++", "--"]

def compoundTexts : Language Char := textsOf compoundWords + 1

theorem spells_compound :
    (optional (oneOf "-+*/%|&^" <|> words ["<<", ">>"])).Spells compoundTexts := by
  refine ((spells_oneOf "-+*/%|&^").alt (.words ["<<", ">>"])).optional.of_mem_iff fun w => ?_
  refine or_congr_left ?_
  constructor
  · rintro (⟨c, hc, rfl⟩ | ⟨s, hs, rfl⟩)
    · have hall : ∀ c ∈ "-+*/%|&^".toList, String.singleton c ∈ compoundWords := by decide
      exact ⟨_, hall c hc, by simp⟩
    · have hall : ∀ s ∈ ["<<", ">>"], s ∈ compoundWords := by decide
      exact ⟨s, hall s hs, rfl⟩
  · rintro ⟨s, hs, rfl⟩
    have hall : ∀ s ∈ compoundWords, (∃ c ∈ "-+*/%|&^".toList, [c] = s.toList) ∨
        ∃ t ∈ ["<<", ">>"], t.toList = s.toList := by decide
    exact hall s hs

/-- Texts in which `l` is assigned or stepped. -/
inductive Targets (l : List Char) : List Char → Prop
  | assigned {gap op v : List Char} : Blank gap → op ∈ compoundTexts → v ≠ [] →
      v.head? ≠ some '=' → Targets l (l ++ (gap ++ (op ++ '=' :: (v ++ [';']))))
  | stepsBefore {s : String} {b b' : List Char} : s ∈ stepWords → Blank b → Blank b' →
      Targets l (s.toList ++ (b ++ (l ++ (b' ++ [';']))))
  | stepsBehind {s : String} {b b' : List Char} : s ∈ stepWords → Blank b → Blank b' →
      Targets l (l ++ (b ++ (s.toList ++ (b' ++ [';']))))

theorem reads_assignmentLine {p q : Place} (h : Part.assignmentLine.Reads p q) :
    ∃ t : Target, Targets t.chars p.ahead ∧ q.marks = ("target", t.chars) :: p.marks := by
  obtain ⟨_, ⟨j, ⟨i, ⟨g, ⟨f, ⟨e, ⟨d, ⟨_, ⟨a, ht, rfl⟩, hgap⟩, hop⟩, hequals⟩, hb⟩, hc⟩, hv⟩,
    hsemicolon⟩, rfl, hend⟩ := h
  obtain ⟨_, ⟨t, rfl⟩, ht⟩ := (spells_assignable p a).1 ht
  obtain ⟨gap, hgap, hpastgap⟩ := (spells_blanks _ d).1 hgap
  obtain ⟨op, hop, hpastop⟩ := (spells_compound d e).1 hop
  have hequals := reads_exactly.1 hequals
  obtain ⟨b, hb, hpastb⟩ := (spells_blanks f g).1 hb
  obtain ⟨c, hc, hpastc⟩ := hc
  obtain ⟨v, -, -, hpastv⟩ := hv
  have hsemicolon := reads_exactly.1 hsemicolon
  have hnil : q.ahead = [] := by simpa using hend
  have hhead : (b ++ c :: v).head? ≠ some '=' := by
    cases b with
    | nil => simpa using hc
    | cons b bs =>
      rintro ⟨⟩
      exact absurd (hb '=' List.mem_cons_self) (by decide)
  have hbehind : a.ahead = gap ++ (op ++ '=' :: (b ++ c :: v ++ [';'])) := by
    have h := hpastgap.ahead
    rw [hpastop.ahead, hequals.ahead, hpastb.ahead, hpastc.ahead, hpastv.ahead, hsemicolon.ahead,
      hnil] at h
    simpa using h
  refine ⟨t, ?_, ?_⟩
  · rw [ht.ahead, hbehind]
    exact .assigned hgap hop (by simp) hhead
  · rw [hsemicolon.marks, hpastv.marks, hpastc.marks, hpastb.marks, hequals.marks, hpastop.marks,
      hpastgap.marks]
    change ("target", p.upTo a) :: a.marks = _
    rw [ht.upTo_eq, ht.marks]

theorem reads_stepLine {p q : Place} (h : Part.stepLine.Reads p q) :
    ∃ t : Target, Targets t.chars p.ahead ∧ q.marks = ("target", t.chars) :: p.marks := by
  obtain ⟨_, ⟨e, ⟨d, hsteps, hb⟩, hsemicolon⟩, rfl, hend⟩ := h
  obtain ⟨b, hblank, hpastb⟩ := (spells_blanks d e).1 hb
  have hsemicolon := reads_exactly.1 hsemicolon
  have hnil : q.ahead = [] := by simpa using hend
  have hclose : d.ahead = b ++ [';'] := by
    rw [hpastb.ahead, hsemicolon.ahead, hnil]
    simp
  rcases hsteps with ⟨c, ⟨a, hs, hgap⟩, r, ht, rfl⟩ | ⟨c, ⟨_, ⟨r, ht, rfl⟩, hgap⟩, hs⟩
  · obtain ⟨s, hs, hpast⟩ := reads_words.1 hs
    obtain ⟨gap, hgap, hpastgap⟩ := (spells_blanks a c).1 hgap
    obtain ⟨_, ⟨t, rfl⟩, ht⟩ := (spells_assignable c r).1 ht
    have hclose : r.ahead = b ++ [';'] := hclose
    refine ⟨t, ?_, ?_⟩
    · rw [hpast.ahead, hpastgap.ahead, ht.ahead, hclose]
      exact .stepsBefore hs hgap hblank
    · rw [hsemicolon.marks, hpastb.marks]
      change ("target", c.upTo r) :: r.marks = _
      rw [ht.upTo_eq, ht.marks, hpastgap.marks, hpast.marks]
  · obtain ⟨_, ⟨t, rfl⟩, ht⟩ := (spells_assignable p r).1 ht
    obtain ⟨gap, hgap, hpastgap⟩ := (spells_blanks _ c).1 hgap
    obtain ⟨s, hs, hpast⟩ := reads_words.1 hs
    have hbehind : r.ahead = gap ++ c.ahead := hpastgap.ahead
    refine ⟨t, ?_, ?_⟩
    · rw [ht.ahead, hbehind, hpast.ahead, hclose]
      exact .stepsBehind hs hgap hblank
    · rw [hsemicolon.marks, hpastb.marks, hpast.marks, hpastgap.marks]
      change ("target", p.upTo r) :: r.marks = _
      rw [ht.upTo_eq, ht.marks]

/-- Where something is assigned or stepped, one of the two patterns says so. -/
theorem exists_reads_of_targets {t : Target} {cs : List Char} (h : Targets t.chars cs) :
    (∃ q, Part.assignmentLine.Reads (.start cs) q) ∨ ∃ q, Part.stepLine.Reads (.start cs) q := by
  have htarget : ∀ behind rest marks, ∃ q : Place,
      (mark "target" Part.assignable).Reads ⟨behind, t.chars ++ rest, marks⟩ q ∧
        q.ahead = rest := fun behind rest marks =>
    ⟨_, ⟨_, spells_assignable.reads ⟨t, rfl⟩ behind rest marks, rfl⟩, rfl⟩
  have hsteps : ∀ s ∈ stepWords, s.toList ∈ textsOf ["++", "--"] := fun s hs => ⟨s, hs, rfl⟩
  cases h with
  | @assigned gap op v hgap hop hv hhead =>
    obtain ⟨c, v, rfl⟩ := List.exists_cons_of_ne_nil hv
    obtain ⟨⟨behind, _, marks⟩, hq, rfl⟩ :=
      htarget [] (gap ++ (op ++ (['='] ++ ([] ++ ([c] ++ (v ++ ([';'] ++ []))))))) []
    have hc : (c != '=') = true := by simpa using hhead
    refine .inl ⟨_, _, ⟨_, ⟨_, ⟨_, ⟨_, ⟨_, ⟨_, ⟨_, hq, spells_blanks.reads hgap _ _ _⟩,
      spells_compound.reads hop _ _ _⟩, (Spells.exactly '=').reads rfl _ _ _⟩,
      spells_blanks.reads blank_nil _ _ _⟩, (Spells.char (· != '=')).reads ⟨c, hc, rfl⟩ _ _ _⟩,
      (Spells.many 0 anyChar).reads ⟨Nat.zero_le _, fun _ _ => rfl⟩ _ _ _⟩,
      (Spells.exactly ';').reads rfl _ [] _⟩, rfl, rfl⟩
  | @stepsBefore s b b' hs hb hb' =>
    obtain ⟨⟨behind, _, marks⟩, hq, rfl⟩ :=
      htarget (b.reverse ++ (s.toList.reverse ++ [])) (b' ++ ([';'] ++ [])) []
    exact .inr ⟨_, _, ⟨_, ⟨_, .inl ⟨_, ⟨_, (Spells.words _).reads (hsteps s hs) [] _ [],
      spells_blanks.reads hb _ _ _⟩, hq⟩, spells_blanks.reads hb' _ _ _⟩,
      (Spells.exactly ';').reads rfl _ [] _⟩, rfl, rfl⟩
  | @stepsBehind s b b' hs hb hb' =>
    obtain ⟨⟨behind, _, marks⟩, hq, rfl⟩ :=
      htarget [] (b ++ (s.toList ++ (b' ++ ([';'] ++ [])))) []
    exact .inr ⟨_, _, ⟨_, ⟨_, .inr ⟨_, ⟨_, hq, spells_blanks.reads hb _ _ _⟩,
      (Spells.words _).reads (hsteps s hs) _ _ _⟩, spells_blanks.reads hb' _ _ _⟩,
      (Spells.exactly ';').reads rfl _ [] _⟩, rfl, rfl⟩

/-- Characters that carry on a target in front of them. -/
def carriesOn (c : Char) : Bool := isPathChar c || c == '['

theorem isIdentChar_of_carriesOn {c : Char} (h : carriesOn c = false) : isIdentChar c = false :=
  isIdentChar_of_isPathChar (Bool.or_eq_false_iff.1 h).1

/-- Characters that operators and the end of a statement begin with. -/
def signs : List Char := "-+*/%|&^<>=!;".toList

theorem carriesOn_of_sign {c : Char} (h : c ∈ signs) : carriesOn c = false := by
  have hall : ∀ c ∈ signs, carriesOn c = false := by decide
  exact hall c h

theorem isBlank_of_sign {c : Char} (h : c ∈ signs) : Text.isBlank c = false := by
  have hall : ∀ c ∈ signs, Text.isBlank c = false := by decide
  exact hall c h

theorem carriesOn_of_isBlank {c : Char} (h : Text.isBlank c = true) : carriesOn c = false := by
  rw [carriesOn, isPathChar_of_isBlank h, Bool.false_or, beq_eq_false_iff_ne]
  rintro rfl
  exact absurd h (by decide)

theorem carriesOn_head? {gap : List Char} {d : Char} (hgap : Blank gap) (hd : d ∈ signs)
    (more : List Char) : ∀ c ∈ (gap ++ d :: more).head?, carriesOn c = false := by
  cases gap with
  | nil =>
    rintro c ⟨⟩
    exact carriesOn_of_sign hd
  | cons b gap =>
    rintro c ⟨⟩
    exact carriesOn_of_isBlank (hgap _ List.mem_cons_self)

section
variable {r r' : List Char} (hr : ∀ c ∈ r.head?, carriesOn c = false)
  (hr' : ∀ c ∈ r'.head?, carriesOn c = false)

include hr in
theorem isIdentChar_head?_accesses (accesses : List Access) :
    ∀ c ∈ ((accesses.map Access.chars).flatten ++ r).head?, isIdentChar c = false := by
  cases accesses with
  | nil => exact fun c hc => isIdentChar_of_carriesOn (hr c hc)
  | cons a accesses =>
    cases a with
    | member name =>
      rintro c ⟨⟩
      decide
    | element index =>
      rintro c ⟨⟩
      decide

include hr in
theorem ne_accesses {a : Access} {accesses : List Access} :
    r ≠ ((a :: accesses).map Access.chars).flatten ++ r' := by
  rintro rfl
  cases a with
  | member name => exact absurd (hr '.' rfl) (by decide)
  | element index => exact absurd (hr '[' rfl) (by decide)

include hr hr'

theorem accesses_append_inj {as bs : List Access}
    (h : (as.map Access.chars).flatten ++ r = (bs.map Access.chars).flatten ++ r') :
    (as.map Access.chars).flatten = (bs.map Access.chars).flatten ∧ r = r' := by
  induction as generalizing bs with
  | nil =>
    cases bs with
    | nil => exact ⟨rfl, h⟩
    | cons b bs => exact absurd h (ne_accesses hr)
  | cons a as ih =>
    cases bs with
    | nil => exact absurd h.symm (ne_accesses hr')
    | cons b bs =>
      have htail : ∀ {v : List Char}, (as.map Access.chars).flatten ++ r =
          (bs.map Access.chars).flatten ++ r' →
          v ++ (as.map Access.chars).flatten = v ++ (bs.map Access.chars).flatten ∧ r = r' :=
        fun htail => (ih htail).imp_left fun heq => by rw [heq]
      simp only [List.map_cons, List.flatten_cons, List.append_assoc] at h ⊢
      cases a with
      | member i =>
        cases b with
        | member j =>
          obtain ⟨hij, hrest⟩ := append_inj_of_stop i.chars_char j.chars_char
            (isIdentChar_head?_accesses hr as) (isIdentChar_head?_accesses hr' bs)
            (List.cons.inj h).2
          rw [Access.chars, Access.chars, hij]
          exact htail hrest
        | element e => exact absurd (List.cons.inj h).1 (by decide)
      | element d =>
        cases b with
        | member j => exact absurd (List.cons.inj h).1 (by decide)
        | element e =>
          obtain ⟨hde, hrest⟩ := group_append_inj d.flat e.flat h
          rw [Access.chars, Access.chars, Brackets.token, Brackets.token, hde]
          exact htail hrest

/-- A target ends where nothing carries it on. -/
theorem Target.append_inj {t u : Target} (h : t.chars ++ r = u.chars ++ r') :
    t.chars = u.chars ∧ r = r' := by
  rw [chars, chars, List.append_assoc, List.append_assoc] at h
  obtain ⟨hfirst, hrest⟩ := append_inj_of_stop t.first.chars_char u.first.chars_char
    (isIdentChar_head?_accesses hr t.accesses) (isIdentChar_head?_accesses hr' u.accesses) h
  obtain ⟨haccesses, hrest⟩ := accesses_append_inj hr hr' hrest
  exact ⟨by rw [chars, chars, hfirst, haccesses], hrest⟩

end

theorem Target.head?_chars (t : Target) (rest : List Char) :
    ∃ c cs, t.chars ++ rest = c :: cs ∧ isIdentStart c = true :=
  ⟨t.first.first, t.first.rest ++ (t.accesses.map Access.chars).flatten ++ rest,
    by simp [chars, Identifier.chars], t.first.first_start⟩

theorem exists_sign_of_compound {op : List Char} (hop : op ∈ compoundTexts) (v : List Char) :
    ∃ c cs, op ++ '=' :: v = c :: cs ∧ c ∈ signs := by
  have hall : ∀ s ∈ compoundWords, ∃ c ∈ signs, s.toList.head? = some c := by decide
  rcases hop with ⟨s, hs, rfl⟩ | rfl
  · obtain ⟨c, hc, hhead⟩ := hall s hs
    obtain ⟨cs, hcs⟩ := List.head?_eq_some_iff.1 hhead
    exact ⟨c, cs ++ '=' :: v, by rw [hcs]; rfl, hc⟩
  · exact ⟨'=', v, rfl, by decide⟩

theorem exists_sign_of_step {s : String} (hs : s ∈ stepWords) (v : List Char) :
    ∃ c cs, s.toList ++ v = c :: cs ∧ c ∈ signs := by
  have hall : ∀ s ∈ stepWords, ∃ c ∈ signs, s.toList.head? = some c := by decide
  obtain ⟨c, hc, hhead⟩ := hall s hs
  obtain ⟨cs, hcs⟩ := List.head?_eq_some_iff.1 hhead
  exact ⟨c, cs ++ v, by rw [hcs]; rfl, hc⟩

namespace Targets
variable {l cs : List Char}

/-- The target stands at the beginning with an operator behind it, or behind its step. -/
theorem cases_front (h : Targets l cs) :
    (∃ gap c more, Blank gap ∧ c ∈ signs ∧ cs = l ++ (gap ++ c :: more)) ∨
      ∃ s ∈ stepWords, ∃ b b', Blank b ∧ Blank b' ∧
        cs = s.toList ++ (b ++ (l ++ (b' ++ [';']))) := by
  cases h with
  | @assigned gap op v hgap hop hv hhead =>
    obtain ⟨c, more, hmore, hc⟩ := exists_sign_of_compound hop (v ++ [';'])
    exact .inl ⟨gap, c, more, hgap, hc, by rw [hmore]⟩
  | @stepsBefore s b b' hs hb hb' => exact .inr ⟨s, hs, b, b', hb, hb', rfl⟩
  | @stepsBehind s b b' hs hb hb' =>
    obtain ⟨c, more, hmore, hc⟩ := exists_sign_of_step hs (b' ++ [';'])
    exact .inl ⟨b, c, more, hb, hc, by rw [hmore]⟩

theorem ne_step {s : String} (hs : s ∈ stepWords) (t : Target) (v w : List Char) :
    t.chars ++ v ≠ s.toList ++ w := by
  intro heq
  obtain ⟨c, cs, hcs, hc⟩ := t.head?_chars v
  obtain ⟨d, ds, hds, hd⟩ := exists_sign_of_step hs w
  rw [hcs, hds] at heq
  obtain ⟨rfl, -⟩ := List.cons.inj heq
  have hnot := isIdentChar_of_carriesOn (carriesOn_of_sign hd)
  rw [isIdentChar_of_isIdentStart hc] at hnot
  cases hnot

/-- A text has one target. -/
theorem unique {t u : Target} (ht : Targets t.chars cs) (hu : Targets u.chars cs) :
    t.chars = u.chars := by
  rcases ht.cases_front with ⟨gap, c, more, hgap, hc, hcs⟩ | ⟨s, hs, b, b', hb, hb', hcs⟩
  · rcases hu.cases_front with ⟨gap', d, more', hgap', hd, rfl⟩ | ⟨s, hs, b, b', -, -, rfl⟩
    · exact (Target.append_inj (carriesOn_head? hgap' hd more') (carriesOn_head? hgap hc more)
        hcs).1.symm
    · exact absurd hcs.symm (ne_step hs t _ _)
  · rcases hu.cases_front with ⟨gap', d, more', -, -, rfl⟩ | ⟨s', hs', e, e', he, he', rfl⟩
    · exact absurd hcs (ne_step hs u _ _)
    · have hlength : ∀ s ∈ stepWords, s.toList.length = 2 := by decide
      obtain ⟨-, hrest⟩ := List.append_inj hcs ((hlength s' hs').trans (hlength s hs).symm)
      have hstart : ∀ (t : Target) (v : List Char),
          ∀ c ∈ (t.chars ++ v).head?, Text.isBlank c = false := by
        intro t v c hc
        obtain ⟨d, ds, hds, hd⟩ := t.head?_chars v
        rw [hds] at hc
        obtain rfl : d = c := Option.some.inj hc
        exact isBlank_of_isIdentChar (isIdentChar_of_isIdentStart hd)
      obtain ⟨-, hrest⟩ := append_inj_of_stop he hb (hstart u _) (hstart t _) hrest
      exact (Target.append_inj (carriesOn_head? he' (by decide) [])
        (carriesOn_head? hb' (by decide) []) hrest).1.symm

end Targets

theorem mark?_target {q : Place} {l : List Char} (h : q.marks = [("target", l)]) :
    q.mark? "target" = some (.ofList l) := by
  rw [Place.mark?, h]
  rfl

theorem targets_of_target? {text target : String} (h : Part.target? text = some target) :
    ∃ t : Target, target = .ofList t.chars ∧ Targets t.chars text.toList := by
  rw [Part.target?] at h
  split at h
  · next q hq =>
    obtain ⟨t, ht, hmarks⟩ := reads_assignmentLine (reads_of_match? hq)
    exact ⟨t, Option.some.inj (h.symm.trans (mark?_target hmarks)), ht⟩
  · obtain ⟨q, hq, h⟩ := Option.bind_eq_some_iff.1 h
    obtain ⟨t, ht, hmarks⟩ := reads_stepLine (reads_of_match? hq)
    exact ⟨t, Option.some.inj (h.symm.trans (mark?_target hmarks)), ht⟩

theorem exists_target?_of_targets {t : Target} {text : String} (ht : Targets t.chars text.toList) :
    ∃ target, Part.target? text = some target := by
  rw [Part.target?]
  split
  · next q hq =>
    obtain ⟨u, -, hmarks⟩ := reads_assignmentLine (reads_of_match? hq)
    exact ⟨_, mark?_target hmarks⟩
  · next hassigned =>
    rcases exists_reads_of_targets ht with ⟨q, hq⟩ | ⟨q, hq⟩
    · obtain ⟨found, hfound, -⟩ := exists_match? hq
      rw [hassigned] at hfound
      cases hfound
    · obtain ⟨found, hfound, hreads⟩ := exists_match? hq
      obtain ⟨u, -, hmarks⟩ := reads_stepLine hreads
      exact ⟨_, by rw [hfound, Option.bind_some, mark?_target hmarks]⟩

/-- A target is found exactly where one is assigned or stepped. -/
theorem target?_eq_some_iff {text target : String} : Part.target? text = some target ↔
    ∃ t : Target, target = .ofList t.chars ∧ Targets t.chars text.toList := by
  refine ⟨targets_of_target?, ?_⟩
  rintro ⟨t, rfl, ht⟩
  obtain ⟨target, htarget⟩ := exists_target?_of_targets ht
  obtain ⟨u, rfl, hu⟩ := targets_of_target? htarget
  rw [htarget, hu.unique ht]

theorem target?_eq_none_iff {text : String} :
    Part.target? text = none ↔ ∀ t : Target, ¬ Targets t.chars text.toList := by
  rw [Option.eq_none_iff_forall_ne_some]
  constructor
  · exact fun h t ht => h _ (target?_eq_some_iff.2 ⟨t, rfl, ht⟩)
  · intro h target htarget
    obtain ⟨t, -, ht⟩ := target?_eq_some_iff.1 htarget
    exact h t ht

/-- The end of a declaration, with what is given. -/
inductive Gives : List Char → Option String → Prop
  | nothing : Gives [';'] none
  | value {b v : List Char} : Blank b → v ≠ [] →
      Gives (b ++ '=' :: (v ++ [';'])) (some (Text.trim (.ofList v)))

theorem Closes.gives {cs : List Char} {v : Option (List Char)} (h : Closes cs v) :
    Gives cs (v.map fun e => Text.trim (.ofList e)) := by
  cases h with
  | plain => exact .nothing
  | @value b b' v hb hb' hv =>
    have htrim : Text.trim (.ofList v) = Text.trim (.ofList (b' ++ v)) := by
      have hdrop : Text.dropBlank (b' ++ v) = Text.dropBlank v := List.dropWhile_append_of_pos hb'
      rw [Text.trim, Text.trim, String.toList_ofList, String.toList_ofList, hdrop]
    rw [Option.map_some, htrim, ← List.append_assoc b']
    exact .value hb (List.append_ne_nil_of_right_ne_nil _ hv)

end Solidity

/-- A text that a part names something of, cut at what it names. -/
inductive Part.Spelled : Part → List Char → Prop
  | constant {type gap gap' b v : List Char} (x : Identifier) : type ∈ typeTexts → Gap gap →
      Gap gap' → Blank b → v ≠ [] →
      Spelled (.constant (.ofList x.chars) (.ofList type)) (type ++ (gap ++ ("constant".toList ++
        (gap' ++ (x.chars ++ (b ++ '=' :: (v ++ [';'])))))))
  | declaration {type gap cs : List Char} {value : Option String}
      (modifiers : List (Word modifierWords)) (x : Identifier) : type ∈ locatedTypeTexts →
      Gap gap → Gives cs value → isStatementKeyword (.ofList x.chars) = false →
      (∀ w ∈ firstWord (.ofList type), isStatementKeyword w = false) →
      Spelled (.declaration (.ofList x.chars) (.ofList type) value)
        (type ++ (written (modifiers.map Word.token) ++ (gap ++ (x.chars ++ cs))))
  | expression (t : Target) {cs : List Char} : Targets t.chars cs →
      Spelled (.expression (some (.ofList t.chars))) cs

namespace Part

theorem spelled_of_constant? {text : String} {part : Part} (h : constant? text = some part) :
    Spelled part text.toList := by
  obtain ⟨q, hq, h⟩ := Option.bind_eq_some_iff.1 h
  obtain ⟨w, r, ds, c, gap, x, b, v, hw, -, hpast, hgap, hb, hv, hahead, hmarks⟩ :=
    reads_constantLine (reads_of_match? hq)
  have hname : q.mark? "name" = some (.ofList x.chars) := by
    rw [Place.mark?, hmarks]
    rfl
  have htype : q.mark? "type" = some (.ofList (w ++ written (ds.map Brackets.token))) := by
    rw [Place.mark?, hmarks]
    rfl
  rw [hname, htype] at h
  obtain rfl := Option.some.inj h
  have hc : c.text = "constant" := List.mem_singleton.1 c.listed
  have hcs : text.toList = w ++ written (ds.map Brackets.token) ++ (c.gap ++ ("constant".toList ++
      (gap ++ (x.chars ++ (b ++ '=' :: (v ++ [';'])))))) := by
    have h : text.toList = w ++ r.ahead := hpast.ahead
    rw [h, hahead]
    simp [Word.token, Token.chars, hc]
  rw [hcs]
  exact .constant x ⟨w, hw, _, ⟨ds, rfl⟩, rfl⟩ c.isGap hgap hb hv

theorem spelled_of_declaration? {text : String} {part : Part}
    (h : declaration? text = some part) : Spelled part text.toList := by
  obtain ⟨cs, rfl⟩ : ∃ cs, text = .ofList cs := ⟨text.toList, String.ofList_toList.symm⟩
  obtain ⟨q, hq, h⟩ := Option.bind_eq_some_iff.1 h
  obtain ⟨w, ds, l, ms, gap, x, end', v, hw, hgap, hcloses, hcs, hmarks⟩ :=
    exists_of_declarationLine hq
  have hname : q.mark? "name" = some (.ofList x.chars) := by
    rw [Place.mark?, hmarks]
    cases v <;> rfl
  have htype : q.mark? "type" = some (.ofList (w ++ written (ds.map Brackets.token ++
      l.toList.map Word.token))) := by
    rw [Place.mark?, hmarks]
    cases v <;> rfl
  have hvalue : (q.mark? "value").map Text.trim = v.map fun e => Text.trim (.ofList e) := by
    rw [Place.mark?, hmarks]
    cases v <;> rfl
  rw [hname, htype, hvalue] at h
  dsimp only at h
  split at h
  · cases h
  · next hkeyword =>
    obtain rfl := Option.some.inj h
    rw [Bool.or_eq_true, not_or, Bool.not_eq_true, Bool.not_eq_true] at hkeyword
    have hcut : cs = w ++ written (ds.map Brackets.token ++ l.toList.map Word.token) ++
        (written (ms.map Word.token) ++ (gap ++ (x.chars ++ end'))) := by
      rw [hcs]
      simp [Token.chars]
    rw [String.toList_ofList, hcut]
    refine .declaration ms x ?_ hgap hcloses.gives hkeyword.2 ?_
    · rw [written_append, ← List.append_assoc]
      exact ⟨_, ⟨w, hw, _, ⟨ds, rfl⟩, rfl⟩, _, ⟨l, rfl⟩, rfl⟩
    · intro first hfirst
      have hhead := hkeyword.1
      rwa [Option.mem_def.1 hfirst, Option.getD_some] at hhead

end Part

namespace Statement

/-- Whatever the part of a statement names stands in its text: a constant or declaration with its
type and value, or an expression with its target. -/
theorem part_spelled (s : Statement) {name : String} (h : s.part.name? = some name) :
    s.part.Spelled s.text.toList := by
  rcases Part.cases_of_name? h with hpart | hpart | hpart
  · exact Part.spelled_of_constant? hpart
  · exact Part.spelled_of_declaration? hpart
  · rw [part, hpart] at h ⊢
    have htarget : Part.target? s.text = some name := h
    obtain ⟨t, rfl, ht⟩ := target?_eq_some_iff.1 htarget
    rw [htarget]
    exact .expression t ht

theorem part_spelled_grid :
    Part.Spelled (.declaration "grid" "uint256[2][] memory" (some "new uint256[2][](n)"))
      "uint256[2][] memory  grid = new uint256[2][](n) ;".toList := by
  have hpart : part ⟨"uint256[2][] memory  grid = new uint256[2][](n) ;"⟩ =
      .declaration "grid" "uint256[2][] memory" (some "new uint256[2][](n)") := by decide +kernel
  have h := part_spelled ⟨"uint256[2][] memory  grid = new uint256[2][](n) ;"⟩
    (congrArg Part.name? hpart)
  rwa [hpart] at h

end Statement
end SoliditySession
