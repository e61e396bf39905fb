import SoliditySession.Import
import SoliditySession.Proofs.Assembly
import SoliditySession.Proofs.Relayout
import SoliditySession.Proofs.Replacing
import SoliditySession.Proofs.TypeName
/- Import directives as they are written, and that reading a rendered unit finds the paths of those
in the session and no others. -/
namespace SoliditySession.Import
open Pattern Text Solidity

/-- What can be named between quotes, on one line. -/
structure IsPath (path : List Char) : Prop where
  ne_nil : path ≠ []
  unquoted : ∀ c ∈ path, isQuote c = false
  oneLine : '\n' ∉ path

/-- The ways to import the unit at a path. A blank may stand between any two tokens and has to
stand behind `import` and `from` and between words. -/
inductive Directive (path : List Char) : List Char → Prop
  | plain {q : Char} {a b : List Char} : isQuote q = true → Gap a → Blank b →
      Directive path ("import".toList ++ a ++ q :: (path ++ q :: (b ++ [';'])))
  | renamed {q : Char} {a b c d : List Char} (name : Identifier) : isQuote q = true → Gap a →
      Blank b → Gap c → Blank d →
      Directive path ("import".toList ++ a ++
        q :: (path ++ q :: (b ++ "as".toList ++ c ++ name.chars ++ d ++ [';'])))
  | symbols {q : Char} {a symbols b c d : List Char} : isQuote q = true → Gap a →
      (∀ x ∈ symbols, isQuote x = false ∧ x ≠ ';') → Blank b → Gap c → Blank d →
      Directive path ("import".toList ++ a ++ ('{' :: symbols ++ '}' :: b ++ "from".toList ++ c) ++
        q :: (path ++ q :: (d ++ [';'])))
  | all {q : Char} {a b c d e f : List Char} (name : Identifier) : isQuote q = true → Gap a →
      Blank b → Gap c → Gap d → Gap e → Blank f →
      Directive path ("import".toList ++ a ++
        ('*' :: b ++ "as".toList ++ c ++ name.chars ++ d ++ "from".toList ++ e) ++
        q :: (path ++ q :: (f ++ [';'])))

/-- Neither a quote nor a semicolon. -/
def isFree (c : Char) : Bool := !isQuote c && c != ';'

def Free (cs : List Char) : Prop := ∀ c ∈ cs, isFree c = true

/-- What may stand between `import` and the quoted path. -/
inductive Lead : List Char → Prop
  | none : Lead []
  | names {c : Char} {names gap : List Char} : isBlank c = false → Free (c :: names) →
      (∀ x ∈ (c :: names).getLast?, isWord x = false) → Gap gap →
      Lead (c :: names ++ ("from".toList ++ gap))

/-- All that reading a directive depends on. -/
inductive Form (path : List Char) : List Char → Prop
  | intro {q q' : Char} {gap lead tail : List Char} : isQuote q = true → isQuote q' = true →
      Gap gap → Lead lead → Free tail →
      Form path ("import".toList ++ (gap ++ (lead ++ q :: (path ++ q' :: (tail ++ [';'])))))

theorem isFree_iff {c : Char} : isFree c = true ↔ c ≠ '"' ∧ c ≠ '\'' ∧ c ≠ ';' := by
  simp [isFree, isQuote, and_assoc]

theorem isFree_of_isBlank {c : Char} (h : isBlank c = true) : isFree c = true := by
  refine isFree_iff.2 ⟨?_, ?_, ?_⟩ <;>
  · rintro rfl
    exact absurd h (by decide)

theorem isFree_of_isIdentChar {c : Char} (h : isIdentChar c = true) : isFree c = true := by
  refine isFree_iff.2 ⟨?_, ?_, ?_⟩ <;>
  · rintro rfl
    exact absurd h (by decide)

theorem isBlank_of_isQuote {c : Char} (h : isQuote c = true) : isBlank c = false := by
  simp only [isQuote, Bool.or_eq_true, beq_iff_eq] at h
  rcases h with rfl | rfl
  · decide
  · decide

theorem Free.of_blank {cs : List Char} (h : Blank cs) : Free cs :=
  fun c hc => isFree_of_isBlank (h c hc)

theorem Free.append {cs ds : List Char} (h : Free cs) (h' : Free ds) : Free (cs ++ ds) :=
  List.forall_mem_append.2 ⟨h, h'⟩

theorem Free.of_ident (name : Identifier) : Free name.chars :=
  fun c hc => isFree_of_isIdentChar (name.chars_char c hc)

theorem isWord_of_getLast? (cs : List Char) {gap : List Char} (h : Gap gap) :
    ∀ x ∈ (cs ++ gap).getLast?, isWord x = false := by
  intro x hx
  rw [List.getLast?_append, List.getLast?_eq_some_getLast h.1] at hx
  obtain rfl := Option.some.inj hx
  exact isWord_of_isBlank (h.2 _ (List.getLast_mem h.1))

theorem isWord_of_getLast?_cons {c : Char} (cs : List Char) {b : List Char}
    (hc : isWord c = false) (hb : Blank b) : ∀ x ∈ (cs ++ c :: b).getLast?, isWord x = false := by
  rcases List.eq_nil_or_concat b with rfl | ⟨init, d, rfl⟩
  · intro x hx
    rw [List.getLast?_concat] at hx
    obtain rfl := Option.some.inj hx
    exact hc
  · have hgap : Gap [d] := ⟨List.cons_ne_nil _ _, fun x hx => hb x (by simp_all)⟩
    have hlast := isWord_of_getLast? (cs ++ c :: init) hgap
    rwa [List.append_assoc, List.cons_append, ← List.concat_eq_append] at hlast

theorem Directive.form {path text : List Char} (h : Directive path text) : Form path text := by
  have has : ∀ c ∈ "as".toList, isFree c = true := by decide
  have hbrace : ∀ c ∈ ['{', '}', '*'], isFree c = true := by decide
  cases h with
  | @plain q a b hq ha hb =>
    have hform : Form path _ := .intro hq hq ha .none (Free.of_blank hb)
    simpa only [List.append_assoc, List.nil_append] using hform
  | @renamed q a b c d name hq ha hb hc hd =>
    have htail : Free (b ++ "as".toList ++ c ++ name.chars ++ d) :=
      ((((Free.of_blank hb).append has).append (Free.of_blank hc.2)).append
        (Free.of_ident name)).append (Free.of_blank hd)
    have hform : Form path _ := .intro hq hq ha .none htail
    simpa only [List.append_assoc, List.nil_append] using hform
  | @symbols q a symbols b c d hq ha hsymbols hb hc hd =>
    have hfree : Free ('{' :: (symbols ++ '}' :: b)) := by
      have hinside : Free symbols := by
        intro x hx
        simp [isFree, (hsymbols x hx).1, (hsymbols x hx).2]
      exact Free.append (List.forall_mem_cons.2 ⟨hbrace '{' (by simp), hinside⟩)
        (List.forall_mem_cons.2 ⟨hbrace '}' (by simp), Free.of_blank hb⟩)
    have hlast := isWord_of_getLast?_cons (c := '}') ('{' :: symbols) (by decide +kernel) hb
    have hform : Form path _ := .intro hq hq ha
      (.names (by decide) hfree hlast hc) (Free.of_blank hd)
    simpa only [List.append_assoc, List.cons_append] using hform
  | @all q a b c d e f name hq ha hb hc hd he hf =>
    have hfree : Free ('*' :: (b ++ "as".toList ++ c ++ name.chars ++ d)) :=
      List.forall_mem_cons.2 ⟨hbrace '*' (by simp),
        ((((Free.of_blank hb).append has).append (Free.of_blank hc.2)).append
          (Free.of_ident name)).append (Free.of_blank hd.2)⟩
    have hlast := isWord_of_getLast? ('*' :: (b ++ "as".toList ++ c ++ name.chars)) hd
    have hform : Form path _ := .intro hq hq ha
      (.names (by decide) hfree hlast he) (Free.of_blank hf)
    simpa only [List.append_assoc, List.cons_append] using hform

theorem Form.head? {path text : List Char} (h : Form path text) : text.head? = some 'i' := by
  cases h
  rfl

theorem Form.getLast? {path text : List Char} (h : Form path text) : text.getLast? = some ';' := by
  cases h with
  | @intro q q' gap lead tail =>
    have hend : "import".toList ++ (gap ++ (lead ++ q :: (path ++ q' :: (tail ++ [';'])))) =
        "import".toList ++ (gap ++ (lead ++ q :: (path ++ q' :: tail))) ++ [';'] := by simp
    rw [hend, List.getLast?_concat]

theorem Free.respaced {cs ds : List Char} (h : Free cs) (hr : Respaced cs ds) : Free ds :=
  fun c hc => (hr.mem_or_isBlank hc).elim (h c) isFree_of_isBlank

theorem Lead.respaced {gap lead ds : List Char} (hgap : Gap gap) (h : Lead lead)
    (hr : Respaced (gap ++ lead) ds) : ∃ gap' lead', ds = gap' ++ lead' ∧ Gap gap' ∧ Lead lead' := by
  cases h with
  | none =>
    rw [List.append_nil] at hr
    exact ⟨ds, [], (List.append_nil ds).symm, hr.gap hgap, .none⟩
  | @names c names gap₂ hc hfree hlast hgap₂ =>
    obtain ⟨gap', rest, rfl, hrgap, hrest⟩ := Respaced.cut hc hr
    obtain ⟨names', rest, rfl, hrnames, hrest⟩ := Respaced.cut (c := 'f') (by decide) hrest
    obtain ⟨word, gap₂', rfl, hrword, hrgap₂⟩ :=
      Respaced.cut (u := ['r', 'o']) (c := 'm') (by decide) hrest
    obtain rfl := hrword.eq_of_not_mem (by decide)
    have hrall : Respaced (c :: names) (c :: names') := .keep c hrnames
    refine ⟨gap', c :: names' ++ ("from".toList ++ gap₂'), rfl, hrgap.gap hgap,
      .names hc (hfree.respaced hrall) ?_ (hrgap₂.gap hgap₂)⟩
    exact fun x hx => (hrall.getLast?_or hx).elim (hlast x) isWord_of_isBlank

theorem Form.respaced {path text ds : List Char} (hline : '\n' ∉ path) (h : Form path text)
    (hr : Respaced text ds) : Form path ds := by
  cases h with
  | @intro q q' gap lead tail hq hq' hgap hlead htail =>
    obtain ⟨word, rest, rfl, hrword, hrrest⟩ :=
      Respaced.cut (u := "impor".toList) (c := 't') (by decide) hr
    obtain rfl := hrword.eq_of_not_mem (by decide)
    rw [← List.append_assoc] at hrrest
    obtain ⟨front, quoted, rfl, hrfront, hrquoted⟩ := Respaced.cut (isBlank_of_isQuote hq) hrrest
    obtain ⟨path', behind, rfl, hrpath, hrbehind⟩ :=
      Respaced.cut (isBlank_of_isQuote hq') hrquoted
    obtain rfl := hrpath.eq_of_not_mem hline
    obtain ⟨tail', last, rfl, hrtail, hrlast⟩ := Respaced.cut (c := ';') (by decide) hrbehind
    obtain rfl := hrlast.eq_of_not_mem List.not_mem_nil
    obtain ⟨gap', lead', rfl, hgap', hlead'⟩ := hlead.respaced hgap hrfront
    rw [List.append_assoc gap']
    exact Form.intro hq hq' hgap' hlead' (htail.respaced hrtail)

/-- What is read at the start of a line: blanks, the word `import`, and no semicolon before the
first quote. -/
theorem reads_directive {p r : Place} (h : directive.Reads p r) :
    (∀ c ∈ p.behind.head?, c = '\n') ∧ ∃ g a lead rest, ∃ q : Char, Blank g ∧ Gap a ∧ Free lead ∧
      isQuote q = true ∧ p.ahead = g ++ ("import".toList ++ (a ++ (lead ++ q :: rest))) ∧
      r.ahead.length < rest.length := by
  obtain ⟨r₇, ⟨r₆, ⟨r₅, ⟨r₄, ⟨r₃, ⟨r₂, ⟨r₁, ⟨rfl, hline⟩, g, -, hg, hpg⟩, hword⟩, a, hne, ha, hpa⟩,
    hlead⟩, q, hq, hpq⟩, s, ⟨path, -, -, hpath⟩, rfl⟩, q', -, hpq'⟩ := h
  have hfree : ∃ lead, Free lead ∧ r₄.ahead = lead ++ r₅.ahead := by
    rcases hlead with ⟨s₃, ⟨s₂, ⟨s₁, ⟨names, -, hnames, hpn⟩, rfl, -⟩, hfrom⟩, b, -, hb, hpb⟩ | rfl
    · have hfromFree : ∀ c ∈ "from".toList, isFree c = true := by decide
      refine ⟨names ++ ("from".toList ++ b), Free.append hnames
        (Free.append hfromFree (Free.of_blank hb)), ?_⟩
      rw [hpn.ahead, (reads_word.1 hfrom).ahead, hpb.ahead, List.append_assoc, List.append_assoc]
    · exact ⟨[], by simp [Free], rfl⟩
  obtain ⟨lead, hfree, hlead⟩ := hfree
  have hstart : r₁.behind.head?.all (· == '\n') = true := hline
  refine ⟨fun c hc => by simpa [Option.mem_def.1 hc] using hstart, g, a, lead, r₆.ahead, q, hg, ⟨List.length_pos_iff.1 hne, ha⟩, hfree,
    hq, ?_, ?_⟩
  · rw [hpg.ahead, (reads_word.1 hword).ahead, hpa.ahead, hlead, hpq.ahead]
    rfl
  · have hs : s.ahead = [q'] ++ r.ahead := hpq'.ahead
    rw [hpath.ahead, hs]
    simp only [List.length_append, List.length_singleton]
    omega

/-- Blanks and the word `import` with another blank stand here. -/
def ImportAhead (cs : List Char) : Prop :=
  ∃ g b rest, Blank g ∧ isBlank b = true ∧ cs = g ++ ("import".toList ++ b :: rest)

theorem importAhead_of_reads {p r : Place} (h : directive.Reads p r) : ImportAhead p.ahead := by
  obtain ⟨-, g, a, lead, rest, q, hg, ha, -, -, hahead, -⟩ := reads_directive h
  obtain ⟨b, a, rfl⟩ := List.exists_cons_of_ne_nil ha.1
  exact ⟨g, b, a ++ (lead ++ q :: rest), hg, ha.2 b List.mem_cons_self, hahead⟩

theorem advance_directive (p r : Place) (h : directive.Reads p r) :
    r.ahead.length < p.ahead.length := by
  obtain ⟨-, g, a, lead, rest, q, -, -, -, -, hahead, hlt⟩ := reads_directive h
  rw [hahead]
  simp only [List.length_append, List.length_cons]
  omega

/-- Nothing is read where a semicolon comes before any quote. -/
theorem matchAt?_eq_none_of_free {behind tail rest : List Char} (h : Free tail) :
    directive.matchAt? ⟨behind, tail ++ ';' :: rest, []⟩ = none := by
  rw [matchAt?_eq_none_iff]
  intro r hr
  obtain ⟨-, g, a, lead, rest', q, hg, ha, hlead, hq, hahead, -⟩ := reads_directive hr
  have himport : ∀ c ∈ "import".toList, isFree c = true := by decide
  have hfront : Free (g ++ ("import".toList ++ (a ++ lead))) :=
    (Free.of_blank hg).append (Free.append himport ((Free.of_blank ha.2).append hlead))
  have hcut : tail ++ ';' :: rest = g ++ ("import".toList ++ (a ++ lead)) ++ q :: rest' := by
    simpa only [List.append_assoc] using hahead
  have hquote : ∀ c ∈ (q :: rest').head?, isFree c = false := by
    rintro c ⟨⟩
    simp [isFree, hq]
  have hsemicolon : ∀ c ∈ (';' :: rest).head?, isFree c = false := by
    rintro c ⟨⟩
    decide
  obtain ⟨-, hrest⟩ := append_inj_of_stop h hfront hsemicolon hquote hcut
  obtain ⟨rfl, -⟩ := List.cons.inj hrest
  exact absurd hq (by decide)

theorem run_quoted {q q' : Char} {path : List Char} (hq : isQuote q = true)
    (hq' : isQuote q' = true) (hpath : IsPath path) (behind ahead : List Char) :
    (Pattern.char isQuote).run ⟨behind, q :: (path ++ q' :: ahead), []⟩ (fun p =>
      (Pattern.mark "path" (.many 1 (!isQuote ·))).run p fun p =>
        (Pattern.char isQuote).run p some) =
      some ⟨q' :: (path.reverse ++ q :: behind), ahead, [("path", path)]⟩ := by
  rw [run_char_cons hq, run_mark]
  refine run_many_append ?_ (List.length_pos_iff.2 hpath.ne_nil) ?_ ?_
  · intro c hc
    rw [hpath.unquoted c hc]
    rfl
  · rintro c ⟨⟩
    rw [hq']
    rfl
  · rw [Place.upTo_append, run_char_cons hq']

/-- Before the names are over no `from` is followed by blanks and a quote. -/
theorem not_reads_from {b gap behind rest : List Char} {q : Char} {r : Place} (hne : b ≠ [])
    (hb : Free b) (hgap : Gap gap) (hq : isQuote q = true) :
    ¬ (Pattern.wordEdge ++ word "from" ++ blanks1 ++ .char isQuote).Reads
      ⟨behind, b ++ ("from".toList ++ (gap ++ q :: rest)), []⟩ r := by
  rintro ⟨r₃, ⟨r₂, ⟨r₁, ⟨rfl, -⟩, hword⟩, w, -, hw, hpw⟩, q', hq', hpq⟩
  have hfrom : ∀ c ∈ "from".toList, isFree c = true := by decide
  have hstop : ∀ {x : Char} {t : List Char}, isQuote x = true →
      ∀ c ∈ (x :: t).head?, isFree c = false := by
    rintro x t hx c ⟨⟩
    simp [isFree, hx]
  have hahead : b ++ ("from".toList ++ gap) ++ q :: rest = "from".toList ++ w ++ q' :: r.ahead := by
    have h := (reads_word.1 hword).ahead
    rw [hpw.ahead, hpq.ahead] at h
    simpa only [List.append_assoc, List.singleton_append] using h
  obtain ⟨hcut, -⟩ := append_inj_of_stop (Free.append hb (Free.append hfrom (Free.of_blank hgap.2)))
    (Free.append hfrom (Free.of_blank hw)) (hstop hq) (hstop hq') hahead
  have hchars : "from".toList = ['f', 'r', 'o', 'm'] := rfl
  rw [hchars] at hcut
  match b with
  | [] => exact hne rfl
  | [_] => simp at hcut
  | [_, _] => simp at hcut
  | [_, _, _] => simp at hcut
  | _ :: _ :: _ :: _ :: b =>
    have hmem : 'f' ∈ w := by
      simp only [List.cons_append, List.nil_append, List.cons.injEq] at hcut
      rw [← hcut.2.2.2.2]
      simp
    exact absurd (hw 'f' hmem) (by decide)

theorem run_optional_of_none {α : Type} {a : Pattern} {p : Place} {k : Place → Option α}
    (h : a.run p k = none) : (Pattern.optional a).run p k = k p := by
  rw [Pattern.optional, run, h]
  rfl

theorem run_optional_of_some {α : Type} {a : Pattern} {p : Place} {k : Place → Option α} {x : α}
    (h : a.run p k = some x) : (Pattern.optional a).run p k = some x := by
  rw [Pattern.optional, run, h]
  rfl

/-- What introduces the names of a directive. -/
def names : Pattern :=
  .few 0 (fun c => !isQuote c && c != ';') ++ Pattern.wordEdge ++ word "from" ++ blanks1

/-- All that stands between `import` and the path is read, if the rest takes the path. -/
theorem run_lead {lead behind rest : List Char} {q : Char} {k : Place → Option Place} {x : Place}
    (hlead : Lead lead) (hq : isQuote q = true)
    (hk : (Pattern.char isQuote).run ⟨lead.reverse ++ behind, q :: rest, []⟩ k = some x) :
    (Pattern.optional names).run ⟨behind, lead ++ q :: rest, []⟩
      (fun p => (Pattern.char isQuote).run p k) = some x := by
  have hquote : isFree q = false := by simp [isFree, hq]
  cases hlead with
  | none =>
    rw [run_optional_of_none, List.nil_append]
    · exact hk
    · refine run_eq_none ?_
      rintro r ⟨r₃, ⟨r₂, ⟨r₁, ⟨w, -, hw, hpw⟩, rfl, -⟩, hword⟩, -⟩
      have hahead : q :: rest = w ++ ("from".toList ++ r₃.ahead) := by
        rw [← (reads_word.1 hword).ahead]
        exact hpw.ahead
      cases w with
      | nil =>
        obtain ⟨rfl, -⟩ := List.cons.inj hahead
        exact absurd hq (by decide)
      | cons c w =>
        obtain ⟨rfl, -⟩ := List.cons.inj hahead
        have hfree : isFree q = true := hw q List.mem_cons_self
        rw [hquote] at hfree
        cases hfree
  | @names c ns gap hc hfree hlast hgap =>
    refine run_optional_of_some ?_
    simp only [names, run_append, List.append_assoc]
    refine run_few_zero_append _ _ _ hfree ?_ ?_
    · intro a b hab hb
      have hb' : Free b := fun y hy => hfree y (by rw [hab]; exact List.mem_append_right a hy)
      have hnone := run_eq_none (a := Pattern.wordEdge ++ word "from" ++ blanks1 ++ .char isQuote)
        (p := ⟨a.reverse ++ behind, b ++ ("from".toList ++ (gap ++ q :: rest)), []⟩) (k := k)
        fun r hr => not_reads_from hb hb' hgap hq hr
      simpa only [run_append] using hnone
    · have hedge : Text.wordEdge ((c :: ns).reverse ++ behind).head?
          ("from".toList ++ (gap ++ q :: rest)).head? = true := by
        rw [List.head?_append, List.head?_reverse]
        cases hn : (c :: ns).getLast? with
        | none => simp at hn
        | some y =>
          have hy : isWord y = false := hlast y hn
          have hf : isWord 'f' = true := by decide +kernel
          simp [Text.wordEdge, hy, hf]
      refine (if_pos hedge).trans ?_
      dsimp only
      rw [run_word_append]
      refine run_many_append hgap.2 (List.length_pos_iff.2 hgap.1) ?_ ?_
      · rintro d ⟨⟩
        exact isBlank_of_isQuote hq
      · simpa only [List.reverse_append, List.append_assoc] using hk

theorem Lead.head {lead rest : List Char} {q : Char} (h : Lead lead) (hq : isQuote q = true) :
    ∀ c ∈ (lead ++ q :: rest).head?, isBlank c = false := by
  cases h with
  | none =>
    rintro c ⟨⟩
    exact isBlank_of_isQuote hq
  | names hc =>
    rintro c ⟨⟩
    exact hc

/-- The path is marked, and reading ends behind its second quote. -/
theorem matchAt?_directive {g behind path text : List Char} (hpath : IsPath path)
    (h : Form path text) (hbehind : ∀ c ∈ behind.head?, c = '\n') (hg : Blank g)
    (rest : List Char) : ∃ behind' tail, Free tail ∧
      directive.matchAt? ⟨behind, g ++ (text ++ rest), []⟩ =
        some ⟨behind', tail ++ ';' :: rest, [("path", path)]⟩ := by
  cases h with
  | @intro q q' gap lead tail hq hq' hgap hlead htail =>
    refine ⟨q' :: (path.reverse ++ q :: (lead.reverse ++ (gap.reverse ++
      ("import".toList.reverse ++ (g.reverse ++ behind))))), tail, htail, ?_⟩
    have hstart : ∀ {α : Type} (ahead : List Char) (k : Place → Option α),
        lineStart.run ⟨behind, ahead, []⟩ k = k ⟨behind, ahead, []⟩ := by
      intro α ahead k
      refine if_pos ?_
      cases hhead : behind.head? with
      | none => rfl
      | some c => simp [hbehind c hhead]
    simp only [matchAt?, directive, run_append, hstart, List.append_assoc, List.cons_append]
    refine run_many_append hg (Nat.zero_le _) ?_ ?_
    · rintro c ⟨⟩
      decide
    rw [run_word_append]
    refine run_many_append hgap.2 (List.length_pos_iff.2 hgap.1) (hlead.head hq) ?_
    refine run_lead hlead hq ?_
    exact run_quoted hq hq' hpath _ _

/-- No directive begins on a line of the text. -/
def NoImport (cs : List Char) : Prop :=
  ∀ u v, cs = u ++ v → (∀ c ∈ u.getLast?, c = '\n') → ¬ ImportAhead v

theorem ImportAhead.extend {v : List Char} (h : ImportAhead v) (b : List Char) :
    ImportAhead (v ++ b) := by
  obtain ⟨g, x, rest, hg, hx, rfl⟩ := h
  exact ⟨g, x, rest ++ b, hg, hx, by simp⟩

theorem ImportAhead.length_lt {v : List Char} (h : ImportAhead v) : 6 < v.length := by
  obtain ⟨g, x, rest, -, -, rfl⟩ := h
  have himport : "import".toList.length = 6 := rfl
  simp only [List.length_append, List.length_cons, himport]
  omega

theorem ImportAhead.of_blank {g v : List Char} (hg : Blank g) (h : ImportAhead (g ++ v)) :
    ImportAhead v := by
  obtain ⟨g', x, rest, hg', hx, heq⟩ := h
  rcases List.append_eq_append_iff.1 heq with ⟨w, rfl, hv⟩ | ⟨w, rfl, hw⟩
  · exact ⟨w, x, rest, fun c hc => hg' c (List.mem_append_right g hc), hx, hv⟩
  · cases w with
    | nil => exact ⟨[], x, rest, blank_nil, hx, by simpa using hw.symm⟩
    | cons c w =>
      have hblank := hg c (by simp)
      rw [← (List.cons.inj hw).1] at hblank
      exact absurd hblank (by decide)

/-- Of a text in two parts one holds the word and the blank behind it, or both hold a piece. -/
theorem ImportAhead.cases_append {v b : List Char} (h : ImportAhead (v ++ b)) :
    ImportAhead v ∨ ImportAhead b ∨ ∃ w t x, w ≠ [] ∧ t ≠ [] ∧ isBlank x = true ∧
      "import".toList ++ [x] = w ++ t ∧ w <:+ v ∧ t <+: b := by
  obtain ⟨g, x, rest, hg, hx, heq⟩ := h
  rcases List.append_eq_append_iff.1 heq with ⟨w, rfl, hb⟩ | ⟨w, rfl, hw⟩
  · exact .inr (.inl ⟨w, x, rest, fun c hc => hg c (List.mem_append_right v hc), hx, hb⟩)
  · rw [List.append_cons] at hw
    rcases List.append_eq_append_iff.1 hw with ⟨t, rfl, -⟩ | ⟨t, ht, rfl⟩
    · exact .inl ⟨g, x, t, hg, hx, by simp⟩
    · by_cases hwnil : w = []
      · subst hwnil
        exact .inr (.inl ⟨[], x, rest, blank_nil, hx, by rw [← List.nil_append t, ← ht]; simp⟩)
      · by_cases htnil : t = []
        · subst htnil
          rw [List.append_nil] at ht
          exact .inl ⟨g, x, [], hg, hx, by rw [← ht]⟩
        · exact .inr (.inr ⟨w, t, x, hwnil, htnil, hx, ht, List.suffix_append g w,
            List.prefix_append t rest⟩)

/-- They are on one side of the end of a line. -/
theorem ImportAhead.of_append {v b : List Char} (h : ImportAhead (v ++ b))
    (hv : ∀ c ∈ v.getLast?, c = '\n') : ImportAhead v ∨ ImportAhead b := by
  have himport : ∀ c ∈ "import".toList, c ≠ '\n' := by decide
  rcases h.cases_append with h | h | ⟨w, t, x, hw, ht, -, hcut, ⟨v, rfl⟩, -⟩
  · exact .inl h
  · exact .inr h
  · obtain ⟨w, c, rfl⟩ := (List.eq_nil_or_concat w).resolve_left hw
    obtain ⟨t, d, rfl⟩ := (List.eq_nil_or_concat t).resolve_left ht
    rw [List.concat_eq_append] at hv hcut
    rw [List.concat_eq_append, ← List.append_assoc] at hcut
    obtain ⟨hchars, -⟩ := List.append_inj' hcut rfl
    have hc : c ∈ "import".toList := by rw [hchars]; simp
    exact absurd (hv c (by rw [← List.append_assoc, List.getLast?_concat]; rfl)) (himport c hc)

theorem not_importAhead {g rest : List Char} {c : Char} (hg : Blank g) (hc : isBlank c = false)
    (hi : c ≠ 'i') : ¬ ImportAhead (g ++ c :: rest) := by
  intro h
  obtain ⟨g', x, rest', hg', -, heq⟩ := h.of_blank hg
  cases g' with
  | nil => exact hi (List.cons.inj heq).1
  | cons d g' =>
    obtain ⟨rfl, -⟩ := List.cons.inj heq
    rw [hg' c List.mem_cons_self] at hc
    cases hc

/-- They are in front of a semicolon or behind it. -/
theorem ImportAhead.of_semicolon {v b : List Char} (h : ImportAhead (v ++ ';' :: b)) :
    ImportAhead v := by
  rcases h.cases_append with h | h | ⟨w, t, x, -, ht, hx, hcut, -, hprefix⟩
  · exact h
  · exact absurd h (not_importAhead blank_nil (by decide) (by decide))
  · obtain ⟨d, t, rfl⟩ := List.exists_cons_of_ne_nil ht
    obtain rfl := (List.cons_prefix_cons.1 hprefix).1
    have hmem : ';' ∈ "import".toList ++ [x] := by rw [hcut]; simp
    rcases List.mem_append.1 hmem with hmem | hmem
    · exact absurd hmem (by decide)
    · rw [← List.mem_singleton.1 hmem] at hx
      exact absurd hx (by decide)

theorem NoImport.nil : NoImport [] := by
  intro u v huv _ hahead
  have hlt := hahead.length_lt
  rw [(List.append_eq_nil_iff.1 huv.symm).2] at hlt
  cases hlt

theorem NoImport.append {a b : List Char} (ha : NoImport a) (hb : NoImport b)
    (hend : ∀ c ∈ a.getLast?, c = '\n') : NoImport (a ++ b) := by
  intro u v huv hu hahead
  rcases List.append_eq_append_iff.1 huv with ⟨w, rfl, rfl⟩ | ⟨w, rfl, rfl⟩
  · exact hb w v rfl (fun c hc => hu c (List.mem_getLast?_append_of_mem_getLast? hc)) hahead
  · have hw : ∀ c ∈ w.getLast?, c = '\n' := fun c hc =>
      hend c (List.mem_getLast?_append_of_mem_getLast? hc)
    rcases hahead.of_append hw with hahead | hahead
    · exact ha u w rfl hu hahead
    · exact hb [] b rfl (by simp) hahead

theorem NoImport.blank_append {g cs : List Char} (hg : Blank g) (h : NoImport cs) :
    NoImport (g ++ cs) := by
  intro u v huv hu hahead
  rcases List.append_eq_append_iff.1 huv with ⟨w, rfl, rfl⟩ | ⟨w, rfl, rfl⟩
  · exact h w v rfl (fun c hc => hu c (List.mem_getLast?_append_of_mem_getLast? hc)) hahead
  · exact h [] cs rfl (by simp)
      (hahead.of_blank fun c hc => hg c (List.mem_append_right u hc))

theorem NoImport.ended {ls : List (List Char)} (h : ∀ l ∈ ls, NoImport (l ++ ['\n'])) :
    NoImport (ended ls) := by
  induction ls with
  | nil => exact .nil
  | cons l ls ih =>
    rw [List.forall_mem_cons] at h
    exact h.1.append (ih h.2) (by simp)

theorem NoImport.line {l : List Char} (hline : '\n' ∉ l) (h : ¬ ImportAhead (l ++ ['\n'])) :
    NoImport (l ++ ['\n']) := by
  intro u v huv hu hahead
  rcases List.append_eq_append_iff.1 huv with ⟨w, rfl, hw⟩ | ⟨w, rfl, rfl⟩
  · have hlt := hahead.length_lt
    have hlen := congrArg List.length hw
    simp only [List.length_append, List.length_cons, List.length_nil] at hlen
    omega
  · rcases List.eq_nil_or_concat u with rfl | ⟨u, c, rfl⟩
    · exact h hahead
    · obtain rfl : c = '\n' := hu c (by simp)
      simp at hline

/-- Nothing is found in such a text. -/
theorem NoImport.search (behind : List Char) {cs : List Char} (h : NoImport cs) :
    directive.search behind cs = none := by
  refine search_eq_none fun u v huv => ?_
  rw [matchAt?_eq_none_iff]
  intro r hr
  obtain ⟨hstart, -⟩ := reads_directive hr
  refine h u v huv (fun c hc => hstart c (List.mem_head?_append_of_mem_head? ?_))
    (importAhead_of_reads hr)
  rwa [List.head?_reverse]

/-- Behind the path nothing is read up to the next line. -/
theorem matchAt?_tail {tail u v : List Char} {c : Char} (behind rest : List Char)
    (htail : Free tail) (h : tail ++ [';'] ++ ['\n'] = u ++ c :: v) :
    directive.matchAt? ⟨u.reverse ++ behind, c :: (v ++ rest), []⟩ = none := by
  rcases List.eq_nil_or_concat v with rfl | ⟨v, d, rfl⟩
  · -- the end of the line is no start of one
    obtain ⟨rfl, -⟩ := List.append_inj' h rfl
    rw [matchAt?_eq_none_iff]
    intro r hr
    obtain ⟨hstart, -⟩ := reads_directive hr
    have : ';' = '\n' := hstart ';' (by simp)
    exact absurd this (by decide)
  · rw [List.concat_eq_append] at h ⊢
    have hsplit : u ++ c :: (v ++ [d]) = u ++ c :: v ++ [d] := by simp
    obtain ⟨hcut, -⟩ := List.append_inj' (h.trans hsplit) rfl
    rcases List.append_eq_append_iff.1 hcut with ⟨w, rfl, hw⟩ | ⟨w, rfl, hw⟩
    · have hlen := congrArg List.length hw
      simp only [List.length_append, List.length_cons, List.length_nil] at hlen
      obtain rfl : w = [] := List.length_eq_zero_iff.1 (by omega)
      obtain ⟨rfl, rfl⟩ := List.cons.inj hw
      have hempty : Free [] := nofun
      exact matchAt?_eq_none_of_free hempty
    · have hahead : c :: (v ++ [d] ++ rest) = w ++ ';' :: (d :: rest) := by
        rw [← List.cons_append, ← List.cons_append, hw]
        simp
      rw [hahead]
      exact matchAt?_eq_none_of_free fun c hc => htail c (List.mem_append_right u hc)

/-- The paths found are those of the directives, where what follows them holds none. -/
theorem paths_found {paths texts : List (List Char)} (h : List.Forall₂ Form paths texts)
    (hpaths : ∀ path ∈ paths, IsPath path) {g behind rest : List Char}
    (hbehind : ∀ c ∈ behind.head?, c = '\n') (hg : Blank g) (hrest : NoImport rest) :
    (directive.allFrom behind (g ++ (ended texts ++ rest))).map (·.2.marks) =
      paths.map fun path => [("path", path)] := by
  induction h generalizing g behind with
  | nil =>
    have hnone : directive.search behind (g ++ (Text.ended [] ++ rest)) = none :=
      (hrest.blank_append hg).search behind
    rw [allFrom_of_none hnone]
    rfl
  | @cons path text paths texts hform htexts ih =>
    rw [List.forall_mem_cons] at hpaths
    have hsplit : Text.ended (text :: texts) ++ rest =
        text ++ '\n' :: (Text.ended texts ++ rest) := by
      simp [Text.ended]
    obtain ⟨behind', tail, htail, hmatch⟩ := matchAt?_directive hpaths.1 hform hbehind hg
      ('\n' :: (Text.ended texts ++ rest))
    have hreads := reads_of_matchAt? hmatch
    have hlt := advance_directive _ _ hreads
    have hpass := allFrom_passes behind' (Text.ended texts ++ rest) advance_directive
      fun u c v h => matchAt?_tail behind' (Text.ended texts ++ rest) htail h
    rw [hsplit, allFrom_of_search (search_of_match hmatch) hlt, List.map_cons, List.map_cons]
    refine congrArg (_ :: ·) ?_
    have hahead : tail ++ ';' :: '\n' :: (Text.ended texts ++ rest) =
        tail ++ [';'] ++ ['\n'] ++ (Text.ended texts ++ rest) := by simp
    rw [hahead, hpass]
    exact ih hpaths.2 (by simp) blank_nil

end SoliditySession.Import
