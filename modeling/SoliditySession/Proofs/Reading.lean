import Mathlib.Computability.Language
import SoliditySession.Proofs.Pattern
/- What a pattern can read, as a relation between places; a run finds a reading that lets the rest
succeed whenever there is one. -/
namespace SoliditySession

namespace Place

/-- From `p` the text `read` leads to `q`; nothing is marked on the way. -/
structure Past (p : Place) (read : List Char) (q : Place) : Prop where
  ahead : p.ahead = read ++ q.ahead
  behind : q.behind = read.reverse ++ p.behind
  marks : q.marks = p.marks

namespace Past
variable {p q r : Place} {v w : List Char}

theorem intro (behind read ahead : List Char) (marks : List (String × List Char)) :
    Past ⟨behind, read ++ ahead, marks⟩ read ⟨read.reverse ++ behind, ahead, marks⟩ :=
  ⟨rfl, rfl, rfl⟩

theorem nil_iff : p.Past [] q ↔ q = p := by
  obtain ⟨behind, ahead, marks⟩ := p
  obtain ⟨behind', ahead', marks'⟩ := q
  constructor
  · rintro ⟨hahead, hbehind, hmarks⟩
    obtain rfl : ahead = ahead' := hahead
    obtain rfl : behind' = behind := hbehind
    obtain rfl : marks' = marks := hmarks
    rfl
  · intro h
    cases h
    exact ⟨rfl, rfl, rfl⟩

theorem trans (h : p.Past v q) (h' : q.Past w r) : p.Past (v ++ w) r where
  ahead := by rw [h.ahead, h'.ahead, List.append_assoc]
  behind := by rw [h'.behind, h.behind, List.reverse_append, List.append_assoc]
  marks := h'.marks.trans h.marks

/-- Where a reading ends depends on its text only. -/
theorem unique (h : p.Past w q) (h' : p.Past w r) : r = q := by
  obtain ⟨behind, ahead, marks⟩ := q
  obtain ⟨behind', ahead', marks'⟩ := r
  have ha : w ++ ahead = w ++ ahead' := h.ahead.symm.trans h'.ahead
  obtain rfl : ahead = ahead' := List.append_cancel_left ha
  obtain rfl : behind = behind' := h.behind.trans h'.behind.symm
  obtain rfl : marks = marks' := h.marks.trans h'.marks.symm
  rfl

theorem append_iff : p.Past (v ++ w) r ↔ ∃ q, p.Past v q ∧ q.Past w r := by
  constructor
  · intro h
    refine ⟨⟨v.reverse ++ p.behind, w ++ r.ahead, p.marks⟩, ⟨?_, rfl, rfl⟩, ⟨rfl, ?_, h.marks⟩⟩
    · rw [h.ahead, List.append_assoc]
    · rw [h.behind, List.reverse_append, List.append_assoc]
  · rintro ⟨q, h, h'⟩
    exact h.trans h'

theorem upTo_eq (h : p.Past w q) : p.upTo q = w := by
  obtain ⟨behind, ahead, marks⟩ := p
  obtain ⟨behind', ahead', marks'⟩ := q
  obtain rfl : behind' = w.reverse ++ behind := h.behind
  exact upTo_append w behind ahead ahead' marks marks'

theorem length_lt (h : p.Past w q) (hw : w ≠ []) : q.ahead.length < p.ahead.length := by
  have hpos : 0 < w.length := List.length_pos_iff.2 hw
  rw [h.ahead, List.length_append]
  omega

end Past

/-- Accepted characters read from a place, by whether the first of them is among them. -/
theorem exists_past_cons {accepts : Char → Bool} {n : Nat} {c : Char} {cs behind : List Char}
    {marks : List (String × List Char)} {q : Place} :
    (∃ w, n ≤ w.length ∧ (∀ x ∈ w, accepts x = true) ∧ Past ⟨behind, c :: cs, marks⟩ w q) ↔
      n = 0 ∧ q = ⟨behind, c :: cs, marks⟩ ∨
      accepts c = true ∧ ∃ w, n - 1 ≤ w.length ∧ (∀ x ∈ w, accepts x = true) ∧
        Past ⟨c :: behind, cs, marks⟩ w q := by
  constructor
  · rintro ⟨w, hn, hw, h⟩
    cases w with
    | nil => exact .inl ⟨Nat.le_zero.1 hn, Past.nil_iff.1 h⟩
    | cons d w =>
      have hahead : c :: cs = d :: (w ++ q.ahead) := h.ahead
      obtain ⟨rfl, hcs⟩ := List.cons.inj hahead
      obtain ⟨hc, hw⟩ := List.forall_mem_cons.1 hw
      exact .inr ⟨hc, w, Nat.sub_le_of_le_add hn, hw, hcs, by simpa using h.behind, h.marks⟩
  · rintro (⟨rfl, rfl⟩ | ⟨hc, w, hn, hw, h⟩)
    · exact ⟨[], Nat.le_refl 0, by simp, Past.nil_iff.2 rfl⟩
    · exact ⟨c :: w, Nat.le_add_of_sub_le hn, List.forall_mem_cons.2 ⟨hc, hw⟩,
        congrArg (c :: ·) h.ahead, by simpa using h.behind, h.marks⟩

theorem mem_drop_strides {accepts : Char → Bool} {p q : Place} (n : Nat) :
    q ∈ (p.strides accepts).drop n ↔
      ∃ w, n ≤ w.length ∧ (∀ c ∈ w, accepts c = true) ∧ p.Past w q := by
  obtain ⟨behind, ahead, marks⟩ := p
  induction ahead generalizing behind n with
  | nil =>
    cases n with
    | zero =>
      rw [strides_nil, List.drop_zero, List.mem_singleton]
      constructor
      · rintro rfl
        exact ⟨[], Nat.le_refl 0, by simp, Past.nil_iff.2 rfl⟩
      · rintro ⟨w, -, -, h⟩
        obtain rfl : w = [] := (List.append_eq_nil_iff.1 h.ahead.symm).1
        exact Past.nil_iff.1 h
    | succ n =>
      simp only [strides_nil, List.drop_succ_cons, List.drop_nil, List.not_mem_nil, false_iff]
      rintro ⟨w, hn, -, h⟩
      obtain rfl : w = [] := (List.append_eq_nil_iff.1 h.ahead.symm).1
      exact absurd hn (Nat.not_succ_le_zero n)
  | cons c cs ih =>
    rw [exists_past_cons, ← ih, strides_cons]
    cases n with
    | zero => by_cases hc : accepts c = true <;> simp [hc]
    | succ n => by_cases hc : accepts c = true <;> simp [hc]

/-- As far as the accepted characters go is the last of the strides. -/
theorem getLast?_strides {accepts : Char → Bool} {w ahead : List Char}
    (hw : ∀ c ∈ w, accepts c = true) (hstop : ∀ c ∈ ahead.head?, accepts c = false)
    (behind : List Char) (marks : List (String × List Char)) :
    (strides accepts ⟨behind, w ++ ahead, marks⟩).getLast? =
      some ⟨w.reverse ++ behind, ahead, marks⟩ ∧
    (strides accepts ⟨behind, w ++ ahead, marks⟩).length = w.length + 1 := by
  induction w generalizing behind with
  | nil =>
    cases ahead with
    | nil => exact ⟨rfl, rfl⟩
    | cons c cs =>
      have hc : accepts c = false := hstop c rfl
      simp [strides_cons, hc]
  | cons c w ih =>
    have hc : accepts c = true := hw c List.mem_cons_self
    obtain ⟨hlast, hlen⟩ := ih (fun d hd => hw d (List.mem_cons_of_mem c hd)) (c :: behind)
    rw [List.cons_append, strides_cons, if_pos hc]
    constructor
    · rw [List.getLast?_cons, hlast]
      simp
    · rw [List.length_cons, hlen, List.length_cons]

end Place

namespace Pattern

/-- The pattern can lead from one place to another; which of its readings comes first is left
open. -/
def Reads : Pattern → Place → Place → Prop
  | .empty, p, q => q = p
  | .char accepts, p, q => ∃ c, accepts c = true ∧ p.Past [c] q
  | .many least accepts, p, q =>
    ∃ w, least ≤ w.length ∧ (∀ c ∈ w, accepts c = true) ∧ p.Past w q
  | .few least accepts, p, q =>
    ∃ w, least ≤ w.length ∧ (∀ c ∈ w, accepts c = true) ∧ p.Past w q
  | .edge holds, p, q => q = p ∧ holds p.behind.head? p.ahead.head? = true
  | .seq a b, p, q => ∃ r, a.Reads p r ∧ b.Reads r q
  | .alt a b, p, q => a.Reads p q ∨ b.Reads p q
  | .star a, p, q =>
    Relation.ReflTransGen (fun p q => a.Reads p q ∧ q.ahead.length < p.ahead.length) p q
  | .mark name a, p, q =>
    ∃ r, a.Reads p r ∧ q = ⟨r.behind, r.ahead, (name, p.upTo r) :: r.marks⟩

/-- What a run comes to: the rest takes the end of some reading, or it takes none. -/
inductive Outcome {α : Type} (ends : Place → Prop) (k : Place → Option α) : Option α → Prop
  | taken {q : Place} {x : α} : ends q → k q = some x → Outcome ends k (some x)
  | none : (∀ q, ends q → k q = none) → Outcome ends k none

namespace Outcome
variable {α : Type} {ends ends' : Place → Prop} {k : Place → Option α} {r r' : Option α}

theorem congr (h : Outcome ends k r) (hends : ∀ q, ends q ↔ ends' q) : Outcome ends' k r := by
  cases h with
  | taken hq hk => exact .taken ((hends _).1 hq) hk
  | none hnone => exact .none fun q hq => hnone q ((hends q).2 hq)

theorem single (p : Place) : Outcome (· = p) k (k p) := by
  cases hk : k p with
  | none => exact .none fun q hq => hq ▸ hk
  | some x => exact .taken rfl hk

theorem or (h : Outcome ends k r) (h' : Outcome ends' k r') :
    Outcome (fun q => ends q ∨ ends' q) k (r <|> r') := by
  cases h with
  | taken hq hk => exact .taken (.inl hq) hk
  | none hnone =>
    cases h' with
    | taken hq hk => exact .taken (.inr hq) hk
    | none hnone' => exact .none fun q hq => hq.elim (hnone q) (hnone' q)

theorem findSome? (l : List Place) : Outcome (· ∈ l) k (l.findSome? k) := by
  cases h : l.findSome? k with
  | none => exact .none (List.findSome?_eq_none_iff.1 h)
  | some x =>
    obtain ⟨q, hq, hk⟩ := List.exists_of_findSome?_eq_some h
    exact .taken hq hk

/-- What is done at the end of each reading may be a run in turn. -/
theorem bind {f : Place → Place → Prop} {k' : Place → Option α}
    (h : Outcome ends k' r) (hafter : ∀ q, ends q → Outcome (f q) k (k' q)) :
    Outcome (fun s => ∃ q, ends q ∧ f q s) k r := by
  cases h with
  | @taken q x hq hk =>
    have hstep := hafter q hq
    rw [hk] at hstep
    cases hstep with
    | taken hs hks => exact .taken ⟨q, hq, hs⟩ hks
  | none hnone =>
    refine .none ?_
    rintro s ⟨q, hq, hs⟩
    have hstep := hafter q hq
    rw [hnone q hq] at hstep
    cases hstep with
    | none hrest => exact hrest s hs

end Outcome

theorem outcome_rounds {α : Type} {a : Pattern}
    (ha : ∀ p (k : Place → Option α), Outcome (a.Reads p) k (a.run p k))
    (n : Nat) (p : Place) (hn : p.ahead.length ≤ n) (k : Place → Option α) :
    Outcome ((star a).Reads p) k (rounds a.run n p k) := by
  induction n generalizing p with
  | zero =>
    refine (Outcome.single p).congr fun q => ?_
    rw [Reads, Relation.ReflTransGen.cases_head_iff]
    constructor
    · rintro rfl
      exact .inl rfl
    · rintro (rfl | ⟨r, ⟨-, hlt⟩, -⟩)
      · rfl
      · omega
  | succ n ih =>
    have hmore : Outcome (fun s => ∃ q, (a.Reads p q ∧ q.ahead.length < p.ahead.length) ∧
          (star a).Reads q s) k (a.run p fun q =>
        if q.ahead.length < p.ahead.length then rounds a.run n q k else none) := by
      refine ((ha p _).bind (f := fun q s => q.ahead.length < p.ahead.length ∧
        (star a).Reads q s) ?_).congr ?_
      · intro q hq
        by_cases hlt : q.ahead.length < p.ahead.length
        · simpa only [hlt, if_true, true_and] using ih q (by omega)
        · simpa only [hlt, if_false, false_and] using .none fun _ h => h.elim
      · intro s
        simp only [and_assoc]
    refine (hmore.or (Outcome.single p)).congr fun q => ?_
    rw [Reads, Relation.ReflTransGen.cases_head_iff, or_comm, eq_comm]
    rfl

/-- A run succeeds exactly when the rest takes the end of a reading, with what it gives there. -/
theorem outcome_run {α : Type} (a : Pattern) (p : Place) (k : Place → Option α) :
    Outcome (a.Reads p) k (a.run p k) := by
  induction a generalizing p k with
  | empty => exact .single p
  | char accepts =>
    obtain ⟨behind, ahead, marks⟩ := p
    cases ahead with
    | nil =>
      refine .none ?_
      rintro q ⟨c, -, h⟩
      cases h.ahead
    | cons c cs =>
      have hreads : ∀ q, (char accepts).Reads ⟨behind, c :: cs, marks⟩ q ↔
          accepts c = true ∧ q = ⟨c :: behind, cs, marks⟩ := by
        intro q
        constructor
        · rintro ⟨d, hd, h⟩
          obtain ⟨rfl, -⟩ := List.cons.inj h.ahead
          exact ⟨hd, (Place.Past.intro behind [c] cs marks).unique h⟩
        · rintro ⟨hc, rfl⟩
          exact ⟨c, hc, Place.Past.intro behind [c] cs marks⟩
      change Outcome _ k (if accepts c = true then k ⟨c :: behind, cs, marks⟩ else none)
      split
      · next hc => exact (Outcome.single _).congr fun q => by simp [hreads, hc]
      · next hc => exact .none fun q hq => absurd ((hreads q).1 hq).1 hc
  | many least accepts =>
    refine (Outcome.findSome? ((p.strides accepts).drop least).reverse).congr fun q => ?_
    rw [List.mem_reverse, Place.mem_drop_strides]
    rfl
  | few least accepts =>
    refine (Outcome.findSome? ((p.strides accepts).drop least)).congr fun q => ?_
    rw [Place.mem_drop_strides]
    rfl
  | edge holds =>
    rw [run]
    split
    · next h => exact (Outcome.single p).congr fun q => by simp [Reads, h]
    · next h => exact .none fun q hq => absurd hq.2 h
  | seq a b iha ihb => exact (iha p _).bind fun q _ => ihb q k
  | alt a b iha ihb => exact (iha p k).or (ihb p k)
  | star a ih => exact outcome_rounds ih p.ahead.length p (Nat.le_refl _) k
  | mark name a ih => exact (ih p _).bind fun q _ => .single _

section
variable {α : Type} {a : Pattern} {p q : Place} {k : Place → Option α} {x : α}

theorem run_of_unique (h : a.Reads p q) (hunique : ∀ r, a.Reads p r → r = q) :
    a.run p k = k q := by
  have ho := outcome_run a p k
  generalize a.run p k = r at ho
  cases ho with
  | taken hr hk => rw [← hunique _ hr, hk]
  | none hnone => rw [hnone q h]

theorem run_eq_none (h : ∀ q, ¬ a.Reads p q) : a.run p k = none := by
  have ho := outcome_run a p k
  generalize a.run p k = r at ho
  cases ho with
  | taken hr _ => exact absurd hr (h _)
  | none _ => rfl

theorem exists_reads (h : a.run p k = some x) : ∃ q, a.Reads p q ∧ k q = some x := by
  have ho := outcome_run a p k
  rw [h] at ho
  cases ho with
  | taken hr hk => exact ⟨_, hr, hk⟩

theorem matchAt?_eq_none_iff : a.matchAt? p = none ↔ ∀ q, ¬ a.Reads p q := by
  refine ⟨fun h q hq => ?_, run_eq_none⟩
  have ho := outcome_run a p some
  rw [matchAt?] at h
  rw [h] at ho
  cases ho with
  | none hnone => cases hnone q hq

theorem matchAt?_of_unique (h : a.Reads p q) (hunique : ∀ r, a.Reads p r → r = q) :
    a.matchAt? p = some q :=
  run_of_unique h hunique

end

section
variable {a : Pattern} {text : String}

theorem reads_of_matchAt? {p q : Place} (h : a.matchAt? p = some q) : a.Reads p q := by
  obtain ⟨found, hreads, heq⟩ := exists_reads h
  cases heq
  exact hreads

theorem reads_of_match? {q : Place} (h : a.match? text = some q) :
    a.Reads (.start text.toList) q :=
  reads_of_matchAt? h

theorem match?_eq_none_iff : a.match? text = none ↔ ∀ q, ¬ a.Reads (.start text.toList) q :=
  matchAt?_eq_none_iff

theorem exists_match? {q : Place} (h : a.Reads (.start text.toList) q) :
    ∃ found, a.match? text = some found ∧ a.Reads (.start text.toList) found := by
  cases hmatch : a.match? text with
  | none => exact absurd h (match?_eq_none_iff.1 hmatch q)
  | some found => exact ⟨found, rfl, reads_of_match? hmatch⟩

theorem matches?_eq_false {cs : List Char} (h : ∀ q, ¬ a.Reads (.start cs) q) :
    a.matches? (.ofList cs) = false := by
  have hnone : a.match? (.ofList cs) = none := by rwa [match?_eq_none_iff, String.toList_ofList]
  rw [matches?, hnone]
  rfl

theorem matches?_iff {cs : List Char} : a.matches? (.ofList cs) = true ↔ ∃ q, a.Reads (.start cs) q := by
  constructor
  · intro h
    by_contra hnone
    push Not at hnone
    rw [matches?_eq_false hnone] at h
    cases h
  · rintro ⟨q, hq⟩
    rw [← String.toList_ofList (l := cs)] at hq
    obtain ⟨found, hfound, -⟩ := exists_match? hq
    rw [matches?, hfound]
    rfl

end

section
variable {a b : Pattern} {p q : Place}

theorem reads_append : (a ++ b).Reads p q ↔ ∃ r, a.Reads p r ∧ b.Reads r q := Iff.rfl

theorem reads_exactly {c : Char} : (exactly c).Reads p q ↔ p.Past [c] q := by
  simp [exactly, Reads]

theorem reads_choice {as : List Pattern} : (choice as).Reads p q ↔ ∃ a ∈ as, a.Reads p q := by
  induction as with
  | nil => simp [choice, never, Reads]
  | cons a as ih =>
    cases as with
    | nil => simp [choice]
    | cons b as =>
      change a.Reads p q ∨ (choice (b :: as)).Reads p q ↔ _
      rw [ih]
      simp

theorem reads_word {s : String} : (word s).Reads p q ↔ p.Past s.toList q := by
  unfold word
  generalize s.toList = cs
  induction cs generalizing p with
  | nil => exact Place.Past.nil_iff.symm
  | cons c cs ih =>
    have hcons : p.Past (c :: cs) q ↔ ∃ r, p.Past [c] r ∧ r.Past cs q :=
      Place.Past.append_iff (v := [c])
    rw [hcons, List.map_cons, List.foldr_cons, Reads]
    simp only [reads_exactly, ih]

theorem reads_words {l : List String} : (words l).Reads p q ↔ ∃ s ∈ l, p.Past s.toList q := by
  simp [words, reads_choice, reads_word]

end

/-- A text is read on the way, and what is marked there is a piece of it. -/
structure Covers (p q : Place) (w : List Char) : Prop where
  ahead : p.ahead = w ++ q.ahead
  behind : q.behind = w.reverse ++ p.behind
  marks : ∀ m ∈ q.marks, m ∈ p.marks ∨ m.2 <:+: w

namespace Covers
variable {p q r : Place} {v w : List Char}

theorem of_past (h : p.Past w q) : Covers p q w where
  ahead := h.ahead
  behind := h.behind
  marks _ hm := .inl (h.marks ▸ hm)

theorem trans (h : Covers p q v) (h' : Covers q r w) : Covers p r (v ++ w) where
  ahead := by rw [h.ahead, h'.ahead, List.append_assoc]
  behind := by rw [h'.behind, h.behind, List.reverse_append, List.append_assoc]
  marks m hm := by
    rcases h'.marks m hm with hm | hm
    · exact (h.marks m hm).imp_right fun h => h.trans (List.prefix_append v w).isInfix
    · exact .inr (hm.trans (List.suffix_append v w).isInfix)

end Covers

theorem exists_covers {a : Pattern} {p q : Place} (h : a.Reads p q) : ∃ w, Covers p q w := by
  have hself : ∀ p : Place, Covers p p [] := fun p => .of_past (Place.Past.nil_iff.2 rfl)
  induction a generalizing p q with
  | empty =>
    obtain rfl : q = p := h
    exact ⟨[], hself q⟩
  | char accepts =>
    obtain ⟨c, -, h⟩ := h
    exact ⟨[c], .of_past h⟩
  | many least accepts =>
    obtain ⟨w, -, -, h⟩ := h
    exact ⟨w, .of_past h⟩
  | few least accepts =>
    obtain ⟨w, -, -, h⟩ := h
    exact ⟨w, .of_past h⟩
  | edge holds =>
    obtain ⟨rfl, -⟩ := h
    exact ⟨[], hself q⟩
  | seq a b iha ihb =>
    obtain ⟨r, ha, hb⟩ := h
    obtain ⟨v, hv⟩ := iha ha
    obtain ⟨w, hw⟩ := ihb hb
    exact ⟨v ++ w, hv.trans hw⟩
  | alt a b iha ihb => exact h.elim iha ihb
  | star a ih =>
    induction h with
    | refl => exact ⟨[], hself p⟩
    | tail _ hstep ih' =>
      obtain ⟨v, hv⟩ := ih'
      obtain ⟨w, hw⟩ := ih hstep.1
      exact ⟨v ++ w, hv.trans hw⟩
  | mark name a ih =>
    obtain ⟨r, hr, rfl⟩ := h
    obtain ⟨w, hw⟩ := ih hr
    refine ⟨w, hw.ahead, hw.behind, ?_⟩
    intro m hm
    rcases List.mem_cons.1 hm with rfl | hm
    · have hread : p.upTo r = w := by
        rw [Place.upTo, hw.behind]
        simp
      exact .inr (by rw [hread])
    · exact hw.marks m hm

/-- What is marked in a text is a piece of it. -/
theorem infix_of_match? {a : Pattern} {s text name : String} {q : Place} (h : a.match? s = some q)
    (hmark : q.mark? name = some text) : text.toList <:+: s.toList := by
  obtain ⟨w, hw⟩ := exists_covers (reads_of_match? h)
  obtain ⟨m, hm, rfl⟩ := Option.map_eq_some_iff.1 hmark
  obtain ⟨before, after, hmarks, -⟩ := List.lookup_eq_some_iff.1 hm
  have hmem : (name, m) ∈ q.marks := by simp [hmarks]
  rw [String.toList_ofList]
  rcases hw.marks _ hmem with hm | hm
  · cases hm
  · have hprefix : w <+: s.toList := ⟨q.ahead, hw.ahead.symm⟩
    exact hm.trans hprefix.isInfix

theorem exists_of_taken? {a : Pattern} {s w : String} (h : a.taken? s = some w) :
    ∃ q, a.Reads (.start s.toList) q ∧ w.toList = q.behind.reverse := by
  obtain ⟨q, hq, rfl⟩ := Option.map_eq_some_iff.1 h
  exact ⟨q, reads_of_match? hq, String.toList_ofList⟩

theorem prefix_of_taken? {a : Pattern} {s w : String} (h : a.taken? s = some w) :
    w.toList <+: s.toList := by
  obtain ⟨q, hq, hw⟩ := exists_of_taken? h
  obtain ⟨v, hv⟩ := exists_covers hq
  have hbehind : q.behind = v.reverse ++ [] := hv.behind
  rw [hw, hbehind, List.append_nil, List.reverse_reverse]
  exact ⟨q.ahead, hv.ahead.symm⟩

/-- The texts of a list. -/
def textsOf (l : List String) : Language Char := {w | ∃ s ∈ l, s.toList = w}

/-- The pattern reads the texts of a language, wherever it stands, and marks nothing. -/
def Spells (a : Pattern) (L : Language Char) : Prop := ∀ p q, a.Reads p q ↔ ∃ w ∈ L, p.Past w q

namespace Spells
variable {a b : Pattern} {L M : Language Char}

theorem of_mem_iff (h : a.Spells L) (hLM : ∀ w, w ∈ L ↔ w ∈ M) : a.Spells M := by
  intro p q
  simp only [h p q, hLM]

theorem word (s : String) : (word s).Spells {s.toList} := by
  intro p q
  rw [reads_word]
  constructor
  · exact fun h => ⟨_, rfl, h⟩
  · rintro ⟨_, rfl, h⟩
    exact h

theorem words (l : List String) : (words l).Spells (textsOf l) := by
  intro p q
  rw [reads_words]
  constructor
  · rintro ⟨s, hs, h⟩
    exact ⟨_, ⟨s, hs, rfl⟩, h⟩
  · rintro ⟨_, ⟨s, hs, rfl⟩, h⟩
    exact ⟨s, hs, h⟩

theorem char (accepts : Char → Bool) :
    (char accepts).Spells {w | ∃ c, accepts c = true ∧ [c] = w} := by
  intro p q
  constructor
  · rintro ⟨c, hc, h⟩
    exact ⟨_, ⟨c, hc, rfl⟩, h⟩
  · rintro ⟨_, ⟨c, hc, rfl⟩, h⟩
    exact ⟨c, hc, h⟩

theorem exactly (c : Char) : (exactly c).Spells {[c]} := by
  intro p q
  rw [reads_exactly]
  constructor
  · exact fun h => ⟨_, rfl, h⟩
  · rintro ⟨_, rfl, h⟩
    exact h

theorem many (least : Nat) (accepts : Char → Bool) :
    (many least accepts).Spells {w | least ≤ w.length ∧ ∀ c ∈ w, accepts c = true} := by
  intro p q
  constructor
  · rintro ⟨w, hn, hw, h⟩
    exact ⟨w, ⟨hn, hw⟩, h⟩
  · rintro ⟨w, ⟨hn, hw⟩, h⟩
    exact ⟨w, hn, hw, h⟩

theorem append (ha : a.Spells L) (hb : b.Spells M) : (a ++ b).Spells (L * M) := by
  intro p q
  simp only [reads_append, ha p, hb _ q, Language.mem_mul]
  constructor
  · rintro ⟨r, ⟨v, hv, hpv⟩, w, hw, hrw⟩
    exact ⟨v ++ w, ⟨v, hv, w, hw, rfl⟩, hpv.trans hrw⟩
  · rintro ⟨-, ⟨v, hv, w, hw, rfl⟩, h⟩
    obtain ⟨r, hpv, hrw⟩ := Place.Past.append_iff.1 h
    exact ⟨r, ⟨v, hv, hpv⟩, w, hw, hrw⟩

theorem alt (ha : a.Spells L) (hb : b.Spells M) : (alt a b).Spells (L + M) := by
  intro p q
  simp only [Reads, ha p q, hb p q, Language.mem_add, or_and_right, exists_or]

theorem choice {forms : List (Pattern × Language Char)} (h : ∀ x ∈ forms, x.1.Spells x.2) :
    (choice (forms.map (·.1))).Spells {w | ∃ x ∈ forms, w ∈ x.2} := by
  intro p q
  rw [reads_choice]
  constructor
  · rintro ⟨a, ha, hq⟩
    obtain ⟨x, hx, rfl⟩ := List.mem_map.1 ha
    obtain ⟨w, hw, hpast⟩ := (h x hx p q).1 hq
    exact ⟨w, ⟨x, hx, hw⟩, hpast⟩
  · rintro ⟨w, ⟨x, hx, hw⟩, hpast⟩
    exact ⟨x.1, List.mem_map_of_mem hx, (h x hx p q).2 ⟨w, hw, hpast⟩⟩

theorem optional (ha : a.Spells L) : (optional a).Spells (L + 1) := by
  refine ha.alt (b := .empty) ?_
  intro p q
  simp [Reads, Language.mem_one, Place.Past.nil_iff]

/-- As often as possible, where every text of the language takes the reading on. -/
theorem star (ha : a.Spells L) (hne : ∀ w ∈ L, w ≠ []) : (star a).Spells (KStar.kstar L) := by
  intro p q
  constructor
  · intro h
    induction h with
    | refl => exact ⟨[], Language.nil_mem_kstar L, Place.Past.nil_iff.2 rfl⟩
    | tail _ hstep ih =>
      obtain ⟨v, hv, hpast⟩ := ih
      obtain ⟨w, hw, hpast'⟩ := (ha _ _).1 hstep.1
      obtain ⟨pieces, rfl, hpieces⟩ := Language.mem_kstar.1 hv
      refine ⟨_, Language.mem_kstar.2 ⟨pieces ++ [w], rfl, ?_⟩, ?_⟩
      · rw [List.forall_mem_append, List.forall_mem_singleton]
        exact ⟨hpieces, hw⟩
      · rw [List.flatten_append, List.flatten_singleton]
        exact hpast.trans hpast'
  · rintro ⟨-, ⟨pieces, rfl, hpieces⟩, hpast⟩
    induction pieces generalizing p with
    | nil =>
      rw [List.flatten_nil, Place.Past.nil_iff] at hpast
      rw [hpast]
      exact .refl
    | cons w pieces ih =>
      rw [List.forall_mem_cons] at hpieces
      obtain ⟨r, hread, hrest⟩ := Place.Past.append_iff.1 hpast
      exact .head ⟨(ha p r).2 ⟨w, hpieces.1, hread⟩, hread.length_lt (hne w hpieces.1)⟩
        (ih r hpieces.2 hrest)

theorem reads (h : a.Spells L) {w : List Char} (hw : w ∈ L) (behind ahead : List Char)
    (marks : List (String × List Char)) :
    a.Reads ⟨behind, w ++ ahead, marks⟩ ⟨w.reverse ++ behind, ahead, marks⟩ :=
  (h _ _).2 ⟨w, hw, .intro behind w ahead marks⟩

end Spells

section
variable {α : Type} {k : Place → Option α} {x : α} {behind ahead : List Char}
  {marks : List (String × List Char)}

/-- Many characters: the rest is offered the last place first. -/
theorem run_many_append {least : Nat} {accepts : Char → Bool} {w : List Char}
    (hw : ∀ c ∈ w, accepts c = true) (hn : least ≤ w.length)
    (hstop : ∀ c ∈ ahead.head?, accepts c = false)
    (hk : k ⟨w.reverse ++ behind, ahead, marks⟩ = some x) :
    (many least accepts).run ⟨behind, w ++ ahead, marks⟩ k = some x := by
  obtain ⟨hlast, hlen⟩ := Place.getLast?_strides hw hstop behind marks
  have hdrop : ((Place.strides accepts ⟨behind, w ++ ahead, marks⟩).drop least).reverse.head? =
      some ⟨w.reverse ++ behind, ahead, marks⟩ := by
    rw [List.head?_reverse, List.getLast?_drop, if_neg (by omega), hlast]
  obtain ⟨before, hbefore⟩ := List.head?_eq_some_iff.1 hdrop
  rw [run, hbefore, List.findSome?_cons, hk]

theorem rounds_of_nil (a : Pattern) {p : Place} (hp : p.ahead = []) (n : Nat) :
    rounds a.run n p k = k p := by
  cases n with
  | zero => rfl
  | succ n =>
    have hnone : a.run p (fun _ => none (α := α)) = none := by
      cases h : a.run p (fun _ => none (α := α)) with
      | none => rfl
      | some x =>
        obtain ⟨q, -, hq⟩ := exists_reads h
        cases hq
    simp [rounds, hp, hnone]

/-- More rounds than characters ahead make no difference. -/
theorem rounds_eq (a : Pattern) {m n : Nat} {p : Place} (hm : p.ahead.length ≤ m)
    (hn : p.ahead.length ≤ n) : rounds a.run m p k = rounds a.run n p k := by
  induction m generalizing n p with
  | zero =>
    have hp : p.ahead = [] := List.length_eq_zero_iff.1 (Nat.le_zero.1 hm)
    rw [rounds_of_nil a hp, rounds_of_nil a hp]
  | succ m ih =>
    cases n with
    | zero =>
      have hp : p.ahead = [] := List.length_eq_zero_iff.1 (Nat.le_zero.1 hn)
      rw [rounds_of_nil a hp, rounds_of_nil a hp]
    | succ n =>
      rw [rounds, rounds]
      congr 2
      funext q
      split
      · exact ih (by omega) (by omega)
      · rfl

/-- One more round is preferred to none. -/
theorem run_star (a : Pattern) (p : Place) : (star a).run p k =
    ((a.run p fun q => if q.ahead.length < p.ahead.length then (star a).run q k else none) <|>
      k p) := by
  have hmore : (star a).run p k = rounds a.run (p.ahead.length + 1) p k :=
    rounds_eq a (Nat.le_refl _) (Nat.le_succ _)
  rw [hmore, rounds]
  congr 2
  funext q
  split
  · exact rounds_eq a (by omega) (Nat.le_refl _)
  · rfl

theorem run_star_of_not_reads {a : Pattern} {p : Place} (h : ∀ q, ¬ a.Reads p q) :
    (star a).run p k = k p := by
  rw [run_star, run_eq_none h]
  rfl

theorem run_star_of_run {a : Pattern} {p : Place}
    (h : (a.run p fun q => if q.ahead.length < p.ahead.length then (star a).run q k else none) =
      some x) : (star a).run p k = some x := by
  rw [run_star, h]
  rfl

/-- Pieces that the body reads one after the other are all read, if reading on behind them succeeds.
What may follow a piece is `stop`. -/
theorem run_star_pieces {a : Pattern} (stop : List Char → Prop) {pieces : List (List Char)}
    (hne : ∀ w ∈ pieces, w ≠ [])
    (hread : ∀ w ∈ pieces, ∀ behind rest (k : Place → Option α) x, stop rest →
      k ⟨w.reverse ++ behind, rest, marks⟩ = some x →
        a.run ⟨behind, w ++ rest, marks⟩ k = some x)
    (hnext : ∀ w ∈ pieces, ∀ rest, stop (w ++ rest)) (hahead : stop ahead)
    (hk : (star a).run ⟨pieces.flatten.reverse ++ behind, ahead, marks⟩ k = some x) :
    (star a).run ⟨behind, pieces.flatten ++ ahead, marks⟩ k = some x := by
  induction pieces generalizing behind with
  | nil => exact hk
  | cons w pieces ih =>
    have hmem : w ∈ w :: pieces := List.mem_cons_self
    have hstop : stop (pieces.flatten ++ ahead) := by
      cases pieces with
      | nil => exact hahead
      | cons v pieces =>
        rw [List.flatten_cons, List.append_assoc]
        exact hnext v (List.mem_cons_of_mem w List.mem_cons_self) _
    rw [List.flatten_cons, List.append_assoc]
    refine run_star_of_run (hread w hmem behind _ _ _ hstop ?_)
    have hlt : (pieces.flatten ++ ahead).length < (w ++ (pieces.flatten ++ ahead)).length := by
      have hpos : 0 < w.length := List.length_pos_iff.2 (hne w hmem)
      simp only [List.length_append]
      omega
    simp only [hlt, if_true]
    refine ih (fun v hv => hne v (List.mem_cons_of_mem w hv))
      (fun v hv => hread v (List.mem_cons_of_mem w hv))
      (fun v hv => hnext v (List.mem_cons_of_mem w hv)) ?_
    rwa [List.flatten_cons, List.reverse_append, List.append_assoc] at hk

/-- Pieces that the body reads one after the other are all read, if it reads nothing behind them. -/
theorem run_star_flatten {a : Pattern} (stop : List Char → Prop) {pieces : List (List Char)}
    (hne : ∀ w ∈ pieces, w ≠ [])
    (hread : ∀ w ∈ pieces, ∀ behind rest (k : Place → Option α) x, stop rest →
      k ⟨w.reverse ++ behind, rest, marks⟩ = some x →
        a.run ⟨behind, w ++ rest, marks⟩ k = some x)
    (hnext : ∀ w ∈ pieces, ∀ rest, stop (w ++ rest)) (hahead : stop ahead)
    (hnone : ∀ behind q, ¬ a.Reads ⟨behind, ahead, marks⟩ q)
    (hk : k ⟨pieces.flatten.reverse ++ behind, ahead, marks⟩ = some x) :
    (star a).run ⟨behind, pieces.flatten ++ ahead, marks⟩ k = some x :=
  run_star_pieces stop hne hread hnext hahead ((run_star_of_not_reads (hnone _)).trans hk)

theorem run_char_cons {accepts : Char → Bool} {c : Char} (hc : accepts c = true) :
    (char accepts).run ⟨behind, c :: ahead, marks⟩ k = k ⟨c :: behind, ahead, marks⟩ := by
  simp [run, hc]

theorem run_exactly_cons (c : Char) :
    (exactly c).run ⟨behind, c :: ahead, marks⟩ k = k ⟨c :: behind, ahead, marks⟩ :=
  run_char_cons (beq_self_eq_true c)

theorem taken?_of_run {a : Pattern} {w rest : List Char}
    (h : a.run ⟨[], w ++ rest, []⟩ some = some ⟨w.reverse ++ [], rest, []⟩) :
    a.taken? (.ofList (w ++ rest)) = some (.ofList w) := by
  rw [taken?, match?, matchAt?, Place.start, String.toList_ofList, h]
  simp

end

end Pattern
end SoliditySession
