import SoliditySession.Solidity.Lexical
import Mathlib.Algebra.Ring.Int.Defs
import Mathlib.Algebra.Ring.Nat
import Mathlib.Data.List.Basic
import Mathlib.Data.List.Infix
/- Counting brackets against matching them: as long as the brackets of a text can be closed in order,
more of them are opened than closed just if one is still open. -/
namespace SoliditySession.Solidity

/-- The inside of a literal: a backslash takes the next character along. -/
inductive Inside (quote : Char) : List Char → Prop
  | nil : Inside quote []
  | plain {c : Char} {cs : List Char} : c ≠ '\\' → c ≠ '\n' → c ≠ quote → Inside quote cs →
      Inside quote (c :: cs)
  | escaped {c : Char} {cs : List Char} : Inside quote cs → Inside quote ('\\' :: c :: cs)

/-- A text and its characters outside literals and comments. -/
inductive Outside : List Char → List Char → Prop
  | nil : Outside [] []
  | plain {c : Char} {cs out : List Char} : c ≠ '"' → c ≠ '\'' → (c = '/' → cs.head? ≠ some '/') →
      Outside cs out → Outside (c :: cs) (c :: out)
  | comment {body cs out : List Char} : '\n' ∉ body → Outside cs out →
      Outside ('/' :: '/' :: (body ++ '\n' :: cs)) out
  | lastComment {body : List Char} : '\n' ∉ body → Outside ('/' :: '/' :: body) []
  | literal {q stop : Char} {body cs out : List Char} : q = '"' ∨ q = '\'' → Inside q body →
      stop = q ∨ stop = '\n' → Outside cs out → Outside (q :: (body ++ stop :: cs)) out
  | openLiteral {q : Char} {body : List Char} : q = '"' ∨ q = '\'' → Inside q body →
      Outside (q :: body) []
  | openEscape {q : Char} {body : List Char} : q = '"' ∨ q = '\'' → Inside q body →
      Outside (q :: (body ++ ['\\'])) []

theorem Inside.append {q : Char} {cs ds : List Char} (h : Inside q cs) (h' : Inside q ds) :
    Inside q (cs ++ ds) := by
  induction h with
  | nil => exact h'
  | plain hback hline hquote _ ih => exact .plain hback hline hquote ih
  | escaped _ ih => exact .escaped ih

theorem codeFrom_inside {q : Char} {body : List Char} (h : Inside q body) (cs : List Char) :
    codeFrom (.literal q) (body ++ cs) = codeFrom (.literal q) cs := by
  induction h with
  | nil => rfl
  | plain hback hline hquote _ ih => simp [codeFrom, Zone.next, hback, hline, hquote, ih]
  | escaped _ ih => simp [codeFrom, Zone.next, ih]

theorem codeFrom_comment {body : List Char} (h : '\n' ∉ body) (cs : List Char) :
    codeFrom .comment (body ++ cs) = codeFrom .comment cs := by
  induction body with
  | nil => rfl
  | cons c body ih =>
    rw [List.mem_cons, not_or] at h
    simp [codeFrom, Zone.next, Ne.symm h.1, ih h.2]

theorem codeFrom_slashes (cs : List Char) :
    codeFrom .code ('/' :: '/' :: cs) = codeFrom .comment cs := by
  simp [codeFrom, Zone.next]

theorem codeFrom_quote {q : Char} (hq : q = '"' ∨ q = '\'') (cs : List Char) :
    codeFrom .code (q :: cs) = codeFrom (.literal q) cs := by
  simp [codeFrom, Zone.next, hq]

/-- What is read from a zone on completes what was read of the piece before it. -/
def Zone.Completes (out : List Char) : Zone → List Char → Prop
  | .code, cs => Outside cs out
  | .literal q, cs => q = '"' ∨ q = '\'' → ∀ body, Inside q body → Outside (q :: (body ++ cs)) out
  | .escape q, cs => q = '"' ∨ q = '\'' → ∀ body, Inside q body →
      Outside (q :: (body ++ '\\' :: cs)) out
  | .comment, cs => ∀ body, '\n' ∉ body → (body ++ cs).head? = some '/' →
      Outside ('/' :: (body ++ cs)) out

/-- One character more is completed by what completes the rest. -/
theorem completes_cons {z : Zone} {c : Char} {cs out : List Char}
    (h : (z.next c cs.head?).Completes out cs) :
    z.Completes (if z = .code ∧ z.next c cs.head? = .code then c :: out else out) (c :: cs) := by
  cases z with
  | code =>
    by_cases hquote : (c == '"' || c == '\'') = true
    · have hnext : Zone.code.next c cs.head? = .literal c := if_pos hquote
      rw [hnext] at h
      rw [hnext, if_neg fun hcode => Zone.noConfusion hcode.2]
      rw [Bool.or_eq_true, beq_iff_eq, beq_iff_eq] at hquote
      exact h hquote [] .nil
    by_cases hslash : (c == '/' && cs.head? == some '/') = true
    · have hnext : Zone.code.next c cs.head? = .comment := by
        rw [Zone.next, if_neg hquote, if_pos hslash]
      rw [hnext] at h
      rw [hnext, if_neg fun hcode => Zone.noConfusion hcode.2]
      rw [Bool.and_eq_true, beq_iff_eq, beq_iff_eq] at hslash
      obtain ⟨rfl, hfollowing⟩ := hslash
      exact h [] List.not_mem_nil hfollowing
    · have hnext : Zone.code.next c cs.head? = .code := by
        rw [Zone.next, if_neg hquote, if_neg hslash]
      rw [hnext] at h
      rw [hnext, if_pos ⟨rfl, rfl⟩]
      simp only [Bool.or_eq_true, beq_iff_eq, not_or, Bool.and_eq_true, not_and] at hquote hslash
      exact .plain hquote.1 hquote.2 hslash h
  | literal q =>
    rw [if_neg fun hcode => Zone.noConfusion hcode.1]
    simp only [Zone.next] at h
    split at h
    · next hback =>
      rw [beq_iff_eq] at hback
      subst hback
      exact h
    · next hback =>
      split at h
      · next hstop =>
        rw [Bool.or_eq_true, beq_iff_eq, beq_iff_eq] at hstop
        exact fun hq body hbody => .literal hq hbody hstop.symm h
      · next hstop =>
        simp only [Bool.or_eq_true, beq_iff_eq, not_or] at hback hstop
        intro hq body hbody
        have hnext := h hq (body ++ [c]) (hbody.append (.plain hback hstop.1 hstop.2 .nil))
        rwa [List.append_assoc] at hnext
  | escape q =>
    rw [if_neg fun hcode => Zone.noConfusion hcode.1]
    intro hq body hbody
    have hnext := h hq (body ++ ['\\', c]) (hbody.append (.escaped .nil))
    rwa [List.append_assoc] at hnext
  | comment =>
    rw [if_neg fun hcode => Zone.noConfusion hcode.1]
    simp only [Zone.next] at h
    split at h
    · next hline =>
      rw [beq_iff_eq] at hline
      subst hline
      intro body hbody hslash
      cases body with
      | nil => cases hslash
      | cons d body =>
        obtain rfl : d = '/' := Option.some.inj hslash
        exact .comment (fun hmem => hbody (List.mem_cons_of_mem _ hmem)) h
    · next hline =>
      rw [beq_iff_eq] at hline
      intro body hbody hslash
      have hcut : body ++ [c] ++ cs = body ++ c :: cs := by simp
      have hnext := h (body ++ [c]) (by simpa [hbody] using Ne.symm hline) (by rwa [hcut])
      rwa [hcut] at hnext

theorem completes_codeFrom (z : Zone) (cs : List Char) : z.Completes (codeFrom z cs) cs := by
  induction cs generalizing z with
  | nil =>
    cases z with
    | code => exact .nil
    | literal q =>
      intro hq body hbody
      rw [List.append_nil]
      exact .openLiteral hq hbody
    | escape q => exact fun hq body hbody => .openEscape hq hbody
    | comment =>
      intro body hbody hslash
      rw [List.append_nil] at hslash ⊢
      obtain ⟨body, rfl⟩ := List.head?_eq_some_iff.1 hslash
      exact .lastComment fun hmem => hbody (List.mem_cons_of_mem _ hmem)
  | cons c cs ih => exact completes_cons (ih _)

/-- The code of a text is what stands outside its literals and comments. -/
theorem outside_iff {cs out : List Char} : Outside cs out ↔ codeFrom .code cs = out := by
  constructor
  · intro h
    induction h with
    | nil => rfl
    | plain hdouble hsingle hslash _ ih =>
      have hcomment : ¬ (_ ∧ _) := not_and.2 hslash
      simp [codeFrom, Zone.next, hdouble, hsingle, hcomment, ih]
    | @comment body _ _ hbody _ ih =>
      rw [codeFrom_slashes, codeFrom_comment hbody, ← ih]
      rfl
    | @lastComment body hbody =>
      rw [codeFrom_slashes, ← List.append_nil body, codeFrom_comment hbody]
      rfl
    | @literal q stop body cs out hq hbody hstop _ ih =>
      have hback : stop ≠ '\\' := by
        rcases hstop with rfl | rfl
        · rcases hq with rfl | rfl <;> decide
        · decide
      rw [codeFrom_quote hq, codeFrom_inside hbody]
      simp [codeFrom, Zone.next, hback, hstop.symm, ih]
    | @openLiteral q body hq hbody =>
      rw [codeFrom_quote hq, ← List.append_nil body, codeFrom_inside hbody]
      rfl
    | openEscape hq hbody =>
      rw [codeFrom_quote hq, codeFrom_inside hbody]
      rfl
  · rintro rfl
    exact completes_codeFrom .code cs

/-- Sequences of brackets in which each is closed by one of its kind. -/
inductive Nested : List Char → Prop
  | nil : Nested []
  | pair {a b : Char} {u v : List Char} : Pairs a b → Nested u → Nested v →
      Nested (a :: (u ++ b :: v))

theorem Pairs.isOpening {a b : Char} (h : Pairs a b) : isOpening a = true := by
  cases h <;> rfl

theorem Pairs.isClosing {a b : Char} (h : Pairs a b) : isClosing b = true := by
  cases h <;> rfl

theorem isClosing_of_isOpening {c : Char} (h : isOpening c = true) : isClosing c = false := by
  simp only [Solidity.isOpening, Bool.or_eq_true, beq_iff_eq] at h
  rcases h with (rfl | rfl) | rfl <;> rfl

theorem isOpening_of_isClosing {c : Char} (h : isClosing c = true) : isOpening c = false := by
  simp only [Solidity.isClosing, Bool.or_eq_true, beq_iff_eq] at h
  rcases h with (rfl | rfl) | rfl <;> rfl

theorem Nested.append {u v : List Char} (hu : Nested u) (hv : Nested v) : Nested (u ++ v) := by
  induction hu with
  | nil => exact hv
  | pair hpair hinside _ _ ih =>
    rw [List.cons_append, List.append_assoc]
    exact .pair hpair hinside ih

theorem Nests.append {s t r cs ds : List Char} (h : Nests s cs t) (h' : Nests t ds r) :
    Nests s (cs ++ ds) r := by
  induction h with
  | nil => exact h'
  | opens hc _ ih => exact .opens hc (ih h')
  | closes hpair _ ih => exact .closes hpair (ih h')
  | passes hopen hclose _ ih => exact .passes hopen hclose (ih h')

/-- A text is read in two parts. -/
theorem exists_nests_of_append {s r cs ds : List Char} (h : Nests s (cs ++ ds) r) :
    ∃ t, Nests s cs t ∧ Nests t ds r := by
  induction cs generalizing s with
  | nil => exact ⟨s, .nil s, h⟩
  | cons c cs ih =>
    cases h with
    | opens hc h =>
      obtain ⟨t, ht, hr⟩ := ih h
      exact ⟨t, .opens hc ht, hr⟩
    | closes hpair h =>
      obtain ⟨t, ht, hr⟩ := ih h
      exact ⟨t, .closes hpair ht, hr⟩
    | passes hopen hclose h =>
      obtain ⟨t, ht, hr⟩ := ih h
      exact ⟨t, .passes hopen hclose ht, hr⟩

theorem Nested.nests {b : List Char} (h : Nested b) (stack : List Char) : Nests stack b stack := by
  induction h generalizing stack with
  | nil => exact .nil stack
  | pair hpair _ _ hinside hbehind =>
    exact .opens hpair.isOpening ((hinside _).append (.closes hpair (hbehind stack)))

/-- Text that closes the brackets of the stack, one after the other, and no others. -/
def Unwinds : List Char → List Char → Prop
  | [], cs => Nested cs
  | a :: stack, cs => ∃ u b v, cs = u ++ b :: v ∧ Nested u ∧ Pairs a b ∧ Unwinds stack v

theorem Unwinds.nested_append {stack u cs : List Char} (hu : Nested u) (h : Unwinds stack cs) :
    Unwinds stack (u ++ cs) := by
  cases stack with
  | nil => exact hu.append h
  | cons a stack =>
    obtain ⟨v, b, w, rfl, hv, hpair, hw⟩ := h
    exact ⟨u ++ v, b, w, (List.append_assoc u v _).symm, hu.append hv, hpair, hw⟩

theorem Nests.unwinds {stack b : List Char} (h : Nests stack b [])
    (hb : ∀ c ∈ b, isNesting c = true) : Unwinds stack b := by
  generalize hempty : ([] : List Char) = last at h
  induction h with
  | nil =>
    subst hempty
    exact .nil
  | @opens stack cs last c hc _ ih =>
    obtain ⟨u, d, v, rfl, hu, hpair, hv⟩ := ih (fun x hx => hb x (List.mem_cons_of_mem _ hx)) hempty
    have hclosed : Nested (c :: (u ++ [d])) := .pair hpair hu .nil
    have hrest := hv.nested_append hclosed
    rwa [List.cons_append, List.append_assoc] at hrest
  | closes hpair _ ih =>
    exact ⟨[], _, _, rfl, .nil, hpair, ih (fun x hx => hb x (List.mem_cons_of_mem _ hx)) hempty⟩
  | passes hopen hclose _ _ =>
    have hnesting := hb _ List.mem_cons_self
    rw [isNesting, hopen, hclose] at hnesting
    cases hnesting

/-- Brackets are in order just if nothing stays open when they are matched with a stack. -/
theorem nested_iff_nests {b : List Char} (hb : ∀ c ∈ b, isNesting c = true) :
    Nested b ↔ Nests [] b [] :=
  ⟨fun h => h.nests [], fun h => h.unwinds hb⟩

/-- Each step of the matching moves the counter as it moves the height of the stack. -/
theorem Nests.depth_eq {s cs t : List Char} (h : Nests s cs t) :
    depth cs = (t.length : Int) - s.length := by
  induction h with
  | nil stack => simp [depth]
  | opens hc _ ih =>
    have hclose := isClosing_of_isOpening hc
    simp only [depth, List.countP_cons, hc, hclose, List.length_cons, if_true, Bool.false_eq_true,
      if_false] at ih ⊢
    omega
  | closes hpair _ ih =>
    have hclose := hpair.isClosing
    have hopen := isOpening_of_isClosing hclose
    simp only [depth, List.countP_cons, hopen, hclose, List.length_cons, if_true,
      Bool.false_eq_true, if_false] at ih ⊢
    omega
  | passes hopen hclose _ ih => simpa [depth, List.countP_cons, hopen, hclose] using ih

theorem isNesting_of_mem_bracketsOf {cs : List Char} : ∀ c ∈ bracketsOf cs, isNesting c = true :=
  fun _ hc => (List.mem_filter.1 hc).2

theorem isNesting_of_isOpening {c : Char} (h : isOpening c = true) : isNesting c = true := by
  rw [isNesting, h, Bool.true_or]

theorem isNesting_of_isClosing {c : Char} (h : isClosing c = true) : isNesting c = true := by
  rw [isNesting, h, Bool.or_true]

theorem depth_bracketsOf (cs : List Char) : depth (bracketsOf cs) = depth cs := by
  have hopen : ∀ c, (isOpening c && isNesting c) = isOpening c := fun c => by
    simpa using isNesting_of_isOpening
  have hclose : ∀ c, (isClosing c && isNesting c) = isClosing c := fun c => by
    simpa using isNesting_of_isClosing
  simp only [depth, bracketsOf, List.countP_filter, hopen, hclose]

/-- While the brackets outside literals and comments can be closed in order, more input is needed
just if they are not in order yet, which is when one is open; and of fewer than 2 ^ 31 brackets
the count stays a signed number of 32 bits all along. -/
theorem needsMore_iff_not_nested {text : String} {out : List Char}
    (hout : Outside text.toList out) (hfew : (bracketsOf out).length < 2 ^ 31)
    (hclosed : ∃ rest, Nested (bracketsOf out ++ rest)) :
    (needsMore text = true ↔ ¬ Nested (bracketsOf out)) ∧
      (∃ stack, Nests [] (bracketsOf out) stack ∧ (needsMore text = true ↔ stack ≠ [])) ∧
      ∀ before, before <+: out → -2 ^ 31 ≤ depth before ∧ depth before < 2 ^ 31 := by
  obtain ⟨rest, hrest⟩ := hclosed
  obtain ⟨stack, hstack, -⟩ := exists_nests_of_append (hrest.nests [])
  have hdepth : depth (code text) = stack.length := by
    rw [code, outside_iff.1 hout, ← depth_bracketsOf, hstack.depth_eq]
    simp
  have hfew' : (bracketsOf (code text)).length < Nat.pow 2 31 := by
    rw [code, outside_iff.1 hout]
    exact hfew
  have hopen : needsMore text = true ↔ stack ≠ [] := by
    rw [needsMore_iff hfew', hdepth, Int.natCast_pos, List.length_pos_iff]
  refine ⟨hopen.trans (not_congr ?_), ⟨stack, hstack, hopen⟩, fun before hbefore => ?_⟩
  · constructor
    · rintro rfl
      exact (nested_iff_nests isNesting_of_mem_bracketsOf).2 hstack
    · intro hnested
      have hempty := (hnested.nests []).depth_eq
      rw [hstack.depth_eq] at hempty
      exact List.length_eq_zero_iff.1 (by simpa using hempty)
  · have hle := natAbs_depth_le hbefore
    omega

/-- Brackets in a literal and in a comment do not close the list. -/
theorem needsMore_open_list : Nested (bracketsOf "([".toList ++ "])".toList) ∧
    (needsMore "f(\")\\\"]\", [3 // ])" = true ↔ ¬ Nested (bracketsOf "([".toList)) := by
  have hnested : Nested (bracketsOf "([".toList ++ "])".toList) :=
    .pair (u := "[]".toList) .round (.pair (u := []) .square .nil .nil) .nil
  have hout : Outside "f(\")\\\"]\", [3 // ])".toList "f(, [3 ".toList :=
    outside_iff.2 (by decide)
  exact ⟨hnested, (needsMore_iff_not_nested hout (by decide) ⟨_, hnested⟩).1⟩

end SoliditySession.Solidity
