import Mathlib.Data.List.Basic
import SoliditySession.Pattern
/- How patterns run: for each way of building a pattern, what the rest of the match is offered. -/
namespace SoliditySession

namespace Place

/-- What is marked from one place to a later one is what was read in between. -/
theorem upTo_append (read behind ahead ahead' : List Char)
    (marks marks' : List (String × List Char)) :
    upTo ⟨behind, ahead, marks⟩ ⟨read.reverse ++ behind, ahead', marks'⟩ = read := by
  simp [upTo]

theorem strides_go_congr (accepts : Char → Bool) {p q : Place} (h : p.marks = q.marks)
    (behind ahead : List Char) :
    strides.go accepts p behind ahead = strides.go accepts q behind ahead := by
  induction ahead generalizing behind with
  | nil => simp only [strides.go, h]
  | cons c cs ih => simp only [strides.go, h, ih]

theorem strides_nil (accepts : Char → Bool) (behind : List Char)
    (marks : List (String × List Char)) :
    strides accepts ⟨behind, [], marks⟩ = [⟨behind, [], marks⟩] := rfl

theorem strides_cons (accepts : Char → Bool) (behind : List Char) (c : Char) (cs : List Char)
    (marks : List (String × List Char)) :
    strides accepts ⟨behind, c :: cs, marks⟩ = ⟨behind, c :: cs, marks⟩ ::
      if accepts c then strides accepts ⟨c :: behind, cs, marks⟩ else [] := by
  simp only [strides, strides.go]
  rw [strides_go_congr accepts (p := ⟨behind, c :: cs, marks⟩) (q := ⟨c :: behind, cs, marks⟩) rfl]

end Place

namespace Pattern
variable {α : Type} (k : Place → Option α) (behind : List Char)
  (marks : List (String × List Char))

@[simp] theorem run_append (a b : Pattern) (p : Place) :
    (a ++ b).run p k = a.run p fun q => b.run q k := rfl

@[simp] theorem run_mark (name : String) (a : Pattern) (p : Place) :
    (mark name a).run p k =
      a.run p fun q => k ⟨q.behind, q.ahead, (name, p.upTo q) :: q.marks⟩ := rfl

/-- The first alternative that lets the rest succeed is taken. -/
theorem run_choice (as : List Pattern) (p : Place) :
    (choice as).run p k = as.findSome? fun a => a.run p k := by
  induction as with
  | nil => cases h : p.ahead <;> simp [choice, never, run, h]
  | cons a as ih =>
      cases as with
      | nil => cases h : a.run p k <;> simp [choice, h]
      | cons b as =>
          rw [List.findSome?_cons, ← ih]
          cases h : a.run p k <;> simp [choice, run, h]

/-- A word is read off a text that begins with it. -/
theorem run_word_append (s : String) (ahead : List Char) :
    (word s).run ⟨behind, s.toList ++ ahead, marks⟩ k =
      k ⟨s.toList.reverse ++ behind, ahead, marks⟩ := by
  unfold word
  generalize s.toList = cs
  induction cs generalizing behind with
  | nil => rfl
  | cons c cs ih =>
      have hc : (exactly c).run ⟨behind, c :: (cs ++ ahead), marks⟩ =
          fun k : Place → Option α => k ⟨c :: behind, cs ++ ahead, marks⟩ := by
        funext k
        simp [exactly, run]
      simp only [List.map_cons, List.foldr_cons, List.cons_append, run, hc, ih,
        List.reverse_cons, List.append_assoc]
      rfl

theorem run_word_of_not_prefix {s : String} {p : Place} (h : ¬ s.toList <+: p.ahead) :
    (word s).run p k = none := by
  obtain ⟨behind, ahead, marks⟩ := p
  unfold word
  generalize s.toList = cs at h
  induction cs generalizing behind ahead with
  | nil => exact absurd (List.nil_prefix (l := ahead)) h
  | cons c cs ih =>
      cases ahead with
      | nil => rfl
      | cons c' ahead =>
          by_cases hc : c' = c
          · subst hc
            have hcs : ¬ cs <+: ahead := fun hcs => h (List.cons_prefix_cons.2 ⟨rfl, hcs⟩)
            simpa [exactly, run] using ih (c' :: behind) ahead hcs
          · simp [exactly, run, hc]

theorem run_few_cons_succ (n : Nat) {accepts : Char → Bool} {c : Char} (hc : accepts c = true)
    (cs : List Char) : (few (n + 1) accepts).run ⟨behind, c :: cs, marks⟩ k =
      (few n accepts).run ⟨c :: behind, cs, marks⟩ k := by
  simp [run, Place.strides_cons, hc]

/-- Few characters: the rest is offered the place at hand before another character is read. -/
theorem run_few_zero_of_some (accepts : Char → Bool) {p : Place} {x : α} (h : k p = some x) :
    (few 0 accepts).run p k = some x := by
  obtain ⟨behind, ahead, marks⟩ := p
  cases ahead with
  | nil => simp [run, Place.strides_nil, h]
  | cons c cs => simp [run, Place.strides_cons, h]

theorem run_few_zero_cons_of_none {accepts : Char → Bool} {c : Char} {cs : List Char}
    (h : k ⟨behind, c :: cs, marks⟩ = none) (hc : accepts c = true) :
    (few 0 accepts).run ⟨behind, c :: cs, marks⟩ k =
      (few 0 accepts).run ⟨c :: behind, cs, marks⟩ k := by
  simp [run, Place.strides_cons, h, hc]

/-- Characters are read up to the first place that the rest takes. -/
theorem run_few_zero_append {accepts : Char → Bool} {read ahead : List Char} {x : α}
    (hread : ∀ c ∈ read, accepts c = true)
    (hbefore : ∀ a b, read = a ++ b → b ≠ [] → k ⟨a.reverse ++ behind, b ++ ahead, marks⟩ = none)
    (hend : k ⟨read.reverse ++ behind, ahead, marks⟩ = some x) :
    (few 0 accepts).run ⟨behind, read ++ ahead, marks⟩ k = some x := by
  induction read generalizing behind with
  | nil => exact run_few_zero_of_some k accepts hend
  | cons c read ih =>
      have hc : accepts c = true := hread c List.mem_cons_self
      have hnone : k ⟨behind, c :: (read ++ ahead), marks⟩ = none :=
        hbefore [] (c :: read) rfl (List.cons_ne_nil c read)
      rw [List.cons_append, run_few_zero_cons_of_none k behind marks hnone hc]
      apply ih (c :: behind) (fun c' hc' => hread c' (List.mem_cons_of_mem c hc'))
      · intro a b hab hb
        simpa using hbefore (c :: a) b (by rw [hab]; rfl) hb
      · simpa using hend

end Pattern
end SoliditySession
