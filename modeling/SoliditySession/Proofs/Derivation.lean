import SoliditySession.Proofs.DataLocation
import SoliditySession.Proofs.Ladder
import SoliditySession.Proofs.TypeReading
/- The specifications that corrections lead to from the guess, and what all of them have in common. -/
namespace SoliditySession
open Pattern Solidity

/-- What the guess for a session becomes by corrections that diagnostics ask for. -/
inductive Derived (options : UnitOptions) (statements : List Statement) : ReturnSpec → Prop
  | guess : Derived options statements (.guess options statements)
  | corrected {d : Diagnostic} {c : Correction} {spec next : ReturnSpec} :
      Derived options statements spec → Corrects .solidity d c spec next →
      Derived options statements next

/-- The expression returned is the one that reads back the last statement, or there is none. -/
theorem Derived.expression_eq {options : UnitOptions} {statements : List Statement}
    {spec : ReturnSpec} (h : Derived options statements spec) :
    spec.expression = none ∨ spec.expression = returnExpression statements := by
  induction h with
  | guess => exact .inr rfl
  | corrected _ hc ih =>
    cases hc with
    | type => exact ih
    | noValue => exact .inl rfl
    | mutability => exact ih

def OneLine (s : String) : Prop := '\n' ∉ s.toList

instance (s : String) : Decidable (OneLine s) := inferInstanceAs (Decidable ('\n' ∉ s.toList))

theorem oneLine_of_subset {s t : String} (hs : OneLine s) (h : t.toList ⊆ s.toList) : OneLine t :=
  fun hmem => hs (h hmem)

theorem oneLine_append {s t : String} (hs : OneLine s) (ht : OneLine t) : OneLine (s ++ t) := by
  rw [OneLine, String.toList_append, List.mem_append]
  exact fun h => h.elim hs ht

theorem Pattern.mem_replaced {a : Pattern} {new : String} {behind ahead : List Char} {c : Char}
    (hadvance : ∀ p q, a.Reads p q → q.ahead.length < p.ahead.length)
    (h : c ∈ a.replaced new behind ahead) : c ∈ new.toList ∨ c ∈ ahead := by
  generalize hn : ahead.length = n
  induction n using Nat.strong_induction_on generalizing behind ahead with
  | _ n ih =>
    cases hs : a.search behind ahead with
    | none => exact .inr (by rwa [replaced_of_none hs] at h)
    | some found =>
      obtain ⟨p, q⟩ := found
      obtain ⟨hsuffix, hmatch⟩ := exists_of_search hs
      have hlt := lt_of_search hadvance hs
      obtain ⟨w, hw⟩ := exists_covers (reads_of_matchAt? hmatch)
      have hq : q.ahead <:+ ahead := (List.suffix_append w q.ahead).trans (hw.ahead ▸ hsuffix)
      rw [replaced_of_search hs hlt, List.mem_append, List.mem_append] at h
      rcases h with h | h | h
      · exact .inr (List.take_subset _ _ h)
      · exact .inl h
      · exact (ih _ (by omega) h rfl).imp_right fun hc => hq.subset hc

theorem oneLine_trim {s : String} (h : OneLine s) : OneLine (Text.trim s) := by
  refine oneLine_of_subset h fun c hc => ?_
  rw [Text.trim, String.toList_ofList, Text.dropBlankEnd, List.mem_reverse] at hc
  have hdrop := List.mem_reverse.1 (List.dropWhile_subset _ hc)
  exact List.dropWhile_subset _ hdrop

theorem oneLine_withoutInnerLocations {s : String} (h : OneLine s) :
    OneLine (withoutInnerLocations s) := by
  intro hmem
  rw [withoutInnerLocations, replaceAll_eq, String.toList_ofList] at hmem
  rcases Pattern.mem_replaced advance_inner hmem with hmem | hmem
  · exact absurd hmem (by decide)
  · exact h hmem

theorem ReturnFix.oneLine_ofReported? {s t : String} (hs : OneLine s)
    (h : ofReported? s = some (.type t)) : OneLine t := by
  have hreported := oneLine_withoutInnerLocations (oneLine_trim hs)
  have hlocations : ∀ l ∈ ["", " calldata", " memory"], OneLine l := by decide
  rcases exists_of_ofReported? h with ⟨-, rfl⟩ | ⟨b, hb, rfl⟩
  · decide
  · obtain ⟨l, hl, heq, -⟩ := exists_location_withLocation
      (withoutInnerLocations (Text.trim s)) (splitQualifier (withoutInnerLocations (Text.trim s))).1 b
    rw [heq]
    exact oneLine_append (oneLine_of_subset hreported (infix_of_base? hb).subset) (hlocations l hl)

/-- The type in the message stands on one line, so what is made of it does. -/
theorem Interpreter.oneLine_returnFix? {d : Diagnostic} {t : String}
    (h : solidity.returnFix? d = some (.type t)) : OneLine t := by
  obtain ⟨reported, hmark, hfix⟩ := Option.bind_eq_some_iff.1 h
  obtain ⟨q, hq, hmark⟩ := Option.bind_eq_some_iff.1 hmark
  refine ReturnFix.oneLine_ofReported? ?_ hfix
  obtain ⟨r, ⟨p, hp, s, ⟨w, -, hw, hpast⟩, rfl⟩, hend⟩ := reads_of_match? hq
  have hmarks : q.marks = [("type", w)] := by
    rw [(reads_word.1 hend).marks]
    change (_, p.upTo s) :: s.marks = _
    rw [hpast.upTo_eq, hpast.marks, (reads_word.1 hp).marks]
    rfl
  rw [Place.mark?, hmarks] at hmark
  obtain rfl : .ofList w = reported := Option.some.inj hmark
  intro hmem
  rw [String.toList_ofList] at hmem
  exact absurd (hw _ hmem) (by decide)

theorem Derived.oneLine_returnType {options : UnitOptions} {statements : List Statement}
    {spec : ReturnSpec} (hoptions : OneLine options.placeholderType)
    (h : Derived options statements spec) : OneLine spec.returnType := by
  induction h with
  | guess => exact hoptions
  | corrected _ hc ih =>
    cases hc with
    | type hfix => exact Interpreter.oneLine_returnFix? hfix
    | noValue => exact ih
    | mutability => exact ih

end SoliditySession
