import SoliditySession.Diagnostic.Signal
import SoliditySession.Proofs.Pattern
/- The two messages of the compiler that ask for a correction, and what is read off them. -/
namespace SoliditySession
open Pattern Solidity

/-- The message for a returned value of another type; `rest` names the type expected. -/
def mismatchMessage (reported rest : String) : String :=
  "Return argument type " ++ reported ++ " is not implicitly convertible to expected type" ++ rest

/-- The message for a view that changes the state. -/
def violationMessage (rest : String) : String :=
  "Function declared as view, but this expression (potentially) modifies the state" ++ rest

/-- What stands behind the reported type. -/
def mismatchEnd : List Char := " is not implicitly convertible to expected type".toList

/-- No end of the fixed part is also a beginning of it, so it cannot overlap with itself. -/
theorem mismatchEnd_borderless :
    ∀ n ∈ List.range mismatchEnd.length, n ≠ 0 → ¬ mismatchEnd.drop n <+: mismatchEnd := by
  decide +kernel

/-- The fixed part occurs behind a text that does not contain it, and nowhere before. -/
theorem not_mismatchEnd_prefix {a b rest : List Char} (h : ¬ mismatchEnd <:+: a ++ b)
    (hb : b ≠ []) : ¬ mismatchEnd <+: b ++ (mismatchEnd ++ rest) := by
  intro hp
  by_cases hlen : mismatchEnd.length ≤ b.length
  · have hpb : mismatchEnd <+: b := List.prefix_of_prefix_length_le hp (List.prefix_append b _) hlen
    exact h (hpb.isInfix.trans (List.suffix_append a b).isInfix)
  · have hpos : 0 < b.length := List.length_pos_iff.2 hb
    have hbp : b <+: mismatchEnd :=
      List.prefix_of_prefix_length_le (List.prefix_append b _) hp (by omega)
    obtain ⟨c, hc⟩ := hbp
    have hdrop : mismatchEnd.drop b.length = c := by rw [← hc, List.drop_left]
    have hcp : c <+: mismatchEnd ++ rest := by
      rw [← hc, List.prefix_append_right_inj] at hp
      rwa [hc] at hp
    have hborder : mismatchEnd.drop b.length <+: mismatchEnd := by
      rw [hdrop]
      refine List.prefix_of_prefix_length_le hcp (List.prefix_append _ rest) ?_
      rw [← hc, List.length_append]
      omega
    exact mismatchEnd_borderless b.length (List.mem_range.2 (by omega)) (by omega) hborder

namespace Interpreter

theorem mismatchMessage_toList (reported rest : String) :
    (mismatchMessage reported rest).toList =
      "Return argument type ".toList ++ (reported.toList ++ (mismatchEnd ++ rest.toList)) := by
  change ("Return argument type " ++ reported ++
    " is not implicitly convertible to expected type" ++ rest).toList = _
  rw [String.toList_append, String.toList_append, String.toList_append, List.append_assoc,
    List.append_assoc]
  rfl

theorem violationMessage_toList (rest : String) :
    (violationMessage rest).toList = "Function declared as ".toList ++ ("view".toList ++
      (", but this expression (potentially) modifies the state".toList ++ rest.toList)) := by
  have hsplit : "Function declared as view, but this expression (potentially) modifies the state" =
      "Function declared as " ++ ("view" ++
        ", but this expression (potentially) modifies the state") := by decide +kernel
  change ("Function declared as view, but this expression (potentially) modifies the state" ++
    rest).toList = _
  rw [hsplit, String.toList_append, String.toList_append, String.toList_append,
    List.append_assoc, List.append_assoc]

/-- The type marked is all of the reported one: the shortest match ends at the first fixed part. -/
theorem returnMismatch_match? {reported rest : String} (hne : reported.toList ≠ [])
    (hline : '\n' ∉ reported.toList) (hend : ¬ mismatchEnd <:+: reported.toList) :
    (returnMismatch.match? (mismatchMessage reported rest)).bind (·.mark? "type") =
      some reported := by
  obtain ⟨c, cs, hcs⟩ := List.exists_cons_of_ne_nil hne
  have hread : ∀ x ∈ c :: cs, inLine x = true := by
    intro x hx
    rw [← hcs] at hx
    simp only [inLine, bne_iff_ne, ne_eq]
    rintro rfl
    exact hline hx
  have hrun : returnMismatch.match? (mismatchMessage reported rest) =
      some ⟨mismatchEnd.reverse ++
          (reported.toList.reverse ++ "Return argument type ".toList.reverse),
        rest.toList, [("type", reported.toList)]⟩ := by
    rw [match?, matchAt?, mismatchMessage_toList, returnMismatch, run_append, run_append,
      Place.start, run_word_append, run_mark, hcs, List.cons_append,
      run_few_cons_succ _ _ _ 0 (hread c List.mem_cons_self)]
    refine run_few_zero_append _ _ _ (fun x hx => hread x (List.mem_cons_of_mem c hx)) ?_ ?_
    · intro a b hab hb
      refine run_word_of_not_prefix some ?_
      have hinfix : ¬ mismatchEnd <:+: (c :: a) ++ b := by
        rwa [List.cons_append, ← hab, ← hcs]
      exact not_mismatchEnd_prefix hinfix hb
    · refine (run_word_append some _ _ " is not implicitly convertible to expected type"
        rest.toList).trans ?_
      have hmark := Place.upTo_append (c :: cs) ("Return argument type ".toList.reverse ++ [])
        (c :: (cs ++ (mismatchEnd ++ rest.toList))) (mismatchEnd ++ rest.toList) [] []
      rw [List.reverse_cons, List.append_assoc, List.singleton_append] at hmark
      rw [hmark, List.reverse_cons, List.append_assoc, List.append_nil]
      rfl
  rw [hrun]
  simp [Place.mark?]

theorem returnFix?_mismatch {d : Diagnostic} {reported rest : String}
    (hd : d.message = mismatchMessage reported rest) (hne : reported.toList ≠ [])
    (hline : '\n' ∉ reported.toList) (hend : ¬ mismatchEnd <:+: reported.toList) :
    solidity.returnFix? d = ReturnFix.ofReported? reported := by
  simp only [solidity, hd, returnMismatch_match? hne hline hend, Option.bind_some]

theorem returnFix?_violation {d : Diagnostic} {rest : String}
    (hd : d.message = violationMessage rest) : solidity.returnFix? d = none := by
  have hprefix : ¬ "Return argument type ".toList <+: (violationMessage rest).toList := by
    have hreturn : "Return argument type ".toList = 'R' :: "eturn argument type ".toList := by
      decide +kernel
    have hfunction : "Function declared as ".toList = 'F' :: "unction declared as ".toList := by
      decide +kernel
    rw [violationMessage_toList, hreturn, hfunction, List.cons_append, List.cons_prefix_cons]
    rintro ⟨hc, -⟩
    exact absurd hc (by decide)
  have hmatch : returnMismatch.match? (violationMessage rest) = none := by
    rw [match?, matchAt?, returnMismatch, run_append, run_append]
    exact run_word_of_not_prefix _ hprefix
  simp only [solidity, hd, hmatch, Option.bind_none]

theorem needsMutation_violation {d : Diagnostic} {rest : String}
    (hd : d.message = violationMessage rest) : solidity.needsMutation d = true := by
  have hmatch : (stateModified.match? (violationMessage rest)).isSome := by
    rw [match?, matchAt?, violationMessage_toList, stateModified, run_append, run_append,
      Place.start, run_word_append, words, run_choice, List.map_cons, List.findSome?_cons,
      run_word_append, run_word_append]
    rfl
  rw [← hd] at hmatch
  exact hmatch

end Interpreter
end SoliditySession
