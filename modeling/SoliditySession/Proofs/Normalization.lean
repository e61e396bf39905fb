import Mathlib.Data.List.DropRight
import SoliditySession.Statement
/- Normalized lines: they neither begin nor end in a blank, they are ended, and normalizing them
once more changes nothing. -/
namespace SoliditySession
namespace Text

/-- Neither the first nor the last character is blank. -/
def Trimmed (cs : List Char) : Prop :=
  ∀ hne : cs ≠ [], isBlank (cs.head hne) = false ∧ isBlank (cs.getLast hne) = false

theorem trimmed_trim (cs : List Char) : Trimmed (dropBlankEnd (dropBlank cs)) := by
  change Trimmed ((dropBlank cs).rdropWhile isBlank)
  intro hne
  constructor
  · rw [List.IsPrefix.head (List.rdropWhile_prefix isBlank _) hne]
    exact List.head_dropWhile_not isBlank _
  · simpa only [Bool.not_eq_true] using List.rdropWhile_last_not isBlank (dropBlank cs) hne

theorem Trimmed.of_ends {c d : Char} {cs : List Char} (hhead : cs.head? = some c)
    (hc : isBlank c = false) (hlast : cs.getLast? = some d) (hd : isBlank d = false) :
    Trimmed cs := by
  intro hne
  rw [List.head?_eq_some_head hne] at hhead
  rw [List.getLast?_eq_some_getLast hne] at hlast
  rw [Option.some.inj hhead, Option.some.inj hlast]
  exact ⟨hc, hd⟩

theorem Trimmed.trim_eq {cs : List Char} (h : Trimmed cs) : dropBlankEnd (dropBlank cs) = cs := by
  have hhead : dropBlank cs = cs := by
    cases cs with
    | nil => rfl
    | cons c cs =>
        have hc : isBlank c = false := (h (List.cons_ne_nil c cs)).1
        exact List.dropWhile_cons_of_neg (by simp only [hc, Bool.false_eq_true, not_false_eq_true])
  rw [hhead]
  apply List.rdropWhile_eq_self_iff.2
  intro hne
  simp [(h hne).2]

/-- Only what follows the last character that is not blank is dropped. -/
theorem dropBlankEnd_behind {c : Char} (hc : isBlank c = false) (before rest : List Char) :
    dropBlankEnd (before ++ c :: rest) = before ++ c :: dropBlankEnd rest := by
  have hstop : (c :: before.reverse).dropWhile isBlank = c :: before.reverse :=
    List.dropWhile_cons_of_neg (by simp [hc])
  have hdrop : (rest.reverse ++ c :: before.reverse).dropWhile isBlank =
      rest.reverse.dropWhile isBlank ++ c :: before.reverse := by
    rw [List.dropWhile_append]
    split
    · next hempty => rw [hstop, List.isEmpty_iff.1 hempty, List.nil_append]
    · rfl
  have hreverse : (before ++ c :: rest).reverse = rest.reverse ++ c :: before.reverse := by simp
  rw [dropBlankEnd, dropBlank, hreverse, hdrop, List.reverse_append, List.reverse_cons,
    List.reverse_reverse, List.append_assoc, List.singleton_append]
  rfl

end Text

theorem trimmed_terminate {cs : List Char} (h : Text.Trimmed cs) : Text.Trimmed (terminate cs) := by
  rw [terminate]
  split
  · exact h
  · intro hne
    refine ⟨?_, by simp only [List.getLast_append_singleton]; rfl⟩
    cases cs with
    | nil => rfl
    | cons c cs => exact (h (by simp)).1

/-- Whether a semicolon is added is seen behind the last character that ends nothing. -/
theorem terminate_behind {c : Char} (hc : isTerminator c = false) (before rest : List Char) :
    terminate (before ++ c :: rest) = before ++ c :: terminate rest := by
  cases rest with
  | nil => simp [terminate, hc]
  | cons d rest =>
    have hlast : (before ++ c :: d :: rest).getLast? = (d :: rest).getLast? := by
      simp [List.getLast?_append, List.getLast?_cons]
    rw [terminate, terminate, hlast]
    split
    · rfl
    · simp

theorem terminate_terminate (cs : List Char) : terminate (terminate cs) = terminate cs := by
  have hend : (terminate cs).getLast?.any isTerminator = true := by
    rw [terminate]
    split
    · assumption
    · rw [List.getLast?_append, List.getLast?_singleton]
      rfl
  rw [terminate, if_pos hend]

theorem normalizeTerminator_idem (raw : String) :
    normalizeTerminator (normalizeTerminator raw) = normalizeTerminator raw := by
  simp only [normalizeTerminator, Text.trim, String.toList_ofList]
  rw [(trimmed_terminate (Text.trimmed_trim raw.toList)).trim_eq, terminate_terminate]

namespace Statement

/-- A line that begins with no blank and ends in a semicolon stays as it is. -/
theorem ofRaw_ofList {c : Char} {cs : List Char} (hhead : cs.head? = some c)
    (hc : Text.isBlank c = false) (hlast : cs.getLast? = some ';') :
    ofRaw (.ofList cs) = ⟨.ofList cs⟩ := by
  have htrimmed : Text.Trimmed cs := .of_ends hhead hc hlast (by decide)
  rw [ofRaw, normalizeTerminator, Text.trim, String.toList_ofList, String.toList_ofList,
    htrimmed.trim_eq, terminate, hlast]
  rfl

theorem ofRaw_text_ofRaw (raw : String) : ofRaw (ofRaw raw).text = ofRaw raw :=
  congrArg Statement.mk (normalizeTerminator_idem raw)

end Statement
end SoliditySession
