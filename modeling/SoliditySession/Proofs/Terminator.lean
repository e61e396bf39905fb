import SoliditySession.Proofs.Relayout
import SoliditySession.Solidity.Lexical
/- The end of a line against the end of its code: a line is ended by its last character wherever
that stands, so its code is ended with it unless the line ends in a literal or a comment. -/
namespace SoliditySession
namespace Solidity
open Text

/-- Whether the last character that is not blank ends a statement or block. -/
def isEnded (cs : List Char) : Bool := (dropBlankEnd cs).getLast?.any isTerminator

section
variable {cs b : List Char}

theorem isEnded_append_blank (hb : Blank b) : isEnded (cs ++ b) = isEnded cs := by
  have hdrop : dropBlank (b.reverse ++ cs.reverse) = dropBlank cs.reverse :=
    List.dropWhile_append_of_pos fun c hc => hb c (List.mem_reverse.1 hc)
  rw [isEnded, isEnded, dropBlankEnd, List.reverse_append, hdrop, dropBlankEnd]

theorem isEnded_blank_append (hb : Blank b) : isEnded (b ++ cs) = isEnded cs := by
  induction cs using List.reverseRecOn with
  | nil =>
    have hnil : isEnded ([] ++ b) = isEnded [] := isEnded_append_blank hb
    rwa [List.append_nil]
  | append_singleton cs c ih =>
    rw [← List.append_assoc]
    cases hc : isBlank c with
    | true =>
      have hlast := blank_singleton hc
      rw [isEnded_append_blank hlast, isEnded_append_blank hlast, ih]
    | false => simp [isEnded, dropBlankEnd, dropBlank, hc]

theorem isEnded_concat {c : Char} (hc : isTerminator c = true) : isEnded (cs ++ [c]) = true := by
  have hblank : isBlank c = false := by
    rw [isTerminator, Bool.or_eq_true, Bool.or_eq_true, beq_iff_eq, beq_iff_eq, beq_iff_eq] at hc
    rcases hc with (rfl | rfl) | rfl <;> decide
  simp [isEnded, dropBlankEnd, dropBlank, hblank, hc]

end

/-- What follows a character counts only as a slash or as none. -/
theorem Zone.next_congr (z : Zone) (c : Char) {p p' : Option Char}
    (h : (p == some '/') = (p' == some '/')) : z.next c p = z.next c p' := by
  cases z with
  | code => rw [Zone.next, Zone.next, h]
  | _ => rfl

/-- A text is read in two parts, unless the second goes on with a comment's second slash. -/
theorem read_append (z : Zone) (cs : List Char) {ds : List Char} (hds : ds.head? ≠ some '/') :
    codeFrom z (cs ++ ds) = codeFrom z cs ++ codeFrom (endZone z cs) ds ∧
      endZone z (cs ++ ds) = endZone (endZone z cs) ds := by
  induction cs generalizing z with
  | nil => exact ⟨rfl, rfl⟩
  | cons c cs ih =>
    have hpeek : ((cs ++ ds).head? == some '/') = (cs.head? == some '/') := by
      cases cs with
      | nil => simpa using hds
      | cons d cs => rfl
    simp only [List.cons_append, codeFrom, endZone, z.next_congr c hpeek]
    split
    · exact (ih _).imp_left (congrArg (c :: ·))
    · exact ih _

theorem codeFrom_sublist (z : Zone) (cs : List Char) : (codeFrom z cs).Sublist cs := by
  induction cs generalizing z with
  | nil => exact .slnil
  | cons c cs ih =>
    rw [codeFrom]
    split
    · exact (ih _).cons_cons c
    · exact (ih _).cons c

theorem codeFrom_blank (z : Zone) {b : List Char} (hb : Blank b) : Blank (codeFrom z b) :=
  fun c hc => hb c ((codeFrom_sublist z b).subset hc)

theorem codeFrom_blank_append {b : List Char} (hb : Blank b) (cs : List Char) :
    codeFrom .code (b ++ cs) = b ++ codeFrom .code cs := by
  induction b with
  | nil => rfl
  | cons c b ih =>
    have hc : isBlank c = true := hb c List.mem_cons_self
    have hquote : (c == '"' || c == '\'') = false := by
      rw [Bool.or_eq_false_iff, beq_eq_false_iff_ne, beq_eq_false_iff_ne]
      constructor
      · rintro rfl
        exact absurd hc (by decide)
      · rintro rfl
        exact absurd hc (by decide)
    have hslash : (c == '/') = false := by
      rw [beq_eq_false_iff_ne]
      rintro rfl
      exact absurd hc (by decide)
    have hnext : Zone.code.next c (b ++ cs).head? = .code := by
      rw [Zone.next, hquote, hslash]
      rfl
    rw [List.cons_append, codeFrom, hnext, ih fun d hd => hb d (List.mem_cons_of_mem c hd)]
    rfl

def Zone.Quoted : Zone → Prop
  | .literal q | .escape q => q = '"' ∨ q = '\''
  | _ => True

theorem Zone.Quoted.next {z : Zone} (hz : z.Quoted) (c : Char) (p : Option Char) :
    (z.next c p).Quoted := by
  cases z with
  | code =>
    rw [Zone.next]
    split
    · next hquote => rwa [Bool.or_eq_true, beq_iff_eq, beq_iff_eq] at hquote
    split
    · exact trivial
    · exact trivial
  | literal q =>
    rw [Zone.next]
    split
    · exact hz
    split
    · exact trivial
    · exact hz
  | escape q => exact hz
  | comment =>
    rw [Zone.next]
    split
    · exact trivial
    · exact trivial

theorem quoted_endZone {z : Zone} (hz : z.Quoted) (cs : List Char) : (endZone z cs).Quoted := by
  induction cs generalizing z with
  | nil => exact hz
  | cons c cs ih => exact ih (hz.next c cs.head?)

/-- What ends a statement is neither a quote nor a line break: it leads from code to code, and from
nowhere else. -/
theorem read_terminator {z : Zone} (hz : z.Quoted) {c : Char} (hc : isTerminator c = true) :
    (codeFrom z [c] = [c] ∧ endZone z [c] = .code ∧ z = .code) ∨
      (codeFrom z [c] = [] ∧ endZone z [c] ≠ .code ∧ z ≠ .code) := by
  rw [isTerminator, Bool.or_eq_true, Bool.or_eq_true, beq_iff_eq, beq_iff_eq, beq_iff_eq] at hc
  cases z with
  | code => rcases hc with (rfl | rfl) | rfl <;> exact .inl ⟨rfl, rfl, rfl⟩
  | literal q =>
    rcases hz with rfl | rfl <;> rcases hc with (rfl | rfl) | rfl <;>
      exact .inr ⟨rfl, by decide, by decide⟩
  | escape q => exact .inr ⟨rfl, nofun, nofun⟩
  | comment => rcases hc with (rfl | rfl) | rfl <;> exact .inr ⟨rfl, by decide, by decide⟩

/-- What one more character that ends a statement does to the code. -/
theorem read_concat (cs : List Char) {c : Char} (hc : isTerminator c = true) :
    (codeFrom .code (cs ++ [c]) = codeFrom .code cs ++ [c] ∧
        endZone .code (cs ++ [c]) = .code ∧ endZone .code cs = .code) ∨
      (codeFrom .code (cs ++ [c]) = codeFrom .code cs ∧
        endZone .code (cs ++ [c]) ≠ .code ∧ endZone .code cs ≠ .code) := by
  have hquoted : (endZone .code cs).Quoted := quoted_endZone (z := .code) trivial cs
  have hslash : [c].head? ≠ some '/' := by
    rintro ⟨⟩
    cases hc
  obtain ⟨hcode, hzone⟩ := read_append .code cs hslash
  rw [hcode, hzone]
  rcases read_terminator hquoted hc with ⟨hread, hend, hbefore⟩ | ⟨hread, hend, hbefore⟩
  · exact .inl ⟨by rw [hread], hend, hbefore⟩
  · exact .inr ⟨by rw [hread, List.append_nil], hend, hbefore⟩

theorem codeFrom_terminate (cs : List Char) :
    codeFrom .code (terminate cs) = codeFrom .code cs ∨
      codeFrom .code (terminate cs) = codeFrom .code cs ++ [';'] := by
  rw [terminate]
  split
  · exact .inl rfl
  · rcases read_concat cs (c := ';') rfl with ⟨hcode, -, -⟩ | ⟨hcode, -, -⟩
    · exact .inr hcode
    · exact .inl hcode

/-- The code of a line with a terminator behind it is ended where it was ended before, and where
the line does not end in a literal or comment. -/
theorem isEnded_terminate (cs : List Char) : isEnded (codeFrom .code (terminate cs)) = true ↔
    isEnded (codeFrom .code cs) = true ∨ endZone .code cs = .code := by
  rw [terminate]
  split
  · next hlast =>
    obtain ⟨c, hc, hterminator⟩ := (Option.any_eq_true _ _).1 hlast
    obtain ⟨a, rfl⟩ := List.getLast?_eq_some_iff.1 hc
    rcases read_concat a hterminator with ⟨hcode, -, -⟩ | ⟨-, hend, -⟩
    · rw [hcode]
      exact iff_of_true (isEnded_concat hterminator) (.inl (isEnded_concat hterminator))
    · exact (or_iff_left hend).symm
  · rcases read_concat cs (c := ';') rfl with ⟨hcode, -, hend⟩ | ⟨hcode, -, hend⟩
    · rw [hcode]
      exact iff_of_true (isEnded_concat rfl) (.inr hend)
    · rw [hcode]
      exact (or_iff_left hend).symm

theorem exists_trim (raw : String) :
    ∃ b b', Blank b ∧ Blank b' ∧ raw.toList = b ++ ((trim raw).toList ++ b') := by
  refine ⟨raw.toList.takeWhile isBlank, (dropBlank raw.toList).rtakeWhile isBlank,
    fun c hc => List.mem_takeWhile_imp hc, fun c hc => List.mem_rtakeWhile_imp hc, ?_⟩
  rw [trim, String.toList_ofList]
  change _ = _ ++ (List.rdropWhile isBlank _ ++ _)
  rw [List.rdropWhile_append_rtakeWhile, dropBlank, List.takeWhile_append_dropWhile]

/-- A line's code is that of the line without the blanks around it, with blanks around it. -/
theorem exists_code_eq (raw : String) :
    ∃ b b', Blank b ∧ Blank b' ∧ code raw = b ++ (code (trim raw) ++ b') := by
  obtain ⟨b, b', hb, hbehind, hraw⟩ := exists_trim raw
  have hslash : b'.head? ≠ some '/' := fun h =>
    absurd (hbehind '/' (List.mem_of_mem_head? h)) (by decide)
  refine ⟨b, codeFrom (endZone .code (trim raw).toList) b', hb, codeFrom_blank _ hbehind, ?_⟩
  rw [code, hraw, codeFrom_blank_append hb, (read_append .code _ hslash).1, code]

end Solidity

open Solidity

/-- Normalizing a line adds at most a semicolon to its code, apart from blanks around it, and ends it
unless the line ends, without those blanks, in a literal or a comment. -/
theorem code_normalizeTerminator (raw : String) :
    (∃ b b', Text.Blank b ∧ Text.Blank b' ∧ code raw = b ++ (code (Text.trim raw) ++ b')) ∧
      (code (normalizeTerminator raw) = code (Text.trim raw) ∨
        code (normalizeTerminator raw) = code (Text.trim raw) ++ [';']) ∧
      (isEnded (code (normalizeTerminator raw)) = true ↔
        isEnded (code raw) = true ∨ endZone .code (Text.trim raw).toList = .code) := by
  obtain ⟨b, b', hb, hb', hraw⟩ := exists_code_eq raw
  have hnormalized : code (normalizeTerminator raw) =
      codeFrom .code (terminate (Text.trim raw).toList) := by
    rw [code, normalizeTerminator, String.toList_ofList]
  have hended : isEnded (code raw) = isEnded (code (Text.trim raw)) := by
    rw [hraw, isEnded_blank_append hb, isEnded_append_blank hb']
  rw [hnormalized, hended]
  exact ⟨⟨b, b', hb, hb', hraw⟩, codeFrom_terminate _, isEnded_terminate _⟩

/-- A comment that is written like an opened block. -/
theorem not_isEnded_opened_comment :
    code "uint x = 1 // open \x7b" = "uint x = 1 ".toList ∧
      endZone .code "uint x = 1 // open \x7b".toList = .comment ∧
      isEnded (code (normalizeTerminator "uint x = 1 // open \x7b")) = false := by
  decide

end SoliditySession
