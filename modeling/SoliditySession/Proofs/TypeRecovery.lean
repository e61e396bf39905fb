import Mathlib.Data.List.Chain
import Mathlib.Data.List.Pairwise
import SoliditySession.Proofs.DataLocation
import SoliditySession.Proofs.Normalization
import SoliditySession.Proofs.TypeReading
import SoliditySession.Proofs.Wording
/- How the compiler spells the types it reports, and that the type read back can be returned. -/
namespace SoliditySession
open Solidity

/-- The keyword before the name of a user-defined type. -/
inductive Keyword
  | enum
  | contract
  | struct
deriving DecidableEq

def Keyword.text : Keyword → String
  | enum => "enum"
  | contract => "contract"
  | struct => "struct"

/-- What a type is made from before its dimensions. A path behind a keyword is none of the listed
words, which are keywords too; a path that stands alone does not begin like something built in. -/
inductive BaseType
  | builtIn (name : String) (elementary : Elementary name)
  | qualified (keyword : Keyword) (path : Path) (notReserved : String.ofList path.chars ∉
      ["memory", "calldata", "storage", "string", "bytes"])
  | userValue (path : Path) (words : ∀ c ∈ path.chars, Text.isAsciiWord c = true ∨ c = '.')
      (notElementary : ¬ Elementary (.ofList path.first.chars))
      (notLiteral : ¬ "literal_string".toList <+: path.first.chars)

namespace BaseType

def keyword? : BaseType → Option Keyword
  | qualified keyword _ _ => some keyword
  | _ => none

/-- The name without its keyword. -/
def name : BaseType → List Char
  | builtIn name _ => name.toList
  | qualified _ path _ => path.chars
  | userValue path _ _ _ => path.chars

def chars (b : BaseType) : List Char :=
  match b.keyword? with
  | some keyword => keyword.text.toList ++ ' ' :: b.name
  | none => b.name

/-- Whether values of the type lie in memory, in call data or in storage. -/
def isReference : BaseType → Bool
  | builtIn name _ => name == "string" || name == "bytes"
  | qualified keyword _ _ => keyword == .struct
  | _ => false

end BaseType

/-- A type as the compiler reports it, with the data location of its value. -/
structure ReportedType where
  base : BaseType
  lengths : List (Option Nat)
  location : Location

namespace ReportedType
variable (t : ReportedType)

def isReference : Bool := t.base.isReference || !t.lengths.isEmpty

/-- The location is written behind the base, if it is a reference, and behind each dimension. -/
def spelling : String :=
  .ofList (t.base.chars ++ ((if t.base.isReference then t.location.chars else []) ++
    (t.lengths.map fun n => dimension n ++ t.location.chars).flatten))

/-- The type without keyword and location. -/
def bare : List Char := t.base.name ++ dimensionsOf t.lengths

/-- The type as it can be returned. -/
def returned : String :=
  .ofList t.bare ++
    if t.isReference then
      match t.location with
      | .calldata | .calldataSlice => " calldata"
      | .memory | .storageRef | .storagePointer => " memory"
    else ""

/-- The dimensions and the location of the value. -/
def ending : List Char :=
  dimensionsOf t.lengths ++ if t.isReference then t.location.chars else []

/-- The spelling once the inner locations are dropped. -/
def stripped : List Char := t.base.chars ++ t.ending

end ReportedType

def isSpellingChar (c : Char) : Bool := isIdentChar c || c == '.' || isBracket c || c == ' '

theorem eq_space_of_isBlank {c : Char} (h : isSpellingChar c = true)
    (hblank : Text.isBlank c = true) : c = ' ' := by
  simp only [isSpellingChar, isBracket, Bool.or_eq_true, beq_iff_eq] at h
  rcases h with ((h | rfl) | rfl | rfl) | rfl
  · rw [isBlank_of_isIdentChar h] at hblank
    cases hblank
  · exact absurd hblank (by decide)
  · exact absurd hblank (by decide)
  · exact absurd hblank (by decide)
  · rfl

/-- Whether a space comes before `c` in a spelling, behind the keyword. -/
def followsSpace (c : Char) : Bool := "mcsrp".toList.contains c

/-- A part of a spelling: its spaces stand before data locations and their details only, and not at
the end. -/
structure Piece (cs : List Char) : Prop where
  chars : ∀ c ∈ cs, isSpellingChar c = true
  spaces : cs.IsChain fun a b => a = ' ' → followsSpace b = true
  last : cs.getLast? ≠ some ' '

namespace Piece
variable {cs ds : List Char}

theorem append (h : Piece cs) (h' : Piece ds) : Piece (cs ++ ds) where
  chars := List.forall_mem_append.2 ⟨h.chars, h'.chars⟩
  spaces := by
    refine List.isChain_append.2 ⟨h.spaces, h'.spaces, ?_⟩
    rintro a ha b - rfl
    exact absurd ha h.last
  last := by
    rw [List.getLast?_append]
    cases hd : ds.getLast? with
    | none => simpa using h.last
    | some c => simpa [hd] using h'.last

theorem nil : Piece [] := ⟨by simp, by simp, by simp⟩

theorem flatten {pieces : List (List Char)} (h : ∀ w ∈ pieces, Piece w) : Piece pieces.flatten := by
  induction pieces with
  | nil => exact .nil
  | cons w pieces ih =>
    rw [List.flatten_cons]
    exact (h w List.mem_cons_self).append (ih fun v hv => h v (List.mem_cons_of_mem w hv))

theorem of_no_space (h : ∀ c ∈ cs, isSpellingChar c = true) (hspace : ' ' ∉ cs) : Piece cs where
  chars := h
  spaces := by
    have hpairs : cs.Pairwise fun a b => a = ' ' → followsSpace b = true := by
      refine List.pairwise_of_forall_mem_list ?_
      rintro a ha b - rfl
      exact absurd ha hspace
    exact hpairs.isChain
  last hlast := hspace (List.mem_of_getLast? hlast)

theorem location (l : Location) : Piece l.chars := by
  cases l <;> exact ⟨by decide, by decide, by decide⟩

theorem of_identChars (h : ∀ c ∈ cs, isIdentChar c = true ∨ c = '.') : Piece cs := by
  refine of_no_space ?_ ?_
  · intro c hc
    rcases h c hc with h | rfl
    · simp [isSpellingChar, h]
    · decide
  · intro hspace
    rcases h ' ' hspace with h | h
    · exact absurd h (by decide)
    · exact absurd h (by decide)

theorem elementary {s : String} (h : Elementary s) : Piece s.toList := by
  rcases h.chars with rfl | ⟨-, hchars⟩
  · exact ⟨by decide, by decide, by decide⟩
  · exact of_identChars fun c hc => .inl (isIdentChar_of_isAsciiWord (hchars c hc))

theorem dimension (n : Option Nat) : Piece (dimension n) := by
  obtain ⟨w, hw, hn⟩ := dimension_eq n
  have hdigits : Piece w := of_identChars fun c hc =>
    .inl (isIdentChar_of_isAsciiWord (isAsciiWord_of_isDigit (hw c hc)))
  have hopen : Piece ['['] := ⟨by decide, by decide, by decide⟩
  have hclose : Piece [']'] := ⟨by decide, by decide, by decide⟩
  rw [hn]
  exact hopen.append (hdigits.append hclose)

/-- The fixed part of the message has spaces where no spelling has any. -/
theorem not_mismatchEnd_tail (h : Piece cs) : ¬ mismatchEnd.tail <:+: cs := by
  intro hinfix
  obtain ⟨before, behind, rfl⟩ := hinfix
  have hspaces := h.spaces.left_of_append.right_of_append
  exact absurd hspaces (by decide +kernel)

end Piece

/-- Behind a word without spaces the fixed part of the message begins at the space. -/
theorem tail_infix_behind {w cs : List Char} (hw : ' ' ∉ w)
    (h : mismatchEnd <:+: w ++ ' ' :: cs) : mismatchEnd.tail <:+: cs := by
  induction w with
  | nil =>
    rcases List.infix_cons_iff.1 h with h | h
    · exact (List.cons_prefix_cons.1 h).2.isInfix
    · exact (List.tail_suffix mismatchEnd).isInfix.trans h
  | cons c w ih =>
    rw [List.mem_cons, not_or] at hw
    rcases List.infix_cons_iff.1 h with h | h
    · exact absurd (List.cons_prefix_cons.1 h).1 hw.1
    · exact ih hw.2 h

namespace BaseType
variable (b : BaseType)

theorem name_piece : Piece b.name := by
  cases b with
  | builtIn name elementary => exact .elementary elementary
  | qualified keyword path notReserved => exact .of_identChars path.chars_char
  | userValue path words notElementary notLiteral => exact .of_identChars path.chars_char

theorem name_chars : ∀ c ∈ b.name, isIdentChar c = true ∨ c = '.' ∨ c = ' ' := by
  cases b with
  | builtIn name elementary =>
    rcases elementary.chars with rfl | ⟨-, hchars⟩
    · change ∀ c ∈ "address payable".toList, _
      decide
    · exact fun c hc => .inl (isIdentChar_of_isAsciiWord (hchars c hc))
  | qualified keyword path notReserved =>
    exact fun c hc => (path.chars_char c hc).imp_right .inl
  | userValue path words notElementary notLiteral =>
    exact fun c hc => (path.chars_char c hc).imp_right .inl

theorem name_ne_nil : b.name ≠ [] := by
  cases b with
  | builtIn name elementary =>
    rcases elementary.chars with rfl | ⟨hne, -⟩
    · exact List.cons_ne_nil _ _
    · exact hne
  | qualified keyword path notReserved => exact List.cons_ne_nil _ _
  | userValue path words notElementary notLiteral => exact List.cons_ne_nil _ _

/-- No data location begins in the name, with its keyword, if nothing carries it on. -/
theorem quiet {rest : List Char} (hrest : ∀ c ∈ rest.head?, c = ' ' ∨ c = '[') :
    Quiet b.chars rest := by
  have hpath : ∀ path : Path, ∀ c ∈ path.chars, isSolid c = true := by
    intro path c hc
    rcases path.chars_char c hc with h | rfl
    · exact isSolid_of_isIdentChar h
    · decide
  have hstop : ∀ c ∈ rest.head?, isSolid c = false := by
    intro c hc
    rcases hrest c hc with rfl | rfl
    · decide
    · decide
  cases b with
  | builtIn name elementary =>
    rcases elementary.chars with rfl | ⟨-, hchars⟩
    · have hpayable : Quiet [' '] ("payable".toList ++ rest) :=
        .space (by decide) (by decide) hstop (by decide)
      have hsplit : "address payable".toList =
          "address".toList ++ ([' '] ++ "payable".toList) := rfl
      change Quiet "address payable".toList rest
      rw [hsplit]
      exact (Quiet.of_no_blank (by decide)).append (hpayable.append (.of_no_blank (by decide)))
    · exact .of_no_blank fun c hc =>
        isBlank_of_isIdentChar (isIdentChar_of_isAsciiWord (hchars c hc))
  | qualified keyword path notReserved =>
    have hkeyword : ∀ c ∈ keyword.text.toList, Text.isBlank c = false := by
      cases keyword <;> decide
    have hspace : Quiet [' '] (path.chars ++ rest) := by
      have hreserved : ∀ s ∈ locations,
          s ∈ ["memory", "calldata", "storage", "string", "bytes"] := by decide
      exact .space (hpath path) (List.cons_ne_nil _ _) hstop fun h => notReserved (hreserved _ h)
    exact (Quiet.of_no_blank hkeyword).append (hspace.append
      (.of_no_blank fun c hc => isBlank_of_isSolid (hpath path c hc)))
  | userValue path words notElementary notLiteral =>
    exact .of_no_blank fun c hc => isBlank_of_isSolid (hpath path c hc)

theorem head?_chars : ∃ c, b.chars.head? = some c ∧ Text.isBlank c = false := by
  cases b with
  | builtIn name elementary =>
    have hblank : ∀ c ∈ "abfisu".toList, Text.isBlank c = false := by decide
    obtain ⟨c, hc, hhead⟩ := elementary.head?_mem
    exact ⟨c, hhead, hblank c hc⟩
  | qualified keyword path notReserved =>
    cases keyword with
    | enum => exact ⟨'e', rfl, by decide⟩
    | contract => exact ⟨'c', rfl, by decide⟩
    | struct => exact ⟨'s', rfl, by decide⟩
  | userValue path words notElementary notLiteral =>
    exact ⟨path.first.first, rfl,
      isBlank_of_isIdentChar (isIdentChar_of_isIdentStart path.first.first_start)⟩

theorem getLast?_chars_append (rest : List Char) :
    (b.chars ++ rest).getLast? = (b.name ++ rest).getLast? := by
  have hcons : ∀ cs : List Char,
      (cs ++ ' ' :: (b.name ++ rest)).getLast? = (b.name ++ rest).getLast? := by
    intro cs
    rw [List.getLast?_append_of_ne_nil _ (List.cons_ne_nil _ _), List.getLast?_cons_of_ne_nil]
    simp [b.name_ne_nil]
  rw [chars]
  split
  · rw [List.append_assoc]
    exact hcons _
  · rfl

end BaseType

/-- A text behind a base that a spelling goes on with. -/
structure Continues (rest : List Char) : Prop where
  piece : Piece rest
  head : ∀ c ∈ rest.head?, c = ' ' ∨ c = '['

namespace BaseType
variable (b : BaseType) {rest : List Char} (hrest : Continues rest)
include hrest

theorem isSpellingChar_of_mem : ∀ c ∈ b.chars ++ rest, isSpellingChar c = true := by
  have hkeyword : ∀ k : Keyword, ∀ c ∈ k.text.toList ++ [' '], isSpellingChar c = true := by
    intro k
    cases k <;> decide
  rw [List.forall_mem_append]
  refine ⟨?_, hrest.piece.chars⟩
  rw [chars]
  split
  · next k _ =>
    rw [← List.singleton_append, ← List.append_assoc, List.forall_mem_append]
    exact ⟨hkeyword k, b.name_piece.chars⟩
  · exact b.name_piece.chars

theorem not_mismatchEnd_infix : ¬ mismatchEnd <:+: b.chars ++ rest := by
  have hpiece := (b.name_piece.append hrest.piece).not_mismatchEnd_tail
  rw [chars]
  split
  · next k _ =>
    have hkeyword : ' ' ∉ k.text.toList := by
      cases k <;> decide
    rw [List.append_assoc]
    exact fun h => hpiece (tail_infix_behind hkeyword h)
  · exact fun h => hpiece ((List.tail_suffix mismatchEnd).isInfix.trans h)

theorem trim_eq : Text.trim (.ofList (b.chars ++ rest)) = .ofList (b.chars ++ rest) := by
  have htrimmed : Text.Trimmed (b.chars ++ rest) := by
    intro hne
    constructor
    · obtain ⟨c, hc, hblank⟩ := b.head?_chars
      obtain ⟨cs, hcs⟩ := List.head?_eq_some_iff.1 hc
      simpa [hcs] using hblank
    · have hlast := List.getLast?_eq_some_getLast hne
      have hchar := b.isSpellingChar_of_mem hrest _ (List.getLast_mem hne)
      by_contra hblank
      have hspace := eq_space_of_isBlank hchar (Bool.eq_true_of_not_eq_false hblank)
      rw [hspace, b.getLast?_chars_append] at hlast
      exact (b.name_piece.append hrest.piece).last hlast
  rw [Text.trim, String.toList_ofList, htrimmed.trim_eq]

theorem not_literal_prefix : ¬ "literal_string".toList <+: b.chars ++ rest := by
  intro h
  have hfirst : ∀ {c : Char}, (b.chars ++ rest).head? = some c → c = 'l' := by
    intro c hc
    obtain ⟨cs, hcs⟩ := h
    rw [← hcs] at hc
    exact (Option.some.inj hc).symm
  cases b with
  | builtIn name elementary =>
    obtain ⟨c, hc, hhead⟩ := elementary.head?_mem
    have happend : (name.toList ++ rest).head? = some c := by
      rw [List.head?_append, hhead]
      rfl
    rw [hfirst happend] at hc
    exact absurd hc (by decide)
  | qualified keyword path notReserved =>
    cases keyword with
    | enum => exact absurd (hfirst rfl) (by decide)
    | contract => exact absurd (hfirst rfl) (by decide)
    | struct => exact absurd (hfirst rfl) (by decide)
  | userValue path words notElementary notLiteral =>
    obtain ⟨r, hsplit, hr⟩ := path.exists_behind_first rest
    have h : "literal_string".toList <+: path.first.chars ++ r := hsplit ▸ h
    have hstop : ∀ c ∈ r.head?, isIdentChar c = false := by
      intro c hc
      rcases hr c hc with rfl | hc
      · decide
      · rcases hrest.head c hc with rfl | rfl
        · decide
        · decide
    exact notLiteral (prefix_of_prefix_append (by decide) hstop h)

theorem ne_tuple : String.ofList (b.chars ++ rest) ≠ "tuple()" := by
  intro h
  have hmem : '(' ∈ b.chars ++ rest := by
    rw [← String.toList_ofList (l := b.chars ++ rest), h]
    decide
  exact absurd (b.isSpellingChar_of_mem hrest '(' hmem) (by decide)

end BaseType

namespace ReportedType
variable (t : ReportedType)

theorem continues_spelling : Continues ((if t.base.isReference then t.location.chars else []) ++
    (t.lengths.map fun n => dimension n ++ t.location.chars).flatten) where
  piece := by
    refine .append ?_ (.flatten ?_)
    · split
      · exact .location _
      · exact .nil
    · intro w hw
      obtain ⟨n, -, rfl⟩ := List.mem_map.1 hw
      exact (Piece.dimension n).append (.location _)
  head := by
    intro c hc
    cases hb : t.base.isReference with
    | true =>
      rw [hb] at hc
      exact .inl (Option.some.inj hc).symm
    | false =>
      rw [hb] at hc
      cases hn : t.lengths with
      | nil =>
        rw [hn] at hc
        cases hc
      | cons n lengths =>
        obtain ⟨w, -, hw⟩ := dimension_eq n
        rw [hn, List.map_cons, hw] at hc
        exact .inr (Option.some.inj hc).symm

theorem head_location : ∀ c ∈ (if t.isReference then t.location.chars else []).head?, c = ' ' := by
  split
  · exact fun c hc => (Option.some.inj hc).symm
  · rintro c ⟨⟩

theorem continues_ending : Continues t.ending where
  piece := by
    refine .append (.flatten ?_) ?_
    · intro w hw
      obtain ⟨n, -, rfl⟩ := List.mem_map.1 hw
      exact .dimension n
    · split
      · exact .location _
      · exact .nil
  head := head?_dimensions_append t.head_location t.lengths

theorem withoutInnerLocations_spelling :
    withoutInnerLocations t.spelling = .ofList t.stripped := by
  rw [withoutInnerLocations, Pattern.replaceAll_eq, spelling, String.toList_ofList,
    replaced_quiet (t.base.quiet t.continues_spelling.head), stripped, ending, isReference]
  congr 2
  cases hb : t.base.isReference with
  | true => exact replaced_located _ _ _
  | false =>
    cases t.lengths with
    | nil => exact replaced_inner_nil _
    | cons n lengths =>
      have hquiet : Quiet (dimension n)
          (t.location.chars ++ (lengths.map fun n => dimension n ++ t.location.chars).flatten) :=
        .of_no_blank fun c hc => isBlank_of_mem_dimension hc
      rw [List.map_cons, List.flatten_cons, List.append_assoc]
      simp only [Bool.false_eq_true, if_false, List.nil_append, replaced_quiet hquiet,
        replaced_located]
      simp [dimensionsOf]

end ReportedType

namespace ReportedType
variable (t : ReportedType)

theorem bare_not_qualifier (hlengths : t.lengths ≠ []) :
    String.ofList t.bare ∉ ReturnFix.qualifiers := by
  have hqualifiers : ∀ q ∈ ReturnFix.qualifiers, ']' ∉ q.toList := by decide
  intro h
  refine hqualifiers _ h ?_
  rw [String.toList_ofList]
  exact List.mem_append_right _ (List.mem_of_getLast? (getLast?_dimensionsOf hlengths))

/-- Without a keyword nothing before the first space is one. -/
theorem head_not_qualifier (hname : ' ' ∉ t.base.name)
    (hbase : t.base.isReference = true → String.ofList t.base.name ∉ ReturnFix.qualifiers)
    (hspace : ' ' ∈ t.base.name ++ t.ending) :
    String.ofList ((t.base.name ++ t.ending).takeWhile (· != ' ')) ∉ ReturnFix.qualifiers := by
  have hbare : ' ' ∉ t.bare := by
    intro hmem
    rcases List.mem_append.1 hmem with hmem | hmem
    · exact hname hmem
    · exact absurd (isBlank_of_mem_dimensionsOf hmem) (by decide)
  have hsplit : t.base.name ++ t.ending =
      t.bare ++ if t.isReference then t.location.chars else [] := (List.append_assoc _ _ _).symm
  rw [hsplit, ReturnFix.takeWhile_ne_space hbare t.head_location]
  by_cases hlengths : t.lengths = []
  · have hname : t.bare = t.base.name := by simp [bare, hlengths, dimensionsOf]
    rw [hname]
    refine hbase ?_
    by_contra hreference
    have hnone : t.isReference = false := by simpa [isReference, hlengths] using hreference
    rw [hsplit, hnone, if_neg Bool.false_ne_true, List.append_nil] at hspace
    exact hbare hspace
  · exact t.bare_not_qualifier hlengths

theorem splitQualifier_stripped : ReturnFix.splitQualifier (.ofList t.stripped) =
    (t.base.keyword?.map (·.text), .ofList (t.base.name ++ t.ending)) := by
  obtain ⟨base, lengths, location⟩ := t
  cases base with
  | qualified keyword path notReserved =>
    have hkeyword : ' ' ∉ keyword.text.toList ∧
        String.ofList keyword.text.toList ∈ ReturnFix.qualifiers := by
      cases keyword <;> decide
    have hsplit : ∀ rest, ReturnFix.splitQualifier (.ofList (keyword.text.toList ++ ' ' :: rest)) =
        (some keyword.text, .ofList rest) := by
      intro rest
      rw [ReturnFix.splitQualifier_of_mem hkeyword.1 hkeyword.2, String.ofList_toList]
    have hpath := hsplit (path.chars ++
      ending ⟨.qualified keyword path notReserved, lengths, location⟩)
    rw [stripped, BaseType.chars]
    simpa [BaseType.keyword?, BaseType.name] using hpath
  | builtIn name elementary =>
    refine ReturnFix.splitQualifier_of_not_mem fun hspace => ?_
    rcases elementary.chars with rfl | ⟨-, hchars⟩
    · have hhead : ∀ rest, ("address".toList ++ (" payable".toList ++ rest)).takeWhile (· != ' ') =
          "address".toList := fun rest =>
        ReturnFix.takeWhile_ne_space (by decide) fun c hc => (Option.some.inj hc).symm
      change String.ofList (("address".toList ++ (" payable".toList ++
        ending ⟨.builtIn _ elementary, lengths, location⟩)).takeWhile (· != ' ')) ∉ _
      rw [hhead]
      decide
    · refine head_not_qualifier ⟨.builtIn name elementary, lengths, location⟩ ?_ ?_ hspace
      · exact fun hmem => absurd (hchars _ hmem) (by decide)
      · intro hreference
        have hname : name = "string" ∨ name = "bytes" := by
          simpa [BaseType.isReference] using hreference
        change String.ofList name.toList ∉ _
        rcases hname with rfl | rfl
        · decide
        · decide
  | userValue path words notElementary notLiteral =>
    refine ReturnFix.splitQualifier_of_not_mem fun hspace => ?_
    refine head_not_qualifier ⟨.userValue path words notElementary notLiteral, lengths, location⟩
      ?_ ?_ hspace
    · intro hmem
      rcases path.chars_char _ hmem with h | h
      · exact absurd h (by decide)
      · exact absurd h (by decide)
    · intro hreference
      cases hreference

theorem needsLocation_bare : (needsLocation (.ofList t.bare) ||
    t.base.keyword?.map (·.text) == some "struct") = t.isReference := by
  obtain ⟨base, lengths, location⟩ := t
  by_cases hlengths : lengths = []
  · subst hlengths
    have hbare : bare ⟨base, [], location⟩ = base.name := List.append_nil _
    have hlast : (base.name.getLast? == some ']') = false := by
      rw [beq_eq_false_iff_ne]
      intro h
      rcases base.name_chars _ (List.mem_of_getLast? h) with h | h | h
      · exact absurd h (by decide)
      · exact absurd h (by decide)
      · exact absurd h (by decide)
    simp only [needsLocation, hbare, String.toList_ofList, hlast, Bool.false_or, isReference,
      List.isEmpty_nil, Bool.not_true, Bool.or_false]
    cases base with
    | builtIn name elementary =>
      simp [BaseType.name, BaseType.keyword?, BaseType.isReference]
    | qualified keyword path notReserved =>
      have hname : ∀ s ∈ ["memory", "calldata", "storage", "string", "bytes"],
          (String.ofList path.chars == s) = false := by
        intro s hs
        rw [beq_eq_false_iff_ne]
        rintro rfl
        exact notReserved hs
      simp only [BaseType.name, BaseType.keyword?, BaseType.isReference, hname "string" (by decide),
        hname "bytes" (by decide), Bool.or_self, Bool.false_or, Option.map_some]
      cases keyword <;> decide
    | userValue path words notElementary notLiteral =>
      have hstring : String.ofList path.chars ≠ "string" :=
        Path.ne_elementary notElementary (by decide) (.plain (by decide))
      have hbytes : String.ofList path.chars ≠ "bytes" :=
        Path.ne_elementary notElementary (by decide) (.plain (by decide))
      simp [BaseType.name, BaseType.keyword?, BaseType.isReference, hstring, hbytes]
  · have hlast : (bare ⟨base, lengths, location⟩).getLast? = some ']' := by
      rw [bare, List.getLast?_append, getLast?_dimensionsOf hlengths]
      rfl
    simp [needsLocation, hlast, isReference, hlengths]

theorem location?_stripped : location? (.ofList t.stripped) =
    if t.isReference then some t.location.word else none := by
  have hsolid : ∀ c ∈ dimensionsOf t.lengths, Text.isBlank c = false :=
    fun c hc => isBlank_of_mem_dimensionsOf hc
  have hquiet := (t.base.quiet t.continues_ending.head).append (.of_no_blank hsolid)
  rw [stripped, ending, ← List.append_assoc]
  cases h : t.isReference with
  | true =>
    rw [h] at hquiet
    exact location?_eq hquiet
  | false =>
    rw [h] at hquiet
    simpa using location?_eq_none hquiet

/-- What is read of the name, by the way its keyword or the want of one asks for. -/
theorem base_read (b : BaseType) (lengths : List (Option Nat)) {rest : List Char}
    (hrest : ∀ c ∈ rest.head?, c = ' ') (hpayable : ¬ " payable".toList <+: rest)
    (hword : ∀ l ∈ Text.firstWord (.ofList rest), l ∈ locations) :
    ReturnFix.base? (b.keyword?.map (·.text), .ofList (b.name ++ dimensionsOf lengths ++ rest)) =
      some (.ofList (b.name ++ dimensionsOf lengths)) := by
  cases b with
  | builtIn name elementary =>
    have h := elementaryPrefix?_eq hrest elementary lengths hpayable
    simp only [ReturnFix.base?, BaseType.keyword?, BaseType.name, Option.map_none, h]
    rfl
  | qualified keyword path notReserved => exact userPrefix?_eq hrest path lengths
  | userValue path words notElementary notLiteral =>
    have hnone := path.elementaryPrefix?_eq_none words notElementary
      (head?_dimensions_append hrest lengths)
    rw [← List.append_assoc] at hnone
    have hbare := ReturnFix.bareUserType?_eq (userPrefix?_eq hrest path lengths) hword
    simp only [ReturnFix.base?, BaseType.keyword?, BaseType.name, Option.map_none, hnone, hbare]
    rfl

theorem base_stripped : ReturnFix.base? (t.base.keyword?.map (·.text),
    .ofList (t.base.name ++ t.ending)) = some (.ofList t.bare) := by
  have hpayable : ¬ " payable".toList <+: if t.isReference then t.location.chars else [] := by
    split
    · cases t.location <;> decide
    · decide
  have hword : ∀ l ∈ Text.firstWord (.ofList (if t.isReference then t.location.chars else [])),
      l ∈ locations := by
    split
    · cases t.location <;> decide +kernel
    · decide
  rw [ending, ← List.append_assoc]
  exact base_read t.base t.lengths t.head_location hpayable hword

theorem withLocation_stripped : ReturnFix.withLocation (.ofList t.stripped)
    (t.base.keyword?.map (·.text)) (.ofList t.bare) = t.returned := by
  rw [ReturnFix.withLocation, t.location?_stripped, t.needsLocation_bare, returned]
  cases t.isReference with
  | false => simp
  | true => cases t.location <;> simp [Location.word]

theorem ofReported?_spelling : ReturnFix.ofReported? t.spelling = some (.type t.returned) := by
  have hliteral : ¬ "literal_string".toList <+: (String.ofList t.stripped).toList := by
    rw [String.toList_ofList (l := t.stripped)]
    exact t.base.not_literal_prefix t.continues_ending
  have htuple : String.ofList t.stripped ≠ "tuple()" := t.base.ne_tuple t.continues_ending
  have htrim : Text.trim t.spelling = t.spelling := t.base.trim_eq t.continues_spelling
  rw [ReturnFix.ofReported?_eq, htrim, withoutInnerLocations_spelling, if_neg htuple,
    if_neg hliteral, splitQualifier_stripped, base_stripped, Option.map_some,
    withLocation_stripped]

end ReportedType

namespace Interpreter

/-- The type that the message reports is read back with its name and all its dimensions, and with a
data location where its values need one. -/
theorem returnFix?_reported {d : Diagnostic} (t : ReportedType) (rest : String)
    (hd : d.message = mismatchMessage t.spelling rest) :
    solidity.returnFix? d = some (.type t.returned) := by
  have hchars := t.base.isSpellingChar_of_mem t.continues_spelling
  have htext : t.spelling.toList = _ := String.toList_ofList
  rw [returnFix?_mismatch hd, t.ofReported?_spelling]
  · rw [htext]
    obtain ⟨c, hc, -⟩ := t.base.head?_chars
    obtain ⟨cs, hcs⟩ := List.head?_eq_some_iff.1 hc
    rw [hcs]
    exact List.cons_ne_nil _ _
  · rw [htext]
    exact fun hline => absurd (hchars _ hline) (by decide)
  · rw [htext]
    exact t.base.not_mismatchEnd_infix t.continues_spelling

def mainPoint : Path :=
  ⟨⟨'M', "ain".toList, by decide, by decide⟩, [⟨'P', "oint".toList, by decide, by decide⟩]⟩

theorem not_elementary_main : ¬ Elementary (.ofList mainPoint.first.chars) := by
  intro h
  obtain ⟨c, hc, hhead⟩ := h.head?_mem
  rw [String.toList_ofList] at hhead
  obtain rfl : 'M' = c := Option.some.inj hhead
  exact absurd hc (by decide)

theorem returnFix?_reported_nested :
    let structs : ReportedType :=
      ⟨.qualified .struct mainPoint (by decide), [some 3, none], .storageRef⟩
    let values : ReportedType :=
      ⟨.userValue mainPoint (by decide) not_elementary_main (by decide), [none], .calldataSlice⟩
    let message := fun spelling => Diagnostic.ofError "TypeError"
      (mismatchMessage spelling " (type of first return variable) int256.")
    structs.spelling = "struct Main.Point storage ref[3] storage ref[] storage ref" ∧
    solidity.returnFix? (message structs.spelling) = some (.type "Main.Point[3][] memory") ∧
    values.spelling = "Main.Point[] calldata slice" ∧
    solidity.returnFix? (message values.spelling) = some (.type "Main.Point[] calldata") := by
  intro structs values message
  have hstructs : structs.returned = "Main.Point[3][] memory" := by decide +kernel
  have hvalues : values.returned = "Main.Point[] calldata" := by decide +kernel
  have hfix : ∀ t : ReportedType,
      solidity.returnFix? (message t.spelling) = some (.type t.returned) := fun t =>
    returnFix?_reported t " (type of first return variable) int256." rfl
  exact ⟨by decide +kernel, (hfix structs).trans (by rw [hstructs]), by decide +kernel,
    (hfix values).trans (by rw [hvalues])⟩

end Interpreter
end SoliditySession
