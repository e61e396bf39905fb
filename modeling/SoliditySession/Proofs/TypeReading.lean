import Mathlib.Data.List.TakeWhile
import SoliditySession.Diagnostic.Signal
import SoliditySession.Proofs.Reading
/- How a type is read off a text: one name at its start, behind a qualifier or by itself, and behind
the name one data location at most. -/
namespace SoliditySession.ReturnFix
open Pattern Solidity Text

theorem takeWhile_ne_space {w rest : List Char} (hw : ' ' ∉ w)
    (hrest : ∀ c ∈ rest.head?, c = ' ') : (w ++ rest).takeWhile (· != ' ') = w := by
  have hw : ∀ c ∈ w, (c != ' ') = true := by
    intro c hc
    simp only [bne_iff_ne, ne_eq]
    rintro rfl
    exact hw hc
  rw [List.takeWhile_append_of_pos hw]
  cases rest with
  | nil => simp
  | cons c rest => simp [hrest c rfl]

theorem splitQualifier_of_mem {w rest : List Char} (hw : ' ' ∉ w)
    (h : String.ofList w ∈ qualifiers) :
    splitQualifier (.ofList (w ++ ' ' :: rest)) = (some (.ofList w), .ofList rest) := by
  have hhead : (w ++ ' ' :: rest).takeWhile (· != ' ') = w :=
    takeWhile_ne_space hw fun c hc => (Option.some.inj hc).symm
  have hspace : (w ++ ' ' :: rest).contains ' ' = true := by simp
  have hqualifier : qualifiers.contains (.ofList w) = true := by simpa using h
  simp only [splitQualifier, String.toList_ofList, hhead, hspace, hqualifier, Bool.and_self,
    if_true, String.length_ofList]
  simp

theorem splitQualifier_of_not_mem {cs : List Char}
    (h : ' ' ∈ cs → String.ofList (cs.takeWhile (· != ' ')) ∉ qualifiers) :
    splitQualifier (.ofList cs) = (none, .ofList cs) := by
  have hnone : (cs.contains ' ' && qualifiers.contains (.ofList (cs.takeWhile (· != ' ')))) =
      false := by
    rw [Bool.and_eq_false_iff]
    by_cases hspace : ' ' ∈ cs
    · exact .inr (by simpa using h hspace)
    · exact .inl (by simpa using hspace)
  simp only [splitQualifier, String.toList_ofList, hnone]
  rfl

theorem splitQualifier_cases (s : String) : splitQualifier s = (none, s) ∨
    ∃ q ∈ qualifiers, ∃ rest : List Char,
      s.toList = q.toList ++ ' ' :: rest ∧ splitQualifier s = (some q, .ofList rest) := by
  by_cases h : ' ' ∈ s.toList ∧ String.ofList (s.toList.takeWhile (· != ' ')) ∈ qualifiers
  · obtain ⟨hspace, hmem⟩ := h
    have hcut := List.takeWhile_append_dropWhile (p := (· != ' ')) (l := s.toList)
    have hno : ' ' ∉ s.toList.takeWhile (· != ' ') := fun hin =>
      absurd (List.mem_takeWhile_imp hin) (by decide)
    have hstop := List.head?_dropWhile_not (· != ' ') s.toList
    generalize s.toList.takeWhile (· != ' ') = w at hcut hno hmem
    generalize s.toList.dropWhile (· != ' ') = v at hcut hstop
    cases v with
    | nil =>
      rw [← hcut, List.append_nil] at hspace
      exact absurd hspace hno
    | cons c rest =>
      obtain rfl : c = ' ' := by simpa using hstop
      refine .inr ⟨_, hmem, rest, by rw [String.toList_ofList, hcut], ?_⟩
      rw [← splitQualifier_of_mem hno hmem, hcut, String.ofList_toList]
  · have hnone := splitQualifier_of_not_mem fun hspace hmem => h ⟨hspace, hmem⟩
    rw [String.ofList_toList] at hnone
    exact .inl hnone

/-- A path is a type by itself where nothing but a data location follows it. -/
theorem bareUserType?_eq_some_iff {s b : String} : bareUserType? s = some b ↔
    userPrefix? s = some b ∧
      ∀ w ∈ firstWord (.ofList (s.toList.drop b.length)), w ∈ locations := by
  rw [bareUserType?, Option.bind_eq_some_iff]
  constructor
  · rintro ⟨path, hpath, h⟩
    cases hword : firstWord (.ofList (s.toList.drop path.length)) with
    | none =>
      rw [hword] at h
      obtain rfl := Option.some.inj h
      exact ⟨hpath, by rw [hword]; nofun⟩
    | some w =>
      rw [hword] at h
      by_cases hw : w ∈ locations
      · have hb : some path = some b := by simpa [hw] using h
        obtain rfl := Option.some.inj hb
        exact ⟨hpath, by rw [hword]; rintro v ⟨⟩; exact hw⟩
      · simp [hw] at h
  · rintro ⟨huser, hleft⟩
    refine ⟨b, huser, ?_⟩
    cases hword : firstWord (.ofList (s.toList.drop b.length)) with
    | none => rfl
    | some w => simp [hleft w hword]

theorem bareUserType?_eq {w rest : List Char}
    (h : userPrefix? (.ofList (w ++ rest)) = some (.ofList w))
    (hrest : ∀ l ∈ firstWord (.ofList rest), l ∈ locations) :
    bareUserType? (.ofList (w ++ rest)) = some (.ofList w) := by
  refine bareUserType?_eq_some_iff.2 ⟨h, ?_⟩
  rwa [String.toList_ofList, String.length_ofList, List.drop_left]

/-- The name behind the qualifier, or at the start of a text without one. -/
def base? (qualified : Option String × String) : Option String :=
  match qualified.1 with
  | some _ => userPrefix? qualified.2
  | none => (elementaryPrefix? qualified.2).orElse fun _ => bareUserType? qualified.2

theorem base_cases {qualified : Option String × String} {b : String}
    (h : base? qualified = some b) :
    userPrefix? qualified.2 = some b ∨ elementaryPrefix? qualified.2 = some b := by
  obtain ⟨_ | q, rest⟩ := qualified
  · cases helementary : elementaryPrefix? rest with
    | none =>
      simp only [base?, helementary, Option.orElse_none] at h
      exact .inl (bareUserType?_eq_some_iff.1 h).1
    | some w =>
      simp only [base?, helementary, Option.orElse_some] at h
      exact .inr h
  · exact .inl h

/-- The name that is read stands in the text. -/
theorem infix_of_base? {s b : String} (h : base? (splitQualifier s) = some b) :
    b.toList <:+: s.toList := by
  have hbegins : b.toList <+: (splitQualifier s).2.toList :=
    (base_cases h).elim prefix_of_taken? prefix_of_taken?
  refine hbegins.isInfix.trans (List.IsSuffix.isInfix ?_)
  rcases splitQualifier_cases s with heq | ⟨q, -, rest, hs, heq⟩
  · rw [heq]
  · rw [heq, hs, String.toList_ofList]
    exact ⟨q.toList ++ [' '], by simp⟩

theorem needsLocation_iff {s : String} : needsLocation s = true ↔
    s.toList.getLast? = some ']' ∨ s = "string" ∨ s = "bytes" := by
  simp [needsLocation, or_assoc]

/-- At most one data location comes behind a type, and one where it needs one. -/
theorem exists_location_withLocation (reported : String) (qualifier : Option String)
    (base : String) : ∃ l ∈ ["", " calldata", " memory"],
      withLocation reported qualifier base = base ++ l ∧
        (needsLocation base = true ∨ qualifier = some "struct" → l ≠ "") := by
  rw [withLocation]
  split
  · exact ⟨_, by decide, rfl, fun _ => by decide⟩
  · exact ⟨_, by decide, rfl, fun _ => by decide⟩
  · split
    · exact ⟨_, by decide, rfl, fun _ => by decide⟩
    · next hneeds =>
      refine ⟨"", by decide, String.append_empty.symm, fun h => absurd h ?_⟩
      simpa using hneeds

theorem ofReported?_eq (text : String) : ofReported? text =
    if withoutInnerLocations (trim text) = "tuple()" then some .noValue
    else if "literal_string".toList <+: (withoutInnerLocations (trim text)).toList then
      some (.type "string memory")
    else (base? (splitQualifier (withoutInnerLocations (trim text)))).map fun b =>
      .type (withLocation (withoutInnerLocations (trim text))
        (splitQualifier (withoutInnerLocations (trim text))).1 b) := by
  simp only [ofReported?, beq_iff_eq, List.isPrefixOf_iff_prefix]
  rfl

/-- The type of string literals is read, or a name with a data location where it needs one. -/
theorem exists_of_ofReported? {text s : String} (h : ofReported? text = some (.type s)) :
    "literal_string".toList <+: (withoutInnerLocations (trim text)).toList ∧ s = "string memory" ∨
      ∃ b, base? (splitQualifier (withoutInnerLocations (trim text))) = some b ∧
        s = withLocation (withoutInnerLocations (trim text))
          (splitQualifier (withoutInnerLocations (trim text))).1 b := by
  rw [ofReported?_eq] at h
  split_ifs at h with htuple hliteral
  · cases Option.some.inj h
  · cases Option.some.inj h
    exact .inl ⟨hliteral, rfl⟩
  · obtain ⟨b, hb, heq⟩ := Option.map_eq_some_iff.1 h
    exact .inr ⟨b, hb, (ReturnFix.type.inj heq).symm⟩

end SoliditySession.ReturnFix
