import SoliditySession.Proofs.TypeRecovery
/- Names of user value types, which the compiler reports without a keyword: which of them are given
back whole, and what is read of the others. -/
namespace SoliditySession
open Solidity Pattern

/-- A user value type or arrays of it, as the compiler reports them. -/
structure UserValue where
  path : Path
  levels : List Level
  notElementary : ¬ Elementary (.ofList path.first.chars)
  notCalldata : ∀ v ∈ levels, v.location.word ≠ "calldata"

namespace UserValue
variable (t : UserValue)

def spelling : String := .ofList (t.path.chars ++ (t.levels.map Level.chars).flatten)

/-- The type without data locations. -/
def bare : List Char := t.path.chars ++ (t.levels.map Level.brackets).flatten

/-- The type as it can be returned. -/
def returned : String := .ofList (t.bare ++ if t.levels.isEmpty then [] else " memory".toList)

/-- The data location of the value, which only arrays have. -/
def ending : List Char :=
  match t.levels with
  | [] => []
  | v :: levels => (lastLocation v.location levels).chars

/-- The spelling once the inner locations are dropped. -/
def stripped : List Char := t.bare ++ t.ending

theorem isSolid_of_mem_path : ∀ c ∈ t.path.chars, isSolid c = true := by
  intro c hc
  rcases t.path.chars_char c hc with h | rfl
  · exact isSolid_of_isIdentChar h
  · decide

theorem trim_spelling : Text.trim t.spelling = t.spelling := by
  have hlast : ∃ d, (t.path.chars ++ (t.levels.map Level.chars).flatten).getLast? = some d ∧
      Text.isBlank d = false := by
    rcases List.eq_nil_or_concat t.levels with h | ⟨init, v, h⟩
    · have hne : t.path.chars ≠ [] := List.cons_ne_nil _ _
      refine ⟨t.path.chars.getLast hne, ?_, ?_⟩
      · rw [h, List.map_nil, List.flatten_nil, List.append_nil, List.getLast?_eq_some_getLast hne]
      · exact isBlank_of_isSolid (t.isSolid_of_mem_path _ (List.getLast_mem hne))
    · obtain ⟨d, hd, hblank⟩ : ∃ d, v.location.chars.getLast? = some d ∧
          Text.isBlank d = false := by
        cases v.location <;> exact ⟨_, rfl, by decide⟩
      refine ⟨d, ?_, hblank⟩
      simp [h, Level.chars, List.getLast?_append, hd]
  obtain ⟨d, hd, hblank⟩ := hlast
  have htrimmed : Text.Trimmed (t.path.chars ++ (t.levels.map Level.chars).flatten) :=
    .of_ends rfl (isBlank_of_isIdentChar (isIdentChar_of_isIdentStart t.path.first.first_start))
      hd hblank
  rw [Text.trim, spelling, String.toList_ofList, htrimmed.trim_eq]

theorem withoutInnerLocations_spelling :
    withoutInnerLocations t.spelling = .ofList t.stripped := by
  have hquiet : Quiet t.path.chars (t.levels.map Level.chars).flatten :=
    .of_no_blank fun c hc => isBlank_of_isSolid (t.isSolid_of_mem_path c hc)
  rw [withoutInnerLocations, Pattern.replaceAll_eq, spelling, String.toList_ofList,
    replaced_quiet hquiet, stripped, bare, List.append_assoc]
  congr 2
  rw [ending]
  cases t.levels with
  | nil => exact replaced_inner_nil _
  | cons v levels =>
    have hopen : Quiet ['['] ((v.inside ++ [']']) ++
        (v.location.chars ++ (levels.map Level.chars).flatten)) := .of_no_blank (by decide)
    have htext : ((v :: levels).map Level.chars).flatten = ['['] ++ ((v.inside ++ [']']) ++
        (v.location.chars ++ (levels.map Level.chars).flatten)) := by
      simp [Level.chars, Level.brackets]
    rw [htext, replaced_quiet hopen, replaced_inside, replaced_levels]
    simp [Level.brackets]

theorem bare_of_nil (h : t.levels = []) : t.bare = t.path.chars := by
  simp [bare, h]

theorem stripped_of_nil (h : t.levels = []) : t.stripped = t.path.chars := by
  simp [stripped, bare, ending, h]

theorem getLast?_bare (h : t.levels ≠ []) : t.bare.getLast? = some ']' := by
  obtain ⟨init, v, hlevels⟩ := (List.eq_nil_or_concat t.levels).resolve_left h
  have hlast : v.brackets.getLast? = some ']' := by
    rw [Level.brackets, ← List.cons_append, List.getLast?_concat]
  simp [bare, hlevels, List.getLast?_append, hlast]

theorem ne_tuple : String.ofList t.stripped ≠ "tuple()" := by
  intro h
  have hchars : t.stripped = "tuple()".toList := by rw [← h, String.toList_ofList]
  cases hlevels : t.levels with
  | nil =>
    have hmem : '(' ∈ t.path.chars := by
      rw [← t.stripped_of_nil hlevels, hchars]
      decide
    exact absurd (t.path.chars_char _ hmem) (by decide)
  | cons v levels =>
    have hmem : '[' ∈ t.stripped := by simp [stripped, bare, hlevels, Level.brackets]
    rw [hchars] at hmem
    exact absurd hmem (by decide)

theorem splitQualifier_stripped :
    ReturnFix.splitQualifier (.ofList t.stripped) = (none, .ofList t.stripped) := by
  refine ReturnFix.splitQualifier_of_not_mem fun hspace h => ?_
  cases hlevels : t.levels with
  | nil =>
    rw [t.stripped_of_nil hlevels] at hspace
    exact absurd (t.path.chars_char _ hspace) (by decide)
  | cons v levels =>
    -- the first dimension opens before any space
    have hqualifiers : ∀ q ∈ ReturnFix.qualifiers, '[' ∉ q.toList := by decide
    refine hqualifiers _ h ?_
    have hpath : ∀ c ∈ t.path.chars, (c != ' ') = true := by
      intro c hc
      simp only [bne_iff_ne, ne_eq]
      rintro rfl
      exact absurd (t.path.chars_char _ hc) (by decide)
    have hstripped : t.stripped = t.path.chars ++ '[' :: ((v.inside ++ [']']) ++
        ((levels.map Level.brackets).flatten ++ t.ending)) := by
      simp [stripped, bare, hlevels, Level.brackets]
    rw [hstripped, String.toList_ofList, List.takeWhile_append_of_pos hpath,
      List.takeWhile_cons_of_pos (by decide)]
    simp

theorem head?_ending : ∀ c ∈ t.ending.head?, c = ' ' := by
  rw [ending]
  split
  · rintro c ⟨⟩
  · exact fun c hc => (Option.some.inj hc).symm

theorem firstWord_ending : ∀ l ∈ Text.firstWord (.ofList t.ending), l ∈ locations := by
  rw [ending]
  split
  · decide
  · next v levels _ => cases lastLocation v.location levels <;> decide +kernel

/-- What follows the first identifier ends it. -/
theorem exists_behind_first : ∃ r, t.stripped = t.path.first.chars ++ r ∧
    ∀ c ∈ r.head?, c = '.' ∨ c = ' ' ∨ c = '[' := by
  obtain ⟨r, hsplit, hr⟩ :=
    t.path.exists_behind_first ((t.levels.map Level.brackets).flatten ++ t.ending)
  refine ⟨r, by rw [stripped, bare, List.append_assoc, hsplit], fun c hc => ?_⟩
  exact (hr c hc).imp_right fun h =>
    head?_brackets_append t.head?_ending (Level.bracketed_of_mem t.levels) c h

theorem bareUserType?_stripped :
    ReturnFix.bareUserType? (.ofList t.stripped) = some (.ofList t.bare) :=
  ReturnFix.bareUserType?_eq (userPrefix?_brackets t.head?_ending t.path
    (Level.bracketed_of_mem t.levels)) t.firstWord_ending

theorem needsLocation_path : needsLocation (.ofList t.path.chars) = false := by
  have hlast : (t.path.chars.getLast? == some ']') = false := by
    rw [beq_eq_false_iff_ne]
    intro h
    exact absurd (t.path.chars_char _ (List.mem_of_getLast? h)) (by decide)
  have hstring : String.ofList t.path.chars ≠ "string" :=
    Path.ne_elementary t.notElementary (by decide) (.plain (by decide))
  have hbytes : String.ofList t.path.chars ≠ "bytes" :=
    Path.ne_elementary t.notElementary (by decide) (.plain (by decide))
  simp [needsLocation, hlast, hstring, hbytes]

theorem withLocation_stripped :
    ReturnFix.withLocation (.ofList t.stripped) none (.ofList t.bare) = t.returned := by
  rw [ReturnFix.withLocation, returned]
  cases hlevels : t.levels with
  | nil =>
    have hquiet : Quiet t.path.chars [] :=
      .of_no_blank fun c hc => isBlank_of_isSolid (t.isSolid_of_mem_path c hc)
    rw [t.stripped_of_nil hlevels, t.bare_of_nil hlevels, location?_eq_none hquiet,
      t.needsLocation_path]
    simp
  | cons v levels =>
    have hne : t.levels ≠ [] := by simp [hlevels]
    have hneeds : needsLocation (.ofList t.bare) = true := by
      simp [needsLocation, t.getLast?_bare hne]
    have hword : (lastLocation v.location levels).word ≠ "calldata" := by
      obtain ⟨w, hw, hlast⟩ := exists_lastLocation v levels
      rw [hlast]
      exact t.notCalldata w (hlevels ▸ hw)
    have hlocation : location? (.ofList t.stripped) =
        some (lastLocation v.location levels).word := by
      rw [stripped, ending, hlevels]
      exact location?_closed (t.getLast?_bare hne)
    rw [hlocation, hneeds]
    cases h : lastLocation v.location levels with
    | calldata => exact absurd (h ▸ rfl) hword
    | calldataSlice => exact absurd (h ▸ rfl) hword
    | memory => simp [Location.word]
    | storageRef => simp [Location.word]
    | storagePointer => simp [Location.word]

theorem literal_prefix_iff : "literal_string".toList <+: t.stripped ↔
    "literal_string".toList <+: t.path.first.chars := by
  obtain ⟨r, hsplit, hr⟩ := t.exists_behind_first
  have hstop : ∀ c ∈ r.head?, isIdentChar c = false := by
    intro c hc
    rcases hr c hc with rfl | rfl | rfl <;> decide
  rw [hsplit]
  exact ⟨prefix_of_prefix_append (by decide) hstop, fun h => h.trans (List.prefix_append _ _)⟩

/-- What the type is read as, by the built-in name found at its start, if one is. -/
theorem ofReported?_spelling : ReturnFix.ofReported? t.spelling =
    if "literal_string".toList <+: t.path.first.chars then some (.type "string memory")
    else some (.type (ReturnFix.withLocation (.ofList t.stripped) none
      ((elementaryPrefix? (.ofList t.stripped)).getD (.ofList t.bare)))) := by
  have hliteral := t.literal_prefix_iff
  rw [← String.toList_ofList (l := t.stripped)] at hliteral
  rw [ReturnFix.ofReported?_eq, t.trim_spelling, t.withoutInnerLocations_spelling,
    if_neg t.ne_tuple, t.splitQualifier_stripped, ReturnFix.base?]
  simp only [hliteral, t.bareUserType?_stripped]
  cases elementaryPrefix? (.ofList t.stripped) <;> rfl

/-- No built-in name is found where none stands before a `$` at the start. -/
theorem elementaryPrefix?_eq_none
    (h : ∀ s, Elementary s → ¬ s.toList ++ ['$'] <+: t.path.first.chars) :
    elementaryPrefix? (.ofList t.stripped) = none := by
  obtain ⟨r, hsplit, hr⟩ := t.exists_behind_first
  have hword : ∀ c ∈ t.path.first.chars.takeWhile Text.isAsciiWord, Text.isAsciiWord c = true :=
    fun c hc => List.mem_takeWhile_imp hc
  have hcut := List.takeWhile_append_dropWhile (p := Text.isAsciiWord) (l := t.path.first.chars)
  generalize t.path.first.chars.takeWhile Text.isAsciiWord = w at hcut hword
  cases hdrop : t.path.first.chars.dropWhile Text.isAsciiWord with
  | nil =>
    rw [hdrop, List.append_nil] at hcut
    rw [hsplit, ← hcut]
    refine Solidity.elementaryPrefix?_eq_none hword ?_ (hcut ▸ t.notElementary)
    intro c hc
    rcases hr c hc with rfl | rfl | rfl <;> decide +kernel
  | cons c v =>
    have hstop := List.head?_dropWhile_not Text.isAsciiWord t.path.first.chars
    rw [hdrop] at hstop hcut
    have hident : isIdentChar c = true := t.path.first.chars_char c (by simp [← hcut])
    obtain rfl : c = '$' := eq_dollar hident hstop
    rw [hsplit, ← hcut, List.append_assoc]
    refine Solidity.elementaryPrefix?_eq_none hword ?_ fun hw => h _ hw ?_
    · rintro c ⟨⟩
      decide +kernel
    · rw [String.toList_ofList, ← hcut]
      simp

/-- A built-in name before a `$` is taken for the whole type. -/
theorem elementaryPrefix?_dollar {s : String} (hs : Elementary s)
    (h : s.toList ++ ['$'] <+: t.path.first.chars) :
    elementaryPrefix? (.ofList t.stripped) = some s := by
  obtain ⟨r, hsplit, -⟩ := t.exists_behind_first
  obtain ⟨u, hu⟩ := h
  have hstop : ∀ c ∈ ('$' :: (u ++ r)).head?, Text.isWord c = false := by
    rintro c ⟨⟩
    decide +kernel
  have hfound := elementaryPrefix?_of_stop hs [] hstop (by simp)
    fun h => absurd (List.cons_prefix_cons.1 h).1 (by decide)
  rw [hsplit, ← hu]
  simpa [dimensionsOf] using hfound

theorem first_prefix_returned : t.path.first.chars <+: t.returned.toList := by
  rw [returned, String.toList_ofList, bare, Path.chars, List.append_assoc, List.append_assoc]
  exact List.prefix_append _ _

/-- The type is not given back where a built-in name is read in its place. -/
theorem returned_ne_withLocation {s : String} (h : s.toList ++ ['$'] <+: t.path.first.chars)
    (reported : String) : t.returned ≠ ReturnFix.withLocation reported none s := by
  obtain ⟨l, hl, heq, -⟩ := ReturnFix.exists_location_withLocation reported none s
  intro hsame
  have hprefix := h.trans t.first_prefix_returned
  rw [hsame, heq, String.toList_append, List.prefix_append_right_inj] at hprefix
  have hall : ∀ l ∈ ["", " calldata", " memory"], ¬ ['$'] <+: l.toList := by decide
  exact hall l hl hprefix

/-- A user value type is given back whole, with its dimensions, just if its name does not begin as
the type of a literal does and no built-in name stands before a `$` at its start. -/
theorem ofReported?_eq_returned_iff : ReturnFix.ofReported? t.spelling = some (.type t.returned) ↔
    ¬ "literal_string".toList <+: t.path.first.chars ∧
    ∀ s, Elementary s → ¬ s.toList ++ ['$'] <+: t.path.first.chars := by
  rw [t.ofReported?_spelling]
  constructor
  · intro h
    have hliteral : ¬ "literal_string".toList <+: t.path.first.chars := by
      intro hprefix
      rw [if_pos hprefix] at h
      have hreturned := hprefix.trans t.first_prefix_returned
      rw [← ReturnFix.type.inj (Option.some.inj h)] at hreturned
      exact absurd hreturned (by decide)
    refine ⟨hliteral, fun s hs hprefix => ?_⟩
    rw [if_neg hliteral, t.elementaryPrefix?_dollar hs hprefix, Option.getD_some] at h
    exact t.returned_ne_withLocation hprefix _ (ReturnFix.type.inj (Option.some.inj h)).symm
  · rintro ⟨hliteral, hdollar⟩
    rw [if_neg hliteral, t.elementaryPrefix?_eq_none hdollar, Option.getD_none,
      t.withLocation_stripped]

def dollarPath : Path :=
  ⟨⟨'W', "ad$Lib".toList, by decide, by decide⟩, [⟨'Q', "uote".toList, by decide, by decide⟩]⟩

theorem not_prefix_dollar {s : String} (hs : Elementary s) :
    ¬ s.toList <+: dollarPath.first.chars := by
  rintro ⟨r, hr⟩
  obtain ⟨c, hc, hhead⟩ := hs.head?_mem
  obtain ⟨cs, hcs⟩ := List.head?_eq_some_iff.1 hhead
  rw [hcs] at hr
  obtain rfl : c = 'W' := (List.cons.inj hr).1
  exact absurd hc (by decide)

/-- A `$` by itself does no harm. -/
theorem ofReported?_quote_levels :
    let t : UserValue := ⟨dollarPath, [⟨['3'], by decide, .storageRef⟩, ⟨[], by decide, .memory⟩],
      fun h => not_prefix_dollar h (by simp), by simp [Location.word]⟩
    t.spelling = "Wad$Lib.Quote[3] storage ref[] memory" ∧
    ReturnFix.ofReported? t.spelling = some (.type "Wad$Lib.Quote[3][] memory") := by
  intro t
  have hreturned : t.returned = "Wad$Lib.Quote[3][] memory" := by decide +kernel
  refine ⟨by decide +kernel, hreturned ▸ t.ofReported?_eq_returned_iff.2 ⟨by decide, ?_⟩⟩
  exact fun s hs h => not_prefix_dollar hs ((List.prefix_append _ _).trans h)

theorem not_elementary_uintDollar : ¬ Elementary "uint$x" := by
  intro h
  rcases h.chars with h | ⟨-, h⟩
  · exact absurd h (by decide)
  · exact absurd h (by decide)

/-- Of a name that begins as a built-in one and goes on with a `$` the built-in one is left. -/
theorem ofReported?_uintDollar :
    let t : UserValue := ⟨⟨⟨'u', "int$x".toList, by decide, by decide⟩, []⟩, [],
      not_elementary_uintDollar, by simp⟩
    t.spelling = "uint$x" ∧ t.returned = "uint$x" ∧
    ReturnFix.ofReported? t.spelling = some (.type "uint") := by
  intro t
  refine ⟨by decide +kernel, by decide +kernel, ?_⟩
  rw [t.ofReported?_spelling, if_neg (by decide),
    t.elementaryPrefix?_dollar (.plain (by decide : "uint" ∈ _)) ⟨['x'], rfl⟩]
  decide +kernel

end UserValue
end SoliditySession
