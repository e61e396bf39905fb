import SoliditySession.Proofs.Replacing
import SoliditySession.Proofs.TypeName
/- Where a data location is written in the spelling of a type, how the inner ones are dropped and
the last one is found. -/
namespace SoliditySession.Solidity
open Pattern

/-- A data location as the compiler writes it. -/
inductive Location
  | memory
  | calldata
  | calldataSlice
  | storageRef
  | storagePointer
deriving DecidableEq

namespace Location

def word : Location → String
  | memory => "memory"
  | calldata | calldataSlice => "calldata"
  | storageRef | storagePointer => "storage"

/-- What is written behind the location. -/
def detail : Location → String
  | memory | calldata => ""
  | calldataSlice => " slice"
  | storageRef => " ref"
  | storagePointer => " pointer"

def chars (l : Location) : List Char := ' ' :: (l.word.toList ++ l.detail.toList)

theorem word_mem (l : Location) : l.word ∈ locations := by
  cases l <;> decide

end Location

def blankRuns (least : Nat) : Language Char :=
  {w | least ≤ w.length ∧ ∀ c ∈ w, Text.isBlank c = true}

def locationDetails : Language Char := blankRuns 1 * textsOf ["pointer", "ref", "slice"] + 1

theorem spells_locationDetail : locationDetail.Spells locationDetails :=
  ((Spells.many 1 Text.isBlank).append (Spells.words _)).optional

/-- What stands before the bracket behind an inner location. -/
def innerTexts : Language Char := blankRuns 1 * textsOf locations * locationDetails * blankRuns 0

theorem spells_innerLocation : innerLocation.Spells (innerTexts * {['[']}) :=
  ((((Spells.many 1 Text.isBlank).append (Spells.words locations)).append
    spells_locationDetail).append (Spells.many 0 Text.isBlank)).append (Spells.exactly '[')

theorem Location.detail_mem (l : Location) : l.detail.toList ∈ locationDetails := by
  have hblank : [' '] ∈ blankRuns 1 := ⟨by decide, by decide⟩
  cases l with
  | memory => exact .inr rfl
  | calldata => exact .inr rfl
  | calldataSlice => exact .inl ⟨_, hblank, _, ⟨"slice", by decide, rfl⟩, rfl⟩
  | storageRef => exact .inl ⟨_, hblank, _, ⟨"ref", by decide, rfl⟩, rfl⟩
  | storagePointer => exact .inl ⟨_, hblank, _, ⟨"pointer", by decide, rfl⟩, rfl⟩

theorem isBlank_of_head_detail {d : List Char} (hd : d ∈ locationDetails) :
    ∀ c ∈ d.head?, Text.isBlank c = true := by
  rcases hd with ⟨b, ⟨hpos, hb⟩, w, -, rfl⟩ | rfl
  · intro c hc
    obtain ⟨a, b, rfl⟩ := List.exists_cons_of_length_pos hpos
    obtain rfl : a = c := by simpa using hc
    exact hb a List.mem_cons_self
  · rintro c ⟨⟩

/-- The text begins with blanks and a word for a data location, which ends there. -/
def LocationAhead (cs : List Char) : Prop :=
  ∃ b ∈ blankRuns 1, ∃ w ∈ locations, ∃ rest : List Char, cs = b ++ (w.toList ++ rest) ∧
    ∀ c ∈ rest.head?, Text.isBlank c = true ∨ c = '['

theorem locationAhead_of_inner {p q : Place} (h : innerLocation.Reads p q) :
    LocationAhead p.ahead := by
  obtain ⟨_, ⟨_, ⟨_, ⟨_, ⟨b, hb, _, ⟨w, hw, rfl⟩, rfl⟩, d, hd, rfl⟩, b', hb', rfl⟩, _, rfl, rfl⟩,
    hpast⟩ := (spells_innerLocation p q).1 h
  refine ⟨b, hb, w, hw, d ++ (b' ++ '[' :: q.ahead), ?_, ?_⟩
  · rw [hpast.ahead]
    simp
  · have hd := isBlank_of_head_detail hd
    cases d with
    | cons c d => exact fun c hc => .inl (hd c hc)
    | nil =>
      cases b' with
      | nil => exact fun c hc => .inr (Option.some.inj hc).symm
      | cons a b' =>
        intro c hc
        obtain rfl : a = c := Option.some.inj hc
        exact .inl (hb'.2 a List.mem_cons_self)

theorem reads_trailingLocation {p q : Place} (h : trailingLocation.Reads p q) :
    ∃ a w d, Text.isBlank a = true ∧ w ∈ locations ∧ d ∈ locationDetails ∧
      p.ahead = a :: (w.toList ++ d) ∧ q = ⟨d.reverse ++ (w.toList.reverse ++ a :: p.behind), [],
        ("location", w.toList) :: p.marks⟩ := by
  obtain ⟨_, ⟨r, ⟨s, ⟨a, ha, hpast⟩, t, hw, rfl⟩, hd⟩, rfl, hend⟩ := h
  obtain ⟨_, ⟨w, hw, rfl⟩, hpast'⟩ := Spells.words locations s t |>.1 hw
  obtain ⟨d, hd', hpast''⟩ := (spells_locationDetail _ _).1 hd
  obtain ⟨behind, ahead, marks⟩ := q
  obtain rfl : ahead = [] := by simpa using hend
  have hahead : t.ahead = d := by simpa using hpast''.ahead
  have hbehind : behind = d.reverse ++ t.behind := hpast''.behind
  have hmarks : marks = ("location", s.upTo t) :: t.marks := hpast''.marks
  refine ⟨a, w, d, ha, hw, hd', ?_, ?_⟩
  · rw [hpast.ahead, hpast'.ahead, hahead]
    rfl
  · rw [hbehind, hmarks, hpast'.upTo_eq, hpast'.behind, hpast'.marks, hpast.behind, hpast.marks]
    rfl

theorem locationAhead_of_trailing {p q : Place} (h : trailingLocation.Reads p q) :
    LocationAhead p.ahead := by
  obtain ⟨a, w, d, ha, hw, hd, hahead, -⟩ := reads_trailingLocation h
  exact ⟨[a], ⟨by simp, by simpa using ha⟩, w, hw, d, hahead,
    fun c hc => .inl (isBlank_of_head_detail hd c hc)⟩

/-- Neither blank nor the beginning of a dimension, at which words of a spelling end. -/
def isSolid (c : Char) : Bool := !Text.isBlank c && c != '['

theorem isSolid_of_isIdentChar {c : Char} (h : isIdentChar c = true) : isSolid c = true := by
  rw [isSolid, isBlank_of_isIdentChar h]
  simp only [Bool.not_false, Bool.true_and, bne_iff_ne, ne_eq]
  rintro rfl
  exact absurd h (by decide)

theorem isBlank_of_isSolid {c : Char} (h : isSolid c = true) : Text.isBlank c = false := by
  simp only [isSolid, Bool.and_eq_true, Bool.not_eq_true'] at h
  exact h.1

theorem isSolid_of_mem_locations :
    ∀ v ∈ locations, v.toList ≠ [] ∧ ∀ c ∈ v.toList, isSolid c = true := by
  decide

theorem isBlank_of_head_solid {w rest : List Char} (hne : w ≠ [])
    (hw : ∀ c ∈ w, isSolid c = true) : ∀ c ∈ (w ++ rest).head?, Text.isBlank c = false := by
  intro c hc
  obtain ⟨a, w, rfl⟩ := List.exists_cons_of_ne_nil hne
  obtain rfl : a = c := Option.some.inj hc
  exact isBlank_of_isSolid (hw a List.mem_cons_self)

/-- At no character of the text is a data location ahead, with `rest` behind the text. -/
def Quiet (cs rest : List Char) : Prop := ∀ c t, c :: t <:+ cs → ¬ LocationAhead (c :: (t ++ rest))

namespace Quiet
variable {cs ds rest : List Char}

theorem of_no_blank (h : ∀ c ∈ cs, Text.isBlank c = false) : Quiet cs rest := by
  rintro c t ht ⟨b, ⟨hpos, hb⟩, w, -, e, heq, -⟩
  obtain ⟨a, b, rfl⟩ := List.exists_cons_of_length_pos hpos
  obtain ⟨rfl, -⟩ := List.cons.inj heq
  have hblank : Text.isBlank c = true := hb c List.mem_cons_self
  rw [h c (ht.subset List.mem_cons_self)] at hblank
  cases hblank

theorem append (h : Quiet cs (ds ++ rest)) (h' : Quiet ds rest) : Quiet (cs ++ ds) rest := by
  induction cs with
  | nil => exact h'
  | cons d cs ih =>
    intro c t ht
    rcases List.suffix_cons_iff.1 ht with heq | ht
    · obtain ⟨rfl, rfl⟩ := List.cons.inj heq
      have hcs := h c cs List.suffix_rfl
      rwa [← List.append_assoc] at hcs
    · exact ih (fun c t ht => h c t (ht.trans (List.suffix_cons d cs))) c t ht

/-- A space before a word is no beginning of a data location unless the word is one. -/
theorem space {w : List Char} (hw : ∀ c ∈ w, isSolid c = true) (hne : w ≠ [])
    (hrest : ∀ c ∈ rest.head?, isSolid c = false) (h : String.ofList w ∉ locations) :
    Quiet [' '] (w ++ rest) := by
  intro c t ht hahead
  obtain ⟨rfl, rfl⟩ : c = ' ' ∧ t = [] := by
    rcases List.suffix_cons_iff.1 ht with heq | ht
    · exact List.cons.inj heq
    · cases List.suffix_nil.1 ht
  obtain ⟨b, ⟨-, hb⟩, v, hv, e, heq, he⟩ := hahead
  obtain ⟨hvne, hvsolid⟩ := isSolid_of_mem_locations v hv
  have he : ∀ c ∈ e.head?, isSolid c = false := by
    intro c hc
    rcases he c hc with h | rfl
    · simp [isSolid, h]
    · decide
  have hcut : [' '] ++ (w ++ rest) = b ++ (v.toList ++ e) := heq
  obtain ⟨-, hcut⟩ := append_inj_of_stop (by decide) hb (isBlank_of_head_solid hne hw)
    (isBlank_of_head_solid hvne hvsolid) hcut
  obtain ⟨hwv, -⟩ := append_inj_of_stop hw hvsolid hrest he hcut
  rw [hwv, String.ofList_toList] at h
  exact h hv

end Quiet

theorem advance_inner (p q : Place) (h : innerLocation.Reads p q) :
    q.ahead.length < p.ahead.length := by
  obtain ⟨_, ⟨u, -, _, rfl, rfl⟩, hpast⟩ := (spells_innerLocation p q).1 h
  exact hpast.length_lt (by simp)

theorem replaced_quiet {before ahead : List Char} (h : Quiet before ahead) (behind : List Char) :
    innerLocation.replaced "[" behind (before ++ ahead) =
      before ++ innerLocation.replaced "[" (before.reverse ++ behind) ahead :=
  replaced_append behind ahead advance_inner fun c t _ ht =>
    matchAt?_eq_none_iff.2 fun _ hq => h c t ht (locationAhead_of_inner hq)

section
variable {c : Char} (hc : isBracket c = true)
include hc

theorem bracket_not_mem_blanks {least : Nat} {b : List Char} (hb : b ∈ blankRuns least) :
    c ∉ b := by
  intro hmem
  have hblank := hb.2 c hmem
  simp only [isBracket, Bool.or_eq_true, beq_iff_eq] at hc
  rcases hc with rfl | rfl
  · exact absurd hblank (by decide)
  · exact absurd hblank (by decide)

theorem bracket_not_mem_of_words {words : List String}
    (hwords : ∀ w ∈ words, ∀ x ∈ w.toList, isBracket x = false) : ∀ w ∈ words, c ∉ w.toList := by
  intro w hw hmem
  rw [hwords w hw c hmem] at hc
  cases hc

theorem bracket_not_mem_locations : ∀ w ∈ locations, c ∉ w.toList :=
  bracket_not_mem_of_words hc (by decide)

theorem bracket_not_mem_details {d : List Char} (hd : d ∈ locationDetails) : c ∉ d := by
  rcases hd with ⟨b, hb, _, ⟨w, hw, rfl⟩, rfl⟩ | rfl
  · exact fun hmem => (List.mem_append.1 hmem).elim (bracket_not_mem_blanks hc hb)
      (bracket_not_mem_of_words hc (by decide) w hw)
  · exact List.not_mem_nil

theorem bracket_not_mem_inner {u : List Char} (hu : u ∈ innerTexts) : c ∉ u := by
  obtain ⟨_, ⟨_, ⟨b, hb, _, ⟨w, hw, rfl⟩, rfl⟩, d, hd, rfl⟩, b', hb', rfl⟩ := hu
  simp only [List.mem_append, not_or]
  exact ⟨⟨⟨bracket_not_mem_blanks hc hb, bracket_not_mem_locations hc w hw⟩,
    bracket_not_mem_details hc hd⟩, bracket_not_mem_blanks hc hb'⟩

end

theorem Location.chars_mem (l : Location) : l.chars ∈ innerTexts := by
  have hblank : [' '] ∈ blankRuns 1 := ⟨by decide, by decide⟩
  refine ⟨_, ⟨_, ⟨_, hblank, _, ⟨_, l.word_mem, rfl⟩, rfl⟩, _, l.detail_mem, rfl⟩, [],
    ⟨by decide, by decide⟩, ?_⟩
  simp [Location.chars]

/-- A location before a bracket is read up to the bracket. -/
theorem matchAt?_inner (l : Location) (behind rest : List Char) :
    innerLocation.matchAt? ⟨behind, l.chars ++ '[' :: rest, []⟩ =
      some ⟨(l.chars ++ ['[']).reverse ++ behind, rest, []⟩ := by
  have hpast : Place.Past ⟨behind, l.chars ++ '[' :: rest, []⟩ (l.chars ++ ['['])
      ⟨(l.chars ++ ['[']).reverse ++ behind, rest, []⟩ := ⟨by simp, rfl, rfl⟩
  refine matchAt?_of_unique
    ((spells_innerLocation _ _).2 ⟨_, ⟨_, l.chars_mem, _, rfl, rfl⟩, hpast⟩) ?_
  intro r hr
  obtain ⟨_, ⟨u, hu, _, rfl, rfl⟩, hpast'⟩ := (spells_innerLocation _ r).1 hr
  have hahead : l.chars ++ '[' :: rest = u ++ '[' :: r.ahead := by
    simpa using hpast'.ahead
  have hne : ∀ {v : List Char}, '[' ∉ v → ∀ c ∈ v, (c != '[') = true := by
    intro v hv c hc
    simp only [bne_iff_ne, ne_eq]
    rintro rfl
    exact hv hc
  have hstop : ∀ {t : List Char}, ∀ c ∈ ('[' :: t).head?, (c != '[') = false := by
    rintro t c ⟨⟩
    decide
  obtain ⟨hu, -⟩ := append_inj_of_stop (hne (bracket_not_mem_inner rfl l.chars_mem))
    (hne (bracket_not_mem_inner rfl hu)) hstop hstop hahead
  rw [← hu] at hpast'
  exact hpast.unique hpast'

theorem matchAt?_inner_eq_none {p : Place} (h : '[' ∉ p.ahead) :
    innerLocation.matchAt? p = none := by
  rw [matchAt?_eq_none_iff]
  intro q hq
  obtain ⟨_, ⟨u, -, _, rfl, rfl⟩, hpast⟩ := (spells_innerLocation p q).1 hq
  rw [hpast.ahead] at h
  simp at h

theorem replaced_inner_nil (behind : List Char) : innerLocation.replaced "[" behind [] = [] := by
  refine replaced_of_none ?_
  rw [search, matchAt?_inner_eq_none (by simp)]
  rfl

theorem replaced_location (l : Location) (behind : List Char) :
    innerLocation.replaced "[" behind l.chars = l.chars := by
  have hnone : ∀ c t behind', c :: t <:+ l.chars →
      innerLocation.matchAt? ⟨behind', c :: (t ++ []), []⟩ = none := by
    intro c t behind' ht
    refine matchAt?_inner_eq_none fun hmem =>
      bracket_not_mem_inner (c := '[') rfl l.chars_mem (ht.subset ?_)
    rwa [List.append_nil] at hmem
  have h : innerLocation.replaced "[" behind (l.chars ++ []) =
      l.chars ++ innerLocation.replaced "[" (l.chars.reverse ++ behind) [] :=
    replaced_append behind [] advance_inner hnone
  rwa [replaced_inner_nil, List.append_nil] at h

/-- An array dimension with the data location written behind it. -/
structure Level where
  inside : List Char
  noBracket : ∀ c ∈ inside, isBracket c = false
  location : Location

namespace Level

def brackets (v : Level) : List Char := '[' :: (v.inside ++ [']'])

def chars (v : Level) : List Char := v.brackets ++ v.location.chars

theorem bracketed (v : Level) : Bracketed v.brackets := ⟨v.inside, v.noBracket, rfl⟩

theorem bracketed_of_mem (levels : List Level) : ∀ w ∈ levels.map brackets, Bracketed w :=
  List.forall_mem_map.2 fun v _ => v.bracketed

/-- A dimension is a level with any location. -/
theorem exists_level (length : Option Nat) (l : Location) :
    ∃ v : Level, v.brackets = dimension length ∧ v.location = l := by
  obtain ⟨inside, hinside, h⟩ := bracketed_dimension length
  exact ⟨⟨inside, hinside, l⟩, h.symm, rfl⟩

end Level

/-- The location of the last dimension, or the one before all of them. -/
def lastLocation (l : Location) : List Level → Location
  | [] => l
  | v :: levels => lastLocation v.location levels

theorem exists_lastLocation (v : Level) (levels : List Level) :
    ∃ w ∈ v :: levels, lastLocation v.location levels = w.location := by
  induction levels generalizing v with
  | nil => exact ⟨v, List.mem_cons_self, rfl⟩
  | cons u levels ih =>
    obtain ⟨w, hw, hlast⟩ := ih u
    exact ⟨w, List.mem_cons_of_mem v hw, hlast⟩

/-- The bracket behind an inner location opens a dimension, so none is closed before it. -/
theorem matchAt?_inner_open {behind v rest : List Char} (hv : '[' ∉ v) :
    innerLocation.matchAt? ⟨behind, v ++ ']' :: rest, []⟩ = none := by
  rw [matchAt?_eq_none_iff]
  intro q hq
  obtain ⟨_, ⟨u, hu, _, rfl, rfl⟩, hpast⟩ := (spells_innerLocation _ q).1 hq
  have hahead : v ++ ']' :: rest = u ++ '[' :: q.ahead := by simpa using hpast.ahead
  rcases List.append_eq_append_iff.1 hahead with ⟨t, rfl, ht⟩ | ⟨t, rfl, ht⟩
  · cases t with
    | nil => cases ht
    | cons c t =>
      obtain rfl : ']' = c := (List.cons.inj ht).1
      exact bracket_not_mem_inner (c := ']') rfl hu (by simp)
  · cases t with
    | nil => cases ht
    | cons c t =>
      obtain rfl : '[' = c := (List.cons.inj ht).1
      simp at hv

theorem replaced_inside (v : Level) (behind rest : List Char) :
    innerLocation.replaced "[" behind ((v.inside ++ [']']) ++ rest) =
      (v.inside ++ [']']) ++
        innerLocation.replaced "[" ((v.inside ++ [']']).reverse ++ behind) rest := by
  refine replaced_append behind rest advance_inner fun c t behind' ht => ?_
  obtain ⟨u, hu, hsuffix⟩ := (List.suffix_concat_iff.1 ht).resolve_left (List.cons_ne_nil c t)
  have hbracket : '[' ∉ u := fun hmem => absurd (v.noBracket _ (hsuffix.subset hmem)) (by decide)
  rw [← List.cons_append, hu, List.append_assoc]
  exact matchAt?_inner_open hbracket

/-- Of the locations written after each dimension the last one stays. -/
theorem replaced_levels (l : Location) (levels : List Level) (behind : List Char) :
    innerLocation.replaced "[" behind (l.chars ++ (levels.map Level.chars).flatten) =
      (levels.map Level.brackets).flatten ++ (lastLocation l levels).chars := by
  induction levels generalizing l behind with
  | nil => simpa [lastLocation] using replaced_location l behind
  | cons v levels ih =>
    have htext : l.chars ++ ((v :: levels).map Level.chars).flatten =
        l.chars ++ '[' :: ((v.inside ++ [']']) ++
          (v.location.chars ++ (levels.map Level.chars).flatten)) := by
      simp [Level.chars, Level.brackets]
    have hshort : ∀ u : List Char, u.length < (l.chars ++ '[' :: u).length := by
      intro u
      rw [List.length_append, List.length_cons]
      omega
    rw [htext, replaced_of_match (matchAt?_inner l behind _) (hshort _), replaced_inside, ih]
    simp [Level.brackets, lastLocation]

theorem exists_levels (l : Location) (lengths : List (Option Nat)) : ∃ levels : List Level,
    levels.map Level.brackets = lengths.map dimension ∧
      levels.map Level.chars = lengths.map (fun n => dimension n ++ l.chars) ∧
      lastLocation l levels = l := by
  induction lengths with
  | nil => exact ⟨[], rfl, rfl, rfl⟩
  | cons n lengths ih =>
    obtain ⟨levels, hbrackets, hchars, hlast⟩ := ih
    obtain ⟨v, hv, rfl⟩ := Level.exists_level n l
    refine ⟨v :: levels, ?_, ?_, hlast⟩
    · rw [List.map_cons, List.map_cons, hv, hbrackets]
    · rw [List.map_cons, List.map_cons, hchars, Level.chars, hv]

theorem replaced_located (l : Location) (lengths : List (Option Nat)) (behind : List Char) :
    innerLocation.replaced "[" behind
        (l.chars ++ (lengths.map fun n => dimension n ++ l.chars).flatten) =
      dimensionsOf lengths ++ l.chars := by
  obtain ⟨levels, hbrackets, hchars, hlast⟩ := exists_levels l lengths
  have hreplaced := replaced_levels l levels behind
  rwa [hbrackets, hchars, hlast] at hreplaced

/-- A data location at the end of a text is read with the blank before it. -/
theorem reads_trailing {a : Char} {w : String} {d : List Char} (ha : Text.isBlank a = true)
    (hw : w ∈ locations) (hd : d ∈ locationDetails) (behind : List Char) :
    trailingLocation.Reads ⟨behind, a :: (w.toList ++ d), []⟩
      ⟨d.reverse ++ (w.toList.reverse ++ a :: behind), [], [("location", w.toList)]⟩ := by
  have hword : Place.Past ⟨a :: behind, w.toList ++ d, []⟩ w.toList
      ⟨w.toList.reverse ++ a :: behind, d, []⟩ := .intro _ _ _ _
  refine ⟨_, ⟨_, ⟨_, ⟨a, ha, .intro behind [a] _ []⟩, _,
    (Spells.words locations _ _).2 ⟨_, ⟨w, hw, rfl⟩, hword⟩, rfl⟩,
    (spells_locationDetail _ _).2 ⟨_, hd, ?_⟩⟩, rfl, rfl⟩
  exact ⟨(List.append_nil _).symm, rfl,
    congrArg (fun text => [("location", text)]) hword.upTo_eq.symm⟩

/-- The location at the end of a text is read whole. -/
theorem matchAt?_trailing (l : Location) (behind : List Char) :
    trailingLocation.matchAt? ⟨behind, l.chars, []⟩ =
      some ⟨l.detail.toList.reverse ++ (l.word.toList.reverse ++ ' ' :: behind), [],
        [("location", l.word.toList)]⟩ := by
  refine matchAt?_of_unique (reads_trailing (by decide) l.word_mem l.detail_mem behind) ?_
  intro r hr
  obtain ⟨a, w, d, -, hw, hd, hahead, rfl⟩ := reads_trailingLocation hr
  have hahead : ' ' :: (l.word.toList ++ l.detail.toList) = a :: (w.toList ++ d) := hahead
  obtain ⟨rfl, htail⟩ := List.cons.inj hahead
  have hsolid : ∀ v ∈ locations, ∀ c ∈ v.toList, (!Text.isBlank c) = true := by decide
  obtain ⟨hword, hdetail⟩ := append_inj_of_stop (hsolid _ l.word_mem) (hsolid _ hw)
    (fun c hc => by rw [isBlank_of_head_detail l.detail_mem c hc]; rfl)
    (fun c hc => by rw [isBlank_of_head_detail hd c hc]; rfl) htail
  rw [hword, hdetail]

/-- The location is found where nothing before it passes for one. -/
theorem location?_of_passed {before : List Char} {l : Location}
    (h : ∀ c t behind, c :: t <:+ before →
      trailingLocation.matchAt? ⟨behind, c :: (t ++ l.chars), []⟩ = none) :
    location? (.ofList (before ++ l.chars)) = some l.word := by
  have hsearch := search_append [] l.chars h
  rw [search_of_match (matchAt?_trailing l _)] at hsearch
  rw [location?, find?, String.toList_ofList, hsearch]
  simp [Place.mark?]

theorem location?_eq {before : List Char} {l : Location} (h : Quiet before l.chars) :
    location? (.ofList (before ++ l.chars)) = some l.word :=
  location?_of_passed fun c t _ ht =>
    matchAt?_eq_none_iff.2 fun _ hq => h c t ht (locationAhead_of_trailing hq)

theorem matchAt?_trailing_open {p : Place} (h : ']' ∈ p.ahead) :
    trailingLocation.matchAt? p = none := by
  rw [matchAt?_eq_none_iff]
  intro q hq
  obtain ⟨a, w, d, ha, hw, hd, hahead, -⟩ := reads_trailingLocation hq
  rw [hahead, List.mem_cons, List.mem_append] at h
  rcases h with rfl | h | h
  · exact absurd ha (by decide)
  · exact bracket_not_mem_locations (c := ']') rfl w hw h
  · exact bracket_not_mem_details (c := ']') rfl hd h

/-- A data location behind a closed dimension is the one at the end of the text. -/
theorem location?_closed {before : List Char} {l : Location} (h : before.getLast? = some ']') :
    location? (.ofList (before ++ l.chars)) = some l.word := by
  obtain ⟨init, rfl⟩ := List.getLast?_eq_some_iff.1 h
  refine location?_of_passed fun c t behind ht => matchAt?_trailing_open ?_
  obtain ⟨u, hu, -⟩ := (List.suffix_concat_iff.1 ht).resolve_left (List.cons_ne_nil c t)
  change ']' ∈ c :: t ++ l.chars
  simp [hu]

theorem location?_eq_none {before : List Char} (h : Quiet before []) :
    location? (.ofList before) = none := by
  have hsearch : trailingLocation.search [] (before ++ []) = none := by
    rw [search_append [] [] fun c t _ ht =>
      matchAt?_eq_none_iff.2 fun _ hq => h c t ht (locationAhead_of_trailing hq), search,
      matchAt?_eq_none_iff.2]
    · rfl
    · intro q hq
      obtain ⟨a, w, d, -, -, -, hahead, -⟩ := reads_trailingLocation hq
      cases hahead
  rw [List.append_nil] at hsearch
  rw [location?, find?, String.toList_ofList, hsearch]
  rfl

/-- A data location is found exactly where the text ends in one, with a blank before it. -/
theorem location?_isSome_iff {cs : List Char} : (location? (.ofList cs)).isSome = true ↔
    ∃ u a w d, cs = u ++ a :: (w.toList ++ d) ∧ Text.isBlank a = true ∧ w ∈ locations ∧
      d ∈ locationDetails := by
  rw [location?, find?, String.toList_ofList]
  cases h : trailingLocation.search [] cs with
  | none =>
    refine ⟨nofun, ?_⟩
    rintro ⟨u, a, w, d, hcs, ha, hw, hd⟩
    have hnone := matchAt?_eq_none_iff.1 (matchAt?_eq_none_of_search h hcs)
    exact absurd (reads_trailing ha hw hd _) (hnone _)
  | some found =>
    obtain ⟨⟨u, hcs⟩, hmatch⟩ := exists_of_search h
    obtain ⟨q, hq, heq⟩ := exists_reads hmatch
    obtain ⟨a, w, d, ha, hw, hd, hahead, rfl⟩ := reads_trailingLocation hq
    refine ⟨fun _ => ⟨u, a, w, d, by rw [← hcs, hahead], ha, hw, hd⟩, fun _ => ?_⟩
    rw [Option.bind_some, ← Option.some.inj heq]
    rfl

end SoliditySession.Solidity
