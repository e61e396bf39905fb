import SoliditySession.Proofs.Reading
import SoliditySession.Solidity.TypeSpelling
/- What names a type, that is built-in names, paths and array dimensions, and how it is read. -/
namespace SoliditySession.Solidity
open Pattern

scoped instance (priority := high) decidableForallMem {cs : List Char} {p : Char → Prop}
    [DecidablePred p] : Decidable (∀ c ∈ cs, p c) := List.decidableBAll p cs

scoped instance (priority := high) decidableExistsMem {cs : List Char} {p : Char → Prop}
    [DecidablePred p] : Decidable (∃ c ∈ cs, p c) := List.decidableBEx p cs

scoped instance (priority := high) decidableForallSome {o : Option Char} {p : Char → Prop}
    [DecidablePred p] : Decidable (∀ c ∈ o, p c) := Option.decidableForallMem o

theorem toNat_of_isAlpha {c : Char} (h : c.isAlpha = true) :
    (65 ≤ c.toNat ∧ c.toNat ≤ 90) ∨ (97 ≤ c.toNat ∧ c.toNat ≤ 122) := by
  have hcases : (decide (c.val ≥ 'A'.val ∧ c.val ≤ 'Z'.val) ||
      (decide (c.val ≥ 'a'.val) && decide (c.val ≤ 'z'.val))) = true := h
  simp only [Bool.or_eq_true, Bool.and_eq_true, decide_eq_true_eq, ge_iff_le,
    UInt32.le_iff_toNat_le] at hcases
  exact hcases

theorem toNat_of_isIdentChar {c : Char} (h : isIdentChar c = true) :
    c.toNat = 36 ∨ c.toNat = 95 ∨ (48 ≤ c.toNat ∧ c.toNat ≤ 57) ∨ (65 ≤ c.toNat ∧ c.toNat ≤ 90) ∨
      (97 ≤ c.toNat ∧ c.toNat ≤ 122) := by
  simp only [isIdentChar, Char.isAlphanum, Char.isDigit, Bool.or_eq_true, Bool.and_eq_true,
    decide_eq_true_eq, beq_iff_eq, ge_iff_le, UInt32.le_iff_toNat_le] at h
  rcases h with ((halpha | hdigit) | rfl) | rfl
  · exact .inr (.inr (.inr (toNat_of_isAlpha halpha)))
  · exact .inr (.inr (.inl hdigit))
  · exact .inl rfl
  · exact .inr (.inl rfl)

theorem isBlank_of_isIdentChar {c : Char} (h : isIdentChar c = true) : Text.isBlank c = false := by
  have hc := toNat_of_isIdentChar h
  simp only [Text.isBlank, Bool.or_eq_false_iff, Bool.and_eq_false_iff, decide_eq_false_iff_not,
    beq_eq_false_iff_ne, ne_eq]
  omega

theorem isIdentChar_of_isIdentStart {c : Char} (h : isIdentStart c = true) :
    isIdentChar c = true := by
  simp only [isIdentStart, isIdentChar, Char.isAlphanum, Bool.or_eq_true] at h ⊢
  tauto

theorem isIdentChar_of_isAsciiWord {c : Char} (h : Text.isAsciiWord c = true) :
    isIdentChar c = true := by
  simp only [Text.isAsciiWord, isIdentChar, Bool.or_eq_true] at h ⊢
  tauto

/-- The identifier character that is no word character. -/
theorem eq_dollar {c : Char} (h : isIdentChar c = true) (hword : Text.isAsciiWord c = false) :
    c = '$' := by
  simp only [isIdentChar, Bool.or_eq_true, beq_iff_eq] at h
  simp only [Text.isAsciiWord, Bool.or_eq_false_iff, beq_eq_false_iff_ne, ne_eq] at hword
  rcases h with (h | h) | h
  · rw [h] at hword
    cases hword.1
  · exact h
  · exact absurd h hword.2

theorem isAsciiWord_of_isDigit {c : Char} (h : c.isDigit = true) : Text.isAsciiWord c = true := by
  simp [Text.isAsciiWord, Char.isAlphanum, h]

/-- The blank characters, as ranges with both ends. -/
def blankRanges : List (Nat × Nat) :=
  [(9, 13), (0x20, 0x20), (0x85, 0x85), (0xA0, 0xA0), (0x1680, 0x1680), (0x2000, 0x200A),
    (0x2028, 0x2029), (0x202F, 0x202F), (0x205F, 0x205F), (0x3000, 0x3000)]

theorem exists_blankRange {c : Char} (h : Text.isBlank c = true) :
    ∃ b ∈ blankRanges, b.1 ≤ c.toNat ∧ c.toNat ≤ b.2 ∧ b.2 ≤ 0x3000 := by
  simp only [Text.isBlank, Bool.or_eq_true, Bool.and_eq_true, decide_eq_true_eq, beq_iff_eq] at h
  simp only [blankRanges, List.mem_cons, List.not_mem_nil, or_false, exists_eq_or_imp,
    exists_eq_left]
  omega

theorem blankRanges_disjoint : (Text.wordRanges.toList.all fun r => Nat.blt 0x3000 r.1 ||
    blankRanges.all fun b => Nat.blt r.2 b.1 || Nat.blt b.2 r.1) = true := by
  decide +kernel

theorem isWord_of_isBlank {c : Char} (h : Text.isBlank c = true) : Text.isWord c = false := by
  obtain ⟨b, hb, hlow, hhigh, hbound⟩ := exists_blankRange h
  have hascii : Text.isAsciiWord c = false := by
    rw [← Bool.not_eq_true]
    intro hword
    rw [isBlank_of_isIdentChar (isIdentChar_of_isAsciiWord hword)] at h
    cases h
  have hranges : Text.wordRanges.any (fun r => r.1 ≤ c.toNat && c.toNat ≤ r.2) = false := by
    rw [← Array.any_toList, List.any_eq_false]
    intro r hr hin
    have hall := List.all_eq_true.1 blankRanges_disjoint r hr
    simp only [Bool.or_eq_true, List.all_eq_true, Nat.blt_eq] at hall
    simp only [Bool.and_eq_true, decide_eq_true_eq] at hin
    have hapart := hall.imp_right fun h => h b hb
    omega
  rw [Text.isWord, hascii, hranges, Bool.and_false, Bool.or_false]

theorem isBlank_of_isWord {c : Char} (h : Text.isWord c = true) : Text.isBlank c = false := by
  rw [← Bool.not_eq_true]
  intro hblank
  rw [isWord_of_isBlank hblank] at h
  cases h

theorem isBracket_of_isIdentChar {c : Char} (h : isIdentChar c = true) : isBracket c = false := by
  simp only [isBracket, Bool.or_eq_false_iff, beq_eq_false_iff_ne, ne_eq]
  constructor
  · rintro rfl
    exact absurd h (by decide)
  · rintro rfl
    exact absurd h (by decide)

section
variable {accepts : Char → Bool} {v r : List Char} (hv : ∀ c ∈ v, accepts c = true)
  (hr : ∀ c ∈ r.head?, accepts c = false)
include hv hr

theorem takeWhile_append_of_stop : (v ++ r).takeWhile accepts = v := by
  rw [List.takeWhile_append_of_pos hv]
  cases r with
  | nil => rw [List.takeWhile_nil, List.append_nil]
  | cons c r => rw [List.takeWhile_cons_of_neg (by simp [hr c rfl]), List.append_nil]

theorem dropWhile_append_of_stop : (v ++ r).dropWhile accepts = r := by
  rw [List.dropWhile_append_of_pos hv]
  cases r with
  | nil => rfl
  | cons c r => rw [List.dropWhile_cons_of_neg (by simp [hr c rfl])]

end

structure Identifier where
  first : Char
  rest : List Char
  first_start : isIdentStart first = true
  rest_char : ∀ c ∈ rest, isIdentChar c = true

namespace Identifier

def chars (i : Identifier) : List Char := i.first :: i.rest

theorem chars_char (i : Identifier) : ∀ c ∈ i.chars, isIdentChar c = true := by
  rw [chars, List.forall_mem_cons]
  exact ⟨isIdentChar_of_isIdentStart i.first_start, i.rest_char⟩

end Identifier

/-- Identifiers joined by points. -/
structure Path where
  first : Identifier
  more : List Identifier

namespace Path

def chars (p : Path) : List Char :=
  p.first.chars ++ (p.more.map fun i => '.' :: i.chars).flatten

theorem chars_char (p : Path) : ∀ c ∈ p.chars, isIdentChar c = true ∨ c = '.' := by
  intro c hc
  rcases List.mem_append.1 hc with hc | hc
  · exact .inl (p.first.chars_char c hc)
  · obtain ⟨w, hw, hc⟩ := List.mem_flatten.1 hc
    obtain ⟨i, -, rfl⟩ := List.mem_map.1 hw
    rcases List.mem_cons.1 hc with rfl | hc
    · exact .inr rfl
    · exact .inl (i.chars_char c hc)

/-- What follows the first identifier goes on with a point or is not the path's. -/
theorem exists_behind_first (p : Path) (rest : List Char) : ∃ r, p.chars ++ rest =
    p.first.chars ++ r ∧ ∀ c ∈ r.head?, c = '.' ∨ rest.head? = some c := by
  refine ⟨(p.more.map fun i => '.' :: i.chars).flatten ++ rest, List.append_assoc _ _ _, ?_⟩
  intro c hc
  cases hmore : p.more with
  | nil =>
    rw [hmore] at hc
    exact .inr hc
  | cons i more =>
    rw [hmore] at hc
    exact .inl (Option.some.inj hc).symm

theorem chars_eq_first {p : Path} (h : '.' ∉ p.chars) : p.chars = p.first.chars := by
  cases hmore : p.more with
  | nil => rw [chars, hmore, List.map_nil, List.flatten_nil, List.append_nil]
  | cons i more => simp [chars, hmore] at h

end Path

section
variable {α : Type} {k : Place → Option α} {x : α} {behind rest : List Char}
  {marks : List (String × List Char)}

theorem run_identifier (i : Identifier) (hrest : ∀ c ∈ rest.head?, isIdentChar c = false)
    (hk : k ⟨i.chars.reverse ++ behind, rest, marks⟩ = some x) :
    identifier.run ⟨behind, i.chars ++ rest, marks⟩ k = some x := by
  rw [identifier, run_append, Identifier.chars, List.cons_append, run_char_cons i.first_start]
  refine run_many_append i.rest_char (Nat.zero_le _) hrest ?_
  rwa [Identifier.chars, List.reverse_cons, List.append_assoc] at hk

theorem run_userPath (p : Path) (hrest : ∀ c ∈ rest.head?, isIdentChar c = false ∧ c ≠ '.')
    (hk : k ⟨p.chars.reverse ++ behind, rest, marks⟩ = some x) :
    userPath.run ⟨behind, p.chars ++ rest, marks⟩ k = some x := by
  rw [userPath, run_append, Path.chars, List.append_assoc]
  refine run_identifier p.first ?_ ?_
  · intro c hc
    cases hmore : p.more with
    | nil =>
      rw [hmore] at hc
      exact (hrest c hc).1
    | cons i more =>
      rw [hmore] at hc
      obtain rfl : '.' = c := by simpa using hc
      decide
  · refine run_star_flatten (fun r => ∀ c ∈ r.head?, isIdentChar c = false) ?_ ?_ ?_ ?_ ?_ ?_
    · intro w hw
      obtain ⟨i, -, rfl⟩ := List.mem_map.1 hw
      exact List.cons_ne_nil _ _
    · intro w hw behind rest k x hstop hk
      obtain ⟨i, -, rfl⟩ := List.mem_map.1 hw
      rw [run_append, List.cons_append, run_exactly_cons]
      refine run_identifier i hstop ?_
      rwa [List.reverse_cons, List.append_assoc] at hk
    · intro w hw r c hc
      obtain ⟨i, -, rfl⟩ := List.mem_map.1 hw
      obtain rfl : '.' = c := by simpa using hc
      decide
    · exact fun c hc => (hrest c hc).1
    · rintro behind q ⟨r, hr, -⟩
      have hahead : rest = '.' :: r.ahead := (reads_exactly.1 hr).ahead
      exact (hrest '.' (by rw [hahead]; rfl)).2 rfl
    · rwa [Path.chars, List.reverse_append, List.append_assoc] at hk

end

def digits : Language Char := {w | 1 ≤ w.length ∧ ∀ c ∈ w, Char.isDigit c = true}

/-- The names of the built-in types. -/
inductive Elementary : String → Prop
  | plain {s : String} : s ∈ ["address", "address payable", "bool", "string", "bytes", "uint",
      "int", "fixed", "ufixed"] → Elementary s
  | bytesOf {n : Nat} : 0 < n → n ≤ 32 → Elementary ("bytes" ++ toString n)
  | integer {s : String} {n : Nat} : s ∈ ["uint", "int"] → 0 < n → n ≤ 256 → 8 ∣ n →
      Elementary (s ++ toString n)
  | fixedPoint {s m n : String} : s ∈ ["fixed", "ufixed"] → m.toList ∈ digits → n.toList ∈ digits →
      Elementary (s ++ (m ++ ("x" ++ n)))

theorem isDigit_of_mem_toString {n : Nat} {c : Char} (h : c ∈ (toString n).toList) :
    c.isDigit = true := by
  rw [Nat.toString_eq_repr, Nat.toList_repr] at h
  exact Nat.isDigit_of_mem_toDigits (by decide) (by decide) h

theorem Elementary.chars {s : String} (h : Elementary s) :
    s = "address payable" ∨ s.toList ≠ [] ∧ ∀ c ∈ s.toList, Text.isAsciiWord c = true := by
  have hnumber : ∀ n : Nat, ∀ c ∈ (toString n).toList, Text.isAsciiWord c = true :=
    fun n c hc => isAsciiWord_of_isDigit (isDigit_of_mem_toString hc)
  have hdigits : ∀ m : String, m.toList ∈ digits → ∀ c ∈ m.toList, Text.isAsciiWord c = true :=
    fun m hm c hc => isAsciiWord_of_isDigit (hm.2 c hc)
  cases h with
  | plain h =>
    have hall : ∀ s ∈ ["address", "address payable", "bool", "string", "bytes", "uint", "int",
        "fixed", "ufixed"], s = "address payable" ∨
          s.toList ≠ [] ∧ ∀ c ∈ s.toList, Text.isAsciiWord c = true := by decide
    exact hall s h
  | @bytesOf n hpos hle =>
    refine .inr ⟨by simp, ?_⟩
    rw [String.toList_append, List.forall_mem_append]
    exact ⟨by decide, hnumber n⟩
  | @integer s n hs hpos hle hdvd =>
    have hall : ∀ s ∈ ["uint", "int"], s.toList ≠ [] ∧
        ∀ c ∈ s.toList, Text.isAsciiWord c = true := by decide
    obtain ⟨hne, hchars⟩ := hall s hs
    refine .inr ⟨by simp [hne], ?_⟩
    rw [String.toList_append, List.forall_mem_append]
    exact ⟨hchars, hnumber n⟩
  | @fixedPoint s m n hs hm hn =>
    have hall : ∀ s ∈ ["fixed", "ufixed"], s.toList ≠ [] ∧
        ∀ c ∈ s.toList, Text.isAsciiWord c = true := by decide
    obtain ⟨hne, hchars⟩ := hall s hs
    refine .inr ⟨by simp [hne], ?_⟩
    simp only [String.toList_append, List.forall_mem_append]
    exact ⟨hchars, hdigits m hm, by decide, hdigits n hn⟩

theorem Elementary.head?_mem {s : String} (h : Elementary s) :
    ∃ c ∈ "abfisu".toList, s.toList.head? = some c := by
  cases h with
  | plain h =>
    have hall : ∀ s ∈ ["address", "address payable", "bool", "string", "bytes", "uint", "int",
        "fixed", "ufixed"], ∃ c ∈ "abfisu".toList, s.toList.head? = some c := by decide
    exact hall s h
  | bytesOf hpos hle => exact ⟨'b', by decide, by rw [String.toList_append]; rfl⟩
  | integer hs hpos hle hdvd =>
    rcases List.mem_pair.1 hs with rfl | rfl
    · exact ⟨'u', by decide, by rw [String.toList_append]; rfl⟩
    · exact ⟨'i', by decide, by rw [String.toList_append]; rfl⟩
  | fixedPoint hs hm hn =>
    rcases List.mem_pair.1 hs with rfl | rfl
    · exact ⟨'f', by decide, by rw [String.toList_append]; rfl⟩
    · exact ⟨'u', by decide, by rw [String.toList_append]; rfl⟩

/-- A path that begins with no built-in name is none. -/
theorem Path.ne_elementary {p : Path} (h : ¬ Elementary (.ofList p.first.chars)) {s : String}
    (hpoint : '.' ∉ s.toList) (hs : Elementary s) : String.ofList p.chars ≠ s := by
  rintro rfl
  rw [String.toList_ofList] at hpoint
  exact h (Path.chars_eq_first hpoint ▸ hs)

theorem mem_intWidths {s : String} :
    s ∈ intWidths ↔ ∃ n, (0 < n ∧ n ≤ 256 ∧ 8 ∣ n) ∧ toString n = s := by
  rw [intWidths, List.mem_map]
  constructor
  · rintro ⟨i, hi, rfl⟩
    have hlt := List.mem_range.1 hi
    exact ⟨256 - 8 * i, by omega, rfl⟩
  · rintro ⟨n, ⟨hpos, hle, k, rfl⟩, rfl⟩
    refine ⟨32 - k, List.mem_range.2 (by omega), ?_⟩
    have hk : 256 - 8 * (32 - k) = 8 * k := by omega
    rw [hk]

theorem mem_digits {c : Char} (h : c.isDigit = true) : c ∈ "0123456789".toList := by
  simp only [Char.isDigit, Bool.and_eq_true, decide_eq_true_eq, ge_iff_le,
    UInt32.le_iff_toNat_le] at h
  have hc : c = Char.ofNat c.toNat := (Char.ofNat_toNat c).symm
  have hlow : 48 ≤ c.toNat := h.1
  have hhigh : c.toNat ≤ 57 := h.2
  have hall : ∀ n ∈ List.range 58, 48 ≤ n → Char.ofNat n ∈ "0123456789".toList := by
    decide +kernel
  rw [hc]
  exact hall _ (List.mem_range.2 (by omega)) hlow

def intSizes : Language Char := {w | ∃ n, (0 < n ∧ n ≤ 256 ∧ 8 ∣ n) ∧ (toString n).toList = w}

def bytesSizes : Language Char := {w | ∃ n, (0 < n ∧ n ≤ 32) ∧ (toString n).toList = w}

theorem spells_intSizes : (words intWidths).Spells intSizes := by
  refine (Spells.words intWidths).of_mem_iff fun w => ?_
  constructor
  · rintro ⟨s, hs, rfl⟩
    obtain ⟨n, hn, rfl⟩ := mem_intWidths.1 hs
    exact ⟨n, hn, rfl⟩
  · rintro ⟨n, hn, rfl⟩
    exact ⟨_, mem_intWidths.2 ⟨n, hn, rfl⟩, rfl⟩

theorem spells_oneOf (s : String) : (oneOf s).Spells {w | ∃ c ∈ s.toList, [c] = w} := by
  have h := Spells.char fun c => s.toList.contains c
  simp only [List.contains_iff_mem] at h
  exact h

theorem spells_bytesSizes :
    ((exactly '3' ++ oneOf "012") <|> (oneOf "12" ++ .char Char.isDigit) <|>
      oneOf "123456789" : Pattern).Spells bytesSizes := by
  have hsound : (∀ c ∈ "012".toList, ∃ n ∈ List.range 33, 0 < n ∧ (toString n).toList = ['3', c]) ∧
      (∀ a ∈ "12".toList, ∀ b ∈ "0123456789".toList,
        ∃ n ∈ List.range 33, 0 < n ∧ (toString n).toList = [a, b]) ∧
      ∀ a ∈ "123456789".toList, ∃ n ∈ List.range 33, 0 < n ∧ (toString n).toList = [a] := by
    decide +kernel
  have hdigit : ∀ b ∈ "0123456789".toList, b.isDigit = true := by decide
  have hcomplete : ∀ n ∈ List.range 33, 0 < n →
      (∃ c ∈ "012".toList, ['3', c] = (toString n).toList) ∨
      (∃ a ∈ "12".toList, ∃ b ∈ "0123456789".toList, [a, b] = (toString n).toList) ∨
      ∃ a ∈ "123456789".toList, [a] = (toString n).toList := by
    decide +kernel
  have hparts := ((Spells.exactly '3').append (spells_oneOf "012")).alt
    (((spells_oneOf "12").append (Spells.char Char.isDigit)).alt (spells_oneOf "123456789"))
  refine Spells.of_mem_iff hparts fun w => ?_
  simp only [Language.mem_add]
  constructor
  · rintro (⟨_, rfl, _, ⟨c, hc, rfl⟩, rfl⟩ | ⟨_, ⟨a, ha, rfl⟩, _, ⟨b, hb, rfl⟩, rfl⟩ | ⟨a, ha, rfl⟩)
    · obtain ⟨n, hn, hpos, h⟩ := hsound.1 c hc
      exact ⟨n, ⟨hpos, Nat.le_of_lt_succ (List.mem_range.1 hn)⟩, h⟩
    · obtain ⟨n, hn, hpos, h⟩ := hsound.2.1 a ha b (mem_digits hb)
      exact ⟨n, ⟨hpos, Nat.le_of_lt_succ (List.mem_range.1 hn)⟩, h⟩
    · obtain ⟨n, hn, hpos, h⟩ := hsound.2.2 a ha
      exact ⟨n, ⟨hpos, Nat.le_of_lt_succ (List.mem_range.1 hn)⟩, h⟩
  · rintro ⟨n, ⟨hpos, hle⟩, rfl⟩
    rcases hcomplete n (List.mem_range.2 (Nat.lt_succ_of_le hle)) hpos with
      ⟨c, hc, h⟩ | ⟨a, ha, b, hb, h⟩ | ⟨a, ha, h⟩
    · exact .inl ⟨_, rfl, _, ⟨c, hc, rfl⟩, h⟩
    · exact .inr (.inl ⟨_, ⟨a, ha, rfl⟩, _, ⟨b, hdigit b hb, rfl⟩, h⟩)
    · exact .inr (.inr ⟨a, ha, h⟩)

def fixedSizes : Language Char := digits * {['x']} * digits

theorem spells_fixedRoots : (optional (exactly 'u') ++ word "fixed").Spells
    (textsOf ["fixed", "ufixed"]) := by
  refine Spells.of_mem_iff ((Spells.exactly 'u').optional.append (Spells.word "fixed")) fun w => ?_
  constructor
  · rintro ⟨u, hu, _, rfl, rfl⟩
    rcases hu with rfl | rfl
    · exact ⟨"ufixed", by decide, rfl⟩
    · exact ⟨"fixed", by decide, rfl⟩
  · rintro ⟨s, hs, rfl⟩
    rcases List.mem_pair.1 hs with rfl | rfl
    · exact ⟨[], .inr rfl, _, rfl, rfl⟩
    · exact ⟨_, .inl rfl, _, rfl, rfl⟩

/-- The alternatives for a built-in type with what they read. -/
def elementaryForms : List (Pattern × Language Char) :=
  (["address payable", "address", "bool", "string"].map fun s => (word s, {s.toList})) ++
    [(bytesType, {"bytes".toList} * (bytesSizes + 1)),
      (uintType, {"uint".toList} * (intSizes + 1)),
      (intType, {"int".toList} * (intSizes + 1)),
      (fixedType, textsOf ["fixed", "ufixed"] * (fixedSizes + 1))]

theorem spells_of_form : ∀ x ∈ elementaryForms, x.1.Spells x.2 := by
  have hfixedSizes := ((Spells.many 1 Char.isDigit).append (Spells.exactly 'x')).append
    (Spells.many 1 Char.isDigit)
  rw [elementaryForms, List.forall_mem_append, List.forall_mem_map]
  refine ⟨fun s _ => Spells.word s, ?_⟩
  simp only [List.forall_mem_cons]
  exact ⟨(Spells.word "bytes").append spells_bytesSizes.optional,
    (Spells.word "uint").append spells_intSizes.optional,
    (Spells.word "int").append spells_intSizes.optional,
    spells_fixedRoots.append hfixedSizes.optional, by simp⟩

theorem exists_elementary_of_form {x : Pattern × Language Char} (hx : x ∈ elementaryForms)
    {w : List Char} (hw : w ∈ x.2) : ∃ s, Elementary s ∧ s.toList = w := by
  have hplain : ∀ s ∈ ["address payable", "address", "bool", "string", "fixed", "ufixed"],
      s ∈ ["address", "address payable", "bool", "string", "bytes", "uint", "int", "fixed",
        "ufixed"] := by decide
  rw [elementaryForms, List.mem_append, List.mem_map] at hx
  rcases hx with ⟨s, hs, rfl⟩ | hx
  · exact ⟨s, .plain (hplain s (List.mem_append_left ["fixed", "ufixed"] hs)), hw.symm⟩
  simp only [List.mem_cons, List.not_mem_nil, or_false] at hx
  rcases hx with rfl | rfl | rfl | rfl
  · obtain ⟨_, rfl, _, ⟨n, ⟨hpos, hle⟩, rfl⟩ | rfl, rfl⟩ := hw
    · exact ⟨_, .bytesOf hpos hle, String.toList_append⟩
    · exact ⟨"bytes", .plain (by decide), rfl⟩
  · obtain ⟨_, rfl, _, ⟨n, ⟨hpos, hle, hdvd⟩, rfl⟩ | rfl, rfl⟩ := hw
    · exact ⟨_, .integer (by decide) hpos hle hdvd, String.toList_append⟩
    · exact ⟨"uint", .plain (by decide), rfl⟩
  · obtain ⟨_, rfl, _, ⟨n, ⟨hpos, hle, hdvd⟩, rfl⟩ | rfl, rfl⟩ := hw
    · exact ⟨_, .integer (by decide) hpos hle hdvd, String.toList_append⟩
    · exact ⟨"int", .plain (by decide), rfl⟩
  · obtain ⟨_, ⟨s, hs, rfl⟩, _, ⟨_, ⟨m, hm, _, rfl, rfl⟩, n, hn, rfl⟩ | rfl, rfl⟩ := hw
    · rw [← String.toList_ofList (l := m)] at hm
      rw [← String.toList_ofList (l := n)] at hn
      exact ⟨_, .fixedPoint hs hm hn, by simp⟩
    · have hs := List.mem_append_right ["address payable", "address", "bool", "string"] hs
      exact ⟨s, .plain (hplain s hs), (List.append_nil _).symm⟩

theorem Elementary.exists_form {s : String} (h : Elementary s) :
    ∃ x ∈ elementaryForms, s.toList ∈ x.2 := by
  have hword : ∀ s ∈ ["address payable", "address", "bool", "string"],
      ∃ x ∈ elementaryForms, s.toList ∈ x.2 := fun s hs =>
    ⟨(word s, {s.toList}), List.mem_append_left _ (List.mem_map_of_mem hs), rfl⟩
  have hbytes : (bytesType, {"bytes".toList} * (bytesSizes + 1)) ∈ elementaryForms := by
    simp [elementaryForms]
  have huint : (uintType, {"uint".toList} * (intSizes + 1)) ∈ elementaryForms := by
    simp [elementaryForms]
  have hint : (intType, {"int".toList} * (intSizes + 1)) ∈ elementaryForms := by
    simp [elementaryForms]
  have hfixed : (fixedType, textsOf ["fixed", "ufixed"] * (fixedSizes + 1)) ∈ elementaryForms := by
    simp [elementaryForms]
  have hunsized : ∀ {v : List Char} {roots sizes : Language Char}, v ∈ roots →
      v ∈ roots * (sizes + 1) :=
    fun {v _ _} hv => ⟨v, hv, [], .inr rfl, List.append_nil v⟩
  cases h with
  | plain h =>
    simp only [List.mem_cons, List.not_mem_nil, or_false] at h
    rcases h with rfl | rfl | rfl | rfl | rfl | rfl | rfl | rfl | rfl
    · exact hword _ (by decide)
    · exact hword _ (by decide)
    · exact hword _ (by decide)
    · exact hword _ (by decide)
    · exact ⟨_, hbytes, hunsized rfl⟩
    · exact ⟨_, huint, hunsized rfl⟩
    · exact ⟨_, hint, hunsized rfl⟩
    · exact ⟨_, hfixed, hunsized ⟨_, by decide, rfl⟩⟩
    · exact ⟨_, hfixed, hunsized ⟨_, by decide, rfl⟩⟩
  | @bytesOf n hpos hle =>
    exact ⟨_, hbytes, _, rfl, _, .inl ⟨n, ⟨hpos, hle⟩, rfl⟩, String.toList_append.symm⟩
  | @integer s n hs hpos hle hdvd =>
    have hname : (s ++ toString n).toList ∈ {s.toList} * (intSizes + 1) :=
      ⟨_, rfl, _, .inl ⟨n, ⟨hpos, hle, hdvd⟩, rfl⟩, String.toList_append.symm⟩
    rcases List.mem_pair.1 hs with rfl | rfl
    · exact ⟨_, huint, hname⟩
    · exact ⟨_, hint, hname⟩
  | @fixedPoint s m n hs hm hn =>
    exact ⟨_, hfixed, _, ⟨s, hs, rfl⟩, _, .inl ⟨_, ⟨_, hm, _, rfl, rfl⟩, _, hn, rfl⟩, by simp⟩

theorem spells_elementary : (choice [word "address payable", word "address", word "bool",
    word "string", bytesType, uintType, intType, fixedType]).Spells
      {w | ∃ s, Elementary s ∧ s.toList = w} := by
  refine Spells.of_mem_iff (Spells.choice spells_of_form) fun w => ?_
  constructor
  · rintro ⟨x, hx, hw⟩
    exact exists_elementary_of_form hx hw
  · rintro ⟨s, hs, rfl⟩
    exact hs.exists_form

theorem reads_elementary {p q : Place} : elementary.Reads p q ↔ ∃ s, Elementary s ∧
    p.Past s.toList q ∧ Text.wordEdge q.behind.head? q.ahead.head? = true := by
  rw [elementary, reads_append]
  constructor
  · rintro ⟨r, hr, rfl, hedge⟩
    obtain ⟨_, ⟨s, hs, rfl⟩, h⟩ := (spells_elementary p q).1 hr
    exact ⟨s, hs, h, hedge⟩
  · rintro ⟨s, hs, h, hedge⟩
    exact ⟨q, (spells_elementary p q).2 ⟨_, ⟨s, hs, rfl⟩, h⟩, rfl, hedge⟩

section
variable {α : Type} {k : Place → Option α} {x : α} {behind rest : List Char}
  {marks : List (String × List Char)}

/-- Behind a word there is an edge unless a word character follows. -/
theorem wordEdge_iff {s ahead : List Char} (hne : s ≠ [])
    (hlast : Text.isWord (s.getLast hne) = true) :
    Text.wordEdge (s.reverse ++ behind).head? ahead.head? = true ↔
      ∀ c ∈ ahead.head?, Text.isWord c = false := by
  have hhead : (s.reverse ++ behind).head? = some (s.getLast hne) := by
    rw [List.head?_append, List.head?_reverse, List.getLast?_eq_some_getLast hne]
    rfl
  rw [hhead]
  cases h : ahead.head? with
  | none => simp [Text.wordEdge, hlast]
  | some d => simp [Text.wordEdge, hlast]

/-- Two ways of cutting a text behind its accepted characters are one. -/
theorem append_inj_of_stop {accepts : Char → Bool} {v w r t : List Char}
    (hv : ∀ c ∈ v, accepts c = true) (hw : ∀ c ∈ w, accepts c = true)
    (hr : ∀ c ∈ r.head?, accepts c = false) (ht : ∀ c ∈ t.head?, accepts c = false)
    (h : v ++ r = w ++ t) : v = w ∧ r = t := by
  have hvw : v = w := by rw [← takeWhile_append_of_stop hv hr, h, takeWhile_append_of_stop hw ht]
  rw [hvw] at h
  exact ⟨hvw, List.append_cancel_left h⟩

/-- A beginning made of accepted characters lies in front of the first one that is not. -/
theorem prefix_of_prefix_append {accepts : Char → Bool} {v w rest : List Char}
    (hv : ∀ c ∈ v, accepts c = true) (hrest : ∀ c ∈ rest.head?, accepts c = false)
    (h : v <+: w ++ rest) : v <+: w := by
  rcases le_total v.length w.length with hle | hle
  · exact List.prefix_of_prefix_length_le h (List.prefix_append w rest) hle
  · obtain ⟨u, rfl⟩ := List.prefix_of_prefix_length_le (List.prefix_append w rest) h hle
    cases u with
    | nil => rw [List.append_nil]
    | cons c u =>
      obtain ⟨t, ht⟩ := (List.prefix_append_right_inj w).1 h
      have hc : accepts c = false := hrest c (by rw [← ht]; rfl)
      rw [hv c (by simp)] at hc
      cases hc

theorem isWord_of_isAsciiWords {w : List Char} (h : ∀ c ∈ w, Text.isAsciiWord c = true) :
    ∀ c ∈ w, Text.isWord c = true :=
  fun c hc => Text.isWord_of_isAsciiWord (h c hc)

/-- The last character of a built-in name is that of a word. -/
theorem Elementary.wordEdge_iff {s : String} (hs : Elementary s) {ahead : List Char} :
    Text.wordEdge (s.toList.reverse ++ behind).head? ahead.head? = true ↔
      ∀ c ∈ ahead.head?, Text.isWord c = false := by
  rcases hs.chars with rfl | ⟨hne, hchars⟩
  · exact Solidity.wordEdge_iff (by decide) (by decide +kernel)
  · exact Solidity.wordEdge_iff hne (isWord_of_isAsciiWords hchars _ (List.getLast_mem hne))

/-- What begins with a word begins with no other built-in name, but for the one of two words. -/
theorem Elementary.eq_of_append {w ahead : List Char} {t : String} (ht : Elementary t)
    (hw : ∀ c ∈ w, Text.isWord c = true) (hrest : ∀ c ∈ rest.head?, Text.isWord c = false)
    (hahead : ∀ c ∈ ahead.head?, Text.isWord c = false) (h : w ++ rest = t.toList ++ ahead) :
    t.toList = w ∨ t = "address payable" ∧ w = "address".toList := by
  rcases ht.chars with rfl | ⟨-, hchars⟩
  · have hsplit : "address payable".toList ++ ahead =
        "address".toList ++ (" payable".toList ++ ahead) := rfl
    have hspace : ∀ c ∈ (" payable".toList ++ ahead).head?, Text.isWord c = false := by
      rintro c ⟨⟩
      decide +kernel
    exact .inr ⟨rfl, (append_inj_of_stop hw (by decide +kernel) hrest hspace (h.trans hsplit)).1⟩
  · have hword := isWord_of_isAsciiWords hchars
    exact .inl (append_inj_of_stop hw hword hrest hahead h).1.symm

theorem Elementary.eq_of_past {w : List Char} {t : String} {r : Place} (ht : Elementary t)
    (hw : ∀ c ∈ w, Text.isWord c = true) (hrest : ∀ c ∈ rest.head?, Text.isWord c = false)
    (hpast : Place.Past ⟨behind, w ++ rest, marks⟩ t.toList r)
    (hedge : Text.wordEdge r.behind.head? r.ahead.head? = true) :
    t.toList = w ∨ t = "address payable" ∧ w = "address".toList := by
  rw [hpast.behind, ht.wordEdge_iff] at hedge
  exact ht.eq_of_append hw hrest hedge hpast.ahead

/-- A built-in name is read where nothing carries it on. -/
theorem run_elementary {s : String} (hs : Elementary s)
    (hrest : ∀ c ∈ rest.head?, Text.isWord c = false)
    (hpayable : s = "address" → ∀ t, rest = " payable".toList ++ t →
      ¬ ∀ c ∈ t.head?, Text.isWord c = false)
    (hk : k ⟨s.toList.reverse ++ behind, rest, marks⟩ = some x) :
    elementary.run ⟨behind, s.toList ++ rest, marks⟩ k = some x := by
  have hedge : Text.wordEdge (s.toList.reverse ++ behind).head? rest.head? = true :=
    hs.wordEdge_iff.2 hrest
  rcases hs.chars with rfl | ⟨-, hchars⟩
  · -- `address` ends at an edge too, but comes later in the choice
    rw [elementary, run_append, run_choice, List.findSome?_cons, run_word_append]
    simp only [wordEdge, run, hedge, if_true, hk]
  · have hword := isWord_of_isAsciiWords hchars
    have hpast := Place.Past.intro behind s.toList rest marks
    refine (run_of_unique (q := ⟨s.toList.reverse ++ behind, rest, marks⟩) ?_ ?_).trans hk
    · exact reads_elementary.2 ⟨s, hs, hpast, hedge⟩
    · intro r hr
      obtain ⟨t, ht, hpast', hedge'⟩ := reads_elementary.1 hr
      rcases ht.eq_of_past hword hrest hpast' hedge' with h | ⟨rfl, h⟩
      · rw [h] at hpast'
        exact hpast.unique hpast'
      · have hahead : s.toList ++ rest = "address".toList ++ (" payable".toList ++ r.ahead) :=
          hpast'.ahead
        rw [h] at hahead
        rw [hpast'.behind, ht.wordEdge_iff] at hedge'
        exact absurd hedge'
          (hpayable (String.toList_inj.1 h) r.ahead (List.append_cancel_left hahead))

theorem not_reads_elementary {w : List Char} {q : Place} (hw : ∀ c ∈ w, Text.isWord c = true)
    (hrest : ∀ c ∈ rest.head?, Text.isWord c = false) (h : ¬ Elementary (.ofList w)) :
    ¬ elementary.Reads ⟨behind, w ++ rest, marks⟩ q := by
  intro hq
  obtain ⟨t, ht, hpast, hedge⟩ := reads_elementary.1 hq
  rcases ht.eq_of_past hw hrest hpast hedge with rfl | ⟨-, rfl⟩
  · rw [String.ofList_toList] at h
    exact h ht
  · exact h (.plain (by decide))

end

/-- An array dimension, without or with a length. -/
def dimension : Option Nat → List Char
  | none => ['[', ']']
  | some n => '[' :: ((toString n).toList ++ [']'])

def dimensionsOf (lengths : List (Option Nat)) : List Char := (lengths.map dimension).flatten

theorem dimension_eq (length : Option Nat) :
    ∃ w, (∀ c ∈ w, c.isDigit = true) ∧ dimension length = '[' :: (w ++ [']']) := by
  cases length with
  | none => exact ⟨[], by simp, rfl⟩
  | some n => exact ⟨(toString n).toList, fun c => isDigit_of_mem_toString, rfl⟩

/-- Brackets with neither of them in between, as array dimensions are written. -/
def Bracketed (w : List Char) : Prop :=
  ∃ v, (∀ c ∈ v, isBracket c = false) ∧ w = '[' :: (v ++ [']'])

theorem spells_bracketed :
    (exactly '[' ++ .many 0 (!isBracket ·) ++ exactly ']').Spells {w | Bracketed w} := by
  refine (((Spells.exactly '[').append (.many 0 (!isBracket ·))).append
    (.exactly ']')).of_mem_iff fun w => ?_
  constructor
  · rintro ⟨_, ⟨_, rfl, v, ⟨-, hv⟩, rfl⟩, _, rfl, rfl⟩
    exact ⟨v, fun c hc => by simpa using hv c hc, rfl⟩
  · rintro ⟨v, hv, rfl⟩
    exact ⟨_, ⟨_, rfl, v, ⟨Nat.zero_le _, fun c hc => by simp [hv c hc]⟩, rfl⟩, _, rfl, rfl⟩

/-- No brackets begin the text. -/
def Unbracketed (cs : List Char) : Prop := ∀ v r, Bracketed v → cs ≠ v ++ r

theorem Unbracketed.of_head {cs : List Char} (h : cs.head? ≠ some '[') : Unbracketed cs := by
  rintro _ r ⟨v, -, rfl⟩ rfl
  exact h rfl

theorem bracketed_dimension (length : Option Nat) : Bracketed (dimension length) := by
  obtain ⟨w, hw, h⟩ := dimension_eq length
  exact ⟨w, fun c hc =>
    isBracket_of_isIdentChar (isIdentChar_of_isAsciiWord (isAsciiWord_of_isDigit (hw c hc))), h⟩

theorem bracketed_of_mem_dimensions (lengths : List (Option Nat)) :
    ∀ w ∈ lengths.map dimension, Bracketed w :=
  List.forall_mem_map.2 fun length _ => bracketed_dimension length

theorem isBlank_of_mem_dimension {n : Option Nat} {c : Char} (h : c ∈ dimension n) :
    Text.isBlank c = false := by
  obtain ⟨w, hw, hn⟩ := dimension_eq n
  rw [hn, List.mem_cons, List.mem_append, List.mem_singleton] at h
  rcases h with rfl | h | rfl
  · decide
  · exact isBlank_of_isIdentChar (isIdentChar_of_isAsciiWord (isAsciiWord_of_isDigit (hw c h)))
  · decide

theorem isBlank_of_mem_dimensionsOf {lengths : List (Option Nat)} {c : Char}
    (h : c ∈ dimensionsOf lengths) : Text.isBlank c = false := by
  obtain ⟨w, hw, hc⟩ := List.mem_flatten.1 h
  obtain ⟨n, -, rfl⟩ := List.mem_map.1 hw
  exact isBlank_of_mem_dimension hc

theorem getLast?_dimensionsOf {lengths : List (Option Nat)} (h : lengths ≠ []) :
    (dimensionsOf lengths).getLast? = some ']' := by
  obtain ⟨init, n, rfl⟩ := (List.eq_nil_or_concat lengths).resolve_left h
  obtain ⟨w, -, hn⟩ := dimension_eq n
  rw [dimensionsOf, List.concat_eq_append, List.map_append, List.flatten_append, List.map_singleton,
    List.flatten_singleton, hn, ← List.cons_append, ← List.append_assoc, List.getLast?_concat]

section
variable {α : Type} {k : Place → Option α} {x : α} {behind rest : List Char}
  {marks : List (String × List Char)}

theorem run_brackets {pieces : List (List Char)} (hpieces : ∀ w ∈ pieces, Bracketed w)
    (hrest : Unbracketed rest)
    (hk : k ⟨pieces.flatten.reverse ++ behind, rest, marks⟩ = some x) :
    dimensions.run ⟨behind, pieces.flatten ++ rest, marks⟩ k = some x := by
  refine run_star_flatten (fun _ => True) ?_ ?_ (fun _ _ _ => trivial) trivial ?_ hk
  · intro w hw
    obtain ⟨v, -, rfl⟩ := hpieces w hw
    exact List.cons_ne_nil _ _
  · intro w hw behind rest k x _ hk
    obtain ⟨v, hv, rfl⟩ := hpieces w hw
    rw [run_append, run_append, List.cons_append, run_exactly_cons, List.append_assoc]
    refine run_many_append ?_ (Nat.zero_le _) ?_ ?_
    · intro c hc
      rw [hv c hc]
      rfl
    · intro c hc
      obtain rfl : ']' = c := by simpa using hc
      decide
    · rw [List.singleton_append, run_exactly_cons]
      simpa using hk
  · intro behind q hq
    obtain ⟨w, hw, hpast⟩ := (spells_bracketed _ q).1 hq
    exact hrest w q.ahead hw hpast.ahead

theorem run_dimensions (lengths : List (Option Nat)) (hrest : rest.head? ≠ some '[')
    (hk : k ⟨(dimensionsOf lengths).reverse ++ behind, rest, marks⟩ = some x) :
    dimensions.run ⟨behind, dimensionsOf lengths ++ rest, marks⟩ k = some x :=
  run_brackets (bracketed_of_mem_dimensions lengths) (.of_head hrest) hk

end

section
variable {rest : List Char} (hrest : ∀ c ∈ rest.head?, c = ' ')
include hrest

theorem head?_brackets_append {pieces : List (List Char)} (hpieces : ∀ w ∈ pieces, Bracketed w) :
    ∀ c ∈ (pieces.flatten ++ rest).head?, c = ' ' ∨ c = '[' := by
  intro c hc
  cases pieces with
  | nil => exact .inl (hrest c hc)
  | cons w pieces =>
    obtain ⟨v, -, h⟩ := hpieces w List.mem_cons_self
    rw [List.flatten_cons, h] at hc
    exact .inr (Option.some.inj hc).symm

theorem head?_dimensions_append (lengths : List (Option Nat)) :
    ∀ c ∈ (dimensionsOf lengths ++ rest).head?, c = ' ' ∨ c = '[' :=
  head?_brackets_append hrest (bracketed_of_mem_dimensions lengths)

theorem userPrefix?_brackets (p : Path) {pieces : List (List Char)}
    (hpieces : ∀ w ∈ pieces, Bracketed w) :
    userPrefix? (.ofList (p.chars ++ pieces.flatten ++ rest)) =
      some (.ofList (p.chars ++ pieces.flatten)) := by
  refine taken?_of_run ?_
  rw [userArray, run_append, List.append_assoc]
  refine run_userPath p ?_ (run_brackets hpieces (.of_head ?_) ?_)
  · intro c hc
    rcases head?_brackets_append hrest hpieces c hc with rfl | rfl
    · decide
    · decide
  · intro h
    exact absurd (hrest '[' h) (by decide)
  · simp

theorem userPrefix?_eq (p : Path) (lengths : List (Option Nat)) :
    userPrefix? (.ofList (p.chars ++ dimensionsOf lengths ++ rest)) =
      some (.ofList (p.chars ++ dimensionsOf lengths)) :=
  userPrefix?_brackets hrest p (bracketed_of_mem_dimensions lengths)

end

/-- A built-in name is read with its dimensions up to what carries neither on. -/
theorem elementaryPrefix?_of_stop {s : String} {rest : List Char} (hs : Elementary s)
    (lengths : List (Option Nat)) (hword : ∀ c ∈ rest.head?, Text.isWord c = false)
    (hbracket : rest.head? ≠ some '[') (hpayable : ¬ " payable".toList <+: rest) :
    elementaryPrefix? (.ofList (s.toList ++ dimensionsOf lengths ++ rest)) =
      some (.ofList (s.toList ++ dimensionsOf lengths)) := by
  refine taken?_of_run ?_
  rw [elementaryArray, run_append, List.append_assoc]
  refine run_elementary hs ?_ ?_ (run_dimensions lengths hbracket ?_)
  · cases lengths with
    | nil => exact hword
    | cons length lengths =>
      obtain ⟨w, -, hw⟩ := dimension_eq length
      rw [dimensionsOf, List.map_cons, hw]
      rintro c ⟨⟩
      decide +kernel
  · intro _ t ht
    cases lengths with
    | nil => exact absurd ⟨t, ht.symm⟩ hpayable
    | cons length lengths =>
      obtain ⟨w, -, hw⟩ := dimension_eq length
      rw [dimensionsOf, List.map_cons, hw] at ht
      exact absurd (List.cons.inj ht).1 (by decide)
  · simp

theorem elementaryPrefix?_eq {s : String} {rest : List Char} (hrest : ∀ c ∈ rest.head?, c = ' ')
    (hs : Elementary s) (lengths : List (Option Nat)) (hpayable : ¬ " payable".toList <+: rest) :
    elementaryPrefix? (.ofList (s.toList ++ dimensionsOf lengths ++ rest)) =
      some (.ofList (s.toList ++ dimensionsOf lengths)) := by
  refine elementaryPrefix?_of_stop hs lengths ?_ ?_ hpayable
  · intro c hc
    rw [hrest c hc]
    decide +kernel
  · intro h
    exact absurd (hrest '[' h) (by decide)

theorem elementaryPrefix?_eq_none {w rest : List Char} (hw : ∀ c ∈ w, Text.isAsciiWord c = true)
    (hrest : ∀ c ∈ rest.head?, Text.isWord c = false) (h : ¬ Elementary (.ofList w)) :
    elementaryPrefix? (.ofList (w ++ rest)) = none := by
  rw [elementaryPrefix?, taken?, match?, matchAt?, Place.start, String.toList_ofList,
    elementaryArray, run_append, run_eq_none fun q =>
      not_reads_elementary (isWord_of_isAsciiWords hw) hrest h]
  rfl

theorem Path.elementaryPrefix?_eq_none {rest : List Char} (p : Path)
    (words : ∀ c ∈ p.chars, Text.isAsciiWord c = true ∨ c = '.')
    (h : ¬ Elementary (.ofList p.first.chars)) (hrest : ∀ c ∈ rest.head?, c = ' ' ∨ c = '[') :
    elementaryPrefix? (.ofList (p.chars ++ rest)) = none := by
  obtain ⟨r, hsplit, hr⟩ := p.exists_behind_first rest
  rw [hsplit]
  refine Solidity.elementaryPrefix?_eq_none ?_ ?_ h
  · intro c hc
    have hident := p.first.chars_char c hc
    refine (words c (List.mem_append_left _ hc)).resolve_right ?_
    rintro rfl
    exact absurd hident (by decide)
  · intro c hc
    rcases hr c hc with rfl | hc
    · decide +kernel
    · rcases hrest c hc with rfl | rfl
      · decide +kernel
      · decide +kernel

end SoliditySession.Solidity
