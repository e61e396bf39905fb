import Mathlib.Data.List.TakeWhile
import SoliditySession.Proofs.Decoding
/- The spellings of types. A grammar puts brackets behind what they are dimensions of, the parser takes
them off from the end; both read the leftmost dimension as the innermost. -/
namespace SoliditySession

/-- Induction on a parameter and the components of its tuple. -/
@[elab_as_elim]
theorem AbiParam.nested {motive : AbiParam → Prop}
    (node : ∀ name type components internalType, (∀ p ∈ components, motive p) →
      motive ⟨name, type, components, internalType⟩) (p : AbiParam) : motive p := by
  refine AbiParam.rec (motive_1 := motive) (motive_2 := fun ps => ∀ p ∈ ps, motive p) node ?_ ?_ p
  · intro p hp
    cases hp
  · intro p ps hp hps
    exact List.forall_mem_cons.2 ⟨hp, hps⟩

namespace AbiType

/-- Digits, which a plus sign may precede, and their decimal value. -/
def Numeral (s : String) (n : Nat) : Prop :=
  ∃ digits, (s.toList = digits ∨ s.toList = '+' :: digits) ∧ digits ≠ [] ∧
    (∀ c ∈ digits, c.isDigit = true) ∧ Nat.ofDigitChars 10 digits 0 = n

/-- A width in bits that words have in whole bytes. -/
def IsWidth (n : Nat) : Prop := n % 8 = 0 ∧ 8 ≤ n ∧ n ≤ 256

/-- Bases that are spelled in one way. -/
def plainTypes : List (String × AbiType) :=
  [("address", .address), ("bool", .bool), ("string", .string), ("bytes", .bytes),
    ("function", .fixedBytes 24), ("uint", .uint 256), ("int", .int 256)]

/-- The spellings of types: a base, and behind it a pair of brackets for each dimension. The
components of a tuple are the parameters that come with the spelling. -/
inductive Spelled : String → List AbiParam → AbiType → Prop
  | plain {s : String} {ps : List AbiParam} {t : AbiType} : (s, t) ∈ plainTypes → Spelled s ps t
  | uintOf {ps : List AbiParam} {w : String} {n : Nat} : Numeral w n → IsWidth n →
      Spelled ("uint" ++ w) ps (.uint n)
  | intOf {ps : List AbiParam} {w : String} {n : Nat} : Numeral w n → IsWidth n →
      Spelled ("int" ++ w) ps (.int n)
  | bytesOf {ps : List AbiParam} {w : String} {n : Nat} : Numeral w n → 1 ≤ n → n ≤ 32 →
      Spelled ("bytes" ++ w) ps (.fixedBytes n)
  | tuple {ps : List AbiParam} {fields : List (String × AbiType)} :
      fields.map (·.1) = ps.map (·.name) →
      (∀ x ∈ ps.zip fields, Spelled x.1.type x.1.components x.2.2) →
      Spelled "tuple" ps (.tuple fields)
  | array {s : String} {ps : List AbiParam} {t : AbiType} : Spelled s ps t →
      Spelled (s ++ "[]") ps (.array t)
  | fixedArray {s : String} {ps : List AbiParam} {t : AbiType} {k : String} {n : Nat} :
      Spelled s ps t → Numeral k n → n < 2 ^ 64 →
      Spelled (s ++ "[" ++ k ++ "]") ps (.fixedArray t n)

/-- The value of digits, if it fits 64 bits. -/
def unsigned? (ds : List Char) : Option Nat :=
  if ds.isEmpty || !ds.all Char.isDigit then none
  else
    let n := ds.foldl (fun n c => n * 10 + (c.toNat - 48)) 0
    if n < Nat.pow 2 64 then some n else none

theorem numeral?_plus (ds : List Char) : numeral? ('+' :: ds) = unsigned? ds := rfl

theorem numeral?_of_ne_plus {cs : List Char} (h : cs.head? ≠ some '+') :
    numeral? cs = unsigned? cs := by
  rw [numeral?, unsigned?]
  rintro r rfl
  exact h rfl

theorem foldl_digits (ds : List Char) :
    ds.foldl (fun n c => n * 10 + (c.toNat - 48)) 0 = Nat.ofDigitChars 10 ds 0 := by
  have hdigit : (fun n (c : Char) => n * 10 + (c.toNat - 48)) =
      fun n c => 10 * n + (c.toNat - '0'.toNat) := by
    funext n c
    rw [Nat.mul_comm]
    rfl
  rw [hdigit, Nat.ofDigitChars_eq_foldl]

theorem unsigned?_eq_some_iff {ds : List Char} {n : Nat} :
    unsigned? ds = some n ↔
      (ds ≠ [] ∧ (∀ c ∈ ds, c.isDigit = true) ∧ Nat.ofDigitChars 10 ds 0 = n) ∧ n < 2 ^ 64 := by
  have hdigits : (ds.isEmpty || !ds.all Char.isDigit) = true ↔
      ¬(ds ≠ [] ∧ ∀ c ∈ ds, c.isDigit = true) := by
    simp [Classical.or_iff_not_imp_left]
  rw [unsigned?, foldl_digits]
  split
  · next h =>
    have hnot := hdigits.1 h
    simp only [reduceCtorEq, false_iff]
    rintro ⟨⟨hne, hall, -⟩, -⟩
    exact hnot ⟨hne, hall⟩
  · next h =>
    have hboth := not_not.1 (mt hdigits.2 h)
    dsimp only
    split
    · next hlt =>
      rw [Option.some.injEq]
      constructor
      · rintro rfl
        exact ⟨⟨hboth.1, hboth.2, rfl⟩, hlt⟩
      · exact fun h => h.1.2.2
    · next hlt =>
      simp only [reduceCtorEq, false_iff]
      rintro ⟨⟨-, -, rfl⟩, hfits⟩
      exact hlt hfits

theorem numeral?_eq_some_iff {s : String} {n : Nat} :
    numeral? s.toList = some n ↔ Numeral s n ∧ n < 2 ^ 64 := by
  rw [Numeral]
  generalize s.toList = cs
  by_cases hplus : cs.head? = some '+'
  · obtain ⟨r, rfl⟩ := List.head?_eq_some_iff.1 hplus
    rw [numeral?_plus, unsigned?_eq_some_iff]
    refine and_congr_left fun _ => ⟨fun h => ⟨r, .inr rfl, h⟩, ?_⟩
    rintro ⟨ds, rfl | hds, hne, hdigits, hn⟩
    · exact absurd (hdigits '+' List.mem_cons_self) (by decide)
    · rw [(List.cons.inj hds).2]
      exact ⟨hne, hdigits, hn⟩
  · rw [numeral?_of_ne_plus hplus, unsigned?_eq_some_iff]
    refine and_congr_left fun _ => ⟨fun h => ⟨cs, .inl rfl, h⟩, ?_⟩
    rintro ⟨ds, rfl | rfl, h⟩
    · exact h
    · exact absurd rfl hplus

theorem behind?_eq_some_iff {head : String} {cs w : List Char} :
    behind? head cs = some w ↔ cs = head.toList ++ w := by
  rw [behind?]
  split
  · next h =>
    obtain ⟨rest, rfl⟩ := List.isPrefixOf_iff_prefix.1 h
    simp [eq_comm]
  · next h =>
    simp only [reduceCtorEq, false_iff]
    rintro rfl
    exact h (List.isPrefixOf_iff_prefix.2 (List.prefix_append _ _))

/-- What a base with a number behind its name stands for. -/
def sized? (cs : List Char) : Option AbiType :=
  match behind? "uint" cs, behind? "int" cs, behind? "bytes" cs with
  | some w, _, _ => (intWidth? w).map .uint
  | none, some w, _ => (intWidth? w).map .int
  | none, none, some w => (bytesLength? w).map .fixedBytes
  | none, none, none => none

section
variable {components : Except AbiFault (List (String × AbiType))}

theorem ofBase_plain {s : String} {t : AbiType} (h : (s, t) ∈ plainTypes) :
    ofBase s.toList components = .ok t := by
  have hall : ∀ x ∈ plainTypes, ofBase x.1.toList components = .ok x.2 := by
    simp only [plainTypes, List.forall_mem_cons]
    exact ⟨rfl, rfl, rfl, rfl, rfl, rfl, rfl, List.forall_mem_nil _⟩
  exact hall (s, t) h

theorem ofBase_tuple : ofBase "tuple".toList components = components.map .tuple := rfl

theorem ofBase_sized {s : String} (hplain : ∀ t, (s, t) ∉ plainTypes) (htuple : s ≠ "tuple") :
    ofBase s.toList components = match sized? s.toList with
      | some t => .ok t
      | none => .error (.unsupportedType s) := by
  have hnames : ∀ x ∈ plainTypes, (s == x.1) = false := by
    rintro ⟨name, t⟩ hmem
    rw [beq_eq_false_iff_ne]
    rintro rfl
    exact hplain t hmem
  have htuple' : (s == "tuple") = false := beq_eq_false_iff_ne.2 htuple
  simp only [plainTypes, List.forall_mem_cons] at hnames
  simp only [ofBase, String.ofList_toList, hnames, htuple', Bool.false_eq_true, if_false, sized?]
  cases behind? "uint" s.toList <;> cases behind? "int" s.toList <;> cases behind? "bytes" s.toList <;> rfl

theorem intWidth?_eq_some_iff {w : String} {n : Nat} :
    intWidth? w.toList = some n ↔ Numeral w n ∧ IsWidth n := by
  rw [intWidth?, Option.filter_eq_some_iff, numeral?_eq_some_iff, IsWidth]
  simp only [Bool.and_eq_true, beq_iff_eq, decide_eq_true_eq]
  constructor
  · rintro ⟨⟨hw, -⟩, ⟨hbytes, hlow⟩, hhigh⟩
    exact ⟨hw, hbytes, hlow, hhigh⟩
  · rintro ⟨hw, hbytes, hlow, hhigh⟩
    exact ⟨⟨hw, by omega⟩, ⟨hbytes, hlow⟩, hhigh⟩

theorem bytesLength?_eq_some_iff {w : String} {n : Nat} :
    bytesLength? w.toList = some n ↔ Numeral w n ∧ 1 ≤ n ∧ n ≤ 32 := by
  rw [bytesLength?, Option.filter_eq_some_iff, numeral?_eq_some_iff]
  simp only [Bool.and_eq_true, decide_eq_true_eq]
  constructor
  · rintro ⟨⟨hw, -⟩, hlow, hhigh⟩
    exact ⟨hw, hlow, hhigh⟩
  · rintro ⟨hw, hlow, hhigh⟩
    exact ⟨⟨hw, by omega⟩, hlow, hhigh⟩

theorem sized?_plain {s : String} {t : AbiType} (h : (s, t) ∈ plainTypes) :
    sized? s.toList = none := by
  have hall : ∀ x ∈ plainTypes, sized? x.1.toList = none := by decide
  exact hall (s, t) h

theorem ofBase_of_sized {s : String} {t : AbiType} (h : sized? s.toList = some t) :
    ofBase s.toList components = .ok t := by
  rw [ofBase_sized, h]
  · intro t' hmem
    rw [sized?_plain hmem] at h
    cases h
  · rintro rfl
    cases h

theorem spelled_of_sized? {s : String} {ps : List AbiParam} {t : AbiType}
    (h : sized? s.toList = some t) : Spelled s ps t := by
  have hbehind : ∀ {head : String} {w : List Char}, behind? head s.toList = some w →
      s = head ++ String.ofList w := by
    intro head w hw
    rw [← String.toList_inj, String.toList_append, String.toList_ofList]
    exact behind?_eq_some_iff.1 hw
  have hwidth : ∀ {w : List Char} {n : Nat}, intWidth? w = some n →
      Numeral (.ofList w) n ∧ IsWidth n := by
    intro w n hn
    rwa [← String.toList_ofList (l := w), intWidth?_eq_some_iff] at hn
  rw [sized?] at h
  split at h
  · next w hw =>
    obtain ⟨n, hn, rfl⟩ := Option.map_eq_some_iff.1 h
    obtain ⟨hnumeral, hlegal⟩ := hwidth hn
    rw [hbehind hw]
    exact .uintOf hnumeral hlegal
  · next w _ hw =>
    obtain ⟨n, hn, rfl⟩ := Option.map_eq_some_iff.1 h
    obtain ⟨hnumeral, hlegal⟩ := hwidth hn
    rw [hbehind hw]
    exact .intOf hnumeral hlegal
  · next w _ _ hw =>
    obtain ⟨n, hn, rfl⟩ := Option.map_eq_some_iff.1 h
    rw [← String.toList_ofList (l := w), bytesLength?_eq_some_iff] at hn
    rw [hbehind hw]
    exact .bytesOf hn.1 hn.2.1 hn.2.2
  · cases h

theorem sized?_uint {w : String} {n : Nat} (hw : Numeral w n) (hn : IsWidth n) :
    sized? ("uint" ++ w).toList = some (.uint n) := by
  rw [sized?, String.toList_append, behind?_eq_some_iff.2 rfl]
  exact Option.map_eq_some_iff.2 ⟨n, intWidth?_eq_some_iff.2 ⟨hw, hn⟩, rfl⟩

theorem sized?_int {w : String} {n : Nat} (hw : Numeral w n) (hn : IsWidth n) :
    sized? ("int" ++ w).toList = some (.int n) := by
  have huint : behind? "uint" ("int".toList ++ w.toList) = none := rfl
  rw [sized?, String.toList_append, huint, behind?_eq_some_iff.2 rfl]
  exact Option.map_eq_some_iff.2 ⟨n, intWidth?_eq_some_iff.2 ⟨hw, hn⟩, rfl⟩

theorem sized?_bytes {w : String} {n : Nat} (hw : Numeral w n) (hlow : 1 ≤ n) (hhigh : n ≤ 32) :
    sized? ("bytes" ++ w).toList = some (.fixedBytes n) := by
  have huint : behind? "uint" ("bytes".toList ++ w.toList) = none := rfl
  have hint : behind? "int" ("bytes".toList ++ w.toList) = none := rfl
  rw [sized?, String.toList_append, huint, hint, behind?_eq_some_iff.2 rfl]
  exact Option.map_eq_some_iff.2 ⟨n, bytesLength?_eq_some_iff.2 ⟨hw, hlow, hhigh⟩, rfl⟩

theorem peel_brackets {k inner : List Char} (hk : '[' ∉ k) :
    peel (']' :: (k.reverse ++ '[' :: inner)) =
      (peel inner).map fun (base, ds) =>
        (base, ds ++ [⟨k, (']' :: (k.reverse ++ '[' :: inner)).reverse⟩]) := by
  have hstop : ∀ c ∈ k.reverse, (c != '[') = true := by
    intro c hc
    have hne : c ≠ '[' := fun h => hk (h ▸ List.mem_reverse.1 hc)
    simpa using hne
  have hdrop : (k.reverse ++ '[' :: inner).dropWhile (· != '[') = '[' :: inner := by
    rw [List.dropWhile_append_of_pos hstop]
    rfl
  have htake : (k.reverse ++ '[' :: inner).takeWhile (· != '[') = k.reverse := by
    rw [List.takeWhile_append_of_pos hstop]
    simp
  rw [peel]
  split
  · next h => simp [hdrop] at h
  · next h =>
    rw [hdrop] at h
    cases h
    rw [htake, List.reverse_reverse]

theorem peel_unopened {r : List Char} (hr : '[' ∉ r) :
    peel (']' :: r) = .error (.unsupportedType (.ofList (']' :: r).reverse)) := by
  have hdrop : r.dropWhile (· != '[') = [] := by
    rw [List.dropWhile_eq_nil_iff]
    intro c hc
    have hne : c ≠ '[' := fun h => hr (h ▸ hc)
    simpa using hne
  rw [peel]
  split
  · rfl
  · next h =>
    rw [hdrop] at h
    cases h

theorem peel_bare {r : List Char} (hr : r.head? ≠ some ']') : peel r = .ok (r.reverse, []) := by
  fun_cases peel r with
  | case1 r h => simp at hr
  | case2 r _ inner h => simp at hr
  | case3 r h => rfl

theorem dimensioned_append (t : AbiType) (ds es : List Dimension) :
    dimensioned t (ds ++ es) = (dimensioned t ds).bind (dimensioned · es) := by
  induction ds generalizing t with
  | nil => rfl
  | cons d ds ih =>
      rw [List.cons_append, dimensioned, dimensioned]
      split
      · exact ih _
      · cases numeral? d.inside with
        | none => rfl
        | some n => exact ih _

theorem ofSpelling_bare {s : String} (h : s.toList.getLast? ≠ some ']') :
    ofSpelling s components = ofBase s.toList components := by
  rw [ofSpelling, peel_bare (by rwa [List.head?_reverse]), List.reverse_reverse]
  dsimp only
  cases ofBase s.toList components with
  | error e => rfl
  | ok t => rfl

theorem ofSpelling_unopened {r : String} (h : '[' ∉ r.toList) :
    ofSpelling (r ++ "]") components = .error (.unsupportedType (r ++ "]")) := by
  have hreverse : (r ++ "]").toList.reverse = ']' :: r.toList.reverse := by
    rw [String.toList_append, List.reverse_append]
    rfl
  have hback : String.ofList (']' :: r.toList.reverse).reverse = r ++ "]" := by
    rw [← hreverse, List.reverse_reverse, String.ofList_toList]
  rw [ofSpelling, hreverse, peel_unopened (by rwa [List.mem_reverse]), hback]

theorem ofSpelling_brackets {s k : String} (hk : '[' ∉ k.toList) :
    ofSpelling (s ++ "[" ++ k ++ "]") components =
      (ofSpelling s components).bind
        (dimensioned · [⟨k.toList, (s ++ "[" ++ k ++ "]").toList⟩]) := by
  have hreverse : (s ++ "[" ++ k ++ "]").toList.reverse =
      ']' :: (k.toList.reverse ++ '[' :: s.toList.reverse) := by
    simp only [String.toList_append, List.reverse_append, List.append_assoc]
    rfl
  rw [ofSpelling, hreverse, peel_brackets hk, ← hreverse, List.reverse_reverse, ofSpelling]
  cases peel s.toList.reverse with
  | error e => rfl
  | ok found =>
      obtain ⟨base, ds⟩ := found
      simp only [Except.map]
      cases ofBase base components with
      | error e => rfl
      | ok t => exact dimensioned_append t ds _

/-- A spelling has no brackets at its end, or none that opens, or ends with a pair of them. -/
@[elab_as_elim]
theorem bracketed {motive : String → Prop}
    (bare : ∀ s : String, s.toList.getLast? ≠ some ']' → motive s)
    (unopened : ∀ r : String, '[' ∉ r.toList → motive (r ++ "]"))
    (brackets : ∀ s k : String, '[' ∉ k.toList → motive s → motive (s ++ "[" ++ k ++ "]"))
    (s : String) : motive s := by
  induction hlen : s.length using Nat.strongRecOn generalizing s with
  | ind n ih =>
    by_cases hlast : s.toList.getLast? = some ']'
    · obtain ⟨r, hr⟩ := List.getLast?_eq_some_iff.1 hlast
      -- From the end, the bracket that closes last is matched by the first that opens.
      by_cases hopen : '[' ∈ r.reverse
      · obtain ⟨k, inner, hk, hnot⟩ := List.eq_append_cons_of_mem hopen
        have hs : s = String.ofList inner.reverse ++ "[" ++ String.ofList k.reverse ++ "]" := by
          rw [← String.toList_inj, hr, ← List.reverse_reverse r, hk]
          simp
        subst hs
        refine brackets _ _ ?_ (ih _ ?_ _ rfl)
        · simpa using hnot
        · rw [← hlen]
          have hone : "[".length = 1 := rfl
          simp only [String.length_append, hone]
          omega
      · have hs : s = String.ofList r ++ "]" := by
          rw [← String.toList_inj, hr, String.toList_append, String.toList_ofList]
          rfl
        subst hs
        exact unopened _ (by simpa using hopen)
    · exact bare s hlast

end

theorem append_empty_brackets (s : String) : s ++ "[" ++ "" ++ "]" = s ++ "[]" := by
  rw [String.append_empty, String.append_assoc]
  rfl

theorem dimensioned_counted {k : List Char} (hk : k ≠ []) (t : AbiType) (spelling : List Char) :
    dimensioned t [⟨k, spelling⟩] = match numeral? k with
      | some n => .ok (.fixedArray t n)
      | none => .error (.unsupportedType (.ofList spelling)) := by
  rw [dimensioned, if_neg (by simpa using hk)]
  rfl

theorem ofParam_eq (p : AbiParam) : ofParam p = parse p.type p.components := by
  cases p
  rw [ofParam, parse]

/-- The components are parsed each on its own, and keep their names. -/
theorem ofComponents_eq_ok_iff {ps : List AbiParam} {fields : List (String × AbiType)} :
    ofComponents ps = .ok fields ↔ fields.map (·.1) = ps.map (·.name) ∧
      ∀ x ∈ ps.zip fields, parse x.1.type x.1.components = .ok x.2.2 := by
  induction ps generalizing fields with
  | nil =>
    cases fields with
    | nil => simp [ofComponents]
    | cons f fields => simp [ofComponents]
  | cons p ps ih =>
    rw [ofComponents, ofParam_eq]
    cases fields with
    | nil =>
      cases parse p.type p.components with
      | error e => simp
      | ok t => simp [Abi.map_eq_ok]
    | cons f fields =>
      obtain ⟨name, t⟩ := f
      rw [List.map_cons, List.map_cons, List.cons.injEq, List.zip_cons_cons, List.forall_mem_cons,
        and_and_and_comm, ← ih]
      cases parse p.type p.components with
      | error e => simp
      | ok t' =>
        simp only [Abi.map_eq_ok, List.cons.injEq, Prod.mk.injEq, Except.ok.injEq]
        constructor
        · rintro ⟨rest, hrest, ⟨hname, ht⟩, rfl⟩
          exact ⟨⟨hname.symm, ht⟩, hrest⟩
        · rintro ⟨⟨hname, ht⟩, hrest⟩
          exact ⟨fields, hrest, ⟨hname.symm, ht⟩, rfl⟩

theorem exists_of_ofComponents_error {ps : List AbiParam} {e : AbiFault}
    (h : ofComponents ps = .error e) : ∃ p ∈ ps, parse p.type p.components = .error e := by
  induction ps with
  | nil => simp [ofComponents] at h
  | cons p ps ih =>
      rw [ofComponents, ofParam_eq] at h
      cases hp : parse p.type p.components with
      | error e' =>
          rw [hp] at h
          cases h
          exact ⟨p, List.mem_cons_self, hp⟩
      | ok t =>
          rw [hp] at h
          cases hps : ofComponents ps with
          | error e' =>
              rw [hps] at h
              cases h
              obtain ⟨q, hq, hfault⟩ := ih hps
              exact ⟨q, List.mem_cons_of_mem _ hq, hfault⟩
          | ok fields =>
              rw [hps] at h
              cases h

/-- What parsing a spelling can end with: a type that it is a spelling of, or that none is known. -/
def Outcome (s : String) (ps : List AbiParam) : Except AbiFault AbiType → Prop
  | .ok t => Spelled s ps t
  | .error e => ∃ named, e = .unsupportedType named

theorem outcome_ofBase {s : String} {ps : List AbiParam}
    (hcomponents : Outcome "tuple" ps ((ofComponents ps).map .tuple)) :
    Outcome s ps (ofBase s.toList (ofComponents ps)) := by
  by_cases hplain : ∃ t, (s, t) ∈ plainTypes
  · obtain ⟨t, ht⟩ := hplain
    rw [ofBase_plain ht]
    exact .plain ht
  · by_cases htuple : s = "tuple"
    · rw [htuple, ofBase_tuple]
      exact hcomponents
    · rw [ofBase_sized (not_exists.1 hplain) htuple]
      cases hs : sized? s.toList with
      | none => exact ⟨s, rfl⟩
      | some t => exact spelled_of_sized? hs

theorem outcome_dimensioned {s k : String} {ps : List AbiParam} {t : AbiType} (h : Spelled s ps t) :
    Outcome (s ++ "[" ++ k ++ "]") ps
      (dimensioned t [⟨k.toList, (s ++ "[" ++ k ++ "]").toList⟩]) := by
  by_cases hk : k.toList = []
  · obtain rfl : k = "" := String.toList_eq_nil_iff.1 hk
    rw [append_empty_brackets]
    exact .array h
  · rw [dimensioned_counted hk]
    cases hn : numeral? k.toList with
    | none => exact ⟨_, rfl⟩
    | some n =>
      obtain ⟨hnumeral, hfits⟩ := numeral?_eq_some_iff.1 hn
      exact .fixedArray h hnumeral hfits

theorem outcome_ofSpelling {ps : List AbiParam}
    (hcomponents : Outcome "tuple" ps ((ofComponents ps).map .tuple)) (s : String) :
    Outcome s ps (ofSpelling s (ofComponents ps)) := by
  induction s using bracketed with
  | bare s hs =>
      rw [ofSpelling_bare hs]
      exact outcome_ofBase hcomponents
  | unopened r hr =>
      rw [ofSpelling_unopened hr]
      exact ⟨_, rfl⟩
  | brackets s k hk ih =>
      rw [ofSpelling_brackets hk]
      cases hs : ofSpelling s (ofComponents ps) with
      | error e =>
          rw [hs] at ih
          exact ih
      | ok t =>
          rw [hs] at ih
          exact outcome_dimensioned ih

theorem outcome_components {ps : List AbiParam}
    (h : ∀ p ∈ ps, Outcome p.type p.components (parse p.type p.components)) :
    Outcome "tuple" ps ((ofComponents ps).map .tuple) := by
  cases hps : ofComponents ps with
  | ok fields =>
      obtain ⟨hnames, hfields⟩ := ofComponents_eq_ok_iff.1 hps
      refine Spelled.tuple hnames ?_
      intro x hx
      have hparam := h x.1 (List.of_mem_zip hx).1
      rwa [hfields x hx] at hparam
  | error e =>
      obtain ⟨p, hp, hfault⟩ := exists_of_ofComponents_error hps
      have hparam := h p hp
      rwa [hfault] at hparam

theorem outcome_parse (s : String) (ps : List AbiParam) : Outcome s ps (parse s ps) := by
  have hparam : ∀ p : AbiParam, Outcome p.type p.components (parse p.type p.components) := by
    intro p
    induction p using AbiParam.nested with
    | node name type components internalType ih =>
        exact outcome_ofSpelling (outcome_components ih) type
  exact outcome_ofSpelling (outcome_components fun p _ => hparam p) s

theorem Numeral.toList_ne_nil {s : String} {n : Nat} (h : Numeral s n) : s.toList ≠ [] := by
  obtain ⟨digits, hs | hs, hne, -⟩ := h
  · rwa [hs]
  · rw [hs]
    exact List.cons_ne_nil _ _

theorem Numeral.not_mem {s : String} {n : Nat} (h : Numeral s n) {c : Char}
    (hdigit : c.isDigit = false) (hplus : c ≠ '+') : c ∉ s.toList := by
  obtain ⟨digits, hs, -, hdigits, -⟩ := h
  have hnot : c ∉ digits := by
    intro hmem
    rw [hdigits c hmem] at hdigit
    cases hdigit
  rcases hs with hs | hs
  · rwa [hs]
  · rw [hs, List.mem_cons, not_or]
    exact ⟨hplus, hnot⟩

theorem parse_of_bare {s : String} {ps : List AbiParam} {t : AbiType} (hs : ']' ∉ s.toList)
    (h : ofBase s.toList (ofComponents ps) = .ok t) : parse s ps = .ok t := by
  rw [parse, ofSpelling_bare (fun hlast => hs (List.mem_of_getLast? hlast)), h]

/-- A name with a number behind it. -/
theorem parse_of_sized {name w : String} {n : Nat} {ps : List AbiParam} {t : AbiType}
    (hname : ']' ∉ name.toList) (hw : Numeral w n) (h : sized? (name ++ w).toList = some t) :
    parse (name ++ w) ps = .ok t := by
  refine parse_of_bare ?_ (ofBase_of_sized h)
  rw [String.toList_append, List.mem_append, not_or]
  exact ⟨hname, hw.not_mem rfl (by decide)⟩

theorem parse_of_spelled {s : String} {ps : List AbiParam} {t : AbiType} (h : Spelled s ps t) :
    parse s ps = .ok t := by
  induction h with
  | @plain s ps t h =>
      have hall : ∀ x ∈ plainTypes, ']' ∉ x.1.toList := by decide
      exact parse_of_bare (hall (s, t) h) (ofBase_plain h)
  | uintOf hw hn => exact parse_of_sized (by decide) hw (sized?_uint hw hn)
  | intOf hw hn => exact parse_of_sized (by decide) hw (sized?_int hw hn)
  | bytesOf hw hlow hhigh => exact parse_of_sized (by decide) hw (sized?_bytes hw hlow hhigh)
  | @tuple ps fields hnames hfields ih =>
      have hcomponents : ofComponents ps = .ok fields := ofComponents_eq_ok_iff.2 ⟨hnames, ih⟩
      refine parse_of_bare (by decide) ?_
      rw [ofBase_tuple, hcomponents]
      rfl
  | @array s ps t h ih =>
      rw [parse] at ih
      rw [parse, ← append_empty_brackets, ofSpelling_brackets (by decide), ih]
      rfl
  | @fixedArray s ps t k n h hk hn ih =>
      rw [parse] at ih
      rw [parse, ofSpelling_brackets (hk.not_mem rfl (by decide)), ih, Except.bind,
        dimensioned_counted hk.toList_ne_nil, numeral?_eq_some_iff.2 ⟨hk, hn⟩]

theorem parse_eq_ok_iff {s : String} {ps : List AbiParam} {t : AbiType} :
    parse s ps = .ok t ↔ Spelled s ps t := by
  refine ⟨fun h => ?_, parse_of_spelled⟩
  have houtcome := outcome_parse s ps
  rwa [h] at houtcome

/-- Types whose words have legal widths and whose lengths fit 64 bits. -/
inductive Legal : AbiType → Prop
  | uint {bits : Nat} : IsWidth bits → Legal (.uint bits)
  | int {bits : Nat} : IsWidth bits → Legal (.int bits)
  | address : Legal .address
  | bool : Legal .bool
  | fixedBytes {length : Nat} : 1 ≤ length → length ≤ 32 → Legal (.fixedBytes length)
  | bytes : Legal .bytes
  | string : Legal .string
  | array {t : AbiType} : Legal t → Legal (.array t)
  | fixedArray {t : AbiType} {length : Nat} : Legal t → length < 2 ^ 64 → Legal (.fixedArray t length)
  | tuple {fields : List (String × AbiType)} :
      (∀ t ∈ fields.map (·.2), Legal t) → Legal (.tuple fields)

def spelling : AbiType → String
  | .uint bits => "uint" ++ toString bits
  | .int bits => "int" ++ toString bits
  | .address => "address"
  | .bool => "bool"
  | .fixedBytes length => "bytes" ++ toString length
  | .bytes => "bytes"
  | .string => "string"
  | .array t => t.spelling ++ "[]"
  | .fixedArray t length => t.spelling ++ "[" ++ toString length ++ "]"
  | .tuple _ => "tuple"

mutual
/-- The parameters that a spelling leaves to be given beside it. -/
def components : AbiType → List AbiParam
  | .array t | .fixedArray t _ => t.components
  | .tuple fields => params fields
  | _ => []

def params : List (String × AbiType) → List AbiParam
  | [] => []
  | (name, t) :: r => ⟨name, t.spelling, t.components, none⟩ :: params r
end

theorem params_eq (fields : List (String × AbiType)) :
    params fields = fields.map fun f => ⟨f.1, f.2.spelling, f.2.components, none⟩ := by
  induction fields with
  | nil => rfl
  | cons f fields ih => rw [params, ih, List.map_cons]

theorem numeral_toString (n : Nat) : Numeral (toString n) n := by
  refine ⟨Nat.toDigits 10 n, .inl ?_, Nat.toDigits_ne_nil, ?_, Nat.ofDigitChars_ten_toDigits⟩
  · rw [Nat.toString_eq_repr, Nat.toList_repr]
  · exact fun c hc => Nat.isDigit_of_mem_toDigits (by decide) (by decide) hc

theorem Legal.spelled {t : AbiType} (h : t.Legal) : Spelled t.spelling t.components t := by
  induction h with
  | uint hbits => exact .uintOf (numeral_toString _) hbits
  | int hbits => exact .intOf (numeral_toString _) hbits
  | address => exact .plain (by simp [plainTypes, spelling])
  | bool => exact .plain (by simp [plainTypes, spelling])
  | fixedBytes hlow hhigh => exact .bytesOf (numeral_toString _) hlow hhigh
  | bytes => exact .plain (by simp [plainTypes, spelling])
  | string => exact .plain (by simp [plainTypes, spelling])
  | array _ ih => exact .array ih
  | fixedArray _ hlength ih => exact .fixedArray ih (numeral_toString _) hlength
  | @tuple fields _ ih =>
      rw [spelling, components, params_eq]
      refine .tuple ?_ ?_
      · rw [List.map_map]
        rfl
      · intro x hx
        rw [← List.map_id fields, List.map_map, List.zip_map'] at hx
        obtain ⟨f, hf, rfl⟩ := List.mem_map.1 hx
        exact ih f.2 (List.mem_map_of_mem hf)

theorem Spelled.legal {s : String} {ps : List AbiParam} {t : AbiType} (h : Spelled s ps t) :
    t.Legal := by
  induction h with
  | @plain s ps t h =>
      have hword : IsWidth 256 := ⟨rfl, by decide, by decide⟩
      have hall : ∀ x ∈ plainTypes, x.2.Legal := by
        simp only [plainTypes, List.forall_mem_cons]
        exact ⟨.address, .bool, .string, .bytes, .fixedBytes (by decide) (by decide), .uint hword,
          .int hword, List.forall_mem_nil _⟩
      exact hall (s, t) h
  | uintOf _ hn => exact .uint hn
  | intOf _ hn => exact .int hn
  | bytesOf _ hlow hhigh => exact .fixedBytes hlow hhigh
  | @tuple ps fields hnames _ ih =>
      refine .tuple ?_
      intro t ht
      obtain ⟨f, hf, rfl⟩ := List.mem_map.1 ht
      have hlength : fields.length ≤ ps.length := by
        have h := congrArg List.length hnames
        rw [List.length_map, List.length_map] at h
        exact Nat.le_of_eq h
      rw [← List.map_snd_zip hlength] at hf
      obtain ⟨x, hx, rfl⟩ := List.mem_map.1 hf
      exact ih x hx
  | array _ ih => exact .array ih
  | fixedArray _ _ hn ih => exact .fixedArray ih hn

/-- A type string is accepted exactly if it spells a type, and is read as that type; each other one is
refused as unsupported. Every legal type is read back from its canonical spelling, and no other. -/
theorem parse_spelled (s : String) (ps : List AbiParam) :
    (∀ t, parse s ps = .ok t ↔ Spelled s ps t) ∧
      ((∃ t, Spelled s ps t) ∨ ∃ named, parse s ps = .error (.unsupportedType named)) ∧
      ∀ t : AbiType, t.Legal ↔ parse t.spelling t.components = .ok t := by
  refine ⟨fun t => parse_eq_ok_iff, ?_, fun t => ?_⟩
  · have houtcome := outcome_parse s ps
    cases hparse : parse s ps with
    | ok t => exact .inl ⟨t, parse_eq_ok_iff.1 hparse⟩
    | error e =>
        rw [hparse] at houtcome
        obtain ⟨named, rfl⟩ := houtcome
        exact .inr ⟨named, rfl⟩
  · exact ⟨fun h => parse_eq_ok_iff.2 h.spelled, fun h => (parse_eq_ok_iff.1 h).legal⟩

end AbiType
end SoliditySession
