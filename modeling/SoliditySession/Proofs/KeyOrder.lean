import SoliditySession.Proofs.Records
/- Sorting the keys of objects. Of several values under one key a sorted object has the last alone;
whatever a value stands for, the sorted value stands for as well. -/
namespace SoliditySession

namespace Table
variable {α β : Type}

theorem lookup_map_value (f : α → β) (l : List (String × α)) (k : String) :
    (l.map fun e => (e.1, f e.2)).lookup k = (l.lookup k).map f := by
  induction l with
  | nil => rfl
  | cons e l ih =>
    rw [List.map_cons, List.lookup_cons, List.lookup_cons, ih]
    cases k == e.1 <;> rfl

theorem head?_filter_key (l : List (String × α)) (k : String) :
    ((l.filter (·.1 == k)).map (·.2)).head? = l.lookup k := by
  induction l with
  | nil => rfl
  | cons e l ih =>
    rw [List.lookup_cons, List.filter_cons]
    by_cases hk : e.1 = k
    · simp [hk]
    · have hkey : (k == e.1) = false := beq_eq_false_iff_ne.2 (Ne.symm hk)
      simp [hk, hkey, ih]

theorem filter_key_of_nodup {l : List (String × α)} (h : (l.map (·.1)).Nodup) (k : String) :
    (l.filter (·.1 == k)).map (·.2) = (l.lookup k).toList := by
  induction l with
  | nil => rfl
  | cons e l ih =>
    obtain ⟨k', v⟩ := e
    obtain ⟨hfirst, hrest⟩ := List.nodup_cons.1 h
    by_cases hk : k' = k
    · have hnone : l.filter (·.1 == k) = [] := by
        rw [List.filter_eq_nil_iff]
        intro e he heq
        apply hfirst
        rw [hk, ← eq_of_beq heq]
        exact List.mem_map.2 ⟨e, he, rfl⟩
      simp [hk, hnone]
    · have hkey : (k == k') = false := beq_eq_false_iff_ne.2 (Ne.symm hk)
      simp [hk, hkey, ih hrest, List.lookup_cons]

theorem lookup_reverse_entries (t : Table α) (k : String) :
    t.entries.reverse.lookup k = t.get? k := by
  ext v
  rw [← get?_ofList, get?_ofList_eq_some_iff t.nodup_keys, get?_eq_some_iff]

end Table

namespace Json

theorem normalItems_eq (items : List Json) : normalItems items = items.map normal := by
  induction items with
  | nil => rfl
  | cons j items ih => rw [normalItems, ih, List.map_cons]

theorem normalEntries_eq (es : List (String × Json)) :
    normalEntries es = es.map fun e => (e.1, e.2.normal) := by
  induction es with
  | nil => rfl
  | cons e es ih => rw [normalEntries, ih, List.map_cons]

theorem get?_ofList_normalEntries (es : List (String × Json)) (k : String) :
    (Table.ofList (normalEntries es)).get? k = (es.reverse.lookup k).map normal := by
  rw [Table.get?_ofList, normalEntries_eq, ← List.map_reverse, Table.lookup_map_value]

theorem entry_obj (es : List (String × Json)) (k : String) :
    entry? (.obj es) k = es.lookup k := rfl

theorem entry_normal (es : List (String × Json)) (k : String) :
    entry? (normal (.obj es)) k = (es.reverse.lookup k).map normal :=
  get?_ofList_normalEntries es k

/-- A source with its keys sorted. -/
def Source.normal : Source → Source
  | .entries es => .entries (Table.ofList (normalEntries es)).entries
  | .items js => .items (normalItems js)

theorem exists_of_variantOf {α : Type} {known : List (String × α)} {j : Json} {v : α}
    (h : variantOf known j = .ok v) : ∃ s, j = .str s ∨ j = .obj [(s, .null)] := by
  unfold variantOf at h
  split at h
  · exact ⟨_, .inl rfl⟩
  · exact ⟨_, .inr rfl⟩
  · split at h
    · exact absurd h (wrong_ne_ok _ _ _)
    · next hpick => exact absurd h (hpick v)
  · cases h
  · exact absurd h (wrong_ne_ok _ _ _)

namespace Shape
variable {α : Type} {P : Shape α}

/-- Of the values given for a field the last is left. -/
theorem given_normal (name : String) (place : Nat) (src : Source) :
    given name place src.normal = ((given name place src).getLast?.map Json.normal).toList := by
  cases src with
  | entries es =>
    have hlast : ((es.filter (·.1 == name)).map (·.2)).getLast? = es.reverse.lookup name := by
      rw [← Table.head?_filter_key, List.filter_reverse, List.map_reverse, List.head?_reverse]
    have hkeys := (Table.ofList (normalEntries es)).nodup_keys
    rw [Source.normal, given, given, hlast, Table.filter_key_of_nodup hkeys,
      ← get?_ofList_normalEntries]
    rfl
  | items js =>
    rw [Source.normal, given, given, normalItems_eq, List.getElem?_map]
    cases js[place]? <;> rfl

theorem exists_of_table {es : List (String × Json)} {t : Table α} (h : P.table (.obj es) t)
    {k : String} {c : Json} (hc : es.reverse.lookup k = some c) :
    ∃ v, t.get? k = some v ∧ P c v := by
  obtain ⟨heach, hkeys⟩ := h
  obtain ⟨before, after, hsplit, -⟩ := List.lookup_eq_some_iff.1 hc
  have hmem : (k, c) ∈ es := by
    rw [← List.mem_reverse, hsplit]
    simp
  obtain ⟨v, hv⟩ := heach _ hmem
  exact ⟨v, (hkeys k v).2 ⟨c, hc, hv⟩, hv⟩

/-- A value that stands for this datum does so with its keys sorted, too. -/
def Unordered (P : Shape α) (v : α) : Prop := ∀ j, P j v → P j.normal v

namespace Unordered

theorem text (s : String) : Unordered Shape.text s := by
  rintro j rfl
  rfl

theorem orNull {o : Option α} (h : ∀ v ∈ o, P.Unordered v) : P.orNull.Unordered o := by
  have hvalue : ∀ j : Json, (∃ v, o = some v ∧ P j v) → ∃ v, o = some v ∧ P j.normal v := by
    rintro j ⟨v, rfl, hv⟩
    exact ⟨v, rfl, h v rfl j hv⟩
  intro j hj
  cases j with
  | null => exact hj
  | _ => exact hvalue _ hj

theorem list {vs : List α} (h : ∀ v ∈ vs, P.Unordered v) : P.list.Unordered vs := by
  intro j hj
  cases j with
  | arr items =>
    rw [Shape.list] at hj
    rw [Json.normal, normalItems_eq, Shape.list, List.forall₂_map_left_iff]
    induction hj with
    | nil => exact .nil
    | @cons j v items vs hv _ ih =>
      rw [List.forall_mem_cons] at h
      exact .cons (h.1 j hv) (ih h.2)
  | _ => exact hj.elim

theorem table {read : Reader α} (hread : Meets read P) {t : Table α}
    (h : ∀ k v, t.get? k = some v → P.Unordered v) : P.table.Unordered t := by
  intro j hj
  cases j with
  | obj es =>
    rw [Json.normal, Shape.table]
    constructor
    · rintro ⟨k, c⟩ he
      have hc := Table.get?_eq_some_iff.2 he
      rw [get?_ofList_normalEntries, Option.map_eq_some_iff] at hc
      obtain ⟨c, hc, rfl⟩ := hc
      obtain ⟨v, hv, hcv⟩ := exists_of_table hj hc
      exact ⟨v, h k v hv c hcv⟩
    · intro k v
      rw [Table.lookup_reverse_entries, get?_ofList_normalEntries]
      constructor
      · intro hv
        obtain ⟨c, hc, hcv⟩ := (hj.2 k v).1 hv
        exact ⟨c.normal, by rw [hc]; rfl, h k v hv c hcv⟩
      · rintro ⟨_, hmap, hcv⟩
        obtain ⟨c, hc, rfl⟩ := Option.map_eq_some_iff.1 hmap
        obtain ⟨w, hw, hcw⟩ := exists_of_table hj hc
        -- a value stands for one datum only
        have hsame := ((hread _ _).2 hcv).symm.trans ((hread _ _).2 (h k w hw c hcw))
        rw [Except.ok.inj hsame]
        exact hw
  | _ => exact hj.elim

theorem variant (known : List (String × α)) (v : α) :
    Unordered (fun j v => variantOf known j = .ok v) v := by
  intro j hj
  obtain ⟨s, rfl | rfl⟩ := exists_of_variantOf hj
  · exact hj
  · exact hj

/-- What a field is given stands for the same with its keys sorted. -/
theorem field {name : String} {place : Nat} {default : Option α} {src : Source} {v : α}
    (h : P.Unordered v) (hfield : P.field name place default src v) :
    P.field name place default src.normal v := by
  rw [Shape.field, given_normal]
  rw [Shape.field] at hfield
  cases hgiven : given name place src with
  | nil =>
    rw [hgiven] at hfield
    exact hfield
  | cons j js =>
    rw [hgiven] at hfield
    cases js with
    | nil => exact h j hfield
    | cons => exact hfield.elim

theorem record {n : Nat} {F : Source → α → Prop} {v : α}
    (h : ∀ src, F src v → F src.normal v) : (Shape.record n F).Unordered v := by
  intro j hj
  cases j with
  | obj es => exact h (.entries es) hj
  | arr js =>
    refine ⟨?_, h (.items js) hj.2⟩
    rw [normalItems_eq, List.length_map]
    exact hj.1
  | _ => exact hj.elim

end Unordered
end Shape

/-- The condition holds of a value as it is written, and with its keys sorted. -/
def InEitherOrder (j : Json) (P : Json → Prop) : Prop := P j ∧ P j.normal

theorem inEitherOrder_read {α : Type} {read : Reader α} {P : Shape α} (hread : Meets read P)
    {j : Json} {v : α} (hunordered : P.Unordered v) (h : P j v) :
    j.InEitherOrder fun j => read j = .ok v :=
  ⟨(hread j v).2 h, (hread j.normal v).2 (hunordered j h)⟩

end Json
end SoliditySession
