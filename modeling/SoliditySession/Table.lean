/- Finite maps keyed by texts, kept in the order of their keys. -/
namespace SoliditySession

structure Table (α : Type) where
  entries : List (String × α)
  ordered : entries.Pairwise fun a b => a.1 < b.1

namespace Table
variable {α β : Type}

def empty : Table α := ⟨[], .nil⟩

instance : EmptyCollection (Table α) := ⟨empty⟩
instance : Inhabited (Table α) := ⟨empty⟩
instance [DecidableEq α] : DecidableEq (Table α) := fun a b =>
  if h : a.entries = b.entries then
    isTrue (by cases a; cases b; cases h; rfl)
  else isFalse fun e => h (e ▸ rfl)

@[ext] theorem ext {a b : Table α} (h : a.entries = b.entries) : a = b := by
  cases a; cases b; cases h; rfl

def place (k : String) (v : α) : List (String × α) → List (String × α)
  | [] => [(k, v)]
  | (k', v') :: r =>
    if k < k' then (k, v) :: (k', v') :: r
    else if k = k' then (k, v) :: r
    else (k', v') :: place k v r

theorem mem_place {k : String} {v : α} {l : List (String × α)} {x : String × α}
    (h : x ∈ place k v l) : x = (k, v) ∨ x ∈ l := by
  fun_induction place k v l with
  | case1 => simpa using h
  | case2 => simpa using h
  | case3 k' v' r => simp at h; grind
  | case4 k' v' r _ _ ih => simp at h; grind

theorem pairwise_place {k : String} {v : α} {l : List (String × α)}
    (h : l.Pairwise fun a b => a.1 < b.1) : (place k v l).Pairwise fun a b => a.1 < b.1 := by
  fun_induction place k v l with
  | case1 => simp
  | case2 k' v' r hk =>
    refine List.pairwise_cons.2 ⟨fun x hx => ?_, h⟩
    rcases List.mem_cons.1 hx with rfl | hx
    · exact hk
    · exact String.lt_trans hk ((List.pairwise_cons.1 h).1 x hx)
  | case3 v' r => exact List.pairwise_cons.2 ⟨(List.pairwise_cons.1 h).1, (List.pairwise_cons.1 h).2⟩
  | case4 k' v' r hk hne ih =>
    refine List.pairwise_cons.2 ⟨fun x hx => ?_, ih (List.pairwise_cons.1 h).2⟩
    rcases mem_place hx with rfl | hx
    · exact Std.lt_of_le_of_ne (Std.not_lt.mp hk) (Ne.symm hne)
    · exact (List.pairwise_cons.1 h).1 x hx

def insert (t : Table α) (k : String) (v : α) : Table α :=
  ⟨place k v t.entries, pairwise_place t.ordered⟩

/-- The last of several values for one key stays. -/
def ofList (l : List (String × α)) : Table α := l.foldl (fun t e => t.insert e.1 e.2) empty

def get? (t : Table α) (k : String) : Option α := t.entries.lookup k

def contains (t : Table α) (k : String) : Bool := t.entries.any (·.1 == k)

def keys (t : Table α) : List String := t.entries.map (·.1)

/-- A value placed under a new key is one more entry. -/
theorem perm_place {k : String} {v : α} {l : List (String × α)} (h : k ∉ l.map (·.1)) :
    (place k v l).Perm ((k, v) :: l) := by
  fun_induction place k v l with
  | case1 => exact .refl _
  | case2 => exact .refl _
  | case3 v' r => simp at h
  | case4 k' v' r _ _ ih =>
    have hr : k ∉ r.map (·.1) := fun hk => h (List.mem_cons_of_mem _ hk)
    exact ((ih hr).cons (k', v')).trans (.swap (k, v) (k', v') r)

theorem nodup_keys (t : Table α) : t.keys.Nodup := by
  rw [keys, List.Nodup, List.pairwise_map]
  refine t.ordered.imp ?_
  intro a b hab heq
  exact Std.lt_irrefl (heq ▸ hab)

@[simp] theorem get?_empty (k : String) : (∅ : Table α).get? k = none := rfl

theorem lookup_eq_some_iff {l : List (String × α)} (h : (l.map (·.1)).Nodup) {k : String} {v : α} :
    l.lookup k = some v ↔ (k, v) ∈ l := by
  induction l with
  | nil => simp
  | cons e l ih =>
    obtain ⟨k', v'⟩ := e
    obtain ⟨hfirst, hrest⟩ := List.nodup_cons.1 h
    by_cases hk : k = k'
    · subst hk
      have hout : (k, v) ∉ l := fun hmem => hfirst (List.mem_map.2 ⟨(k, v), hmem, rfl⟩)
      simp [hout, eq_comm]
    · have hb : (k == k') = false := beq_eq_false_iff_ne.2 hk
      simp [List.lookup_cons, hb, hk, ih hrest]

theorem get?_eq_some_iff {t : Table α} {k : String} {v : α} :
    t.get? k = some v ↔ (k, v) ∈ t.entries := lookup_eq_some_iff t.nodup_keys

/-- A table is what it holds under each key. -/
theorem ext_get? {a b : Table α} (h : ∀ k v, a.get? k = some v ↔ b.get? k = some v) : a = b := by
  have hnodup (t : Table α) : t.entries.Nodup := by
    refine t.ordered.imp fun {x y} hxy heq => ?_
    exact Std.lt_irrefl (heq ▸ hxy)
  refine ext (List.Perm.eq_of_pairwise ?_ a.ordered b.ordered ?_)
  · intro x y _ _ hxy hyx
    exact absurd hyx (Std.not_lt.2 (Std.le_of_lt hxy))
  · refine (List.perm_ext_iff_of_nodup (hnodup a) (hnodup b)).2 fun e => ?_
    rw [← get?_eq_some_iff, ← get?_eq_some_iff, h]

theorem lookup_place (k : String) (v : α) (l : List (String × α)) (k' : String) :
    (place k v l).lookup k' = if k' = k then some v else l.lookup k' := by
  fun_induction place k v l with
  | case1 => grind
  | case2 k₁ v₁ r hlt => grind
  | case3 v₁ r => grind
  | case4 k₁ v₁ r hlt hne ih => grind

theorem get?_insert (t : Table α) (k : String) (v : α) (k' : String) :
    (t.insert k v).get? k' = if k' = k then some v else t.get? k' := lookup_place k v t.entries k'

theorem get?_foldl_insert (l : List (String × α)) (t : Table α) (k : String) :
    (l.foldl (fun t e => t.insert e.1 e.2) t).get? k = (l.reverse.lookup k).or (t.get? k) := by
  induction l generalizing t with
  | nil => rfl
  | cons e l ih =>
    rw [List.foldl_cons, ih, List.reverse_cons, List.lookup_append, get?_insert]
    grind

theorem get?_ofList (l : List (String × α)) (k : String) :
    (ofList l).get? k = l.reverse.lookup k := by
  rw [ofList, get?_foldl_insert]
  exact Option.or_none

theorem get?_ofList_eq_some_iff {l : List (String × α)} (h : (l.map (·.1)).Nodup) {k : String}
    {v : α} : (ofList l).get? k = some v ↔ (k, v) ∈ l := by
  have hreverse : (l.reverse.map (·.1)).Nodup := by
    rw [List.map_reverse]
    exact List.pairwise_reverse.2 (h.imp Ne.symm)
  rw [get?_ofList, lookup_eq_some_iff hreverse, List.mem_reverse]

end Table
end SoliditySession
