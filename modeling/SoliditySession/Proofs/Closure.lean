import Mathlib.Data.Set.Card
import Mathlib.Logic.Relation
import SoliditySession.Import
/- What is gathered from a root: all that it imports, each unit once, however the imports loop. -/
namespace SoliditySession.Import

/-- The text of a unit: the root comes with its own, the others are resolved. -/
def textOf? (resolve : Resolver) (root source unit : String) : Option String :=
  if unit = root then some source else (resolve unit).toOption

theorem textOf?_eq_some_iff {resolve : Resolver} {root source unit text : String} :
    textOf? resolve root source unit = some text ↔
      unit = root ∧ text = source ∨ unit ≠ root ∧ resolve unit = .ok text := by
  by_cases h : unit = root
  · simp [textOf?, h, eq_comm]
  · cases hr : resolve unit <;> simp [textOf?, h, hr, Except.toOption]

/-- A path in the text of one unit refers to the other. -/
def Imports (resolve : Resolver) (root source importer unit : String) : Prop :=
  ∃ text path, textOf? resolve root source importer = some text ∧ path ∈ paths text ∧
    unit = unitName importer path

/-- The root and what it imports, directly or through others. -/
def Reached (resolve : Resolver) (root source unit : String) : Prop :=
  Relation.ReflTransGen (Imports resolve root source) root unit

/-- The units reached that resolve. -/
def loadable (resolve : Resolver) (root source : String) : Set String :=
  {unit | Reached resolve root source unit ∧ ∃ text, resolve unit = .ok text}

/-- The unit with its text, if it resolves. -/
def loaded? (resolve : Resolver) (unit : String) : Option (String × String) :=
  (resolve unit).toOption.map (unit, ·)

/-- The unit with its fault, if it does not resolve. -/
def failed? (resolve : Resolver) (unit : String) : Option (String × Fault) :=
  match resolve unit with
  | .ok _ => none
  | .error e => some (unit, e)

section
variable {resolve : Resolver} {unit : String}

theorem loaded?_of_ok {text : String} (h : resolve unit = .ok text) :
    loaded? resolve unit = some (unit, text) := by rw [loaded?, h]; rfl

theorem loaded?_of_error {e : Fault} (h : resolve unit = .error e) :
    loaded? resolve unit = none := by rw [loaded?, h]; rfl

theorem failed?_of_ok {text : String} (h : resolve unit = .ok text) :
    failed? resolve unit = none := by rw [failed?, h]

theorem failed?_of_error {e : Fault} (h : resolve unit = .error e) :
    failed? resolve unit = some (unit, e) := by rw [failed?, h]

theorem loaded?_eq_some_iff {x : String × String} :
    loaded? resolve unit = some x ↔ x.1 = unit ∧ resolve unit = .ok x.2 := by
  obtain ⟨unit', text⟩ := x
  cases h : resolve unit with
  | ok t => simp [loaded?_of_ok h, eq_comm]
  | error e => simp [loaded?_of_error h]

theorem failed?_eq_some_iff {x : String × Fault} :
    failed? resolve unit = some x ↔ x.1 = unit ∧ resolve unit = .error x.2 := by
  obtain ⟨unit', e⟩ := x
  cases h : resolve unit with
  | ok t => simp [failed?_of_ok h]
  | error e' => simp [failed?_of_error h, eq_comm]

end

/-- Pairing some units with what they lead to neither adds nor moves a unit. -/
theorem map_fst_filterMap_sublist {α : Type} {f : String → Option (String × α)}
    (hf : ∀ unit x, f unit = some x → x.1 = unit) (units : List String) :
    ((units.filterMap f).map (·.1)).Sublist units := by
  induction units with
  | nil => exact .slnil
  | cons unit units ih =>
    cases hx : f unit with
    | none => simpa [List.filterMap_cons, hx] using ih.cons unit
    | some x => simpa [List.filterMap_cons, hx, hf unit x hx] using ih.cons_cons unit

namespace Collection

section
variable {resolve : Resolver} {importer path : String} {c : Collection}

theorem follow_of_known
    (h : (unitName importer path == importer || c.knows (unitName importer path)) = true) :
    c.follow resolve importer path = c := if_pos h

theorem follow_of_ok {text : String}
    (h : (unitName importer path == importer || c.knows (unitName importer path)) = false)
    (hr : resolve (unitName importer path) = .ok text) :
    c.follow resolve importer path =
      { c with
        pending := (unitName importer path, text) :: c.pending
        asked := c.asked ++ [unitName importer path] } := by
  simp only [follow, h, Bool.false_eq_true, if_false, hr]

theorem follow_of_error {e : Fault}
    (h : (unitName importer path == importer || c.knows (unitName importer path)) = false)
    (hr : resolve (unitName importer path) = .error e) :
    c.follow resolve importer path =
      { c with
        unresolved := c.unresolved ++ [(unitName importer path, e)]
        asked := c.asked ++ [unitName importer path] } := by
  simp only [follow, h, Bool.false_eq_true, if_false, hr]

end

/-- Rounds without a limit on their number, until nothing is pending. -/
inductive Finishes (resolve : Resolver) : Collection → Collection → Prop
  | done {c : Collection} : c.pending = [] → Finishes resolve c c
  | round {c c' : Collection} {unit text : String} {rest : List (String × String)} :
      c.pending = (unit, text) :: rest →
      Finishes resolve (finish resolve unit text { c with pending := rest }) c' →
      Finishes resolve c c'

/-- What holds between two steps, while the units in `current` are taken out of the pending ones:
the units known are the root and those asked for, each once; those that resolved are current,
pending or finished, the others are unresolved; and what a finished unit imports is known. -/
structure Sound (resolve : Resolver) (root source : String) (current : List (String × String))
    (c : Collection) : Prop where
  nodup : (root :: c.asked).Nodup
  reached : ∀ unit ∈ c.asked, Reached resolve root source unit
  loaded : (current ++ c.pending ++ c.sources.entries).Perm
    ((root, source) :: c.asked.filterMap (loaded? resolve))
  unresolved : c.unresolved = c.asked.filterMap (failed? resolve)
  closed : ∀ x ∈ c.sources.entries, ∀ path ∈ paths x.2, unitName x.1 path ∈ root :: c.asked

namespace Sound
variable {resolve : Resolver} {root source : String} {current : List (String × String)}
  {c : Collection}

theorem start : Sound resolve root source [] ⟨∅, [], [(root, source)], []⟩ where
  nodup := List.nodup_singleton root
  reached _ h := nomatch h
  loaded := .refl _
  unresolved := rfl
  closed _ h := nomatch h

/-- A pair is loaded exactly if it is the root's or the resolver gave it for a unit asked for. -/
theorem mem_loaded (h : Sound resolve root source current c) {x : String × String} :
    x ∈ current ++ c.pending ++ c.sources.entries ↔
      x = (root, source) ∨ x.1 ∈ c.asked ∧ resolve x.1 = .ok x.2 := by
  simp only [h.loaded.mem_iff, List.mem_cons, List.mem_filterMap, loaded?_eq_some_iff]
  constructor
  · rintro (rfl | ⟨unit, hunit, rfl, htext⟩)
    · exact .inl rfl
    · exact .inr ⟨hunit, htext⟩
  · rintro (rfl | ⟨hunit, htext⟩)
    · exact .inl rfl
    · exact .inr ⟨x.1, hunit, rfl, htext⟩

theorem mem_unresolved (h : Sound resolve root source current c) {x : String × Fault} :
    x ∈ c.unresolved ↔ x.1 ∈ c.asked ∧ resolve x.1 = .error x.2 := by
  simp only [h.unresolved, List.mem_filterMap, failed?_eq_some_iff]
  constructor
  · rintro ⟨unit, hunit, rfl, he⟩
    exact ⟨hunit, he⟩
  · rintro ⟨hunit, he⟩
    exact ⟨x.1, hunit, rfl, he⟩

theorem ne_root (h : Sound resolve root source current c) {unit : String}
    (hasked : unit ∈ c.asked) : unit ≠ root :=
  fun heq => (List.nodup_cons.1 h.nodup).1 (heq ▸ hasked)

theorem textOf?_eq (h : Sound resolve root source current c) {x : String × String}
    (hx : x ∈ current ++ c.pending ++ c.sources.entries) :
    textOf? resolve root source x.1 = some x.2 := by
  rw [textOf?_eq_some_iff]
  rcases h.mem_loaded.1 hx with rfl | ⟨hasked, htext⟩
  · exact .inl ⟨rfl, rfl⟩
  · exact .inr ⟨h.ne_root hasked, htext⟩

theorem reached_of_loaded (h : Sound resolve root source current c) {x : String × String}
    (hx : x ∈ current ++ c.pending ++ c.sources.entries) : Reached resolve root source x.1 := by
  rcases h.mem_loaded.1 hx with rfl | ⟨hasked, -⟩
  · exact .refl
  · exact h.reached x.1 hasked

/-- No unit is loaded twice. -/
theorem nodup_loaded (h : Sound resolve root source current c) :
    ((current ++ c.pending ++ c.sources.entries).map (·.1)).Nodup := by
  have hsub := map_fst_filterMap_sublist (f := loaded? resolve)
    (fun _ _ hx => (loaded?_eq_some_iff.1 hx).1) c.asked
  rw [(h.loaded.map (·.1)).nodup_iff, List.map_cons]
  exact h.nodup.sublist (hsub.cons_cons root)

/-- While one unit is looked at, the units passed over are exactly the known ones. -/
theorem knows_iff {importer text unit : String}
    (h : Sound resolve root source [(importer, text)] c) :
    (unit == importer || c.knows unit) = true ↔ unit ∈ root :: c.asked := by
  have hknows : (unit == importer || c.knows unit) = true ↔
      (∃ x ∈ [(importer, text)] ++ c.pending ++ c.sources.entries, x.1 = unit) ∨
        ∃ x ∈ c.unresolved, x.1 = unit := by
    simp only [knows, Table.contains, Bool.or_eq_true, List.any_eq_true, beq_iff_eq,
      List.mem_append, List.mem_singleton, or_and_right, exists_or, exists_eq_left]
    rw [or_comm (a := ∃ x ∈ c.sources.entries, x.1 = unit), ← or_assoc, ← or_assoc,
      eq_comm (a := unit)]
  rw [hknows, List.mem_cons]
  constructor
  · rintro (⟨x, hx, rfl⟩ | ⟨x, hx, rfl⟩)
    · rcases h.mem_loaded.1 hx with rfl | ⟨hasked, -⟩
      · exact .inl rfl
      · exact .inr hasked
    · exact .inr (h.mem_unresolved.1 hx).1
  · rintro (rfl | hasked)
    · exact .inl ⟨(unit, source), h.mem_loaded.2 (.inl rfl), rfl⟩
    · cases hr : resolve unit with
      | ok t => exact .inl ⟨(unit, t), h.mem_loaded.2 (.inr ⟨hasked, hr⟩), rfl⟩
      | error e => exact .inr ⟨(unit, e), h.mem_unresolved.2 ⟨hasked, hr⟩, rfl⟩

/-- Following one path keeps the state sound, and the unit that it refers to is known then. -/
theorem follow {importer text path : String} (h : Sound resolve root source [(importer, text)] c)
    (hpath : path ∈ paths text) :
    Sound resolve root source [(importer, text)] (c.follow resolve importer path) ∧
      c.asked ⊆ (c.follow resolve importer path).asked ∧
      (c.follow resolve importer path).sources = c.sources ∧
      unitName importer path ∈ root :: (c.follow resolve importer path).asked := by
  have hreached : Reached resolve root source (unitName importer path) :=
    .tail (h.reached_of_loaded (x := (importer, text)) (by simp))
      ⟨text, path, h.textOf?_eq (x := (importer, text)) (by simp), hpath, rfl⟩
  by_cases hknown : unitName importer path ∈ root :: c.asked
  · rw [follow_of_known (h.knows_iff.2 hknown)]
    exact ⟨h, fun _ hx => hx, rfl, hknown⟩
  have hfresh : (unitName importer path == importer || c.knows (unitName importer path)) = false :=
    Bool.eq_false_iff.2 fun hyes => hknown (h.knows_iff.1 hyes)
  have hnodup : (root :: (c.asked ++ [unitName importer path])).Nodup := by
    simpa only [List.concat_eq_append, List.cons_append] using List.Nodup.concat hknown h.nodup
  have hasked : ∀ x ∈ c.asked ++ [unitName importer path], Reached resolve root source x := by
    intro x hx
    rcases List.mem_append.1 hx with hx | hx
    · exact h.reached x hx
    · exact List.mem_singleton.1 hx ▸ hreached
  have hclosed : ∀ x ∈ c.sources.entries, ∀ path' ∈ paths x.2,
      unitName x.1 path' ∈ root :: (c.asked ++ [unitName importer path]) :=
    fun x hx path' hp => List.mem_append_left _ (h.closed x hx path' hp)
  cases hr : resolve (unitName importer path) with
  | ok t =>
    rw [follow_of_ok hfresh hr]
    refine ⟨⟨hnodup, hasked, ?_, ?_, hclosed⟩, List.subset_append_left _ _, rfl, by simp⟩
    · simp only [List.filterMap_append, List.filterMap_cons_some (loaded?_of_ok hr),
        List.filterMap_nil]
      have hfront : List.Perm ([(importer, text)] ++ (unitName importer path, t) :: c.pending)
          ((unitName importer path, t) :: ([(importer, text)] ++ c.pending)) := List.perm_middle
      exact (hfront.append_right c.sources.entries).trans
        ((h.loaded.cons _).trans (List.perm_append_singleton _ _).symm)
    · simp only [List.filterMap_append, List.filterMap_cons_none (failed?_of_ok hr),
        List.filterMap_nil, List.append_nil, h.unresolved]
  | error e =>
    rw [follow_of_error hfresh hr]
    refine ⟨⟨hnodup, hasked, ?_, ?_, hclosed⟩, List.subset_append_left _ _, rfl, by simp⟩
    · simpa only [List.filterMap_append, List.filterMap_cons_none (loaded?_of_error hr),
        List.filterMap_nil, List.append_nil] using h.loaded
    · simp only [List.filterMap_append, List.filterMap_cons_some (failed?_of_error hr),
        List.filterMap_nil, h.unresolved]

theorem follows {importer text : String} {part : List String}
    (h : Sound resolve root source [(importer, text)] c) (hpart : part ⊆ paths text) :
    Sound resolve root source [(importer, text)]
        (part.foldl (Collection.follow resolve importer) c) ∧
      c.asked ⊆ (part.foldl (Collection.follow resolve importer) c).asked ∧
      (part.foldl (Collection.follow resolve importer) c).sources = c.sources ∧
      ∀ path ∈ part, unitName importer path ∈
        root :: (part.foldl (Collection.follow resolve importer) c).asked := by
  induction part generalizing c with
  | nil => exact ⟨h, fun _ hx => hx, rfl, fun _ hp => nomatch hp⟩
  | cons path part ih =>
    obtain ⟨hpath, hrest⟩ := List.cons_subset.1 hpart
    obtain ⟨hnext, hasked, hsources, hknown⟩ := h.follow hpath
    obtain ⟨hlast, hasked', hsources', hknown'⟩ := ih hnext hrest
    refine ⟨hlast, fun x hx => hasked' (hasked hx), hsources'.trans hsources, ?_⟩
    intro path' hpath'
    rcases List.mem_cons.1 hpath' with rfl | hpath'
    · exact List.cons_subset_cons root hasked' hknown
    · exact hknown' path' hpath'

/-- A round keeps the state sound and finishes one more unit. -/
theorem finish {importer text : String} {rest : List (String × String)}
    (h : Sound resolve root source [] c) (hp : c.pending = (importer, text) :: rest) :
    Sound resolve root source []
        (Collection.finish resolve importer text { c with pending := rest }) ∧
      (Collection.finish resolve importer text { c with pending := rest }).sources.entries.length =
        c.sources.entries.length + 1 := by
  have hcurrent : Sound resolve root source [(importer, text)] { c with pending := rest } :=
    ⟨h.nodup, h.reached, by simpa [hp] using h.loaded, h.unresolved, h.closed⟩
  obtain ⟨hall, -, hsources, hknown⟩ := hcurrent.follows (fun _ hx => hx)
  unfold Collection.finish
  generalize (paths text).foldl (Collection.follow resolve importer) { c with pending := rest } = c'
    at hall hsources hknown ⊢
  have hfresh : importer ∉ c'.sources.entries.map (·.1) := by
    have hnodup := hall.nodup_loaded
    rw [List.append_assoc, List.singleton_append, List.map_cons, List.nodup_cons, List.map_append,
      List.mem_append] at hnodup
    exact fun hmem => hnodup.1 (.inr hmem)
  have hplace : (Table.place importer text c'.sources.entries).Perm
      ((importer, text) :: c'.sources.entries) := Table.perm_place hfresh
  refine ⟨⟨hall.nodup, hall.reached, ?_, hall.unresolved, ?_⟩, ?_⟩
  · refine .trans ?_ hall.loaded
    exact (hplace.append_left c'.pending).trans List.perm_middle
  · intro x hx path hpath
    rcases List.mem_cons.1 (hplace.mem_iff.1 hx) with rfl | hx
    · exact hknown path hpath
    · exact hall.closed x hx path hpath
  · exact hplace.length_eq.trans (by rw [hsources]; rfl)

/-- No more units are loaded than are reached and resolve, apart from the root. -/
theorem length_loaded_le (h : Sound resolve root source [] c) {names : Set String}
    (hfinite : names.Finite) (hnames : loadable resolve root source ⊆ names) :
    c.pending.length + c.sources.entries.length ≤ names.ncard + 1 := by
  have hnodup : ((c.pending ++ c.sources.entries).map (·.1)).Nodup := h.nodup_loaded
  have hmem : (((c.pending ++ c.sources.entries).map (·.1)).toFinset : Set String) ⊆
      insert root names := by
    intro unit hunit
    obtain ⟨x, hx, rfl⟩ := List.mem_map.1 (List.mem_toFinset.1 hunit)
    rcases h.mem_loaded.1 hx with rfl | ⟨hasked, htext⟩
    · exact Set.mem_insert _ names
    · exact Set.mem_insert_of_mem root (hnames ⟨h.reached x.1 hasked, x.2, htext⟩)
  calc c.pending.length + c.sources.entries.length
      = ((c.pending ++ c.sources.entries).map (·.1)).toFinset.card := by
        rw [List.toFinset_card_of_nodup hnodup, List.length_map, List.length_append]
    _ ≤ (insert root names).ncard := by
        rw [← Set.ncard_coe_finset]
        exact Set.ncard_le_ncard hmem (hfinite.insert root)
    _ ≤ names.ncard + 1 := Set.ncard_insert_le root names

/-- With enough rounds the loop ends, soundly. -/
theorem work_of_loadable {names : Set String} (hfinite : names.Finite)
    (hnames : loadable resolve root source ⊆ names) {n : Nat}
    (h : Sound resolve root source [] c) (hn : names.ncard + 1 ≤ n + c.sources.entries.length) :
    Finishes resolve c (c.work resolve n) ∧ Sound resolve root source [] (c.work resolve n) ∧
      (c.work resolve n).pending = [] := by
  induction n generalizing c with
  | zero =>
    have hlen := h.length_loaded_le hfinite hnames
    have hp : c.pending = [] := List.length_eq_zero_iff.1 (by omega)
    exact ⟨.done hp, h, hp⟩
  | succ n ih =>
    cases hp : c.pending with
    | nil =>
      have hwork : c.work resolve (n + 1) = c := by simp only [Collection.work, hp]
      rw [hwork]
      exact ⟨.done hp, h, hp⟩
    | cons x rest =>
      obtain ⟨unit, text⟩ := x
      obtain ⟨hnext, hlen⟩ := h.finish hp
      have hwork : c.work resolve (n + 1) =
          (Collection.finish resolve unit text { c with pending := rest }).work resolve n := by
        simp only [Collection.work, hp]
      rw [hwork]
      obtain ⟨hfinishes, hsound, hdone⟩ := ih hnext (by omega)
      exact ⟨.round hp hfinishes, hsound, hdone⟩

theorem work {names : Set String} (hfinite : names.Finite)
    (hnames : ∀ unit text, resolve unit = .ok text → unit ∈ names) {n : Nat}
    (h : Sound resolve root source [] c) (hn : names.ncard + 1 ≤ n + c.sources.entries.length) :
    Finishes resolve c (c.work resolve n) ∧ Sound resolve root source [] (c.work resolve n) ∧
      (c.work resolve n).pending = [] :=
  h.work_of_loadable hfinite (fun unit ⟨_, text, htext⟩ => hnames unit text htext) hn

/-- Once nothing is pending, all that is reached is known. -/
theorem known_of_reached (h : Sound resolve root source [] c) (hp : c.pending = []) {unit : String}
    (hunit : Reached resolve root source unit) : unit ∈ root :: c.asked := by
  induction hunit with
  | refl => exact List.mem_cons_self
  | @tail importer unit _ himports ih =>
    obtain ⟨text, path, htext, hpath, rfl⟩ := himports
    refine h.closed (importer, text) ?_ path hpath
    have hloaded : (importer, text) ∈ [] ++ c.pending ++ c.sources.entries := by
      rw [h.mem_loaded]
      rcases textOf?_eq_some_iff.1 htext with ⟨rfl, rfl⟩ | ⟨hne, htext⟩
      · exact .inl rfl
      · exact .inr ⟨(List.mem_cons.1 ih).resolve_left hne, htext⟩
    simpa [hp] using hloaded

end Sound

/-- All that the root imports is there: the sources are the root with its own text and the units
reached that resolve, with the texts that the resolver gives; the unresolved ones are the others
reached, once each; and the resolver has been asked for every unit reached but the root, once each.
-/
structure Complete (resolve : Resolver) (root source : String) (c : Collection) : Prop where
  keys : ∀ unit, unit ∈ c.sources.keys ↔
    unit = root ∨ Reached resolve root source unit ∧ ∃ text, resolve unit = .ok text
  root_text : c.sources.get? root = some source
  text : ∀ unit text, unit ≠ root → (c.sources.get? unit = some text ↔
    Reached resolve root source unit ∧ resolve unit = .ok text)
  unresolved : ∀ unit e, (unit, e) ∈ c.unresolved ↔
    unit ≠ root ∧ Reached resolve root source unit ∧ resolve unit = .error e
  unresolved_nodup : (c.unresolved.map (·.1)).Nodup
  asked : ∀ unit, unit ∈ c.asked ↔ unit ≠ root ∧ Reached resolve root source unit
  asked_nodup : c.asked.Nodup

theorem Sound.complete {resolve : Resolver} {root source : String} {c : Collection}
    (h : Sound resolve root source [] c) (hp : c.pending = []) :
    Complete resolve root source c := by
  have hasked : ∀ unit, unit ∈ c.asked ↔ unit ≠ root ∧ Reached resolve root source unit := by
    intro unit
    constructor
    · intro hunit
      exact ⟨h.ne_root hunit, h.reached unit hunit⟩
    · rintro ⟨hne, hunit⟩
      exact (List.mem_cons.1 (h.known_of_reached hp hunit)).resolve_left hne
  have hsources : ∀ x, x ∈ c.sources.entries ↔
      x = (root, source) ∨ x.1 ∈ c.asked ∧ resolve x.1 = .ok x.2 := by
    intro x
    simpa [hp] using h.mem_loaded (x := x)
  have hroot : (root, source) ∈ c.sources.entries := (hsources _).2 (.inl rfl)
  have htext : ∀ unit text, unit ≠ root → (c.sources.get? unit = some text ↔
      Reached resolve root source unit ∧ resolve unit = .ok text) := by
    intro unit text hne
    rw [Table.get?_eq_some_iff, hsources, hasked]
    simp [hne]
  refine ⟨?_, Table.get?_eq_some_iff.2 hroot, htext, ?_, ?_, hasked, (List.nodup_cons.1 h.nodup).2⟩
  · intro unit
    rw [Table.keys, List.mem_map]
    by_cases hne : unit = root
    · exact iff_of_true ⟨(root, source), hroot, hne.symm⟩ (.inl hne)
    · constructor
      · rintro ⟨⟨unit, text⟩, hx, rfl⟩
        obtain ⟨hunit, hr⟩ := (htext unit text hne).1 (Table.get?_eq_some_iff.2 hx)
        exact .inr ⟨hunit, text, hr⟩
      · rintro (heq | ⟨hunit, text, hr⟩)
        · exact absurd heq hne
        · exact ⟨(unit, text), Table.get?_eq_some_iff.1 ((htext unit text hne).2 ⟨hunit, hr⟩), rfl⟩
  · intro unit e
    rw [h.mem_unresolved, hasked, and_assoc]
  · rw [h.unresolved]
    exact (List.nodup_cons.1 h.nodup).2.sublist
      (map_fst_filterMap_sublist (f := failed? resolve)
        (fun _ _ hx => (failed?_eq_some_iff.1 hx).1) c.asked)

/-- Where only finitely many units resolve, gathering ends with all that the root imports, after at
most as many rounds as there are such units and one for the root. -/
theorem ofRoot_complete (resolve : Resolver) (root source : String) (bound : Nat)
    (hfinite : {unit | ∃ text, resolve unit = .ok text}.Finite)
    (hbound : {unit | ∃ text, resolve unit = .ok text}.ncard ≤ bound) :
    Finishes resolve ⟨∅, [], [(root, source)], []⟩ (ofRoot resolve bound root source) ∧
      Complete resolve root source (ofRoot resolve bound root source) := by
  have hrounds : {unit | ∃ text, resolve unit = .ok text}.ncard + 1 ≤
      source.length + bound + 1 + (∅ : Table String).entries.length := by omega
  obtain ⟨hfinishes, hsound, hdone⟩ :=
    Sound.start.work hfinite (fun unit text h => ⟨text, h⟩) hrounds
  exact ⟨hfinishes, hsound.complete hdone⟩

theorem resolved_ofTable (files : Table String) :
    {unit | ∃ text, Resolver.ofTable files unit = .ok text} ⊆
      (files.keys.toFinset : Set String) := by
  rintro unit ⟨text, h⟩
  rw [Resolver.ofTable] at h
  split at h
  · next t ht =>
    rw [Finset.mem_coe, List.mem_toFinset]
    exact List.mem_map.2 ⟨(unit, t), Table.get?_eq_some_iff.1 ht, rfl⟩
  · cases h

/-- Two units that import each other, themselves and the root, and twice one that is missing. -/
def loopingFiles : Table String := .ofList [
  ("A.sol", "import \"./lib/B.sol\";\nimport * as M from 'main.sol';"),
  ("lib/B.sol",
    "import \"../A.sol\";\nimport './B.sol';\nimport \"./Gone.sol\";\nimport './Gone.sol';")]

theorem ofRoot_complete_looping :
    let source := "import \"./A.sol\";\nimport \"lib/B.sol\";"
    let c := ofRoot (.ofTable loopingFiles) 2 "main.sol" source
    {unit | ∃ text, Resolver.ofTable loopingFiles unit = .ok text}.Finite ∧
      {unit | ∃ text, Resolver.ofTable loopingFiles unit = .ok text}.ncard ≤ 2 ∧
      Finishes (.ofTable loopingFiles) ⟨∅, [], [("main.sol", source)], []⟩ c ∧
      Complete (.ofTable loopingFiles) "main.sol" source c ∧
      c.sources.keys = ["A.sol", "lib/B.sol", "main.sol"] ∧
      c.unresolved.map (·.1) = ["lib/Gone.sol"] ∧
      c.asked = ["A.sol", "lib/B.sol", "lib/Gone.sol"] := by
  have hfinite := (Finset.finite_toSet loopingFiles.keys.toFinset).subset
    (resolved_ofTable loopingFiles)
  have hcard : {unit | ∃ text, Resolver.ofTable loopingFiles unit = .ok text}.ncard ≤ 2 := by
    refine (Set.ncard_le_ncard (resolved_ofTable loopingFiles) (Finset.finite_toSet _)).trans ?_
    rw [Set.ncard_coe_finset]
    exact (List.toFinset_card_le _).trans (by decide +kernel)
  obtain ⟨hfinishes, hcomplete⟩ := ofRoot_complete _ "main.sol"
    "import \"./A.sol\";\nimport \"lib/B.sol\";" 2 hfinite hcard
  exact ⟨hfinite, hcard, hfinishes, hcomplete, by decide +kernel⟩

end Collection
end SoliditySession.Import
