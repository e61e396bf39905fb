import SoliditySession.Proofs.Closure
import SoliditySession.Proofs.Directives
import SoliditySession.Proofs.FilePaths
import SoliditySession.Proofs.Lookup
import SoliditySession.Proofs.Utf8
import Mathlib.Algebra.Group.Action.Defs
import Mathlib.Algebra.Order.BigOperators.Group.List
/- How many units an import can lead to when roots are searched: each is written out in some text or
spelled by the names of a file, so that gathering always ends. -/
namespace SoliditySession.Import
open SoliditySession.Path (Component components)

theorem length_paths_le (source : String) : (paths source).length ≤ source.length := by
  rw [← String.length_toList]
  exact (List.length_filterMap_le _ _).trans
    (Pattern.length_allFrom_le advance_directive [] source.toList)

/-- Plain names, below the top of all files or not. -/
def Tidy (names : List String) : Prop :=
  (∀ n ∈ names, IsSegment n) ∨ ∃ below, names = "/" :: below ∧ ∀ n ∈ below, IsSegment n

def IsStep : Component → Prop
  | .root => False
  | .name s => IsSegment s
  | _ => True

theorem isStep_inner {segments : List String} (h : ∀ s ∈ segments, '/' ∉ s.toList) :
    ∀ c ∈ Path.inner segments, IsStep c := by
  induction segments with
  | nil => exact nofun
  | cons s segments ih =>
    obtain ⟨hs, hsegments⟩ := List.forall_mem_cons.1 h
    rw [Path.inner]
    split
    · exact ih hsegments
    · next hstay =>
      simp only [Bool.or_eq_true, beq_iff_eq, not_or] at hstay
      refine List.forall_mem_cons.2 ⟨?_, ih hsegments⟩
      split
      · trivial
      · next hup => exact ⟨hstay.1, hstay.2, by simpa using hup, hs⟩

theorem noSlash_segments (path : String) : ∀ s ∈ Path.segments path, '/' ∉ s.toList := by
  intro s hs
  obtain ⟨part, hpart, rfl⟩ := List.mem_map.1 hs
  rw [String.toList_ofList]
  exact Text.not_mem_of_mem_splitOn hpart

theorem components_cases (path : String) : ∃ steps, (∀ c ∈ steps, IsStep c) ∧
    components path = if Path.isAbsolute path then .root :: steps else steps := by
  rw [components]
  have hsegments := noSlash_segments path
  split
  · exact ⟨_, isStep_inner hsegments, rfl⟩
  · split
    · next r hr =>
      rw [hr, List.forall_mem_cons] at hsegments
      have hhere : IsStep .here := trivial
      exact ⟨_, List.forall_mem_cons.2 ⟨hhere, isStep_inner hsegments.2⟩, rfl⟩
    · exact ⟨_, isStep_inner hsegments, rfl⟩

theorem directory_eq_nil_or (unit : String) :
    directory unit = [] ∨ directory unit = (components unit).dropLast := by
  rw [directory]
  split
  · exact .inl rfl
  · exact .inl rfl
  · next c r _ hr =>
    have hunit : components unit = r.reverse ++ [c] := by
      rw [← List.reverse_reverse (components unit), hr, List.reverse_cons]
    rw [hunit, List.dropLast_concat]
    exact .inr rfl

theorem directory_cases (unit : String) : ∃ steps, (∀ c ∈ steps, IsStep c) ∧
    (directory unit = steps ∨ directory unit = .root :: steps) := by
  obtain ⟨steps, hsteps, hcomponents⟩ := components_cases unit
  have hdrop : ∀ c ∈ steps.dropLast, IsStep c := fun c hc =>
    hsteps c (List.dropLast_subset _ hc)
  rcases directory_eq_nil_or unit with h | h
  · exact ⟨[], nofun, .inl h⟩
  · rw [h, hcomponents]
    split
    · cases steps with
      | nil => exact ⟨[], nofun, .inl rfl⟩
      | cons c steps => exact ⟨_, hdrop, .inr rfl⟩
    · exact ⟨_, hdrop, .inl rfl⟩

theorem Tidy.dropLast {names : List String} (h : Tidy names) : Tidy names.dropLast := by
  rcases h with h | ⟨below, rfl, h⟩
  · exact .inl fun n hn => h n (List.dropLast_subset _ hn)
  · cases below with
    | nil => exact .inl nofun
    | cons n below => exact .inr ⟨_, rfl, fun m hm => h m (List.dropLast_subset _ hm)⟩

theorem Tidy.concat {names : List String} (h : Tidy names) {s : String} (hs : IsSegment s) :
    Tidy (names ++ [s]) := by
  rcases h with h | ⟨below, rfl, h⟩
  · exact .inl (List.forall_mem_append.2 ⟨h, by simpa using hs⟩)
  · exact .inr ⟨below ++ [s], rfl, List.forall_mem_append.2 ⟨h, by simpa using hs⟩⟩

/-- Steps keep names plain. -/
theorem Tidy.descend {names : List String} (h : Tidy names) {steps : List Component}
    (hsteps : ∀ c ∈ steps, IsStep c) : Tidy (descend names steps) := by
  induction steps generalizing names with
  | nil => exact h
  | cons c steps ih =>
    obtain ⟨hc, hrest⟩ := List.forall_mem_cons.1 hsteps
    cases c with
    | root => exact hc.elim
    | here => exact ih h hrest
    | up => exact ih h.dropLast hrest
    | name s => exact ih (h.concat hc) hrest

/-- A unit is the path itself or spelled by plain names. -/
theorem unitName_cases (importer path : String) : unitName importer path = path ∨
    ∃ names, Tidy names ∧ unitName importer path = "/".intercalate names := by
  rw [unitName]
  split
  · next hrelative =>
    refine .inr ⟨_, ?_, rfl⟩
    obtain ⟨steps, hsteps, hpath⟩ := components_cases path
    have habsolute : Path.isAbsolute path = false := by
      simp only [isRelative, Bool.or_eq_true, List.isPrefixOf_iff_prefix] at hrelative
      rcases hrelative with ⟨r, hr⟩ | ⟨r, hr⟩ <;>
      · rw [Path.isAbsolute, ← hr]
        rfl
    rw [habsolute, if_neg Bool.false_ne_true] at hpath
    rw [hpath, descend_append]
    refine Tidy.descend ?_ hsteps
    obtain ⟨above, habove, h | h⟩ := directory_cases importer
    · have hempty : Tidy [] := .inl (List.forall_mem_nil _)
      rw [h]
      exact hempty.descend habove
    · have htop : Tidy ["/"] := .inr ⟨[], rfl, List.forall_mem_nil _⟩
      rw [h]
      exact htop.descend habove
  · exact .inl rfl

/-- The paths in all files that are texts. -/
def writtenPaths (files : FileTree) : List String :=
  (files.contents.filterMap Text.ofBytes?).flatMap paths

theorem length_writtenPaths_le (files : FileTree) :
    (writtenPaths files).length ≤ (files.leaves.map fun x => x.2.length).sum := by
  rw [writtenPaths, FileTree.contents]
  induction files.leaves with
  | nil => exact Nat.le_refl 0
  | cons leaf leaves ih =>
    rw [List.map_cons, List.map_cons, List.sum_cons]
    cases htext : Text.ofBytes? leaf.2 with
    | none =>
      rw [List.filterMap_cons_none htext]
      exact ih.trans (Nat.le_add_left _ _)
    | some text =>
      have hpaths := length_paths_le text
      have hle := Text.length_le_of_ofBytes? htext
      rw [List.filterMap_cons_some htext, List.flatMap_cons, List.length_append]
      omega

namespace SearchRoots
variable (r : SearchRoots) (files : FileTree) {cwd : String}

/-- The units that resolve and can be reached are in a list that is no longer than the rounds. -/
theorem exists_units (hcwd : Path.isAbsolute cwd = true) (root source : String) :
    ∃ units : List String, units.length ≤ source.length + r.bound files ∧
      ∀ unit ∈ loadable (r.resolver files cwd) root source, unit ∈ units := by
  choose found hlength hfound using fun d => files.exists_units hcwd d
  let top := files.leaves.map fun x => "/".intercalate ("/" :: x.1)
  refine ⟨root :: (paths source ++ (writtenPaths files ++ (r.roots.flatMap found ++ top))), ?_, ?_⟩
  · have hsource := length_paths_le source
    have hwritten := length_writtenPaths_le files
    have hextent := files.sum_leaves_le
    have hone := files.one_le_extent
    have hroots : (r.roots.flatMap found).length ≤ r.roots.length * files.extent := by
      rw [List.length_flatMap, ← smul_eq_mul, ← List.length_map (fun d => (found d).length)]
      refine List.sum_le_card_nsmul _ _ fun n hn => ?_
      obtain ⟨d, -, rfl⟩ := List.mem_map.1 hn
      exact (hlength d).trans (by omega)
    have hbound : r.bound files = r.roots.length * files.extent + 2 * files.extent :=
      Nat.add_mul _ _ _
    simp only [List.length_cons, List.length_append, hbound, top, List.length_map]
    omega
  · rintro unit ⟨hreached, text, htext⟩
    obtain ⟨d, hd, content, hfind, -⟩ := r.exists_of_resolver files cwd htext
    simp only [List.mem_cons, List.mem_append, List.mem_flatMap]
    rcases Relation.ReflTransGen.cases_tail hreached with rfl | ⟨importer, -, text', path, himporter,
      hpath, rfl⟩
    · exact .inl rfl
    rcases unitName_cases importer path with hunit | ⟨names, hnames | ⟨names, rfl, hnames⟩, hunit⟩
    · -- the path is written out in the source or in a file
      rw [hunit]
      rcases textOf?_eq_some_iff.1 himporter with ⟨-, rfl⟩ | ⟨-, htext'⟩
      · exact .inr (.inl hpath)
      · obtain ⟨d', -, content', hfind', hcontent'⟩ := r.exists_of_resolver files cwd htext'
        refine .inr (.inr (.inl (List.mem_flatMap.2 ⟨text', List.mem_filterMap.2
          ⟨content', FileTree.mem_contents_of_find hfind', hcontent'⟩, hpath⟩)))
    · rw [hunit] at hfind ⊢
      exact .inr (.inr (.inr (.inl ⟨d, hd, hfound d names content hnames hfind⟩)))
    · rw [hunit] at hfind ⊢
      exact .inr (.inr (.inr (.inr (FileTree.mem_units_of_top hnames hfind))))

/-- Gathering ends with all that is imported. -/
theorem gathers (hcwd : Path.isAbsolute cwd = true) (root source : String) :
    let c := Collection.ofRoot (r.resolver files cwd) (r.bound files) root source
    Collection.Finishes (r.resolver files cwd) ⟨∅, [], [(root, source)], []⟩ c ∧
      Collection.Complete (r.resolver files cwd) root source c := by
  intro c
  obtain ⟨units, hlength, hunits⟩ := r.exists_units files hcwd root source
  have hsub : loadable (r.resolver files cwd) root source ⊆ (units.toFinset : Set String) :=
    fun unit hunit => List.mem_toFinset.2 (hunits unit hunit)
  have hrounds : (units.toFinset : Set String).ncard + 1 ≤
      source.length + r.bound files + 1 + (∅ : Table String).entries.length := by
    have hcard := List.toFinset_card_le units
    rw [Set.ncard_coe_finset]
    omega
  obtain ⟨hfinishes, hsound, hdone⟩ :=
    Collection.Sound.start.work_of_loadable (Finset.finite_toSet _) hsub hrounds
  exact ⟨hfinishes, hsound.complete hdone⟩

end SearchRoots
end SoliditySession.Import
