import Mathlib.Data.List.Basic
import SoliditySession.Import
import SoliditySession.Proofs.Relayout
/- The unit that a relative path refers to, seen from a unit whose name is tidy: the path is walked
from the importer's directory, segment by segment. -/
namespace SoliditySession.Import
open SoliditySession.Path Text

/-- What names a file or a directory in a tidy unit name. -/
structure IsSegment (s : String) : Prop where
  ne_empty : s ≠ ""
  ne_here : s ≠ "."
  ne_up : s ≠ ".."
  noSlash : '/' ∉ s.toList

/-- The unit with these segments, below the root of all files or not. -/
def unitOf (absolute : Bool) (names : List String) : String :=
  (if absolute then "/" else "") ++ "/".intercalate names

/-- One step of a walk: nothing and `.` stay, `..` leaves the last directory. -/
def stride (names : List String) (s : String) : List String :=
  if s = "" ∨ s = "." then names else if s = ".." then names.dropLast else names ++ [s]

def walk (names segments : List String) : List String := segments.foldl stride names

/-- Whether a walk leaves a directory where it stands in none. -/
def climbsOut : List String → List String → Bool
  | _, [] => false
  | names, s :: segments => s == ".." && names.isEmpty || climbsOut (stride names s) segments

theorem walk_cons (names : List String) (s : String) (segments : List String) :
    walk names (s :: segments) = walk (stride names s) segments := rfl

theorem isSegment_stride {names : List String} (hnames : ∀ n ∈ names, IsSegment n) {s : String}
    (hs : '/' ∉ s.toList) : ∀ n ∈ stride names s, IsSegment n := by
  rw [stride]
  split
  · exact hnames
  · next hstay =>
    rw [not_or] at hstay
    split
    · exact fun n hn => hnames n (List.dropLast_subset _ hn)
    · next hup =>
      rw [List.forall_mem_append]
      exact ⟨hnames, by simpa using ⟨hstay.1, hstay.2, hup, hs⟩⟩

theorem isSegment_walk {names segments : List String} (hnames : ∀ n ∈ names, IsSegment n)
    (hsegments : ∀ s ∈ segments, '/' ∉ s.toList) : ∀ n ∈ walk names segments, IsSegment n := by
  induction segments generalizing names with
  | nil => exact hnames
  | cons s segments ih =>
    rw [List.forall_mem_cons] at hsegments
    exact ih (isSegment_stride hnames hsegments.1) hsegments.2

/-- The root lies below all directories of a walk and is left with the last of them. -/
theorem walk_root (names segments : List String) :
    walk ("/" :: names) segments =
      if climbsOut names segments then walk names segments else "/" :: walk names segments := by
  induction segments generalizing names with
  | nil => rfl
  | cons s segments ih =>
    by_cases hout : s = ".." ∧ names = []
    · obtain ⟨rfl, rfl⟩ := hout
      rfl
    · have hstride : stride ("/" :: names) s = "/" :: stride names s := by
        rw [stride, stride]
        split
        · rfl
        · split
          · next hup =>
            rw [List.dropLast_cons_of_ne_nil fun hnil => hout ⟨hup, hnil⟩]
          · rfl
      have hstays : (s == ".." && names.isEmpty) = false := by
        simpa using hout
      rw [walk_cons, walk_cons, climbsOut, hstride, hstays, Bool.false_or, ih]

theorem descend_append (names : List String) (cs ds : List Component) :
    descend names (cs ++ ds) = descend (descend names cs) ds := by
  induction cs generalizing names with
  | nil => rfl
  | cons c cs ih => cases c <;> exact ih _

theorem descend_name (names : List String) (s : String) (cs : List Component) :
    descend names (.name s :: cs) = descend (names ++ [s]) cs := rfl

theorem descend_names (names segments : List String) :
    descend names (segments.map .name) = names ++ segments := by
  induction segments generalizing names with
  | nil => exact (List.append_nil names).symm
  | cons s segments ih =>
    rw [List.map_cons, descend_name, ih, List.append_assoc, List.singleton_append]

/-- Walking through components is walking through segments. -/
theorem descend_inner (names segments : List String) :
    descend names (Path.inner segments) = walk names segments := by
  induction segments generalizing names with
  | nil => rfl
  | cons s segments ih =>
    rw [Path.inner, walk_cons, stride]
    by_cases hstay : s = "" ∨ s = "."
    · rw [if_pos hstay, if_pos (by simpa using hstay), ih]
    · rw [if_neg hstay, if_neg (by simpa using hstay)]
      by_cases hup : s = ".."
      · rw [if_pos hup, if_pos (by simpa using hup), descend, ih]
      · rw [if_neg hup, if_neg (by simpa using hup), descend_name, ih]

theorem inner_eq {names : List String} (h : ∀ n ∈ names, IsSegment n) :
    Path.inner names = names.map .name := by
  induction names with
  | nil => rfl
  | cons n names ih =>
    rw [List.forall_mem_cons] at h
    simp [Path.inner, h.1.ne_empty, h.1.ne_here, h.1.ne_up, ih h.2]

theorem segments_intercalate {names : List String} (hne : names ≠ [])
    (h : ∀ n ∈ names, '/' ∉ n.toList) : segments ("/".intercalate names) = names := by
  have hslash : "/".toList = ['/'] := rfl
  have hparts : (['/'].intercalate (names.map String.toList)).splitOn '/' =
      names.map String.toList :=
    List.splitOn_intercalate '/' (List.forall_mem_map.2 h) (by simpa using hne)
  rw [segments, String.toList_intercalate, hslash, hparts, List.map_map]
  exact List.map_id'' (fun n => String.ofList_toList) names

theorem segments_slash (path : String) : segments ("/" ++ path) = "" :: segments path := by
  have hparts := List.splitOn_append_cons_self [] path.toList (a := '/')
  rw [segments, segments, String.toList_append]
  exact congrArg (List.map String.ofList) hparts

theorem unitOf_false (names : List String) : unitOf false names = "/".intercalate names :=
  String.empty_append

theorem unitOf_true (names : List String) : unitOf true names = "/" ++ "/".intercalate names := rfl

section
variable {names : List String} (hnames : ∀ n ∈ names, IsSegment n)
include hnames

theorem isAbsolute_unitOf_false : isAbsolute (unitOf false names) = false := by
  rw [unitOf_false, isAbsolute, String.toList_intercalate, beq_eq_false_iff_ne]
  cases names with
  | nil => exact nofun
  | cons n names =>
    obtain ⟨hn, -⟩ := List.forall_mem_cons.1 hnames
    obtain ⟨c, cs, hcs⟩ := List.exists_cons_of_ne_nil (mt String.toList_eq_nil_iff.1 hn.ne_empty)
    have hc : c ≠ '/' := by
      rintro rfl
      exact hn.noSlash (by rw [hcs]; exact List.mem_cons_self)
    have hhead : ("/".toList.intercalate ((n :: names).map String.toList)).head? = some c := by
      cases names with
      | nil => simp [hcs]
      | cons m names => simp [hcs, List.intercalate_cons_cons]
    rw [hhead]
    simpa using hc

theorem components_unitOf_false : components (unitOf false names) = names.map .name := by
  rw [components, isAbsolute_unitOf_false hnames, if_neg Bool.false_ne_true, unitOf_false]
  cases names with
  | nil => rfl
  | cons n names =>
    rw [segments_intercalate (List.cons_ne_nil _ _) fun m hm => (hnames m hm).noSlash]
    split
    · next h => exact absurd (List.cons.inj h).1 (hnames n List.mem_cons_self).ne_here
    · exact inner_eq hnames

theorem components_unitOf_true : components (unitOf true names) = .root :: names.map .name := by
  have habsolute : isAbsolute (unitOf true names) = true := by
    rw [unitOf_true, isAbsolute, String.toList_append]
    rfl
  have hinner : Path.inner (segments ("/".intercalate names)) = names.map .name := by
    cases names with
    | nil => rfl
    | cons n names =>
      rw [segments_intercalate (List.cons_ne_nil _ _) fun m hm => (hnames m hm).noSlash]
      exact inner_eq hnames
  rw [components, habsolute, if_pos rfl, unitOf_true, segments_slash]
  exact congrArg _ hinner

theorem directory_unitOf_false : directory (unitOf false names) = names.dropLast.map .name := by
  rw [directory, components_unitOf_false hnames]
  rcases List.eq_nil_or_concat names with rfl | ⟨init, n, rfl⟩
  · rfl
  · simp

theorem directory_unitOf_true (hne : names ≠ []) :
    directory (unitOf true names) = .root :: names.dropLast.map .name := by
  obtain ⟨init, n, rfl⟩ := (List.eq_nil_or_concat names).resolve_left hne
  rw [directory, components_unitOf_true hnames]
  simp

end

theorem descend_components {path : String} (h : "./".toList <+: path.toList ∨
    "../".toList <+: path.toList) (names : List String) :
    descend names (components path) = walk names (segments path) := by
  have habsolute : isAbsolute path = false := by
    rcases h with ⟨r, hr⟩ | ⟨r, hr⟩ <;>
    · rw [isAbsolute, ← hr]
      rfl
  rw [components, habsolute, if_neg Bool.false_ne_true]
  split
  · next r hr =>
    rw [hr]
    exact descend_inner names r
  · exact descend_inner names _

theorem intercalate_root (names : List String) : "/".intercalate ("/" :: names) =
    if names = [] then unitOf true names else "/" ++ unitOf true names := by
  cases names with
  | nil => rfl
  | cons n names =>
    rw [String.intercalate_cons_cons, if_neg (List.cons_ne_nil _ _), unitOf_true,
      String.append_assoc]

/-- A path that begins with `./` or `../` refers to the unit that a walk from the importer's
directory leads to. Below the root of all files the slash of the root is written twice, and a walk
that climbs out of the root leaves it for good. -/
theorem unitName_relative {names : List String} {path : String}
    (hnames : ∀ n ∈ names, IsSegment n) (hpath : "./".toList <+: path.toList ∨
      "../".toList <+: path.toList) :
    let found := walk names.dropLast (segments path)
    (∀ n ∈ found, IsSegment n) ∧ unitName (unitOf false names) path = unitOf false found ∧
      (names ≠ [] → unitName (unitOf true names) path =
        if climbsOut names.dropLast (segments path) then unitOf false found
        else if found = [] then unitOf true found else "/" ++ unitOf true found) := by
  intro found
  have hrelative : isRelative path = true := by
    simpa only [isRelative, Bool.or_eq_true, List.isPrefixOf_iff_prefix] using hpath
  have hsegments : ∀ s ∈ segments path, '/' ∉ s.toList := by
    intro s hs
    obtain ⟨part, hpart, rfl⟩ := List.mem_map.1 hs
    rw [String.toList_ofList]
    exact not_mem_of_mem_splitOn hpart
  have hdirectory : ∀ n ∈ names.dropLast, IsSegment n := fun n hn =>
    hnames n (List.dropLast_subset _ hn)
  refine ⟨isSegment_walk hdirectory hsegments, ?_, fun hne => ?_⟩
  · rw [unitName, if_pos hrelative, directory_unitOf_false hnames, descend_append, descend_names,
      List.nil_append, descend_components hpath, unitOf_false]
  · have hroot : descend [] (.root :: names.dropLast.map .name) = "/" :: names.dropLast :=
      descend_names ["/"] names.dropLast
    rw [unitName, if_pos hrelative, directory_unitOf_true hnames hne, descend_append, hroot,
      descend_components hpath, walk_root]
    split
    · rw [unitOf_false]
    · exact intercalate_root found

theorem unitName_relative_nested :
    let names := ["lib", "x", "B.sol"]
    let path := "./..//../lib/./A.sol/"
    (∀ n ∈ names, IsSegment n) ∧ "./".toList <+: path.toList ∧ names ≠ [] ∧
      unitName "lib/x/B.sol" path = "lib/A.sol" ∧ unitName "/lib/x/B.sol" path = "//lib/A.sol" := by
  intro names path
  have hnames : ∀ n ∈ names, IsSegment n := by
    simp only [names, List.forall_mem_cons]
    exact ⟨⟨by decide, by decide, by decide, by decide⟩, ⟨by decide, by decide, by decide, by decide⟩,
      ⟨by decide, by decide, by decide, by decide⟩, nofun⟩
  have hpath : "./".toList <+: path.toList := ⟨"..//../lib/./A.sol/".toList, by decide⟩
  have hne : names ≠ [] := List.cons_ne_nil _ _
  obtain ⟨-, hbelow, hroot⟩ := unitName_relative hnames (.inl hpath)
  have hwalk : walk names.dropLast (segments path) = ["lib", "A.sol"] := by decide +kernel
  have hstays : climbsOut names.dropLast (segments path) = false := by decide +kernel
  specialize hroot hne
  rw [hwalk] at hbelow
  rw [hwalk, hstays] at hroot
  exact ⟨hnames, hpath, hne, hbelow, hroot⟩

/-- Where the walk ends below the root, its name has a slash too many. -/
theorem unitName_ne_unitOf :
    unitName (unitOf true ["a", "b.sol"]) "./c.sol" ≠
      unitOf true (walk ["a"] (segments "./c.sol")) := by
  decide +kernel

end SoliditySession.Import
