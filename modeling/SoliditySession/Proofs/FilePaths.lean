import Mathlib.Algebra.Ring.Nat
import SoliditySession.FileTree
import SoliditySession.Proofs.UnitName
/- The files of a tree with the names that lead to them: each path that leads to a file leads to one
of them, and there are no more than the tree is large. -/
namespace SoliditySession

namespace Path

theorem head?_segments {cs : List Char} (h : cs = [] ∨ cs.head? = some '/') :
    ((cs.splitOn '/').map String.ofList).head? = some "" := by
  rcases h with rfl | h
  · rfl
  · obtain ⟨cs, rfl⟩ := List.head?_eq_some_iff.1 h
    exact congrArg (fun parts => (parts.map String.ofList).head?)
      (List.splitOn_append_cons_self [] cs)

/-- A path behind another one adds its segments, whatever they are. -/
theorem exists_segments_join {a : String} (ha : a ≠ "") :
    ∃ front, (isAbsolute a = true → front.head? = some "") ∧
      ∀ u, isAbsolute u = false → segments (join a u) = front ++ segments u := by
  have hempty : (a == "") = false := beq_eq_false_iff_ne.2 ha
  by_cases hslash : a.toList.getLast? = some '/'
  · obtain ⟨init, hinit⟩ := List.getLast?_eq_some_iff.1 hslash
    refine ⟨(init.splitOn '/').map .ofList, fun habsolute => ?_, fun u hu => ?_⟩
    · refine head?_segments ?_
      cases init with
      | nil => exact .inl rfl
      | cons c init =>
        rw [isAbsolute, hinit, beq_iff_eq] at habsolute
        exact .inr habsolute
    · have hjoin : (join a u).toList = init ++ '/' :: u.toList := by
        simp [join, hu, hempty, hinit]
      rw [segments, hjoin, List.splitOn_append_cons_self, List.map_append]
      rfl
  · refine ⟨segments a, fun habsolute => ?_, fun u hu => ?_⟩
    · rw [isAbsolute, beq_iff_eq] at habsolute
      exact head?_segments (.inr habsolute)
    · have hjoin : (join a u).toList = a.toList ++ '/' :: u.toList := by
        simp [join, hu, hempty, hslash]
      rw [segments, hjoin, List.splitOn_append_cons_self, List.map_append]
      rfl

theorem isAbsolute_join {a u : String} (ha : a ≠ "") (hu : isAbsolute u = false) :
    isAbsolute (join a u) = isAbsolute a := by
  obtain ⟨c, cs, hcs⟩ := List.exists_cons_of_ne_nil (mt String.toList_eq_nil_iff.1 ha)
  rw [join, hu, beq_eq_false_iff_ne.2 ha]
  simp only [Bool.or_self, Bool.false_eq_true, if_false]
  split <;> simp [isAbsolute, hcs]

theorem join_absolute {u : String} (hu : isAbsolute u = true) (a : String) : join a u = u := by
  rw [join, hu, Bool.true_or, if_pos rfl]

/-- What a candidate is looked up by: segments of the root, then those of the unit. -/
theorem exists_segments_candidate {cwd : String} (hcwd : isAbsolute cwd = true) (d : String) :
    ∃ front, ∀ u, isAbsolute u = false →
      (segments (join cwd (join d u))).drop 1 = front ++ segments u := by
  have hne : cwd ≠ "" := by
    rintro rfl
    cases hcwd
  obtain ⟨top, htop, hcwdSegments⟩ := exists_segments_join hne
  obtain ⟨top, rfl⟩ := List.head?_eq_some_iff.1 (htop hcwd)
  by_cases hd : d = ""
  · refine ⟨top, fun u hu => ?_⟩
    have hjoin : join d u = u := by simp [join, hd]
    rw [hjoin, hcwdSegments u hu]
    rfl
  · obtain ⟨front, hfront, hsegments⟩ := exists_segments_join hd
    by_cases habsolute : isAbsolute d = true
    · obtain ⟨front, rfl⟩ := List.head?_eq_some_iff.1 (hfront habsolute)
      refine ⟨front, fun u hu => ?_⟩
      rw [join_absolute (by rwa [isAbsolute_join hd hu]), hsegments u hu]
      rfl
    · refine ⟨top ++ front, fun u hu => ?_⟩
      rw [hcwdSegments _ (by rwa [isAbsolute_join hd hu, ← Bool.not_eq_true]), hsegments u hu,
        List.append_assoc]
      rfl

end Path

namespace FileTree
open Import (IsSegment)

mutual
/-- The files below a node that can be read, each with the names that lead to it. -/
def leaves : FileTree → List (List String × List UInt8)
  | .file (.ok content) => [([], content)]
  | .file (.error _) => []
  | .directory entries => leavesOf entries

def leavesOf : List (String × FileTree) → List (List String × List UInt8)
  | [] => []
  | (name, t) :: rest => t.leaves.map (fun x => (name :: x.1, x.2)) ++ leavesOf rest
end

def contents (t : FileTree) : List (List UInt8) := t.leaves.map (·.2)

theorem length_contents (t : FileTree) : t.contents.length = t.leaves.length := List.length_map _

theorem one_le_extent (t : FileTree) : 1 ≤ t.extent := by
  rcases t with (_ | content) | entries
  · exact Nat.le_refl 1
  · exact Nat.le_add_left 1 _
  · exact Nat.le_add_left 1 _

mutual
/-- The files are no more than the tree is large, their contents counted. -/
theorem sum_leaves_le : ∀ t : FileTree,
    (t.leaves.map fun x => x.2.length).sum + t.leaves.length ≤ t.extent
  | .file (.ok content) => by simp [leaves, extent]
  | .file (.error _) => by simp [leaves]
  | .directory entries => (sum_leavesOf_le entries).trans (Nat.le_succ _)

theorem sum_leavesOf_le : ∀ entries : List (String × FileTree),
    ((leavesOf entries).map fun x => x.2.length).sum + (leavesOf entries).length ≤ extents entries
  | [] => Nat.le_refl 0
  | (name, t) :: rest => by
    have hfirst := sum_leaves_le t
    have hrest := sum_leavesOf_le rest
    simp only [leavesOf, extents, List.map_append, List.map_map, List.sum_append,
      List.length_append, List.length_map, Function.comp_def]
    omega
end

theorem leaves_of_lookup {entries : List (String × FileTree)} {s : String} {next : FileTree}
    (h : entries.lookup s = some next) : next.contents.Sublist (directory entries).contents ∧
      ∀ x ∈ next.leaves, (s :: x.1, x.2) ∈ (directory entries).leaves := by
  induction entries with
  | nil => cases h
  | cons entry entries ih =>
    obtain ⟨name, t⟩ := entry
    rw [List.lookup_cons] at h
    have hcontents : (directory ((name, t) :: entries)).contents =
        t.contents ++ (directory entries).contents := by
      simp [contents, leaves, leavesOf]
    have hleaves : (directory ((name, t) :: entries)).leaves =
        t.leaves.map (fun x => (name :: x.1, x.2)) ++ (directory entries).leaves := by
      simp [leaves, leavesOf]
    rw [hcontents, hleaves]
    split at h
    · next heq =>
      obtain rfl := beq_iff_eq.1 heq
      obtain rfl := Option.some.inj h
      exact ⟨List.sublist_append_left _ _, fun x hx =>
        List.mem_append_left _ (List.mem_map.2 ⟨x, hx, rfl⟩)⟩
    · obtain ⟨hsub, hmem⟩ := ih h
      exact ⟨hsub.trans (List.sublist_append_right _ _), fun x hx =>
        List.mem_append_right _ (hmem x hx)⟩

section
variable {above : List FileTree} {here : FileTree}

/-- A walk along names goes down to one of the files. -/
theorem mem_leaves_of_walk {names : List String} {content : List UInt8}
    (hnames : ∀ n ∈ names, IsSegment n) (h : walk above here names = .ok (.file (.ok content))) :
    (names, content) ∈ here.leaves := by
  induction names generalizing above here with
  | nil =>
    obtain rfl : here = .file (.ok content) := by simpa [walk] using h
    exact List.mem_singleton_self _
  | cons s names ih =>
    obtain ⟨hs, hnames⟩ := List.forall_mem_cons.1 hnames
    cases here with
    | file c => cases h
    | directory entries =>
      simp only [walk, hs.ne_empty, hs.ne_here, hs.ne_up, beq_iff_eq, Bool.or_eq_true, or_self,
        if_false] at h
      split at h
      · cases h
      · split at h
        · cases h
        · next node hlookup => exact (leaves_of_lookup hlookup).2 _ (ih hnames h)

/-- A walk fails in its first part, or it goes on from a node of the tree whatever is behind. -/
theorem exists_after {root : FileTree} (segments : List String)
    (hnodes : ∀ d ∈ here :: above, d.contents.Sublist root.contents) :
    (∃ e, ∀ names, walk above here (segments ++ names) = .error e) ∨
      ∃ above' here', (∀ d ∈ here' :: above', d.contents.Sublist root.contents) ∧
        ∀ names, walk above here (segments ++ names) = walk above' here' names := by
  induction segments generalizing above here with
  | nil => exact .inr ⟨above, here, hnodes, fun _ => rfl⟩
  | cons s segments ih =>
    cases here with
    | file content => exact .inl ⟨.notADirectory, fun _ => rfl⟩
    | directory entries =>
      simp only [List.cons_append, walk]
      split
      · exact ih hnodes
      split
      · cases above with
        | nil => exact ih hnodes
        | cons d ds => exact ih (List.forall_mem_cons.1 hnodes).2
      split
      · exact .inl ⟨.nameTooLong, fun _ => rfl⟩
      · split
        · exact .inl ⟨.missing, fun _ => rfl⟩
        · next node hlookup =>
          refine ih (List.forall_mem_cons.2 ⟨?_, hnodes⟩)
          exact (leaves_of_lookup hlookup).1.trans (hnodes _ List.mem_cons_self)

end

section
variable {root : FileTree} {cwd path : String} {content : List UInt8}

theorem walk_of_find (h : root.find cwd path = .ok (.file (.ok content))) :
    path ≠ "" ∧ walk [] root ((Path.segments (Path.join cwd path)).drop 1) =
      .ok (.file (.ok content)) := by
  rw [find] at h
  split at h
  · cases h
  split at h
  · cases h
  · next hne =>
    split at h
    · cases h
    · exact ⟨by simpa using hne, h⟩

theorem mem_contents_of_find (h : root.find cwd path = .ok (.file (.ok content))) :
    content ∈ root.contents := by
  obtain ⟨-, hwalk⟩ := walk_of_find h
  have hnodes : ∀ d ∈ [root], d.contents.Sublist root.contents := by simp
  rcases exists_after ((Path.segments (Path.join cwd path)).drop 1) hnodes with
    ⟨e, herror⟩ | ⟨above, here, hhere, hafter⟩
  · have hfails := herror []
    rw [List.append_nil, hwalk] at hfails
    cases hfails
  · have hends := hafter []
    rw [List.append_nil, hwalk, walk] at hends
    obtain rfl := Except.ok.inj hends
    exact (hhere _ List.mem_cons_self).subset (List.mem_singleton_self content)

end

section
variable {root : FileTree} {cwd : String}

/-- No more units of plain names are found below a root than there are files. -/
theorem exists_units (hcwd : Path.isAbsolute cwd = true) (d : String) :
    ∃ units : List String, units.length ≤ root.leaves.length ∧
      ∀ names content, (∀ n ∈ names, IsSegment n) →
        root.find cwd (Path.join d ("/".intercalate names)) = .ok (.file (.ok content)) →
        "/".intercalate names ∈ units := by
  obtain ⟨front, hfront⟩ := Path.exists_segments_candidate hcwd d
  have hnodes : ∀ d ∈ [root], d.contents.Sublist root.contents := by simp
  have hwalk : ∀ names content, (∀ n ∈ names, IsSegment n) →
      root.find cwd (Path.join d ("/".intercalate names)) = .ok (.file (.ok content)) →
      walk [] root (front ++ Path.segments ("/".intercalate names)) = .ok (.file (.ok content)) := by
    intro names content hnames h
    have hrelative := Import.isAbsolute_unitOf_false hnames
    rw [Import.unitOf_false] at hrelative
    rw [← hfront _ hrelative]
    exact (walk_of_find h).2
  rcases exists_after front hnodes with ⟨e, herror⟩ | ⟨above, here, hhere, hafter⟩
  · refine ⟨[], Nat.zero_le _, fun names content hnames h => ?_⟩
    have hfails := hwalk names content hnames h
    rw [herror] at hfails
    cases hfails
  · refine ⟨here.leaves.map fun x => "/".intercalate x.1, ?_, fun names content hnames h => ?_⟩
    · have hlength := (hhere here List.mem_cons_self).length_le
      rwa [length_contents, length_contents, ← List.length_map (fun x => "/".intercalate x.1)]
        at hlength
    · have hfound := hwalk names content hnames h
      rw [hafter] at hfound
      cases names with
      | nil =>
        -- a directory is found without names, never a file
        cases here with
        | file c => cases hfound
        | directory entries => cases hfound
      | cons n names =>
        rw [Import.segments_intercalate (List.cons_ne_nil _ _) fun m hm => (hnames m hm).noSlash]
          at hfound
        exact List.mem_map.2 ⟨_, mem_leaves_of_walk hnames hfound, rfl⟩

/-- Nor from the top of the tree, with the slash of the top written twice. -/
theorem mem_units_of_top {names : List String} {content : List UInt8}
    (hnames : ∀ n ∈ names, IsSegment n) {d : String}
    (h : root.find cwd (Path.join d ("/".intercalate ("/" :: names))) = .ok (.file (.ok content))) :
    "/".intercalate ("/" :: names) ∈ root.leaves.map fun x => "/".intercalate ("/" :: x.1) := by
  have habsolute : Path.isAbsolute ("/".intercalate ("/" :: names)) = true := by
    rw [Import.intercalate_root]
    split
    · rw [Import.unitOf_true, Path.isAbsolute, String.toList_append]
      rfl
    · rw [Path.isAbsolute, String.toList_append]
      rfl
  obtain ⟨-, hwalk⟩ := walk_of_find h
  rw [Path.join_absolute habsolute, Path.join_absolute habsolute, Import.intercalate_root] at hwalk
  cases names with
  | nil =>
    rw [if_pos rfl, Import.unitOf_true, Import.segments_slash] at hwalk
    cases root with
    | file c => cases hwalk
    | directory entries => cases hwalk
  | cons n names =>
    rw [if_neg (List.cons_ne_nil _ _), Import.unitOf_true, Import.segments_slash,
      Import.segments_slash,
      Import.segments_intercalate (List.cons_ne_nil _ _) fun m hm => (hnames m hm).noSlash] at hwalk
    cases root with
    | file c => cases hwalk
    | directory entries => exact List.mem_map.2 ⟨_, mem_leaves_of_walk hnames hwalk, rfl⟩

end

end FileTree
end SoliditySession
