import SoliditySession.Import
import Mathlib.Data.List.Basic
/- Lookups under search roots: the first root that leads to a file decides, so that a further root
behind the others changes nothing that was decided. -/
namespace SoliditySession

namespace FileTree
variable {files : FileTree} {cwd path : String}

theorem isFile_iff :
    files.isFile cwd path = true ↔ ∃ content, files.find cwd path = .ok (.file content) := by
  rw [isFile]
  split
  · next content h => exact iff_of_true rfl ⟨content, h⟩
  · next hnone =>
    refine iff_of_false Bool.false_ne_true ?_
    rintro ⟨content, h⟩
    exact hnone content h

theorem read_of_find {content : List UInt8} (h : files.find cwd path = .ok (.file (.ok content))) :
    files.read cwd path = match Text.ofBytes? content with
      | some text => .ok text
      | none => .error .notText := by
  cases htext : Text.ofBytes? content with
  | none => simp only [read, h, htext]
  | some text => simp only [read, h, htext]

theorem read_of_fault {fault : FileFault} (h : files.find cwd path = .ok (.file (.error fault))) :
    files.read cwd path = .error fault := by
  simp only [read, h]

end FileTree

namespace Import.SearchRoots

/-- What a lookup has to answer: the text of the first file among the candidates, why it has none, or
all candidates where none of them is a file. -/
inductive Answers (files : FileTree) (cwd path : String) (roots : List String) :
    Except Fault String → Prop
  | text {before after : List String} {root text : String} {content : List UInt8} :
      roots = before ++ root :: after →
      (∀ d ∈ before, files.isFile cwd (Path.join d path) = false) →
      files.find cwd (Path.join root path) = .ok (.file (.ok content)) →
      Text.ofBytes? content = some text → Answers files cwd path roots (.ok text)
  | notText {before after : List String} {root : String} {content : List UInt8} :
      roots = before ++ root :: after →
      (∀ d ∈ before, files.isFile cwd (Path.join d path) = false) →
      files.find cwd (Path.join root path) = .ok (.file (.ok content)) →
      Text.ofBytes? content = none →
      Answers files cwd path roots
        (.error (.unreadable (Path.join root path) FileFault.notText.message))
  | unreadable {before after : List String} {root : String} {fault : FileFault} :
      roots = before ++ root :: after →
      (∀ d ∈ before, files.isFile cwd (Path.join d path) = false) →
      files.find cwd (Path.join root path) = .ok (.file (.error fault)) →
      Answers files cwd path roots (.error (.unreadable (Path.join root path) fault.message))
  | notFound : (∀ d ∈ roots, files.isFile cwd (Path.join d path) = false) →
      Answers files cwd path roots (.error (.notFound (roots.map (Path.join · path))))

section
variable (r : SearchRoots) (files : FileTree) (cwd : String)

theorem answers_resolver (path : String) :
    Answers files cwd path r.roots (r.resolver files cwd path) := by
  rw [resolver]
  cases hfind : (r.candidates path).find? (files.isFile cwd) with
  | none =>
    refine .notFound fun d hd => ?_
    simpa using List.find?_eq_none.1 hfind _ (List.mem_map.2 ⟨d, hd, rfl⟩)
  | some candidate =>
    rw [candidates, List.find?_map, Option.map_eq_some_iff] at hfind
    obtain ⟨root, hroot, rfl⟩ := hfind
    obtain ⟨hfile, before, after, hroots, hbefore⟩ := List.find?_eq_some_iff_append.1 hroot
    have hbefore : ∀ d ∈ before, files.isFile cwd (Path.join d path) = false := by
      simpa using hbefore
    obtain ⟨content | content, hcontent⟩ := FileTree.isFile_iff.1 hfile
    · simp only [FileTree.read_of_fault hcontent]
      exact .unreadable hroots hbefore hcontent
    · simp only [FileTree.read_of_find hcontent]
      cases htext : Text.ofBytes? content with
      | none => exact .notText hroots hbefore hcontent htext
      | some text => exact .text hroots hbefore hcontent htext

theorem find?_candidates {path root : String} {before after : List String}
    {content : Except FileFault (List UInt8)} (hroots : r.roots = before ++ root :: after)
    (hbefore : ∀ d ∈ before, files.isFile cwd (Path.join d path) = false)
    (hfind : files.find cwd (Path.join root path) = .ok (.file content)) :
    (r.candidates path).find? (files.isFile cwd) = some (Path.join root path) := by
  rw [candidates, List.find?_map, Option.map_eq_some_iff]
  refine ⟨root, List.find?_eq_some_iff_append.2 ⟨?_, before, after, hroots, ?_⟩, rfl⟩
  · exact FileTree.isFile_iff.2 ⟨content, hfind⟩
  · simpa using hbefore

/-- A lookup answers just what it has to. -/
theorem resolver_eq_iff {path : String} {a : Except Fault String} :
    r.resolver files cwd path = a ↔ Answers files cwd path r.roots a := by
  constructor
  · rintro rfl
    exact r.answers_resolver files cwd path
  · intro h
    rw [resolver]
    cases h with
    | text hroots hbefore hfind htext =>
      simp only [r.find?_candidates files cwd hroots hbefore hfind, FileTree.read_of_find hfind,
        htext]
    | notText hroots hbefore hfind htext =>
      simp only [r.find?_candidates files cwd hroots hbefore hfind, FileTree.read_of_find hfind,
        htext]
    | unreadable hroots hbefore hfind =>
      simp only [r.find?_candidates files cwd hroots hbefore hfind, FileTree.read_of_fault hfind]
    | notFound hnone =>
      have hfind : (r.candidates path).find? (files.isFile cwd) = none := by
        simpa [candidates] using hnone
      simp only [hfind]
      rfl

/-- What resolves is the text of a file that one of the roots leads to. -/
theorem exists_of_resolver {unit text : String} (h : r.resolver files cwd unit = .ok text) :
    ∃ d ∈ r.roots, ∃ content, files.find cwd (Path.join d unit) = .ok (.file (.ok content)) ∧
      Text.ofBytes? content = some text := by
  have hanswers := r.answers_resolver files cwd unit
  rw [h] at hanswers
  cases hanswers with
  | text hroots _ hfind htext => exact ⟨_, by rw [hroots]; simp, _, hfind, htext⟩

end

section
variable {files : FileTree} {cwd path : String} {roots : List String}

/-- More roots behind change nothing where a file was found. -/
theorem Answers.append {a : Except Fault String} (h : Answers files cwd path roots a)
    (hfound : ∀ searched, a ≠ .error (.notFound searched)) (more : List String) :
    Answers files cwd path (roots ++ more) a := by
  cases h with
  | text hroots hbefore hfind htext =>
    exact .text (by rw [hroots, List.append_assoc]; rfl) hbefore hfind htext
  | notText hroots hbefore hfind htext =>
    exact .notText (by rw [hroots, List.append_assoc]; rfl) hbefore hfind htext
  | unreadable hroots hbefore hfind =>
    exact .unreadable (by rw [hroots, List.append_assoc]; rfl) hbefore hfind
  | notFound => exact absurd rfl (hfound _)

end

section
variable (r : SearchRoots) (root : String)

theorem same_iff {a b : String} :
    Path.same a b = true ↔ Path.components a = Path.components b := beq_iff_eq

theorem add_cases : (r.add root = r ∧ ∃ d ∈ r.roots, Path.same root d = true) ∨
    (r.add root).roots = r.roots ++ [root] ∧ ∀ d ∈ r.roots, Path.same root d = false := by
  rw [add]
  split
  · next h => exact .inl ⟨rfl, List.any_eq_true.1 h⟩
  · next h => exact .inr ⟨rfl, by simpa using h⟩

/-- Adding a root keeps those there are in order. -/
theorem roots_prefix_add : r.roots <+: (r.add root).roots := by
  rcases r.add_cases root with ⟨h, -⟩ | ⟨h, -⟩
  · simp only [h, List.prefix_rfl]
  · exact ⟨[root], h.symm⟩

theorem exists_same_add : ∃ d ∈ (r.add root).roots, Path.same root d = true := by
  rcases r.add_cases root with ⟨h, hd⟩ | ⟨h, -⟩
  · rwa [h]
  · exact ⟨root, by rw [h]; simp, same_iff.2 rfl⟩

/-- No root gets a second copy. -/
theorem countP_add_le (a : String) : (r.add root).roots.countP (Path.same a) ≤
    max 1 (r.roots.countP (Path.same a)) := by
  rcases r.add_cases root with ⟨h, -⟩ | ⟨h, hnew⟩
  · rw [h]
    exact Nat.le_max_right _ _
  · rw [h, List.countP_append, List.countP_singleton]
    split
    · next hsame =>
      have hnone : r.roots.countP (Path.same a) = 0 := by
        rw [List.countP_eq_zero]
        intro d hd hcopy
        have hroot := hnew d hd
        rw [same_iff.2 ((same_iff.1 hsame).symm.trans (same_iff.1 hcopy))] at hroot
        cases hroot
      omega
    · omega

/-- A lookup that led to a file answers as before. -/
theorem resolver_add {files : FileTree} {cwd path : String} {a : Except Fault String}
    (h : r.resolver files cwd path = a) (hfound : ∀ searched, a ≠ .error (.notFound searched)) :
    (r.add root).resolver files cwd path = a := by
  obtain ⟨more, hmore⟩ := r.roots_prefix_add root
  rw [resolver_eq_iff] at h ⊢
  rw [← hmore]
  exact h.append hfound more

end

end Import.SearchRoots
end SoliditySession
