import SoliditySession.Proofs.UnitCount
/- A further search root only adds: the roots there are stay in order, what a lookup found stays found,
and so does everything that was gathered. -/
namespace SoliditySession.Import

section
variable {resolve resolve' : Resolver} {root source : String}
  (h : ∀ unit text, resolve unit = .ok text → resolve' unit = .ok text)
include h

theorem textOf?_mono {unit text : String} (hunit : textOf? resolve root source unit = some text) :
    textOf? resolve' root source unit = some text := by
  rw [textOf?_eq_some_iff] at hunit ⊢
  exact hunit.imp_right fun hresolves => hresolves.imp_right (h unit text)

/-- Where more units resolve, more are reached. -/
theorem Reached.mono {unit : String} (hreached : Reached resolve root source unit) :
    Reached resolve' root source unit := by
  induction hreached with
  | refl => exact .refl
  | tail _ himports ih =>
    obtain ⟨text, path, htext, hpath, rfl⟩ := himports
    exact .tail ih ⟨text, path, textOf?_mono h htext, hpath, rfl⟩

/-- Where more units resolve, more is gathered, and the texts gathered before stay. -/
theorem Collection.Complete.get?_mono {c c' : Collection} (hc : c.Complete resolve root source)
    (hc' : c'.Complete resolve' root source) {unit text : String}
    (hunit : c.sources.get? unit = some text) : c'.sources.get? unit = some text := by
  by_cases hroot : unit = root
  · subst hroot
    rw [hc.root_text] at hunit
    rw [hc'.root_text, hunit]
  · obtain ⟨hreached, htext⟩ := (hc.text unit text hroot).1 hunit
    exact (hc'.text unit text hroot).2 ⟨hreached.mono h, h unit text htext⟩

end

namespace SearchRoots

/-- Adding a root keeps the roots in order and makes no second copy of one; a lookup answers with the
first root that leads to a file, and one that found a file answers as before; so what is gathered
from any root unit, which always ends, is still there with the same text. The working directory is
absolute, as that of a running program is. -/
theorem add_extends (r : SearchRoots) (root : String) (files : FileTree) {cwd : String}
    (hcwd : Path.isAbsolute cwd = true) :
    (r.roots <+: (r.add root).roots ∧ (∃ d ∈ (r.add root).roots, Path.same root d = true) ∧
      ∀ a, (r.add root).roots.countP (Path.same a) ≤ max 1 (r.roots.countP (Path.same a))) ∧
    (∀ path a, r.resolver files cwd path = a ↔ Answers files cwd path r.roots a) ∧
    (∀ path a, r.resolver files cwd path = a → (∀ searched, a ≠ .error (.notFound searched)) →
      (r.add root).resolver files cwd path = a) ∧
    ∀ unit source,
      let c := Collection.ofRoot (r.resolver files cwd) (r.bound files) unit source
      let c' := Collection.ofRoot ((r.add root).resolver files cwd) ((r.add root).bound files)
        unit source
      Collection.Finishes (r.resolver files cwd) ⟨∅, [], [(unit, source)], []⟩ c ∧
      Collection.Finishes ((r.add root).resolver files cwd) ⟨∅, [], [(unit, source)], []⟩ c' ∧
      ∀ found text, c.sources.get? found = some text → c'.sources.get? found = some text := by
  refine ⟨⟨r.roots_prefix_add root, r.exists_same_add root, r.countP_add_le root⟩,
    fun path a => r.resolver_eq_iff files cwd, fun path a => r.resolver_add root, ?_⟩
  intro unit source c c'
  obtain ⟨hfinishes, hcomplete⟩ := r.gathers files hcwd unit source
  obtain ⟨hfinishes', hcomplete'⟩ := (r.add root).gathers files hcwd unit source
  have hstays : ∀ unit text, r.resolver files cwd unit = .ok text →
      (r.add root).resolver files cwd unit = .ok text := fun unit text h =>
    r.resolver_add root h nofun
  exact ⟨hfinishes, hfinishes', fun found text => hcomplete.get?_mono hstays hcomplete'⟩

/-- A project whose only file imports one that lies in another directory. -/
def vendored : FileTree := .directory [("p", .directory [
  ("A.sol", .file (.ok (Text.toBytes "import \"V.sol\";"))),
  ("vendor", .directory [("V.sol", .file (.ok (Text.toBytes "library V;")))])])]

/-- With that directory among the roots the missing unit is found, and the other stays. -/
theorem add_extends_vendored :
    let r : SearchRoots := ⟨["/p"]⟩
    let c := Collection.ofRoot (r.resolver vendored "/p") (r.bound vendored) "main.sol"
      "import \"A.sol\";"
    let c' := Collection.ofRoot ((r.add "vendor").resolver vendored "/p")
      ((r.add "vendor").bound vendored) "main.sol" "import \"A.sol\";"
    Path.isAbsolute "/p" = true ∧ c.sources.keys = ["A.sol", "main.sol"] ∧
      c.unresolved = [("V.sol", .notFound ["/p/V.sol"])] ∧
      c'.sources.keys = ["A.sol", "V.sol", "main.sol"] ∧
      c'.sources.get? "A.sol" = some "import \"V.sol\";" := by
  intro r c c'
  have hcwd : Path.isAbsolute "/p" = true := by decide
  obtain ⟨-, -, hstays⟩ := (r.add_extends "vendor" vendored hcwd).2.2.2 "main.sol"
    "import \"A.sol\";"
  exact ⟨hcwd, by decide +kernel, by decide +kernel, by decide +kernel,
    hstays "A.sol" _ (by decide +kernel)⟩

end SearchRoots
end SoliditySession.Import
