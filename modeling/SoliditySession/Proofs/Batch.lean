import SoliditySession.Proofs.Acceptance
/- Lines evaluated one after the other, and the same lines compiled together. A session is all that
a turn takes over from the turns before it, so the last turn makes the trials that the lines
together ask for. -/
namespace SoliditySession

variable {σ τ : Type}

namespace Toolchain

/-- A resolution without an artifact lists an error, the first of which is its verdict. -/
theorem error?_eq_of_no_artifact (t : Toolchain σ) (statements : List Statement) {s : σ}
    (h : (t.resolve statements s).1.last.artifact = none) :
    (t.resolve statements s).1.last.error? =
      some (Shell.compileFailure (t.resolve statements s).1.last) := by
  obtain ⟨made, -, htrials, -⟩ := t.resolve_trials statements s
  cases herror : (t.resolve statements s).1.last.error? with
  | some d => rw [Shell.compileFailure, herror, Option.getD_some]
  | none =>
      rw [Attempt.error?, Diagnostic.firstError?_eq_none_iff] at herror
      have hsome := htrials.artifact_isSome_iff.2 fun d hd => by
        simpa [Diagnostic.isError] using herror d hd
      rw [h] at hsome
      cases hsome

end Toolchain

namespace Shell
variable {services : Services σ τ}

theorem lastSource_eval (services : Services σ τ) (line : String) (sh : Shell σ τ) :
    (sh.eval services line).2.lastSource = some (sh.turn services line).1.last.unit.source := by
  have hturn := sh.eval_turn services line
  generalize (sh.eval services line).1 = outcome at hturn
  generalize (sh.eval services line).2 = sh' at hturn ⊢
  cases hturn <;> rfl

theorem statements_eval (services : Services σ τ) (line : String) (sh : Shell σ τ) :
    (sh.eval services line).2.session.statements =
      if (sh.eval services line).1.isFailure then sh.session.statements
      else sh.session.statements ++ [.ofRaw line] := by
  have hturn := sh.eval_turn services line
  generalize (sh.eval services line).1 = outcome at hturn ⊢
  generalize (sh.eval services line).2 = sh' at hturn ⊢
  cases hturn <;> rfl

/-- An accepted line compiles, and one that fails to compile is answered with its error. -/
theorem artifact_eval (services : Services σ τ) (line : String) (sh : Shell σ τ) :
    ((sh.eval services line).1.isFailure = false →
      ∃ a, (sh.turn services line).1.last.artifact = some a) ∧
    ∀ d, (sh.eval services line).1 = .compileFailed d →
      (sh.turn services line).1.last.artifact = none ∧
        d = compileFailure (sh.turn services line).1.last := by
  have hturn := sh.eval_turn services line
  generalize (sh.eval services line).1 = outcome at hturn ⊢
  generalize (sh.eval services line).2 = sh' at hturn
  cases hturn with
  | compileFailed ha => exact ⟨nofun, fun d hd => ⟨ha, (Outcome.compileFailed.inj hd).symm⟩⟩
  | compiled ha => exact ⟨fun _ => ⟨_, ha⟩, nofun⟩
  | value ha => exact ⟨fun _ => ⟨_, ha⟩, nofun⟩
  | noValue ha => exact ⟨fun _ => ⟨_, ha⟩, nofun⟩
  | execFailed ha => exact ⟨nofun, nofun⟩

/-- Turns that are all accepted lead from one shell to another. -/
inductive Takes (services : Services σ τ) : Shell σ τ → List String → Shell σ τ → Prop
  | nil (sh : Shell σ τ) : Takes services sh [] sh
  | cons {sh sh' : Shell σ τ} {line : String} {lines : List String} :
      (sh.eval services line).1.isFailure = false →
      Takes services (sh.eval services line).2 lines sh' → Takes services sh (line :: lines) sh'

namespace Takes
variable {sh sh' : Shell σ τ} {line : String} {lines : List String}

theorem statements_eq (h : Takes services sh lines sh') :
    sh'.session.statements = sh.session.statements ++ lines.map .ofRaw := by
  induction h with
  | nil sh => rw [List.map_nil, List.append_nil]
  | cons haccepted _ ih =>
      rw [ih, statements_eval, haccepted, if_neg Bool.false_ne_true, List.map_cons,
        List.append_assoc, List.singleton_append]

/-- What the next turn tries is what all lines together try. -/
theorem turn_eq (h : Takes services sh lines sh') (hnew : sh.session = .new)
    (hc : services.toolchain.compiler.Functional) (line : String) (s : σ) :
    (sh'.turn services line).1 = (services.toolchain.compileAll (lines ++ [line]) s).1 := by
  have hstatements : sh'.session.statements = lines.map .ofRaw := by
    rw [h.statements_eq, hnew]
    rfl
  rw [turn, hstatements, Toolchain.compileAll, List.map_append]
  exact Toolchain.resolve_congr hc _ _ _

end Takes

/-- The loop takes lines up to the last one or to one that fails, whose outcome it gives. -/
theorem evalAll_takes (services : Services σ τ) (sh : Shell σ τ) (last : Option Outcome)
    {lines : List String} (hne : lines ≠ []) :
    ∃ earlier line later before, lines = earlier ++ line :: later ∧
      Takes services sh earlier before ∧
      ((before.eval services line).1.isFailure = true ∨ later = []) ∧
      sh.evalAll services lines last =
        (some (before.eval services line).1, (before.eval services line).2) := by
  induction lines generalizing sh last with
  | nil => exact absurd rfl hne
  | cons line lines ih =>
      by_cases hfailure : (sh.eval services line).1.isFailure = true
      · refine ⟨[], line, lines, sh, rfl, .nil sh, .inl hfailure, ?_⟩
        simp only [evalAll, hfailure, if_true]
      · have haccepted := Bool.eq_false_iff.2 hfailure
        cases lines with
        | nil =>
            refine ⟨[], line, [], sh, rfl, .nil sh, .inr rfl, ?_⟩
            simp only [evalAll, haccepted, Bool.false_eq_true, if_false]
        | cons next lines =>
            obtain ⟨earlier, stop, later, before, hlines, htakes, hstop, hall⟩ :=
              ih (sh.eval services line).2 (some (sh.eval services line).1)
                (List.cons_ne_nil next lines)
            refine ⟨line :: earlier, stop, later, before, ?_, .cons haccepted htakes, hstop, ?_⟩
            · rw [hlines, List.cons_append]
            · rw [evalAll]
              simp only [haccepted, Bool.false_eq_true, if_false]
              exact hall

/-- Evaluating lines in turn, the loop ends with the first that fails or with the last line; the
lines before it were accepted and are the session then. What was tried in that turn is what all
lines up to it try together: an accepted line gives the same artifact without an error, one that
does not compile the same error, and in either case the source remembered is the same. -/
theorem evalAll_agrees_compileAll (services : Services σ τ)
    (hc : services.toolchain.compiler.Functional) (s : σ) (x : τ) {lines : List String}
    (hne : lines ≠ []) :
    ∃ earlier line later before outcome sh, lines = earlier ++ line :: later ∧
      Takes services (.new s x) earlier before ∧
      before.session.statements = earlier.map .ofRaw ∧
      before.eval services line = (outcome, sh) ∧
      evalAll services lines none (.new s x) = (some outcome, sh) ∧
      (outcome.isFailure = false → later = [] ∧ sh.session.statements = lines.map .ofRaw ∧
        ∃ a, (before.session.submit services.toolchain line
            before.compilerState).1.last.artifact = some a ∧
          ∀ s', (services.toolchain.compileAll lines s').1.verdict.error = none ∧
            (services.toolchain.compileAll lines s').1.verdict.artifact = some a ∧
            sh.lastSource = some (services.toolchain.compileAll lines s').1.verdict.unit.source) ∧
      (outcome.isFailure = true → sh.session.statements = earlier.map .ofRaw ∧
        ∀ d, outcome = .compileFailed d →
          ∀ s', (services.toolchain.compileAll (earlier ++ [line]) s').1.verdict.error = some d ∧
            sh.lastSource = some
              (services.toolchain.compileAll (earlier ++ [line]) s').1.verdict.unit.source) := by
  obtain ⟨earlier, line, later, before, hlines, htakes, hstop, hall⟩ :=
    evalAll_takes services (.new s x) none hne
  have hbefore : before.session.statements = earlier.map .ofRaw := htakes.statements_eq
  have htogether := htakes.turn_eq rfl hc line
  have hsource := before.lastSource_eval services line
  have hsession := before.statements_eval services line
  obtain ⟨haccepted, hfailed⟩ := before.artifact_eval services line
  refine ⟨earlier, line, later, before, (before.eval services line).1,
    (before.eval services line).2, hlines, htakes, hbefore, rfl, hall, ?_, ?_⟩
  · intro hsuccess
    obtain rfl : later = [] := hstop.resolve_left (by rw [hsuccess]; exact Bool.false_ne_true)
    obtain ⟨a, ha⟩ := haccepted hsuccess
    refine ⟨rfl, ?_, a, ha, ?_⟩
    · rw [hsession, hsuccess, if_neg Bool.false_ne_true, hbefore, hlines, List.map_append,
        List.map_singleton]
    · intro s'
      rw [htogether s'] at ha hsource
      rw [hlines]
      exact ⟨Toolchain.error?_eq_none_of_artifact _ _ ha, ha, hsource⟩
  · intro hfailure
    refine ⟨by rw [hsession, hfailure, if_pos rfl, hbefore], ?_⟩
    intro d hd s'
    obtain ⟨hnone, rfl⟩ := hfailed d hd
    rw [htogether s'] at hnone hsource ⊢
    exact ⟨Toolchain.error?_eq_of_no_artifact _ _ hnone, hsource⟩

theorem evalAll_agrees_compileAll_accepting :
    let lines := ["uint x = 1", "x++", "x"]
    let ended := evalAll acceptingServices lines none (.new 0 ())
    acceptingServices.toolchain.compiler.Functional ∧ lines ≠ [] ∧
      ended.1.any (!·.isFailure) = true ∧ ended.2.session.statements = lines.map .ofRaw ∧
      ∃ a, ∀ s', (acceptingServices.toolchain.compileAll lines s').1.verdict.error = none ∧
        (acceptingServices.toolchain.compileAll lines s').1.verdict.artifact = some a ∧
        ended.2.lastSource =
          some (acceptingServices.toolchain.compileAll lines s').1.verdict.unit.source := by
  intro lines ended
  have hc : acceptingServices.toolchain.compiler.Functional := fun _ _ _ => rfl
  have hne : lines ≠ [] := List.cons_ne_nil _ _
  have hany : ended.1.any (!·.isFailure) = true := by decide +kernel
  obtain ⟨earlier, line, later, before, outcome, sh, hlines, -, -, -, hall, haccepted, -⟩ :=
    evalAll_agrees_compileAll acceptingServices hc 0 () hne
  have hended : ended = (some outcome, sh) := hall
  rw [hended] at hany ⊢
  obtain ⟨-, hkept, a, -, htogether⟩ := haccepted (by simpa using hany)
  exact ⟨hc, hne, hany, hkept, a, htogether⟩

end Shell
end SoliditySession
