import SoliditySession.Proofs.Ladder
import SoliditySession.Shell
import SoliditySession.StandardJson.Program
/- Services that note what they are asked. A service may keep any state, so its notes stand beside
the state; what it answers stays the same, and so does everything that is made of the answers. -/
namespace SoliditySession

variable {σ τ : Type}

/-- Answers alike and notes what is asked, in order. -/
def recording {α β : Type} (answer : α → σ → β × σ) (x : α) (s : σ × List α) :
    β × (σ × List α) :=
  ((answer x s.1).1, (answer x s.1).2, s.2 ++ [x])

def Compiler.recorded (c : Compiler σ) : Compiler (σ × List Submission) := ⟨recording c.compile⟩

def Executor.recorded (e : Executor τ) : Executor (τ × List (Artifact × String)) :=
  ⟨fun a entryPoint => recording (fun x => e.run x.1 x.2) (a, entryPoint)⟩

def StandardJson.Program.recorded (p : Program σ) : Program (σ × List Json) where
  path := p.path
  compile := recording p.compile
  version := p.version

def Toolchain.recorded (t : Toolchain σ) : Toolchain (σ × List Submission) where
  compiler := t.compiler.recorded
  interpreter := t.interpreter
  options := t.options

def Services.recorded (services : Services σ τ) :
    Services (σ × List Submission) (τ × List (Artifact × String)) where
  toolchain := services.toolchain.recorded
  executor := services.executor.map (·.recorded)

namespace Toolchain
variable (t : Toolchain σ) (statements : List Statement)

/-- The submissions of the attempts, in order. -/
def submitted (r : Resolution) : List Submission :=
  r.attempts.map fun a => ⟨t.options.sourceName, a.unit.source⟩

theorem length_submitted (r : Resolution) : (t.submitted r).length = r.trial := by
  rw [submitted, List.length_map, r.length_attempts]

theorem getLast?_submitted (r : Resolution) :
    (t.submitted r).getLast? = some ⟨t.options.sourceName, r.last.unit.source⟩ := by
  rw [submitted, Resolution.attempts, List.map_append, List.map_singleton,
    List.getLast?_append_cons, List.getLast?_singleton]

theorem attempt_unit (spec : ReturnSpec) (s : σ) :
    (t.attempt statements spec s).1.unit = .assemble t.options spec statements := by
  rw [attempt_eq, judged, Attempt.ofAnswer_unit]

theorem submitted_attempt (earlier : List Attempt) (spec : ReturnSpec) (s : σ) :
    t.submitted ⟨earlier, (t.attempt statements spec s).1⟩ =
      (earlier.map fun a => ⟨t.options.sourceName, a.unit.source⟩) ++
        [t.submission statements spec] := by
  simp only [submitted, Resolution.attempts_mk, List.map_append, List.map_cons, List.map_nil,
    attempt_unit, submission]

theorem attempt_recorded (spec : ReturnSpec) (s : σ) (notes : List Submission) :
    t.recorded.attempt statements spec (s, notes) =
      ((t.attempt statements spec s).1, (t.attempt statements spec s).2,
        notes ++ [t.submission statements spec]) := rfl

/-- The notes grow by the submissions of the attempts that climbing adds. -/
theorem climb_recorded (cs : List Correction) (r : Resolution) (s : σ)
    (notes : List Submission) :
    t.recorded.climb statements cs r (s, notes ++ t.submitted r) =
      ((t.climb statements cs r s).1, (t.climb statements cs r s).2,
        notes ++ t.submitted (t.climb statements cs r s).1) := by
  induction cs generalizing r s with
  | nil => rfl
  | cons c cs ih =>
      cases rung t.interpreter c r.last with
      | accepted hd => rw [climb_of_no_error _ _ hd, climb_of_no_error _ _ hd]
      | @corrected d spec hd hc =>
          have hnext := ih ⟨r.attempts, (t.attempt statements spec s).1⟩
            (t.attempt statements spec s).2
          rw [submitted_attempt, ← List.append_assoc] at hnext
          rw [climb_of_corrects _ _ hd hc, climb_of_corrects _ _ hd (by exact hc),
            attempt_recorded]
          exact hnext
      | passed hd hc =>
          rw [climb_of_not_corrects _ _ hd hc, climb_of_not_corrects _ _ hd (by exact hc)]
          exact ih r s

/-- A resolution makes one submission for each attempt, and no other. -/
theorem resolve_recorded (s : σ) (notes : List Submission) :
    t.recorded.resolve statements (s, notes) =
      ((t.resolve statements s).1, (t.resolve statements s).2,
        notes ++ t.submitted (t.resolve statements s).1) := by
  have hclimb := t.climb_recorded statements Correction.ladder
    ⟨[], (t.attempt statements (.guess t.options statements) s).1⟩
    (t.attempt statements (.guess t.options statements) s).2 notes
  rw [submitted_attempt] at hclimb
  exact hclimb

namespace Trials
variable {t statements} {s s' : σ} {made : List Correction} {r : Resolution}

theorem submitted_eq (h : t.Trials statements s made r s') :
    t.submitted r = (r.attempts.map (·.unit.spec)).map (t.submission statements) := by
  induction h with
  | first => simp [submitted_attempt, Resolution.attempts_mk]
  | next h hd hc ih =>
      rw [submitted_attempt, ← submitted, ih]
      simp only [Resolution.attempts_mk, List.map_append, List.map_cons, List.map_nil,
        attempt_unit_spec]

/-- The compiler's calls are the submissions, and the last attempt is made of its last answer. -/
theorem last_answer (h : t.Trials statements s made r s') :
    ∃ answers spec answer, t.compiler.answers (t.submitted r) s = (answers, s') ∧
      answers.getLast? = some answer ∧ r.last = t.judged statements spec answer := by
  cases h with
  | first =>
      let spec := ReturnSpec.guess t.options statements
      refine ⟨[(t.compiler.compile (t.submission statements spec) s).1], spec, _, ?_, rfl, rfl⟩
      rw [submitted_attempt]
      rfl
  | @next made r s' d c spec h hd hc =>
      obtain ⟨before, hbefore, -⟩ := h.answered
      refine ⟨before ++ [(t.compiler.compile (t.submission statements spec) s').1], spec,
        (t.compiler.compile (t.submission statements spec) s').1, ?_, by simp, rfl⟩
      rw [← h.submitted_eq] at hbefore
      rw [submitted_attempt, ← submitted, Compiler.answers_append, hbefore]
      rfl

end Trials
end Toolchain
end SoliditySession
