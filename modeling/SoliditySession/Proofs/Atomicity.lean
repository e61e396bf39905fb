import SoliditySession.Proofs.Acceptance
import SoliditySession.Proofs.Recording
/- What one turn changes: all that an accepted line brings, or nothing of the session. Services are
arbitrary; what they are asked during the turn is noted. -/
namespace SoliditySession.Shell

variable {σ τ : Type}

/-- The shell with notes beside the states of its services. -/
def noting (sh : Shell σ τ) (submissions : List Submission) (runs : List (Artifact × String)) :
    Shell (σ × List Submission) (τ × List (Artifact × String)) where
  session := sh.session
  lastSource := sh.lastSource
  compilerState := (sh.compilerState, submissions)
  executorState := (sh.executorState, runs)

@[simp] theorem noting_session (sh : Shell σ τ) (submissions : List Submission)
    (runs : List (Artifact × String)) : (sh.noting submissions runs).session = sh.session := rfl

/-- The runs of a turn: of the last attempt's artifact, if it has one and there is an executor. -/
def runs (services : Services σ τ) (line : String) (sh : Shell σ τ) : List (Artifact × String) :=
  match (sh.turn services line).1.last.artifact, services.executor with
  | some a, some _ => [(a, services.toolchain.options.entryPoint)]
  | _, _ => []

section
variable (services : Services σ τ) (line : String) (sh : Shell σ τ)
  (submissions : List Submission) (earlier : List (Artifact × String))

theorem turn_recorded :
    (sh.noting submissions earlier).turn services.recorded line =
      ((sh.turn services line).1, (sh.turn services line).2,
        submissions ++ services.toolchain.submitted (sh.turn services line).1) :=
  services.toolchain.resolve_recorded _ _ _

theorem turned_recorded (session : Session) :
    (sh.noting submissions earlier).turned services.recorded line session =
      (sh.turned services line session).noting
        (submissions ++ services.toolchain.submitted (sh.turn services line).1) earlier := by
  rw [turned, turn_recorded]
  rfl

theorem run_recorded (e : Executor τ) (entryPoint : String) (a : Artifact) :
    run e.recorded entryPoint a (sh.noting submissions earlier) =
      ((run e entryPoint a sh).1,
        (run e entryPoint a sh).2.noting submissions (earlier ++ [(a, entryPoint)])) := by
  rcases h : e.run a entryPoint sh.executorState with ⟨result, x⟩
  have hrecorded : e.recorded.run a entryPoint (sh.executorState, earlier) =
      (result, x, earlier ++ [(a, entryPoint)]) := by
    simp only [Executor.recorded, recording, h]
  simp only [run, noting, h, hrecorded]
  rcases result with text | _ | v <;> rfl

/-- Noting changes nothing else. -/
theorem eval_recorded :
    (sh.noting submissions earlier).eval services.recorded line =
      ((sh.eval services line).1, (sh.eval services line).2.noting
        (submissions ++ services.toolchain.submitted (sh.turn services line).1)
        (earlier ++ sh.runs services line)) := by
  rw [eval_eq, eval_eq, turn_recorded]
  simp only [turned_recorded, noting_session, runs]
  cases ha : (sh.turn services line).1.last.artifact with
  | none => simp only [List.append_nil]
  | some a =>
      cases he : services.executor with
      | none =>
          have hrecorded : services.recorded.executor = none := by simp [Services.recorded, he]
          simp only [hrecorded, List.append_nil]
      | some e =>
          have hrecorded : services.recorded.executor = some e.recorded := by
            simp [Services.recorded, he]
          simp only [hrecorded]
          exact run_recorded _ _ _ e _ a

end

/-- The last of the answers to these submissions makes an attempt for the statements that lists no
error and holds the artifact. -/
def Compiles (t : Toolchain σ) (statements : List Statement) (s : σ)
    (submissions : List Submission) (a : Artifact) : Prop :=
  ∃ spec answer, (t.compiler.answers submissions s).1.getLast? = some answer ∧
    (t.judged statements spec answer).artifact = some a ∧
    ∀ d ∈ (t.judged statements spec answer).diagnostics, d.severity ≠ .error

/-- What one turn may do: it keeps the session or adds the one line; it makes one to three
submissions, of which the last is remembered; and it runs nothing, or once what an attempt without
an error for the old statements and the new one yields. -/
structure Atomic (services : Services σ τ) (line : String) (sh : Shell σ τ) (outcome : Outcome)
    (sh' : Shell σ τ) (submissions : List Submission) (runs : List (Artifact × String)) : Prop where
  kept : outcome.isFailure = true → sh'.session = sh.session
  added : outcome.isFailure = false →
    sh'.session.statements = sh.session.statements ++ [⟨normalizeTerminator line⟩]
  tried : 1 ≤ submissions.length ∧ submissions.length ≤ 3
  asked : (services.toolchain.compiler.answers submissions sh.compilerState).2 = sh'.compilerState
  remembered : ∃ x, submissions.getLast? = some x ∧ sh'.lastSource = some x.source
  ran : runs = [] ∧ sh'.executorState = sh.executorState ∨
    ∃ a e, runs = [(a, services.toolchain.options.entryPoint)] ∧ services.executor = some e ∧
      sh'.executorState = (e.run a services.toolchain.options.entryPoint sh.executorState).2 ∧
      Compiles services.toolchain (sh.session.statements ++ [⟨normalizeTerminator line⟩])
        sh.compilerState submissions a

section
variable {services : Services σ τ} {line : String} {sh : Shell σ τ}

theorem runs_of_artifact {a : Artifact} {e : Executor τ}
    (ha : (sh.turn services line).1.last.artifact = some a) (he : services.executor = some e) :
    sh.runs services line = [(a, services.toolchain.options.entryPoint)] := by
  simp only [runs, ha, he]

theorem runs_of_no_artifact (ha : (sh.turn services line).1.last.artifact = none) :
    sh.runs services line = [] := by
  simp only [runs, ha]

theorem runs_of_no_executor (he : services.executor = none) : sh.runs services line = [] := by
  cases ha : (sh.turn services line).1.last.artifact with
  | none => exact runs_of_no_artifact ha
  | some a => simp only [runs, ha, he]

end

section
variable (services : Services σ τ) (line : String) (sh : Shell σ τ)

/-- A turn makes the submissions of its attempts, one to three. -/
theorem turn_tried :
    (services.toolchain.compiler.answers
        (services.toolchain.submitted (sh.turn services line).1) sh.compilerState).2 =
      (sh.turn services line).2 ∧
    1 ≤ (services.toolchain.submitted (sh.turn services line).1).length ∧
    (services.toolchain.submitted (sh.turn services line).1).length ≤ 3 := by
  obtain ⟨made, hsub, htrials, -⟩ :=
    services.toolchain.resolve_trials (sh.session.statements ++ [.ofRaw line]) sh.compilerState
  obtain ⟨answers, -, -, hanswers, -⟩ := htrials.last_answer
  have hlength : (services.toolchain.submitted (sh.turn services line).1).length =
      made.length + 1 := by
    rw [Toolchain.length_submitted, ← Resolution.length_attempts]
    exact htrials.length_attempts
  have hmade : made.length ≤ 2 := hsub.length_le
  refine ⟨congrArg Prod.snd hanswers, ?_⟩
  omega

theorem turn_compiles {a : Artifact} (ha : (sh.turn services line).1.last.artifact = some a) :
    Compiles services.toolchain (sh.session.statements ++ [⟨normalizeTerminator line⟩])
      sh.compilerState (services.toolchain.submitted (sh.turn services line).1) a := by
  obtain ⟨made, -, htrials, -⟩ :=
    services.toolchain.resolve_trials (sh.session.statements ++ [.ofRaw line]) sh.compilerState
  obtain ⟨answers, spec, answer, hanswers, hanswer, hlast⟩ := htrials.last_answer
  have hnoError := htrials.artifact_isSome_iff.1 (Option.isSome_iff_exists.2 ⟨a, ha⟩)
  rw [turn, hlast] at ha
  rw [hlast] at hnoError
  exact ⟨spec, answer, (congrArg (·.1.getLast?) hanswers).trans hanswer, ha, hnoError⟩

/-- A turn changes the session by its whole line or not at all, wherever it fails. -/
theorem eval_atomic :
    ∃ submissions runs, (sh.noting [] []).eval services.recorded line =
        ((sh.eval services line).1, (sh.eval services line).2.noting submissions runs) ∧
      Atomic services line sh (sh.eval services line).1 (sh.eval services line).2 submissions
        runs := by
  refine ⟨_, _, eval_recorded services line sh [] [], ?_⟩
  obtain ⟨hasked, htried⟩ := turn_tried services line sh
  have hlast := services.toolchain.getLast?_submitted (sh.turn services line).1
  have hturn := sh.eval_turn services line
  generalize (sh.eval services line).1 = outcome at hturn ⊢
  generalize (sh.eval services line).2 = sh' at hturn ⊢
  simp only [List.nil_append]
  cases hturn with
  | compileFailed ha =>
      rw [runs_of_no_artifact ha]
      exact ⟨fun _ => rfl, nofun, htried, hasked, ⟨_, hlast, rfl⟩, .inl ⟨rfl, rfl⟩⟩
  | compiled ha he =>
      rw [runs_of_no_executor he]
      exact ⟨nofun, fun _ => rfl, htried, hasked, ⟨_, hlast, rfl⟩, .inl ⟨rfl, rfl⟩⟩
  | value ha he hrun =>
      rw [runs_of_artifact ha he]
      exact ⟨nofun, fun _ => rfl, htried, hasked, ⟨_, hlast, rfl⟩,
        .inr ⟨_, _, rfl, he, by rw [hrun], turn_compiles services line sh ha⟩⟩
  | noValue ha he hrun =>
      rw [runs_of_artifact ha he]
      exact ⟨nofun, fun _ => rfl, htried, hasked, ⟨_, hlast, rfl⟩,
        .inr ⟨_, _, rfl, he, by rw [hrun], turn_compiles services line sh ha⟩⟩
  | execFailed ha he hrun =>
      rw [runs_of_artifact ha he]
      exact ⟨fun _ => rfl, nofun, htried, hasked, ⟨_, hlast, rfl⟩,
        .inr ⟨_, _, rfl, he, by rw [hrun], turn_compiles services line sh ha⟩⟩

end
end SoliditySession.Shell
