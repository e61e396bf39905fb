import SoliditySession.Proofs.Ladder
import SoliditySession.Proofs.Normalization
import SoliditySession.Shell
/- What the lines of a session have in common. A line enters a session by a turn that compiles and
runs, and leaves it from the end; where the services answer alike whenever they are asked alike,
every beginning of a session still compiles and runs. -/
namespace SoliditySession

variable {σ τ : Type}

/-- The answer depends on the submission alone. -/
def Compiler.Functional (c : Compiler σ) : Prop := ∀ x s s', (c.compile x s).1 = (c.compile x s').1

/-- The result depends on the artifact and the entry point alone. -/
def Executor.Functional (e : Executor τ) : Prop :=
  ∀ a entryPoint x x', (e.run a entryPoint x).1 = (e.run a entryPoint x').1

namespace Toolchain
variable {t : Toolchain σ}

theorem attempt_congr (h : t.compiler.Functional) (statements : List Statement) (spec : ReturnSpec)
    (s s' : σ) : (t.attempt statements spec s).1 = (t.attempt statements spec s').1 := by
  rw [attempt_eq, attempt_eq, h _ s s']

theorem climb_congr (h : t.compiler.Functional) (statements : List Statement)
    (cs : List Correction) (r : Resolution) (s s' : σ) :
    (t.climb statements cs r s).1 = (t.climb statements cs r s').1 := by
  induction cs generalizing r s s' with
  | nil => rfl
  | cons c cs ih =>
      cases rung t.interpreter c r.last with
      | accepted hd => rw [climb_of_no_error _ _ hd, climb_of_no_error _ _ hd]
      | corrected hd hc =>
          rw [climb_of_corrects _ _ hd hc, climb_of_corrects _ _ hd hc,
            attempt_congr h statements _ s s']
          exact ih _ _ _
      | passed hd hc =>
          rw [climb_of_not_corrects _ _ hd hc, climb_of_not_corrects _ _ hd hc]
          exact ih r s s'

theorem resolve_congr (h : t.compiler.Functional) (statements : List Statement) (s s' : σ) :
    (t.resolve statements s).1 = (t.resolve statements s').1 := by
  simp only [resolve]
  rw [attempt_congr h statements _ s s']
  exact climb_congr h statements _ _ _ _

theorem compileAll_texts (t : Toolchain σ) {statements : List Statement}
    (h : ∀ x ∈ statements, Statement.ofRaw x.text = x) (s : σ) :
    t.compileAll (statements.map (·.text)) s = t.resolve statements s := by
  have hmap : (statements.map (·.text)).map Statement.ofRaw = statements := by
    rw [List.map_map]
    exact (List.map_congr_left h).trans (List.map_id _)
  rw [compileAll, hmap]

theorem error?_eq_none_of_artifact (t : Toolchain σ) (statements : List Statement) {s : σ}
    {a : Artifact} (h : (t.resolve statements s).1.last.artifact = some a) :
    (t.resolve statements s).1.last.error? = none := by
  obtain ⟨made, -, htrials, -⟩ := t.resolve_trials statements s
  rw [Attempt.error?, Diagnostic.firstError?_eq_none_iff]
  intro d hd
  have := htrials.artifact_isSome_iff.1 (by rw [h]; rfl) d hd
  simpa [Diagnostic.isError] using this

end Toolchain

namespace Shell

/-- The trials of a turn. -/
def turn (services : Services σ τ) (line : String) (sh : Shell σ τ) : Resolution × σ :=
  services.toolchain.resolve (sh.session.statements ++ [.ofRaw line]) sh.compilerState

/-- The shell after the trials of a turn, with the session as the turn leaves it. -/
def turned (services : Services σ τ) (line : String) (sh : Shell σ τ) (session : Session) :
    Shell σ τ :=
  { sh with
    session
    compilerState := (sh.turn services line).2
    lastSource := some (sh.turn services line).1.last.unit.source }

/-- All that a turn can do. -/
inductive Turn (services : Services σ τ) (line : String) (sh : Shell σ τ) :
    Outcome → Shell σ τ → Prop
  | compileFailed : (sh.turn services line).1.last.artifact = none →
      Turn services line sh (.compileFailed (compileFailure (sh.turn services line).1.last))
        (sh.turned services line sh.session)
  | compiled {a : Artifact} : (sh.turn services line).1.last.artifact = some a →
      services.executor = none →
      Turn services line sh (.compiled (compiledType (sh.turn services line).1.last.unit.spec))
        (sh.turned services line (sh.session.push (.ofRaw line)))
  | value {a : Artifact} {e : Executor τ} {v : Value} {x : τ} :
      (sh.turn services line).1.last.artifact = some a → services.executor = some e →
      e.run a services.toolchain.options.entryPoint sh.executorState = (.ok (some v), x) →
      Turn services line sh (.value v)
        { sh.turned services line (sh.session.push (.ofRaw line)) with executorState := x }
  | noValue {a : Artifact} {e : Executor τ} {x : τ} :
      (sh.turn services line).1.last.artifact = some a → services.executor = some e →
      e.run a services.toolchain.options.entryPoint sh.executorState = (.ok none, x) →
      Turn services line sh .noValue
        { sh.turned services line (sh.session.push (.ofRaw line)) with executorState := x }
  | execFailed {a : Artifact} {e : Executor τ} {text : String} {x : τ} :
      (sh.turn services line).1.last.artifact = some a → services.executor = some e →
      e.run a services.toolchain.options.entryPoint sh.executorState = (.error text, x) →
      Turn services line sh (.execFailed text)
        { sh.turned services line sh.session with executorState := x }

theorem dropLast_push (s : Session) (x : Statement) : (s.push x).dropLast = s := by
  simp [Session.push, Session.dropLast]

theorem eval_eq (services : Services σ τ) (line : String) (sh : Shell σ τ) :
    sh.eval services line =
      match (sh.turn services line).1.last.artifact, services.executor with
      | none, _ => (.compileFailed (compileFailure (sh.turn services line).1.last),
          sh.turned services line sh.session)
      | some _, none => (.compiled (compiledType (sh.turn services line).1.last.unit.spec),
          sh.turned services line (sh.session.push (.ofRaw line)))
      | some a, some e => run e services.toolchain.options.entryPoint a
          (sh.turned services line (sh.session.push (.ofRaw line))) := by
  cases ha : (sh.turn services line).1.last.artifact with
  | none =>
      simp only [turn] at ha
      simp only [eval, Session.submit, Session.push, ha, turned, turn]
      rfl
  | some a =>
      simp only [turn] at ha
      simp only [eval, Session.submit, Session.push, ha, turned, turn]
      cases services.executor with
      | none => rfl
      | some e => rfl

theorem eval_turn (services : Services σ τ) (line : String) (sh : Shell σ τ) :
    Turn services line sh (sh.eval services line).1 (sh.eval services line).2 := by
  rw [eval_eq]
  cases ha : (sh.turn services line).1.last.artifact with
  | none => exact .compileFailed ha
  | some a =>
      cases he : services.executor with
      | none => exact .compiled ha he
      | some e =>
          cases hrun : e.run a services.toolchain.options.entryPoint sh.executorState with
          | mk result x =>
              have hturned : (sh.turned services line
                  (sh.session.push (.ofRaw line))).executorState = sh.executorState := rfl
              simp only [run, hturned, hrun]
              cases result with
              | ok v =>
                  cases v with
                  | some v => exact .value ha he hrun
                  | none => exact .noValue ha he hrun
              | error text =>
                  have hundo : (sh.turned services line
                      (sh.session.push (.ofRaw line))).session.dropLast = sh.session :=
                    dropLast_push _ _
                  simp only [hundo]
                  exact .execFailed ha he hrun

/-- What a user does to a session. -/
inductive Action
  | eval (line : String)
  | pop
  | reset

def act (services : Services σ τ) (sh : Shell σ τ) : Action → Shell σ τ
  | .eval line => (sh.eval services line).2
  | .pop => sh.pop.2
  | .reset => sh.reset

def actAll (services : Services σ τ) (sh : Shell σ τ) (actions : List Action) : Shell σ τ :=
  actions.foldl (act services) sh

end Shell

/-- The statements compile to an artifact, which runs. -/
def Services.Accepts (services : Services σ τ) (p : List Statement) : Prop :=
  ∃ a, (∀ s, (services.toolchain.resolve p s).1.last.artifact = some a) ∧
    ∀ e ∈ services.executor, ∀ x, ∃ v,
      (e.run a services.toolchain.options.entryPoint x).1 = .ok v

/-- Every beginning of the statements is accepted, and they all come from the lines given. -/
structure Session.Sound (services : Services σ τ) (lines : List String) (s : Session) : Prop where
  accepted : ∀ p, p <+: s.statements → p ≠ [] → services.Accepts p
  given : ∀ x ∈ s.statements, ∃ raw ∈ lines, x = .ofRaw raw

namespace Session.Sound
variable {services : Services σ τ} {lines : List String} {s : Session}

theorem new : Session.Sound services lines .new :=
  ⟨fun _ hp hne => absurd (List.prefix_nil.1 hp) hne, fun _ hx => nomatch hx⟩

theorem mono (h : s.Sound services lines) (line : String) :
    s.Sound services (lines ++ [line]) := by
  refine ⟨h.accepted, ?_⟩
  intro x hx
  obtain ⟨raw, hraw, rfl⟩ := h.given x hx
  exact ⟨raw, List.mem_append_left _ hraw, rfl⟩

theorem dropLast (h : s.Sound services lines) : s.dropLast.Sound services lines := by
  refine ⟨?_, ?_⟩
  · intro p hp hne
    exact h.accepted p (hp.trans (List.dropLast_prefix s.statements)) hne
  · intro x hx
    exact h.given x (List.dropLast_subset _ hx)

theorem push (h : s.Sound services lines) (line : String)
    (ha : services.Accepts (s.statements ++ [.ofRaw line])) :
    (s.push (.ofRaw line)).Sound services (lines ++ [line]) := by
  refine ⟨?_, ?_⟩
  · intro p hp hne
    rcases List.prefix_concat_iff.1 hp with rfl | hp
    · exact ha
    · exact h.accepted p hp hne
  · intro x hx
    rcases List.mem_append.1 hx with hx | hx
    · exact (h.mono line).given x hx
    · exact ⟨line, by simp, List.mem_singleton.1 hx⟩

end Session.Sound

namespace Shell
variable {services : Services σ τ}

/-- A turn keeps a session sound: it leaves the session as it is unless the compiled line ran. -/
theorem sound_eval (hc : services.toolchain.compiler.Functional)
    (he : ∀ e ∈ services.executor, e.Functional) {lines : List String} {sh : Shell σ τ}
    (h : sh.session.Sound services lines) (line : String) :
    (sh.eval services line).2.session.Sound services (lines ++ [line]) := by
  have hturn := sh.eval_turn services line
  generalize (sh.eval services line).1 = outcome at hturn
  generalize (sh.eval services line).2 = sh' at hturn ⊢
  have hartifact : ∀ a, (sh.turn services line).1.last.artifact = some a → ∀ s,
      (services.toolchain.resolve (sh.session.statements ++ [.ofRaw line]) s).1.last.artifact =
        some a := by
    intro a ha s
    rw [Toolchain.resolve_congr hc _ s sh.compilerState]
    exact ha
  have hpush : ∀ a e v x, (sh.turn services line).1.last.artifact = some a →
      services.executor = some e →
      e.run a services.toolchain.options.entryPoint sh.executorState = (.ok v, x) →
      (sh.session.push (.ofRaw line)).Sound services (lines ++ [line]) := by
    intro a e v x ha hexec hrun
    refine h.push line ⟨a, hartifact a ha, ?_⟩
    intro e' he' x'
    obtain rfl : e = e' := Option.some.inj (hexec.symm.trans he')
    exact ⟨v, by rw [he e he' a _ x' sh.executorState, hrun]⟩
  cases hturn with
  | compileFailed => exact h.mono line
  | compiled ha hexec =>
      refine h.push line ⟨_, hartifact _ ha, ?_⟩
      intro e he'
      rw [hexec] at he'
      cases he'
  | value ha hexec hrun => exact hpush _ _ _ _ ha hexec hrun
  | noValue ha hexec hrun => exact hpush _ _ _ _ ha hexec hrun
  | execFailed => exact h.mono line

/-- The lines given for evaluation, in order. -/
def Action.lines : List Action → List String
  | [] => []
  | .eval line :: r => line :: lines r
  | .pop :: r => lines r
  | .reset :: r => lines r

theorem sound_actAll (hc : services.toolchain.compiler.Functional)
    (he : ∀ e ∈ services.executor, e.Functional) {lines : List String} {sh : Shell σ τ}
    (h : sh.session.Sound services lines) (actions : List Action) :
    (sh.actAll services actions).session.Sound services (lines ++ Action.lines actions) := by
  induction actions generalizing sh lines with
  | nil => simpa [actAll, Action.lines] using h
  | cons action actions ih =>
      cases action with
      | eval line =>
          have hrest := ih (sound_eval hc he h line)
          rwa [List.append_assoc] at hrest
      | pop => exact ih h.dropLast
      | reset => exact ih .new

/-- Whatever is evaluated, dropped and reset, every beginning of the session compiles to one
artifact, also when its texts are given anew as raw lines, and the artifact runs; and every
statement in it is the normal form of a line given, which normalizing keeps and which has the role
it had then. -/
theorem session_prefix_accepted (services : Services σ τ)
    (hc : services.toolchain.compiler.Functional) (he : ∀ e ∈ services.executor, e.Functional)
    (s : σ) (x : τ) (actions : List Action) (p : List Statement)
    (hp : p <+: (actAll services (.new s x) actions).session.statements) (hne : p ≠ []) :
    (∃ a, (∀ s', (services.toolchain.resolve p s').1.last.artifact = some a) ∧
      (∀ s', (services.toolchain.compileAll (p.map (·.text)) s').1.last.error? = none ∧
        (services.toolchain.compileAll (p.map (·.text)) s').1.last.artifact = some a) ∧
      ∀ e ∈ services.executor, ∀ x', ∃ v,
        (e.run a services.toolchain.options.entryPoint x').1 = .ok v) ∧
      ∀ y ∈ p, normalizeTerminator y.text = y.text ∧
        ∃ raw ∈ Action.lines actions, y = .ofRaw raw ∧
          (Statement.ofRaw y.text).role = (Statement.ofRaw raw).role := by
  have hnew : (Shell.new s x).session.Sound services [] := Session.Sound.new
  have hsound := sound_actAll hc he hnew actions
  have hgiven : ∀ y ∈ p, ∃ raw ∈ Action.lines actions, y = .ofRaw raw := by
    intro y hy
    simpa using hsound.given y (hp.subset hy)
  have hagain : ∀ y ∈ p, Statement.ofRaw y.text = y := by
    intro y hy
    obtain ⟨raw, -, rfl⟩ := hgiven y hy
    exact Statement.ofRaw_text_ofRaw raw
  obtain ⟨a, ha, hrun⟩ := hsound.accepted p hp hne
  refine ⟨⟨a, ha, ?_, hrun⟩, ?_⟩
  · intro s'
    rw [Toolchain.compileAll_texts _ hagain]
    exact ⟨Toolchain.error?_eq_none_of_artifact _ _ (ha s'), ha s'⟩
  · intro y hy
    obtain ⟨raw, hraw, rfl⟩ := hgiven y hy
    exact ⟨normalizeTerminator_idem raw, raw, hraw, rfl, by rw [Statement.ofRaw_text_ofRaw]⟩

/-- A compiler that counts its calls and accepts every unit, with a node that runs every artifact.
-/
def acceptingServices : Services Nat Unit where
  toolchain :=
    ⟨⟨fun _ n => (.ok ⟨[], .ofList [("Main", ⟨"Main", [], "", .empty⟩)]⟩, n + 1)⟩, .solidity, {}⟩
  executor := some ⟨fun _ _ x => (.ok none, x)⟩

theorem session_prefix_accepted_after_pop :
    acceptingServices.toolchain.compiler.Functional ∧
      (∀ e ∈ acceptingServices.executor, e.Functional) ∧
      [Statement.ofRaw "uint x = 1"] <+: (actAll acceptingServices (.new 0 ())
        [.eval "new C()", .reset, .eval "uint x = 1", .eval "x++", .pop]).session.statements ∧
      (∃ a, (∀ s', (acceptingServices.toolchain.resolve [.ofRaw "uint x = 1"] s').1.last.artifact =
          some a) ∧
        (∀ s', (acceptingServices.toolchain.compileAll ["uint x = 1;"] s').1.last.error? = none ∧
          (acceptingServices.toolchain.compileAll ["uint x = 1;"] s').1.last.artifact = some a) ∧
        ∀ e ∈ acceptingServices.executor, ∀ x', ∃ v, (e.run a "exec" x').1 = .ok v) ∧
      normalizeTerminator "uint x = 1;" = "uint x = 1;" := by
  have hc : acceptingServices.toolchain.compiler.Functional := fun _ _ _ => rfl
  have he : ∀ e ∈ acceptingServices.executor, e.Functional := by
    intro e he
    obtain rfl := Option.some.inj he
    exact fun _ _ _ _ => rfl
  have hp : [Statement.ofRaw "uint x = 1"] <+: (actAll acceptingServices (.new 0 ())
      [.eval "new C()", .reset, .eval "uint x = 1", .eval "x++", .pop]).session.statements := by
    decide +kernel
  have htext : (Statement.ofRaw "uint x = 1").text = "uint x = 1;" := by decide +kernel
  have h := session_prefix_accepted acceptingServices hc he 0 () _ _ hp (List.cons_ne_nil _ _)
  rw [List.map_singleton, htext] at h
  refine ⟨hc, he, hp, h.1, ?_⟩
  rw [← htext]
  exact (h.2 _ (List.mem_singleton_self _)).1

end Shell
end SoliditySession
