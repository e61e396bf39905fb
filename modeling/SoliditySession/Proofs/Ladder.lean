import Mathlib.Data.List.Basic
import SoliditySession.Resolution
/- The trials that a resolution makes: what is submitted, which correction leads from one trial to
the next, and why the last trial is the last. Services are arbitrary, so an answer may depend on
every call made before. -/
namespace SoliditySession

variable {σ : Type}

/-- The answers to submissions made one after another, and the state that they leave. -/
def Compiler.answers (c : Compiler σ) :
    List Submission → σ → List (Except String CompilerOutput) × σ
  | [], s => ([], s)
  | x :: xs, s =>
    let (answer, s) := c.compile x s
    let (answers, s) := c.answers xs s
    (answer :: answers, s)

theorem Compiler.answers_append (c : Compiler σ) (xs : List Submission) (x : Submission) (s : σ) :
    c.answers (xs ++ [x]) s =
      ((c.answers xs s).1 ++ [(c.compile x (c.answers xs s).2).1],
        (c.compile x (c.answers xs s).2).2) := by
  induction xs generalizing s with
  | nil => rfl
  | cons y ys ih => simp only [List.cons_append, answers, ih]

theorem Compiler.length_answers (c : Compiler σ) (xs : List Submission) (s : σ) :
    (c.answers xs s).1.length = xs.length := by
  induction xs generalizing s with
  | nil => rfl
  | cons x xs ih => simp only [answers, List.length_cons, ih]

theorem Diagnostic.firstError?_eq_none_iff {ds : List Diagnostic} :
    firstError? ds = none ↔ ∀ d ∈ ds, d.isError = false := by
  simp [firstError?]

/-- One correction that a diagnostic signals; every other field of the specification stays. -/
inductive Corrects (i : Interpreter) (d : Diagnostic) :
    Correction → ReturnSpec → ReturnSpec → Prop
  | type {spec : ReturnSpec} {t : String} : i.returnFix? d = some (.type t) →
      Corrects i d .returnType spec { spec with returnType := t }
  | noValue {spec : ReturnSpec} : i.returnFix? d = some .noValue →
      Corrects i d .returnType spec { spec with expression := none }
  | mutability {spec : ReturnSpec} : spec.mayMutate = false → i.needsMutation d = true →
      Corrects i d .mutability spec { spec with mayMutate := true }

theorem Correction.corrects_iff {c : Correction} {i : Interpreter} {d : Diagnostic}
    {spec next : ReturnSpec} : c.apply? i d spec = some next ↔ Corrects i d c spec next := by
  constructor
  · intro h
    unfold Correction.apply? at h
    cases c with
    | returnType =>
        cases hf : i.returnFix? d with
        | none => simp [hf] at h
        | some fix =>
            cases fix with
            | type t =>
                obtain rfl : { spec with returnType := t } = next := by simpa [hf] using h
                exact .type hf
            | noValue =>
                obtain rfl : { spec with expression := none } = next := by simpa [hf] using h
                exact .noValue hf
    | mutability =>
        by_cases hm : spec.mayMutate = false ∧ i.needsMutation d = true
        · obtain rfl : { spec with mayMutate := true } = next := by simpa [hm] using h
          exact .mutability hm.1 hm.2
        · cases hs : spec.mayMutate <;> simp_all
  · intro h
    unfold Correction.apply?
    cases h with
    | type hf => simp [hf]
    | noValue hf => simp [hf]
    | mutability hs hn => simp [hs, hn]

theorem Correction.corrects_none_iff {c : Correction} {i : Interpreter} {d : Diagnostic}
    {spec : ReturnSpec} : c.apply? i d spec = none ↔ ∀ next, ¬ Corrects i d c spec next := by
  simp only [Option.eq_none_iff_forall_ne_some, ne_eq, corrects_iff]

/-- What is still to be tried after the corrections made, the latest of them last. -/
def Correction.remaining (made : List Correction) : List Correction :=
  match made.getLast? with
  | none => ladder
  | some .returnType => [.mutability]
  | some .mutability => []

/-- Behind the last correction made stand those that were not tried. -/
theorem Correction.remaining_eq {made tried rest : List Correction}
    (h : ladder = tried ++ rest) (hlast : made.getLast? = tried.getLast?) :
    remaining made = rest := by
  simp only [remaining, hlast]
  cases tried with
  | nil => simpa using h
  | cons c tried =>
      cases tried with
      | nil =>
          obtain ⟨rfl, rfl⟩ : c = .returnType ∧ rest = [.mutability] := by
            simpa [ladder, eq_comm] using h
          rfl
      | cons c' tried =>
          obtain ⟨rfl, rfl, rfl, rfl⟩ :
              c = .returnType ∧ c' = .mutability ∧ tried = [] ∧ rest = [] := by
            simpa [ladder, eq_comm] using h
          rfl

namespace Resolution

theorem attempts_mk (earlier : List Attempt) (last : Attempt) :
    (⟨earlier, last⟩ : Resolution).attempts = earlier ++ [last] := rfl

theorem length_attempts (r : Resolution) : r.attempts.length = r.trial := by
  simp [attempts, trial]

end Resolution

namespace Attempt

@[simp] theorem ofAnswer_unit (options : UnitOptions) (unit : SourceUnit)
    (answer : Except String CompilerOutput) : (ofAnswer options unit answer).unit = unit := by
  cases answer with
  | error text => rfl
  | ok output => simp only [ofAnswer]; split <;> rfl

/-- Whatever a service answers, there is an artifact exactly where no error is listed. -/
theorem ofAnswer_artifact_isSome_iff (options : UnitOptions) (unit : SourceUnit)
    (answer : Except String CompilerOutput) :
    (ofAnswer options unit answer).artifact.isSome ↔
      (ofAnswer options unit answer).error? = none := by
  cases answer with
  | error text => simp [ofAnswer, error?, Diagnostic.firstError?, Diagnostic.ofError,
      Diagnostic.isError]
  | ok output =>
      cases he : Diagnostic.firstError? output.diagnostics with
      | some d => simp [ofAnswer, error?, he]
      | none =>
          cases hc : output.contracts.get? options.contractName with
          | some artifact => simp [ofAnswer, error?, he, hc]
          | none =>
              simp [ofAnswer, error?, he, hc, Diagnostic.firstError?_eq_none_iff,
                Diagnostic.ofError, Diagnostic.isError]

end Attempt

@[simp] theorem SourceUnit.assemble_spec (options : UnitOptions) (spec : ReturnSpec)
    (statements : List Statement) : (assemble options spec statements).spec = spec := rfl

namespace Toolchain
variable (t : Toolchain σ) (statements : List Statement)

/-- What a specification makes the compiler see. -/
def submission (spec : ReturnSpec) : Submission :=
  ⟨t.options.sourceName, (SourceUnit.assemble t.options spec statements).source⟩

/-- What is made of the compiler's answer for a specification. -/
def judged (spec : ReturnSpec) (answer : Except String CompilerOutput) : Attempt :=
  .ofAnswer t.options (.assemble t.options spec statements) answer

@[simp] theorem judged_unit_spec (spec : ReturnSpec) (answer : Except String CompilerOutput) :
    (t.judged statements spec answer).unit.spec = spec := by
  simp [judged]

theorem attempt_eq (spec : ReturnSpec) (s : σ) :
    t.attempt statements spec s =
      (t.judged statements spec (t.compiler.compile (t.submission statements spec) s).1,
        (t.compiler.compile (t.submission statements spec) s).2) := rfl

@[simp] theorem attempt_unit_spec (spec : ReturnSpec) (s : σ) :
    (t.attempt statements spec s).1.unit.spec = spec := t.judged_unit_spec statements spec _

/-- Runs of trials with the corrections that lead from each to the next. Every trial is one call of
the compiler; another is made only after an error that signals the correction. -/
inductive Trials (s : σ) : List Correction → Resolution → σ → Prop
  | first : Trials s [] ⟨[], (t.attempt statements (.guess t.options statements) s).1⟩
      (t.attempt statements (.guess t.options statements) s).2
  | next {made : List Correction} {r : Resolution} {s' : σ} {d : Diagnostic} {c : Correction}
      {spec : ReturnSpec} : Trials s made r s' → r.last.error? = some d →
      Corrects t.interpreter d c r.last.unit.spec spec →
      Trials s (made ++ [c]) ⟨r.attempts, (t.attempt statements spec s').1⟩
        (t.attempt statements spec s').2

namespace Trials
variable {t statements} {s s' : σ} {made : List Correction} {r : Resolution}

theorem length_attempts (h : t.Trials statements s made r s') :
    r.attempts.length = made.length + 1 := by
  induction h with
  | first => rfl
  | next h hd hc ih => simp only [Resolution.attempts_mk, List.length_append, ih,
      List.length_singleton]

theorem head_spec (h : t.Trials statements s made r s') :
    (r.attempts.map (·.unit.spec)).head? = some (.guess t.options statements) := by
  induction h with
  | first => simp [Resolution.attempts_mk]
  | next h hd hc ih =>
      rw [Resolution.attempts_mk, List.map_append, List.head?_append, ih]
      rfl

/-- The calls made are those of the attempts, in order, and every attempt is made of its answer. -/
theorem answered (h : t.Trials statements s made r s') :
    ∃ answers, t.compiler.answers
        ((r.attempts.map (·.unit.spec)).map (t.submission statements)) s = (answers, s') ∧
      r.attempts = (r.attempts.map (·.unit.spec)).zipWith (t.judged statements) answers := by
  induction h with
  | first =>
      let spec := ReturnSpec.guess t.options statements
      refine ⟨[(t.compiler.compile (t.submission statements spec) s).1], ?_, ?_⟩
      · simp only [Resolution.attempts_mk, List.nil_append, List.map_cons, List.map_nil,
          attempt_unit_spec, Compiler.answers]
        rfl
      · simp only [Resolution.attempts_mk, List.nil_append, List.map_cons, List.map_nil,
          attempt_unit_spec]
        rfl
  | @next made r s' d c spec h hd hc ih =>
      obtain ⟨answers, hs, hr⟩ := ih
      have hlen : (r.attempts.map (·.unit.spec)).length = answers.length := by
        have := t.compiler.length_answers
          ((r.attempts.map (·.unit.spec)).map (t.submission statements)) s
        simpa only [hs, List.length_map] using this.symm
      refine ⟨answers ++ [(t.compiler.compile (t.submission statements spec) s').1], ?_, ?_⟩
      · simp only [Resolution.attempts_mk, List.map_append, List.map_cons, List.map_nil,
          attempt_unit_spec, Compiler.answers_append, hs]
        rfl
      · simp only [Resolution.attempts_mk, List.map_append, List.map_cons, List.map_nil,
          attempt_unit_spec]
        rw [List.zipWith_append hlen, ← hr]
        rfl

/-- Each trial but the last has an error that signals what the next one changes. -/
theorem linked (h : t.Trials statements s made r s') {n : Nat} {a b : Attempt}
    (ha : r.attempts[n]? = some a) (hb : r.attempts[n + 1]? = some b) :
    ∃ d c, a.error? = some d ∧ made[n]? = some c ∧
      Corrects t.interpreter d c a.unit.spec b.unit.spec := by
  induction h generalizing a b with
  | first => simp [Resolution.attempts_mk] at hb
  | @next made r s' d c spec h hd hc ih =>
      rw [Resolution.attempts_mk] at ha hb
      have hlen := h.length_attempts
      have hn : n + 1 < r.attempts.length + 1 := by
        simpa using (List.getElem?_eq_some_iff.1 hb).1
      rw [List.getElem?_append_left (by omega)] at ha
      by_cases hlast : n + 1 < r.attempts.length
      · rw [List.getElem?_append_left hlast] at hb
        obtain ⟨d, c, hd, hm, hc⟩ := ih ha hb
        exact ⟨d, c, hd, by rw [List.getElem?_append_left (by omega), hm], hc⟩
      · obtain rfl : n = made.length := by omega
        obtain rfl : (t.attempt statements spec s').1 = b := by simpa [← hlen] using hb
        have hearlier : made.length = r.earlier.length := by
          simpa [Resolution.attempts] using hlen.symm
        obtain rfl : r.last = a := by simpa [Resolution.attempts, hearlier] using ha
        exact ⟨d, c, hd, by simp, by simpa using hc⟩

theorem artifact_isSome_iff (h : t.Trials statements s made r s') :
    r.last.artifact.isSome ↔ ∀ d ∈ r.last.diagnostics, d.severity ≠ .error := by
  have hjudged : ∃ spec answer, r.last = t.judged statements spec answer := by
    cases h with
    | first => exact ⟨_, _, rfl⟩
    | next => exact ⟨_, _, rfl⟩
  obtain ⟨spec, answer, hlast⟩ := hjudged
  rw [hlast, judged, Attempt.ofAnswer_artifact_isSome_iff, Attempt.error?,
    Diagnostic.firstError?_eq_none_iff]
  simp [Diagnostic.isError]

end Trials

/-- What a rung of the ladder finds: no error, an error that signals its correction, or an error to
be left to the rungs behind it. -/
inductive Rung (i : Interpreter) (c : Correction) (a : Attempt) : Prop
  | accepted : a.error? = none → Rung i c a
  | corrected {d : Diagnostic} {spec : ReturnSpec} : a.error? = some d →
      Corrects i d c a.unit.spec spec → Rung i c a
  | passed {d : Diagnostic} : a.error? = some d → (∀ spec, ¬ Corrects i d c a.unit.spec spec) →
      Rung i c a

theorem rung (i : Interpreter) (c : Correction) (a : Attempt) : Rung i c a := by
  cases hd : a.error? with
  | none => exact .accepted hd
  | some d =>
      cases hc : c.apply? i d a.unit.spec with
      | none => exact .passed hd (Correction.corrects_none_iff.1 hc)
      | some spec => exact .corrected hd (Correction.corrects_iff.1 hc)

theorem climb_of_no_error {cs : List Correction} {r : Resolution} (h : r.last.error? = none)
    (s : σ) : t.climb statements cs r s = (r, s) := by
  cases cs with
  | nil => rfl
  | cons c cs => simp only [climb, h]

theorem climb_of_corrects {c : Correction} {cs : List Correction} {r : Resolution} {d : Diagnostic}
    {spec : ReturnSpec} (hd : r.last.error? = some d)
    (hc : Corrects t.interpreter d c r.last.unit.spec spec) (s : σ) :
    t.climb statements (c :: cs) r s = t.climb statements cs
      ⟨r.attempts, (t.attempt statements spec s).1⟩ (t.attempt statements spec s).2 := by
  simp only [climb, hd, Correction.corrects_iff.2 hc]

theorem climb_of_not_corrects {c : Correction} {cs : List Correction} {r : Resolution}
    {d : Diagnostic} (hd : r.last.error? = some d)
    (hc : ∀ spec, ¬ Corrects t.interpreter d c r.last.unit.spec spec) (s : σ) :
    t.climb statements (c :: cs) r s = t.climb statements cs r s := by
  simp only [climb, hd, Correction.corrects_none_iff.2 hc]

/-- From where a run stands, the ladder is climbed by some of its corrections in order, up to an
error that signals none of those behind the last one made. `skipped` are the corrections that the
error at hand is known not to signal. -/
theorem climb_trials {s s' : σ} {made : List Correction} {r : Resolution}
    (skipped cs : List Correction) (h : t.Trials statements s made r s')
    (hskip : ∀ d, r.last.error? = some d → ∀ c ∈ skipped, ∀ spec,
      ¬ Corrects t.interpreter d c r.last.unit.spec spec) :
    ∃ more tried rest, skipped ++ cs = tried ++ rest ∧ more.Sublist tried ∧
      more.getLast? = tried.getLast? ∧
      t.Trials statements s (made ++ more) (t.climb statements cs r s').1
        (t.climb statements cs r s').2 ∧
      ∀ d, (t.climb statements cs r s').1.last.error? = some d → ∀ c ∈ rest, ∀ spec,
        ¬ Corrects t.interpreter d c (t.climb statements cs r s').1.last.unit.spec spec := by
  induction cs generalizing made r s' skipped with
  | nil =>
      refine ⟨[], [], skipped, by simp, .slnil, rfl, ?_, hskip⟩
      simpa only [List.append_nil, climb] using h
  | cons c cs ih =>
      cases rung t.interpreter c r.last with
      | accepted hd =>
          rw [t.climb_of_no_error statements hd]
          refine ⟨[], [], skipped ++ c :: cs, rfl, .slnil, rfl, by simpa using h, ?_⟩
          intro d hd'
          simp [hd] at hd'
      | corrected hd hc =>
          obtain ⟨more, tried, rest, rfl, hsub, hlast, htrials, hstop⟩ :=
            ih [] (h.next hd hc) (by simp)
          rw [t.climb_of_corrects statements hd hc]
          refine ⟨c :: more, skipped ++ c :: tried, rest, by simp, ?_, ?_, ?_, hstop⟩
          · exact (hsub.cons_cons c).trans (List.sublist_append_right _ _)
          · simp [List.getLast?_cons, hlast]
          · simpa using htrials
      | passed hd hc =>
          rw [t.climb_of_not_corrects statements hd hc, List.append_cons]
          refine ih (skipped ++ [c]) h ?_
          intro d hd' c' hc'
          rcases List.mem_append.1 hc' with hc' | hc'
          · exact hskip d hd' c' hc'
          · obtain rfl := List.mem_singleton.1 hc'
            obtain rfl := Option.some.inj (hd.symm.trans hd')
            exact hc

theorem resolve_trials (s : σ) :
    ∃ made, made.Sublist Correction.ladder ∧
      t.Trials statements s made (t.resolve statements s).1 (t.resolve statements s).2 ∧
      ∀ d, (t.resolve statements s).1.last.error? = some d → ∀ c ∈ Correction.remaining made,
        ∀ spec, ¬ Corrects t.interpreter d c (t.resolve statements s).1.last.unit.spec spec := by
  obtain ⟨made, tried, rest, hladder, hsub, hlast, htrials, hstop⟩ :=
    t.climb_trials statements [] Correction.ladder (Trials.first (s := s)) (by simp)
  rw [List.nil_append] at hladder
  refine ⟨made, ?_, htrials, ?_⟩
  · rw [hladder]
    exact hsub.trans (List.sublist_append_left tried rest)
  · rw [Correction.remaining_eq hladder hlast]
    exact hstop

/-- A resolution is one to three calls of the compiler, however its answers come about. The units
submitted start from the guess, and each next specification is the one before it after a single
correction that its trial's first error signals; the corrections made keep the order of the ladder.
The run ends without an error or with one that signals nothing still to be tried, and its last
attempt holds an artifact exactly if it lists no error. -/
theorem resolve_ladder (s : σ) :
    ∃ (specs : List ReturnSpec) (answers : List (Except String CompilerOutput))
      (made : List Correction),
      t.compiler.answers (specs.map (t.submission statements)) s =
        (answers, (t.resolve statements s).2) ∧
      (t.resolve statements s).1.attempts = specs.zipWith (t.judged statements) answers ∧
      specs.length = (t.resolve statements s).1.trial ∧
      answers.length = (t.resolve statements s).1.trial ∧
      1 ≤ (t.resolve statements s).1.trial ∧ (t.resolve statements s).1.trial ≤ 3 ∧
      (t.resolve statements s).1.attempts[(t.resolve statements s).1.trial - 1]? =
        some (t.resolve statements s).1.last ∧
      specs.head? = some (.guess t.options statements) ∧
      made.Sublist [.returnType, .mutability] ∧
      (t.resolve statements s).1.trial = made.length + 1 ∧
      (∀ n spec next, specs[n]? = some spec → specs[n + 1]? = some next →
        ∃ a d c, (t.resolve statements s).1.attempts[n]? = some a ∧ a.error? = some d ∧
          made[n]? = some c ∧ Corrects t.interpreter d c spec next) ∧
      (∀ d, (t.resolve statements s).1.last.error? = some d → ∀ c ∈ Correction.remaining made,
        ∀ next, ¬ Corrects t.interpreter d c (t.resolve statements s).1.last.unit.spec next) ∧
      ((t.resolve statements s).1.last.artifact.isSome ↔
        ∀ d ∈ (t.resolve statements s).1.last.diagnostics, d.severity ≠ .error) := by
  obtain ⟨made, hsub, htrials, hstop⟩ := t.resolve_trials statements s
  obtain ⟨answers, hanswers, hattempts⟩ := htrials.answered
  generalize (t.resolve statements s).1 = r at *
  generalize (t.resolve statements s).2 = s' at *
  have htrial : r.trial = made.length + 1 := by rw [← r.length_attempts, htrials.length_attempts]
  have hmade : made.length ≤ 2 := hsub.length_le
  refine ⟨r.attempts.map (·.unit.spec), answers, made, hanswers, hattempts, ?_, ?_, by omega,
    by omega, ?_, htrials.head_spec, hsub, htrial, ?_, hstop, htrials.artifact_isSome_iff⟩
  · rw [List.length_map, r.length_attempts]
  · have := t.compiler.length_answers
      ((r.attempts.map (·.unit.spec)).map (t.submission statements)) s
    rw [hanswers] at this
    rw [this, List.length_map, List.length_map, r.length_attempts]
  · simp [Resolution.attempts, Resolution.trial]
  · intro n spec next hspec hnext
    rw [List.getElem?_map, Option.map_eq_some_iff] at hspec hnext
    obtain ⟨a, ha, rfl⟩ := hspec
    obtain ⟨b, hb, rfl⟩ := hnext
    obtain ⟨d, c, hd, hm, hc⟩ := htrials.linked ha hb
    exact ⟨a, d, c, ha, hd, hm, hc⟩

end Toolchain
end SoliditySession
