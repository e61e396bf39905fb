import Mathlib.Logic.Relation
import SoliditySession.Proofs.Discovery
import SoliditySession.Proofs.Recording
/- What a resolution takes from an answer: its first error and its contracts. Two compilers that
agree in these lead it through the same trials, whatever else they list. -/
namespace SoliditySession

variable {σ σ' : Type}

namespace Diagnostic

/-- The second list has one more entry that nothing heeds: a warning or an info anywhere, or any
entry behind an error. -/
inductive Noise : List Diagnostic → List Diagnostic → Prop
  | remark {before after : List Diagnostic} {d : Diagnostic} : d.isError = false →
      Noise (before ++ after) (before ++ d :: after)
  | later {before after : List Diagnostic} {d e : Diagnostic} : e ∈ before → e.isError = true →
      Noise (before ++ after) (before ++ d :: after)

theorem Noise.firstError?_eq {ds ds' : List Diagnostic} (h : Noise ds ds') :
    firstError? ds = firstError? ds' := by
  cases h with
  | remark hd => simp [firstError?, hd]
  | @later before after d e he herror =>
      obtain ⟨first, hfirst⟩ : ∃ first, before.find? (·.isError) = some first :=
        Option.isSome_iff_exists.1 (List.find?_isSome.2 ⟨e, he, herror⟩)
      simp [firstError?, hfirst]

theorem noise_behind {d : Diagnostic} (hd : d.isError = true) (ds : List Diagnostic) :
    Relation.EqvGen Noise (d :: ds) [d] := by
  induction ds with
  | nil => exact .refl _
  | cons e ds ih =>
      have hone : Noise ([d] ++ ds) ([d] ++ e :: ds) := .later (List.mem_singleton_self d) hd
      exact .trans _ _ _ (.symm _ _ (.rel _ _ hone)) ih

/-- Without noise nothing is left but the first error. -/
theorem noise_firstError? (ds : List Diagnostic) :
    Relation.EqvGen Noise ds (firstError? ds).toList := by
  induction ds with
  | nil => exact .refl _
  | cons d ds ih =>
      cases hd : d.isError with
      | true =>
          have hfirst : firstError? (d :: ds) = some d := by simp [firstError?, hd]
          rw [hfirst]
          exact noise_behind hd ds
      | false =>
          have hone : Noise ([] ++ ds) ([] ++ d :: ds) := .remark hd
          have hfirst : firstError? (d :: ds) = firstError? ds := hone.firstError?_eq.symm
          rw [hfirst]
          exact .trans _ _ _ (.symm _ _ (.rel _ _ hone)) ih

/-- Lists with one first error are those that noise leads from one to the other. -/
theorem firstError?_eq_iff {ds ds' : List Diagnostic} :
    firstError? ds = firstError? ds' ↔ Relation.EqvGen Noise ds ds' := by
  constructor
  · intro h
    have hback := noise_firstError? ds'
    rw [← h] at hback
    exact .trans _ _ _ (noise_firstError? ds) (.symm _ _ hback)
  · intro h
    induction h with
    | rel ds ds' h => exact h.firstError?_eq
    | refl ds => rfl
    | symm ds ds' _ ih => exact ih.symm
    | trans ds ds' ds'' _ _ ih ih' => exact ih.trans ih'

end Diagnostic

/-- Both services fail with one text, or both give the same contracts and the same first error. -/
inductive Alike : Except String CompilerOutput → Except String CompilerOutput → Prop
  | failed {text : String} : Alike (.error text) (.error text)
  | answered {a b : CompilerOutput} : a.contracts = b.contracts →
      Diagnostic.firstError? a.diagnostics = Diagnostic.firstError? b.diagnostics →
      Alike (.ok a) (.ok b)

/-- From related states the answers are alike, and related states follow. -/
def Compiler.Tracks (R : σ → σ' → Prop) (c : Compiler σ) (c' : Compiler σ') : Prop :=
  ∀ x s s', R s s' → Alike (c.compile x s).1 (c'.compile x s').1 ∧
    R (c.compile x s).2 (c'.compile x s').2

namespace Attempt

/-- The attempts differ in the diagnostics listed at most, but not in the first error. -/
structure Agrees (a b : Attempt) : Prop where
  unit : a.unit = b.unit
  artifact : a.artifact = b.artifact
  error : a.error? = b.error?

theorem ofAnswer_agrees (options : UnitOptions) (unit : SourceUnit)
    {answer answer' : Except String CompilerOutput} (h : Alike answer answer') :
    (ofAnswer options unit answer).Agrees (ofAnswer options unit answer') := by
  cases h with
  | failed => exact ⟨rfl, rfl, rfl⟩
  | @answered a b hcontracts herror =>
      simp only [ofAnswer, ← hcontracts, ← herror]
      cases hd : Diagnostic.firstError? a.diagnostics with
      | some d => exact ⟨rfl, rfl, herror⟩
      | none =>
          rw [hd] at herror
          cases a.contracts.get? options.contractName with
          | some artifact => exact ⟨rfl, rfl, by rw [error?, error?, hd, ← herror]⟩
          | none =>
              -- the missing contract is the first error of both lists
              have hfirst : ∀ ds e, Diagnostic.firstError? ds = none →
                  Diagnostic.firstError? (ds ++ [e]) = Diagnostic.firstError? [e] := by
                intro ds e hds
                rw [Diagnostic.firstError?] at hds ⊢
                rw [List.find?_append, hds]
                rfl
              exact ⟨rfl, rfl, by rw [error?, error?, hfirst _ _ hd, hfirst _ _ herror.symm]⟩

end Attempt

namespace Resolution

/-- The same units were tried, and the last attempts agree. -/
structure Agrees (r r' : Resolution) : Prop where
  earlier : r.earlier.map (·.unit) = r'.earlier.map (·.unit)
  last : r.last.Agrees r'.last

theorem Agrees.units {r r' : Resolution} (h : r.Agrees r') :
    r.attempts.map (·.unit) = r'.attempts.map (·.unit) := by
  simp only [attempts, List.map_append, List.map_cons, List.map_nil, h.earlier, h.last.unit]

theorem Agrees.trial_eq {r r' : Resolution} (h : r.Agrees r') : r.trial = r'.trial := by
  simpa [trial] using congrArg List.length h.earlier

theorem Agrees.verdict_eq {r r' : Resolution} (h : r.Agrees r') :
    r.verdict = { r'.verdict with warnings := r.verdict.warnings } := by
  simp only [verdict, h.last.unit, h.last.artifact, h.last.error]

end Resolution

namespace Toolchain
variable {R : σ → σ' → Prop} {t : Toolchain σ} {c : Compiler σ'}

/-- The same toolchain with another compiler. -/
def withCompiler (t : Toolchain σ) (c : Compiler σ') : Toolchain σ' := ⟨c, t.interpreter, t.options⟩

theorem attempt_agrees (h : t.compiler.Tracks R c) (statements : List Statement)
    (spec : ReturnSpec) {s : σ} {s' : σ'} (hs : R s s') :
    (t.attempt statements spec s).1.Agrees ((t.withCompiler c).attempt statements spec s').1 ∧
      R (t.attempt statements spec s).2 ((t.withCompiler c).attempt statements spec s').2 := by
  obtain ⟨halike, hnext⟩ := h (t.submission statements spec) s s' hs
  exact ⟨Attempt.ofAnswer_agrees _ _ halike, hnext⟩

/-- Both runs take the same rungs: the correction made depends on the first error and on the
specification alone. -/
theorem climb_agrees (h : t.compiler.Tracks R c) (statements : List Statement)
    (cs : List Correction) {r r' : Resolution} (hr : r.Agrees r') {s : σ} {s' : σ'}
    (hs : R s s') :
    (t.climb statements cs r s).1.Agrees ((t.withCompiler c).climb statements cs r' s').1 := by
  induction cs generalizing r r' s s' with
  | nil => exact hr
  | cons correction cs ih =>
      cases rung t.interpreter correction r.last with
      | accepted hd =>
          rw [climb_of_no_error _ _ hd, climb_of_no_error _ _ (hr.last.error ▸ hd)]
          exact hr
      | @corrected d spec hd hc =>
          have hc' : Corrects (t.withCompiler c).interpreter d correction r'.last.unit.spec spec :=
            hr.last.unit ▸ hc
          obtain ⟨hnext, hs⟩ := attempt_agrees h statements spec hs
          rw [climb_of_corrects _ _ hd hc, climb_of_corrects _ _ (hr.last.error ▸ hd) hc']
          exact ih ⟨hr.units, hnext⟩ hs
      | @passed d hd hc =>
          have hc' : ∀ spec, ¬ Corrects (t.withCompiler c).interpreter d correction
              r'.last.unit.spec spec := hr.last.unit ▸ hc
          rw [climb_of_not_corrects _ _ hd hc,
            climb_of_not_corrects _ _ (hr.last.error ▸ hd) hc']
          exact ih hr hs

theorem resolve_agrees (h : t.compiler.Tracks R c) (statements : List Statement) {s : σ} {s' : σ'}
    (hs : R s s') :
    (t.resolve statements s).1.Agrees ((t.withCompiler c).resolve statements s').1 := by
  obtain ⟨hfirst, hs'⟩ := attempt_agrees h statements (.guess t.options statements) hs
  have hstart : Resolution.Agrees ⟨[], (t.attempt statements (.guess t.options statements) s).1⟩
      ⟨[], ((t.withCompiler c).attempt statements (.guess t.options statements) s').1⟩ :=
    ⟨rfl, hfirst⟩
  exact climb_agrees h statements Correction.ladder hstart hs'

theorem submitted_eq_of_agrees (t : Toolchain σ) (c : Compiler σ') {r r' : Resolution}
    (h : r.Agrees r') : t.submitted r = (t.withCompiler c).submitted r' := by
  have hunits := congrArg (List.map fun u => Submission.mk t.options.sourceName u.source) h.units
  rw [List.map_map, List.map_map] at hunits
  exact hunits

/-- What an answer lists beside errors, in its order. -/
def remarks : Except String CompilerOutput → List Diagnostic
  | .ok output => output.diagnostics.filter fun d => d.severity ≠ .error
  | .error _ => []

theorem warnings_eq (ds : List Diagnostic) :
    Diagnostic.warnings ds = ds.filter fun d => d.severity ≠ .error := by
  refine List.filter_congr fun d _ => ?_
  cases hseverity : d.severity <;> simp [Diagnostic.isError, hseverity]

theorem warnings_ofAnswer (options : UnitOptions) (unit : SourceUnit)
    (answer : Except String CompilerOutput) :
    Diagnostic.warnings (Attempt.ofAnswer options unit answer).diagnostics = remarks answer := by
  cases answer with
  | error text => rfl
  | ok output =>
      simp only [Attempt.ofAnswer, remarks, ← warnings_eq]
      split
      · rfl
      · rfl
      · simp [Diagnostic.warnings, Diagnostic.ofError, Diagnostic.isError]

/-- The warnings of a resolution are those of the last answer. -/
theorem verdict_warnings (t : Toolchain σ) (statements : List Statement) (s : σ) :
    ∃ answer, (t.compiler.answers (t.submitted (t.resolve statements s).1) s).1.getLast? =
        some answer ∧ (t.resolve statements s).1.verdict.warnings = remarks answer := by
  obtain ⟨made, -, htrials, -⟩ := t.resolve_trials statements s
  obtain ⟨answers, spec, answer, hanswers, hanswer, hlast⟩ := htrials.last_answer
  refine ⟨answer, (congrArg (·.1.getLast?) hanswers).trans hanswer, ?_⟩
  rw [Resolution.verdict, hlast]
  exact warnings_ofAnswer _ _ answer

/-- Compilers whose answers agree in the first error and the contracts, that is up to noise, are
sent the same units, end at the same trial and come to the same verdict; it differs in the warnings
at most, which are all that the last answer lists beside errors. -/
theorem resolve_steered (t : Toolchain σ) (c : Compiler σ') (R : σ → σ' → Prop)
    (h : t.compiler.Tracks R c) (statements : List Statement) (s : σ) (s' : σ') (hs : R s s') :
    let t' := t.withCompiler c
    let r := (t.resolve statements s).1
    let r' := (t'.resolve statements s').1
    (t.recorded.resolve statements (s, [])).2.2 = (t'.recorded.resolve statements (s', [])).2.2 ∧
      r.trial = r'.trial ∧ r.last.unit = r'.last.unit ∧ r.last.artifact = r'.last.artifact ∧
      r.last.error? = r'.last.error? ∧
      r.verdict = { r'.verdict with warnings := r.verdict.warnings } ∧
      (∃ answer, (t.compiler.answers (t.submitted r) s).1.getLast? = some answer ∧
        r.verdict.warnings = remarks answer) ∧
      (∃ answer, (c.answers (t'.submitted r') s').1.getLast? = some answer ∧
        r'.verdict.warnings = remarks answer) ∧
      ∀ a b : CompilerOutput, Alike (.ok a) (.ok b) ↔ a.contracts = b.contracts ∧
        Relation.EqvGen Diagnostic.Noise a.diagnostics b.diagnostics := by
  intro t' r r'
  have hagrees : r.Agrees r' := resolve_agrees h statements hs
  have hsubmitted : t.submitted r = t'.submitted r' := submitted_eq_of_agrees t c hagrees
  refine ⟨?_, hagrees.trial_eq, hagrees.last.unit, hagrees.last.artifact, hagrees.last.error,
    hagrees.verdict_eq, t.verdict_warnings statements s, t'.verdict_warnings statements s', ?_⟩
  · rw [resolve_recorded, resolve_recorded, List.nil_append, List.nil_append]
    exact hsubmitted
  · intro a b
    rw [← Diagnostic.firstError?_eq_iff]
    constructor
    · intro halike
      cases halike with
      | answered hcontracts herror => exact ⟨hcontracts, herror⟩
    · rintro ⟨hcontracts, herror⟩
      exact .answered hcontracts herror

end Toolchain

/-- The same compiler with its diagnostics rewritten. -/
def Compiler.relisting (f : List Diagnostic → List Diagnostic) (c : Compiler σ) : Compiler σ where
  compile x s := ((c.compile x s).1.map fun o => { o with diagnostics := f o.diagnostics },
    (c.compile x s).2)

theorem Compiler.tracks_relisting {f : List Diagnostic → List Diagnostic}
    (hf : ∀ ds, Diagnostic.firstError? (f ds) = Diagnostic.firstError? ds) (c : Compiler σ) :
    c.Tracks Eq (c.relisting f) := by
  rintro x s _ rfl
  refine ⟨?_, rfl⟩
  simp only [relisting]
  cases (c.compile x s).1 with
  | error text => exact .failed
  | ok output => exact .answered rfl (hf output.diagnostics).symm

/-- A warning in front, and another error behind if there is one. -/
def noisy (ds : List Diagnostic) : List Diagnostic :=
  ⟨.warning, "unused", "unused", none, none⟩ :: ds ++
    (Diagnostic.firstError? ds).toList.map fun _ => .ofError "TypeError" "and more"

theorem firstError?_noisy (ds : List Diagnostic) :
    Diagnostic.firstError? (noisy ds) = Diagnostic.firstError? ds := by
  cases h : Diagnostic.firstError? ds <;>
    simp_all [noisy, Diagnostic.firstError?, Diagnostic.isError]

/-- A compiler that wants another type and a function that changes the state. -/
def exactingToolchain : Toolchain Unit where
  compiler := .expecting {} [.ofRaw "c.next()"] ⟨"uint256", true, some "c.next()"⟩ "uint256"
  interpreter := .solidity
  options := {}

theorem resolve_steered_noisy :
    let t := exactingToolchain
    let t' := t.withCompiler (t.compiler.relisting noisy)
    t.compiler.Tracks Eq (t.compiler.relisting noisy) ∧
      (t.recorded.resolve [.ofRaw "c.next()"] ((), [])).2.2 =
        (t'.recorded.resolve [.ofRaw "c.next()"] ((), [])).2.2 ∧
      (t.resolve [.ofRaw "c.next()"] ()).1.trial = (t'.resolve [.ofRaw "c.next()"] ()).1.trial ∧
      (t'.resolve [.ofRaw "c.next()"] ()).1.trial = 3 ∧
      (t'.resolve [.ofRaw "c.next()"] ()).1.verdict.warnings.length = 1 := by
  have htracks := exactingToolchain.compiler.tracks_relisting firstError?_noisy
  obtain ⟨hsubmitted, htrial, -⟩ :=
    exactingToolchain.resolve_steered _ Eq htracks [.ofRaw "c.next()"] () () rfl
  exact ⟨htracks, hsubmitted, htrial, by decide +kernel⟩

end SoliditySession
