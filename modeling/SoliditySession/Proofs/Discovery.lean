import SoliditySession.Proofs.Ladder
import SoliditySession.Proofs.Units
import SoliditySession.Proofs.Wording
/- What a resolution finds out: the type of what is returned, and whether the entry point has to be
allowed to change the state. -/
namespace SoliditySession

variable {σ : Type}

/-- The first error of the answer has this message, whatever else it lists. -/
def FirstErrorSays (answer : Except String CompilerOutput) (message : String) : Prop :=
  ∃ output d, answer = .ok output ∧ Diagnostic.firstError? output.diagnostics = some d ∧
    d.message = message

theorem firstErrorSays_of_ok {answer : Except String CompilerOutput} {message : String}
    (h : answer = .ok ⟨[.ofError "TypeError" message], .empty⟩) :
    FirstErrorSays answer message := ⟨_, _, h, rfl, rfl⟩

/-- The answer lists no error and holds the contract. -/
def Yields (answer : Except String CompilerOutput) (contractName : String) : Prop :=
  ∃ output artifact, answer = .ok output ∧ Diagnostic.firstError? output.diagnostics = none ∧
    output.contracts.get? contractName = some artifact

theorem yields_of_ok {answer : Except String CompilerOutput} {name : String}
    (h : answer = .ok ⟨[], .ofList [(name, ⟨name, [], "", .empty⟩)]⟩) : Yields answer name := by
  refine ⟨_, ⟨name, [], "", .empty⟩, h, rfl, ?_⟩
  simp [Table.ofList, Table.insert, Table.get?, Table.place, Table.empty]

namespace Toolchain

/-- The compiler knows the type of the expression, which it spells `reported` in its messages, and
whether evaluating it changes the state: it names the type where another is returned, then
complains about a view, and else yields the contract. -/
structure Judges (t : Toolchain σ) (statements : List Statement)
    (expression type reported : String) (changes : Bool) : Prop where
  mismatch : ∀ guess may s, guess ≠ type → ∃ rest, FirstErrorSays
    (t.compiler.compile (t.submission statements ⟨guess, may, some expression⟩) s).1
    (mismatchMessage reported rest)
  violation : ∀ s, changes = true → ∃ rest, FirstErrorSays
    (t.compiler.compile (t.submission statements ⟨type, false, some expression⟩) s).1
    (violationMessage rest)
  accepted : ∀ may s, (changes = true → may = true) → Yields
    (t.compiler.compile (t.submission statements ⟨type, may, some expression⟩) s).1
    t.options.contractName

/-- The compiler finds that the last statement has no value, and accepts the unit that returns
nothing. -/
structure JudgesValueless (t : Toolchain σ) (statements : List Statement) (expression : String) :
    Prop where
  mismatch : ∀ guess may s, ∃ rest, FirstErrorSays
    (t.compiler.compile (t.submission statements ⟨guess, may, some expression⟩) s).1
    (mismatchMessage "tuple()" rest)
  accepted : ∀ guess may s, Yields
    (t.compiler.compile (t.submission statements ⟨guess, may, none⟩) s).1 t.options.contractName

variable {t : Toolchain σ} {statements : List Statement} {spec : ReturnSpec} {s : σ}

theorem attempt_error?_of_says {message : String}
    (h : FirstErrorSays (t.compiler.compile (t.submission statements spec) s).1 message) :
    ∃ d, (t.attempt statements spec s).1.error? = some d ∧ d.message = message := by
  obtain ⟨output, d, hanswer, hd, hmessage⟩ := h
  refine ⟨d, ?_, hmessage⟩
  simp only [attempt_eq, judged, hanswer, Attempt.ofAnswer, hd, Attempt.error?]

theorem attempt_of_yields
    (h : Yields (t.compiler.compile (t.submission statements spec) s).1 t.options.contractName) :
    (t.attempt statements spec s).1.artifact.isSome ∧
      (t.attempt statements spec s).1.error? = none := by
  obtain ⟨output, artifact, hanswer, hd, hcontract⟩ := h
  have hsome : (t.attempt statements spec s).1.artifact.isSome := by
    simp only [attempt_eq, judged, hanswer, Attempt.ofAnswer, hd, hcontract, Option.isSome_some]
  exact ⟨hsome, (Attempt.ofAnswer_artifact_isSome_iff _ _ _).1 hsome⟩

/-- Where the type is right, what is left of the ladder finds the mutability. -/
theorem Judges.climb_mutability {expression type reported : String} {changes : Bool}
    (h : t.Judges statements expression type reported changes)
    (hi : t.interpreter = Interpreter.solidity) (earlier : List Attempt) (may : Bool) (s s' : σ) :
    let r := (t.climb statements [.mutability]
      ⟨earlier, (t.attempt statements ⟨type, may, some expression⟩ s).1⟩ s').1
    r.last.artifact.isSome ∧ r.last.error? = none ∧
      r.last.unit.spec = ⟨type, may || changes, some expression⟩ ∧
      r.trial = earlier.length + 1 + (if changes = true ∧ may = false then 1 else 0) := by
  by_cases hneed : changes = true ∧ may = false
  · obtain ⟨rfl, rfl⟩ := hneed
    obtain ⟨rest, hsays⟩ := h.violation s rfl
    obtain ⟨d, hd, hmessage⟩ := attempt_error?_of_says hsays
    have hc : Corrects t.interpreter d .mutability ⟨type, false, some expression⟩
        ⟨type, true, some expression⟩ :=
      .mutability rfl (by rw [hi]; exact Interpreter.needsMutation_violation hmessage)
    rw [t.climb_of_corrects statements hd (by simpa using hc)]
    obtain ⟨hsome, hnone⟩ := attempt_of_yields (h.accepted true s' (fun _ => rfl))
    exact ⟨hsome, hnone, by simp [climb], by simp [climb, Resolution.trial, Resolution.attempts]⟩
  · have hmay : changes = true → may = true := by
      intro hchanges
      cases may with
      | true => rfl
      | false => exact absurd ⟨hchanges, rfl⟩ hneed
    obtain ⟨hsome, hnone⟩ := attempt_of_yields (h.accepted may s hmay)
    rw [t.climb_of_no_error statements hnone]
    refine ⟨hsome, hnone, ?_, by simp [Resolution.trial, hneed]⟩
    cases changes with
    | true => simp [hmay rfl]
    | false => simp

/-- Where the type is right, the rung of the return type is passed over: neither a view that
changes the state nor success asks for another type. -/
theorem Judges.climb_returnType {expression type reported : String} {changes : Bool}
    (h : t.Judges statements expression type reported changes)
    (hi : t.interpreter = Interpreter.solidity) (earlier : List Attempt) (may : Bool) (s s' : σ)
    (cs : List Correction) :
    t.climb statements (.returnType :: cs)
        ⟨earlier, (t.attempt statements ⟨type, may, some expression⟩ s).1⟩ s' =
      t.climb statements cs
        ⟨earlier, (t.attempt statements ⟨type, may, some expression⟩ s).1⟩ s' := by
  by_cases hmay : changes = true → may = true
  · obtain ⟨-, hnone⟩ := attempt_of_yields (h.accepted may s hmay)
    rw [t.climb_of_no_error statements hnone, t.climb_of_no_error statements hnone]
  · obtain ⟨hchanges, hview⟩ := Classical.not_imp.1 hmay
    obtain rfl : may = false := by simpa using hview
    obtain ⟨rest, hsays⟩ := h.violation s hchanges
    obtain ⟨d, hd, hmessage⟩ := attempt_error?_of_says hsays
    refine t.climb_of_not_corrects statements hd ?_ s'
    intro spec hc
    have hfix := Interpreter.returnFix?_violation hmessage
    rw [← hi] at hfix
    cases hc with
    | type hf => simp [hfix] at hf
    | noValue hf => simp [hfix] at hf

theorem ofReported?_ne_nil {reported : String} {fix : ReturnFix}
    (h : ReturnFix.ofReported? reported = some fix) : reported.toList ≠ [] := by
  have hempty : ReturnFix.ofReported? "" = none := by decide +kernel
  intro hnil
  rw [String.toList_eq_nil_iff.1 hnil, hempty] at h
  cases h

/-- A compiler that asks for one type is given it, and a view that changes the state is given up,
in one trial for each of the two that the guess did not meet; a value that is none is dropped. -/
theorem resolve_discovers (t : Toolchain σ) (hi : t.interpreter = Interpreter.solidity)
    (statements : List Statement) (expression : String)
    (he : returnExpression statements = some expression) (s : σ) :
    (∀ type reported changes, '\n' ∉ reported.toList → ¬ mismatchEnd <:+: reported.toList →
      ReturnFix.ofReported? reported = some (.type type) →
      t.Judges statements expression type reported changes →
      (t.resolve statements s).1.last.artifact.isSome ∧
      (t.resolve statements s).1.last.error? = none ∧
      (t.resolve statements s).1.last.unit.spec =
        ⟨type, forcesMutation statements || changes, some expression⟩ ∧
      (t.resolve statements s).1.trial = 1 + (if t.options.placeholderType = type then 0 else 1) +
        (if changes = true ∧ forcesMutation statements = false then 1 else 0)) ∧
    (t.JudgesValueless statements expression →
      (t.resolve statements s).1.last.artifact.isSome ∧
      (t.resolve statements s).1.last.error? = none ∧
      (t.resolve statements s).1.last.unit.spec =
        ⟨t.options.placeholderType, forcesMutation statements, none⟩ ∧
      (t.resolve statements s).1.trial = 2) := by
  have hresolve : t.resolve statements s = t.climb statements Correction.ladder
      ⟨[], (t.attempt statements ⟨t.options.placeholderType, forcesMutation statements,
        some expression⟩ s).1⟩ (t.attempt statements ⟨t.options.placeholderType,
        forcesMutation statements, some expression⟩ s).2 := by
    rw [← he]
    rfl
  rw [hresolve, Correction.ladder]
  constructor
  · intro type reported changes hline hend hreported h
    by_cases hguess : t.options.placeholderType = type
    · rw [hguess, h.climb_returnType hi]
      simpa using h.climb_mutability hi [] (forcesMutation statements) _ _
    · obtain ⟨rest, hsays⟩ := h.mismatch _ (forcesMutation statements) s hguess
      obtain ⟨d, hd, hmessage⟩ := attempt_error?_of_says hsays
      have hfix : t.interpreter.returnFix? d = some (.type type) := by
        rw [hi, Interpreter.returnFix?_mismatch hmessage (ofReported?_ne_nil hreported) hline hend,
          hreported]
      rw [t.climb_of_corrects statements hd (.type hfix)]
      simp only [attempt_unit_spec, hguess, if_false]
      exact h.climb_mutability hi [_] (forcesMutation statements) _ _
  · intro h
    obtain ⟨rest, hsays⟩ := h.mismatch t.options.placeholderType (forcesMutation statements) s
    obtain ⟨d, hd, hmessage⟩ := attempt_error?_of_says hsays
    have hvalueless : ReturnFix.ofReported? "tuple()" = some .noValue := by decide +kernel
    have hfix : t.interpreter.returnFix? d = some .noValue := by
      rw [hi, Interpreter.returnFix?_mismatch hmessage (ofReported?_ne_nil hvalueless)
        (by decide +kernel) (by decide +kernel), hvalueless]
    rw [t.climb_of_corrects statements hd (.noValue hfix)]
    obtain ⟨hsome, hnone⟩ := attempt_of_yields (h.accepted t.options.placeholderType
      (forcesMutation statements) (t.attempt statements ⟨t.options.placeholderType,
        forcesMutation statements, some expression⟩ s).2)
    simp only [attempt_unit_spec]
    rw [t.climb_of_no_error statements hnone]
    exact ⟨hsome, hnone, by simp, rfl⟩

end Toolchain

/-- A compiler that expects one way of closing the entry point of a session: it names the type in
place of another, and complains about a view where the state is to be changed. -/
def Compiler.expecting (options : UnitOptions) (statements : List Statement) (wanted : ReturnSpec)
    (reported : String) : Compiler Unit :=
  .ofFunction fun x =>
    let unit (may : Bool) :=
      (SourceUnit.assemble options { wanted with mayMutate := may } statements).source
    let rejected (message : String) : CompilerOutput := ⟨[.ofError "TypeError" message], .empty⟩
    if x.source = unit wanted.mayMutate ∨ x.source = unit true then
      .ok ⟨[], .ofList [(options.contractName, ⟨options.contractName, [], "", .empty⟩)]⟩
    else if x.source = unit false then .ok (rejected (violationMessage ""))
    else .ok (rejected (mismatchMessage reported ""))

namespace Toolchain

theorem judges_expecting (options : UnitOptions) (statements : List Statement)
    (expression type reported : String) (changes : Bool) :
    (Toolchain.mk (.expecting options statements ⟨type, changes, some expression⟩ reported)
      .solidity options).Judges statements expression type reported changes := by
  refine ⟨?_, ?_, ?_⟩
  · intro guess may s hguess
    have hne : ∀ may', (SourceUnit.assemble options ⟨guess, may, some expression⟩
        statements).source ≠ (SourceUnit.assemble options ⟨type, may', some expression⟩
          statements).source := fun may' h => hguess (source_inj h).1
    refine ⟨"", firstErrorSays_of_ok ?_⟩
    simp only [Compiler.expecting, Compiler.ofFunction, submission, hne, or_self, if_false]
  · intro s hchanges
    have hne : (SourceUnit.assemble options ⟨type, false, some expression⟩ statements).source ≠
        (SourceUnit.assemble options ⟨type, true, some expression⟩ statements).source :=
      fun h => Bool.noConfusion (source_inj h).2
    refine ⟨"", firstErrorSays_of_ok ?_⟩
    simp only [Compiler.expecting, Compiler.ofFunction, submission, hchanges, hne, or_self,
      if_false, if_true]
  · intro may s hmay
    have hunit : may = changes ∨ may = true := by
      cases may with
      | true => exact .inr rfl
      | false => exact .inl (by simpa using hmay)
    apply yields_of_ok
    rcases hunit with rfl | rfl
    · simp only [Compiler.expecting, Compiler.ofFunction, submission, true_or, if_true]
    · simp only [Compiler.expecting, Compiler.ofFunction, submission, or_true, if_true]

theorem judgesValueless_expecting (options : UnitOptions) (statements : List Statement)
    (expression : String) :
    (Toolchain.mk (.expecting options statements ⟨"", false, none⟩ "tuple()")
      .solidity options).JudgesValueless statements expression := by
  refine ⟨?_, ?_⟩
  · intro guess may s
    have hne : ∀ may', (SourceUnit.assemble options ⟨guess, may, some expression⟩
        statements).source ≠ (SourceUnit.assemble options ⟨"", may', none⟩ statements).source :=
      fun may' => source_ne_of_valueless statements
    refine ⟨"", firstErrorSays_of_ok ?_⟩
    simp only [Compiler.expecting, Compiler.ofFunction, submission, hne, or_self, if_false]
  · intro guess may s
    apply yields_of_ok
    simp only [Compiler.expecting, Compiler.ofFunction, submission,
      source_eq_of_valueless options guess "" may true statements, or_true, if_true]

theorem resolve_discovers_call :
    let statements := [Statement.ofRaw "c.next()"]
    let t : Toolchain Unit :=
      ⟨.expecting {} statements ⟨"uint256", true, some "c.next()"⟩ "uint256", .solidity, {}⟩
    let t' : Toolchain Unit :=
      ⟨.expecting {} statements ⟨"", false, none⟩ "tuple()", .solidity, {}⟩
    ((t.resolve statements ()).1.last.artifact.isSome ∧
      (t.resolve statements ()).1.last.unit.spec = ⟨"uint256", true, some "c.next()"⟩ ∧
      (t.resolve statements ()).1.trial = 3) ∧
    (t'.resolve statements ()).1.last.artifact.isSome ∧
      (t'.resolve statements ()).1.last.unit.spec = ⟨"int256", false, none⟩ ∧
      (t'.resolve statements ()).1.trial = 2 := by
  have he : returnExpression [Statement.ofRaw "c.next()"] = some "c.next()" := by decide +kernel
  have hf : forcesMutation [Statement.ofRaw "c.next()"] = false := by decide +kernel
  have h := (resolve_discovers ⟨.expecting {} [Statement.ofRaw "c.next()"]
    ⟨"uint256", true, some "c.next()"⟩ "uint256", .solidity, {}⟩ rfl _ _ he ()).1 "uint256"
    "uint256" true (by decide +kernel) (by decide +kernel) (by decide +kernel)
    (judges_expecting _ _ _ _ _ _)
  have h' := (resolve_discovers ⟨.expecting {} [Statement.ofRaw "c.next()"] ⟨"", false, none⟩
    "tuple()", .solidity, {}⟩ rfl _ _ he ()).2 (judgesValueless_expecting _ _ _)
  rw [hf] at h h'
  exact ⟨⟨h.1, h.2.2.1, h.2.2.2⟩, h'.1, h'.2.2.1, h'.2.2.2⟩

end Toolchain
end SoliditySession
