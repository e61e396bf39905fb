import SoliditySession.Proofs.Deployment
/- Which function is called and which outputs its result is read by. The selector is that of the
function without parameters, but the outputs are those of the first function of the name; the two
belong together unless another function of the name comes first and is read differently. -/
namespace SoliditySession

/-- A function of this name without parameters. -/
structure AbiEntry.IsNullary (name : String) (e : AbiEntry) : Prop where
  kind : e.kind = "function"
  name : e.name = some name
  inputs : e.inputs = []

namespace Node

/-- Deploys the artifact, calls a function by its selector and reads the result by these outputs. -/
def executeAs (options : Options) (artifact : Artifact) (selector : String)
    (outputs : List AbiParam) : Exchange (Option Value) := do
  let account ← sender options
  let address ← deploy options artifact account
  callEntry selector outputs account address

section
variable {options : Options} {artifact : Artifact} {entryPoint selector : String}

theorem execute_eq_executeAs {entry : AbiEntry} (he : artifact.function? entryPoint = some entry)
    (hs : artifact.selector? entryPoint = some selector) :
    execute options artifact entryPoint = executeAs options artifact selector entry.outputs := by
  rw [execute, he, hs]
  rfl

theorem execute_of_missing
    (h : artifact.function? entryPoint = none ∨ artifact.selector? entryPoint = none) :
    execute options artifact entryPoint =
      .fail (.missingEntryPoint artifact.name entryPoint) := by
  rw [execute]
  rcases h with hf | hs
  · rw [hf]
  · rw [hs]
    cases artifact.function? entryPoint <;> rfl

end

/-- The outputs matter to a run only by how they read one text. -/
theorem executeAs_congr (options : Options) (artifact : Artifact) (selector : String)
    (c : Conversation) :
    ∃ data, ∀ outputs outputs', readResult outputs data = readResult outputs' data →
      executeAs options artifact selector outputs c =
        executeAs options artifact selector outputs' c := by
  rcases hsender : sender options c with ⟨_ | account, c₁⟩
  · refine ⟨"", fun outputs outputs' _ => ?_⟩
    rw [executeAs, executeAs, Exchange.bind_of_error hsender, Exchange.bind_of_error hsender]
  rcases hdeploy : deploy options artifact account c₁ with ⟨_ | address, c₂⟩
  · refine ⟨"", fun outputs outputs' _ => ?_⟩
    rw [executeAs, executeAs, Exchange.bind_of_ok hsender, Exchange.bind_of_ok hsender,
      Exchange.bind_of_error hdeploy, Exchange.bind_of_error hdeploy]
  rcases hcall : Exchange.call "eth_call" (.arr [.obj [("from", .str account),
    ("to", .str address), ("data", .str ("0x" ++ selector))], .str "latest"]) Json.readText c₂
    with ⟨_ | data, c₃⟩
  · refine ⟨"", fun outputs outputs' _ => ?_⟩
    rw [executeAs, executeAs, Exchange.bind_of_ok hsender, Exchange.bind_of_ok hsender,
      Exchange.bind_of_ok hdeploy, Exchange.bind_of_ok hdeploy, callEntry, callEntry,
      Exchange.bind_of_error hcall, Exchange.bind_of_error hcall]
  · refine ⟨data, fun outputs outputs' h => ?_⟩
    rw [executeAs, executeAs, Exchange.bind_of_ok hsender, Exchange.bind_of_ok hsender,
      Exchange.bind_of_ok hdeploy, Exchange.bind_of_ok hdeploy, callEntry, callEntry,
      Exchange.bind_of_ok hcall, Exchange.bind_of_ok hcall, h]

/-- The replies of a node that deploys at once and gives this result. -/
def deployed (data : String) : List Reply :=
  [.ok (.str "0xtx"), .ok (.obj [("contractAddress", .str "0xcc")]), .ok (.str data)]

theorem executeAs_deployed (artifact : Artifact) (selector data : String)
    (outputs : List AbiParam) (afterwards : Fault) :
    executeAs { signer := some "0xaa" } artifact selector outputs
        (.ofReplies (deployed data) afterwards) =
      (readResult outputs data, ⟨[], afterwards,
        [Phase.call "0xaa" "0xcc", .receipt "0xaa" "0xtx", .send "0xaa"].map
          (·.request { signer := some "0xaa" } artifact selector)⟩) := by
  have hdeploy : deploy { signer := some "0xaa" } artifact "0xaa"
      (.ofReplies (deployed data) afterwards) = (.ok "0xcc", ⟨[.ok (.str data)], afterwards,
        [Phase.receipt "0xaa" "0xtx", .send "0xaa"].map
          (·.request { signer := some "0xaa" } artifact selector)⟩) := rfl
  have hcall : callEntry selector outputs "0xaa" "0xcc" ⟨[.ok (.str data)], afterwards,
        [Phase.receipt "0xaa" "0xtx", .send "0xaa"].map
          (·.request { signer := some "0xaa" } artifact selector)⟩ =
      (readResult outputs data, ⟨[], afterwards,
        [Phase.call "0xaa" "0xcc", .receipt "0xaa" "0xtx", .send "0xaa"].map
          (·.request { signer := some "0xaa" } artifact selector)⟩) := by
    have hread : Json.readText (.str data) = .ok data := rfl
    rw [callEntry, Exchange.bind_of_ok (Exchange.call_read hread), Exchange.ofExcept_apply]
    rfl
  have hsender : sender { signer := some "0xaa" } = pure "0xaa" := rfl
  rw [executeAs, hsender, pure_bind, Exchange.bind_of_ok hdeploy, hcall]

/-- Each run that calls the entry point sends its selector and reads the result by the outputs of
a function of its name without parameters; without such a function nothing is asked. -/
def CallsWhatItReads (artifact : Artifact) (entryPoint : String) : Prop :=
  ∀ (options : Options) (replies : List Reply) (afterwards : Fault),
    let run := execute options artifact entryPoint (.ofReplies replies afterwards)
    ((∀ e ∈ artifact.abi, ¬ e.IsNullary entryPoint) →
      run.1 = .error (.missingEntryPoint artifact.name entryPoint) ∧ run.2.log = []) ∧
    ∀ r ∈ run.2.log, r.method = "eth_call" → ∃ selector e account address,
      artifact.selector? entryPoint = some selector ∧ e ∈ artifact.abi ∧ e.IsNullary entryPoint ∧
      r = (Phase.call account address).request options artifact selector ∧
      run = executeAs options artifact selector e.outputs (.ofReplies replies afterwards)

section
variable {artifact : Artifact} {entryPoint selector : String} {entry : AbiEntry}

/-- Whatever a node may reply, it is read alike by a function without parameters. -/
theorem CallsWhatItReads.read_alike (h : CallsWhatItReads artifact entryPoint)
    (he : artifact.function? entryPoint = some entry)
    (hs : artifact.selector? entryPoint = some selector) (data : String) :
    ∃ e ∈ artifact.abi, e.IsNullary entryPoint ∧
      readResult e.outputs data = readResult entry.outputs data := by
  have hrun := executeAs_deployed artifact selector data entry.outputs .noAccounts
  rw [← execute_eq_executeAs he hs] at hrun
  obtain ⟨selector', e, account, address, hs', hmem, hnullary, -, has⟩ :=
    (h { signer := some "0xaa" } (deployed data) .noAccounts).2
      ((Phase.call "0xaa" "0xcc").request { signer := some "0xaa" } artifact selector)
      (by rw [hrun]; simp [Conversation.log]) rfl
  obtain rfl : selector = selector' := Option.some.inj (hs.symm.trans hs')
  rw [executeAs_deployed, hrun] at has
  exact ⟨e, hmem, hnullary, (congrArg Prod.fst has).symm⟩

theorem callsWhatItReads_of_missing
    (h : artifact.function? entryPoint = none ∨ artifact.selector? entryPoint = none) :
    CallsWhatItReads artifact entryPoint := by
  intro options replies afterwards
  rw [execute_of_missing h]
  exact ⟨fun _ => ⟨rfl, rfl⟩, fun r hr => nomatch hr⟩

theorem callsWhatItReads_of_read_alike
    (he : artifact.function? entryPoint = some entry)
    (hs : artifact.selector? entryPoint = some selector)
    (h : ∀ data, ∃ e ∈ artifact.abi, e.IsNullary entryPoint ∧
      readResult e.outputs data = readResult entry.outputs data) :
    CallsWhatItReads artifact entryPoint := by
  intro options replies afterwards run
  constructor
  · intro hnone
    obtain ⟨e, hmem, hnullary, -⟩ := h ""
    exact absurd hnullary (hnone e hmem)
  · intro r hr hmethod
    obtain ⟨data, hdata⟩ := executeAs_congr options artifact selector
      (.ofReplies replies afterwards)
    obtain ⟨e, hmem, hnullary, hread⟩ := h data
    obtain ⟨phases, hlog, -⟩ := conducts_execute options artifact selector he hs
      (.ofReplies replies afterwards)
    have hlog : run.2.log = phases.map (·.request options artifact selector) := hlog
    rw [hlog] at hr
    obtain ⟨phase, -, rfl⟩ := List.mem_map.1 hr
    have hrun : run = executeAs options artifact selector e.outputs
        (.ofReplies replies afterwards) := by
      rw [hdata _ _ hread, ← execute_eq_executeAs he hs]
    cases phase with
    | call account address => exact ⟨selector, e, account, address, hs, hmem, hnullary, rfl, hrun⟩
    | accounts => simp [Phase.request, Phase.method] at hmethod
    | send account => simp [Phase.request, Phase.method] at hmethod
    | receipt account transaction => simp [Phase.request, Phase.method] at hmethod

end

/-- A run calls by the selector without parameters and reads by the first function of the name; so
it reads what it calls exactly if every result is read alike by a function of the name without
parameters. -/
theorem execute_reads_first (artifact : Artifact) (entryPoint : String) :
    (artifact.function? entryPoint = none ∨ artifact.selector? entryPoint = none →
      ∀ options, execute options artifact entryPoint =
        .fail (.missingEntryPoint artifact.name entryPoint)) ∧
    (∀ before after entry selector, artifact.abi = before ++ entry :: after →
      (∀ e ∈ before, ¬ (e.kind = "function" ∧ e.name = some entryPoint)) →
      entry.kind = "function" → entry.name = some entryPoint →
      artifact.selectors.get? (entryPoint ++ "()") = some selector →
      ∀ options, execute options artifact entryPoint =
        executeAs options artifact selector entry.outputs) ∧
    (CallsWhatItReads artifact entryPoint ↔ ∀ entry selector,
      artifact.function? entryPoint = some entry → artifact.selector? entryPoint = some selector →
      ∀ data, ∃ e ∈ artifact.abi, e.IsNullary entryPoint ∧
        readResult e.outputs data = readResult entry.outputs data) := by
  refine ⟨fun h _ => execute_of_missing h, ?_, ?_⟩
  · intro before after entry selector habi hbefore hkind hname hselector options
    refine execute_eq_executeAs ?_ hselector
    rw [Artifact.function?, List.find?_eq_some_iff_append]
    refine ⟨by simp [hkind, hname], before, after, habi, fun e he => ?_⟩
    rcases not_and_or.1 (hbefore e he) with hother | hother <;> simp [hother]
  · constructor
    · intro h entry selector he hs data
      exact h.read_alike he hs data
    · intro h
      cases he : artifact.function? entryPoint with
      | none => exact callsWhatItReads_of_missing (.inl he)
      | some entry =>
        cases hs : artifact.selector? entryPoint with
        | none => exact callsWhatItReads_of_missing (.inr hs)
        | some selector => exact callsWhatItReads_of_read_alike he hs (h entry selector he hs)

/-- A contract with a function of one parameter in front of the entry point. -/
def overloadedArtifact : Artifact where
  name := "Main"
  abi := [⟨"function", some "exec", [⟨"flag", "bool", [], none⟩], [⟨"", "bool", [], none⟩],
      some "pure"⟩,
    ⟨"function", some "exec", [], [⟨"", "uint256", [], none⟩], some "view"⟩]
  bytecode := "6080"
  selectors := .ofList [("exec()", "c0406226"), ("exec(bool)", "12345678")]

/-- The number five is read as a truth value. -/
theorem not_callsWhatItReads_overloaded : ¬ CallsWhatItReads overloadedArtifact "exec" := by
  intro h
  let five := "0x" ++ String.ofList (List.replicate 63 '0') ++ "5"
  have hs : overloadedArtifact.selector? "exec" = some "c0406226" := by decide +kernel
  have he : overloadedArtifact.function? "exec" = some ⟨"function", some "exec",
      [⟨"flag", "bool", [], none⟩], [⟨"", "bool", [], none⟩], some "pure"⟩ := rfl
  obtain ⟨e, hmem, hnullary, hread⟩ := h.read_alike he hs five
  have hread := congrArg (fun r => r.toOption.map (·.map Value.display)) hread
  rcases List.mem_cons.1 hmem with rfl | hmem
  · exact absurd hnullary.inputs (List.cons_ne_nil _ _)
  · obtain rfl := List.mem_singleton.1 hmem
    exact absurd hread (by decide +kernel)

end Node
end SoliditySession
