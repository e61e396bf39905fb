import Mathlib.Data.List.Basic
import SoliditySession.Node.Execution
/- The requests that running an artifact makes: their order, what each carries on from the replies
before it, and when no more follow. -/
namespace SoliditySession.Node
open Json

theorem readText_eq_ok {j : Json} {s : String} (h : readText j = .ok s) : j = .str s := by
  cases j with
  | str t => rw [Except.ok.inj h]
  | _ => cases h

theorem nullable_of_ne_null {α : Type} (read : Reader α) {j : Json} (h : j ≠ .null) :
    nullable read j = (read j).map some := by
  cases j with
  | null => exact absurd rfl h
  | _ => rfl

theorem eq_null_of_nullable_eq_none {α : Type} {read : Reader α} {j : Json}
    (h : nullable read j = .ok none) : j = .null := by
  by_contra hj
  rw [nullable_of_ne_null read hj] at h
  cases hr : read j with
  | error e => simp [hr, Except.map] at h
  | ok v => simp [hr, Except.map] at h

theorem read_of_nullable_eq_some {α : Type} {read : Reader α} {j : Json} {v : α}
    (h : nullable read j = .ok (some v)) : read j = .ok v := by
  have hj : j ≠ .null := by
    rintro rfl
    cases h
  rw [nullable_of_ne_null read hj] at h
  cases hr : read j with
  | error e => simp [hr, Except.map] at h
  | ok w => simpa [hr, Except.map] using h

theorem Receipt.address_cases (r : Receipt) (transaction : String) :
    (∃ address, r.status ≠ some "0x0" ∧ r.contractAddress = some address ∧
      r.address transaction = .ok address) ∨
    (r.status = some "0x0" ∨ r.contractAddress = none) ∧
      r.address transaction = .error (.deployReverted transaction) := by
  by_cases hs : r.status = some "0x0"
  · exact .inr ⟨.inl hs, by simp [address, hs]⟩
  · cases ha : r.contractAddress with
    | none => exact .inr ⟨.inr rfl, by simp [address, hs, ha]⟩
    | some address => exact .inl ⟨address, hs, rfl, by simp [Receipt.address, hs, ha]⟩

namespace Exchange
variable {α β : Type} {x : Exchange α} {f : α → Exchange β} {c c' : Conversation}

theorem bind_of_ok {v : α} (h : x c = (.ok v, c')) : (x >>= f) c = f v c' := by
  simp only [bind, h]

theorem bind_of_error {e : Fault} (h : x c = (.error e, c')) : (x >>= f) c = (.error e, c') := by
  simp only [bind, h]

instance : LawfulMonad Exchange :=
  LawfulMonad.mk' Exchange
    (fun x => by
      funext c
      rcases h : x c with ⟨_ | v, c'⟩
      · exact bind_of_error h
      · exact bind_of_ok h)
    (fun _ _ => rfl)
    (fun x f g => by
      funext c
      rcases h : x c with ⟨_ | v, c'⟩
      · rw [bind_of_error (bind_of_error h), bind_of_error h]
      · have hf : (x >>= f) c = f v c' := bind_of_ok h
        rcases hv : f v c' with ⟨_ | w, c''⟩
        · rw [bind_of_error (hf.trans hv), bind_of_ok h, bind_of_error hv]
        · rw [bind_of_ok (hf.trans hv), bind_of_ok h, bind_of_ok hv])

section
variable {method : String} {params : Json} {read : Reader α} {replies : List Reply}
  {afterwards : Fault} {asked : List Request}

theorem call_silent : call method params read ⟨[], afterwards, asked⟩ =
    (.error afterwards, ⟨[], afterwards, ⟨method, params⟩ :: asked⟩) := rfl

theorem call_failed {e : Fault} :
    call method params read ⟨.error e :: replies, afterwards, asked⟩ =
      (.error e, ⟨replies, afterwards, ⟨method, params⟩ :: asked⟩) := rfl

theorem call_reply (j : Json) : call method params read ⟨.ok j :: replies, afterwards, asked⟩ =
    ((read j).mapError fun e => .malformed method e.message,
      ⟨replies, afterwards, ⟨method, params⟩ :: asked⟩) := by
  have hask : Conversation.ask ⟨method, params⟩ ⟨.ok j :: replies, afterwards, asked⟩ =
      (.ok j, ⟨replies, afterwards, ⟨method, params⟩ :: asked⟩) := rfl
  refine (bind_of_ok hask).trans ?_
  cases read j <;> rfl

theorem call_misread {j : Json} {e : Mismatch} (h : read j = .error e) :
    call method params read ⟨.ok j :: replies, afterwards, asked⟩ =
      (.error (.malformed method e.message),
        ⟨replies, afterwards, ⟨method, params⟩ :: asked⟩) := by
  rw [call_reply, h, Except.mapError]

theorem call_read {j : Json} {v : α} (h : read j = .ok v) :
    call method params read ⟨.ok j :: replies, afterwards, asked⟩ =
      (.ok v, ⟨replies, afterwards, ⟨method, params⟩ :: asked⟩) := by
  rw [call_reply, h, Except.mapError]

end

theorem ofExcept_apply (r : Except Fault α) : ofExcept r c = (r, c) := by
  cases r <;> rfl

end Exchange

theorem Conversation.log_ask (replies replies' : List Reply) (afterwards : Fault)
    (r : Request) (asked : List Request) :
    log ⟨replies', afterwards, r :: asked⟩ = log ⟨replies, afterwards, asked⟩ ++ [r] := by
  simp [log]

/-- What has been learnt from the node, hence what is asked next. -/
inductive Phase
  | accounts
  | send (account : String)
  | receipt (account transaction : String)
  | call (account address : String)

namespace Phase

/-- Accounts are asked for only where no signer is configured. -/
def first (options : Options) : Phase :=
  match options.signer with
  | some signer => send signer
  | none => accounts

def method : Phase → String
  | accounts => "eth_accounts"
  | send _ => "eth_sendTransaction"
  | receipt _ _ => "eth_getTransactionReceipt"
  | call _ _ => "eth_call"

def params (options : Options) (artifact : Artifact) (selector : String) : Phase → Json
  | accounts => .arr []
  | send account => .arr [.obj [("from", .str account), ("data", .str ("0x" ++ artifact.bytecode)),
      ("gas", .str (hexNumber options.gas))]]
  | receipt _ transaction => .arr [.str transaction]
  | call account address => .arr [.obj [("from", .str account), ("to", .str address),
      ("data", .str ("0x" ++ selector))], .str "latest"]

def request (options : Options) (artifact : Artifact) (selector : String) (phase : Phase) :
    Request :=
  ⟨phase.method, phase.params options artifact selector⟩

/-- Why a result is no answer to what is asked. -/
def Misread : Phase → Json → Mismatch → Prop
  | accounts, j, e => listOf readText j = .error e
  | send _, j, e => readText j = .error e
  | receipt _ _, j, e => nullable readReceipt j = .error e
  | call _ _, j, e => readText j = .error e

/-- The replies after which another request follows, and which. -/
inductive Next : Phase → Json → Phase → Prop
  | account {j : Json} {account : String} {more : List String} :
      listOf readText j = .ok (account :: more) → Next accounts j (send account)
  | transaction {account transaction : String} :
      Next (send account) (.str transaction) (receipt account transaction)
  | again {account transaction : String} :
      Next (receipt account transaction) .null (receipt account transaction)
  | address {account transaction address : String} {j : Json} {r : Receipt} :
      readReceipt j = .ok r → r.status ≠ some "0x0" → r.contractAddress = some address →
      Next (receipt account transaction) j (call account address)

/-- The replies after which no request follows, and what comes of them. -/
inductive Ends (options : Options) (outputs : List AbiParam) :
    Phase → Reply → Except Fault (Option Value) → Prop
  | failed {phase : Phase} {e : Fault} : Ends options outputs phase (.error e) (.error e)
  | malformed {phase : Phase} {j : Json} {e : Mismatch} : phase.Misread j e →
      Ends options outputs phase (.ok j) (.error (.malformed phase.method e.message))
  | noAccounts {j : Json} : listOf readText j = .ok [] →
      Ends options outputs accounts (.ok j) (.error .noAccounts)
  | timeout {account transaction : String} : options.patience.isSome →
      Ends options outputs (receipt account transaction) (.ok .null)
        (.error (.receiptTimeout transaction))
  | reverted {account transaction : String} {j : Json} {r : Receipt} : readReceipt j = .ok r →
      r.status = some "0x0" ∨ r.contractAddress = none →
      Ends options outputs (receipt account transaction) (.ok j)
        (.error (.deployReverted transaction))
  | returned {account address data : String} :
      Ends options outputs (call account address) (.ok (.str data)) (readResult outputs data)

/-- A run from a phase on: the phases it goes through as the replies come, and its result. -/
inductive Dialogue (options : Options) (outputs : List AbiParam) (afterwards : Fault) :
    Phase → List Reply → List Phase → Except Fault (Option Value) → Prop
  | silent {phase : Phase} :
      Dialogue options outputs afterwards phase [] [phase] (.error afterwards)
  | ends {phase : Phase} {reply : Reply} {replies : List Reply}
      {result : Except Fault (Option Value)} : Ends options outputs phase reply result →
      Dialogue options outputs afterwards phase (reply :: replies) [phase] result
  | next {phase phase' : Phase} {j : Json} {replies : List Reply} {phases : List Phase}
      {result : Except Fault (Option Value)} : Next phase j phase' →
      Dialogue options outputs afterwards phase' replies phases result →
      Dialogue options outputs afterwards phase (.ok j :: replies) (phase :: phases) result

end Phase

/-- From a conversation on, the computation asks what a dialogue from the phase asks. -/
def Conducts (options : Options) (artifact : Artifact) (selector : String)
    (outputs : List AbiParam) (phase : Phase) (x : Exchange (Option Value)) (c : Conversation) :
    Prop :=
  ∃ phases, (x c).2.log = c.log ++ phases.map (·.request options artifact selector) ∧
    Phase.Dialogue options outputs c.afterwards phase c.replies phases (x c).1

namespace Conducts
variable {options : Options} {artifact : Artifact} {selector : String} {outputs : List AbiParam}
  {phase : Phase}

/-- One request: its reply ends the dialogue, or what follows conducts the next phase. -/
theorem call {α : Type} {method : String} {params : Json} {read : Reader α}
    {f : α → Exchange (Option Value)} {c : Conversation}
    (hrequest : phase.request options artifact selector = ⟨method, params⟩)
    (hmisread : ∀ j e, read j = .error e → phase.Misread j e)
    (hread : ∀ j v replies, c.replies = .ok j :: replies → read j = .ok v →
      (∃ result, f v = .ofExcept result ∧ Phase.Ends options outputs phase (.ok j) result) ∨
      ∃ phase', phase.Next j phase' ∧ Conducts options artifact selector outputs phase' (f v)
        ⟨replies, c.afterwards, ⟨method, params⟩ :: c.asked⟩) :
    Conducts options artifact selector outputs phase
      (Exchange.call method params read >>= f) c := by
  obtain ⟨replies, afterwards, asked⟩ := c
  have hlog : ∀ replies', Conversation.log ⟨replies', afterwards, ⟨method, params⟩ :: asked⟩ =
      Conversation.log ⟨replies, afterwards, asked⟩ ++
        [phase].map (·.request options artifact selector) := by
    intro replies'
    rw [Conversation.log_ask replies, List.map_singleton, hrequest]
  have hmethod : phase.method = method := congrArg Request.method hrequest
  cases replies with
  | nil =>
    rw [Conducts, Exchange.bind_of_error Exchange.call_silent]
    exact ⟨[phase], hlog _, .silent⟩
  | cons reply replies =>
    cases reply with
    | error e =>
      rw [Conducts, Exchange.bind_of_error Exchange.call_failed]
      exact ⟨[phase], hlog _, .ends .failed⟩
    | ok j =>
      cases hr : read j with
      | error e =>
        rw [Conducts, Exchange.bind_of_error (Exchange.call_misread hr)]
        exact ⟨[phase], hlog _, .ends (hmethod ▸ .malformed (hmisread j e hr))⟩
      | ok v =>
        rw [Conducts, Exchange.bind_of_ok (Exchange.call_read hr)]
        rcases hread j v replies rfl hr with
          ⟨result, hf, hends⟩ | ⟨phase', hnext, phases, hrest, hd⟩
        · rw [hf, Exchange.ofExcept_apply]
          exact ⟨[phase], hlog _, .ends hends⟩
        · refine ⟨phase :: phases, ?_, .next hnext hd⟩
          rw [hrest, hlog, List.append_assoc]
          rfl

/-- Only what is done with this conversation matters. -/
theorem congr {x y : Exchange (Option Value)} {c : Conversation} (h : x c = y c)
    (hy : Conducts options artifact selector outputs phase y c) :
    Conducts options artifact selector outputs phase x c := by
  rwa [Conducts, h]

end Conducts

/-- The entry point is called and its result read. -/
def callEntry (selector : String) (outputs : List AbiParam) (account address : String) :
    Exchange (Option Value) := do
  let data ← Exchange.call "eth_call"
    (.arr [.obj [("from", .str account), ("to", .str address), ("data", .str ("0x" ++ selector))],
      .str "latest"]) readText
  .ofExcept (readResult outputs data)

section
variable (options : Options) (artifact : Artifact) (selector : String) (outputs : List AbiParam)

theorem conducts_callEntry (account address : String) (c : Conversation) :
    Conducts options artifact selector outputs (.call account address)
      (callEntry selector outputs account address) c := by
  refine Conducts.call rfl (fun _ _ h => h) ?_
  intro j data replies _ hr
  obtain rfl := readText_eq_ok hr
  exact .inl ⟨_, rfl, .returned⟩

/-- Receipts are asked for until one comes; the rounds never run out before the replies do. -/
theorem conducts_awaitReceipt (account transaction : String) (n : Nat) (patience : Option Nat)
    (c : Conversation) (hn : c.replies.length < n)
    (hpatience : patience.isSome → options.patience.isSome) :
    Conducts options artifact selector outputs (.receipt account transaction)
      (awaitReceipt transaction n patience >>= fun r => .ofExcept (r.address transaction) >>=
        callEntry selector outputs account) c := by
  induction n generalizing patience c with
  | zero => omega
  | succ n ih =>
    rw [awaitReceipt, bind_assoc]
    refine Conducts.call rfl (fun _ _ h => h) ?_
    intro j receipt replies hc hr
    have hlen : replies.length < n := by
      rw [hc, List.length_cons] at hn
      omega
    cases receipt with
    | none =>
      obtain rfl := eq_null_of_nullable_eq_none hr
      cases patience with
      | none => exact .inr ⟨_, .again, ih none _ hlen hpatience⟩
      | some k =>
        cases k with
        | zero => exact .inl ⟨_, rfl, .timeout (hpatience rfl)⟩
        | succ k => exact .inr ⟨_, .again, ih (some k) _ hlen hpatience⟩
    | some r =>
      have hread := read_of_nullable_eq_some hr
      rw [pure_bind]
      rcases r.address_cases transaction with ⟨address, hs, ha, hok⟩ | ⟨hbad, herror⟩
      · rw [hok]
        exact .inr ⟨_, .address hread hs ha, conducts_callEntry _ _ _ _ _ _ _⟩
      · rw [herror]
        exact .inl ⟨_, rfl, .reverted hread hbad⟩

theorem conducts_deploy (account : String) (c : Conversation) :
    Conducts options artifact selector outputs (.send account)
      (deploy options artifact account >>= callEntry selector outputs account) c := by
  rw [deploy, bind_assoc]
  refine Conducts.call rfl (fun _ _ h => h) ?_
  intro j transaction replies _ hr
  obtain rfl := readText_eq_ok hr
  -- the number of rounds is taken from the conversation, so only this one can be looked at
  have hawait := congrFun (bind_assoc (awaitReceipt transaction (replies.length + 1)
    options.patience) (fun r => .ofExcept (r.address transaction))
      (callEntry selector outputs account))
  exact .inr ⟨_, .transaction, Conducts.congr (hawait _) (conducts_awaitReceipt options artifact
    selector outputs account transaction (replies.length + 1) options.patience _
      (Nat.lt_succ_self _) id)⟩

theorem conducts_execute {entryPoint : String} {entry : AbiEntry}
    (he : artifact.function? entryPoint = some entry)
    (hs : artifact.selector? entryPoint = some selector) (c : Conversation) :
    Conducts options artifact selector entry.outputs (.first options)
      (execute options artifact entryPoint) c := by
  have hexecute : execute options artifact entryPoint = sender options >>= fun account =>
      deploy options artifact account >>= callEntry selector entry.outputs account := by
    rw [execute, he, hs]
    rfl
  rw [hexecute, sender, Phase.first]
  cases options.signer with
  | some signer => exact conducts_deploy options artifact selector entry.outputs signer c
  | none =>
    simp only [bind_assoc]
    refine Conducts.call rfl (fun _ _ h => h) ?_
    intro j accounts replies _ hr
    cases accounts with
    | nil => exact .inl ⟨_, rfl, .noAccounts hr⟩
    | cons account more =>
      exact .inr ⟨_, .account hr, conducts_deploy options artifact selector entry.outputs account _⟩

end

namespace Phase

namespace Dialogue
variable {options : Options} {outputs : List AbiParam} {afterwards : Fault} {phase : Phase}
  {replies : List Reply} {phases : List Phase} {result : Except Fault (Option Value)}

theorem head? (h : Dialogue options outputs afterwards phase replies phases result) :
    phases.head? = some phase := by
  cases h <;> rfl

theorem length_le (h : Dialogue options outputs afterwards phase replies phases result) :
    phases.length ≤ replies.length + 1 := by
  induction h with
  | silent => exact Nat.le_refl 1
  | ends => simp
  | next _ _ ih => simpa using ih

/-- A phase is followed by another only after a reply that says so. -/
theorem linked (h : Dialogue options outputs afterwards phase replies phases result) {i : Nat}
    {p q : Phase} (hp : phases[i]? = some p) (hq : phases[i + 1]? = some q) :
    ∃ j, replies[i]? = some (.ok j) ∧ p.Next j q := by
  induction h generalizing i with
  | silent => simp at hq
  | ends => simp at hq
  | @next phase phase' j replies phases result hnext hrest ih =>
    cases i with
    | zero =>
      obtain rfl : phase = p := by simpa using hp
      obtain rfl : phase' = q := by
        simpa [List.head?_eq_getElem?.symm.trans hrest.head?] using hq
      exact ⟨j, rfl, hnext⟩
    | succ i => exact ih (by simpa using hp) (by simpa using hq)

/-- The last phase is one without a reply, or its reply ends the run. -/
theorem last (h : Dialogue options outputs afterwards phase replies phases result) :
    ∃ p, phases.getLast? = some p ∧
      (replies.length < phases.length ∧ result = .error afterwards ∨
        ∃ reply, replies[phases.length - 1]? = some reply ∧
          Ends options outputs p reply result) := by
  induction h with
  | @silent phase => exact ⟨phase, rfl, .inl ⟨Nat.one_pos, rfl⟩⟩
  | @ends phase reply replies result hends => exact ⟨phase, rfl, .inr ⟨reply, rfl, hends⟩⟩
  | @next phase phase' j replies phases result hnext hrest ih =>
    obtain ⟨p, hp, hlast⟩ := ih
    have hpos : phases ≠ [] := by
      rintro rfl
      cases hp
    obtain ⟨first, rest, rfl⟩ := List.exists_cons_of_ne_nil hpos
    refine ⟨p, by rw [List.getLast?_cons_cons, hp], ?_⟩
    rcases hlast with ⟨hlen, hresult⟩ | ⟨reply, hreply, hends⟩
    · exact .inl ⟨by simpa using hlen, hresult⟩
    · exact .inr ⟨reply, by simpa using hreply, hends⟩

/-- A value comes of the entry point's call only. -/
theorem returned {v : Option Value}
    (h : Dialogue options outputs afterwards phase replies phases (.ok v)) :
    ∃ account address data, phases.getLast? = some (call account address) ∧
      replies[phases.length - 1]? = some (.ok (.str data)) ∧ readResult outputs data = .ok v := by
  obtain ⟨p, hp, ⟨-, hresult⟩ | ⟨reply, hreply, hends⟩⟩ := h.last
  · cases hresult
  · generalize hv : Except.ok v = result at hends
    cases hends with
    | @returned account address data => exact ⟨account, address, data, hp, hreply, rfl⟩
    | _ => cases hv

end Dialogue

/-- All phases that a run can go through, in order. -/
def sequence (options : Options) (account transaction address : String) (polls : Nat) :
    List Phase :=
  (if options.signer.isSome then [] else [accounts]) ++ send account ::
    (List.replicate (polls + 1) (receipt account transaction) ++ [call account address])

end Phase

end SoliditySession.Node
