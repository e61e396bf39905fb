import SoliditySession.Abi.Decode
import SoliditySession.Json.Reader
/- Conversations with a node: requests, the replies to them, and what can go wrong. -/
namespace SoliditySession.Node

structure Request where
  method : String
  params : Json

inductive Fault
  /-- The node could not be reached or did not answer in the protocol. -/
  | unreachable
  | rpc (code : Int) (message : String)
  | malformed (method detail : String)
  | noAccounts
  | missingEntryPoint (contract entryPoint : String)
  | deployReverted (transaction : String)
  | receiptTimeout (transaction : String)
  | hex (fault : Text.HexFault)
  | abi (fault : AbiFault)
  /-- Reading the result crashed, which is no answer: the text is what a crash prints. -/
  | crash

def Fault.message : Fault → String
  | .unreachable => "cannot reach node"
  | .rpc code message => "node error " ++ toString code ++ ": " ++ message
  | .malformed method detail => "malformed response to " ++ method ++ ": " ++ detail
  | .noAccounts => "node has no unlocked accounts; configure a signer"
  | .missingEntryPoint contract entryPoint =>
    "contract '" ++ contract ++ "' has no zero-argument function '" ++ entryPoint ++ "'"
  | .deployReverted transaction => "deployment " ++ transaction ++ " reverted"
  | .receiptTimeout transaction => "no receipt for " ++ transaction
  | .hex fault => "invalid hex from node: " ++ fault.message
  | .abi fault => fault.message
  | .crash => "capacity overflow"

def Fault.ofDecoding : Abi.Failure → Fault
  | .fault e => .abi e
  | .crash => .crash

abbrev Reply := Except Fault Json

/-- The replies still to come, one for each request, the failure of every request after them, and
the requests made so far, latest first. -/
structure Conversation where
  replies : List Reply
  afterwards : Fault
  asked : List Request

namespace Conversation

def ofReplies (replies : List Reply) (afterwards : Fault) : Conversation := ⟨replies, afterwards, []⟩

/-- The requests in the order they were made. -/
def log (c : Conversation) : List Request := c.asked.reverse

def ask (r : Request) (c : Conversation) : Reply × Conversation :=
  match c.replies with
  | [] => (.error c.afterwards, { c with asked := r :: c.asked })
  | reply :: more => (reply, { c with replies := more, asked := r :: c.asked })

end Conversation

/-- A computation that converses and stops at the first fault. -/
def Exchange (α : Type) := Conversation → Except Fault α × Conversation

namespace Exchange
variable {α β : Type}

instance : Monad Exchange where
  pure v := fun c => (.ok v, c)
  bind x f := fun c =>
    match x c with
    | (.ok v, c) => f v c
    | (.error e, c) => (.error e, c)

def fail (e : Fault) : Exchange α := fun c => (.error e, c)

def ofExcept : Except Fault α → Exchange α
  | .ok v => pure v
  | .error e => fail e

/-- Makes a request and reads its reply. -/
def call (method : String) (params : Json) (read : Json.Reader α) : Exchange α := do
  let reply ← Conversation.ask ⟨method, params⟩
  match read reply with
  | .ok v => pure v
  | .error e => fail (.malformed method e.message)

end Exchange
end SoliditySession.Node
