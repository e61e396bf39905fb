import SoliditySession.Node.Exchange
import SoliditySession.Json.Parser
/- Requests and replies as they travel over HTTP. -/
namespace SoliditySession.Node
open Json

/-- The body of the request with the given number. -/
def Request.body (r : Request) (id : Nat) : Json :=
  .obj [("jsonrpc", .str "2.0"), ("id", .int id), ("method", .str r.method), ("params", r.params)]

structure HttpReply where
  status : Nat
  body : String

structure RpcError where
  code : Int
  message : String

def readRpcError : Reader RpcError := Fields.record "error" <|
  RpcError.mk <$> Fields.required "code" readInt64 <*> Fields.required "message" readText

/-- The result and the error that a body carries. -/
def readBody : Reader (Option Json × Option RpcError) := Fields.record "response" <|
  Prod.mk <$> Fields.withDefault "result" none (nullable readAny) <*>
    Fields.withDefault "error" none (nullable readRpcError)

def HttpReply.read (r : HttpReply) : Reply :=
  if 400 ≤ r.status then .error .unreachable
  else
    match (Json.parse? r.body).map readBody with
    | some (.ok (_, some e)) => .error (.rpc e.code e.message)
    | some (.ok (result, none)) => .ok (result.getD .null)
    | _ => .error .unreachable

/-- A server that gives these replies in turn and fails afterwards, or one that nobody reaches. -/
inductive Endpoint
  | serving (replies : List HttpReply)
  | silent

def Endpoint.conversation : Endpoint → Conversation
  | .serving replies => .ofReplies (replies.map (·.read)) .unreachable
  | .silent => .ofReplies [] .unreachable

/-- The bodies that the server receives for some requests. -/
def Endpoint.received (e : Endpoint) (log : List Request) : List Json :=
  match e with
  | .serving _ => (log.zipIdx 1).map fun r => r.1.body r.2
  | .silent => []

end SoliditySession.Node
