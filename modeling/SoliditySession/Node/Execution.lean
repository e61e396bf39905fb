import SoliditySession.Node.Exchange
/- Running a compiled session on a node: the contract is deployed, and its entry point called. -/
namespace SoliditySession.Node
open Json

structure Options where
  /-- The sending account; the node's first account if there is none. -/
  signer : Option String := none
  gas : Nat := 6000000
  /-- How many empty receipts are borne; without a number, any. -/
  patience : Option Nat := none

structure Receipt where
  contractAddress : Option String
  status : Option String

def readReceipt : Reader Receipt := Fields.record "Receipt" <|
  Receipt.mk <$> Fields.withDefault "contractAddress" none (nullable readText) <*>
    Fields.withDefault "status" none (nullable readText)

def sender (options : Options) : Exchange String :=
  match options.signer with
  | some signer => pure signer
  | none => do
    match ← Exchange.call "eth_accounts" (.arr []) (listOf readText) with
    | [] => .fail .noAccounts
    | account :: _ => pure account

/-- The address of a new contract, unless its creation failed. -/
def Receipt.address (r : Receipt) (transaction : String) : Except Fault String :=
  if r.status == some "0x0" then .error (.deployReverted transaction)
  else
    match r.contractAddress with
    | some address => .ok address
    | none => .error (.deployReverted transaction)

/-- Asks for a receipt until there is one, at most as often as the first argument says. -/
def awaitReceipt (transaction : String) : Nat → Option Nat → Exchange Receipt
  | 0, _ => fun c => (.error c.afterwards, c)
  | n + 1, patience => do
    let receipt ← Exchange.call "eth_getTransactionReceipt" (.arr [.str transaction])
      (nullable readReceipt)
    match receipt, patience with
    | some r, _ => pure r
    | none, some 0 => .fail (.receiptTimeout transaction)
    | none, some (k + 1) => awaitReceipt transaction n (some k)
    | none, none => awaitReceipt transaction n none

def hexNumber (n : Nat) : String := "0x" ++ String.ofList (Nat.toDigits 16 n)

/-- Deploys a contract and gives its address. More receipts than there are replies need not be
asked for, since a request without a reply fails. -/
def deploy (options : Options) (artifact : Artifact) (account : String) : Exchange String := do
  let transaction ← Exchange.call "eth_sendTransaction"
    (.arr [.obj [("from", .str account), ("data", .str ("0x" ++ artifact.bytecode)),
      ("gas", .str (hexNumber options.gas))]]) readText
  let receipt ← fun c => awaitReceipt transaction (c.replies.length + 1) options.patience c
  .ofExcept (receipt.address transaction)

/-- Drops every leading `0x`. -/
def dropHexMarks : List Char → List Char
  | '0' :: 'x' :: r => dropHexMarks r
  | r => r

def readResult (outputs : List AbiParam) (data : String) : Except Fault (Option Value) :=
  match Text.unhex (.ofList (dropHexMarks data.toList)) with
  | .error e => .error (.hex e)
  | .ok bytes => (Abi.decodeOutputs outputs bytes).mapError .ofDecoding

/-- Deploys the artifact, calls its entry point and reads the result. -/
def execute (options : Options) (artifact : Artifact) (entryPoint : String) :
    Exchange (Option Value) :=
  match artifact.function? entryPoint, artifact.selector? entryPoint with
  | some entry, some selector => do
    let account ← sender options
    let address ← deploy options artifact account
    let data ← Exchange.call "eth_call"
      (.arr [.obj [("from", .str account), ("to", .str address), ("data", .str ("0x" ++ selector))],
        .str "latest"]) readText
    .ofExcept (readResult entry.outputs data)
  | _, _ => .fail (.missingEntryPoint artifact.name entryPoint)

end SoliditySession.Node
