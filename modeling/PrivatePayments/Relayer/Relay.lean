import PrivatePayments.Disclosure.Receipt
import PrivatePayments.Stellar.SignerSound

/-!
# PrivatePayments.Relayer.Relay

The relayer (`services/relayer/src/routes/relay.rs`). It pays for the transactions of others:
a request is validated, and then, one at a time, looked up in the cache, simulated, signed and
submitted. The handlers of the requests run concurrently, and a handler is dropped where it
waits if its client goes away.

A state holds the handlers that are running and where each of them is. Beside what the relayer
keeps, it records what was submitted, and which submissions ended without an entry of the
cache.
-/

namespace PrivatePayments.Relayer

open Stellar

/-! ## Requests and errors -/

/-- `RelayRequest` -/
structure RelayRequest where
  poolId : String
  proofUncompressedHex : String
  extData : ExtData
  pub : OnchainProofPublicInputs

/-- `RelayResponse` -/
structure RelayResponse where
  txHash : String
  status : String
  deriving DecidableEq

/-- `RelayerError` -/
inductive RelayerError
  | validation (message : String)
  | simulationRejected (message : String)
  | badSequence
  | relayerAccountNotFound
  | rpc (message : String)
  | internal (message : String)
  deriving DecidableEq

/-- `str::contains` -/
def contains (text pattern : String) : Bool := decide (pattern.toList <:+: text.toList)

/-- `From<anyhow::Error> for RelayerError` -/
def RelayerError.ofAnyhow (message : String) : RelayerError :=
  if contains message "txBAD_SEQ" || contains message "TxBadSeq" then .badSequence
  else if contains message "account not found" || contains message "AccountNotFound" then
    .relayerAccountNotFound
  else .internal message

/-- The error of a preparation that failed. -/
def RelayerError.ofPrepare (message : String) : RelayerError :=
  if contains message "simulation" || contains message "contract" ||
      contains message "HostError" then .simulationRejected message
  else .ofAnyhow message

/-- The first part of `handler`. -/
def validate (req : RelayRequest) : Except RelayerError PoolTransactInput :=
  if req.proofUncompressedHex.utf8ByteSize ≠ 512 then
    .error (.validation (s!"proof_uncompressed_hex must be 512 hex chars (256 bytes), got " ++
      s!"{req.proofUncompressedHex.utf8ByteSize}"))
  else
    match Disclosure.hexDecode (Disclosure.asBytes req.proofUncompressedHex) with
    | .error e => .error (.validation s!"invalid proof hex: {e.text}")
    | .ok proofBytes => .ok ⟨proofBytes, req.extData, req.pub⟩

/-! ## Submission -/

/-- `SendTransactionResponse` -/
structure SendTransactionResponse where
  hash : String
  status : String
  errorResultXdr : Option String

/-- `send_transaction`: the node's answer. -/
def sendTransaction (answer : Except String SendTransactionResponse) :
    Except String SendTransactionResponse := do
  let resp ← answer
  if resp.status = "ERROR" then
    let detail := resp.errorResultXdr.getD ""
    throw s!"sendTransaction failed: {detail}"
  return resp

/-- `submit_tx` -/
def submitTx (answer : Except String SendTransactionResponse) : Except String String := do
  let send ← context "sendTransaction failed" (sendTransaction answer)
  if send.hash.isEmpty then
    throw "sendTransaction returned empty hash"
  return send.hash

/-! ## The relayer -/

/-- `AppState`: what does not change, with the libraries. `fingerprint` is
`relay_request_fingerprint`. -/
structure AppState (Text : Type) where
  xdr : TxXdr Text
  hashing : Hashing Text
  keys : Strkey
  ed25519 : Ed25519
  parseAddress : String → Option ScAddress
  config : ContractConfig
  signer : LocalSigner keys ed25519
  networkPassphrase : String
  fingerprint : RelayRequest → String

/-- Where a handler is. -/
inductive Phase
  /-- It waits for the sequence lock. -/
  | queued (input : PoolTransactInput)
  /-- It has the lock, and has not looked into the cache. -/
  | locked (input : PoolTransactInput)
  /-- It waits for the account of the relayer. -/
  | fetching (args : List ScVal)
  /-- It waits for the simulation. When the account was read, so many transactions had been
  submitted. -/
  | simulating (raw : TransactionEnvelope) (since : Nat)
  /-- It has submitted, and waits for the answer. -/
  | sending
  /-- It is about to write the cache. -/
  | storing (response : RelayResponse)
  | finished (result : Except RelayerError RelayResponse)
  | dropped

/-- A handler. -/
structure Task where
  request : RelayRequest
  phase : Phase

/-- A transaction that was submitted. -/
structure Sent where
  request : RelayRequest
  envelope : TransactionEnvelope
  since : Nat

/-- The handlers, the sequence lock and the cache; and the record. -/
structure State where
  tasks : Nat → Option Task
  lock : Option Nat
  cache : String → Option RelayResponse
  sent : List Sent
  lost : List RelayRequest

namespace State

def empty : State := ⟨fun _ => none, none, fun _ => none, [], []⟩

/-- The handler goes on. -/
def goto (st : State) (id : Nat) (req : RelayRequest) (phase : Phase) : State :=
  { st with tasks := Function.update st.tasks id (some ⟨req, phase⟩) }

/-- The handler ends, and the lock is free. -/
def release (st : State) (id : Nat) (req : RelayRequest) (phase : Phase) : State :=
  { st.goto id req phase with lock := none }

end State

section Handler

variable {Text : Type} (app : AppState Text)

/-- `prepare_pool_transact` up to the first answer of the node. -/
def callArgs (req : RelayRequest) (input : PoolTransactInput) : Except String (List ScVal) := do
  let _ ← enabledPoolFor app.config req.poolId
  poolTransactArgs app.parseAddress input app.signer.publicKey

/-- `prepare_pool_transact` from there to the simulation. -/
def rawCall (req : RelayRequest) (args : List ScVal) (account : Except String Int64) :
    Except String TransactionEnvelope := do
  let seqNum ← account
  let seq ← nextSequence seqNum
  buildInvokeContractTxEnvelope app.keys app.signer.publicKey seq baseFee req.poolId "transact"
    args []

/-- From the simulation to the signed transaction. -/
def signedCall (raw : TransactionEnvelope)
    (simulation : Except String (SimulateTransactionResponse Text)) :
    Except RelayerError TransactionEnvelope := do
  let prepared ← (simulation >>= PreparedSorobanTx.fromSimulation app.xdr raw).mapError
    RelayerError.ofPrepare
  (app.signer.signPreparedTransaction app.hashing app.xdr prepared app.networkPassphrase
    app.signer.publicKey).mapError .internal

/-- What happens next: a request comes in, a handler gets the lock, looks into the cache, gets
an answer of the node or writes the cache, or its client goes away. -/
inductive Action (Text : Type)
  | request (id : Nat) (req : RelayRequest)
  | acquire (id : Nat)
  | lookup (id : Nat)
  | account (id : Nat) (answer : Except String Int64)
  | simulation (id : Nat) (answer : Except String (SimulateTransactionResponse Text))
  | sent (id : Nat) (answer : Except String SendTransactionResponse)
  | store (id : Nat)
  | cancel (id : Nat)

/-- One step; an action that a handler is not ready for changes nothing. -/
def step (st : State) : Action Text → State
  | .request id req =>
      match st.tasks id with
      | some _ => st
      | none =>
          match validate req with
          | .error e => st.goto id req (.finished (.error e))
          | .ok input => st.goto id req (.queued input)
  | .acquire id =>
      match st.tasks id, st.lock with
      | some ⟨req, .queued input⟩, none =>
          { st.goto id req (.locked input) with lock := some id }
      | _, _ => st
  | .lookup id =>
      match st.tasks id with
      | some ⟨req, .locked input⟩ =>
          match st.cache (app.fingerprint req) with
          | some cached => st.release id req (.finished (.ok cached))
          | none =>
              match callArgs app req input with
              | .error e => st.release id req (.finished (.error (.ofPrepare e)))
              | .ok args => st.goto id req (.fetching args)
      | _ => st
  | .account id answer =>
      match st.tasks id with
      | some ⟨req, .fetching args⟩ =>
          match rawCall app req args answer with
          | .error e => st.release id req (.finished (.error (.ofPrepare e)))
          | .ok raw => st.goto id req (.simulating raw st.sent.length)
      | _ => st
  | .simulation id answer =>
      match st.tasks id with
      | some ⟨req, .simulating raw since⟩ =>
          match signedCall app raw answer with
          | .error e => st.release id req (.finished (.error e))
          | .ok envelope =>
              { st.goto id req .sending with sent := st.sent ++ [⟨req, envelope, since⟩] }
      | _ => st
  | .sent id answer =>
      match st.tasks id with
      | some ⟨req, .sending⟩ =>
          match submitTx answer with
          | .error e =>
              { st.release id req (.finished (.error (.ofAnyhow e))) with
                lost := st.lost ++ [req] }
          | .ok txHash => st.goto id req (.storing ⟨txHash, "submitted"⟩)
      | _ => st
  | .store id =>
      match st.tasks id with
      | some ⟨req, .storing response⟩ =>
          { st.release id req (.finished (.ok response)) with
            cache := Function.update st.cache (app.fingerprint req) (some response) }
      | _ => st
  | .cancel id =>
      match st.tasks id with
      | some ⟨_, .finished _⟩ | some ⟨_, .dropped⟩ | none => st
      | some ⟨req, .queued _⟩ => st.goto id req .dropped
      | some ⟨req, .sending⟩ | some ⟨req, .storing _⟩ =>
          { st.release id req .dropped with lost := st.lost ++ [req] }
      | some ⟨req, _⟩ => st.release id req .dropped

/-- A run of the relayer. -/
def run (acts : List (Action Text)) : State := acts.foldl (step app) .empty

end Handler

end PrivatePayments.Relayer
