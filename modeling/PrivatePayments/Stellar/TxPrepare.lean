import PrivatePayments.Prover.Groth16
import PrivatePayments.State.WitnessReads
import PrivatePayments.Stellar.PoolRoots
import PrivatePayments.Stellar.SnapshotSound
import PrivatePayments.Stellar.SorobanEncode

/-!
# PrivatePayments.Stellar.TxPrepare

The transactions that the client sends (`stellar/src/tx_prepare.rs`,
`stellar/src/tx_assemble.rs` and `build_invoke_contract_tx_envelope`). The client builds the
call of a contract, lets the node simulate it, and merges the resources and the
authorizations of the simulation into it.

The XDR library and the key library are parameters. The base64 of an XDR value is only
copied, so its type is a variable.
-/

namespace PrivatePayments.Stellar

open Prover (exists_of_bind_ok mapError_ok)

/-! ## Transactions -/

/-- `MuxedAccount` -/
inductive MuxedAccount
  | ed25519 (key : Bytes32)
  | muxedEd25519 (id : UInt64) (key : Bytes32)
  deriving DecidableEq

/-- `InvokeContractArgs` -/
structure InvokeContractArgs where
  contractAddress : ScAddress
  functionName : String
  args : List ScVal

/-- `SorobanAuthorizedFunction`; a created contract is carried as it was encoded. -/
inductive SorobanAuthorizedFunction
  | contractFn (args : InvokeContractArgs)
  | createContract (encoded : List UInt8)

/-- `SorobanAuthorizedInvocation` -/
inductive SorobanAuthorizedInvocation
  | mk (function : SorobanAuthorizedFunction) (subInvocations : List SorobanAuthorizedInvocation)

/-- `SorobanAddressCredentials`; the signature is `none` where it is `ScVal::Void`. -/
structure SorobanAddressCredentials where
  address : ScAddress
  nonce : Int64
  signatureExpirationLedger : UInt32
  signature : Option ScVal

/-- `SorobanCredentials` -/
inductive SorobanCredentials
  | sourceAccount
  | address (creds : SorobanAddressCredentials)

/-- `SorobanAuthorizationEntry` -/
structure SorobanAuthorizationEntry where
  credentials : SorobanCredentials
  rootInvocation : SorobanAuthorizedInvocation

/-- `HostFunction`; what is not a call is carried as it was encoded. -/
inductive HostFunction
  | invokeContract (args : InvokeContractArgs)
  | other (encoded : List UInt8)

/-- `InvokeHostFunctionOp` -/
structure InvokeHostFunctionOp where
  hostFunction : HostFunction
  auth : List SorobanAuthorizationEntry

/-- `OperationBody`; the classic operations are carried as they were encoded. -/
inductive OperationBody
  | invokeHostFunction (invoke : InvokeHostFunctionOp)
  | other (encoded : List UInt8)

/-- `Operation` -/
structure Operation where
  sourceAccount : Option MuxedAccount
  body : OperationBody

/-- `SorobanTransactionData`: the fee, and the footprint and resources as they were encoded. -/
structure SorobanTransactionData where
  resources : List UInt8
  resourceFee : Int64

/-- `TransactionExt` -/
inductive TransactionExt
  | v0
  | v1 (data : SorobanTransactionData)

/-- `Preconditions` -/
inductive Preconditions
  | none
  | other (encoded : List UInt8)

/-- `Memo` -/
inductive Memo
  | none
  | other (encoded : List UInt8)

/-- `Transaction` -/
structure Transaction where
  sourceAccount : MuxedAccount
  fee : UInt32
  seqNum : Int64
  cond : Preconditions
  memo : Memo
  operations : List Operation
  ext : TransactionExt

/-- `DecoratedSignature` -/
structure DecoratedSignature where
  hint : List UInt8
  signature : List UInt8
  deriving DecidableEq

/-- `TransactionV1Envelope` -/
structure TransactionV1Envelope where
  tx : Transaction
  signatures : List DecoratedSignature

/-- `TransactionEnvelope` -/
inductive TransactionEnvelope
  | tx (v1 : TransactionV1Envelope)
  | txV0 (encoded : List UInt8)
  | txFeeBump (encoded : List UInt8)

/-- What of the XDR library is used here: base64 is written and read. -/
structure TxXdr (Text : Type) where
  envelope : TransactionEnvelope → Text
  ofEnvelope : Text → Except String TransactionEnvelope
  ofAuthEntry : Text → Except String SorobanAuthorizationEntry
  ofSorobanData : Text → Except String SorobanTransactionData
  /-- An envelope that was written is read back. -/
  ofEnvelope_envelope : ∀ envelope', ofEnvelope (envelope envelope') = .ok envelope'

/-- What of the key library is used here: the keys of accounts and contracts as text. -/
structure Strkey where
  publicKey : String → Option Bytes32
  contract : String → Option Bytes32
  privateKey : String → Option Bytes32
  publicKeyString : Bytes32 → String
  contractString : Bytes32 → String
  /-- A key that was written is read back. -/
  publicKey_publicKeyString : ∀ key, publicKey (publicKeyString key) = some key
  /-- The text of a contract is not that of an account. -/
  publicKey_contractString : ∀ id, publicKey (contractString id) = none

/-- `VecM::try_from` -/
def vecM {α : Type} (max : Nat) (items : List α) : Except String (List α) :=
  if items.length ≤ max then .ok items else .error "length exceeds max"

/-- `.context(...)`: the message that is shown. -/
def context {α : Type} (message : String) (x : Except String α) : Except String α :=
  x.mapError fun _ => message

/-! ## Simulation -/

/-- `SimulateHostFunctionResult`: the authorizations. -/
structure SimulateHostFunctionResult (Text : Type) where
  auth : List Text

/-- `SimulateTransactionResponse` -/
structure SimulateTransactionResponse (Text : Type) where
  latestLedger : Int64
  result : Option (SimulateHostFunctionResult Text)
  results : List (SimulateHostFunctionResult Text)
  transactionData : Option Text
  minResourceFee : Option String
  error : Option String

/-- `PreparedSorobanTx` -/
structure PreparedSorobanTx (Text : Type) where
  txXdr : Text
  authEntries : List Text
  latestLedger : UInt32

/-- `str::parse::<u64>`: decimal digits, after a plus sign or not. -/
def parseU64 (text : String) : Option UInt64 :=
  let digits := State.stripPlus text.toList
  if digits ≠ [] ∧ digits.all Char.isDigit then
    let n := Nat.ofDigitChars 10 digits 0
    if n < 2 ^ 64 then some (UInt64.ofNat n) else none
  else none

variable {Text : Type}

namespace SimulateTransactionResponse

variable (sim : SimulateTransactionResponse Text)

/-- `first_result` -/
def firstResult : Except String (SimulateHostFunctionResult Text) :=
  match sim.result with
  | some r => .ok r
  | none =>
      match sim.results with
      | r :: _ => .ok r
      | [] => .error "simulateTransaction returned no op results"

/-- `min_resource_fee_u64` -/
def minResourceFeeU64 : Except String UInt64 :=
  match sim.minResourceFee with
  | none => .ok 0
  | some raw =>
      match parseU64 raw with
      | some fee => .ok fee
      | none => .error s!"invalid minResourceFee: {raw}"

/-- `soroban_transaction_data` -/
def sorobanTransactionData (xdr : TxXdr Text) : Except String SorobanTransactionData :=
  match sim.transactionData with
  | none => .error "simulateTransaction missing transactionData"
  | some text => (xdr.ofSorobanData text).mapError ("invalid transactionData xdr: " ++ ·)

/-- `auth_entries_base64` -/
def authEntriesBase64 : Except String (List Text) := do
  let r ← sim.firstResult
  return r.auth

/-- `auth_entries` -/
def authEntries (xdr : TxXdr Text) : Except String (List SorobanAuthorizationEntry) := do
  let texts ← sim.authEntriesBase64
  texts.mapM fun text => (xdr.ofAuthEntry text).mapError ("invalid auth entry xdr: " ++ ·)

/-- `ensure_success` -/
def ensureSuccess : Except String Unit :=
  match sim.error with
  | some err => .error s!"transaction simulation failed: {err}"
  | none => .ok ()

end SimulateTransactionResponse

/-- `u64::saturating_add` -/
def saturatingAddU64 (a b : Nat) : Nat := min (a + b) (2 ^ 64 - 1)

/-- The fee of a transaction without the resources it has already been given. -/
def classicFee (tx : Transaction) : Nat :=
  match tx.ext with
  | .v0 => tx.fee.toNat
  | .v1 existing => tx.fee.toNat - existing.resourceFee.toInt.toNat

/-- `assemble_soroban_transaction` -/
def assembleSorobanTransaction (xdr : TxXdr Text) (raw : TransactionEnvelope)
    (sim : SimulateTransactionResponse Text) : Except String TransactionEnvelope := do
  sim.ensureSuccess
  let minResourceFee ← sim.minResourceFeeU64
  let sorobanData ← sim.sorobanTransactionData xdr
  let authEntries ← sim.authEntries xdr
  match raw with
  | .tx v1 =>
      match v1.tx.operations with
      | [op] =>
          if 2 ^ 32 ≤ minResourceFee.toNat then
            throw "minResourceFee does not fit into u32"
          let fee := saturatingAddU64 (classicFee v1.tx) minResourceFee.toNat
          if 2 ^ 32 ≤ fee then
            throw "total fee does not fit into u32"
          match op.body with
          | .invokeHostFunction invoke =>
              if invoke.auth.isEmpty then
                let auth ← vecM (2 ^ 32 - 1) authEntries
                let invoke := { invoke with auth }
                let tx := { v1.tx with
                  fee := UInt32.ofNat fee
                  ext := .v1 sorobanData
                  operations := [{ op with body := .invokeHostFunction invoke }] }
                return .tx { v1 with tx }
              else
                throw ("invoke operation already has auth entries; expected empty auth " ++
                  "before assembly")
          | .other _ => throw "expected invokeHostFunction operation"
      | operations => throw s!"expected exactly one operation, got {operations.length}"
  | _ => throw "expected TransactionEnvelope::Tx"

/-- `PreparedSorobanTx::from_simulation` -/
def PreparedSorobanTx.fromSimulation (xdr : TxXdr Text) (raw : TransactionEnvelope)
    (sim : SimulateTransactionResponse Text) : Except String (PreparedSorobanTx Text) := do
  let assembled ← assembleSorobanTransaction xdr raw sim
  if sim.latestLedger.toInt < 0 ∨ 2 ^ 32 ≤ sim.latestLedger.toInt then
    throw "latestLedger does not fit into u32"
  return {
    txXdr := xdr.envelope assembled
    authEntries := ← sim.authEntriesBase64
    latestLedger := UInt32.ofNat sim.latestLedger.toInt.toNat }

/-! ## The calls -/

def baseFee : UInt32 := 100

/-- `build_invoke_contract_tx_envelope` -/
def buildInvokeContractTxEnvelope (keys : Strkey) (sourceAccount : String) (seqNum : Int64)
    (fee : UInt32) (contractId function : String) (args : List ScVal)
    (authEntries : List SorobanAuthorizationEntry) : Except String TransactionEnvelope :=
  match keys.publicKey sourceAccount with
  | none => .error "the strkey is invalid"
  | some source =>
      match keys.contract contractId with
      | none => .error "the strkey is invalid"
      | some contract => do
          if 32 < function.utf8ByteSize then
            throw "invalid function name"
          let args ← vecM (2 ^ 32 - 1) args
          let auth ← vecM (2 ^ 32 - 1) authEntries
          let invokeOp := {
            hostFunction := .invokeContract ⟨.contract contract, function, args⟩
            auth }
          return .tx {
            tx := {
              sourceAccount := .ed25519 source
              fee
              seqNum
              cond := .none
              memo := .none
              operations := [⟨none, .invokeHostFunction invokeOp⟩]
              ext := .v0 }
            signatures := [] }

/-- `next_sequence` -/
def nextSequence (current : Int64) : Except String Int64 :=
  if current.toInt = 2 ^ 63 - 1 then .error "account sequence number overflow"
  else .ok (current + 1)

/-- What the node answers while a transaction is prepared. -/
structure NodeAnswers (Text : Type) where
  /-- `get_account`: the sequence number of the entry. -/
  getAccount : String → Except String Int64
  /-- `simulate_transaction` -/
  simulateTransaction : TransactionEnvelope → Except String (SimulateTransactionResponse Text)

section Prepare

variable (xdr : TxXdr Text) (keys : Strkey) (parseAddress : String → Option ScAddress)
  (node : NodeAnswers Text) (config : ContractConfig)

/-- `account_sequence` -/
def accountSequence (sourceAccount : String) : Except String Int64 := do
  let seqNum ← node.getAccount sourceAccount
  nextSequence seqNum

/-- What the three calls below share: a call is built, simulated and assembled. -/
def prepareInvoke (sourceAccount contractId function : String) (args : List ScVal) :
    Except String (PreparedSorobanTx Text) := do
  let seq ← accountSequence node sourceAccount
  let raw ← buildInvokeContractTxEnvelope keys sourceAccount seq baseFee contractId function args []
  let sim ← node.simulateTransaction raw
  PreparedSorobanTx.fromSimulation xdr raw sim

/-- `prepare_pool_transact` -/
def preparePoolTransact (poolContractId : String) (input : PoolTransactInput)
    (sourceAccount : String) : Except String (PreparedSorobanTx Text) := do
  let _ ← enabledPoolFor config poolContractId
  let args ← poolTransactArgs parseAddress input sourceAccount
  prepareInvoke xdr keys node sourceAccount poolContractId "transact" args

/-- `prepare_register` -/
def prepareRegister (sourceAccount : String) (noteKey encryptionKey : Bytes32) :
    Except String (PreparedSorobanTx Text) := do
  let accountScval ← registerAccountToScval parseAddress sourceAccount encryptionKey noteKey
  prepareInvoke xdr keys node sourceAccount config.publicKeyRegistry "register" [accountScval]

/-- `prepare_asp_membership_insert` -/
def prepareAspMembershipInsert (sourceAccount : String) (leaf : U256) :
    Except String (PreparedSorobanTx Text) :=
  prepareInvoke xdr keys node sourceAccount config.aspMembership "insert_leaf"
    [fieldToScvalU256 leaf]

end Prepare

/-! ## What is prepared -/

theorem context_ok {α : Type} {message : String} {x : Except String α} {a : α}
    (h : context message x = .ok a) : x = .ok a := mapError_ok h

theorem vecM_ok {α : Type} {max : Nat} {items out : List α} (h : vecM max items = .ok out) :
    items.length ≤ max ∧ items = out := by
  unfold vecM at h
  by_cases hle : items.length ≤ max
  · rw [if_pos hle] at h
    exact ⟨hle, Except.ok.inj h⟩
  · rw [if_neg hle] at h
    cases h

section Assembled

variable {xdr : TxXdr Text} {sim : SimulateTransactionResponse Text}

/-- The authorizations are the entries of the simulation, decoded. -/
theorem authEntries_ok {entries : List SorobanAuthorizationEntry}
    (h : sim.authEntries xdr = .ok entries) :
    ∃ texts, sim.authEntriesBase64 = .ok texts ∧
      List.Forall₂ (fun text entry => xdr.ofAuthEntry text = .ok entry) texts entries := by
  obtain ⟨texts, htexts, h⟩ := exists_of_bind_ok h
  exact ⟨texts, htexts, (forall₂_of_mapM h).imp fun _ _ hentry => mapError_ok hentry⟩

/-- What `assemble_soroban_transaction` does to the call of a contract. -/
theorem assembleSorobanTransaction_ok {tx : Transaction} {signatures : List DecoratedSignature}
    {source : Option MuxedAccount} {function : HostFunction} {assembled : TransactionEnvelope}
    (hops : tx.operations = [⟨source, .invokeHostFunction ⟨function, []⟩⟩])
    (h : assembleSorobanTransaction xdr (.tx ⟨tx, signatures⟩) sim = .ok assembled) :
    ∃ fee data entries, sim.minResourceFeeU64 = .ok fee ∧
      classicFee tx + fee.toNat < 2 ^ 32 ∧ sim.sorobanTransactionData xdr = .ok data ∧
      sim.authEntries xdr = .ok entries ∧ entries.length < 2 ^ 32 ∧
      assembled = .tx {
        tx := { tx with
          fee := UInt32.ofNat (classicFee tx + fee.toNat)
          ext := .v1 data
          operations := [⟨source, .invokeHostFunction ⟨function, entries⟩⟩] }
        signatures } := by
  unfold assembleSorobanTransaction at h
  obtain ⟨_, -, h⟩ := exists_of_bind_ok h
  obtain ⟨fee, hfee, h⟩ := exists_of_bind_ok h
  obtain ⟨data, hdata, h⟩ := exists_of_bind_ok h
  obtain ⟨entries, hentries, h⟩ := exists_of_bind_ok h
  simp only [hops] at h
  by_cases hwide : 2 ^ 32 ≤ fee.toNat
  · rw [if_pos hwide] at h
    cases h
  · rw [if_neg hwide] at h
    by_cases htotal : 2 ^ 32 ≤ saturatingAddU64 (classicFee tx) fee.toNat
    · rw [if_pos htotal] at h
      cases h
    · rw [if_neg htotal] at h
      have hsum : saturatingAddU64 (classicFee tx) fee.toNat = classicFee tx + fee.toNat := by
        unfold saturatingAddU64 at htotal ⊢
        omega
      rw [hsum] at htotal h
      rw [if_pos List.isEmpty_nil] at h
      obtain ⟨auth, hauth, h⟩ := exists_of_bind_ok h
      obtain ⟨hlength, rfl⟩ := vecM_ok hauth
      exact ⟨fee, data, _, hfee, by omega, hdata, hentries, by omega, (Except.ok.inj h).symm⟩

end Assembled

/-- The call of a contract that waits for its signatures. The authorizations of the
simulation are in the envelope, and beside it as they came. -/
structure Prepared (xdr : TxXdr Text) (source contract : Bytes32) (function : String)
    (args : List ScVal) (seqNum : Int64) (entries : List SorobanAuthorizationEntry)
    (prepared : PreparedSorobanTx Text) (tx : Transaction) : Prop where
  envelope : xdr.ofEnvelope prepared.txXdr = .ok (.tx ⟨tx, []⟩)
  sourceAccount : tx.sourceAccount = .ed25519 source
  seqNum : tx.seqNum = seqNum
  operations : tx.operations = [⟨none, .invokeHostFunction
    ⟨.invokeContract ⟨.contract contract, function, args⟩, entries⟩⟩]
  decoded : List.Forall₂ (fun text entry => xdr.ofAuthEntry text = .ok entry)
    prepared.authEntries entries
  length_lt : entries.length < 2 ^ 32

section Prepare

variable {xdr : TxXdr Text} {keys : Strkey} {parseAddress : String → Option ScAddress}
  {node : NodeAnswers Text} {config : ContractConfig} {sourceAccount contractId : String}
  {function : String} {args : List ScVal} {prepared : PreparedSorobanTx Text}

theorem buildInvokeContractTxEnvelope_ok {seqNum : Int64} {fee : UInt32}
    {entries : List SorobanAuthorizationEntry} {raw : TransactionEnvelope}
    (h : buildInvokeContractTxEnvelope keys sourceAccount seqNum fee contractId function args
      entries = .ok raw) :
    ∃ source contract, keys.publicKey sourceAccount = some source ∧
      keys.contract contractId = some contract ∧
      raw = .tx ⟨⟨.ed25519 source, fee, seqNum, .none, .none, [⟨none, .invokeHostFunction
        ⟨.invokeContract ⟨.contract contract, function, args⟩, entries⟩⟩], .v0⟩, []⟩ := by
  unfold buildInvokeContractTxEnvelope at h
  cases hsource : keys.publicKey sourceAccount with
  | none =>
      rw [hsource] at h
      cases h
  | some source =>
      cases hcontract : keys.contract contractId with
      | none =>
          rw [hsource, hcontract] at h
          cases h
      | some contract =>
          rw [hsource, hcontract] at h
          dsimp only at h
          by_cases hlong : 32 < function.utf8ByteSize
          · rw [if_pos hlong] at h
            cases h
          · rw [if_neg hlong] at h
            obtain ⟨args', hargs, h⟩ := exists_of_bind_ok h
            obtain ⟨auth, hauth, h⟩ := exists_of_bind_ok h
            obtain ⟨-, rfl⟩ := vecM_ok hargs
            obtain ⟨-, rfl⟩ := vecM_ok hauth
            exact ⟨source, contract, rfl, rfl, (Except.ok.inj h).symm⟩

/-- Whatever the node answers, a prepared call is the call that was asked for: the source and
its next sequence number, the contract, the function and the arguments. -/
theorem prepareInvoke_ok
    (h : prepareInvoke xdr keys node sourceAccount contractId function args = .ok prepared) :
    ∃ source contract seqNum entries tx, keys.publicKey sourceAccount = some source ∧
      keys.contract contractId = some contract ∧
      accountSequence node sourceAccount = .ok seqNum ∧
      Prepared xdr source contract function args seqNum entries prepared tx := by
  obtain ⟨seqNum, hseq, h⟩ := exists_of_bind_ok h
  obtain ⟨raw, hraw, h⟩ := exists_of_bind_ok h
  obtain ⟨sim, -, h⟩ := exists_of_bind_ok h
  obtain ⟨source, contract, hsource, hcontract, rfl⟩ := buildInvokeContractTxEnvelope_ok hraw
  obtain ⟨assembled, hassembled, h⟩ := exists_of_bind_ok h
  obtain ⟨fee, data, entries, -, -, -, hentries, hlength, rfl⟩ :=
    assembleSorobanTransaction_ok rfl hassembled
  obtain ⟨texts, htexts, hdecoded⟩ := authEntries_ok hentries
  by_cases hledger : sim.latestLedger.toInt < 0 ∨ 2 ^ 32 ≤ sim.latestLedger.toInt
  · rw [if_pos hledger] at h
    cases h
  · rw [if_neg hledger, htexts] at h
    obtain rfl := Except.ok.inj h
    exact ⟨source, contract, seqNum, entries, _, hsource, hcontract, hseq, {
      envelope := xdr.ofEnvelope_envelope _
      sourceAccount := rfl
      seqNum := rfl
      operations := rfl
      decoded := hdecoded
      length_lt := hlength }⟩

end Prepare

end PrivatePayments.Stellar
