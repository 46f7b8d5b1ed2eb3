import PrivatePayments.Stellar.ScVal

/-!
# PrivatePayments.Stellar.Snapshot

The snapshot of the contracts' state (`contracts_data` of `stellar/src/contract_state.rs`).

The root of a pool is stored under an index that is itself an entry, so an attempt reads
twice: the entries, then the root under the index that came with them and the index again.
An attempt in which an index has moved is repeated, three attempts in all.

A bulk read (`get_contract_data_bulk` of `stellar/src/rpc.rs`) sees one state of the ledger.
The entry of the contract's instance, which the caller does not look at, is left out.
-/

namespace PrivatePayments.Stellar

/-! ## The node -/

/-- A key of a contract's data: the name of a variant, with a number or not. -/
structure DataKey where
  name : String
  value : Option UInt32
  deriving DecidableEq

/-- A state of the ledger, as the node reads it. An id that is no contract has no entries. -/
structure LedgerView where
  latestLedger : UInt32
  entry : String → DataKey → Option ScVal

/-- `ContractDataBulkRequest` -/
structure ContractDataBulkRequest where
  contractId : String
  enumKeys : List String
  valuedKeys : List (String × UInt32)

/-- The keys of a request, all of which are required. -/
def ContractDataBulkRequest.keys (request : ContractDataBulkRequest) : List DataKey :=
  request.enumKeys.map (fun name => ⟨name, none⟩) ++
    request.valuedKeys.map fun key => ⟨key.1, some key.2⟩

/-- The values of a contract, by the names of their keys. -/
abbrev ContractState := List (String × ScVal)

/-- The values of the requested contracts. -/
abbrev BulkState := List (String × ContractState)

/-- The part of a bulk read that is for one request. -/
def LedgerView.read (view : LedgerView) (request : ContractDataBulkRequest) :
    Except String (String × ContractState) :=
  let missing := request.keys.filter fun key => (view.entry request.contractId key).isNone
  if missing = [] then
    .ok (request.contractId, request.keys.filterMap fun key =>
      (view.entry request.contractId key).map fun val => (key.name, val))
  else
    .error s!"missing required contract keys for {request.contractId}: {missing.map DataKey.name}"

/-- `get_contract_data_bulk` -/
def getContractDataBulk (view : LedgerView) (requests : List ContractDataBulkRequest) :
    Except String (BulkState × UInt32) :=
  if requests.isEmpty then .ok ([], 0)
  else do
    let states ← requests.mapM view.read
    .ok (states, view.latestLedger)

/-! ## The client -/

/-- `PoolInfo` -/
structure PoolInfo where
  ledger : UInt32
  contractId : String
  contractType : String
  admin : String
  token : String
  verifier : String
  aspmembership : String
  aspnonmembership : String
  merkleLevels : UInt32
  merkleCurrentRootIndex : Option UInt32
  merkleNextIndex : String
  merkleRoot : Option Fr
  merkleCapacity : UInt64
  totalCommitments : String

/-- `AspMembership` -/
structure AspMembership where
  ledger : UInt32
  contractId : String
  contractType : String
  root : Fr
  levels : UInt32
  nextIndex : String
  admin : String
  adminInsertOnly : Bool
  capacity : UInt64
  usedSlots : String

/-- `AspNonMembership` -/
structure AspNonMembership where
  ledger : UInt32
  contractId : String
  contractType : String
  root : Fr
  isEmpty : Bool
  admin : String

/-- `ContractsStateData` -/
structure ContractsStateData where
  pools : List PoolInfo
  aspMembership : AspMembership
  aspNonMembership : AspNonMembership

/-- `ok_or_else` -/
def okOrElse {α : Type} (o : Option α) (message : String) : Except String α :=
  match o with
  | some a => .ok a
  | none => .error message

/-- `Option<Result<_>>::transpose` after a `map`. -/
def mapTranspose {α β : Type} (o : Option α) (f : α → Except String β) :
    Except String (Option β) :=
  match o with
  | some a => do
      let b ← f a
      .ok (some b)
  | none => .ok none

/-- `get_state!` -/
def getState (state : ContractState) (key source : String) : Except String ScVal :=
  okOrElse (state.lookup key) s!"missing {key} state key in the contract \"{source}\""

/-- `bulk_state.get` of a pool. -/
def poolStateOf (bulk : BulkState) (pool : PoolConfigEntry) : Except String ContractState :=
  okOrElse (bulk.lookup pool.poolContractId) s!"missing pool state for {pool.poolContractId}"

/-- The request for the entries of a pool. -/
def poolRequest (pool : PoolConfigEntry) : ContractDataBulkRequest where
  contractId := pool.poolContractId
  enumKeys := ["Admin", "Token", "Verifier", "ASPMembership", "ASPNonMembership", "Levels",
    "CurrentRootIndex", "NextIndex"]
  valuedKeys := []

/-- The requests of the first read. -/
def stateRequests (config : ContractConfig) (pools : List PoolConfigEntry) :
    List ContractDataBulkRequest :=
  pools.map poolRequest ++
    [⟨config.aspMembership, ["Root", "Levels", "NextIndex", "Admin", "AdminInsertOnly"], []⟩,
     ⟨config.aspNonMembership, ["Root", "Admin"], []⟩]

/-- The index of a pool's current root in the first read. -/
def expectedRootIndex (bulk : BulkState) (pool : PoolConfigEntry) : Except String UInt32 := do
  let poolState ← poolStateOf bulk pool
  let val ← okOrElse (poolState.lookup "CurrentRootIndex")
    s!"missing pool current root index state for {pool.poolContractId}"
  scvalToU32 val

/-- The request of a pool in the second read. -/
def rootRequest (bulk : BulkState) (pool : PoolConfigEntry) :
    Except String ContractDataBulkRequest := do
  let currentRootIndex ← expectedRootIndex bulk pool
  .ok ⟨pool.poolContractId, ["CurrentRootIndex"], [("Root", currentRootIndex)]⟩

/-- The index in the second read. -/
def observedRootIndex (rootState : BulkState) (pool : PoolConfigEntry) : Except String UInt32 := do
  let checkState ← okOrElse (rootState.lookup pool.poolContractId)
    s!"missing pool index check state for {pool.poolContractId}"
  let val ← getState checkState "CurrentRootIndex" pool.poolContractId
  scvalToU32 val

/-- What the loop over the pools reports for one whose index has moved. -/
def driftOf (bulk rootState : BulkState) (pool : PoolConfigEntry) :
    Except String (Option String) := do
  let expected ← expectedRootIndex bulk pool
  let observed ← observedRootIndex rootState pool
  .ok (if observed ≠ expected then
    some s!"{pool.poolContractId} expected_index={expected} observed_index={observed}"
  else none)

/-- A root that was read. -/
def rootField (val : ScVal) : Except String Fr := do
  let v ← scvalToU256 val
  fieldTryFromU256 v

section Client

variable (addressString : ScVal → Except String String)

/-- An address among the values of a contract. -/
def addressOf (state : ContractState) (key source : String) : Except String String := do
  let val ← getState state key source
  addressString val

/-- The loop body that makes a `PoolInfo`. -/
def poolInfo (bulk rootState : BulkState) (baseLatestLedger : UInt32) (pool : PoolConfigEntry) :
    Except String PoolInfo := do
  let poolState ← poolStateOf bulk pool
  let merkleCurrentRootIndex ← mapTranspose (poolState.lookup "CurrentRootIndex") scvalToU32
  let merkleRoot ← mapTranspose
    ((rootState.lookup pool.poolContractId).bind fun state => state.lookup "Root") rootField
  let levels ← getState poolState "Levels" pool.poolContractId
  let merkleLevels ← scvalToU32 levels
  let nextIndex ← getState poolState "NextIndex" pool.poolContractId
  let merkleNextIndex ← scvalToU64 nextIndex
  let admin ← addressOf addressString poolState "Admin" pool.poolContractId
  let token ← addressOf addressString poolState "Token" pool.poolContractId
  let verifier ← addressOf addressString poolState "Verifier" pool.poolContractId
  let aspmembership ← addressOf addressString poolState "ASPMembership" pool.poolContractId
  let aspnonmembership ← addressOf addressString poolState "ASPNonMembership" pool.poolContractId
  .ok {
    ledger := baseLatestLedger
    contractId := pool.poolContractId
    contractType := "Privacy Pool"
    admin, token, verifier, aspmembership, aspnonmembership, merkleLevels, merkleCurrentRootIndex
    merkleNextIndex := toString merkleNextIndex
    merkleRoot
    merkleCapacity := UInt64.ofNat (2 ^ merkleLevels.toNat)
    totalCommitments := toString merkleNextIndex }

/-- The `AspMembership` of a snapshot. -/
def aspMembershipInfo (bulk : BulkState) (baseLatestLedger : UInt32) (id : String) :
    Except String AspMembership := do
  let state ← okOrElse (bulk.lookup id) s!"missing asp membership state for {id}"
  let nextIndex ← getState state "NextIndex" id
  let nextIndex ← scvalToU64 nextIndex
  let levels ← getState state "Levels" id
  let levels ← scvalToU32 levels
  let rootVal ← getState state "Root" id
  let root ← rootField rootVal
  let admin ← addressOf addressString state "Admin" id
  let adminInsertOnly ← getState state "AdminInsertOnly" id
  let adminInsertOnly ← scvalToBool adminInsertOnly
  .ok {
    ledger := baseLatestLedger
    contractId := id
    contractType := "ASP Membership"
    root, levels
    nextIndex := toString nextIndex
    admin, adminInsertOnly
    capacity := UInt64.ofNat (2 ^ levels.toNat)
    usedSlots := toString nextIndex }

/-- The `AspNonMembership` of a snapshot. -/
def aspNonMembershipInfo (bulk : BulkState) (baseLatestLedger : UInt32) (id : String) :
    Except String AspNonMembership := do
  let state ← okOrElse (bulk.lookup id) s!"missing asp non-membership state for {id}"
  let rootVal ← getState state "Root" id
  let root ← rootField rootVal
  let admin ← addressOf addressString state "Admin" id
  .ok {
    ledger := baseLatestLedger
    contractId := id
    contractType := "ASP Non-Membership (Sparse Merkle Tree)"
    root
    isEmpty := decide (root = 0)
    admin }

variable (config : ContractConfig) (pools : List PoolConfigEntry)

/-- The snapshot that an attempt without drift returns. -/
def snapshotData (bulk rootState : BulkState) (baseLatestLedger : UInt32) :
    Except String ContractsStateData := do
  let out ← pools.mapM (poolInfo addressString bulk rootState baseLatestLedger)
  let aspMembership ← aspMembershipInfo addressString bulk baseLatestLedger config.aspMembership
  let aspNonMembership ←
    aspNonMembershipInfo addressString bulk baseLatestLedger config.aspNonMembership
  .ok { pools := out, aspMembership, aspNonMembership }

/-- One attempt, whose two reads see two states of the ledger: a snapshot, or what drifted. -/
def snapshotAttempt (first second : LedgerView) :
    Except String (ContractsStateData ⊕ List String) := do
  let (bulk, baseLatestLedger) ← getContractDataBulk first (stateRequests config pools)
  let requests ← pools.mapM (rootRequest bulk)
  let (rootState, _) ← getContractDataBulk second requests
  let drift ← pools.mapM (driftOf bulk rootState)
  let drift := drift.filterMap id
  if drift.isEmpty then do
    let data ← snapshotData addressString config pools bulk rootState baseLatestLedger
    .ok (.inl data)
  else .ok (.inr drift)

/-- `MAX_SNAPSHOT_ATTEMPTS` -/
def maxSnapshotAttempts : Nat := 3

/-- The loop over the attempts, each with the states that its reads see. -/
def snapshotLoop : List (LedgerView × LedgerView) → (lastDrift : String) →
    Except String ContractsStateData
  | [], lastDrift =>
      .error s!"inconsistent snapshot after {maxSnapshotAttempts} attempts: {lastDrift}"
  | (first, second) :: attempts, _ => do
      match ← snapshotAttempt addressString config pools first second with
      | .inl data => .ok data
      | .inr drift => snapshotLoop attempts (String.intercalate ", " drift)

/-- `contracts_data` -/
def contractsData (attempts : Fin maxSnapshotAttempts → LedgerView × LedgerView) :
    Except String ContractsStateData :=
  snapshotLoop addressString config pools (List.ofFn attempts) ""

end Client

end PrivatePayments.Stellar
