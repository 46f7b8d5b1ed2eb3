import PrivatePayments.Bn254
import PrivatePayments.Types
import PrivatePayments.Lib.Table
import Mathlib.Data.String.Basic

/-!
# PrivatePayments.State.Storage

The local database of the client (`state/src/schema.sql`, `state/src/storage.rs`): the
tables that the event pipeline fills, the statements that fill them, and the reads that
later stages make.

A method that takes `&mut self` is a `Db` action: it keeps the tables it leaves behind when
it fails, so that what a failing transaction rolls back is explicit (`transaction`). A
method that takes `&self` is a function of the tables. Errors are their messages. The table
columns keep the names of `schema.sql`; a table that is filled from one kind of event holds
those events, its `event_id` column being the event's `id`.
-/

namespace PrivatePayments.State

/-! ## Events -/

/-- `ContractEvent`: topics and value are base64 strings, as received from RPC. -/
structure ContractEvent where
  id : String
  ledger : UInt32
  contractId : String
  topics : List String
  value : String
  deriving DecidableEq, Repr

/-- `NewNullifierEvent` -/
structure NewNullifierEvent where
  id : String
  nullifier : Fr
  deriving DecidableEq, Repr

/-- `NewCommitmentEvent` -/
structure NewCommitmentEvent where
  id : String
  commitment : Fr
  index : UInt32
  encryptedOutput : List UInt8
  deriving DecidableEq, Repr

/-- `PublicKeyEvent` -/
structure PublicKeyEvent where
  id : String
  owner : String
  encryptionKey : Bytes32
  noteKey : Bytes32
  deriving DecidableEq, Repr

/-- `LeafAddedEvent` -/
structure LeafAddedEvent where
  id : String
  leaf : Fr
  index : UInt32
  root : Fr
  deriving DecidableEq, Repr

/-! ## Tables -/

/-- `raw_contract_events`: the topics are one comma-separated text. -/
structure RawContractEvent where
  id : String
  ledger : UInt32
  contractId : Nat
  topics : String
  value : String
  deriving DecidableEq, Repr

/-- `keypairs` -/
structure KeypairColumns where
  encryptionPrivateKey : Bytes32
  encryptionPublicKey : Bytes32
  notePrivateKey : Bytes32
  notePublicKey : Bytes32
  membershipBlinding : Fr
  accountId : Nat
  deriving DecidableEq, Repr

/-- `user_notes`: `id` is the commitment of the note. -/
structure UserNote where
  id : Fr
  accountId : Nat
  commitmentId : Nat
  nullifierId : Option Nat
  expectedNullifier : Fr
  blinding : Fr
  amount : String
  deriving DecidableEq, Repr

/-- `account_commitment_scan` -/
structure AccountCommitmentScan where
  poolContractId : Nat
  accountId : Nat
  lastCommitmentId : Nat
  deriving DecidableEq, Repr

/-- `nullifier_scan_state` -/
structure NullifierScanState where
  poolContractId : Nat
  lastNullifierId : Nat
  deriving DecidableEq, Repr

/-- The tables. `contracts` and `accounts` hold addresses. -/
structure Storage where
  contracts : Table String
  rawContractEvents : Table RawContractEvent
  accounts : Table String
  keypairs : Table KeypairColumns
  poolNullifiers : Table NewNullifierEvent
  poolCommitments : Table NewCommitmentEvent
  publicKeys : Table PublicKeyEvent
  aspMembershipLeaves : Table LeafAddedEvent
  userNotes : Table UserNote
  accountCommitmentScan : Table AccountCommitmentScan
  nullifierScanState : Table NullifierScanState

/-- The tables after the migrations. -/
def Storage.empty : Storage := ⟨[], [], [], [], [], [], [], [], [], [], []⟩

/-- A method that writes. -/
abbrev Db := EStateM String Storage

/-- A transaction: its writes are rolled back when it fails. -/
def transaction {α : Type} (body : Db α) : Db α := fun s =>
  match body s with
  | .ok a s' => .ok a s'
  | .error e _ => .error e s

/-- `u32::checked_add` -/
def checkedAdd (a b : UInt32) : Option UInt32 :=
  if a.toNat + b.toNat < UInt32.size then some (a + b) else none

/-! ## Raw events -/

/-- `topics.join(",")` -/
def joinTopics (topics : List String) : String :=
  String.ofList ([','].intercalate (topics.map String.toList))

/-- `topics_str.split(',')` -/
def splitTopics (topics : String) : List String :=
  (topics.toList.splitOn ',').map String.ofList

/-- `get_or_create_contract_id` -/
def getOrCreateContractId (address : String) : Db Nat := do
  let s ← get
  match s.contracts.find? (fun c => c.columns = address) with
  | some c => pure c.rowid
  | none => do
      set { s with contracts := Table.insert s.contracts address }
      pure (Table.nextRowid s.contracts)

/-- The loop body of `save_events_batch`. -/
def saveEvent (event : ContractEvent) : Db Unit := do
  let eventContractId ← getOrCreateContractId event.contractId
  modify fun s =>
    { s with
      rawContractEvents := Table.insertNew RawContractEvent.id s.rawContractEvents
        { id := event.id
          ledger := event.ledger
          contractId := eventContractId
          topics := joinTopics event.topics
          value := event.value } }

/-- `save_events_batch` -/
def saveEventsBatch (events : List ContractEvent) : Db Unit :=
  transaction (forM events saveEvent)

/-! ## Derived tables -/

/-- A table that is filled from parsed events: where it is in the storage, the column that
`ON CONFLICT(…) DO NOTHING` names, and the unique column that refers to the raw event. -/
structure EventTable (ε κ : Type) where
  name : String
  rows : Storage → Table ε
  put : Table ε → Storage → Storage
  key : ε → κ
  eventId : ε → String
  rows_put : ∀ t s, rows (put t s) = t
  put_put : ∀ t t' s, put t (put t' s) = put t s
  put_rows : ∀ s, put (rows s) s = s
  rawContractEvents_put : ∀ t s, (put t s).rawContractEvents = s.rawContractEvents
  rows_frame : ∀ s contracts rawContractEvents,
    rows { s with contracts := contracts, rawContractEvents := rawContractEvents } = rows s

namespace EventTable

variable {ε κ : Type} [DecidableEq κ]

/-- `INSERT INTO table … ON CONFLICT(key) DO NOTHING`. The named conflict is looked for
first; any other violated constraint is an error. -/
def insertRow (T : EventTable ε κ) (event : ε) : Db Unit := do
  let s ← get
  if T.key event ∈ (Table.columns (T.rows s)).map T.key then pure ()
  else if T.eventId event ∈ (Table.columns (T.rows s)).map T.eventId then
    throw s!"UNIQUE constraint failed: {T.name}.event_id"
  else if T.eventId event ∉ (Table.columns s.rawContractEvents).map RawContractEvent.id then
    throw "FOREIGN KEY constraint failed"
  else set (T.put (Table.insert (T.rows s) event) s)

/-- The body that the four `save_*_events_batch` methods share. -/
def saveBatch (T : EventTable ε κ) (events : List ε) : Db Unit :=
  transaction (forM events T.insertRow)

end EventTable

/-- `pool_nullifiers` -/
def poolNullifiersTable : EventTable NewNullifierEvent Fr where
  name := "pool_nullifiers"
  rows := Storage.poolNullifiers
  put t s := { s with poolNullifiers := t }
  key := NewNullifierEvent.nullifier
  eventId := NewNullifierEvent.id
  rows_put _ _ := rfl
  put_put _ _ _ := rfl
  put_rows _ := rfl
  rawContractEvents_put _ _ := rfl
  rows_frame _ _ _ := rfl

/-- `pool_commitments` -/
def poolCommitmentsTable : EventTable NewCommitmentEvent Fr where
  name := "pool_commitments"
  rows := Storage.poolCommitments
  put t s := { s with poolCommitments := t }
  key := NewCommitmentEvent.commitment
  eventId := NewCommitmentEvent.id
  rows_put _ _ := rfl
  put_put _ _ _ := rfl
  put_rows _ := rfl
  rawContractEvents_put _ _ := rfl
  rows_frame _ _ _ := rfl

/-- `public_keys` -/
def publicKeysTable : EventTable PublicKeyEvent String where
  name := "public_keys"
  rows := Storage.publicKeys
  put t s := { s with publicKeys := t }
  key := PublicKeyEvent.id
  eventId := PublicKeyEvent.id
  rows_put _ _ := rfl
  put_put _ _ _ := rfl
  put_rows _ := rfl
  rawContractEvents_put _ _ := rfl
  rows_frame _ _ _ := rfl

/-- `asp_membership_leaves` -/
def aspMembershipLeavesTable : EventTable LeafAddedEvent UInt32 where
  name := "asp_membership_leaves"
  rows := Storage.aspMembershipLeaves
  put t s := { s with aspMembershipLeaves := t }
  key := LeafAddedEvent.index
  eventId := LeafAddedEvent.id
  rows_put _ _ := rfl
  put_put _ _ _ := rfl
  put_rows _ := rfl
  rawContractEvents_put _ _ := rfl
  rows_frame _ _ _ := rfl

/-- `save_nullifier_events_batch` -/
def saveNullifierEventsBatch (events : List NewNullifierEvent) : Db Unit :=
  poolNullifiersTable.saveBatch events

/-- `save_commitment_events_batch` -/
def saveCommitmentEventsBatch (events : List NewCommitmentEvent) : Db Unit :=
  poolCommitmentsTable.saveBatch events

/-- `save_public_key_events_batch` -/
def savePublicKeyEventsBatch (events : List PublicKeyEvent) : Db Unit :=
  publicKeysTable.saveBatch events

/-- `save_leaf_added_events_batch` -/
def saveLeafAddedEventsBatch (events : List LeafAddedEvent) : Db Unit :=
  aspMembershipLeavesTable.saveBatch events

/-! ## Reads -/

/-- The raw event a derived row refers to. -/
def Storage.rawEvent? (s : Storage) (eventId : String) : Option RawContractEvent :=
  (Table.columns s.rawContractEvents).find? fun r => r.id = eventId

/-- The address of a contract. -/
def Storage.contractAddress? (s : Storage) (contractId : Nat) : Option String :=
  (s.contracts.find? fun c => c.rowid = contractId).map Table.Row.columns

/-- `JOIN raw_contract_events r ON r.id = event_id JOIN contracts c ON c.contract_id =
r.contract_id`, the column `c.address`. -/
def Storage.eventAddress? (s : Storage) (eventId : String) : Option String := do
  let raw ← s.rawEvent? eventId
  s.contractAddress? raw.contractId

/-- The loop of `get_pool_commitment_leaves_ordered` over the sorted rows. -/
def collectLeaves : List NewCommitmentEvent → UInt32 → List Fr → Except String (List Fr)
  | [], _, leaves => .ok leaves
  | row :: rows, expectedIndex, leaves =>
      if row.index ≠ expectedIndex then
        .error
          s!"pool_commitments gap/out-of-order: expected index {expectedIndex}, got {row.index}"
      else
        match checkedAdd expectedIndex 1 with
        | none => .error "pool_commitments index overflow"
        | some next => collectLeaves rows next (leaves ++ [row.commitment])

/-- `get_pool_commitment_leaves_ordered` -/
def getPoolCommitmentLeavesOrdered (s : Storage) (poolContractId : String) :
    Except String (List Fr) :=
  let rows := (Table.columns s.poolCommitments).filter
    fun c => s.eventAddress? c.id = some poolContractId
  collectLeaves (Table.orderBy (fun c => c.index.toNat) rows) 0 []

/-- A raw event joined with its contract, as `get_unprocessed_events` selects it. -/
def Storage.contractEvent? (s : Storage) (raw : RawContractEvent) : Option ContractEvent :=
  (s.contractAddress? raw.contractId).map fun address =>
    { id := raw.id
      ledger := raw.ledger
      contractId := address
      topics := splitTopics raw.topics
      value := raw.value }

/-- The four `LEFT JOIN`s of `get_unprocessed_events` all find no row. -/
def Storage.Unprocessed (s : Storage) (eventId : String) : Prop :=
  eventId ∉ (Table.columns s.poolCommitments).map NewCommitmentEvent.id ∧
  eventId ∉ (Table.columns s.publicKeys).map PublicKeyEvent.id ∧
  eventId ∉ (Table.columns s.poolNullifiers).map NewNullifierEvent.id ∧
  eventId ∉ (Table.columns s.aspMembershipLeaves).map LeafAddedEvent.id

instance (s : Storage) (eventId : String) : Decidable (s.Unprocessed eventId) :=
  inferInstanceAs (Decidable (_ ∧ _ ∧ _ ∧ _))

/-- `get_unprocessed_events` -/
def getUnprocessedEvents (s : Storage) (limit : UInt32) : List ContractEvent :=
  let selected := ((Table.columns s.rawContractEvents).filter fun r => s.Unprocessed r.id)
    |>.filterMap s.contractEvent?
  (Table.orderBy (fun e => toLex (e.ledger.toNat, e.id)) selected).take limit.toNat

end PrivatePayments.State
