import PrivatePayments.State.Storage
import Mathlib.Data.List.Dedup

/-!
# PrivatePayments.Stellar.Indexer

The indexer (`stellar/src/indexer.rs`) and the tables it keeps its progress in
(`save_sync_progress`, `get_sync_metadata` of `state/src/storage.rs`).

The node is a parameter: a record of what it answers. The requests of the indexer carry a
ledger to start from and a cursor, which the node gave with an earlier page.
-/

namespace PrivatePayments.State

/-! ## Sync progress -/

/-- `indexing_metadata`; its primary key is `contract_id`. -/
structure IndexingMetadata where
  contractId : Nat
  lastCursor : Option String
  lastIndexedLedger : UInt32
  lastFullyIndexedLedger : UInt32
  deriving DecidableEq, Repr

/-- `SyncMetadata` -/
structure SyncMetadata where
  contractId : String
  cursor : String
  lastIndexedLedger : UInt32
  lastFullyIndexedLedger : UInt32
  deriving DecidableEq, Repr

/-- The tables, with that of the indexer beside the others. -/
structure SyncStorage where
  tables : Storage
  indexingMetadata : List IndexingMetadata

def SyncStorage.empty : SyncStorage := ⟨Storage.empty, []⟩

/-- A method that writes also to `indexing_metadata`. -/
abbrev SyncDb := EStateM String SyncStorage

/-- A statement on the other tables. -/
def onTables {α : Type} (body : Db α) : SyncDb α := fun s =>
  match body s.tables with
  | .ok a tables => .ok a { s with tables }
  | .error e tables => .error e { s with tables }

/-- A transaction over all tables. -/
def syncTransaction {α : Type} (body : SyncDb α) : SyncDb α := fun s =>
  match body s with
  | .ok a s' => .ok a s'
  | .error e _ => .error e s

/-- The `UPDATE` of `save_sync_progress`, with its two forms. -/
def IndexingMetadata.progress (fullyIndexed : Bool) (entry : SyncMetadata)
    (row : IndexingMetadata) : IndexingMetadata :=
  { row with
    lastCursor := some entry.cursor
    lastIndexedLedger := entry.lastIndexedLedger
    lastFullyIndexedLedger :=
      if fullyIndexed then entry.lastIndexedLedger else row.lastFullyIndexedLedger }

/-- The loop body of `save_sync_progress`. -/
def saveSyncEntry (fullyIndexed : Bool) (entry : SyncMetadata) : SyncDb Unit := do
  let contractId ← onTables (getOrCreateContractId entry.contractId)
  modify fun s =>
    { s with
      indexingMetadata := Table.addNew IndexingMetadata.contractId s.indexingMetadata
        { contractId
          lastCursor := some entry.cursor
          lastIndexedLedger := entry.lastIndexedLedger
          lastFullyIndexedLedger := 0 } }
  modify fun s =>
    { s with
      indexingMetadata := s.indexingMetadata.map fun row =>
        if row.contractId = contractId then row.progress fullyIndexed entry else row }

/-- `save_sync_progress` -/
def saveSyncProgress (metadata : List SyncMetadata) (fullyIndexed : Bool) : SyncDb Unit :=
  syncTransaction (forM metadata (saveSyncEntry fullyIndexed))

/-- A row of `indexing_metadata` joined with its contract. -/
def SyncStorage.syncMetadata? (s : SyncStorage) (row : IndexingMetadata) : Option SyncMetadata :=
  (s.tables.contractAddress? row.contractId).map fun contractId =>
    { contractId
      cursor := row.lastCursor.getD ""
      lastIndexedLedger := row.lastIndexedLedger
      lastFullyIndexedLedger := row.lastFullyIndexedLedger }

/-- `get_sync_metadata` -/
def getSyncMetadata (s : SyncStorage) : List SyncMetadata :=
  (Table.orderBy IndexingMetadata.contractId s.indexingMetadata).filterMap s.syncMetadata?

end PrivatePayments.State

namespace PrivatePayments.Stellar

open PrivatePayments.State

/-! ## The node -/

/-- The errors of `get_contract_events` that the indexer tells apart. -/
inductive RpcError where
  | rpcAhead (newest : UInt32)
  | other (message : String)

/-- `(cursor, events, latest_ledger)`; the events are already read as `ContractEvent`. -/
abbrev EventsPage := Option String × List ContractEvent × UInt32

/-- `Client`: what the node answers during a round. -/
structure Client where
  getLatestLedger : Except String UInt32
  getContractEvents : List String → (startLedger : UInt32) → (pageSize : Nat) →
    (cursor : Option String) → Except RpcError EventsPage

/-! ## The indexer -/

/-- `PAGE_SIZE` -/
def pageSize : Nat := 300

/-- `MAX_PAGES_PER_ROUND` -/
def maxPagesPerRound : Nat := 10

/-- `Indexer`, without its client and its storage. `all_contract_ids` names at least the two
contracts that are not pools. -/
structure Indexer where
  contractIds : List String
  minPoolLedger : UInt32
  contractIds_ne_nil : contractIds ≠ []

/-- `active_sync` -/
def Indexer.activeSync (indexer : Indexer) (existingSync : List SyncMetadata) :
    List SyncMetadata :=
  existingSync.filter fun entry => entry.contractId ∈ indexer.contractIds

/-- `start_ledger` -/
def Indexer.startLedger (indexer : Indexer) (activeSync : List SyncMetadata) : UInt32 :=
  ((activeSync.map SyncMetadata.lastIndexedLedger).min?).getD indexer.minPoolLedger

/-- The cursor that a round starts from; cursors that differ are dropped. -/
def resumeCursor (activeSync : List SyncMetadata) : Option String :=
  let uniqueCursors := ((activeSync.map SyncMetadata.cursor).filter (· ≠ "")).dedup
  if uniqueCursors.length ≤ 1 then
    activeSync.head?.bind fun entry => if entry.cursor = "" then none else some entry.cursor
  else none

/-- `progress_ledger` -/
def progressLedger (events : List ContractEvent) (latestLedger : UInt32) : UInt32 :=
  if events.isEmpty then latestLedger
  else ((events.map ContractEvent.ledger).max?).getD latestLedger

/-- What the round keeps of a page. -/
def Indexer.savePage (indexer : Indexer) (newCursor : String) (events : List ContractEvent)
    (latestLedger : UInt32) : SyncDb Unit := do
  onTables (saveEventsBatch events)
  saveSyncProgress
    (indexer.contractIds.map fun contractId =>
      { contractId, cursor := newCursor, lastIndexedLedger := progressLedger events latestLedger,
        lastFullyIndexedLedger := 0 })
    events.isEmpty

/-- The loop over the pages of a round. -/
def Indexer.fetchPages (indexer : Indexer) (client : Client) (startLedger : UInt32) :
    Nat → Option String → SyncDb Unit
  | 0, _ => pure ()
  | pages + 1, cursor =>
      match client.getContractEvents indexer.contractIds startLedger pageSize cursor with
      | .error (.rpcAhead _) => pure ()
      | .error (.other e) => throw e
      | .ok (none, _, _) => throw "cursor is not found in the events response"
      | .ok (some newCursor, events, latestLedger) => do
          indexer.savePage newCursor events latestLedger
          if events.isEmpty then pure ()
          else indexer.fetchPages client startLedger pages (some newCursor)

/-- `Indexer::fetch_contract_events` -/
def Indexer.fetchContractEvents (indexer : Indexer) (client : Client) : SyncDb Unit := do
  match client.getLatestLedger with
  | .error e => throw e
  | .ok _ => do
      let s ← get
      let activeSync := indexer.activeSync (getSyncMetadata s)
      indexer.fetchPages client (indexer.startLedger activeSync) maxPagesPerRound
        (resumeCursor activeSync)

/-- The tables that a method leaves, also when it fails. -/
def leaves {α : Type} (x : SyncDb α) (s : SyncStorage) : SyncStorage :=
  match x.run s with
  | .ok _ s' => s'
  | .error _ s' => s'

/-- The tables after a round, which keeps the pages that it saved before an error. -/
def Indexer.round (indexer : Indexer) (s : SyncStorage) (client : Client) : SyncStorage :=
  leaves (indexer.fetchContractEvents client) s

/-- The tables after some rounds, with a node that answers anew in each of them. -/
def Indexer.run (indexer : Indexer) (clients : List Client) (s : SyncStorage) : SyncStorage :=
  clients.foldl indexer.round s

end PrivatePayments.Stellar
