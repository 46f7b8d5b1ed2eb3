import PrivatePayments.Bootnode.Storage
import PrivatePayments.Lib.Outcome

/-!
# PrivatePayments.Bootnode.Indexer

The background indexer of the bootnode (`bootnode/src/indexer.rs`) and its settings
(`bootnode/src/config.rs`, `bootnode/src/lib.rs`).

The node behind it is a parameter: what it answers to each request of a round.
-/

namespace PrivatePayments.Bootnode

/-- `Config`: what the indexer and the handler use of it. -/
structure Config where
  redirectDays : UInt32
  ledgerSeconds : UInt32
  maxPagesPerRound : UInt32
  pageSize : UInt32
  initialLedgerTip : UInt32

/-- The fixed parts of `AppState`. -/
structure Env where
  cfg : Config
  contractIds : List String
  minDeploymentLedger : UInt32

/-- The parts of `AppState` that change. -/
structure AppState where
  storage : Storage
  ledgerTip : UInt32

/-- `UpstreamClient`: the answers of a round, the events by the number of their request. -/
structure UpstreamClient where
  getLatestLedger : Except String UInt32
  getEvents : Nat → GetEventsParams → Except String GetEventsResponse

/-- `Bootnode::setup` -/
def setup (env : Env) (storage : Storage) : AppState where
  storage
  ledgerTip := max env.cfg.initialLedgerTip storage.ledgerTip

section Round

variable (env : Env) (upstream : UpstreamClient)

/-- The request of a round that goes on from a cursor, or starts without one. -/
def eventsRequest (startLedger : Option UInt32) (cursor : Option String) : GetEventsParams :=
  .forContracts env.contractIds startLedger cursor env.cfg.pageSize

/-- The page that the answer to a request is stored as. -/
def pageOf (startLedger : Option UInt32) (cursor : Option String) (result : GetEventsResponse) :
    InsertGetEventsPage where
  cursorIn := cursor
  startLedger
  result
  cursorOut := result.cursor
  lastEventLedger := result.events.getLast?.map Event.ledger
  latestLedger := result.latestLedger
  oldestLedger := result.oldestLedger

/-- The loop over the pages of a round. -/
def fetchPages : Nat → (page : Nat) → (startLedger : Option UInt32) → (cursor : Option String) →
    StorageM Unit
  | 0, _, _, _ => pure ()
  | pages + 1, page, startLedger, cursor =>
      match upstream.getEvents page (eventsRequest env startLedger cursor) with
      | .error e => throw e
      | .ok result =>
          if result.events.isEmpty then markCaughtUp result.cursor result.latestLedger
          else do
            setInSync false
            insertGetEventsPage (pageOf startLedger cursor result)
            updateCursor result.cursor
            fetchPages pages (page + 1) none (some result.cursor)

/-- The start ledger of a round's first request. -/
def firstStartLedger (cursor : Option String) : Option UInt32 :=
  if cursor.isNone then some env.minDeploymentLedger else none

/-- A storage method. -/
def onStorage {α : Type} (body : StorageM α) : EStateM String AppState α := fun state =>
  match body.run state.storage with
  | .ok a storage => .ok a { state with storage }
  | .error e storage => .error e { state with storage }

/-- `run_round` -/
def runRound : EStateM String AppState Unit := do
  match upstream.getLatestLedger with
  | .error e => throw e
  | .ok tipSequence => do
      modify fun state => { state with ledgerTip := tipSequence }
      onStorage do
        setLedgerTip tipSequence
        let kv ← get
        fetchPages env upstream env.cfg.maxPagesPerRound.toNat 0
          (firstStartLedger env kv.lastCursor) kv.lastCursor

end Round

/-- What happens to a bootnode: a round of the indexer, or a restart. -/
inductive BootnodeStep
  | round (upstream : UpstreamClient)
  | setup

/-- One step; a round that fails keeps what it has stored. -/
def step (env : Env) (state : AppState) : BootnodeStep → AppState
  | .round upstream => Outcome.final (runRound env upstream) state
  | .setup => setup env state.storage

/-- Some steps from empty tables. -/
def run (env : Env) (steps : List BootnodeStep) : AppState :=
  steps.foldl (step env) (setup env .empty)

end PrivatePayments.Bootnode
