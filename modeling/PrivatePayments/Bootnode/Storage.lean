import PrivatePayments.Bootnode.Messages

/-!
# PrivatePayments.Bootnode.Storage

The tables of the bootnode (`bootnode/src/storage/postgres.rs`) and the methods over them
(`bootnode/src/storage/mod.rs`).

A method that fails keeps what the statements before have written. The pages are in the order
of their ids; of their columns those are left out that are written only.
-/

namespace PrivatePayments.Bootnode

/-- A row of `get_events_pages`. -/
structure CachedPage where
  cursorIn : Option String
  startLedger : Option UInt32
  result : GetEventsResponse
  cursorOut : String
  lastEventLedger : Option UInt32
  deriving DecidableEq

/-- The row of `indexer_state`, and the pages. -/
structure Storage where
  lastCursor : Option String
  lastFullyIndexedLedger : UInt32
  ledgerTip : UInt32
  inSync : Bool
  pages : List CachedPage

/-- The tables that `init` makes. -/
def Storage.empty : Storage where
  lastCursor := none
  lastFullyIndexedLedger := 0
  ledgerTip := 0
  inSync := false
  pages := []

/-- The methods of the storage. -/
abbrev StorageM := EStateM String Storage

/-- `InsertGetEventsPage` -/
structure InsertGetEventsPage where
  cursorIn : Option String
  startLedger : Option UInt32
  result : GetEventsResponse
  cursorOut : String
  lastEventLedger : Option UInt32
  latestLedger : UInt32
  oldestLedger : UInt32

/-- `i32::try_from` -/
def fitsInteger (ledger : UInt32) : Bool := decide (ledger.toNat < 2 ^ 31)

/-- `i32::try_from` with its `context` -/
def tryInteger (ledger : UInt32) (name : String) : StorageM Unit :=
  if fitsInteger ledger then pure () else throw s!"{name} exceeds postgres INTEGER range"

/-- The same of a column that may be `NULL`. -/
def tryOptionInteger (ledger : Option UInt32) (name : String) : StorageM Unit :=
  match ledger with
  | some ledger => tryInteger ledger name
  | none => pure ()

/-- `update_cursor` -/
def updateCursor (cursor : String) : StorageM Unit :=
  modify fun s => { s with lastCursor := some cursor }

/-- `set_last_fully_indexed_ledger` -/
def setLastFullyIndexedLedger (ledger : UInt32) : StorageM Unit := do
  tryInteger ledger "ledger"
  modify fun s => { s with lastFullyIndexedLedger := ledger }

/-- `set_ledger_tip` -/
def setLedgerTip (ledgerTip : UInt32) : StorageM Unit := do
  tryInteger ledgerTip "ledger_tip"
  modify fun s => { s with ledgerTip }

/-- `set_in_sync` -/
def setInSync (inSync : Bool) : StorageM Unit := modify fun s => { s with inSync }

/-- `lookup_last_event_ledger_for_cursor` -/
def Storage.lookupLastEventLedgerForCursor (s : Storage) (cursor : String) : Option UInt32 :=
  (s.pages.find? fun page => page.cursorOut = cursor ∧ page.lastEventLedger.isSome).bind
    CachedPage.lastEventLedger

/-- `get_cached_get_events_by_cursor` -/
def Storage.getCachedGetEventsByCursor (s : Storage) (cursor : String) :
    Option GetEventsResponse :=
  (s.pages.find? fun page => page.cursorIn = some cursor).map CachedPage.result

/-- `get_cached_get_events_by_start_ledger`; no row has a ledger that is no `INTEGER`. -/
def Storage.getCachedGetEventsByStartLedger (s : Storage) (startLedger : UInt32) :
    Except String (Option GetEventsResponse) :=
  if fitsInteger startLedger then
    .ok ((s.pages.find? fun page =>
      page.cursorIn = none ∧ page.startLedger = some startLedger).map CachedPage.result)
  else .error "start_ledger exceeds postgres INTEGER range"

/-- The numbers of a page that have to fit. -/
def InsertGetEventsPage.fits (page : InsertGetEventsPage) : Bool :=
  page.startLedger.all fitsInteger && page.lastEventLedger.all fitsInteger &&
    fitsInteger page.latestLedger && fitsInteger page.oldestLedger

/-- The row of a page. -/
def InsertGetEventsPage.row (page : InsertGetEventsPage) : CachedPage where
  cursorIn := page.cursorIn
  startLedger := page.startLedger
  result := page.result
  cursorOut := page.cursorOut
  lastEventLedger := page.lastEventLedger

/-- `store_get_events_page` -/
def storeGetEventsPage (page : InsertGetEventsPage) : StorageM Unit := do
  tryOptionInteger page.startLedger "start_ledger"
  tryOptionInteger page.lastEventLedger "last_event_ledger"
  tryInteger page.latestLedger "latest_ledger"
  tryInteger page.oldestLedger "oldest_ledger"
  modify fun s => { s with pages := s.pages ++ [page.row] }

/-- The lookups of `insert_get_events_page`. -/
def Storage.isCached (s : Storage) (page : InsertGetEventsPage) : Except String Bool :=
  match page.cursorIn, page.startLedger with
  | some cursorIn, _ => .ok (s.getCachedGetEventsByCursor cursorIn).isSome
  | none, some startLedger => do
      let cached ← s.getCachedGetEventsByStartLedger startLedger
      .ok cached.isSome
  | none, none => .ok false

/-- `insert_get_events_page` -/
def insertGetEventsPage (page : InsertGetEventsPage) : StorageM Unit := do
  if page.result.events.isEmpty then pure ()
  else
    let s ← get
    match s.isCached page with
    | .error e => throw e
    | .ok true => pure ()
    | .ok false => storeGetEventsPage page

/-- `mark_caught_up` -/
def markCaughtUp (cursor : String) (latestLedger : UInt32) : StorageM Unit := do
  updateCursor cursor
  setLastFullyIndexedLedger latestLedger
  setInSync true

end PrivatePayments.Bootnode
