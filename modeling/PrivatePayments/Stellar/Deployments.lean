import PrivatePayments.Stellar.IndexerSound

/-!
# PrivatePayments.Stellar.Deployments

The indexer over changing deployments.

`Indexer::init` makes an indexer for the contracts of a configuration; the tables stay, and the
next configuration may name other pools. The rounds have one start ledger and one cursor for
all contracts, taken from those that have a row in `indexing_metadata`. A contract without a
row is thus read from where the others are, and still counts as indexed with them: the stored
events are complete if it has no event before that place (`changing_deployment_complete`).

Here the node serves every event from the requested ledger or cursor in order.
-/

namespace PrivatePayments.Stellar

open PrivatePayments.State

/-! ## Indexers for configurations -/

/-- `probe_ledger` -/
def Indexer.probeLedger (indexer : Indexer) (activeSync : List SyncMetadata) : UInt32 :=
  (((activeSync.map SyncMetadata.lastIndexedLedger).filter (0 < ·)).min?).getD
    indexer.minPoolLedger

/-- `Indexer::init`; the storage answers with the progress so far. -/
def Indexer.init (config : ContractConfig) (client : Client) (existingSync : List SyncMetadata) :
    Except String Indexer := do
  let minPoolLedger ← config.minDeploymentLedger
  let indexer : Indexer := {
    contractIds := config.allContractIds
    minPoolLedger
    contractIds_ne_nil := by simp [ContractConfig.allContractIds] }
  let probeLedger := indexer.probeLedger (indexer.activeSync existingSync)
  match client.getContractEvents indexer.contractIds probeLedger 1 none with
  | .ok _ => .ok indexer
  | .error (.rpcAhead _) => .ok indexer
  | .error (.other e) => .error e

/-- The tables and the indexer that is running, if one is. -/
structure IndexerSystem where
  tables : SyncStorage
  indexer : Option Indexer

/-- A new indexer for a configuration, or a round of the one that is running. -/
inductive IndexerStep
  | init (config : ContractConfig) (client : Client)
  | fetch (client : Client)

namespace IndexerSystem

def empty : IndexerSystem := ⟨.empty, none⟩

/-- One step; an `init` that fails leaves no indexer. -/
def step (sys : IndexerSystem) : IndexerStep → IndexerSystem
  | .init config client =>
      { sys with indexer := (Indexer.init config client (getSyncMetadata sys.tables)).toOption }
  | .fetch client =>
      match sys.indexer with
      | some indexer => { sys with tables := indexer.round sys.tables client }
      | none => sys

/-- Some steps from empty tables. -/
def run (steps : List IndexerStep) : IndexerSystem := steps.foldl step empty

end IndexerSystem

/-! ## A node without windows -/

/-- A page of a node without windows: the events of the contracts from the position of the
request on, up to the reported ledger unless the page is full. -/
structure IsOpenPage (log : EventLog) (paging : Paging) (contractIds : List String) (first : ℕ)
    (newCursor : String) (events : List ContractEvent) (next : ℕ) (latestLedger : UInt32) :
    Prop where
  cursor_ne : newCursor ≠ ""
  cursorPlace : paging.cursorPlace newCursor = some next
  le : first ≤ next
  events_eq : events = log.between contractIds first next
  size : events.length ≤ pageSize
  full : events.length = pageSize ∨ log.Quiet contractIds next latestLedger

/-- A node that serves every event from the requested place on. Of `paging` it has the cursors
only. It may also answer with an error. -/
def ServesAll (log : EventLog) (paging : Paging) (client : Client) : Prop :=
  ∀ contractIds startLedger cursor newCursor events latestLedger,
    client.getContractEvents contractIds startLedger pageSize cursor =
      .ok (newCursor, events, latestLedger) →
    ∀ first, log.requestPlace paging startLedger cursor = some first →
      ∃ c next, newCursor = some c ∧
        IsOpenPage log paging contractIds first c events next latestLedger

/-- The place that a round starts from. -/
def Indexer.startPlace (log : EventLog) (paging : Paging) (indexer : Indexer) (s : SyncStorage) :
    Option ℕ :=
  let activeSync := indexer.activeSync (getSyncMetadata s)
  log.requestPlace paging (indexer.startLedger activeSync) (resumeCursor activeSync)

/-- An active contract without progress has no event before the place that the round starts
from. -/
def Indexer.NoneEarlier (log : EventLog) (paging : Paging) (indexer : Indexer)
    (s : SyncStorage) : Prop :=
  ∀ contractId ∈ indexer.contractIds,
    (∀ entry ∈ getSyncMetadata s, entry.contractId ≠ contractId) →
    ∀ first ∈ indexer.startPlace log paging s,
      ∀ e ∈ log.events, e.contractId = contractId → first ≤ log.place e

/-- Every event of an active contract is stored, up to the ledger to which the contract counts
as fully indexed. -/
def IndexerSystem.Complete (log : EventLog) (sys : IndexerSystem) : Prop :=
  ∀ indexer ∈ sys.indexer, ∀ entry ∈ getSyncMetadata sys.tables,
    entry.contractId ∈ indexer.contractIds →
    ∀ e ∈ log.events, e.contractId = entry.contractId →
      e.ledger ≤ entry.lastFullyIndexedLedger → e.asRead ∈ sys.tables.tables.storedEvents

/-! ## One page -/

/-- What the row of a contract stands for: its events before the cursor, below the last indexed
ledger and up to the fully indexed one are stored. -/
structure RowStored (log : EventLog) (paging : Paging) (stored : List ContractEvent)
    (contractId : String) (row : IndexingMetadata) : Prop where
  cursor : ∃ c next, row.lastCursor = some c ∧ c ≠ "" ∧ paging.cursorPlace c = some next ∧
    ∀ e ∈ log.events, e.contractId = contractId → log.place e < next → e.asRead ∈ stored
  indexed : ∀ e ∈ log.events, e.contractId = contractId → e.ledger < row.lastIndexedLedger →
    e.asRead ∈ stored
  fully : ∀ e ∈ log.events, e.contractId = contractId → e.ledger ≤ row.lastFullyIndexedLedger →
    e.asRead ∈ stored

/-- The tables keep what every row stands for. -/
structure Tracked (log : EventLog) (paging : Paging) (s : SyncStorage) : Prop where
  linked : s.Linked
  sound : ∀ r ∈ s.tables.storedEvents, ∃ e ∈ log.events, r = e.asRead
  row : ∀ row ∈ s.indexingMetadata, ∀ a, s.tables.contractAddress? row.contractId = some a →
    RowStored log paging s.tables.storedEvents a row

/-- Everything of the contracts before a place is stored. -/
def StoredBefore (log : EventLog) (contractIds : List String) (s : SyncStorage) (first : ℕ) :
    Prop :=
  ∀ e ∈ log.events, e.contractId ∈ contractIds → log.place e < first →
    e.asRead ∈ s.tables.storedEvents

theorem RowStored.mono {log : EventLog} {paging : Paging} {stored stored' : List ContractEvent}
    {contractId : String} {row : IndexingMetadata} (hsub : ∀ r ∈ stored, r ∈ stored')
    (h : RowStored log paging stored contractId row) :
    RowStored log paging stored' contractId row where
  cursor := by
    obtain ⟨c, next, hlast, hne, hplace, hstored⟩ := h.cursor
    exact ⟨c, next, hlast, hne, hplace, fun e he ha hlt => hsub _ (hstored e he ha hlt)⟩
  indexed e he ha hlt := hsub _ (h.indexed e he ha hlt)
  fully e he ha hle := hsub _ (h.fully e he ha hle)

section Page

variable {log : EventLog} {paging : Paging} {indexer : Indexer} {s : SyncStorage} {first next : ℕ}
  {c : String} {events : List ContractEvent} {latestLedger : UInt32}

/-- The rows of the contracts after `save_sync_progress` have the new ledger. -/
theorem lastIndexed_syncAll (h : s.Linked) (contractIds : List String) (fullyIndexed : Bool)
    (cursor : String) (ledger : UInt32) {row : IndexingMetadata} :
    let s' := (contractIds.map fun contractId =>
      { contractId, cursor, lastIndexedLedger := ledger, lastFullyIndexedLedger := 0 }).foldl
        (SyncStorage.syncEntry fullyIndexed) s
    row ∈ s'.indexingMetadata → ∀ a ∈ contractIds,
      s'.tables.contractAddress? row.contractId = some a → row.lastIndexedLedger = ledger := by
  induction contractIds using List.reverseRecOn generalizing row with
  | nil => exact fun _ a ha => by cases ha
  | append_singleton contractIds contractId ih =>
      intro s' hrow a ha haddress
      have hlinked := (h.syncAll contractIds fullyIndexed cursor ledger).linked
      simp only [s', List.map_append, List.foldl_append, List.map_cons, List.map_nil,
        List.foldl_cons, List.foldl_nil] at hrow haddress
      obtain ⟨old, hold, rfl⟩ := List.mem_map.mp hrow
      split_ifs at haddress ⊢ with hid
      · rfl
      · -- another contract, whose row is an old one
        rcases Table.mem_or_eq_of_mem_addNew hold with hmem | rfl
        · obtain ⟨a', ha'⟩ := hlinked.rows old hmem
          obtain rfl : a' = a := Option.some.inj
            ((contractAddress?_withContract ha').symm.trans haddress)
          rcases List.mem_append.mp ha with hin | hlast
          · exact ih hmem a' hin ha'
          · rw [List.mem_singleton.mp hlast] at haddress
            exact absurd (contractAddress?_inj (nodup_withContract hlinked.addresses) haddress
              (contractAddress?_contractIdOf hlinked.tables.contracts)) hid
        · exact absurd rfl hid

theorem Tracked.pageSaved_storedEvents (h : Tracked log paging s) :
    (indexer.pageSaved c events latestLedger s).tables.storedEvents =
      Table.addAllNew ContractEvent.id s.tables.storedEvents (events.map ContractEvent.asRead) :=
  ((linked_addEvents h.linked events).syncAll _ _ _ _).events.trans
    (h.linked.tables.storedEvents_addEvents events)

/-- Everything up to the end of the page is stored. -/
theorem Tracked.pageSaved_before (h : Tracked log paging s)
    (hbefore : StoredBefore log indexer.contractIds s first)
    (hp : IsOpenPage log paging indexer.contractIds first c events next latestLedger) :
    (∀ r ∈ (indexer.pageSaved c events latestLedger s).tables.storedEvents,
      ∃ e ∈ log.events, r = e.asRead) ∧
    StoredBefore log indexer.contractIds (indexer.pageSaved c events latestLedger s) next := by
  have hevents : ∀ e ∈ events, e ∈ log.events := by
    rw [hp.events_eq]
    exact fun e he => (List.mem_filter.mp he).1
  have hstored : (indexer.pageSaved c events latestLedger s).tables.storedEvents = _ :=
    h.pageSaved_storedEvents
  rw [StoredBefore, hstored]
  constructor
  · intro r hr
    rcases Table.mem_or_mem_of_mem_addAllNew hr with hold | hnew
    · exact h.sound r hold
    · obtain ⟨e, he, rfl⟩ := List.mem_map.mp hnew
      exact ⟨e, hevents e he, rfl⟩
  · intro e he ha hlt
    rcases Nat.lt_or_ge (log.place e) first with hold | hnew
    · exact Table.mem_addAllNew_of_mem (hbefore e he ha hold)
    · refine log.mem_addAllNew h.sound hevents ?_
      rw [hp.events_eq, EventLog.between, List.mem_filter]
      exact ⟨he, by simpa using ⟨ha, hnew, hlt⟩⟩

instance maxEqOrUInt32 : Std.MaxEqOr UInt32 where
  max_eq_or a b := by
    show (if a ≤ b then b else a) = a ∨ (if a ≤ b then b else a) = b
    split
    · exact Or.inr rfl
    · exact Or.inl rfl

/-- No event below the ledger that a page sets as progress comes after the page. -/
theorem IsOpenPage.lt_next (hp : IsOpenPage log paging indexer.contractIds first c events next
    latestLedger) {e : ContractEvent} (he : e ∈ log.events) (ha : e.contractId ∈ indexer.contractIds)
    (hle : e.ledger < progressLedger events latestLedger ∨
      events.isEmpty = true ∧ e.ledger ≤ progressLedger events latestLedger) :
    log.place e < next := by
  cases hempty : events.isEmpty with
  | true =>
      have hquiet : log.Quiet indexer.contractIds next latestLedger := by
        refine hp.full.resolve_left fun hfull => ?_
        rw [List.isEmpty_iff.mp hempty] at hfull
        cases hfull
      rw [progressLedger, if_pos hempty] at hle
      by_contra hge
      have hlt := hquiet e he ha (not_lt.mp hge)
      rcases hle with hle | ⟨-, hle⟩
      · exact UInt32.lt_irrefl _ (UInt32.lt_trans hlt hle)
      · exact UInt32.not_le.mpr hlt hle
  | false =>
      have hlt := hle.resolve_right fun h => by simp [hempty] at h
      -- the ledger is that of an event of the page
      obtain ⟨e', he', heq⟩ : ∃ e' ∈ events, e'.ledger = progressLedger events latestLedger := by
        rw [progressLedger, if_neg (by simp [hempty])]
        cases hmax : (events.map ContractEvent.ledger).max? with
        | none =>
            have hnil : events = [] := List.map_eq_nil_iff.mp (List.max?_eq_none_iff.mp hmax)
            simp [hnil] at hempty
        | some ledger => exact List.mem_map.mp (List.max?_mem hmax)
      rw [hp.events_eq, EventLog.between, List.mem_filter] at he'
      have hbetween := of_decide_eq_true he'.2
      have hplace : log.place e < log.base e'.ledger := by
        by_contra hge
        have := (log.base_le e he _).mp (not_lt.mp hge)
        rw [heq] at this
        exact UInt32.not_le.mpr hlt this
      have := (log.base_le e' he'.1 _).mpr (UInt32.le_refl _)
      exact (hplace.trans_le this).trans hbetween.2.2

/-- **One page.** The rows of the contracts stand for everything up to the end of the page, and
the other rows for what they stood for. -/
theorem Tracked.page (h : Tracked log paging s)
    (hbefore : StoredBefore log indexer.contractIds s first)
    (hp : IsOpenPage log paging indexer.contractIds first c events next latestLedger) :
    Tracked log paging (indexer.pageSaved c events latestLedger s) ∧
      StoredBefore log indexer.contractIds (indexer.pageSaved c events latestLedger s) next := by
  have hsynced := (linked_addEvents h.linked events).syncAll indexer.contractIds events.isEmpty c
    (progressLedger events latestLedger)
  obtain ⟨hsound, hnext⟩ := h.pageSaved_before hbefore hp
  have hsubset : ∀ r ∈ s.tables.storedEvents,
      r ∈ (indexer.pageSaved c events latestLedger s).tables.storedEvents := fun r hr => by
    rw [h.pageSaved_storedEvents]
    exact Table.mem_addAllNew_of_mem hr
  have hold : ∀ row ∈ s.indexingMetadata, ∀ a,
      (indexer.pageSaved c events latestLedger s).tables.contractAddress? row.contractId = some a →
      RowStored log paging (indexer.pageSaved c events latestLedger s).tables.storedEvents a row := by
    intro row hrow a ha
    obtain ⟨a', ha'⟩ := h.linked.rows row hrow
    have := hsynced.address row.contractId a' (contractAddress?_addEvents ha' events)
    obtain rfl : a' = a := Option.some.inj (this.symm.trans ha)
    exact (h.row row hrow a' ha').mono hsubset
  refine ⟨⟨hsynced.linked, hsound, fun row hrow a ha => ?_⟩, hnext⟩
  obtain ⟨a', ha', ⟨hmem, hcursor, hfull, hpart⟩ | ⟨-, hrow'⟩⟩ := hsynced.row row hrow
  · obtain rfl : a' = a := Option.some.inj (ha'.symm.trans ha)
    have hindexed := lastIndexed_syncAll (linked_addEvents h.linked events) indexer.contractIds
      events.isEmpty c (progressLedger events latestLedger) hrow a' hmem ha
    refine {
      cursor := ⟨c, next, hcursor, hp.cursor_ne, hp.cursorPlace, fun e he hcontract hlt =>
        hnext e he (hcontract ▸ hmem) hlt⟩
      indexed := fun e he hcontract hlt => hnext e he (hcontract ▸ hmem)
        (hp.lt_next he (hcontract ▸ hmem) (Or.inl (hindexed ▸ hlt)))
      fully := fun e he hcontract hle => ?_ }
    cases hempty : events.isEmpty with
    | true =>
        rw [hfull hempty] at hle
        exact hnext e he (hcontract ▸ hmem) (hp.lt_next he (hcontract ▸ hmem) (Or.inr ⟨hempty, hle⟩))
    | false =>
        rcases hpart hempty with hzero | ⟨old, hmemOld, hid, hledger⟩
        · rw [hzero] at hle
          exact absurd (log.ledger_pos e he) (UInt32.not_lt.mpr hle)
        · exact (hold old hmemOld a' (hid ▸ ha)).fully e he hcontract (hledger ▸ hle)
  · exact hold row hrow' a ha

/-- The pages of a round. -/
theorem Tracked.pages {client : Client} (hserves : ServesAll log paging client)
    (startLedger : UInt32) : ∀ (pages : ℕ) {s : SyncStorage} {first : ℕ} {cursor : Option String},
      Tracked log paging s → StoredBefore log indexer.contractIds s first →
      log.requestPlace paging startLedger cursor = some first →
      Tracked log paging (indexer.pagesSaved client startLedger pages cursor s) := by
  intro pages
  induction pages with
  | zero => exact fun h _ _ => h
  | succ pages ih =>
      intro s first cursor h hbefore hplace
      rw [Indexer.pagesSaved]
      cases hpage : client.getContractEvents indexer.contractIds startLedger pageSize cursor with
      | error e => exact h
      | ok page =>
          obtain ⟨newCursor, events, latestLedger⟩ := page
          obtain ⟨c, next, rfl, hp⟩ := hserves _ _ _ _ _ _ hpage first hplace
          obtain ⟨htracked, hnext⟩ := h.page hbefore hp
          dsimp only
          split
          · exact htracked
          · exact ih htracked hnext hp.cursorPlace

end Page

/-! ## Rounds and runs -/

/-- A cursor that a round starts from is that of every active contract. -/
theorem cursor_eq_of_resumeCursor {active : List SyncMetadata} {c : String}
    (hne : ∀ entry ∈ active, entry.cursor ≠ "") (h : resumeCursor active = some c) :
    ∀ entry ∈ active, entry.cursor = c := by
  rw [resumeCursor] at h
  split at h
  case isTrue hlength =>
    have hmem : ∀ entry ∈ active,
        entry.cursor ∈ ((active.map SyncMetadata.cursor).filter (· ≠ "")).dedup := by
      intro entry hentry
      rw [List.mem_dedup, List.mem_filter]
      exact ⟨List.mem_map_of_mem hentry, by simpa using hne entry hentry⟩
    obtain ⟨first, hfirst, hc⟩ := Option.bind_eq_some_iff.mp h
    have hfirst := List.mem_of_mem_head? hfirst
    rw [if_neg (hne first hfirst)] at hc
    obtain rfl := Option.some.inj hc
    intro entry hentry
    have hone := hmem entry hentry
    have hfirst := hmem first hfirst
    cases hcursors : ((active.map SyncMetadata.cursor).filter (· ≠ "")).dedup with
    | nil =>
        rw [hcursors] at hone
        cases hone
    | cons x rest =>
        rw [hcursors] at hone hfirst hlength
        obtain rfl : rest = [] := List.length_eq_zero_iff.mp (by simpa using hlength)
        exact (List.mem_singleton.mp hone).trans (List.mem_singleton.mp hfirst).symm
  case isFalse => cases h

section Run

variable {log : EventLog} {paging : Paging} {indexer : Indexer} {s : SyncStorage}

/-- The entry of a contract says what its row stands for. -/
theorem Tracked.entry (h : Tracked log paging s) {entry : SyncMetadata}
    (hentry : entry ∈ getSyncMetadata s) :
    (∃ next, entry.cursor ≠ "" ∧ paging.cursorPlace entry.cursor = some next ∧
      ∀ e ∈ log.events, e.contractId = entry.contractId → log.place e < next →
        e.asRead ∈ s.tables.storedEvents) ∧
    ∀ e ∈ log.events, e.contractId = entry.contractId → e.ledger < entry.lastIndexedLedger →
      e.asRead ∈ s.tables.storedEvents := by
  obtain ⟨row, hrow, hread⟩ := mem_getSyncMetadata.mp hentry
  obtain ⟨a, ha, rfl⟩ := Option.map_eq_some_iff.mp hread
  have hstored := h.row row hrow a ha
  obtain ⟨c, next, hlast, hne, hplace, hbefore⟩ := hstored.cursor
  refine ⟨⟨next, ?_, ?_, hbefore⟩, hstored.indexed⟩
  · simpa [hlast] using hne
  · simpa [hlast] using hplace

/-- A round starts from a place before which everything of the contracts is stored. -/
theorem Tracked.start (h : Tracked log paging s) (hnone : indexer.NoneEarlier log paging s) :
    ∃ first, indexer.startPlace log paging s = some first ∧
      StoredBefore log indexer.contractIds s first := by
  have hactive : ∀ entry ∈ indexer.activeSync (getSyncMetadata s), entry ∈ getSyncMetadata s :=
    fun entry hentry => (List.mem_filter.mp hentry).1
  -- A contract with progress is stored as far as its progress says, and one without has nothing.
  have hbefore : ∀ first, indexer.startPlace log paging s = some first →
      (∀ entry ∈ indexer.activeSync (getSyncMetadata s), ∀ e ∈ log.events,
        e.contractId = entry.contractId → log.place e < first →
          e.asRead ∈ s.tables.storedEvents) →
      StoredBefore log indexer.contractIds s first := by
    intro first hfirst hentries e he ha hlt
    by_cases hentry : ∃ entry ∈ getSyncMetadata s, entry.contractId = e.contractId
    · obtain ⟨entry, hentry, hid⟩ := hentry
      refine hentries entry (List.mem_filter.mpr ⟨hentry, ?_⟩) e he hid.symm hlt
      exact decide_eq_true (hid ▸ ha)
    · push Not at hentry
      exact absurd hlt (not_lt.mpr (hnone _ ha hentry first hfirst e he rfl))
  cases hcursor : resumeCursor (indexer.activeSync (getSyncMetadata s)) with
  | some c =>
      have hall := cursor_eq_of_resumeCursor (fun entry hentry => by
        obtain ⟨⟨next, hne, -⟩, -⟩ := h.entry (hactive entry hentry)
        exact hne) hcursor
      cases hlist : indexer.activeSync (getSyncMetadata s) with
      | nil =>
          rw [hlist] at hcursor
          cases hcursor
      | cons entry rest =>
          have hmem : entry ∈ indexer.activeSync (getSyncMetadata s) := by simp [hlist]
          obtain ⟨⟨first, -, hplace, -⟩, -⟩ := h.entry (hactive entry hmem)
          rw [hall entry hmem] at hplace
          have hstart : indexer.startPlace log paging s = some first := by
            rw [Indexer.startPlace, hcursor]
            exact hplace
          refine ⟨first, hstart, hbefore first hstart fun entry' hentry' e he hid hlt => ?_⟩
          obtain ⟨⟨next, -, hplace', hstored⟩, -⟩ := h.entry (hactive entry' hentry')
          rw [hall entry' hentry', hplace] at hplace'
          exact hstored e he hid (Option.some.inj hplace' ▸ hlt)
  | none =>
      have hstart : indexer.startPlace log paging s =
          some (log.base (indexer.startLedger (indexer.activeSync (getSyncMetadata s)))) := by
        rw [Indexer.startPlace, hcursor]
        rfl
      refine ⟨_, hstart, hbefore _ hstart fun entry hentry e he hid hlt => ?_⟩
      have hmin : indexer.startLedger (indexer.activeSync (getSyncMetadata s)) ≤
          entry.lastIndexedLedger := by
        rw [Indexer.startLedger]
        cases hmin : ((indexer.activeSync (getSyncMetadata s)).map
            SyncMetadata.lastIndexedLedger).min? with
        | none =>
            rw [List.min?_eq_none_iff, List.map_eq_nil_iff] at hmin
            rw [hmin] at hentry
            cases hentry
        | some ledger =>
            exact (List.le_min?_iff hmin).mp (UInt32.le_refl _) _ (List.mem_map_of_mem hentry)
      refine (h.entry (hactive entry hentry)).2 e he hid ?_
      refine UInt32.lt_of_lt_of_le (UInt32.not_le.mp fun hge => ?_) hmin
      exact absurd hlt (not_lt.mpr ((log.base_le e he _).mpr hge))

theorem Tracked.round {client : Client} (h : Tracked log paging s)
    (hserves : ServesAll log paging client) (hnone : indexer.NoneEarlier log paging s) :
    Tracked log paging (indexer.round s client) := by
  rw [round_eq]
  cases client.getLatestLedger with
  | error e => exact h
  | ok tip =>
      obtain ⟨first, hplace, hbefore⟩ := h.start hnone
      exact Tracked.pages hserves _ _ h hbefore hplace

theorem tracked_empty : Tracked log paging .empty where
  linked := ⟨Storage.linked_empty, List.nodup_nil, by simp [SyncStorage.empty]⟩
  sound r hr := by cases hr
  row row hrow := by cases hrow

theorem Tracked.complete {sys : IndexerSystem} (h : Tracked log paging sys.tables) :
    sys.Complete log := by
  intro indexer _ entry hentry _ e he hcontract hle
  obtain ⟨row, hrow, haddress, -, hledger⟩ := row_of_entry hentry
  exact (h.row row hrow _ haddress).fully e he hcontract (hledger ▸ hle)

/-- No round of a run starts after an event of an active contract without progress. -/
def IndexerSystem.StartsClear (log : EventLog) (paging : Paging) (steps : List IndexerStep) :
    Prop :=
  ∀ before client rest, steps = before ++ .fetch client :: rest →
    ∀ indexer ∈ (IndexerSystem.run before).indexer,
      indexer.NoneEarlier log paging (IndexerSystem.run before).tables

theorem IndexerSystem.run_append (before rest : List IndexerStep) :
    run (before ++ rest) = rest.foldl step (run before) := List.foldl_append

theorem Tracked.run (steps : List IndexerStep)
    (hserves : ∀ client, .fetch client ∈ steps → ServesAll log paging client)
    (h : IndexerSystem.StartsClear log paging steps) :
    Tracked log paging (IndexerSystem.run steps).tables := by
  induction steps using List.reverseRecOn with
  | nil => exact tracked_empty
  | append_singleton steps step ih =>
      have ih := ih (fun client hmem => hserves client (List.mem_append_left _ hmem))
        fun before client rest heq => h before client (rest ++ [step]) (by simp [heq])
      rw [IndexerSystem.run_append]
      cases step with
      | init config client => exact ih
      | fetch client =>
          have hclient := hserves client (by simp)
          have hnone := h steps client [] rfl
          rw [List.foldl_cons, List.foldl_nil, IndexerSystem.step]
          cases hindexer : (IndexerSystem.run steps).indexer with
          | none => exact ih
          | some indexer => exact ih.round hclient (hnone indexer hindexer)

end Run

/-- **Changing deployments.** In a run of indexers for any configurations, against nodes that
serve everything, the stored events of the active contracts are complete in every state if no
round starts after an event of an active contract that has no progress yet. -/
theorem changing_deployment_complete (log : EventLog) (paging : Paging)
    (steps : List IndexerStep)
    (hserves : ∀ client, .fetch client ∈ steps → ServesAll log paging client)
    (h : IndexerSystem.StartsClear log paging steps) :
    ∀ before, before <+: steps → (IndexerSystem.run before).Complete log := by
  rintro before ⟨rest, rfl⟩
  have htracked := Tracked.run before (fun client hmem =>
    hserves client (List.mem_append_left _ hmem)) fun before' client rest' heq =>
      h before' client (rest' ++ rest) (by simp [heq])
  exact htracked.complete

/-! ### A pool that is enabled later -/

section Later

/-- A node that serves a log up to a tip; the length of a cursor is the position it stands
for, and the windows of `twoLedgers` play no part. -/
def openClient (log : EventLog) (tip : UInt32) : Client where
  getLatestLedger := .ok tip
  getContractEvents contractIds startLedger _ cursor :=
    let first := (log.requestPlace twoLedgers startLedger cursor).getD 0
    let next := max first (tip.toNat + 1)
    .ok (some (String.ofList (List.replicate next 'x')), log.between contractIds first next, tip)

/-- One pool, and another that is enabled or not. -/
def twoPools (enabled : Bool) : ContractConfig where
  aspMembership := "asp"
  aspMembershipDeploymentLedger := some 1
  aspNonMembership := "asp-non"
  publicKeyRegistry := "registry"
  pools := [{ poolContractId := "first", deploymentLedger := 1, enabled := true },
    { poolContractId := "A", deploymentLedger := 2, enabled }]

theorem openClient_serves (ledger : UInt32) (hledger : 0 < ledger) (tip : UInt32) :
    ServesAll (oneEventLog ledger hledger) twoLedgers
      (openClient (oneEventLog ledger hledger) tip) := by
  intro contractIds startLedger cursor newCursor events latestLedger hpage first hfirst
  rw [openClient] at hpage
  simp only [hfirst, Option.getD_some, Except.ok.injEq, Prod.mk.injEq] at hpage
  obtain ⟨rfl, rfl, rfl⟩ := hpage
  have hlength : (String.ofList (List.replicate (max first (tip.toNat + 1)) 'x')).length =
      max first (tip.toNat + 1) := by
    rw [String.length_ofList, List.length_replicate]
  exact ⟨_, max first (tip.toNat + 1), rfl, {
    cursor_ne := fun he => by
      rw [he] at hlength
      have : 0 = max first (tip.toNat + 1) := hlength
      omega
    cursorPlace := congrArg some hlength
    le := le_max_left _ _
    events_eq := rfl
    size := (List.length_filter_le _ _).trans (show 1 ≤ 300 by decide)
    full := Or.inr fun e he _ hplace => by
      have : max first (tip.toNat + 1) ≤ e.ledger.toNat := hplace
      exact UInt32.lt_iff_toNat_lt.mpr (by omega) }⟩

/-- Two rounds for one pool, then one for both. -/
def laterSteps (log : EventLog) (tip : UInt32) : List IndexerStep :=
  [.init (twoPools false) (openClient log 5), .fetch (openClient log 5),
    .init (twoPools true) (openClient log tip), .fetch (openClient log tip)]

instance (log : EventLog) (paging : Paging) (indexer : Indexer) (s : SyncStorage) :
    Decidable (indexer.NoneEarlier log paging s) := by
  unfold Indexer.NoneEarlier
  infer_instance

theorem laterSteps_serves (ledger : UInt32) (hledger : 0 < ledger) (tip : UInt32) :
    ∀ client, .fetch client ∈ laterSteps (oneEventLog ledger hledger) tip →
      ServesAll (oneEventLog ledger hledger) twoLedgers client := by
  intro client hclient
  simp only [laterSteps, List.mem_cons, IndexerStep.fetch.injEq, reduceCtorEq, List.not_mem_nil,
    false_or, or_false] at hclient
  rcases hclient with rfl | rfl <;> exact openClient_serves _ _ _

/-- The event of the later pool comes after the first round. -/
theorem changing_deployment_complete_later :
    (IndexerSystem.run (laterSteps (oneEventLog 7 (by decide)) 9)).Complete
      (oneEventLog 7 (by decide)) := by
  refine changing_deployment_complete (oneEventLog 7 (by decide)) twoLedgers
    (laterSteps (oneEventLog 7 (by decide)) 9) (laterSteps_serves 7 (by decide) 9) ?_ _
    (List.prefix_refl _)
  have hclear : ∀ before ∈ (laterSteps (oneEventLog 7 (by decide)) 9).inits,
      ((IndexerSystem.run before).indexer.all fun indexer =>
        decide (indexer.NoneEarlier (oneEventLog 7 (by decide)) twoLedgers
          (IndexerSystem.run before).tables)) = true := by
    decide +kernel
  intro before client rest heq indexer hindexer
  have hbefore := hclear before ((List.mem_inits _ _).mpr ⟨_, heq.symm⟩)
  rw [Option.mem_def.mp hindexer] at hbefore
  exact of_decide_eq_true hbefore

/-- The later pool has an event from before the first round, which no round fetches, and counts
as fully indexed with the other. -/
theorem later_pool_skipped :
    (∀ client, .fetch client ∈ laterSteps (oneEventLog 3 (by decide)) 5 →
      ServesAll (oneEventLog 3 (by decide)) twoLedgers client) ∧
    ¬ (IndexerSystem.run (laterSteps (oneEventLog 3 (by decide)) 5)).Complete
      (oneEventLog 3 (by decide)) := by
  refine ⟨laterSteps_serves 3 (by decide) 5, fun hcomplete => ?_⟩
  have hentry : ({ contractId := "A", cursor := "xxxxxx", lastIndexedLedger := 5
                   lastFullyIndexedLedger := 5 } : SyncMetadata) ∈ getSyncMetadata
      (IndexerSystem.run (laterSteps (oneEventLog 3 (by decide)) 5)).tables := by
    decide +kernel
  have hstored : (IndexerSystem.run (laterSteps (oneEventLog 3 (by decide))
      5)).tables.tables.storedEvents = [] := by decide +kernel
  cases hindexer : (IndexerSystem.run (laterSteps (oneEventLog 3 (by decide)) 5)).indexer with
  | none =>
      have : (IndexerSystem.run (laterSteps (oneEventLog 3 (by decide)) 5)).indexer.isSome =
        true := by decide +kernel
      rw [hindexer] at this
      cases this
  | some indexer =>
      have hactive : ((IndexerSystem.run (laterSteps (oneEventLog 3 (by decide)) 5)).indexer.all
          fun indexer => decide ("A" ∈ indexer.contractIds)) = true := by decide +kernel
      rw [hindexer] at hactive
      have hevent := hcomplete indexer hindexer _ hentry (of_decide_eq_true hactive) _
        (List.mem_singleton.mpr rfl) rfl (by decide)
      rw [hstored] at hevent
      cases hevent

end Later

end PrivatePayments.Stellar
