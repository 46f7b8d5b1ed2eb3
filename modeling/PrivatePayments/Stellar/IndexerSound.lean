import PrivatePayments.Stellar.Indexer
import PrivatePayments.State.StorageSound

/-!
# PrivatePayments.Stellar.IndexerSound

What the indexer's progress says about the events it has stored. A round takes an empty page
as proof that it is caught up; this is right exactly when no event of the contracts follows
up to the ledger that the node reports.
-/

namespace PrivatePayments.State

/-! ## Sync progress -/

/-- The tables after an entry of `save_sync_progress`. -/
def SyncStorage.syncEntry (fullyIndexed : Bool) (s : SyncStorage) (entry : SyncMetadata) :
    SyncStorage where
  tables := s.tables.withContract entry.contractId
  indexingMetadata :=
    (Table.addNew IndexingMetadata.contractId s.indexingMetadata
      { contractId := s.tables.contractIdOf entry.contractId
        lastCursor := some entry.cursor
        lastIndexedLedger := entry.lastIndexedLedger
        lastFullyIndexedLedger := 0 }).map fun row =>
      if row.contractId = s.tables.contractIdOf entry.contractId then
        row.progress fullyIndexed entry
      else row

theorem onTables_run {α : Type} {x : Db α} {s : SyncStorage} {a : α} {tables : Storage}
    (h : x.run s.tables = .ok a tables) : (onTables x).run s = .ok a { s with tables } := by
  simp only [onTables, EStateM.run] at h ⊢
  rw [h]

theorem syncTransaction_of_ok {α : Type} {x : SyncDb α} {s s' : SyncStorage} {a : α}
    (h : x.run s = .ok a s') : (syncTransaction x).run s = .ok a s' := by
  simp only [syncTransaction, EStateM.run] at h ⊢
  rw [h]

theorem saveSyncEntry_run (fullyIndexed : Bool) (entry : SyncMetadata) (s : SyncStorage) :
    (saveSyncEntry fullyIndexed entry).run s = .ok () (s.syncEntry fullyIndexed entry) := by
  unfold saveSyncEntry
  rw [EStateM.run_bind, onTables_run (getOrCreateContractId_run entry.contractId s.tables)]
  rfl

theorem saveSyncProgress_run (metadata : List SyncMetadata) (fullyIndexed : Bool)
    (s : SyncStorage) : (saveSyncProgress metadata fullyIndexed).run s =
      .ok () (metadata.foldl (SyncStorage.syncEntry fullyIndexed) s) :=
  syncTransaction_of_ok (forM_run_eq_foldl (saveSyncEntry_run fullyIndexed) metadata s)

/-- The tables behind the sync progress are linked. -/
structure SyncStorage.Linked (s : SyncStorage) : Prop where
  tables : s.tables.Linked
  addresses : (Table.columns s.tables.contracts).Nodup
  rows : ∀ row ∈ s.indexingMetadata, ∃ a, s.tables.contractAddress? row.contractId = some a

section Contracts

variable {s : Storage} {address : String}

theorem nodup_withContract (h : (Table.columns s.contracts).Nodup) :
    (Table.columns (s.withContract address).contracts).Nodup := by
  unfold Storage.withContract
  cases hfind : s.contracts.find? (fun c => c.columns = address) with
  | some c => exact h
  | none =>
      show (Table.columns (Table.insert s.contracts address)).Nodup
      rw [Table.columns_insert, List.nodup_append]
      refine ⟨h, List.nodup_singleton _, ?_⟩
      rintro a ha b hb rfl
      obtain ⟨c, hc, hca⟩ := List.mem_map.mp ha
      have hne : c.columns ≠ address := by simpa using List.find?_eq_none.mp hfind c hc
      exact hne (hca.trans (List.mem_singleton.mp hb))

theorem linked_withContract (h : s.Linked) : (s.withContract address).Linked := by
  have hraw := rawContractEvents_withContract s address
  refine ⟨?_, ?_, ?_⟩
  · rcases contracts_withContract s address with heq | heq
    · exact heq ▸ h.contracts
    · exact heq ▸ h.contracts.insert
  · unfold Storage.rawIds
    rw [hraw]
    exact h.ids
  · intro r hr
    rw [hraw] at hr
    obtain ⟨a, ha⟩ := h.addresses r hr
    exact ⟨a, contractAddress?_withContract ha⟩

theorem storedEvents_withContract (h : s.Linked) :
    (s.withContract address).storedEvents = s.storedEvents := by
  unfold Storage.storedEvents
  rw [rawContractEvents_withContract]
  refine List.map_congr_left fun r hr => ?_
  obtain ⟨a, ha⟩ := h.addresses r hr
  simp [Storage.readEvent, ha, contractAddress?_withContract ha]

end Contracts

section Entry

variable {s : SyncStorage} {fullyIndexed : Bool} {entry : SyncMetadata}

/-- A row after an entry: one of this contract, with the new progress, or an old one. -/
theorem SyncStorage.Linked.mem_syncEntry (h : s.Linked) {row : IndexingMetadata}
    (hrow : row ∈ (s.syncEntry fullyIndexed entry).indexingMetadata) :
    ((s.syncEntry fullyIndexed entry).tables.contractAddress? row.contractId =
        some entry.contractId ∧ row.lastCursor = some entry.cursor ∧
      (fullyIndexed = true → row.lastFullyIndexedLedger = entry.lastIndexedLedger) ∧
      (fullyIndexed = false → row.lastFullyIndexedLedger = 0 ∨
        ∃ old ∈ s.indexingMetadata, old.contractId = row.contractId ∧
          old.lastFullyIndexedLedger = row.lastFullyIndexedLedger)) ∨
    row ∈ s.indexingMetadata ∧
      (s.syncEntry fullyIndexed entry).tables.contractAddress? row.contractId ≠
        some entry.contractId := by
  have hid : (s.syncEntry fullyIndexed entry).tables.contractAddress?
      (s.tables.contractIdOf entry.contractId) = some entry.contractId :=
    contractAddress?_contractIdOf h.tables.contracts
  obtain ⟨old, hold, rfl⟩ := List.mem_map.mp hrow
  by_cases hrow : old.contractId = s.tables.contractIdOf entry.contractId
  · left
    rw [if_pos hrow]
    refine ⟨hrow ▸ hid, rfl, fun hfull => if_pos hfull, fun hfull => ?_⟩
    have hprogress : (old.progress fullyIndexed entry).lastFullyIndexedLedger =
        old.lastFullyIndexedLedger := if_neg (by rw [hfull]; decide)
    rw [hprogress]
    rcases Table.mem_or_eq_of_mem_addNew hold with hmem | rfl
    · exact Or.inr ⟨old, hmem, rfl, rfl⟩
    · exact Or.inl rfl
  · right
    rw [if_neg hrow]
    refine ⟨?_, fun haddress => hrow ?_⟩
    · rcases Table.mem_or_eq_of_mem_addNew hold with hmem | rfl
      · exact hmem
      · exact absurd rfl hrow
    · exact contractAddress?_inj (nodup_withContract h.addresses) haddress hid

/-- The contract of the entry has a row. -/
theorem SyncStorage.Linked.exists_row_syncEntry (h : s.Linked) :
    ∃ row ∈ (s.syncEntry fullyIndexed entry).indexingMetadata,
      (s.syncEntry fullyIndexed entry).tables.contractAddress? row.contractId =
        some entry.contractId := by
  have hid : (s.syncEntry fullyIndexed entry).tables.contractAddress?
      (s.tables.contractIdOf entry.contractId) = some entry.contractId :=
    contractAddress?_contractIdOf h.tables.contracts
  have hmem : s.tables.contractIdOf entry.contractId ∈
      (Table.addNew IndexingMetadata.contractId s.indexingMetadata
        { contractId := s.tables.contractIdOf entry.contractId
          lastCursor := some entry.cursor
          lastIndexedLedger := entry.lastIndexedLedger
          lastFullyIndexedLedger := 0 }).map IndexingMetadata.contractId := Table.key_mem_addNew
  obtain ⟨old, hold, hkey⟩ := List.mem_map.mp hmem
  exact ⟨_, List.mem_map_of_mem hold, by rw [if_pos hkey]; exact hkey ▸ hid⟩

/-- The row of another contract is still there. -/
theorem SyncStorage.exists_row_of_mem {row : IndexingMetadata} (hrow : row ∈ s.indexingMetadata) :
    ∃ row' ∈ (s.syncEntry fullyIndexed entry).indexingMetadata,
      row'.contractId = row.contractId := by
  refine ⟨_, List.mem_map_of_mem (Table.prefix_addNew.subset hrow), ?_⟩
  split <;> rfl

theorem SyncStorage.Linked.syncEntry (h : s.Linked) : (s.syncEntry fullyIndexed entry).Linked where
  tables := linked_withContract h.tables
  addresses := nodup_withContract h.addresses
  rows row hrow := by
    rcases h.mem_syncEntry hrow with ⟨ha, -⟩ | ⟨hmem, -⟩
    · exact ⟨_, ha⟩
    · obtain ⟨a, ha⟩ := h.rows row hmem
      exact ⟨a, contractAddress?_withContract ha⟩

end Entry

/-- The tables after the progress of some contracts is set to one cursor and one ledger. -/
structure SyncStorage.SyncedTo (s s' : SyncStorage) (contractIds : List String)
    (fullyIndexed : Bool) (cursor : String) (ledger : UInt32) : Prop where
  linked : s'.Linked
  events : s'.tables.storedEvents = s.tables.storedEvents
  address : ∀ id a, s.tables.contractAddress? id = some a → s'.tables.contractAddress? id = some a
  row : ∀ row ∈ s'.indexingMetadata, ∃ a, s'.tables.contractAddress? row.contractId = some a ∧
    (a ∈ contractIds ∧ row.lastCursor = some cursor ∧
        (fullyIndexed = true → row.lastFullyIndexedLedger = ledger) ∧
        (fullyIndexed = false → row.lastFullyIndexedLedger = 0 ∨
          ∃ old ∈ s.indexingMetadata, old.contractId = row.contractId ∧
            old.lastFullyIndexedLedger = row.lastFullyIndexedLedger) ∨
      a ∉ contractIds ∧ row ∈ s.indexingMetadata)
  exists_row : ∀ a ∈ contractIds, ∃ row ∈ s'.indexingMetadata,
    s'.tables.contractAddress? row.contractId = some a

theorem SyncStorage.SyncedTo.step {s s' : SyncStorage} {contractIds : List String}
    {fullyIndexed : Bool} {entry : SyncMetadata}
    (h : SyncedTo s s' contractIds fullyIndexed entry.cursor entry.lastIndexedLedger) :
    SyncedTo s (s'.syncEntry fullyIndexed entry) (contractIds ++ [entry.contractId]) fullyIndexed
      entry.cursor entry.lastIndexedLedger where
  linked := h.linked.syncEntry
  events := (storedEvents_withContract h.linked.tables).trans h.events
  address id a ha := contractAddress?_withContract (h.address id a ha)
  row row hrow := by
    rcases h.linked.mem_syncEntry hrow with ⟨ha, hcursor, hfull, hpart⟩ | ⟨hmem, hne⟩
    · refine ⟨_, ha, Or.inl ⟨by simp, hcursor, hfull, fun hf => ?_⟩⟩
      rcases hpart hf with hzero | ⟨old, hold, hid, hledger⟩
      · exact Or.inl hzero
      · obtain ⟨a, -, ⟨-, -, -, hold⟩ | ⟨-, hold⟩⟩ := h.row old hold
        · rcases hold hf with hzero | ⟨old', hold', hid', hledger'⟩
          · exact Or.inl (hledger ▸ hzero)
          · exact Or.inr ⟨old', hold', hid'.trans hid, hledger'.trans hledger⟩
        · exact Or.inr ⟨old, hold, hid, hledger⟩
    · obtain ⟨a, ha, hcase⟩ := h.row row hmem
      have ha' : (s'.syncEntry fullyIndexed entry).tables.contractAddress? row.contractId =
          some a := contractAddress?_withContract ha
      refine ⟨a, ha', ?_⟩
      rcases hcase with ⟨hin, hrest⟩ | ⟨hout, hrest⟩
      · exact Or.inl ⟨List.mem_append_left _ hin, hrest⟩
      · refine Or.inr ⟨?_, hrest⟩
        rw [List.mem_append, List.mem_singleton]
        rintro (hin | rfl)
        · exact hout hin
        · exact hne ha'
  exists_row a ha := by
    rcases List.mem_append.mp ha with hin | hlast
    · obtain ⟨row, hrow, haddress⟩ := h.exists_row a hin
      obtain ⟨row', hrow', hid⟩ := exists_row_of_mem hrow
      exact ⟨row', hrow', hid ▸ contractAddress?_withContract haddress⟩
    · rw [List.mem_singleton.mp hlast]
      exact h.linked.exists_row_syncEntry

/-- What `save_sync_progress` leaves. -/
theorem SyncStorage.Linked.syncAll {s : SyncStorage} (h : s.Linked) (contractIds : List String)
    (fullyIndexed : Bool) (cursor : String) (ledger : UInt32) :
    SyncedTo s ((contractIds.map fun contractId =>
        { contractId, cursor, lastIndexedLedger := ledger, lastFullyIndexedLedger := 0 }).foldl
      (SyncStorage.syncEntry fullyIndexed) s) contractIds fullyIndexed cursor ledger := by
  induction contractIds using List.reverseRecOn with
  | nil =>
      exact {
        linked := h
        events := rfl
        address := fun _ _ ha => ha
        row := fun row hrow => by
          obtain ⟨a, ha⟩ := h.rows row hrow
          exact ⟨a, ha, Or.inr ⟨List.not_mem_nil, hrow⟩⟩
        exists_row := fun _ ha => by cases ha }
  | append_singleton contractIds contractId ih =>
      rw [List.map_append, List.foldl_append]
      exact ih.step

theorem mem_getSyncMetadata {s : SyncStorage} {entry : SyncMetadata} :
    entry ∈ getSyncMetadata s ↔ ∃ row ∈ s.indexingMetadata, s.syncMetadata? row = some entry := by
  unfold getSyncMetadata
  rw [List.mem_filterMap]
  exact exists_congr fun row => and_congr_left fun _ => Table.orderBy_perm.mem_iff

end PrivatePayments.State

namespace PrivatePayments.Stellar

open PrivatePayments.State

theorem nodup_addEvents {s : Storage} (h : (Table.columns s.contracts).Nodup)
    (events : List ContractEvent) : (Table.columns (s.addEvents events).contracts).Nodup := by
  induction events generalizing s with
  | nil => exact h
  | cons e events ih => exact ih (nodup_withContract h)

theorem contractAddress?_addEvents {s : Storage} {id : Nat} {a : String}
    (h : s.contractAddress? id = some a) (events : List ContractEvent) :
    (s.addEvents events).contractAddress? id = some a := by
  induction events generalizing s with
  | nil => exact h
  | cons e events ih => exact ih (contractAddress?_addEvent h)

/-- The events of a page are added to linked tables. -/
theorem linked_addEvents {s : SyncStorage} (h : s.Linked) (events : List ContractEvent) :
    ({ s with tables := s.tables.addEvents events } : SyncStorage).Linked where
  tables := h.tables.addEvents events
  addresses := nodup_addEvents h.addresses events
  rows row hrow := by
    obtain ⟨a, ha⟩ := h.rows row hrow
    exact ⟨a, contractAddress?_addEvents ha events⟩

/-! ## The log behind the node -/

/-- The contract events of the chain in their order. `place` is the position of an event, and
`base` the first position of a ledger. -/
structure EventLog where
  events : List ContractEvent
  place : ContractEvent → ℕ
  base : UInt32 → ℕ
  base_le : ∀ e ∈ events, ∀ ledger, base ledger ≤ place e ↔ ledger ≤ e.ledger
  sorted : events.Pairwise fun e e' => place e < place e'
  ids : (events.map ContractEvent.id).Nodup
  ledger_pos : ∀ e ∈ events, 0 < e.ledger

/-- How the node goes through the log: a request from a position covers the events up to the
end of its window, and a cursor stands for the position to go on from. -/
structure Paging where
  windowEnd : ℕ → ℕ
  lt_windowEnd : ∀ first, first < windowEnd first
  cursorPlace : String → Option ℕ

namespace EventLog

variable (log : EventLog)

/-- The events of some contracts between two positions. -/
def between (contractIds : List String) (first next : ℕ) : List ContractEvent :=
  log.events.filter fun e => e.contractId ∈ contractIds ∧ first ≤ log.place e ∧ log.place e < next

/-- No event of the contracts from a position on has a ledger up to the given one. -/
def Quiet (contractIds : List String) (first : ℕ) (ledger : UInt32) : Prop :=
  ∀ e ∈ log.events, e.contractId ∈ contractIds → first ≤ log.place e → ledger < e.ledger

/-- The position that a request starts from. -/
def requestPlace (paging : Paging) (startLedger : UInt32) : Option String → Option ℕ
  | none => some (log.base startLedger)
  | some cursor => paging.cursorPlace cursor

end EventLog

/-- A page of the node: the events of the contracts from the position of the request to the
position of the new cursor, which is the end of the window unless the page is full. -/
structure IsPage (log : EventLog) (paging : Paging) (contractIds : List String) (first : ℕ)
    (newCursor : String) (events : List ContractEvent) (next : ℕ) : Prop where
  cursor_ne : newCursor ≠ ""
  cursorPlace : paging.cursorPlace newCursor = some next
  lt : first < next
  le : next ≤ paging.windowEnd first
  events_eq : events = log.between contractIds first next
  size : events.length ≤ pageSize
  full : next = paging.windowEnd first ∨ events.length = pageSize

/-- A node that serves the log. It may also answer with an error, and the ledger that it
reports may be any. -/
def Serves (log : EventLog) (paging : Paging) (client : Client) : Prop :=
  ∀ contractIds startLedger cursor newCursor events latestLedger,
    client.getContractEvents contractIds startLedger pageSize cursor =
      .ok (newCursor, events, latestLedger) →
    ∀ first, log.requestPlace paging startLedger cursor = some first →
      ∃ c next, newCursor = some c ∧ IsPage log paging contractIds first c events next

section Indexer

variable (log : EventLog) (paging : Paging) (indexer : Indexer)

/-- Every event of an active contract from the start on is stored, up to the ledger to which
the contract counts as fully indexed. -/
def Complete (s : SyncStorage) : Prop :=
  ∀ entry ∈ getSyncMetadata s, entry.contractId ∈ indexer.contractIds →
    ∀ e ∈ log.events, e.contractId = entry.contractId → indexer.minPoolLedger ≤ e.ledger →
      e.ledger ≤ entry.lastFullyIndexedLedger → e.asRead ∈ s.tables.storedEvents

/-- An empty page ends the loop only where no event follows up to the reported ledger. -/
def Indexer.PagesQuiet (client : Client) (startLedger : UInt32) : Nat → Option String → Prop
  | 0, _ => True
  | pages + 1, cursor =>
      match client.getContractEvents indexer.contractIds startLedger pageSize cursor with
      | .ok (some newCursor, events, latestLedger) =>
          if events.isEmpty then
            ∀ first, log.requestPlace paging startLedger cursor = some first →
              log.Quiet indexer.contractIds first latestLedger
          else Indexer.PagesQuiet client startLedger pages (some newCursor)
      | _ => True

/-- The same of a round. -/
def Indexer.RoundQuiet (s : SyncStorage) (client : Client) : Prop :=
  match client.getLatestLedger with
  | .error _ => True
  | .ok _ =>
      let activeSync := indexer.activeSync (getSyncMetadata s)
      indexer.PagesQuiet log paging client (indexer.startLedger activeSync) maxPagesPerRound
        (resumeCursor activeSync)

end Indexer

/-! ## The tables after a round -/

/-- The tables after a page is saved. -/
def Indexer.pageSaved (indexer : Indexer) (newCursor : String) (events : List ContractEvent)
    (latestLedger : UInt32) (s : SyncStorage) : SyncStorage :=
  (indexer.contractIds.map fun contractId =>
      { contractId, cursor := newCursor, lastIndexedLedger := progressLedger events latestLedger,
        lastFullyIndexedLedger := 0 }).foldl (SyncStorage.syncEntry events.isEmpty)
    { s with tables := s.tables.addEvents events }

/-- The tables after the pages of a round. -/
def Indexer.pagesSaved (indexer : Indexer) (client : Client) (startLedger : UInt32) :
    Nat → Option String → SyncStorage → SyncStorage
  | 0, _, s => s
  | pages + 1, cursor, s =>
      match client.getContractEvents indexer.contractIds startLedger pageSize cursor with
      | .ok (some newCursor, events, latestLedger) =>
          if events.isEmpty then indexer.pageSaved newCursor events latestLedger s
          else indexer.pagesSaved client startLedger pages (some newCursor)
            (indexer.pageSaved newCursor events latestLedger s)
      | _ => s

section Round

variable {indexer : Indexer} {client : Client}

theorem savePage_run (newCursor : String) (events : List ContractEvent) (latestLedger : UInt32)
    (s : SyncStorage) : (indexer.savePage newCursor events latestLedger).run s =
      .ok () (indexer.pageSaved newCursor events latestLedger s) := by
  unfold Indexer.savePage
  rw [EStateM.run_bind, onTables_run (saveEventsBatch_run events s.tables)]
  exact saveSyncProgress_run _ _ _

theorem leaves_fetchPages (indexer : Indexer) (client : Client) (startLedger : UInt32) : ∀ (pages : Nat) (cursor : Option String)
    (s : SyncStorage), leaves (indexer.fetchPages client startLedger pages cursor) s =
      indexer.pagesSaved client startLedger pages cursor s
  | 0, _, _ => rfl
  | pages + 1, cursor, s => by
      unfold Indexer.fetchPages Indexer.pagesSaved
      cases client.getContractEvents indexer.contractIds startLedger pageSize cursor with
      | error e =>
          cases e with
          | rpcAhead newest => rfl
          | other message => rfl
      | ok page =>
          obtain ⟨newCursor, events, latestLedger⟩ := page
          cases newCursor with
          | none => rfl
          | some newCursor =>
              have ih := leaves_fetchPages indexer client startLedger pages (some newCursor)
                (indexer.pageSaved newCursor events latestLedger s)
              dsimp only
              unfold leaves at ih ⊢
              rw [EStateM.run_bind, savePage_run]
              by_cases hempty : events.isEmpty = true
              · rw [if_pos hempty, if_pos hempty]
                rfl
              · rw [if_neg hempty, if_neg hempty]
                exact ih

theorem leaves_get_bind {α : Type} (f : SyncStorage → SyncDb α) (s : SyncStorage) :
    leaves (get >>= f) s = leaves (f s) s := by
  unfold leaves
  rw [EStateM.run_bind, EStateM.run_get]

/-- The tables after a round. -/
theorem round_eq (s : SyncStorage) : indexer.round s client =
    match client.getLatestLedger with
    | .error _ => s
    | .ok _ =>
        indexer.pagesSaved client (indexer.startLedger (indexer.activeSync (getSyncMetadata s)))
          maxPagesPerRound (resumeCursor (indexer.activeSync (getSyncMetadata s))) s := by
  unfold Indexer.round Indexer.fetchContractEvents
  cases client.getLatestLedger with
  | error e => rfl
  | ok tip =>
      dsimp only
      rw [leaves_get_bind]
      exact leaves_fetchPages indexer client _ _ _ _

end Round

/-! ## One page -/

theorem EventLog.eq_of_asRead (log : EventLog) {e e' : ContractEvent} (he : e ∈ log.events)
    (he' : e' ∈ log.events) (h : e.asRead.id = e'.asRead.id) : e = e' :=
  List.inj_on_of_nodup_map log.ids he he' h

/-- An event of a page is stored, since its id is that of no other event. -/
theorem EventLog.mem_addAllNew (log : EventLog) {stored events : List ContractEvent}
    (hstored : ∀ r ∈ stored, ∃ e ∈ log.events, r = e.asRead)
    (hevents : ∀ e ∈ events, e ∈ log.events) {e : ContractEvent} (he : e ∈ events) :
    e.asRead ∈ Table.addAllNew ContractEvent.id stored (events.map ContractEvent.asRead) := by
  have hid : e.asRead.id ∈ (Table.addAllNew ContractEvent.id stored
      (events.map ContractEvent.asRead)).map ContractEvent.id :=
    Table.key_mem_addAllNew (List.mem_map_of_mem he)
  obtain ⟨r, hr, hrid⟩ := List.mem_map.mp hid
  obtain ⟨e', he', rfl⟩ : ∃ e' ∈ log.events, r = e'.asRead := by
    rcases Table.mem_or_mem_of_mem_addAllNew hr with hold | hnew
    · exact hstored r hold
    · obtain ⟨e', he', rfl⟩ := List.mem_map.mp hnew
      exact ⟨e', hevents e' he', rfl⟩
  rw [log.eq_of_asRead he' (hevents e he) hrid] at hr
  exact hr

/-- The tables of an indexer that has stored the events up to a position and goes on from
there with a cursor; without a cursor it has not started. -/
structure Synced (log : EventLog) (paging : Paging) (indexer : Indexer) (s : SyncStorage)
    (next : ℕ) (cursor : Option String) : Prop where
  linked : s.Linked
  start : log.base indexer.minPoolLedger ≤ next
  saved : ∀ e ∈ log.events, e.contractId ∈ indexer.contractIds →
    log.base indexer.minPoolLedger ≤ log.place e → log.place e < next →
    e.asRead ∈ s.tables.storedEvents
  sound : ∀ r ∈ s.tables.storedEvents, ∃ e ∈ log.events, log.place e < next ∧ r = e.asRead
  rows : ∀ row ∈ s.indexingMetadata, ∃ a ∈ indexer.contractIds,
    s.tables.contractAddress? row.contractId = some a ∧ row.lastCursor = cursor
  covered : ∀ a ∈ indexer.contractIds, cursor ≠ none →
    ∃ row ∈ s.indexingMetadata, s.tables.contractAddress? row.contractId = some a
  fresh : cursor = none → s.indexingMetadata = [] ∧ next = log.base indexer.minPoolLedger
  place : ∀ c, cursor = some c → c ≠ "" ∧ paging.cursorPlace c = some next

section Page

variable {log : EventLog} {paging : Paging} {indexer : Indexer} {s : SyncStorage} {next next' : ℕ}
  {cursor : Option String} {c : String} {events : List ContractEvent}

theorem synced_empty : Synced log paging indexer .empty (log.base indexer.minPoolLedger) none where
  linked := ⟨Storage.linked_empty, List.nodup_nil, by simp [SyncStorage.empty]⟩
  start := le_refl _
  saved _ _ _ hle hlt := absurd hlt (not_lt.mpr hle)
  sound r hr := by cases hr
  rows row hrow := by cases hrow
  covered _ _ h := absurd rfl h
  fresh _ := ⟨rfl, rfl⟩
  place c h := by cases h

theorem Synced.pageSaved_syncedTo (h : Synced log paging indexer s next cursor) (c : String)
    (events : List ContractEvent) (latestLedger : UInt32) :
    SyncStorage.SyncedTo { s with tables := s.tables.addEvents events }
      (indexer.pageSaved c events latestLedger s) indexer.contractIds events.isEmpty c
      (progressLedger events latestLedger) :=
  (linked_addEvents h.linked events).syncAll indexer.contractIds events.isEmpty c
    (progressLedger events latestLedger)

/-- The stored events after a page. -/
theorem Synced.pageSaved_storedEvents (h : Synced log paging indexer s next cursor)
    (latestLedger : UInt32) : (indexer.pageSaved c events latestLedger s).tables.storedEvents =
      Table.addAllNew ContractEvent.id s.tables.storedEvents
        (events.map ContractEvent.asRead) :=
  (h.pageSaved_syncedTo c events latestLedger).events.trans
    (h.linked.tables.storedEvents_addEvents events)

/-- A contract that is known keeps its address. -/
theorem Synced.pageSaved_address (h : Synced log paging indexer s next cursor) {id : Nat}
    {a : String} (ha : s.tables.contractAddress? id = some a) (latestLedger : UInt32) :
    (indexer.pageSaved c events latestLedger s).tables.contractAddress? id = some a :=
  (h.pageSaved_syncedTo c events latestLedger).address id a (contractAddress?_addEvents ha events)

/-- A row after a page belongs to one of the contracts and has the new cursor. -/
theorem Synced.pageSaved_row (h : Synced log paging indexer s next cursor) {latestLedger : UInt32}
    {row : IndexingMetadata}
    (hrow : row ∈ (indexer.pageSaved c events latestLedger s).indexingMetadata) :
    ∃ a ∈ indexer.contractIds,
      (indexer.pageSaved c events latestLedger s).tables.contractAddress? row.contractId = some a ∧
      row.lastCursor = some c ∧
      (events.isEmpty = true → row.lastFullyIndexedLedger = progressLedger events latestLedger) ∧
      (events.isEmpty = false → row.lastFullyIndexedLedger = 0 ∨
        ∃ old ∈ s.indexingMetadata, old.contractId = row.contractId ∧
          old.lastFullyIndexedLedger = row.lastFullyIndexedLedger) := by
  obtain ⟨a, ha, ⟨hmem, hrest⟩ | ⟨hnot, hold⟩⟩ :=
    (h.pageSaved_syncedTo c events latestLedger).row row hrow
  · exact ⟨a, hmem, ha, hrest⟩
  · obtain ⟨a', hmem, ha', -⟩ := h.rows row hold
    have heq := ha.symm.trans (h.pageSaved_address ha' latestLedger)
    exact absurd (Option.some.inj heq ▸ hmem) hnot

theorem Synced.page (h : Synced log paging indexer s next cursor)
    (hp : IsPage log paging indexer.contractIds next c events next') (latestLedger : UInt32) :
    Synced log paging indexer (indexer.pageSaved c events latestLedger s) next' (some c) := by
  have hsynced := h.pageSaved_syncedTo c events latestLedger
  have hstored : (indexer.pageSaved c events latestLedger s).tables.storedEvents = _ :=
    h.pageSaved_storedEvents latestLedger
  have hsound : ∀ r ∈ (indexer.pageSaved c events latestLedger s).tables.storedEvents,
      ∃ e ∈ log.events, log.place e < next' ∧ r = e.asRead := by
    intro r hr
    rw [hstored] at hr
    rcases Table.mem_or_mem_of_mem_addAllNew hr with hold | hnew
    · obtain ⟨e, he, hplace, rfl⟩ := h.sound r hold
      exact ⟨e, he, hplace.trans hp.lt, rfl⟩
    · obtain ⟨e, he, rfl⟩ := List.mem_map.mp hnew
      rw [hp.events_eq, EventLog.between, List.mem_filter] at he
      exact ⟨e, he.1, by simpa using (of_decide_eq_true he.2).2.2, rfl⟩
  refine {
    linked := hsynced.linked
    start := h.start.trans hp.lt.le
    saved := ?_
    sound := hsound
    rows := ?_
    covered := fun a ha _ => hsynced.exists_row a ha
    fresh := fun hnone => by cases hnone
    place := fun c' hc' => by cases hc'; exact ⟨hp.cursor_ne, hp.cursorPlace⟩ }
  · intro e he hcontract hstart hlt
    rcases Nat.lt_or_ge (log.place e) next with hold | hnew
    · rw [hstored]
      exact Table.mem_addAllNew_of_mem (h.saved e he hcontract hstart hold)
    · have hmem : e ∈ events := by
        rw [hp.events_eq, EventLog.between, List.mem_filter]
        exact ⟨he, by simpa using ⟨hcontract, hnew, hlt⟩⟩
      rw [hstored]
      refine log.mem_addAllNew (fun r hr => ?_) (fun e' he' => ?_) hmem
      · obtain ⟨e', he', -, heq⟩ := h.sound r hr
        exact ⟨e', he', heq⟩
      · rw [hp.events_eq, EventLog.between, List.mem_filter] at he'
        exact he'.1
  · intro row hrow
    obtain ⟨a, hmem, ha, hcursor, -⟩ := h.pageSaved_row hrow
    exact ⟨a, hmem, ha, hcursor⟩

/-- An entry of the sync progress and its row. -/
theorem entry_of_row {row : IndexingMetadata} (hrow : row ∈ s.indexingMetadata) {a : String}
    (ha : s.tables.contractAddress? row.contractId = some a) :
    { contractId := a
      cursor := row.lastCursor.getD ""
      lastIndexedLedger := row.lastIndexedLedger
      lastFullyIndexedLedger := row.lastFullyIndexedLedger } ∈ getSyncMetadata s := by
  rw [mem_getSyncMetadata]
  refine ⟨row, hrow, ?_⟩
  rw [SyncStorage.syncMetadata?, ha]
  rfl

theorem row_of_entry {entry : SyncMetadata} (h : entry ∈ getSyncMetadata s) :
    ∃ row ∈ s.indexingMetadata,
      s.tables.contractAddress? row.contractId = some entry.contractId ∧
      entry.cursor = row.lastCursor.getD "" ∧
      entry.lastFullyIndexedLedger = row.lastFullyIndexedLedger := by
  obtain ⟨row, hrow, hentry⟩ := mem_getSyncMetadata.mp h
  obtain ⟨a, ha, rfl⟩ := Option.map_eq_some_iff.mp hentry
  exact ⟨row, hrow, ha, rfl, rfl⟩

/-- A page keeps the stored events complete, an empty one if it comes at the end. -/
theorem Complete.page (hcomplete : Complete log indexer s)
    (h : Synced log paging indexer s next cursor) {latestLedger : UInt32}
    (hquiet : events.isEmpty = true → log.Quiet indexer.contractIds next latestLedger) :
    Complete log indexer (indexer.pageSaved c events latestLedger s) := by
  intro entry hentry hactive e he hcontract hstart hle
  have hsubset : ∀ r ∈ s.tables.storedEvents,
      r ∈ (indexer.pageSaved c events latestLedger s).tables.storedEvents := fun r hr => by
    rw [h.pageSaved_storedEvents]
    exact Table.mem_addAllNew_of_mem hr
  obtain ⟨row, hrow, haddress, -, hledger⟩ := row_of_entry hentry
  obtain ⟨a, -, ha, -, hfull, hpart⟩ := h.pageSaved_row hrow
  rw [hledger] at hle
  cases hempty : events.isEmpty with
  | true =>
      have hlatest : progressLedger events latestLedger = latestLedger := if_pos hempty
      rw [hfull hempty, hlatest] at hle
      refine hsubset _ (h.saved e he (hcontract ▸ hactive) ?_ ?_)
      · exact (log.base_le e he _).mpr hstart
      · by_contra hnext
        have hlt := hquiet hempty e he (hcontract ▸ hactive) (not_lt.mp hnext)
        exact UInt32.not_le.mpr hlt hle
  | false =>
      rcases hpart hempty with hzero | ⟨old, hold, hid, hold_ledger⟩
      · rw [hzero] at hle
        exact absurd (log.ledger_pos e he) (UInt32.not_lt.mpr hle)
      · obtain ⟨a', -, ha', -⟩ := h.rows old hold
        rw [← hid] at haddress
        have hsame := (h.pageSaved_address ha' latestLedger).symm.trans haddress
        refine hsubset _ (hcomplete _ (entry_of_row hold ha') ?_ e he ?_ hstart ?_)
        · rw [Option.some.inj hsame]
          exact hactive
        · rw [Option.some.inj hsame]
          exact hcontract
        · rw [← hold_ledger] at hle
          exact hle

/-- An empty page that does not come at the end leaves an event out. -/
theorem Synced.not_complete (h : Synced log paging indexer s next cursor) (hempty : events.isEmpty = true) {latestLedger : UInt32}
    (hquiet : ¬ log.Quiet indexer.contractIds next latestLedger) :
    ¬ Complete log indexer (indexer.pageSaved c events latestLedger s) := by
  intro hcomplete
  unfold EventLog.Quiet at hquiet
  push Not at hquiet
  obtain ⟨e, he, hactive, hplace, hledger⟩ := hquiet
  obtain ⟨row, hrow, ha⟩ :=
    (h.pageSaved_syncedTo c events latestLedger).exists_row e.contractId hactive
  obtain ⟨-, -, -, -, hfull, -⟩ := h.pageSaved_row hrow
  have hlatest : progressLedger events latestLedger = latestLedger := if_pos hempty
  have hstored := hcomplete _ (entry_of_row hrow ha) hactive e he rfl
    ((log.base_le e he _).mp (h.start.trans hplace))
    (by rw [hfull hempty, hlatest]; exact UInt32.not_lt.mp hledger)
  rw [h.pageSaved_storedEvents, List.isEmpty_iff.mp hempty] at hstored
  obtain ⟨e', he', hlt, heq⟩ := h.sound _ hstored
  rw [log.eq_of_asRead he he' (congrArg ContractEvent.id heq)] at hplace
  exact absurd hplace (not_le.mpr hlt)

end Page

/-! ## A round and a run -/

/-- Where all contracts have one cursor, a round goes on from it. -/
theorem resumeCursor_eq {active : List SyncMetadata} {c : String} (hne : active ≠ []) (hc : c ≠ "")
    (h : ∀ entry ∈ active, entry.cursor = c) : resumeCursor active = some c := by
  have hmap : active.map SyncMetadata.cursor = List.replicate active.length c := by
    rw [List.eq_replicate_iff]
    refine ⟨List.length_map _, fun x hx => ?_⟩
    obtain ⟨entry, hentry, rfl⟩ := List.mem_map.mp hx
    exact h entry hentry
  have hdedup : (((active.map SyncMetadata.cursor).filter (· ≠ "")).dedup).length ≤ 1 := by
    rw [hmap, List.filter_replicate, if_pos (by simpa using hc),
      List.replicate_dedup (by simpa using hne)]
    simp
  unfold resumeCursor
  rw [if_pos hdedup]
  cases active with
  | nil => exact absurd rfl hne
  | cons entry active =>
      have hentry := h entry List.mem_cons_self
      simp [hentry, hc]

section Run

variable {log : EventLog} {paging : Paging} {indexer : Indexer} {s : SyncStorage} {next : ℕ}
  {cursor : Option String} {client : Client}

/-- The pages of a round: the tables stay in step with the log, and they stay complete exactly
when no empty page comes too early. -/
theorem Synced.pages (hserves : Serves log paging client) (startLedger : UInt32) :
    ∀ (pages : ℕ) {s : SyncStorage} {next : ℕ} {cursor : Option String},
      Synced log paging indexer s next cursor → Complete log indexer s →
      log.requestPlace paging startLedger cursor = some next →
      (∃ next' cursor', Synced log paging indexer
        (indexer.pagesSaved client startLedger pages cursor s) next' cursor') ∧
      (Complete log indexer (indexer.pagesSaved client startLedger pages cursor s) ↔
        indexer.PagesQuiet log paging client startLedger pages cursor) := by
  intro pages
  induction pages with
  | zero => exact fun h hc _ => ⟨⟨_, _, h⟩, iff_of_true hc trivial⟩
  | succ pages ih =>
      intro s next cursor h hc hplace
      unfold Indexer.pagesSaved Indexer.PagesQuiet
      cases hpage : client.getContractEvents indexer.contractIds startLedger pageSize cursor with
      | error e => exact ⟨⟨_, _, h⟩, iff_of_true hc trivial⟩
      | ok page =>
          obtain ⟨newCursor, events, latestLedger⟩ := page
          obtain ⟨c, next', rfl, hp⟩ := hserves _ _ _ _ _ _ hpage next hplace
          have hsynced := h.page hp latestLedger
          dsimp only
          cases hempty : events.isEmpty with
          | true =>
              rw [if_pos rfl, if_pos rfl]
              refine ⟨⟨_, _, hsynced⟩, ?_⟩
              by_cases hquiet : log.Quiet indexer.contractIds next latestLedger
              · refine iff_of_true (hc.page h fun _ => hquiet) fun first hfirst => ?_
                obtain rfl := Option.some.inj (hplace.symm.trans hfirst)
                exact hquiet
              · exact iff_of_false (h.not_complete hempty hquiet) fun hall =>
                  hquiet (hall next hplace)
          | false =>
              rw [if_neg (by decide), if_neg (by decide)]
              exact ih hsynced (hc.page h fun he => by rw [hempty] at he; cases he)
                hp.cursorPlace

/-- A round goes on from where the tables are. -/
theorem Synced.resume (h : Synced log paging indexer s next cursor) :
    resumeCursor (indexer.activeSync (getSyncMetadata s)) = cursor ∧
      log.requestPlace paging (indexer.startLedger (indexer.activeSync (getSyncMetadata s)))
        cursor = some next := by
  cases cursor with
  | none =>
      obtain ⟨hrows, hnext⟩ := h.fresh rfl
      have hnone : getSyncMetadata s = [] := by
        rw [getSyncMetadata, hrows]
        rfl
      rw [hnone, hnext]
      exact ⟨rfl, rfl⟩
  | some c =>
      obtain ⟨hne, hplace⟩ := h.place c rfl
      have hcursor : ∀ entry ∈ indexer.activeSync (getSyncMetadata s), entry.cursor = c := by
        intro entry hentry
        obtain ⟨row, hrow, -, hc, -⟩ := row_of_entry (List.mem_filter.mp hentry).1
        obtain ⟨-, -, -, hlast⟩ := h.rows row hrow
        rw [hc, hlast]
        rfl
      have hnonempty : indexer.activeSync (getSyncMetadata s) ≠ [] := by
        obtain ⟨a, ha⟩ := List.exists_mem_of_ne_nil _ indexer.contractIds_ne_nil
        obtain ⟨row, hrow, haddress⟩ := h.covered a ha (by simp)
        exact List.ne_nil_of_mem
          (List.mem_filter.mpr ⟨entry_of_row hrow haddress, decide_eq_true ha⟩)
      exact ⟨resumeCursor_eq hnonempty hne hcursor, hplace⟩

theorem Synced.round (hserves : Serves log paging client)
    (h : Synced log paging indexer s next cursor) (hc : Complete log indexer s) :
    (∃ next' cursor', Synced log paging indexer (indexer.round s client) next' cursor') ∧
      (Complete log indexer (indexer.round s client) ↔
        indexer.RoundQuiet log paging s client) := by
  rw [round_eq]
  unfold Indexer.RoundQuiet
  cases client.getLatestLedger with
  | error e => exact ⟨⟨_, _, h⟩, iff_of_true hc trivial⟩
  | ok tip =>
      obtain ⟨hcursor, hplace⟩ := h.resume
      dsimp only
      rw [hcursor]
      exact Synced.pages hserves _ _ h hc hplace

theorem Synced.run (clients : List Client) : ∀ {s : SyncStorage} {next : ℕ}
    {cursor : Option String}, (∀ client ∈ clients, Serves log paging client) →
    Synced log paging indexer s next cursor → Complete log indexer s →
    ((∀ rounds, rounds <+: clients → Complete log indexer (indexer.run rounds s)) ↔
      ∀ rounds client rest, clients = rounds ++ client :: rest →
        indexer.RoundQuiet log paging (indexer.run rounds s) client) := by
  induction clients with
  | nil =>
      intro s next cursor _ h hc
      refine iff_of_true (fun rounds hr => ?_) fun rounds client rest hr => by simp at hr
      rw [List.prefix_nil.mp hr]
      exact hc
  | cons client clients ih =>
      intro s next cursor hserves h hc
      obtain ⟨⟨next', cursor', hsynced⟩, hround⟩ := h.round (hserves client List.mem_cons_self) hc
      have hrest := fun hc' => ih (fun c hcm => hserves c (List.mem_cons_of_mem _ hcm)) hsynced hc'
      constructor
      · intro hall rounds client' rest heq
        have hfirst : Complete log indexer (indexer.round s client) :=
          hall [client] (List.cons_prefix_cons.mpr ⟨rfl, List.nil_prefix⟩)
        cases rounds with
        | nil =>
            obtain ⟨rfl, -⟩ := List.cons.inj heq
            exact hround.mp hfirst
        | cons c rounds =>
            obtain ⟨rfl, htail⟩ := List.cons.inj heq
            exact (hrest hfirst).mp (fun rounds hr =>
              hall (client :: rounds) (List.cons_prefix_cons.mpr ⟨rfl, hr⟩)) rounds client' rest htail
      · intro hall rounds hr
        have hfirst := hround.mpr (hall [] client clients rfl)
        cases rounds with
        | nil => exact hc
        | cons c rounds =>
            obtain ⟨rfl, htail⟩ := List.cons_prefix_cons.mp hr
            exact (hrest hfirst).mpr (fun rounds client' rest heq =>
              hall (c :: rounds) client' rest (by rw [heq]; rfl)) rounds htail

end Run

/-- **When the indexer is complete.** In a run of rounds from empty tables, against nodes that
serve the log, the stored events are complete after every round exactly when in every round
an empty page comes only where no event of the contracts follows up to the reported ledger. -/
theorem complete_iff (log : EventLog) (paging : Paging) (indexer : Indexer)
    (clients : List Client) (hserves : ∀ client ∈ clients, Serves log paging client) :
    (∀ rounds, rounds <+: clients → Complete log indexer (indexer.run rounds .empty)) ↔
      ∀ rounds client rest, clients = rounds ++ client :: rest →
        indexer.RoundQuiet log paging (indexer.run rounds .empty) client :=
  Synced.run clients hserves synced_empty fun entry hentry => by cases hentry

/-! ### Runs -/

section Runs

/-- A log of one event. Positions are ledgers. -/
def oneEventLog (ledger : UInt32) (hledger : 0 < ledger) : EventLog where
  events := [{ id := "e", ledger, contractId := "A", topics := [], value := "" }]
  place e := e.ledger.toNat
  base := UInt32.toNat
  base_le e _ ledger := UInt32.le_iff_toNat_le.symm
  sorted := List.pairwise_singleton _ _
  ids := List.nodup_singleton _
  ledger_pos e he := by
    rw [List.mem_singleton.mp he]
    exact hledger

/-- Windows of two ledgers; the length of a cursor is the position it stands for. -/
def twoLedgers : Paging where
  windowEnd first := first + 2
  lt_windowEnd first := Nat.lt_add_of_pos_right (by decide)
  cursorPlace cursor := some cursor.length

/-- A node that serves a log in these windows and reports ledger 5. -/
def twoLedgersClient (log : EventLog) : Client where
  getLatestLedger := .ok 5
  getContractEvents contractIds startLedger _ cursor :=
    let first := (log.requestPlace twoLedgers startLedger cursor).getD 0
    .ok (some (String.ofList (List.replicate (first + 2) 'x')),
      log.between contractIds first (first + 2), 5)

def poolAIndexer : Indexer where
  contractIds := ["A"]
  minPoolLedger := 1
  contractIds_ne_nil := by decide

theorem twoLedgersClient_serves (ledger : UInt32) (hledger : 0 < ledger) :
    Serves (oneEventLog ledger hledger) twoLedgers
      (twoLedgersClient (oneEventLog ledger hledger)) := by
  intro contractIds startLedger cursor newCursor events latestLedger hpage first hfirst
  have hlength : (String.ofList (List.replicate (first + 2) 'x')).length = first + 2 := by
    rw [String.length_ofList, List.length_replicate]
  unfold twoLedgersClient at hpage
  dsimp only at hpage
  rw [hfirst, Option.getD_some] at hpage
  cases hpage
  refine ⟨_, first + 2, rfl, ?_⟩
  exact {
    cursor_ne := fun he => by rw [he] at hlength; cases hlength
    cursorPlace := congrArg some hlength
    lt := Nat.lt_add_of_pos_right (by decide)
    le := le_refl _
    events_eq := rfl
    size := (List.length_filter_le _ _).trans (show 1 ≤ 300 by decide)
    full := Or.inl rfl }

theorem complete_iff_earlyEvent : Complete (oneEventLog 1 (by decide)) poolAIndexer
    (poolAIndexer.run [twoLedgersClient (oneEventLog 1 (by decide))] .empty) := by
  refine (complete_iff (oneEventLog 1 (by decide)) twoLedgers poolAIndexer
    [twoLedgersClient (oneEventLog 1 (by decide))] fun client hclient => ?_).mpr ?_ _
    (List.prefix_refl _)
  · rw [List.mem_singleton.mp hclient]
    exact twoLedgersClient_serves 1 (by decide)
  · intro rounds client rest heq
    obtain ⟨rfl, rfl, rfl⟩ : rounds = [] ∧ client = twoLedgersClient (oneEventLog 1 (by decide)) ∧
        rest = [] := by
      cases rounds with
      | nil => exact ⟨rfl, (List.cons.inj heq).1.symm, (List.cons.inj heq).2.symm⟩
      | cons c rounds => simp at heq
    show poolAIndexer.PagesQuiet (oneEventLog 1 (by decide)) twoLedgers
      (twoLedgersClient (oneEventLog 1 (by decide))) 1 10 none
    -- the first page has the event, the second one is empty
    unfold Indexer.PagesQuiet twoLedgersClient
    dsimp only
    rw [if_neg (by decide +kernel)]
    unfold Indexer.PagesQuiet
    dsimp only
    rw [if_pos (by decide +kernel)]
    intro first hfirst e he _ hplace
    obtain rfl := Option.some.inj hfirst
    obtain rfl := List.mem_singleton.mp he
    exact absurd hplace (by decide +kernel)

/-- The first window is empty, so that the indexer counts as caught up at ledger 5 without the
event there. -/
theorem empty_window_not_complete :
    Serves (oneEventLog 5 (by decide)) twoLedgers (twoLedgersClient (oneEventLog 5 (by decide))) ∧
      ¬ Complete (oneEventLog 5 (by decide)) poolAIndexer
        (poolAIndexer.run [twoLedgersClient (oneEventLog 5 (by decide))] .empty) := by
  refine ⟨twoLedgersClient_serves 5 (by decide), fun hcomplete => ?_⟩
  have hentry : ({ contractId := "A", cursor := "xxx", lastIndexedLedger := 5
                   lastFullyIndexedLedger := 5 } : SyncMetadata) ∈ getSyncMetadata
      (poolAIndexer.run [twoLedgersClient (oneEventLog 5 (by decide))] .empty) := by
    decide +kernel
  have hstored : (poolAIndexer.run [twoLedgersClient (oneEventLog 5 (by decide))]
      .empty).tables.storedEvents = [] := by decide +kernel
  have hevent := hcomplete _ hentry (by decide) _ (List.mem_singleton.mpr rfl) rfl (by decide)
    (by decide)
  rw [hstored] at hevent
  cases hevent

end Runs

end PrivatePayments.Stellar
