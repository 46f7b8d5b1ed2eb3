import PrivatePayments.Contracts.MembershipHistory
import PrivatePayments.State.WitnessReadsSound

/-!
# PrivatePayments.State.MembershipSync

The check that the membership leaves are up to date, over the life of the contract.

A `MembershipRun` fills the database: the events of the chain are ingested and processed in
batches, and the raw events are ahead of the leaves. The check compares the last leaf only
with the contract (`check_eq`), so it takes leaves that lag for leaves that are not there
(`precondition_truthful_iff`) and leaves that are ahead of the contract's ledger for a
corrupted tree (`skew_tolerated_iff`).
-/

namespace PrivatePayments.State

open AspMembership (MembershipHistory MembershipStorage Reaches getRoot)
open MerkleWithHistory (treeRoot)

/-! ## The chain -/

/-- The events of a contract. -/
def contractEvents (contractId : String) (chain : List ContractEvent) : List ContractEvent :=
  chain.filter fun e => e.contractId = contractId

/-- The rows that the events of an association set are processed to. -/
def leafRows (xdr : Xdr) (asp : String) (chain : List ContractEvent) : List LeafAddedEvent :=
  (contractEvents asp chain).filterMap fun e => leafKind.parse xdr e.asRead

/-- An event from RPC decodes to what the contract published. -/
structure Carries (xdr : Xdr) (e : ContractEvent)
    (published : UInt32 × AspMembership.LeafAddedEvent) : Prop where
  ledger : e.ledger = published.1
  parsed : ∃ row, parseEvent xdr e.asRead = .ok (.leafAdded row) ∧
    row.leaf.toU256 = published.2.leaf ∧ row.index.toNat = published.2.index ∧
    row.root.toU256 = published.2.root

/-- The chain with a membership contract on it. -/
structure MembershipChain (xdr : Xdr) (asp : String) (history : MembershipHistory)
    (chain : List ContractEvent) : Prop where
  ids : (chain.map ContractEvent.id).Nodup
  carries : List.Forall₂ (Carries xdr) (contractEvents asp chain) history.published

/-- The databases with the first `ingested` raw events of the association set and the leaves
of the first `processed` of them. Batches of raw events may hold other contracts' events and
known ones, and other tables change freely. -/
inductive MembershipRun (xdr : Xdr) (asp : String) (chain : List ContractEvent) :
    Nat → Nat → Storage → Prop
  | empty : MembershipRun xdr asp chain 0 0 Storage.empty
  | ingest {ingested processed : Nat} {s s' : Storage}
      (h : MembershipRun xdr asp chain ingested processed s) {batch : List ContractEvent}
      (hbatch : batch ⊆ chain) {count : Nat} (hcount : ingested ≤ count)
      (hlength : count ≤ (contractEvents asp chain).length)
      (hnext : ∀ e ∈ contractEvents asp chain, e ∈ (contractEvents asp chain).take count ↔
        e ∈ (contractEvents asp chain).take ingested ∨ e ∈ batch)
      (hrun : (saveEventsBatch batch).run s = .ok () s') :
      MembershipRun xdr asp chain count processed s'
  | process {ingested processed : Nat} {s s' : Storage}
      (h : MembershipRun xdr asp chain ingested processed s) {count : Nat}
      (hcount : processed ≤ count) (hle : count ≤ ingested)
      (hrun : (saveLeafAddedEventsBatch (((leafRows xdr asp chain).take count).drop processed)).run
        s = .ok () s') :
      MembershipRun xdr asp chain ingested count s'
  | elsewhere {ingested processed : Nat} {s s' : Storage}
      (h : MembershipRun xdr asp chain ingested processed s)
      (hcontracts : s'.contracts = s.contracts)
      (hraw : s'.rawContractEvents = s.rawContractEvents)
      (hleaves : s'.aspMembershipLeaves = s.aspMembershipLeaves) :
      MembershipRun xdr asp chain ingested processed s'

/-- Every event up to the last fully indexed ledger was ingested. -/
def Truthful (asp : String) (history : MembershipHistory) (ingested : Nat)
    (metadata : List SyncMetadata) : Prop :=
  ∀ m ∈ metadata, m.contractId = asp →
    ∀ i ∈ history.insertions.drop ingested, m.lastFullyIndexedLedger < i.1

/-- The contract has no metadata, or the metadata is behind a ledger. -/
def MetadataBehind (asp : String) (metadata : List SyncMetadata) (ledger : UInt32) : Prop :=
  ∀ m, metadata.find? (fun m => m.contractId = asp) = some m → m.lastFullyIndexedLedger < ledger

/-! ## What is stored -/

theorem Storage.Linked.rawEvent?_of_mem {s : Storage} (hs : s.Linked) {e : ContractEvent}
    (he : e ∈ s.storedEvents) : ∃ r, s.rawEvent? e.id = some r ∧ r.ledger = e.ledger := by
  obtain ⟨r, hr, rfl⟩ := List.mem_map.mp he
  exact ⟨r, Table.find?_key hs.ids hr, rfl⟩

section Congr

variable {s s' : Storage} (hcontracts : s'.contracts = s.contracts)
  (hraw : s'.rawContractEvents = s.rawContractEvents)
include hcontracts hraw

/-- The raw events are read from two tables. -/
theorem Storage.storedEvents_congr : s'.storedEvents = s.storedEvents := by
  unfold Storage.storedEvents Storage.readEvent Storage.contractAddress?
  rw [hcontracts, hraw]

theorem Storage.Linked.congr (hs : s.Linked) : s'.Linked := by
  refine ⟨hcontracts ▸ hs.contracts, ?_, ?_⟩
  · rw [Storage.rawIds, hraw]
    exact hs.ids
  · unfold Storage.contractAddress?
    rw [hcontracts, hraw]
    exact hs.addresses

end Congr

/-- Events of the chain that are saved are stored. -/
theorem Storage.Linked.mem_storedEvents_addEvents {s : Storage} (hs : s.Linked)
    {chain batch : List ContractEvent} (hids : (chain.map ContractEvent.id).Nodup)
    (hstored : s.storedEvents ⊆ chain.map ContractEvent.asRead) (hbatch : batch ⊆ chain)
    {e : ContractEvent} (he : e ∈ batch) : e.asRead ∈ (s.addEvents batch).storedEvents := by
  have hkey : e.asRead.id ∈ (s.addEvents batch).storedEvents.map ContractEvent.id := by
    rw [hs.storedEvents_addEvents]
    exact Table.key_mem_addAllNew (List.mem_map_of_mem he)
  obtain ⟨e', he', hid⟩ := List.mem_map.mp hkey
  have hsource : e' ∈ chain.map ContractEvent.asRead := by
    rw [hs.storedEvents_addEvents] at he'
    rcases Table.mem_or_mem_of_mem_addAllNew he' with hold | hnew
    · exact hstored hold
    · exact List.map_subset _ hbatch hnew
  obtain ⟨e'', he'', rfl⟩ := List.mem_map.mp hsource
  obtain rfl : e'' = e := List.inj_on_of_nodup_map hids he'' (hbatch he) hid
  exact he'

section Chain

variable {xdr : Xdr} {asp : String} {history : MembershipHistory} {chain : List ContractEvent}

/-- The row of an event, as the contract published it. -/
structure RowOf (history : MembershipHistory) (i : Nat) (inserted : UInt32 × Fr)
    (e : ContractEvent) (row : LeafAddedEvent) : Prop where
  id : row.id = e.id
  leaf : row.leaf = inserted.2
  index : row.index.toNat = i
  root : row.root = history.rootOf (i + 1)
  ledger : e.ledger = inserted.1

/-- Rows are as many as events. -/
theorem leafRows_forall₂ {events : List ContractEvent}
    {published : List (UInt32 × AspMembership.LeafAddedEvent)}
    (h : List.Forall₂ (Carries xdr) events published) :
    List.Forall₂ (fun e row => leafKind.parse xdr e.asRead = some row) events
      (events.filterMap fun e => leafKind.parse xdr e.asRead) := by
  induction h with
  | nil => exact .nil
  | @cons e _ _ _ he _ ih =>
      obtain ⟨row, hparse, -⟩ := he.parsed
      have hrow : leafKind.parse xdr e.asRead = some row :=
        EventKind.parse_eq_some.mpr ⟨_, hparse, rfl⟩
      simp only [List.filterMap_cons, hrow]
      exact .cons hrow ih

theorem MembershipChain.length_events (hchain : MembershipChain xdr asp history chain) :
    (contractEvents asp chain).length = history.insertions.length := by
  have hlength := hchain.carries.length_eq
  simpa [MembershipHistory.published, AspMembership.leafEvents, MembershipHistory.leaves]
    using hlength

theorem MembershipChain.length_rows (hchain : MembershipChain xdr asp history chain) :
    (leafRows xdr asp chain).length = history.insertions.length := by
  rw [← hchain.length_events]
  exact (leafRows_forall₂ hchain.carries).length_eq.symm

/-- Event and row `i` are those of insertion `i`. -/
theorem MembershipChain.row (hchain : MembershipChain xdr asp history chain) {i : Nat}
    (hi : i < history.insertions.length) :
    ∃ e row, (contractEvents asp chain)[i]? = some e ∧ (leafRows xdr asp chain)[i]? = some row ∧
      RowOf history i history.insertions[i] e row := by
  have he : i < (contractEvents asp chain).length := hchain.length_events ▸ hi
  have hrow : i < (leafRows xdr asp chain).length := hchain.length_rows ▸ hi
  have hpublished := history.published_getElem? i
  rw [List.getElem?_eq_getElem hi, Option.map_some] at hpublished
  obtain ⟨hlt, hget⟩ := List.getElem?_eq_some_iff.mp hpublished
  have hcarries := hchain.carries.get he hlt
  have hparsed := (leafRows_forall₂ hchain.carries).get he hrow
  simp only [List.get_eq_getElem] at hcarries hparsed
  rw [hget] at hcarries
  obtain ⟨row, hok, hleaf, hindex, hroot⟩ := hcarries.parsed
  obtain rfl : row = (leafRows xdr asp chain)[i] := by
    have hsame : leafKind.parse xdr ((contractEvents asp chain)[i]).asRead = some row :=
      EventKind.parse_eq_some.mpr ⟨_, hok, rfl⟩
    exact Option.some.inj (hsame.symm.trans hparsed)
  exact ⟨_, _, List.getElem?_eq_getElem he, List.getElem?_eq_getElem hrow,
    EventKind.eventId_of_parse hparsed, Fr.toU256_inj.mp hleaf, hindex, Fr.toU256_inj.mp hroot,
    hcarries.ledger⟩

theorem MembershipChain.row_of_mem (hchain : MembershipChain xdr asp history chain) {count : Nat}
    {row : LeafAddedEvent} (hrow : row ∈ (leafRows xdr asp chain).take count) :
    ∃ (i : Nat) (hi : i < history.insertions.length) (e : ContractEvent), i < count ∧
      (contractEvents asp chain)[i]? = some e ∧ (leafRows xdr asp chain)[i]? = some row ∧
      RowOf history i history.insertions[i] e row := by
  obtain ⟨i, hi, rfl⟩ := List.mem_iff_getElem.mp hrow
  rw [List.length_take, hchain.length_rows] at hi
  obtain ⟨e, row, he, hget, hof⟩ := hchain.row (lt_of_lt_of_le hi (Nat.min_le_right _ _))
  obtain ⟨hlt, rfl⟩ := List.getElem?_eq_some_iff.mp hget
  refine ⟨i, lt_of_lt_of_le hi (Nat.min_le_right _ _), e, lt_of_lt_of_le hi (Nat.min_le_left _ _),
    he, ?_, ?_⟩
  · simp
  · simpa using hof

/-- The ids of the rows are those of the events. -/
theorem MembershipChain.nodup_rows (hchain : MembershipChain xdr asp history chain) :
    ((leafRows xdr asp chain).map LeafAddedEvent.id).Nodup := by
  have hids : (leafRows xdr asp chain).map LeafAddedEvent.id =
      (contractEvents asp chain).map ContractEvent.id := by
    refine List.ext_getElem? fun i => ?_
    rw [List.getElem?_map, List.getElem?_map]
    by_cases hi : i < history.insertions.length
    · obtain ⟨e, row, he, hrow, hof⟩ := hchain.row hi
      rw [he, hrow, Option.map_some, Option.map_some, hof.id]
    · rw [List.getElem?_eq_none (by rw [hchain.length_rows]; omega),
        List.getElem?_eq_none (by rw [hchain.length_events]; omega)]
      rfl
  rw [hids]
  exact hchain.ids.sublist (List.filter_sublist.map _)

/-- The rows are in the order of their indices. -/
theorem MembershipChain.rows_ordered (hchain : MembershipChain xdr asp history chain) :
    (leafRows xdr asp chain).Pairwise fun a b => a.index.toNat < b.index.toNat := by
  refine List.pairwise_iff_getElem.mpr fun i j hi hj hij => ?_
  obtain ⟨_, row, _, hrow, hof⟩ := hchain.row (hchain.length_rows ▸ hi)
  obtain ⟨_, row', _, hrow', hof'⟩ := hchain.row (hchain.length_rows ▸ hj)
  rw [List.getElem?_eq_getElem hi] at hrow
  rw [List.getElem?_eq_getElem hj] at hrow'
  rw [Option.some.inj hrow, Option.some.inj hrow', hof.index, hof'.index]
  exact hij

/-- What a run has stored. -/
structure MembershipDb (xdr : Xdr) (asp : String) (chain : List ContractEvent)
    (ingested processed : Nat) (s : Storage) : Prop where
  linked : s.Linked
  le : processed ≤ ingested
  le_length : ingested ≤ (contractEvents asp chain).length
  stored : s.storedEvents ⊆ chain.map ContractEvent.asRead
  events : ∀ e ∈ (contractEvents asp chain).take ingested, e.asRead ∈ s.storedEvents
  leaves : Table.columns s.aspMembershipLeaves = (leafRows xdr asp chain).take processed

variable {s s' : Storage} {ingested processed : Nat}

theorem MembershipDb.ingest (hs : MembershipDb xdr asp chain ingested processed s)
    (hids : (chain.map ContractEvent.id).Nodup) {batch : List ContractEvent}
    (hbatch : batch ⊆ chain) {count : Nat} (hcount : ingested ≤ count)
    (hlength : count ≤ (contractEvents asp chain).length)
    (hnext : ∀ e ∈ contractEvents asp chain, e ∈ (contractEvents asp chain).take count ↔
      e ∈ (contractEvents asp chain).take ingested ∨ e ∈ batch) :
    MembershipDb xdr asp chain count processed (s.addEvents batch) := by
  have hstored := hs.linked.storedEvents_addEvents batch
  refine ⟨hs.linked.addEvents batch, hs.le.trans hcount, hlength, ?_, ?_, ?_⟩
  · rw [hstored]
    intro e he
    rcases Table.mem_or_mem_of_mem_addAllNew he with hold | hnew
    · exact hs.stored hold
    · exact List.map_subset _ hbatch hnew
  · intro e he
    rcases (hnext e (List.mem_of_mem_take he)).mp he with hold | hnew
    · rw [hstored]
      exact Table.mem_addAllNew_of_mem (hs.events e hold)
    · exact hs.linked.mem_storedEvents_addEvents hids hs.stored hbatch hnew
  · rw [show (s.addEvents batch).aspMembershipLeaves = s.aspMembershipLeaves from
      aspMembershipLeavesTable.rows_addEvents s batch]
    exact hs.leaves

/-- A batch of leaves is saved whole. -/
theorem MembershipDb.process_run (hs : MembershipDb xdr asp chain ingested processed s)
    (hchain : MembershipChain xdr asp history chain) {count : Nat} (hcount : processed ≤ count)
    (hle : count ≤ ingested) :
    ∃ s', (saveLeafAddedEventsBatch (((leafRows xdr asp chain).take count).drop processed)).run s =
      .ok () s' ∧ MembershipDb xdr asp chain ingested count s' := by
  have hsplit : (leafRows xdr asp chain).take processed ++
      ((leafRows xdr asp chain).take count).drop processed = (leafRows xdr asp chain).take count := by
    have htake := List.take_append_drop processed ((leafRows xdr asp chain).take count)
    rwa [List.take_take, Nat.min_eq_left hcount] at htake
  have hraw : ∀ row ∈ ((leafRows xdr asp chain).take count).drop processed,
      aspMembershipLeavesTable.eventId row ∈ s.rawIds := by
    intro row hrow
    obtain ⟨i, _, e, hi, he, _, hof⟩ := hchain.row_of_mem (List.mem_of_mem_drop hrow)
    have hmem : e ∈ (contractEvents asp chain).take ingested :=
      List.mem_of_getElem? ((List.getElem?_take_of_lt (lt_of_lt_of_le hi hle)).trans he)
    have hid : row.id ∈ s.storedEvents.map ContractEvent.id :=
      List.mem_map.mpr ⟨_, hs.events e hmem, hof.id.symm⟩
    rwa [Storage.storedEvents_ids] at hid
  have hnodup {κ : Type} {key : LeafAddedEvent → κ} (hkeys : ((leafRows xdr asp chain).map key).Nodup) :
      ((Table.columns s.aspMembershipLeaves ++
        ((leafRows xdr asp chain).take count).drop processed).map key).Nodup := by
    rw [hs.leaves, hsplit]
    exact hkeys.sublist ((List.take_sublist _ _).map _)
  have hindices : ((leafRows xdr asp chain).map LeafAddedEvent.index).Nodup := by
    rw [List.Nodup, List.pairwise_map]
    exact hchain.rows_ordered.imp fun hlt heq => by simp [heq] at hlt
  refine ⟨_, aspMembershipLeavesTable.saveBatch_run s hraw (hnodup hchain.nodup_rows), ?_⟩
  refine ⟨⟨hs.linked.contracts, hs.linked.ids, hs.linked.addresses⟩, hle, hs.le_length, hs.stored,
    hs.events, ?_⟩
  show Table.columns (Table.insertAllNew _ s.aspMembershipLeaves _) = _
  rw [Table.columns_insertAllNew]
  refine (Table.addAllNew_of_nodup (hnodup hindices)).trans ?_
  rw [hs.leaves, hsplit]

/-- What every run has stored. -/
theorem MembershipRun.db (hs : MembershipRun xdr asp chain ingested processed s)
    (hchain : MembershipChain xdr asp history chain) :
    MembershipDb xdr asp chain ingested processed s := by
  induction hs with
  | empty =>
      exact ⟨Storage.linked_empty, Nat.le_refl 0, Nat.zero_le _, nofun, fun e he => by simp at he, rfl⟩
  | ingest _ hbatch hcount hlength hnext hrun ih =>
      rw [saveEventsBatch_run] at hrun
      cases hrun
      exact ih.ingest hchain.ids hbatch hcount hlength hnext
  | process _ hcount hle hrun ih =>
      obtain ⟨s', hrun', hdb⟩ := ih.process_run hchain hcount hle
      rw [hrun] at hrun'
      cases hrun'
      exact hdb
  | elsewhere _ hcontracts hraw hleaves ih =>
      have hevents : Storage.storedEvents _ = Storage.storedEvents _ :=
        Storage.storedEvents_congr hcontracts hraw
      refine ⟨ih.linked.congr hcontracts hraw, ih.le, ih.le_length, ?_, ?_, ?_⟩
      · rw [hevents]
        exact ih.stored
      · rw [hevents]
        exact ih.events
      · rw [hleaves]
        exact ih.leaves

/-- A batch of raw events is saved whole, so a run can go as far as the chain. -/
theorem MembershipChain.exists_run (hchain : MembershipChain xdr asp history chain)
    (hle : processed ≤ ingested) (hlength : ingested ≤ (contractEvents asp chain).length) :
    ∃ s, MembershipRun xdr asp chain ingested processed s := by
  have hingest : MembershipRun xdr asp chain ingested 0 (Storage.empty.addEvents
      ((contractEvents asp chain).take ingested)) := by
    refine .ingest .empty (fun e he => ?_) (Nat.zero_le ingested) hlength (fun e _ => ?_)
      (saveEventsBatch_run _ _)
    · exact List.mem_of_mem_filter (List.mem_of_mem_take he)
    · simp
  obtain ⟨s', hrun, -⟩ := (hingest.db hchain).process_run hchain (Nat.zero_le processed) hle
  exact ⟨s', .process hingest (Nat.zero_le processed) hle hrun⟩

/-! ## The check -/

/-- The leaves that the check reads are the processed rows, in order. -/
theorem MembershipDb.aspLeaves_eq (hs : MembershipDb xdr asp chain ingested processed s)
    (hchain : MembershipChain xdr asp history chain) :
    s.aspLeaves asp = (leafRows xdr asp chain).take processed := by
  have hall : ∀ row ∈ (leafRows xdr asp chain).take processed,
      decide (s.eventAddress? row.id = some asp) = true := by
    intro row hrow
    obtain ⟨i, _, e, hi, he, _, hof⟩ := hchain.row_of_mem hrow
    have hmem : e ∈ (contractEvents asp chain).take ingested :=
      List.mem_of_getElem? ((List.getElem?_take_of_lt (lt_of_lt_of_le hi hs.le)).trans he)
    have hcontract : e.contractId = asp := by
      simpa using (List.mem_filter.mp (List.mem_of_mem_take hmem)).2
    have haddress := hs.linked.eventAddress?_of_mem (hs.events e hmem)
    rw [hof.id, decide_eq_true_eq, ← hcontract]
    exact haddress
  unfold Storage.aspLeaves
  rw [hs.leaves, List.filter_eq_self.mpr hall]
  exact Table.orderBy_eq_of_perm (List.Perm.refl _)
    (hchain.rows_ordered.sublist (List.take_sublist _ _))

theorem MembershipDb.processed_le (hs : MembershipDb xdr asp chain ingested processed s)
    (hchain : MembershipChain xdr asp history chain) : processed ≤ history.insertions.length :=
  hchain.length_events ▸ hs.le.trans hs.le_length

/-- The leaves in the table are the first ones of the tree. -/
theorem MembershipDb.leaves_eq (hs : MembershipDb xdr asp chain ingested processed s)
    (hchain : MembershipChain xdr asp history chain) :
    (s.aspLeaves asp).map LeafAddedEvent.leaf = history.leaves.take processed := by
  rw [hs.aspLeaves_eq hchain, List.map_take]
  congr 1
  refine List.ext_getElem? fun i => ?_
  rw [MembershipHistory.leaves, List.getElem?_map, List.getElem?_map]
  by_cases hi : i < history.insertions.length
  · obtain ⟨_, row, _, hrow, hof⟩ := hchain.row hi
    rw [hrow, List.getElem?_eq_getElem hi, Option.map_some, Option.map_some, hof.leaf]
  · rw [List.getElem?_eq_none (by rw [hchain.length_rows]; omega),
      List.getElem?_eq_none (by omega)]
    rfl

/-- The last root and the last ledger are those of the last processed insertion. -/
theorem MembershipDb.last_eq (hs : MembershipDb xdr asp chain ingested processed s)
    (hchain : MembershipChain xdr asp history chain) :
    ((s.aspLeaves asp).getLast?.bind fun l => (s.rawEvent? l.id).map fun r => (l.root, r.ledger)) =
      (history.insertions.take processed).getLast?.map fun i =>
        (history.rootOf processed, i.1) := by
  have hprocessed := hs.processed_le hchain
  rw [hs.aspLeaves_eq hchain]
  cases processed with
  | zero => simp
  | succ n =>
      have hn : n < history.insertions.length := hprocessed
      obtain ⟨e, row, he, hrow, hof⟩ := hchain.row hn
      have hmem : e ∈ (contractEvents asp chain).take ingested :=
        List.mem_of_getElem? ((List.getElem?_take_of_lt hs.le).trans he)
      obtain ⟨r, hraw, hledger⟩ := hs.linked.rawEvent?_of_mem (hs.events e hmem)
      have hraw' : s.rawEvent? e.id = some r := hraw
      rw [List.getLast?_take, List.getLast?_take, if_neg (Nat.succ_ne_zero n),
        if_neg (Nat.succ_ne_zero n), Nat.add_sub_cancel, hrow, List.getElem?_eq_getElem hn]
      simp [hof.id, hraw', hof.root, hledger, hof.ledger, ContractEvent.asRead]

variable {metadata : List SyncMetadata} {userLeaf currentRoot : Fr} {ledger : UInt32}

/-- Behind the ledger there is nothing to check. -/
theorem check_behind (s : Storage) (hbehind : MetadataBehind asp metadata ledger)
    (userLeaf currentRoot : Fr) :
    ∃ gap, checkAspMembershipPrecondition s metadata asp userLeaf currentRoot ledger =
      .ok (.syncRequired gap) := by
  unfold checkAspMembershipPrecondition
  cases hfind : metadata.find? fun m => m.contractId = asp with
  | none => exact ⟨_, rfl⟩
  | some m =>
      dsimp only
      rw [if_pos (hbehind m hfind)]
      exact ⟨_, rfl⟩

/-- With metadata up to the ledger, the last leaf decides. -/
theorem MembershipDb.check_eq (hs : MembershipDb xdr asp chain ingested processed s)
    (hchain : MembershipChain xdr asp history chain)
    (hahead : ¬ MetadataBehind asp metadata ledger) (userLeaf currentRoot : Fr) :
    checkAspMembershipPrecondition s metadata asp userLeaf currentRoot ledger =
      match (history.insertions.take processed).getLast? with
      | none => .ok .registerAtASP
      | some last =>
          if currentRoot ≠ history.rootOf processed then
            if last.1 < ledger then .ok (.syncRequired (some (saturatingSub ledger last.1)))
            else .error s!"asp membership root mismatch at ledger {ledger}"
          else
            match (s.aspLeaves asp).find? fun l => l.leaf = userLeaf with
            | some l => .ok (.userIndex l.index)
            | none => .ok .registerAtASP := by
  obtain ⟨m, hfind, hm⟩ : ∃ m, metadata.find? (fun m => m.contractId = asp) = some m ∧
      ¬ m.lastFullyIndexedLedger < ledger := by
    simpa [MetadataBehind] using hahead
  unfold checkAspMembershipPrecondition
  rw [hfind]
  dsimp only
  rw [if_neg hm, hs.last_eq hchain]
  cases (history.insertions.take processed).getLast? <;> rfl

/-- The row that is found for a leaf has the index of the leaf. -/
theorem MembershipDb.found (hs : MembershipDb xdr asp chain ingested processed s)
    (hchain : MembershipChain xdr asp history chain) {l : LeafAddedEvent}
    (hfind : (s.aspLeaves asp).find? (fun l => l.leaf = userLeaf) = some l) :
    (history.leaves.take processed)[l.index.toNat]? = some userLeaf := by
  have hmem := List.mem_of_find?_eq_some hfind
  have hleaf : l.leaf = userLeaf := by simpa using List.find?_some hfind
  rw [hs.aspLeaves_eq hchain] at hmem
  obtain ⟨i, hi, _, hlt, _, _, hof⟩ := hchain.row_of_mem hmem
  rw [hof.index, List.getElem?_take_of_lt hlt, MembershipHistory.leaves, List.getElem?_map,
    List.getElem?_eq_getElem hi, Option.map_some, ← hof.leaf, hleaf]

/-- A leaf for which no row is found is not there. -/
theorem MembershipDb.not_found (hs : MembershipDb xdr asp chain ingested processed s)
    (hchain : MembershipChain xdr asp history chain)
    (hfind : (s.aspLeaves asp).find? (fun l => l.leaf = userLeaf) = none) :
    userLeaf ∉ history.leaves.take processed := by
  rw [← hs.leaves_eq hchain]
  intro hmem
  obtain ⟨l, hl, hleaf⟩ := List.mem_map.mp hmem
  simpa [hleaf] using List.find?_eq_none.mp hfind l hl

/-- Truthful metadata up to a ledger: the leaves of that ledger were ingested. -/
theorem Truthful.countAt_le (htruth : Truthful asp history ingested metadata)
    (hahead : ¬ MetadataBehind asp metadata ledger) : history.countAt ledger ≤ ingested := by
  obtain ⟨m, hfind, hm⟩ : ∃ m, metadata.find? (fun m => m.contractId = asp) = some m ∧
      ¬ m.lastFullyIndexedLedger < ledger := by
    simpa [MetadataBehind] using hahead
  by_contra hlt
  have hcount := history.countAt_le ledger
  have hi : ingested < history.insertions.length := by omega
  have hcontract : m.contractId = asp := by simpa using List.find?_some hfind
  have hlate := htruth m (List.mem_of_find?_eq_some hfind) hcontract history.insertions[ingested]
    (List.mem_of_getElem? (i := 0) (by simp [hi]))
  have hearly : history.insertions[ingested] ∈ history.insertions.filter fun i => i.1 ≤ ledger := by
    rw [history.insertions_at]
    exact List.mem_of_getElem? ((List.getElem?_take_of_lt (by omega)).trans
      (List.getElem?_eq_getElem hi))
  have hwithin : history.insertions[ingested].1 ≤ ledger := by simpa using hearly
  exact hm (UInt32.lt_of_lt_of_le hlate hwithin)

end Chain

/-! ## Two leaves -/

/-- Leaf 7 in ledger 5 and leaf 8 in ledger 6. -/
def twoLeaves : MembershipHistory where
  levels := 1
  levels_pos := le_refl 1
  levels_le := by decide
  calls := [(5, 7), (6, 8)]
  ordered := by decide

/-- The data of a `leaf_added` event. -/
def leafAddedData (leaf : Fr) (index : UInt64) (root : Fr) : ScVal :=
  .map (some [(.symbol (asciiBytes "leaf"), wireField leaf),
    (.symbol (asciiBytes "index"), .u64 index), (.symbol (asciiBytes "root"), wireField root)])

/-- The decoder on the values of the two events. -/
def twoLeavesXdr : Xdr :=
  { wireXdr with
    fromXdrBase64 := fun text => okOrElse
      ([("leaf_added", .symbol (asciiBytes "leaf_added")),
        ("first", leafAddedData 7 0 (treeRoot 1 [7])),
        ("second", leafAddedData 8 1 (treeRoot 1 [7, 8]))].lookup text) "xdr value invalid" }

/-- The metadata of ledger 5 after the first leaf. -/
theorem twoLeaves_truthful : Truthful "asp" twoLeaves 1 [⟨"asp", "", 5, 5⟩] := by
  intro m hm _ i hi
  obtain rfl := List.mem_singleton.mp hm
  have hlast : i ∈ [((6 : UInt32), (8 : Fr))] := hi
  obtain rfl := List.mem_singleton.mp hlast
  decide

/-- The two events. -/
def twoLeavesChain : List ContractEvent := [
  ⟨"5-0", 5, "asp", ["leaf_added"], "first"⟩, ⟨"6-0", 6, "asp", ["leaf_added"], "second"⟩]

theorem twoLeavesChain_parsed :
    twoLeavesChain.map (fun e => parseEvent twoLeavesXdr e.asRead) = [
      .ok (.leafAdded ⟨"5-0", 7, 0, treeRoot 1 [7]⟩),
      .ok (.leafAdded ⟨"6-0", 8, 1, treeRoot 1 [7, 8]⟩)] := by
  decide +kernel

theorem twoLeaves_chain : MembershipChain twoLeavesXdr "asp" twoLeaves twoLeavesChain := by
  have hparsed := twoLeavesChain_parsed
  simp only [twoLeavesChain, List.map_cons, List.map_nil, List.cons.injEq, and_true] at hparsed
  obtain ⟨hfirst, hsecond⟩ := hparsed
  have hevents : contractEvents "asp" twoLeavesChain = twoLeavesChain := by decide
  have hpublished : twoLeaves.published = [(5, ⟨7, 0, (treeRoot 1 [7]).toU256⟩),
      (6, ⟨8, 1, (treeRoot 1 [7, 8]).toU256⟩)] := by
    decide +kernel
  refine ⟨by decide, ?_⟩
  rw [hevents, hpublished]
  exact .cons ⟨rfl, _, hfirst, rfl, rfl, rfl⟩ (.cons ⟨rfl, _, hsecond, rfl, rfl, rfl⟩ .nil)

/-- The contract after the first leaf. -/
theorem twoLeaves_first : ∃ contract, Reaches 0 twoLeaves.levels (twoLeaves.callsAt 5) contract :=
  ⟨_, .insertLeaf (.deploy (AspMembership.constructor_apply (le_refl 1) (by decide) 0))
    (show AspMembership.Permits _ true from fun _ => rfl) 7⟩

/-! ## The answers -/

section Answers

variable {xdr : Xdr} {asp : String} {history : MembershipHistory} {chain : List ContractEvent}
  {s : Storage} {ingested processed : Nat} {metadata : List SyncMetadata}
  {userLeaf currentRoot : Fr} {ledger : UInt32}

/-- What an answer promises, for the leaves of the contract at the ledger and those in the
table. -/
structure AnswerHolds (levels : Nat) (onChain stored : List Fr) (lags : Prop)
    (userLeaf currentRoot : Fr) (answer : Except String AspMembershipSync) : Prop where
  register : answer = .ok .registerAtASP → userLeaf ∉ onChain
  userIndex : ∀ i, answer = .ok (.userIndex i) →
    treeRoot levels stored = currentRoot ∧ stored[i.toNat]? = some userLeaf
  lag : lags → ∃ gap, answer = .ok (.syncRequired gap)

theorem AnswerHolds.of_syncRequired {levels : Nat} {onChain stored : List Fr} {lags : Prop}
    {answer : Except String AspMembershipSync} {gap : Option UInt32}
    (h : answer = .ok (.syncRequired gap)) :
    AnswerHolds levels onChain stored lags userLeaf currentRoot answer := by
  subst h
  exact ⟨nofun, nofun, fun _ => ⟨gap, rfl⟩⟩

/-- With all that was ingested processed, an answer that is read off the leaves holds. -/
theorem MembershipDb.answerHolds (hs : MembershipDb xdr asp chain ingested processed s)
    (hchain : MembershipChain xdr asp history chain)
    (hahead : ¬ MetadataBehind asp metadata ledger)
    (hcount : history.countAt ledger ≤ processed) (hlags : ¬ processed < ingested)
    (userLeaf currentRoot : Fr) :
    AnswerHolds history.levels (history.leaves.take (history.countAt ledger))
      ((s.aspLeaves asp).map LeafAddedEvent.leaf) (processed < ingested) userLeaf currentRoot
      (checkAspMembershipPrecondition s metadata asp userLeaf currentRoot ledger) := by
  have hearly : history.leaves.take (history.countAt ledger) ⊆ history.leaves.take processed :=
    (List.take_prefix_take_left hcount).subset
  rw [hs.check_eq hchain hahead, hs.leaves_eq hchain]
  refine ⟨?_, ?_, fun h => absurd h hlags⟩
  · cases hlast : (history.insertions.take processed).getLast? with
    | none =>
        have hnil := List.getLast?_eq_none_iff.mp hlast
        intro _ hmem
        have hmem' := hearly hmem
        rw [MembershipHistory.leaves, ← List.map_take, hnil] at hmem'
        cases hmem'
    | some last =>
        dsimp only
        split_ifs
        · exact fun h => by cases h
        · exact fun h => by cases h
        · cases hfind : (s.aspLeaves asp).find? fun l => l.leaf = userLeaf with
          | some l => exact fun h => by cases h
          | none => exact fun _ hmem => hs.not_found hchain hfind (hearly hmem)
  · intro i
    cases hlast : (history.insertions.take processed).getLast? with
    | none => exact fun h => by cases h
    | some last =>
        dsimp only
        split_ifs with hroot
        · exact fun h => by cases h
        · exact fun h => by cases h
        · cases hfind : (s.aspLeaves asp).find? fun l => l.leaf = userLeaf with
          | none => exact fun h => by cases h
          | some l =>
              intro heq
              cases heq
              exact ⟨(not_not.mp hroot).symm, hs.found hchain hfind⟩

/-- **The membership precondition.** For every database that was filled with some of the
contract's events and processed some of those, truthful metadata, and whatever root is asked
for: the answer holds if and only if the metadata is missing or behind the ledger, or
everything that was ingested is processed, or the last processed leaf is of an earlier ledger
and its root is another one. -/
theorem precondition_truthful_iff (hchain : MembershipChain xdr asp history chain)
    (hs : MembershipRun xdr asp chain ingested processed s)
    (htruth : Truthful asp history ingested metadata) (userLeaf currentRoot : Fr) :
    AnswerHolds history.levels
        (AspMembership.insertedLeaves history.levels (history.callsAt ledger))
        ((s.aspLeaves asp).map LeafAddedEvent.leaf) (processed < ingested) userLeaf currentRoot
        (checkAspMembershipPrecondition s metadata asp userLeaf currentRoot ledger) ↔
      MetadataBehind asp metadata ledger ∨ processed = ingested ∨
        ∃ last, (history.insertions.take processed).getLast? = some last ∧
          currentRoot ≠ history.rootOf processed ∧ last.1 < ledger := by
  have hdb := hs.db hchain
  rw [history.insertedLeaves_at]
  by_cases hbehind : MetadataBehind asp metadata ledger
  · obtain ⟨gap, hgap⟩ := check_behind s hbehind userLeaf currentRoot
    exact ⟨fun _ => .inl hbehind, fun _ => .of_syncRequired hgap⟩
  · by_cases hall : processed = ingested
    · have hcount := hall ▸ htruth.countAt_le hbehind
      exact ⟨fun _ => .inr (.inl hall),
        fun _ => hdb.answerHolds hchain hbehind hcount (by omega) userLeaf currentRoot⟩
    · have hlags : processed < ingested := lt_of_le_of_ne hdb.le hall
      have hcheck := hdb.check_eq hchain hbehind userLeaf currentRoot
      constructor
      · intro hholds
        obtain ⟨gap, hgap⟩ := hholds.lag hlags
        rw [hcheck] at hgap
        cases hlast : (history.insertions.take processed).getLast? with
        | none =>
            rw [hlast] at hgap
            cases hgap
        | some last =>
            rw [hlast] at hgap
            dsimp only at hgap
            split_ifs at hgap with hne hlt
            · exact .inr (.inr ⟨last, rfl, hne, hlt⟩)
            · split at hgap <;> cases hgap
      · rintro (h | h | ⟨last, hlast, hne, hlt⟩)
        · exact absurd h hbehind
        · exact absurd h hall
        · rw [hlast] at hcheck
          dsimp only at hcheck
          rw [if_pos hne, if_pos hlt] at hcheck
          exact .of_syncRequired hcheck

end Answers

theorem precondition_truthful_iff_processed :
    ∃ s, MembershipRun twoLeavesXdr "asp" twoLeavesChain 1 1 s ∧
      AnswerHolds 1 (AspMembership.insertedLeaves 1 (twoLeaves.callsAt 5))
        ((s.aspLeaves "asp").map LeafAddedEvent.leaf) (1 < 1) 7 (treeRoot 1 [7])
        (checkAspMembershipPrecondition s [⟨"asp", "", 5, 5⟩] "asp" 7 (treeRoot 1 [7]) 5) := by
  obtain ⟨s, hs⟩ := twoLeaves_chain.exists_run (le_refl 1) (by decide)
  exact ⟨s, hs, (precondition_truthful_iff twoLeaves_chain hs twoLeaves_truthful 7 (treeRoot 1 [7])).mpr
    (.inr (.inl rfl))⟩

/-- The first leaf is ingested and not processed: its owner is sent to register. -/
theorem registered_sent_to_register :
    ¬ ∀ {xdr : Xdr} {asp : String} {history : MembershipHistory} {chain : List ContractEvent}
      {ingested processed : Nat} {s : Storage} {metadata : List SyncMetadata} {ledger : UInt32}
      {admin : AspMembership.Address} {contract : MembershipStorage} {currentRoot : Fr},
      MembershipChain xdr asp history chain → MembershipRun xdr asp chain ingested processed s →
      Truthful asp history ingested metadata →
      Reaches admin history.levels (history.callsAt ledger) contract →
      getRoot.run contract = .ok currentRoot.toU256 contract → ∀ userLeaf,
        AnswerHolds history.levels
          (AspMembership.insertedLeaves history.levels (history.callsAt ledger))
          ((s.aspLeaves asp).map LeafAddedEvent.leaf) (processed < ingested) userLeaf currentRoot
          (checkAspMembershipPrecondition s metadata asp userLeaf currentRoot ledger) := by
  intro hall
  obtain ⟨s, hs⟩ := twoLeaves_chain.exists_run (Nat.zero_le 1) (by decide)
  obtain ⟨contract, hreach⟩ := twoLeaves_first
  have hahead : ¬ MetadataBehind "asp" [⟨"asp", "", 5, 5⟩] 5 := fun h => by
    simpa using h _ rfl
  have hcheck := (hs.db twoLeaves_chain).check_eq twoLeaves_chain hahead 7
    (twoLeaves.rootOf (twoLeaves.countAt 5))
  have hmember : (7 : Fr) ∈ AspMembership.insertedLeaves twoLeaves.levels (twoLeaves.callsAt 5) := by
    decide +kernel
  exact (hall twoLeaves_chain hs twoLeaves_truthful hreach (twoLeaves.getRoot_at hreach) 7).register hcheck
    hmember

section Skew

variable {xdr : Xdr} {asp : String} {history : MembershipHistory} {chain : List ContractEvent}
  {s : Storage} {currentRoot : Fr} {ledger : UInt32}

/-- **Read skew.** For every database that holds all events of the contract up to a ledger
`later` and has processed them, and the contract's root at an earlier ledger: the check
answers every leaf, and refuses no root of the contract at that ledger, if and only if the
metadata is missing or behind that ledger or the root has stayed the same up to `later`. -/
theorem skew_tolerated_iff (hchain : MembershipChain xdr asp history chain) {later : UInt32}
    (hle : ledger ≤ later)
    (hs : MembershipRun xdr asp chain (history.countAt later) (history.countAt later) s)
    (metadata : List SyncMetadata) {admin : AspMembership.Address} {contract : MembershipStorage}
    (hreach : Reaches admin history.levels (history.callsAt ledger) contract)
    (hroot : getRoot.run contract = .ok currentRoot.toU256 contract) :
    (∀ userLeaf, ∃ answer,
        checkAspMembershipPrecondition s metadata asp userLeaf currentRoot ledger = .ok answer) ∧
      (∀ userLeaf root e,
        checkAspMembershipPrecondition s metadata asp userLeaf root ledger = .error e →
          getRoot.run contract ≠ .ok root.toU256 contract) ↔
      MetadataBehind asp metadata ledger ∨ history.rootOf (history.countAt later) = currentRoot := by
  have hdb := hs.db hchain
  have hcurrent : currentRoot = history.rootOf (history.countAt ledger) := by
    rw [history.getRoot_at hreach] at hroot
    exact (Fr.toU256_inj.mp (EStateM.Result.ok.inj hroot).1).symm
  have hmono := history.countAt_mono hle
  -- an answer for the current root is all that is asked
  have hanswer : (∀ userLeaf, ∃ answer,
      checkAspMembershipPrecondition s metadata asp userLeaf currentRoot ledger = .ok answer) →
      ∀ userLeaf root e,
        checkAspMembershipPrecondition s metadata asp userLeaf root ledger = .error e →
          getRoot.run contract ≠ .ok root.toU256 contract := by
    intro hall userLeaf root e herror hsame
    rw [hroot] at hsame
    obtain rfl : currentRoot = root := Fr.toU256_inj.mp (EStateM.Result.ok.inj hsame).1
    obtain ⟨answer, hok⟩ := hall userLeaf
    rw [herror] at hok
    cases hok
  refine ⟨fun ⟨hall, _⟩ => ?_, fun h => ?_⟩
  · by_contra hneither
    obtain ⟨hahead, hother⟩ := not_or.mp hneither
    obtain ⟨answer, hok⟩ := hall 0
    rw [hdb.check_eq hchain hahead] at hok
    cases hlast : (history.insertions.take (history.countAt later)).getLast? with
    | none =>
        -- no leaf at all: both roots are the empty one
        have hnil : history.countAt later = 0 := by
          have hlength := congrArg List.length (List.getLast?_eq_none_iff.mp hlast)
          rw [List.length_take, Nat.min_eq_left (history.countAt_le later)] at hlength
          exact hlength
        exact hother (by rw [hcurrent, show history.countAt ledger = 0 by omega, hnil])
    | some last =>
        rw [hlast] at hok
        dsimp only at hok
        rw [if_pos (Ne.symm hother)] at hok
        split_ifs at hok with hlt
        have hcount := history.le_countAt (history.countAt_le later) hlast (UInt32.le_of_lt hlt)
        exact hother (by rw [hcurrent, le_antisymm hmono hcount])
  · have hall : ∀ userLeaf, ∃ answer,
        checkAspMembershipPrecondition s metadata asp userLeaf currentRoot ledger = .ok answer := by
      intro userLeaf
      by_cases hbehind : MetadataBehind asp metadata ledger
      · obtain ⟨gap, hgap⟩ := check_behind s hbehind userLeaf currentRoot
        exact ⟨_, hgap⟩
      · rw [hdb.check_eq hchain hbehind]
        cases (history.insertions.take (history.countAt later)).getLast? with
        | none => exact ⟨_, rfl⟩
        | some last =>
            dsimp only
            rw [if_neg (not_not_intro (h.resolve_left hbehind).symm)]
            cases (s.aspLeaves asp).find? fun l => l.leaf = userLeaf with
            | none => exact ⟨_, rfl⟩
            | some l => exact ⟨_, rfl⟩
    exact ⟨hall, hanswer hall⟩

end Skew

theorem skew_tolerated_iff_same :
    ∃ s, MembershipRun twoLeavesXdr "asp" twoLeavesChain (twoLeaves.countAt 5)
        (twoLeaves.countAt 5) s ∧
      ∀ userLeaf, ∃ answer, checkAspMembershipPrecondition s [⟨"asp", "", 5, 5⟩] "asp" userLeaf
        (twoLeaves.rootOf (twoLeaves.countAt 5)) 5 = .ok answer := by
  obtain ⟨s, hs⟩ := twoLeaves_chain.exists_run (le_refl (twoLeaves.countAt 5)) (by decide)
  obtain ⟨contract, hreach⟩ := twoLeaves_first
  exact ⟨s, hs, ((skew_tolerated_iff twoLeaves_chain (by decide) hs [⟨"asp", "", 5, 5⟩] hreach
    (twoLeaves.getRoot_at hreach)).mpr (.inr rfl)).1⟩

/-- The contract is read at ledger 5 and the events go up to ledger 6, where the second leaf
is: the root of ledger 5 is refused. -/
theorem skew_reported :
    ¬ ∀ {xdr : Xdr} {asp : String} {history : MembershipHistory} {chain : List ContractEvent}
      {ledger later : UInt32} {s : Storage} {metadata : List SyncMetadata}
      {admin : AspMembership.Address} {contract : MembershipStorage} {currentRoot : Fr},
      MembershipChain xdr asp history chain → ledger ≤ later →
      MembershipRun xdr asp chain (history.countAt later) (history.countAt later) s →
      Truthful asp history (history.countAt later) metadata →
      Reaches admin history.levels (history.callsAt ledger) contract →
      getRoot.run contract = .ok currentRoot.toU256 contract → ∀ userLeaf, ∃ answer,
        checkAspMembershipPrecondition s metadata asp userLeaf currentRoot ledger = .ok answer := by
  intro hall
  obtain ⟨s, hs⟩ := twoLeaves_chain.exists_run (le_refl (twoLeaves.countAt 6)) (by decide)
  obtain ⟨contract, hreach⟩ := twoLeaves_first
  have htruth : Truthful "asp" twoLeaves (twoLeaves.countAt 6) [⟨"asp", "", 6, 6⟩] := by
    intro m _ _ i hi
    have hnone : i ∈ ([] : List (UInt32 × Fr)) := hi
    cases hnone
  have hahead : ¬ MetadataBehind "asp" [⟨"asp", "", 6, 6⟩] 5 := fun h => by
    simpa using h _ rfl
  obtain ⟨answer, hok⟩ := hall twoLeaves_chain (by decide) hs htruth hreach
    (twoLeaves.getRoot_at hreach) 7
  have hroots : twoLeaves.rootOf (twoLeaves.countAt 5) ≠ twoLeaves.rootOf (twoLeaves.countAt 6) := by
    decide +kernel
  have hlast : (twoLeaves.insertions.take (twoLeaves.countAt 6)).getLast? = some (6, 8) := by
    decide
  rw [(hs.db twoLeaves_chain).check_eq twoLeaves_chain hahead, hlast] at hok
  dsimp only at hok
  rw [if_pos hroots, if_neg (by decide)] at hok
  cases hok

end PrivatePayments.State
