import PrivatePayments.State.Processor

/-!
# PrivatePayments.State.Drain

Repeated calls of `process_events`.

Whether an event counts as processed is read off the derived tables: some row must carry its
id. A row is dropped when its commitment, nullifier or leaf index is taken, and an event that
does not parse, or that no table is for, never gets a row; the next call fetches it again.
So the calls reach one that returns `false` exactly when every received event parses to one
of the four stored kinds and no commitment, nullifier or leaf index occurs in two of them
(`drains_iff`). The measure is the number of raw events without a row.
-/

namespace PrivatePayments.State

/-! ## The fetch -/

/-- The raw events without a row in a derived table. -/
def Storage.unprocessedEvents (s : Storage) : List ContractEvent :=
  s.storedEvents.filter fun e => s.Unprocessed e.id

theorem Storage.unprocessed_iff (s : Storage) (id : String) : s.Unprocessed id ↔
    id ∉ commitmentKind.ids s ∧ id ∉ publicKeyKind.ids s ∧ id ∉ nullifierKind.ids s ∧
      id ∉ leafKind.ids s := Iff.rfl

theorem Storage.Linked.contractEvent? {s : Storage} (hs : s.Linked) {r : RawContractEvent}
    (hr : r ∈ Table.columns s.rawContractEvents) : s.contractEvent? r = some (s.readEvent r) := by
  obtain ⟨a, ha⟩ := hs.addresses r hr
  simp [Storage.contractEvent?, Storage.readEvent, ha]

/-- The fetch sorts the unprocessed events and takes the first of them. -/
theorem Storage.Linked.getUnprocessedEvents_eq {s : Storage} (hs : s.Linked) (limit : UInt32) :
    getUnprocessedEvents s limit =
      (Table.orderBy (fun e => toLex (e.ledger.toNat, e.id)) s.unprocessedEvents).take
        limit.toNat := by
  have hselected : ((Table.columns s.rawContractEvents).filter
      fun r => s.Unprocessed r.id).filterMap s.contractEvent? = s.unprocessedEvents := by
    rw [Storage.unprocessedEvents, Storage.storedEvents, List.filter_map, ← List.filterMap_eq_map]
    refine List.filterMap_congr fun r hr => ?_
    exact hs.contractEvent? (List.mem_filter.mp hr).1
  unfold getUnprocessedEvents
  simp only [hselected]

section Fetch

variable {s : Storage} {limit : UInt32}

theorem Storage.Linked.fetched_subset (hs : s.Linked) :
    getUnprocessedEvents s limit ⊆ s.unprocessedEvents := by
  rw [hs.getUnprocessedEvents_eq]
  exact List.Subset.trans (List.take_subset _ _) Table.orderBy_perm.subset

theorem Storage.Linked.fetched_eq_nil (hs : s.Linked) (hlimit : 0 < limit) :
    getUnprocessedEvents s limit = [] ↔ s.unprocessedEvents = [] := by
  have hpos : limit.toNat ≠ 0 := by
    have := UInt32.lt_iff_toNat_lt.mp hlimit
    simp only [UInt32.toNat_zero] at this
    omega
  rw [hs.getUnprocessedEvents_eq, List.take_eq_nil_iff, or_iff_right hpos]
  exact ⟨fun h => List.Perm.nil_eq (h ▸ Table.orderBy_perm) |>.symm, fun h => by rw [h]; rfl⟩

theorem Storage.unprocessed_of_mem (s : Storage) :
    ∀ e ∈ s.unprocessedEvents, s.Unprocessed e.id := fun _ he => by
  simpa using (List.mem_filter.mp he).2

theorem Storage.Linked.nodup_ids (hs : s.Linked) : (s.storedEvents.map ContractEvent.id).Nodup :=
  s.storedEvents_ids ▸ hs.ids

theorem Storage.Linked.nodup_fetched (hs : s.Linked) :
    ((getUnprocessedEvents s limit).map ContractEvent.id).Nodup := by
  have hunprocessed : (s.unprocessedEvents.map ContractEvent.id).Nodup :=
    hs.nodup_ids.sublist (List.filter_sublist.map _)
  rw [hs.getUnprocessedEvents_eq]
  refine List.Nodup.sublist ((List.take_sublist _ _).map _) ?_
  exact (Table.orderBy_perm.map _).nodup_iff.mpr hunprocessed

/-- Two raw events with one id are one. -/
theorem Storage.Linked.eq_of_id (hs : s.Linked) {e e' : ContractEvent} (he : e ∈ s.storedEvents)
    (he' : e' ∈ s.storedEvents) (hid : e.id = e'.id) : e = e' :=
  List.inj_on_of_nodup_map hs.nodup_ids he he' hid

end Fetch

/-! ## The invariant -/

namespace EventKind

variable {ε κ : Type} {K : EventKind ε κ} {xdr : Xdr} {s s' : Storage} {row : ε}
  {limit : UInt32}

/-- A derived table is valid, and each of its rows was parsed from a raw event. -/
structure Tracks (K : EventKind ε κ) (xdr : Xdr) (s : Storage) : Prop where
  valid : K.toEventTable.Valid s
  sources : ∀ row ∈ Table.columns (K.rows s), ∃ e ∈ s.storedEvents, K.parse xdr e = some row

/-- More raw events. -/
theorem Tracks.addEvents (h : K.Tracks xdr s) (hs : s.Linked) (events : List ContractEvent) :
    K.Tracks xdr (s.addEvents events) := by
  have hrows := K.rows_addEvents s events
  have hmono : s.storedEvents ⊆ (s.addEvents events).storedEvents := by
    rw [hs.storedEvents_addEvents]
    exact Table.prefix_addAllNew.subset
  refine ⟨h.valid.congr hrows fun id hid => ?_, ?_⟩
  · rw [← Storage.storedEvents_ids] at hid ⊢
    exact List.map_subset _ hmono hid
  · rw [hrows]
    intro row hrow
    obtain ⟨e, he, hparse⟩ := h.sources row hrow
    exact ⟨e, hmono he, hparse⟩

/-- The events of a fetch that are of this kind have fresh ids. -/
theorem fresh_batch (K : EventKind ε κ) (hs : s.Linked) (h : K.Tracks xdr s) (limit : UInt32)
    (hids : ∀ e ∈ s.unprocessedEvents, e.id ∉ K.ids s) :
    ((Table.columns (K.rows s) ++ K.batch (parseUnprocessed xdr (getUnprocessedEvents s limit))
      ).map K.eventId).Nodup := by
  have hsub : ((((getUnprocessedEvents s limit).reverse).filterMap (K.parse xdr)).map
      K.eventId).Sublist _ := K.ids_sublist xdr _
  rw [K.batch_parseUnprocessed, List.map_append, List.nodup_append]
  refine ⟨h.valid.ids, List.Nodup.sublist hsub ?_, ?_⟩
  · rw [List.map_reverse, List.nodup_reverse]
    exact hs.nodup_fetched
  · intro a ha b hb hab
    obtain ⟨e, he, rfl⟩ := List.mem_map.mp (hsub.subset hb)
    exact hids e (hs.fetched_subset (List.mem_reverse.mp he)) (hab ▸ ha)

/-- The rows of a fetch refer to raw events. -/
theorem batch_source (hs : s.Linked)
    (hrow : row ∈ K.batch (parseUnprocessed xdr (getUnprocessedEvents s limit))) :
    ∃ e ∈ s.storedEvents, K.parse xdr e = some row := by
  rw [K.batch_parseUnprocessed] at hrow
  obtain ⟨e, he, hparse⟩ := List.mem_filterMap.mp hrow
  have hfetched := hs.fetched_subset (List.mem_reverse.mp he)
  exact ⟨e, (List.mem_filter.mp hfetched).1, hparse⟩

theorem batch_raw (hs : s.Linked)
    (hrow : row ∈ K.batch (parseUnprocessed xdr (getUnprocessedEvents s limit))) :
    K.eventId row ∈ s.rawIds := by
  obtain ⟨e, he, hparse⟩ := batch_source hs hrow
  rw [eventId_of_parse hparse, ← s.storedEvents_ids]
  exact List.mem_map_of_mem he

/-- A call keeps the table tracking the raw events. -/
theorem Tracks.record [DecidableEq κ] (h : K.Tracks xdr s) (hs : s.Linked)
    (hrows : K.rows s' = Table.insertAllNew K.key (K.rows s)
      (K.batch (parseUnprocessed xdr (getUnprocessedEvents s limit))))
    (hraw : s'.rawContractEvents = s.rawContractEvents) (hcontracts : s'.contracts = s.contracts)
    (hids : ∀ e ∈ s.unprocessedEvents, e.id ∉ K.ids s) : K.Tracks xdr s' := by
  have hrawIds : s'.rawIds = s.rawIds := by rw [Storage.rawIds, hraw, Storage.rawIds]
  have hstored : s'.storedEvents = s.storedEvents := by
    unfold Storage.storedEvents Storage.readEvent Storage.contractAddress?
    rw [hraw, hcontracts]
  refine ⟨h.valid.insertAll hrows hrawIds (fun _ he => batch_raw hs he)
    (fresh_batch K hs h limit hids), ?_⟩
  intro row hrow
  rw [hrows, Table.columns_insertAllNew] at hrow
  rw [hstored]
  rcases Table.mem_or_mem_of_mem_addAllNew hrow with hrow | hrow
  · exact h.sources row hrow
  · exact batch_source hs hrow

end EventKind

/-- The state of the pipeline: every table tracks the raw events. -/
structure Pipeline (xdr : Xdr) (s : Storage) : Prop where
  linked : s.Linked
  nullifiers : nullifierKind.Tracks xdr s
  commitments : commitmentKind.Tracks xdr s
  publicKeys : publicKeyKind.Tracks xdr s
  leaves : leafKind.Tracks xdr s

section Pipeline

variable {xdr : Xdr} {s s' : Storage} {limit : UInt32}

/-- Nothing is stored yet. -/
theorem Pipeline.empty (xdr : Xdr) : Pipeline xdr Storage.empty := by
  have hvalid {ε κ : Type} (T : EventTable ε κ) [DecidableEq κ] (h : T.rows Storage.empty = []) :
      T.Valid Storage.empty := by
    refine ⟨?_, ?_, ?_, ?_⟩ <;> rw [h]
    · exact Table.ordered_nil
    · exact List.nodup_nil
    · exact List.nodup_nil
    · exact fun row hrow => by cases hrow
  exact ⟨Storage.linked_empty, ⟨hvalid _ rfl, fun _ h => by cases h⟩,
    ⟨hvalid _ rfl, fun _ h => by cases h⟩, ⟨hvalid _ rfl, fun _ h => by cases h⟩,
    ⟨hvalid _ rfl, fun _ h => by cases h⟩⟩

theorem Pipeline.addEvents (h : Pipeline xdr s) (events : List ContractEvent) :
    Pipeline xdr (s.addEvents events) :=
  ⟨h.linked.addEvents events, h.nullifiers.addEvents h.linked events,
    h.commitments.addEvents h.linked events, h.publicKeys.addEvents h.linked events,
    h.leaves.addEvents h.linked events⟩

/-- The tables after a parsed batch was saved. -/
def Storage.record (s : Storage) (batch : ParsedBatch) : Storage :=
  { s with
    poolNullifiers :=
      Table.insertAllNew NewNullifierEvent.nullifier s.poolNullifiers batch.nullifiers
    poolCommitments :=
      Table.insertAllNew NewCommitmentEvent.commitment s.poolCommitments batch.commitments
    publicKeys := Table.insertAllNew PublicKeyEvent.id s.publicKeys batch.pubkeys
    aspMembershipLeaves :=
      Table.insertAllNew LeafAddedEvent.index s.aspMembershipLeaves batch.leaves }

/-- A call that has something to do never fails. -/
theorem Pipeline.processEvents_run (h : Pipeline xdr s)
    (hne : getUnprocessedEvents s limit ≠ []) :
    (processEvents xdr limit).run s =
      .ok true (s.record (parseUnprocessed xdr (getUnprocessedEvents s limit))) := by
  have hids := s.unprocessed_of_mem
  let batch := parseUnprocessed xdr (getUnprocessedEvents s limit)
  have hrawN : ∀ e ∈ batch.nullifiers, e.id ∈ s.rawIds := fun _ he =>
    nullifierKind.batch_raw h.linked he
  have hrawC : ∀ e ∈ batch.commitments, e.id ∈ s.rawIds := fun _ he =>
    commitmentKind.batch_raw h.linked he
  have hrawP : ∀ e ∈ batch.pubkeys, e.id ∈ s.rawIds := fun _ he =>
    publicKeyKind.batch_raw h.linked he
  have hrawL : ∀ e ∈ batch.leaves, e.id ∈ s.rawIds := fun _ he =>
    leafKind.batch_raw h.linked he
  have hfreshN := nullifierKind.fresh_batch h.linked h.nullifiers limit fun e he =>
    (hids e he).2.2.1
  have hfreshC := commitmentKind.fresh_batch h.linked h.commitments limit fun e he =>
    (hids e he).1
  have hfreshP := publicKeyKind.fresh_batch h.linked h.publicKeys limit fun e he =>
    (hids e he).2.1
  have hfreshL := leafKind.fresh_batch h.linked h.leaves limit fun e he =>
    (hids e he).2.2.2
  have hnonempty : (getUnprocessedEvents s limit).isEmpty = false := by simpa using hne
  unfold processEvents
  rw [EStateM.run_bind, EStateM.run_get]
  simp only [hnonempty, Bool.false_eq_true, if_false]
  -- the four tables are different, so each batch finds its own table as it was
  let s₁ := poolNullifiersTable.put
    (Table.insertAllNew NewNullifierEvent.nullifier s.poolNullifiers batch.nullifiers) s
  let s₂ := poolCommitmentsTable.put
    (Table.insertAllNew NewCommitmentEvent.commitment s.poolCommitments batch.commitments) s₁
  let s₃ := publicKeysTable.put
    (Table.insertAllNew PublicKeyEvent.id s.publicKeys batch.pubkeys) s₂
  have hn : (saveNullifierEventsBatch batch.nullifiers).run s = .ok () s₁ :=
    poolNullifiersTable.saveBatch_run s hrawN hfreshN
  have hc : (saveCommitmentEventsBatch batch.commitments).run s₁ = .ok () s₂ :=
    poolCommitmentsTable.saveBatch_run s₁ hrawC hfreshC
  have hp : (savePublicKeyEventsBatch batch.pubkeys).run s₂ = .ok () s₃ :=
    publicKeysTable.saveBatch_run s₂ hrawP hfreshP
  have hl : (saveLeafAddedEventsBatch batch.leaves).run s₃ = .ok () (s.record batch) :=
    aspMembershipLeavesTable.saveBatch_run s₃ hrawL hfreshL
  rw [Db.run_bind_of_ok hn, Db.run_bind_of_ok hc, Db.run_bind_of_ok hp, Db.run_bind_of_ok hl]
  rfl

/-- A call with nothing to do. -/
theorem processEvents_run_nil (hnil : getUnprocessedEvents s limit = []) :
    (processEvents xdr limit).run s = .ok false s := by
  unfold processEvents
  rw [EStateM.run_bind, EStateM.run_get]
  simp [hnil]

/-- What a call leaves. -/
theorem Pipeline.record (h : Pipeline xdr s) (limit : UInt32) :
    Pipeline xdr (s.record (parseUnprocessed xdr (getUnprocessedEvents s limit))) := by
  have hids := s.unprocessed_of_mem
  exact ⟨⟨h.linked.contracts, h.linked.ids, h.linked.addresses⟩,
    h.nullifiers.record h.linked rfl rfl rfl fun e he => (hids e he).2.2.1,
    h.commitments.record h.linked rfl rfl rfl fun e he => (hids e he).1,
    h.publicKeys.record h.linked rfl rfl rfl fun e he => (hids e he).2.1,
    h.leaves.record h.linked rfl rfl rfl fun e he => (hids e he).2.2.2⟩

/-! ## The condition -/

/-- No two raw events parse to rows of this kind with one key. -/
def EventKind.Distinct {ε κ : Type} (K : EventKind ε κ) (xdr : Xdr)
    (events : List ContractEvent) : Prop :=
  ((events.filterMap (K.parse xdr)).map K.key).Nodup

instance {ε κ : Type} [DecidableEq κ] (K : EventKind ε κ) (xdr : Xdr)
    (events : List ContractEvent) : Decidable (K.Distinct xdr events) :=
  inferInstanceAs (Decidable (List.Nodup _))

/-- Every event parses to one of the four stored kinds, and no commitment value, nullifier
or leaf index occurs twice. -/
structure Processable (xdr : Xdr) (events : List ContractEvent) : Prop where
  stored : ∀ e ∈ events, ∃ p, parseEvent xdr e = .ok p ∧ p.Stored
  nullifiers : nullifierKind.Distinct xdr events
  commitments : commitmentKind.Distinct xdr events
  leaves : leafKind.Distinct xdr events

/-- Every event is in the table of its kind. -/
def AllRecorded (xdr : Xdr) (s : Storage) : Prop :=
  ∀ e ∈ s.storedEvents, ∃ p, parseEvent xdr e = .ok p ∧ Recorded s p

section Condition

variable {ε κ : Type} {K : EventKind ε κ}

/-- An id in a table is the id of an event that was parsed and recorded. -/
theorem EventKind.Tracks.recorded (h : K.Tracks xdr s) (hs : s.Linked) {e : ContractEvent}
    (he : e ∈ s.storedEvents) (hid : e.id ∈ K.ids s) :
    ∃ p, parseEvent xdr e = .ok p ∧ Recorded s p := by
  obtain ⟨row, hrow, hrowid⟩ := List.mem_map.mp hid
  obtain ⟨e', he', hparse⟩ := h.sources row hrow
  obtain rfl : e' = e := hs.eq_of_id he' he ((eventId_of_parse hparse).symm.trans hrowid)
  obtain ⟨p, hp, hselect⟩ := EventKind.parse_eq_some.mp hparse
  exact ⟨p, hp, (K.recorded_iff s p row hselect).mpr hrow⟩

/-- If all events are recorded then no key of a kind occurs twice. -/
theorem EventKind.Tracks.distinct (h : K.Tracks xdr s) (hs : s.Linked)
    (hall : AllRecorded xdr s) : K.Distinct xdr s.storedEvents := by
  have hrows : (s.storedEvents.filterMap (K.parse xdr)).Nodup :=
    List.Nodup.of_map K.eventId (hs.nodup_ids.sublist (K.ids_sublist xdr _))
  refine List.Nodup.map_on ?_ hrows
  have hmem : ∀ row ∈ s.storedEvents.filterMap (K.parse xdr), row ∈ Table.columns (K.rows s) := by
    intro row hrow
    obtain ⟨e, he, hparse⟩ := List.mem_filterMap.mp hrow
    obtain ⟨p, hp, hselect⟩ := EventKind.parse_eq_some.mp hparse
    obtain ⟨p', hp', hrecorded⟩ := hall e he
    obtain rfl : p = p' := by rw [hp] at hp'; injection hp'
    exact (K.recorded_iff s p row hselect).mp hrecorded
  intro row hrow row' hrow' hkey
  exact List.inj_on_of_nodup_map h.valid.keys (hmem row hrow) (hmem row' hrow') hkey

/-- With distinct keys a row whose key was offered is there itself. -/
theorem EventKind.Tracks.mem_of_key (h : K.Tracks xdr s)
    (hdistinct : K.Distinct xdr s.storedEvents) {e : ContractEvent} {row : ε}
    (he : e ∈ s.storedEvents) (hparse : K.parse xdr e = some row)
    (hkey : K.key row ∈ (Table.columns (K.rows s)).map K.key) : row ∈ Table.columns (K.rows s) := by
  obtain ⟨row', hrow', heq⟩ := List.mem_map.mp hkey
  obtain ⟨e', he', hparse'⟩ := h.sources row' hrow'
  have hsame : row' = row := List.inj_on_of_nodup_map hdistinct
    (List.mem_filterMap.mpr ⟨e', he', hparse'⟩) (List.mem_filterMap.mpr ⟨e, he, hparse⟩) heq
  exact hsame ▸ hrow'

/-- A processed id stays processed. -/
theorem EventKind.ids_record {batch : List ε} {id : String} [DecidableEq κ] (K : EventKind ε κ)
    (s' : Storage) (hid : id ∈ K.ids s) (hrows : K.rows s' = Table.insertAllNew K.key (K.rows s) batch) :
    id ∈ K.ids s' := by
  unfold EventKind.ids at hid ⊢
  rw [hrows, Table.columns_insertAllNew]
  exact List.map_subset _ Table.prefix_addAllNew.subset hid

/-- A fetched event of a kind with distinct keys is recorded. -/
theorem EventKind.Tracks.id_mem [DecidableEq κ] (h : K.Tracks xdr s')
    (hdistinct : K.Distinct xdr s'.storedEvents) {e : ContractEvent} {p : ProcessedEvent}
    {ev : ε} (he : e ∈ getUnprocessedEvents s limit) (hparse : parseEvent xdr e = .ok p)
    (hselect : K.select p = some ev) (hs : s.Linked)
    (hrows : K.rows s' = Table.insertAllNew K.key (K.rows s)
      (K.batch (parseUnprocessed xdr (getUnprocessedEvents s limit))))
    (hstored : s'.storedEvents = s.storedEvents) : e.id ∈ K.ids s' := by
  have hrow : K.parse xdr e = some ev := EventKind.parse_eq_some.mpr ⟨p, hparse, hselect⟩
  have hmem : e ∈ s'.storedEvents :=
    hstored ▸ (List.mem_filter.mp (hs.fetched_subset he)).1
  have hbatch : ev ∈ K.batch (parseUnprocessed xdr (getUnprocessedEvents s limit)) := by
    rw [K.batch_parseUnprocessed]
    exact List.mem_filterMap.mpr ⟨e, List.mem_reverse.mpr he, hrow⟩
  have hkey : K.key ev ∈ (Table.columns (K.rows s')).map K.key := by
    rw [hrows, Table.columns_insertAllNew]
    exact Table.key_mem_addAllNew hbatch
  rw [← EventKind.eventId_of_parse hrow]
  exact List.mem_map_of_mem (h.mem_of_key hdistinct hmem hrow hkey)

end Condition

/-- Public keys are keyed by the event id, so their keys are always distinct. -/
theorem publicKeyKind_distinct (hs : s.Linked) : publicKeyKind.Distinct xdr s.storedEvents :=
  hs.nodup_ids.sublist (publicKeyKind.ids_sublist xdr _)

/-- When nothing is left to fetch, all is recorded. -/
theorem Pipeline.allRecorded (h : Pipeline xdr s) (hnil : s.unprocessedEvents = []) :
    AllRecorded xdr s := by
  intro e he
  have hprocessed : ¬ s.Unprocessed e.id := by
    intro hun
    have hmem : e ∈ s.unprocessedEvents := List.mem_filter.mpr ⟨he, by simpa using hun⟩
    rw [hnil] at hmem
    cases hmem
  rw [s.unprocessed_iff] at hprocessed
  by_contra hnot
  refine hprocessed ⟨?_, ?_, ?_, ?_⟩
  · exact fun hid => hnot (h.commitments.recorded h.linked he hid)
  · exact fun hid => hnot (h.publicKeys.recorded h.linked he hid)
  · exact fun hid => hnot (h.nullifiers.recorded h.linked he hid)
  · exact fun hid => hnot (h.leaves.recorded h.linked he hid)

/-- If all is recorded then the events are processable. -/
theorem Pipeline.processable (h : Pipeline xdr s) (hall : AllRecorded xdr s) :
    Processable xdr s.storedEvents := by
  refine ⟨fun e he => ?_, h.nullifiers.distinct h.linked hall,
    h.commitments.distinct h.linked hall, h.leaves.distinct h.linked hall⟩
  obtain ⟨p, hp, hrecorded⟩ := hall e he
  exact ⟨p, hp, hrecorded.stored⟩

/-- On processable events a call takes at least one event off the unprocessed ones. -/
theorem Pipeline.decreases (h : Pipeline xdr s) (hp : Processable xdr s.storedEvents)
    (hne : getUnprocessedEvents s limit ≠ []) :
    (s.record (parseUnprocessed xdr (getUnprocessedEvents s limit))).unprocessedEvents.length <
      s.unprocessedEvents.length := by
  set s' := s.record (parseUnprocessed xdr (getUnprocessedEvents s limit)) with hs'
  have h' : Pipeline xdr s' := h.record limit
  have hstored : s'.storedEvents = s.storedEvents := rfl
  -- a processed event stays processed
  have hsub : s'.unprocessedEvents.Sublist s.unprocessedEvents := by
    refine List.monotone_filter_right s.storedEvents fun e he => ?_
    have hun : s'.Unprocessed e.id := by simpa using he
    refine decide_eq_true ⟨?_, ?_, ?_, ?_⟩
    · exact fun hid => hun.1 (commitmentKind.ids_record s' hid rfl)
    · exact fun hid => hun.2.1 (publicKeyKind.ids_record s' hid rfl)
    · exact fun hid => hun.2.2.1 (nullifierKind.ids_record s' hid rfl)
    · exact fun hid => hun.2.2.2 (leafKind.ids_record s' hid rfl)
  obtain ⟨e, he⟩ := List.exists_mem_of_ne_nil _ hne
  have hmem : e ∈ s.unprocessedEvents := h.linked.fetched_subset he
  have hnot : e ∉ s'.unprocessedEvents := by
    intro he'
    have hun := s'.unprocessed_of_mem e he'
    obtain ⟨p, hparse, hstoredKind⟩ := hp.stored e (List.mem_filter.mp hmem).1
    rcases hstoredKind.kind with ⟨ev, hev⟩ | ⟨ev, hev⟩ | ⟨ev, hev⟩ | ⟨ev, hev⟩
    · exact hun.2.2.1 (h'.nullifiers.id_mem (hstored ▸ hp.nullifiers) he hparse hev h.linked rfl rfl)
    · exact hun.1 (h'.commitments.id_mem (hstored ▸ hp.commitments) he hparse hev h.linked rfl rfl)
    · exact hun.2.1 (h'.publicKeys.id_mem (publicKeyKind_distinct h'.linked) he hparse hev
        h.linked rfl rfl)
    · exact hun.2.2.2 (h'.leaves.id_mem (hstored ▸ hp.leaves) he hparse hev h.linked rfl rfl)
  refine lt_of_le_of_ne hsub.length_le fun hlen => hnot ?_
  rw [hsub.eq_of_length hlen]
  exact hmem

/-! ## Repeated calls -/

/-- Repeated calls reach one that returns `false`, and it leaves `s'`. -/
inductive Drains (xdr : Xdr) (limit : UInt32) : Storage → Storage → Prop
  | done {s s' : Storage} (h : (processEvents xdr limit).run s = .ok false s') :
      Drains xdr limit s s'
  | step {s s₁ s' : Storage} (h : (processEvents xdr limit).run s = .ok true s₁)
      (rest : Drains xdr limit s₁ s') : Drains xdr limit s s'

/-- Processable events are drained. -/
theorem Pipeline.drains (h : Pipeline xdr s) (hlimit : 0 < limit)
    (hp : Processable xdr s.storedEvents) :
    ∃ s', Drains xdr limit s s' ∧ Pipeline xdr s' ∧ s'.storedEvents = s.storedEvents ∧
      s'.unprocessedEvents = [] := by
  induction hn : s.unprocessedEvents.length using Nat.strong_induction_on generalizing s with
  | _ n ih =>
      by_cases hnil : getUnprocessedEvents s limit = []
      · exact ⟨s, .done (processEvents_run_nil hnil), h, rfl,
          (h.linked.fetched_eq_nil hlimit).mp hnil⟩
      · obtain ⟨s', hdrains, h', hstored, hempty⟩ :=
          ih _ (hn ▸ h.decreases hp hnil) (h.record limit) hp rfl
        exact ⟨s', .step (h.processEvents_run hnil) hdrains, h', hstored, hempty⟩

/-- A drained storage has recorded every event. -/
theorem Drains.allRecorded (hdrains : Drains xdr limit s s') (h : Pipeline xdr s)
    (hlimit : 0 < limit) : AllRecorded xdr s' ∧ s'.storedEvents = s.storedEvents ∧
      Pipeline xdr s' := by
  induction hdrains with
  | @done s s' hrun =>
      by_cases hnil : getUnprocessedEvents s limit = []
      · rw [processEvents_run_nil hnil] at hrun
        cases hrun
        exact ⟨h.allRecorded ((h.linked.fetched_eq_nil hlimit).mp hnil), rfl, h⟩
      · rw [h.processEvents_run hnil] at hrun
        cases hrun
  | @step s s₁ s' hrun _ ih =>
      by_cases hnil : getUnprocessedEvents s limit = []
      · rw [processEvents_run_nil hnil] at hrun
        cases hrun
      · rw [h.processEvents_run hnil] at hrun
        cases hrun
        exact ih (h.record limit)

end Pipeline

/-! ## Histories -/

/-- What happens to the storage: the indexer saves a batch of raw events, or the processor
makes a call. -/
inductive StorageOp
  | save (events : List ContractEvent)
  | process (limit : UInt32)

namespace StorageOp

/-- The method that is called. -/
def run (xdr : Xdr) : StorageOp → Db Unit
  | save events => saveEventsBatch events
  | process limit => do
      let _ ← processEvents xdr limit
      pure ()

/-- The raw events of the batch. -/
def saved : StorageOp → List ContractEvent
  | save events => events
  | process _ => []

end StorageOp

/-- The calls, one after the other. -/
def runStorage (xdr : Xdr) (ops : List StorageOp) : Db Unit := forM ops (StorageOp.run xdr)

/-- The raw events that were received: of the events with one id, the first. -/
def received (ops : List StorageOp) : List ContractEvent :=
  Table.addAllNew ContractEvent.id []
    ((ops.flatMap StorageOp.saved).map ContractEvent.asRead)

theorem Pipeline.op_run {xdr : Xdr} {s : Storage} (h : Pipeline xdr s) (op : StorageOp) :
    ∃ s', (op.run xdr).run s = .ok () s' ∧ Pipeline xdr s' ∧
      s'.storedEvents = Table.addAllNew ContractEvent.id s.storedEvents
        (op.saved.map ContractEvent.asRead) := by
  cases op with
  | save events =>
      exact ⟨s.addEvents events, saveEventsBatch_run events s, h.addEvents events,
        h.linked.storedEvents_addEvents events⟩
  | process limit =>
      have hdiscard {b : Bool} {s' : Storage} (hrun : (processEvents xdr limit).run s = .ok b s') :
          ((StorageOp.process limit).run xdr).run s = .ok () s' := by
        show (processEvents xdr limit >>= fun _ => pure ()).run s = _
        rw [Db.run_bind_of_ok hrun]
        rfl
      by_cases hnil : getUnprocessedEvents s limit = []
      · exact ⟨s, hdiscard (processEvents_run_nil hnil), h, rfl⟩
      · exact ⟨_, hdiscard (h.processEvents_run hnil), h.record limit, rfl⟩

/-- No call fails, and the stored events are the received ones. -/
theorem Pipeline.run {xdr : Xdr} {s : Storage} (h : Pipeline xdr s) (ops : List StorageOp) :
    ∃ s', (runStorage xdr ops).run s = .ok () s' ∧ Pipeline xdr s' ∧
      s'.storedEvents = Table.addAllNew ContractEvent.id s.storedEvents
        ((ops.flatMap StorageOp.saved).map ContractEvent.asRead) := by
  induction ops generalizing s with
  | nil => exact ⟨s, rfl, h, rfl⟩
  | cons op ops ih =>
      obtain ⟨s₁, hrun₁, h₁, hstored₁⟩ := h.op_run op
      obtain ⟨s₂, hrun₂, h₂, hstored₂⟩ := ih h₁
      refine ⟨s₂, ?_, h₂, ?_⟩
      · unfold runStorage
        rw [List.forM_cons, Db.run_bind_of_ok hrun₁]
        exact hrun₂
      · rw [hstored₂, hstored₁, List.flatMap_cons, List.map_append, Table.addAllNew_append]

/-- After any history of saves and calls, repeated calls reach one that returns `false`, with
every parsed event of a stored kind in its table, exactly when every received event parses to
a stored kind and no commitment, nullifier or leaf index occurs in two of them. -/
theorem drains_iff (xdr : Xdr) (ops : List StorageOp) (limit : UInt32) (hlimit : 0 < limit) :
    ∃ s, (runStorage xdr ops).run Storage.empty = .ok () s ∧
      ((∃ s', Drains xdr limit s s' ∧
          ∀ e ∈ received ops, ∀ p, parseEvent xdr e = .ok p → p.Stored → Recorded s' p) ↔
        Processable xdr (received ops)) := by
  obtain ⟨s, hrun, h, hstored⟩ := (Pipeline.empty xdr).run ops
  have hreceived : s.storedEvents = received ops := hstored
  refine ⟨s, hrun, ?_, ?_⟩
  · intro hdrained
    obtain ⟨s', hdrains, -⟩ := hdrained
    obtain ⟨hall, hsame, h'⟩ := hdrains.allRecorded h hlimit
    rw [← hreceived, ← hsame]
    exact h'.processable hall
  · intro hp
    obtain ⟨s', hdrains, h', hsame, hempty⟩ := h.drains hlimit (hreceived ▸ hp)
    refine ⟨s', hdrains, fun e he p hparse _ => ?_⟩
    rw [← hreceived, ← hsame] at he
    obtain ⟨p', hparse', hrecorded⟩ := h'.allRecorded hempty e he
    rw [hparse] at hparse'
    cases hparse'
    exact hrecorded

/-! ## Concrete histories -/

/-- The bytes of an ASCII text. -/
def asciiBytes (text : String) : List UInt8 := text.toList.map fun c => UInt8.ofNat c.toNat

/-- A field element as four limbs. -/
def wireField (x : Fr) : ScVal :=
  .u256 ⟨.ofNat (x.val >>> 192), .ofNat (x.val >>> 128), .ofNat (x.val >>> 64), .ofNat x.val⟩

/-- The base64 XDR of a few values. -/
def wireValues : List (String × ScVal) := [
  ("AAAADwAAABRuZXdfY29tbWl0bWVudF9ldmVudA==", .symbol (asciiBytes "new_commitment_event")),
  ("AAAACwAAAAAAAAAAAAAAAAAAAAAAAAAAAAAAAAAAAAAAAAAF", .u256 ⟨0, 0, 0, 5⟩),
  ("AAAAEQAAAAEAAAACAAAADwAAABBlbmNyeXB0ZWRfb3V0cHV0AAAADQAAAAAAAAAPAAAABWluZGV4AAAAAAAAAwAAAAA=",
    .map (some [(.symbol (asciiBytes "encrypted_output"), .bytes []),
      (.symbol (asciiBytes "index"), .u32 0)])),
  ("AAAAEQAAAAEAAAACAAAADwAAABBlbmNyeXB0ZWRfb3V0cHV0AAAADQAAAAAAAAAPAAAABWluZGV4AAAAAAAAAwAAAAE=",
    .map (some [(.symbol (asciiBytes "encrypted_output"), .bytes []),
      (.symbol (asciiBytes "index"), .u32 1)]))]

/-- The decoder on these values; symbols are ASCII. -/
def wireXdr : Xdr where
  fromXdrBase64 text := okOrElse (wireValues.lookup text) "xdr value invalid"
  toUtf8String content := .ok (String.ofList (content.map fun b => Char.ofNat b.toNat))
  publicKeyString _ := ""
  contractString _ := ""

/-- The event of commitment 5 at index 0 or 1, as it comes from RPC. -/
def commitmentWire (id : String) (value : String) : ContractEvent :=
  { id, ledger := 7, contractId := "A",
    topics := ["AAAADwAAABRuZXdfY29tbWl0bWVudF9ldmVudA==",
      "AAAACwAAAAAAAAAAAAAAAAAAAAAAAAAAAAAAAAAAAAAAAAAF"],
    value }

/-- One commitment. -/
def oneOutput : List ContractEvent :=
  [commitmentWire "7-0" "AAAAEQAAAAEAAAACAAAADwAAABBlbmNyeXB0ZWRfb3V0cHV0AAAADQAAAAAAAAAPAAAABWluZGV4AAAAAAAAAwAAAAA="]

/-- A transaction with two equal outputs. -/
def twoEqualOutputs : List ContractEvent :=
  oneOutput ++ [commitmentWire "7-1" "AAAAEQAAAAEAAAACAAAADwAAABBlbmNyeXB0ZWRfb3V0cHV0AAAADQAAAAAAAAAPAAAABWluZGV4AAAAAAAAAwAAAAE="]

theorem parse_oneOutput :
    (received [.save oneOutput]).map (parseEvent wireXdr) =
      [.ok (.commitment ⟨"7-0", 5, 0, []⟩)] := by
  decide +kernel

/-- What the events of a history parse to, one after the other. -/
theorem parse_of_mem {ops : List StorageOp} {xdr : Xdr} (parsed : List ProcessedEvent)
    (h : (received ops).map (parseEvent xdr) = parsed.map .ok) {e : ContractEvent}
    (he : e ∈ received ops) : ∃ p ∈ parsed, parseEvent xdr e = .ok p := by
  have hmem : parseEvent xdr e ∈ parsed.map Except.ok := h ▸ List.mem_map_of_mem he
  obtain ⟨p, hp, heq⟩ := List.mem_map.mp hmem
  exact ⟨p, hp, heq.symm⟩

/-- One event has no other to share a key with. -/
theorem EventKind.distinct_singleton {ε κ : Type} (K : EventKind ε κ) (xdr : Xdr)
    (e : ContractEvent) : K.Distinct xdr [e] := by
  unfold EventKind.Distinct
  cases hparse : K.parse xdr e with
  | none => simp [hparse]
  | some row => simp [hparse]

theorem drains_iff_oneOutput :
    ∃ s s', (runStorage wireXdr [.save oneOutput]).run Storage.empty = .ok () s ∧
      Drains wireXdr 1 s s' := by
  obtain ⟨s, hrun, hiff⟩ := drains_iff wireXdr [.save oneOutput] 1 (by decide)
  have hprocessable : Processable wireXdr (received [.save oneOutput]) := by
    have hone : received [.save oneOutput] = oneOutput.map ContractEvent.asRead := rfl
    refine ⟨fun e he => ?_, hone ▸ nullifierKind.distinct_singleton wireXdr _,
      hone ▸ commitmentKind.distinct_singleton wireXdr _,
      hone ▸ leafKind.distinct_singleton wireXdr _⟩
    obtain ⟨p, hp, hparse⟩ := parse_of_mem [.commitment ⟨"7-0", 5, 0, []⟩] parse_oneOutput he
    obtain rfl : p = .commitment ⟨"7-0", 5, 0, []⟩ := by simpa using hp
    exact ⟨_, hparse, trivial⟩
  obtain ⟨s', hdrains, -⟩ := hiff.mpr hprocessable
  exact ⟨s, s', hrun, hdrains⟩

/-- Two equal outputs: the event of the second is fetched by every call, so no call returns
`false`. -/
theorem equal_outputs_never_drain :
    ¬ ∀ (xdr : Xdr) (ops : List StorageOp) (limit : UInt32), 0 < limit →
      ∃ s s', (runStorage xdr ops).run Storage.empty = .ok () s ∧ Drains xdr limit s s' := by
  intro hall
  obtain ⟨s, s', hrun, hdrains⟩ := hall wireXdr [.save twoEqualOutputs] 1 (by decide)
  obtain ⟨s₁, hrun₁, h, hstored⟩ :=
    (Pipeline.empty wireXdr).run [.save twoEqualOutputs]
  obtain rfl : s = s₁ := by
    rw [hrun] at hrun₁
    cases hrun₁
    rfl
  obtain ⟨hrecorded, hsame, h'⟩ := hdrains.allRecorded h (by decide)
  have hdistinct := (h'.processable hrecorded).commitments
  rw [hsame, hstored] at hdistinct
  have hequal : ¬ commitmentKind.Distinct wireXdr (received [.save twoEqualOutputs]) := by
    decide +kernel
  exact hequal hdistinct

end PrivatePayments.State
