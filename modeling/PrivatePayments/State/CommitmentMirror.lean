import PrivatePayments.State.StorageSound

/-!
# PrivatePayments.State.CommitmentMirror

The local mirror of a pool's leaves: raw events and parsed commitments are saved in batches,
and `get_pool_commitment_leaves_ordered` reads the leaves back.

`pool_commitments` refers to its event by `event_id`, but its insert ignores conflicts on
the *commitment*. The contract neither forbids two equal outputs nor ties a commitment to
one pool, so the mirror is the history exactly when no commitment occurs twice in it and no
pool has reached `2 ^ 32` leaves, where the counter of the read overflows (`mirror_iff`).
-/

namespace PrivatePayments.State

/-- A `NewCommitmentEvent` that a pool has emitted: the event on the wire and its content. -/
structure EmittedCommitment where
  wire : ContractEvent
  event : NewCommitmentEvent
  same_id : event.id = wire.id

/-- A batch that is saved. -/
inductive SaveOp
  | raw (events : List ContractEvent)
  | commitments (events : List NewCommitmentEvent)

namespace SaveOp

/-- The method that saves the batch. -/
def run : SaveOp → Db Unit
  | raw events => saveEventsBatch events
  | commitments events => saveCommitmentEventsBatch events

/-- The raw events of a batch. -/
def rawEvents : SaveOp → List ContractEvent
  | raw events => events
  | commitments _ => []

/-- The parsed events of a batch. -/
def parsedEvents : SaveOp → List NewCommitmentEvent
  | raw _ => []
  | commitments events => events

/-- A parsed event is saved after its raw event. -/
def RawFirst : List String → List SaveOp → Prop
  | _, [] => True
  | known, raw events :: ops => RawFirst (known ++ events.map ContractEvent.id) ops
  | known, commitments events :: ops => (∀ e ∈ events, e.id ∈ known) ∧ RawFirst known ops

theorem RawFirst.mono {known known' : List String} {ops : List SaveOp}
    (hsub : known ⊆ known') (h : RawFirst known ops) : RawFirst known' ops := by
  induction ops generalizing known known' with
  | nil => trivial
  | cons op ops ih =>
      cases op with
      | raw events =>
          refine ih (fun id hid => ?_) h
          rcases List.mem_append.mp hid with hid | hid
          · exact List.mem_append_left _ (hsub hid)
          · exact List.mem_append_right _ hid
      | commitments events => exact ⟨fun e he => hsub (h.1 e he), ih hsub h.2⟩

end SaveOp

/-- The batches, one after the other. -/
def runSaves (ops : List SaveOp) : Db Unit := forM ops SaveOp.run

/-- What the pools can have emitted, in order: every event has its own id, and each pool
counts its leaves from 0. -/
structure Emitted (history : List EmittedCommitment) : Prop where
  ids : (history.map fun h => h.wire.id).Nodup
  indices : ∀ pool,
    (history.filter fun h => h.wire.contractId = pool).map (fun h => h.event.index.toNat) =
      List.range (history.filter fun h => h.wire.contractId = pool).length

/-- The batches save every commitment of the history once, in any order and any splits,
after its raw event; other raw events may be saved between them. -/
structure Saves (ops : List SaveOp) (history : List EmittedCommitment) : Prop where
  rawFirst : SaveOp.RawFirst [] ops
  wire : ∀ e ∈ ops.flatMap SaveOp.rawEvents, ∀ h ∈ history, e.id = h.wire.id →
    e.contractId = h.wire.contractId
  parsed : (ops.flatMap SaveOp.parsedEvents).Perm (history.map EmittedCommitment.event)

/-- The leaves of a pool's tree, in index order. -/
def leavesOf (history : List EmittedCommitment) (pool : String) : List Fr :=
  (history.filter fun h => h.wire.contractId = pool).map fun h => h.event.commitment

/-! ## The read -/

theorem checkedAdd_one (n : UInt32) :
    checkedAdd n 1 = if n.toNat + 1 < UInt32.size then some (n + 1) else none := rfl

theorem toNat_add_one {n : UInt32} (h : n.toNat + 1 < UInt32.size) :
    (n + 1).toNat = n.toNat + 1 := by
  rw [UInt32.toNat_add]
  exact Nat.mod_eq_of_lt h

/-- The read succeeds exactly on consecutive indices whose successors fit in 32 bits. -/
theorem collectLeaves_ok {rows : List NewCommitmentEvent} {expectedIndex : UInt32}
    {leaves out : List Fr} :
    collectLeaves rows expectedIndex leaves = .ok out ↔
      rows.map (fun c => c.index.toNat) = List.range' expectedIndex.toNat rows.length ∧
      (rows = [] ∨ expectedIndex.toNat + rows.length < UInt32.size) ∧
      out = leaves ++ rows.map NewCommitmentEvent.commitment := by
  induction rows generalizing expectedIndex leaves with
  | nil => simp [collectLeaves, eq_comm]
  | cons row rows ih =>
      have hindex : row.index.toNat = expectedIndex.toNat ↔ row.index = expectedIndex :=
        UInt32.toNat_inj
      unfold collectLeaves
      rw [checkedAdd_one]
      by_cases hrow : row.index = expectedIndex
      · by_cases hlt : expectedIndex.toNat + 1 < UInt32.size
        · rw [if_neg (not_not_intro hrow), if_pos hlt]
          simp only [ih, toNat_add_one hlt]
          simp only [List.map_cons, List.length_cons, List.range'_succ, List.cons.injEq, hrow,
            true_and, reduceCtorEq, false_or, List.append_assoc, List.singleton_append]
          refine and_congr_right fun hmap => and_congr_left fun _ => ?_
          cases rows with
          | nil => simpa using hlt
          | cons row' rows => simp only [reduceCtorEq, false_or]; omega
        · rw [if_neg (not_not_intro hrow), if_neg hlt]
          simp only [List.length_cons, reduceCtorEq, false_or, false_iff]
          omega
      · rw [if_pos hrow]
        simp [List.range'_succ, hindex, hrow]

/-- A raw event leads to the contract that emitted it. -/
theorem Storage.Linked.eventAddress?_of_mem {s : Storage} (hs : s.Linked) {e : ContractEvent}
    (he : e ∈ s.storedEvents) : s.eventAddress? e.id = some e.contractId := by
  obtain ⟨r, hr, rfl⟩ := List.mem_map.mp he
  obtain ⟨a, ha⟩ := hs.addresses r hr
  have hfind : s.rawEvent? r.id = some r := Table.find?_key hs.ids hr
  simp [Storage.eventAddress?, Storage.readEvent, hfind, ha]

/-! ## The saves -/

/-- A storage after the batches: the raw events and the commitments that were kept. -/
structure Mirrors (ops : List SaveOp) (s s' : Storage) : Prop where
  linked : s'.Linked
  storedEvents : s'.storedEvents = Table.addAllNew ContractEvent.id s.storedEvents
    ((ops.flatMap SaveOp.rawEvents).map ContractEvent.asRead)
  commitments : Table.columns s'.poolCommitments =
    Table.addAllNew NewCommitmentEvent.commitment (Table.columns s.poolCommitments)
      (ops.flatMap SaveOp.parsedEvents)

/-- One batch. -/
theorem SaveOp.run_mirrors {op : SaveOp} {s : Storage} (hs : s.Linked)
    (hraw : ∀ e ∈ op.parsedEvents, e.id ∈ s.rawIds)
    (hfresh : ((Table.columns s.poolCommitments ++ op.parsedEvents).map
      NewCommitmentEvent.id).Nodup) :
    ∃ s', op.run.run s = .ok () s' ∧ Mirrors [op] s s' := by
  cases op with
  | raw events =>
      refine ⟨s.addEvents events, saveEventsBatch_run events s, hs.addEvents events, ?_, ?_⟩
      · simpa [rawEvents] using hs.storedEvents_addEvents events
      · have hrows : (s.addEvents events).poolCommitments = s.poolCommitments :=
          poolCommitmentsTable.rows_addEvents s events
        simp [parsedEvents, hrows]
  | commitments events =>
      refine ⟨_, poolCommitmentsTable.saveBatch_run s hraw hfresh, ?_, ?_, ?_⟩
      · exact ⟨hs.contracts, hs.ids, hs.addresses⟩
      · simp only [List.flatMap_singleton, rawEvents]
        rfl
      · rw [List.flatMap_singleton]
        exact Table.columns_insertAllNew

theorem Mirrors.trans {ops ops' : List SaveOp} {s s' s'' : Storage} (h : Mirrors ops s s')
    (h' : Mirrors ops' s' s'') : Mirrors (ops ++ ops') s s'' := by
  refine ⟨h'.linked, ?_, ?_⟩
  · rw [h'.storedEvents, h.storedEvents, List.flatMap_append, List.map_append,
      Table.addAllNew_append]
  · rw [h'.commitments, h.commitments, List.flatMap_append, Table.addAllNew_append]

/-- After a batch its raw events are known. -/
theorem Mirrors.rawIds_subset {op : SaveOp} {s s' : Storage} (h : Mirrors [op] s s') :
    s.rawIds ++ op.rawEvents.map ContractEvent.id ⊆ s'.rawIds := by
  rw [← s.storedEvents_ids, ← s'.storedEvents_ids, h.storedEvents]
  intro id hid
  rcases List.mem_append.mp hid with hid | hid
  · exact List.map_subset _ Table.prefix_addAllNew.subset hid
  · obtain ⟨e, he, rfl⟩ := List.mem_map.mp hid
    have hread : e.asRead ∈ ([op].flatMap SaveOp.rawEvents).map ContractEvent.asRead := by
      simpa using ⟨e, he, rfl⟩
    show e.asRead.id ∈ _
    exact Table.key_mem_addAllNew hread

/-- All batches: every save succeeds. -/
theorem runSaves_mirrors {ops : List SaveOp} {s : Storage} (hs : s.Linked)
    (hraw : SaveOp.RawFirst s.rawIds ops)
    (hfresh : ((Table.columns s.poolCommitments ++ ops.flatMap SaveOp.parsedEvents).map
      NewCommitmentEvent.id).Nodup) :
    ∃ s', (runSaves ops).run s = .ok () s' ∧ Mirrors ops s s' := by
  induction ops generalizing s with
  | nil => exact ⟨s, rfl, hs, rfl, rfl⟩
  | cons op ops ih =>
      have hop : ∀ e ∈ op.parsedEvents, e.id ∈ s.rawIds := by
        cases op with
        | raw events => intro e he; cases he
        | commitments events => exact hraw.1
      rw [List.flatMap_cons, ← List.append_assoc] at hfresh
      obtain ⟨s₁, hrun, h₁⟩ := SaveOp.run_mirrors hs hop
        (hfresh.sublist ((List.sublist_append_left _ _).map _))
      have hcolumns : Table.columns s₁.poolCommitments = Table.addAllNew
          NewCommitmentEvent.commitment (Table.columns s.poolCommitments) op.parsedEvents := by
        simpa using h₁.commitments
      have hraw₁ : SaveOp.RawFirst s₁.rawIds ops := by
        cases op with
        | raw events => exact hraw.mono h₁.rawIds_subset
        | commitments events =>
            exact hraw.2.mono (List.Subset.trans (List.subset_append_left _ _) h₁.rawIds_subset)
      obtain ⟨s₂, hrun₂, h₂⟩ := ih h₁.linked hraw₁ (by
        rw [hcolumns]
        exact hfresh.sublist ((Table.addAllNew_sublist.append (List.Sublist.refl _)).map _))
      refine ⟨s₂, ?_, h₁.trans h₂⟩
      unfold runSaves
      rw [List.forM_cons, Db.run_bind_of_ok hrun]
      exact hrun₂

/-! ## The mirror -/

section Mirror

variable {history : List EmittedCommitment} {ops : List SaveOp} {s : Storage}

/-- The pool of an emitted commitment, read from the storage. -/
theorem Mirrors.eventAddress? (hsaves : Saves ops history) (h : Mirrors ops Storage.empty s)
    {e : EmittedCommitment} (he : e ∈ history) (hraw : e.event.id ∈ s.rawIds) :
    s.eventAddress? e.event.id = some e.wire.contractId := by
  rw [← s.storedEvents_ids] at hraw
  obtain ⟨stored, hstored, hid⟩ := List.mem_map.mp hraw
  have hreceived : stored ∈ (ops.flatMap SaveOp.rawEvents).map ContractEvent.asRead := by
    rw [h.storedEvents] at hstored
    rcases Table.mem_or_mem_of_mem_addAllNew hstored with hnil | hread
    · cases hnil
    · exact hread
  obtain ⟨wire, hwire, rfl⟩ := List.mem_map.mp hreceived
  have hcontract := hsaves.wire wire hwire e he (hid.trans e.same_id)
  rw [← hid, h.linked.eventAddress?_of_mem hstored]
  exact congrArg some hcontract

/-- Every parsed event has its raw event. -/
theorem SaveOp.RawFirst.raw_mem {known : List String} {ops : List SaveOp}
    (h : SaveOp.RawFirst known ops) {e : NewCommitmentEvent}
    (he : e ∈ ops.flatMap SaveOp.parsedEvents) :
    e.id ∈ known ++ (ops.flatMap SaveOp.rawEvents).map ContractEvent.id := by
  induction ops generalizing known with
  | nil => cases he
  | cons op ops ih =>
      cases op with
      | raw events => simpa [rawEvents] using ih h (by simpa [parsedEvents] using he)
      | commitments events =>
          rw [List.flatMap_cons, List.mem_append] at he
          rcases he with he | he
          · exact List.mem_append_left _ (h.1 e he)
          · simpa [rawEvents] using ih h.2 he

/-- The saved events of a pool are those of the history. -/
theorem Mirrors.saved_perm (hsaves : Saves ops history) (h : Mirrors ops Storage.empty s)
    (pool : String) :
    ((ops.flatMap SaveOp.parsedEvents).filter fun c => s.eventAddress? c.id = some pool).Perm
      ((history.filter fun e => e.wire.contractId = pool).map EmittedCommitment.event) := by
  have hpool : ∀ e ∈ history, (s.eventAddress? e.event.id = some pool ↔
      e.wire.contractId = pool) := by
    intro e he
    have hparsed : e.event ∈ ops.flatMap SaveOp.parsedEvents :=
      hsaves.parsed.mem_iff.mpr (List.mem_map_of_mem he)
    have hraw : e.event.id ∈ s.rawIds := by
      have hmem := hsaves.rawFirst.raw_mem hparsed
      obtain ⟨wire, hwire, hid⟩ := List.mem_map.mp hmem
      rw [← hid, ← s.storedEvents_ids, h.storedEvents]
      have hread : wire.asRead ∈ (ops.flatMap SaveOp.rawEvents).map ContractEvent.asRead :=
        List.mem_map_of_mem hwire
      show wire.asRead.id ∈ _
      exact Table.key_mem_addAllNew hread
    rw [h.eventAddress? hsaves he hraw, Option.some_inj]
  refine (hsaves.parsed.filter _).trans (List.Perm.of_eq ?_)
  rw [List.filter_map]
  refine congrArg _ (List.filter_congr fun e he => ?_)
  simp [Function.comp, hpool e he]

/-- The read of a pool whose saved events were all kept. -/
theorem leaves_of_kept (hemit : Emitted history) (hsaves : Saves ops history)
    (h : Mirrors ops Storage.empty s) (pool : String)
    (hkept : Table.columns s.poolCommitments = ops.flatMap SaveOp.parsedEvents)
    (hlt : (leavesOf history pool).length < UInt32.size) :
    getPoolCommitmentLeavesOrdered s pool = .ok (leavesOf history pool) := by
  have hindices := hemit.indices pool
  have hsorted : ((history.filter fun e => e.wire.contractId = pool).map
      EmittedCommitment.event).Pairwise fun a b => a.index.toNat < b.index.toNat := by
    have hrange : (((history.filter fun e => e.wire.contractId = pool).map
        EmittedCommitment.event).map fun c => c.index.toNat).Pairwise (· < ·) := by
      rw [List.map_map]
      exact hindices ▸ List.pairwise_lt_range
    exact List.pairwise_map.mp hrange
  unfold getPoolCommitmentLeavesOrdered
  simp only [hkept]
  rw [Table.orderBy_eq_of_perm (h.saved_perm hsaves pool) hsorted, collectLeaves_ok]
  refine ⟨?_, .inr ?_, ?_⟩
  · simpa [List.range_eq_range', Function.comp_def] using hindices
  · simpa [leavesOf] using hlt
  · simp [leavesOf, Function.comp_def]

/-- If every pool reads back as it was emitted then every saved event was kept. -/
theorem kept_of_leaves (hemit : Emitted history) (hsaves : Saves ops history)
    (h : Mirrors ops Storage.empty s)
    (hread : ∀ pool, getPoolCommitmentLeavesOrdered s pool = .ok (leavesOf history pool)) :
    Table.columns s.poolCommitments = ops.flatMap SaveOp.parsedEvents := by
  have hsub : (Table.columns s.poolCommitments).Sublist (ops.flatMap SaveOp.parsedEvents) := by
    rw [h.commitments]
    exact Table.addAllNew_sublist
  -- in each pool the counts agree, so nothing of the pool was dropped
  have hpool : ∀ pool, (Table.columns s.poolCommitments).filter
      (fun c => s.eventAddress? c.id = some pool) =
        (ops.flatMap SaveOp.parsedEvents).filter fun c => s.eventAddress? c.id = some pool := by
    intro pool
    refine (hsub.filter _).eq_of_length ?_
    obtain ⟨-, -, hout⟩ := collectLeaves_ok.mp (hread pool)
    have hlen := congrArg List.length hout
    rw [List.nil_append, List.length_map, Table.orderBy_perm.length_eq] at hlen
    rw [← hlen, (h.saved_perm hsaves pool).length_eq, leavesOf, List.length_map, List.length_map]
  have hnodup : (ops.flatMap SaveOp.parsedEvents).Nodup := by
    refine (hsaves.parsed.nodup_iff).mpr (List.Nodup.of_map NewCommitmentEvent.id ?_)
    simpa [Function.comp_def, EmittedCommitment.same_id] using hemit.ids
  refine hsub.eq_of_length_le (hnodup.subperm ?_).length_le
  intro c hc
  obtain ⟨e, he, rfl⟩ := List.mem_map.mp (hsaves.parsed.subset hc)
  have hown : e ∈ history.filter fun e' => e'.wire.contractId = e.wire.contractId :=
    List.mem_filter.mpr ⟨he, decide_eq_true rfl⟩
  have hsaved := (h.saved_perm hsaves e.wire.contractId).mem_iff.mpr (List.mem_map_of_mem hown)
  rw [← hpool] at hsaved
  exact (List.mem_filter.mp hsaved).1

/-- The mirror is the history exactly when no commitment value occurs twice in it, be it in
one pool or in two, and no pool holds `2 ^ 32` leaves. -/
theorem mirror_iff (hemit : Emitted history) (hsaves : Saves ops history) :
    ∃ s, (runSaves ops).run Storage.empty = .ok () s ∧
      ((∀ pool, getPoolCommitmentLeavesOrdered s pool = .ok (leavesOf history pool)) ↔
        (history.map fun h => h.event.commitment).Nodup ∧
        ∀ pool, (leavesOf history pool).length < UInt32.size) := by
  have hids : ((ops.flatMap SaveOp.parsedEvents).map NewCommitmentEvent.id).Nodup := by
    refine ((hsaves.parsed.map _).nodup_iff).mpr ?_
    simpa [Function.comp_def, EmittedCommitment.same_id] using hemit.ids
  obtain ⟨s, hrun, hs⟩ := runSaves_mirrors (s := Storage.empty) Storage.linked_empty
    hsaves.rawFirst hids
  have hcommitments : ((ops.flatMap SaveOp.parsedEvents).map
      NewCommitmentEvent.commitment).Nodup ↔ (history.map fun h => h.event.commitment).Nodup := by
    rw [(hsaves.parsed.map _).nodup_iff, List.map_map]
    rfl
  have hkept : Table.columns s.poolCommitments = ops.flatMap SaveOp.parsedEvents ↔
      (history.map fun h => h.event.commitment).Nodup := by
    rw [hs.commitments, ← hcommitments]
    exact Table.addAllNew_nil_eq_iff
  refine ⟨s, hrun, ?_, ?_⟩
  · intro hread
    refine ⟨hkept.mp (kept_of_leaves hemit hsaves hs hread), fun pool => ?_⟩
    obtain ⟨-, hlt, hout⟩ := collectLeaves_ok.mp (hread pool)
    rw [hout, List.nil_append, List.length_map]
    rcases hlt with hnil | hlt
    · rw [hnil]
      decide
    · simpa using hlt
  · intro hgood pool
    exact leaves_of_kept hemit hsaves hs pool (hkept.mpr hgood.1) (hgood.2 pool)

end Mirror

/-! ## Concrete histories -/

/-- All raw events in one batch, then all commitments in one batch. -/
def saveAll (history : List EmittedCommitment) : List SaveOp :=
  [.raw (history.map EmittedCommitment.wire), .commitments (history.map EmittedCommitment.event)]

theorem saves_saveAll {history : List EmittedCommitment}
    (hids : (history.map fun h => h.wire.id).Nodup) : Saves (saveAll history) history := by
  refine ⟨⟨?_, trivial⟩, ?_, ?_⟩
  · intro e he
    obtain ⟨h, hh, rfl⟩ := List.mem_map.mp he
    rw [h.same_id, List.nil_append, List.map_map]
    exact List.mem_map_of_mem (f := ContractEvent.id ∘ EmittedCommitment.wire) hh
  · intro e he h hh hid
    obtain ⟨h', hh', rfl⟩ : ∃ h' ∈ history, h'.wire = e := by
      simpa [saveAll, SaveOp.rawEvents] using he
    rw [List.inj_on_of_nodup_map hids hh' hh hid]
  · simp [saveAll, SaveOp.parsedEvents]

/-- A commitment event without payload. -/
def emitted (pool id : String) (commitment : Fr) (index : UInt32) : EmittedCommitment :=
  ⟨⟨id, 1, pool, [], ""⟩, ⟨id, commitment, index, []⟩, rfl⟩

/-- Two pools with two leaves each. -/
def twoPools : List EmittedCommitment :=
  [emitted "A" "1-0" 5 0, emitted "A" "1-1" 6 1, emitted "B" "2-0" 7 0, emitted "B" "2-1" 8 1]

/-- One pool: a transaction with two equal outputs, then another transaction. -/
def equalOutputs : List EmittedCommitment :=
  [emitted "A" "1-0" 5 0, emitted "A" "1-1" 5 1, emitted "A" "2-0" 7 2, emitted "A" "2-1" 8 3]

theorem emitted_twoPools : Emitted twoPools := by
  refine ⟨by decide +kernel, fun pool => ?_⟩
  by_cases hA : "A" = pool
  · subst hA
    decide +kernel
  · by_cases hB : "B" = pool
    · subst hB
      decide +kernel
    · simp [twoPools, emitted, hA, hB]

theorem emitted_equalOutputs : Emitted equalOutputs := by
  refine ⟨by decide +kernel, fun pool => ?_⟩
  by_cases hA : "A" = pool
  · subst hA
    decide +kernel
  · simp [equalOutputs, emitted, hA]

theorem mirror_iff_twoPools :
    ∃ s, (runSaves (saveAll twoPools)).run Storage.empty = .ok () s ∧
      ∀ pool, getPoolCommitmentLeavesOrdered s pool = .ok (leavesOf twoPools pool) := by
  obtain ⟨s, hrun, hiff⟩ := mirror_iff emitted_twoPools (saves_saveAll emitted_twoPools.ids)
  refine ⟨s, hrun, hiff.mpr ⟨by decide +kernel, fun pool => ?_⟩⟩
  have hle : (leavesOf twoPools pool).length ≤ twoPools.length := by
    rw [leavesOf, List.length_map]
    exact List.length_filter_le _ _
  exact lt_of_le_of_lt hle (by decide)

/-- The leaves of a pool once the batches are saved. -/
def leavesAfter (ops : List SaveOp) (pool : String) : Except String (List Fr) :=
  match (runSaves ops).run Storage.empty with
  | .ok _ s => getPoolCommitmentLeavesOrdered s pool
  | .error e _ => .error e

/-- The second of two equal outputs is dropped, and the pool can no longer be read. -/
theorem mirror_loses_equal_output :
    ¬ ∀ history ops, Emitted history → Saves ops history →
      ∀ pool, leavesAfter ops pool = .ok (leavesOf history pool) := by
  intro h
  have hread := h equalOutputs (saveAll equalOutputs) emitted_equalOutputs
    (saves_saveAll emitted_equalOutputs.ids) "A"
  have hgap : leavesAfter (saveAll equalOutputs) "A" =
      .error "pool_commitments gap/out-of-order: expected index 1, got 2" := by
    decide +kernel
  rw [hgap] at hread
  cases hread

end PrivatePayments.State
