import PrivatePayments.State.NoteScanSound
import PrivatePayments.State.ReconcileSound

/-!
# PrivatePayments.State.SpentStatus

The spent status of the user's notes.

A nullifier can be saved before or after the note it spends is found. The scan looks back:
a note is stored with the nullifier that is already there. The reconciliation looks forward,
and never returns to a nullifier behind its high-water mark. So the invariant is that a note
without a nullifier is matched by no nullifier up to the mark of its pool (`SpentOk`): an
insert adds nullifiers past every mark, the scan leaves no match at all, and a settled batch
leaves none in the batch.
-/

namespace PrivatePayments.State

/-- A nullifier row spends a note: it has the nullifier of the note, in the note's pool. -/
def Storage.Spends (s : Storage) (n : Table.Row NewNullifierEvent) (note : UserNote) : Prop :=
  n.columns.nullifier = note.expectedNullifier ∧
    ∃ p, s.InPool p note ∧ s.eventContract? n.columns.id = some p

/-- The notes agree with the nullifiers that are covered: a note has the nullifier that
spends it, and a note without one is spent by no covered nullifier. -/
structure NotesOk (s : Storage) (covered : Nat → Nat → Prop) : Prop where
  refers : ∀ note ∈ Table.columns s.userNotes, ∃ c ∈ s.poolCommitments,
    c.rowid = note.commitmentId
  spent : ∀ note ∈ Table.columns s.userNotes, ∀ id, note.nullifierId = some id →
    ∃ n ∈ s.poolNullifiers, n.rowid = id ∧ s.Spends n note
  unspent : ∀ note ∈ Table.columns s.userNotes, note.nullifierId = none → ∀ p, s.InPool p note →
    ∀ n ∈ s.poolNullifiers, s.eventContract? n.columns.id = some p →
      n.columns.nullifier = note.expectedNullifier → ¬ covered p n.rowid

/-- The invariant of the database: what lies behind the high-water marks is covered. -/
structure SpentOk (s : Storage) : Prop where
  commitments : poolCommitmentsTable.Valid s
  nullifiers : poolNullifiersTable.Valid s
  marks : ∀ p, s.nullifierMark p < Table.nextRowid s.poolNullifiers
  notes : NotesOk s fun p id => id ≤ s.nullifierMark p

/-! ## Writes that only add events -/

theorem eventContract?_addEvent {s : Storage} {id : String} (event : ContractEvent)
    (h : id ∈ s.rawIds) : (s.addEvent event).eventContract? id = s.eventContract? id := by
  unfold Storage.eventContract? Storage.rawEvent?
  have hprefix : Table.columns s.rawContractEvents <+:
      Table.columns (s.addEvent event).rawContractEvents := by
    show _ <+: Table.columns (Table.insertNew _ s.rawContractEvents _)
    rw [Table.columns_insertNew]
    exact Table.prefix_addNew
  obtain ⟨rest, hrest⟩ := hprefix
  obtain ⟨r, hr, hid⟩ := List.mem_map.mp h
  have hfound : ((Table.columns s.rawContractEvents).find? fun r => r.id = id).isSome :=
    List.find?_isSome.mpr ⟨r, hr, by simpa using hid⟩
  obtain ⟨r', hr'⟩ := Option.isSome_iff_exists.mp hfound
  rw [← hrest, List.find?_append, hr', Option.some_or]

/-- In an ordered table a row is its number. -/
theorem eq_of_rowid {α : Type} {t : Table α} (h : Table.Ordered t) {a b : Table.Row α} (ha : a ∈ t)
    (hb : b ∈ t) (hid : a.rowid = b.rowid) : a = b := by
  have hfind := Table.find?_rowid h ha
  rw [hid, Table.find?_rowid h hb] at hfind
  exact (Option.some.inj hfind).symm

section Invariant

variable {s s' : Storage}

/-- The pool of a note is unique. -/
theorem Storage.InPool.unique (h : Table.Ordered s.poolCommitments) {p q : Nat} {note : UserNote}
    (hp : s.InPool p note) (hq : s.InPool q note) : p = q := by
  obtain ⟨c, hc, hid, hpool⟩ := hp
  obtain ⟨c', hc', hid', hpool'⟩ := hq
  obtain rfl := eq_of_rowid h hc hc' (hid.trans hid'.symm)
  exact Option.some.inj (hpool.symm.trans hpool')

/-- A change of the database that adds rows of events: the tables grow, new nullifiers come
last, and the notes and marks stay. -/
structure Grows (s s' : Storage) : Prop where
  userNotes : s'.userNotes = s.userNotes
  nullifierScanState : s'.nullifierScanState = s.nullifierScanState
  contracts : ∀ id ∈ s.rawIds, s'.eventContract? id = s.eventContract? id
  commitments : s.poolCommitments ⊆ s'.poolCommitments
  nullifiers : s.poolNullifiers ⊆ s'.poolNullifiers
  last : ∀ n ∈ s'.poolNullifiers, n ∈ s.poolNullifiers ∨
    Table.nextRowid s.poolNullifiers ≤ n.rowid
  next : Table.nextRowid s.poolNullifiers ≤ Table.nextRowid s'.poolNullifiers

theorem Grows.commitmentContract (h : Grows s s') (hs : poolCommitmentsTable.Valid s)
    {c : Table.Row NewCommitmentEvent} (hc : c ∈ s.poolCommitments) :
    s'.eventContract? c.columns.id = s.eventContract? c.columns.id :=
  h.contracts _ (hs.linked _ (Table.mem_columns hc))

theorem Grows.nullifierContract (h : Grows s s') (hs : poolNullifiersTable.Valid s)
    {n : Table.Row NewNullifierEvent} (hn : n ∈ s.poolNullifiers) :
    s'.eventContract? n.columns.id = s.eventContract? n.columns.id :=
  h.contracts _ (hs.linked _ (Table.mem_columns hn))

theorem Grows.inPool (h : Grows s s') (hs : poolCommitmentsTable.Valid s) {p : Nat}
    {note : UserNote} (hpool : s.InPool p note) : s'.InPool p note := by
  obtain ⟨c, hc, hid, hcontract⟩ := hpool
  refine ⟨c, h.commitments hc, hid, ?_⟩
  rw [h.commitmentContract hs hc, hcontract]

theorem Grows.inPool_of (h : Grows s s') (hs : poolCommitmentsTable.Valid s)
    (hs' : Table.Ordered s'.poolCommitments) {p : Nat} {note : UserNote}
    (hrefers : ∃ c ∈ s.poolCommitments, c.rowid = note.commitmentId)
    (hpool : s'.InPool p note) : s.InPool p note := by
  obtain ⟨c, hc, hid⟩ := hrefers
  obtain ⟨c', hc', hid', hcontract⟩ := hpool
  obtain rfl := eq_of_rowid hs' (h.commitments hc) hc' (hid.trans hid'.symm)
  refine ⟨c, hc, hid, ?_⟩
  rw [← h.commitmentContract hs hc, hcontract]

theorem SpentOk.grows (hs : SpentOk s) (h : Grows s s') (hc : poolCommitmentsTable.Valid s')
    (hn : poolNullifiersTable.Valid s') : SpentOk s' := by
  have hmark : ∀ p, s'.nullifierMark p = s.nullifierMark p := fun p => by
    unfold Storage.nullifierMark Storage.nullifierMark?
    rw [h.nullifierScanState]
  refine ⟨hc, hn, fun p => ?_, ?_, ?_, ?_⟩
  · rw [hmark]
    exact (hs.marks p).trans_le h.next
  · intro note hnote
    rw [h.userNotes] at hnote
    obtain ⟨c, hc, hid⟩ := hs.notes.refers note hnote
    exact ⟨c, h.commitments hc, hid⟩
  · intro note hnote id hid
    rw [h.userNotes] at hnote
    obtain ⟨n, hn, hrowid, hvalue, p, hpool, hcontract⟩ := hs.notes.spent note hnote id hid
    refine ⟨n, h.nullifiers hn, hrowid, hvalue, p, h.inPool hs.commitments hpool, ?_⟩
    rw [h.nullifierContract hs.nullifiers hn, hcontract]
  · intro note hnote hnone p hpool n hn hcontract hvalue
    rw [h.userNotes] at hnote
    rw [hmark]
    rcases h.last n hn with hold | hnew
    · have hpool' := h.inPool_of hs.commitments hc.ordered (hs.notes.refers note hnote) hpool
      rw [h.nullifierContract hs.nullifiers hold] at hcontract
      exact hs.notes.unspent note hnote hnone p hpool' n hold hcontract hvalue
    · exact Nat.not_le.mpr ((hs.marks p).trans_le hnew)

/-- An accepted row keeps its table valid. -/
theorem EventTable.Valid.add {ε κ : Type} {T : EventTable ε κ} {event : ε} (h : T.Valid s)
    (haccepts : T.Accepts s event) : T.Valid (T.add s event) := by
  have hrows : T.rows (T.add s event) = Table.insert (T.rows s) event := T.rows_put _ _
  have hraw : (T.add s event).rawIds = s.rawIds := EventTable.rawIds_put _
  refine ⟨hrows ▸ h.ordered.insert, ?_, ?_, ?_⟩
  · rw [hrows, Table.columns_insert, List.map_append]
    exact List.nodup_append.mpr ⟨h.keys, List.nodup_singleton _, fun a ha b hb hab =>
      haccepts.key ((List.mem_singleton.mp hb) ▸ hab ▸ ha)⟩
  · rw [hrows, Table.columns_insert, List.map_append]
    exact List.nodup_append.mpr ⟨h.ids, List.nodup_singleton _, fun a ha b hb hab =>
      haccepts.id ((List.mem_singleton.mp hb) ▸ hab ▸ ha)⟩
  · intro row hrow
    rw [hraw]
    rw [hrows, Table.columns_insert, List.mem_append, List.mem_singleton] at hrow
    rcases hrow with hrow | rfl
    · exact h.linked row hrow
    · exact haccepts.raw

/-! ## The writes -/

theorem SpentOk.event (hs : SpentOk s) (event : ContractEvent) : SpentOk (s.addEvent event) := by
  have hraw : ∀ id ∈ s.rawIds, id ∈ (s.addEvent event).rawIds := by
    show ∀ id ∈ s.rawIds, id ∈ (Table.columns (Table.insertNew _ s.rawContractEvents _)).map _
    rw [Table.columns_insertNew]
    exact List.map_subset _ Table.prefix_addNew.subset
  have hframe : (s.addEvent event).userNotes = s.userNotes ∧
      (s.addEvent event).nullifierScanState = s.nullifierScanState ∧
      (s.addEvent event).poolCommitments = s.poolCommitments ∧
      (s.addEvent event).poolNullifiers = s.poolNullifiers := by
    unfold Storage.addEvent Storage.withContract
    split <;> exact ⟨rfl, rfl, rfl, rfl⟩
  obtain ⟨hnotes, hstate, hcommitments, hnullifiers⟩ := hframe
  refine hs.grows ⟨hnotes, hstate, fun id hid => eventContract?_addEvent event hid, ?_, ?_, ?_, ?_⟩
    (hs.commitments.congr hcommitments hraw) (hs.nullifiers.congr hnullifiers hraw)
  · rw [hcommitments]
    exact List.Subset.refl _
  · rw [hnullifiers]
    exact List.Subset.refl _
  · rw [hnullifiers]
    exact fun n hn => .inl hn
  · rw [hnullifiers]

theorem SpentOk.commitment (hs : SpentOk s) {event : NewCommitmentEvent}
    (h : poolCommitmentsTable.Accepts s event) : SpentOk (poolCommitmentsTable.add s event) := by
  have hvalid := hs.commitments.add h
  refine hs.grows ⟨rfl, rfl, fun _ _ => rfl, List.subset_append_left _ _, List.Subset.refl _,
    fun n hn => .inl hn, Nat.le_refl _⟩ hvalid (hs.nullifiers.congr rfl fun _ hid => hid)

theorem SpentOk.nullifier (hs : SpentOk s) {event : NewNullifierEvent}
    (h : poolNullifiersTable.Accepts s event) : SpentOk (poolNullifiersTable.add s event) := by
  refine hs.grows ⟨rfl, rfl, fun _ _ => rfl, List.Subset.refl _, List.subset_append_left _ _,
    fun n hn => ?_, ?_⟩ (hs.commitments.congr rfl fun _ hid => hid) (hs.nullifiers.add h)
  · rcases List.mem_append.mp hn with hold | hnew
    · exact .inl hold
    · obtain rfl := List.mem_singleton.mp hnew
      exact .inr (Nat.le_refl _)
  · refine Nat.le_of_lt ?_
    show _ < Table.nextRowid (Table.insert s.poolNullifiers event)
    exact Table.rowid_lt_nextRowid
      (List.mem_append_right _ (List.mem_singleton_self ⟨Table.nextRowid _, event⟩))

/-- The scan stores a note with the nullifier that is already there, if any. -/
theorem SpentOk.note (hs : SpentOk s) {p : Nat} {account : AccountKeys} {row : PoolCommitmentRow}
    {derived : DerivedUserNoteRow} (hrow : row ∈ s.poolRows p) :
    SpentOk { s with
      userNotes := Table.insert s.userNotes (s.scannedNote p account row derived) } := by
  obtain ⟨c, hc, hcontract, hid⟩ := mem_poolRows.mp hrow
  have hrowid : c.rowid = row.commitmentId := by rw [hid]
  have hnew : s.InPool p (s.scannedNote p account row derived) := ⟨c, hc, hrowid, hcontract⟩
  have hcases : ∀ note ∈ Table.columns
      (Table.insert s.userNotes (s.scannedNote p account row derived)),
      note ∈ Table.columns s.userNotes ∨ note = s.scannedNote p account row derived := by
    intro note hnote
    simpa using hnote
  refine ⟨hs.commitments.congr rfl fun _ hid => hid, hs.nullifiers.congr rfl fun _ hid => hid,
    hs.marks, fun note hnote => ?_, fun note hnote id hid => ?_, fun note hnote hnone q hq => ?_⟩
  · rcases hcases note hnote with hold | rfl
    · exact hs.notes.refers note hold
    · exact ⟨c, hc, hrowid⟩
  · rcases hcases note hnote with hold | rfl
    · exact hs.notes.spent note hold id hid
    · obtain ⟨n, hn, hfound, hvalue, hpool⟩ := nullifierId?_mem hid
      exact ⟨n, hn, hfound, hvalue, p, hnew, hpool⟩
  · rcases hcases note hnote with hold | rfl
    · exact hs.notes.unspent note hold hnone q hq
    · intro n hn hpool hvalue
      have hq' : s.InPool q (s.scannedNote p account row derived) := hq
      obtain rfl := hq'.unique hs.commitments.ordered hnew
      have hmissing : s.nullifierId? q derived.expectedNullifier = none := hnone
      unfold Storage.nullifierId? at hmissing
      rw [Option.map_eq_none_iff, List.find?_eq_none] at hmissing
      have hother : s.eventContract? n.columns.id = some q →
          n.columns.nullifier ≠ derived.expectedNullifier := by simpa using hmissing n hn
      exact absurd hvalue (hother hpool)

/-! ## Settling a pool -/

variable {covered covered' : Nat → Nat → Prop} {p : Nat}

theorem spentBy_iff {value : Fr} {note : UserNote} : s.spentBy p value note = true ↔
    note.nullifierId = none ∧ note.expectedNullifier = value ∧ s.InPool p note := by
  unfold Storage.spentBy Storage.InPool
  simp [and_assoc]

/-- Only what is covered of the nullifiers of each pool matters. -/
theorem NotesOk.mono (h : NotesOk s covered)
    (hsub : ∀ p, ∀ n ∈ s.poolNullifiers, s.eventContract? n.columns.id = some p →
      covered' p n.rowid → covered p n.rowid) : NotesOk s covered' := by
  refine ⟨h.refers, h.spent, fun note hnote hnone p hpool n hn hcontract hvalue hcovered => ?_⟩
  exact h.unspent note hnote hnone p hpool n hn hcontract hvalue (hsub p n hn hcontract hcovered)

/-- A nullifier that has been matched is covered. -/
theorem NotesOk.spend (h : NotesOk s covered) (hordered : Table.Ordered s.poolNullifiers)
    {n : Table.Row NewNullifierEvent} (hn : n ∈ s.poolNullifiers)
    (hcontract : s.eventContract? n.columns.id = some p) :
    NotesOk (s.spend p (n.rowid, n.columns.nullifier))
      fun q id => covered q id ∨ (q = p ∧ id = n.rowid) := by
  have hcases : ∀ note ∈ Table.columns (s.spend p (n.rowid, n.columns.nullifier)).userNotes,
      ∃ old ∈ Table.columns s.userNotes,
        (s.spentBy p n.columns.nullifier old = true ∧
          note = { old with nullifierId := some n.rowid }) ∨
        (s.spentBy p n.columns.nullifier old ≠ true ∧ note = old) := by
    intro note hnote
    obtain ⟨r, hr, rfl⟩ := List.mem_map.mp hnote
    obtain ⟨r₀, hr₀, rfl⟩ := List.mem_map.mp hr
    refine ⟨r₀.columns, Table.mem_columns hr₀, ?_⟩
    by_cases hhit : s.spentBy p n.columns.nullifier r₀.columns = true
    · exact .inl ⟨hhit, by simp [hhit]⟩
    · exact .inr ⟨hhit, by simp [hhit]⟩
  refine ⟨fun note hnote => ?_, fun note hnote id hid => ?_, fun note hnote hnone q hq => ?_⟩
  · obtain ⟨old, hold, ⟨-, rfl⟩ | ⟨-, rfl⟩⟩ := hcases note hnote
    · exact h.refers old hold
    · exact h.refers note hold
  · obtain ⟨old, hold, ⟨hhit, rfl⟩ | ⟨-, rfl⟩⟩ := hcases note hnote
    · obtain ⟨-, hvalue, hpool⟩ := spentBy_iff.mp hhit
      obtain rfl := Option.some.inj hid
      exact ⟨n, hn, rfl, hvalue.symm, p, hpool, hcontract⟩
    · exact h.spent note hold id hid
  · obtain ⟨old, hold, ⟨-, rfl⟩ | ⟨hmiss, rfl⟩⟩ := hcases note hnote
    · cases hnone
    · intro m hm hmcontract hvalue hcovered
      rcases hcovered with hcovered | ⟨rfl, hrowid⟩
      · exact h.unspent note hold hnone q hq m hm hmcontract hvalue hcovered
      · obtain rfl := eq_of_rowid hordered hm hn hrowid
        exact hmiss (spentBy_iff.mpr ⟨hnone, hvalue.symm, hq⟩)

theorem NotesOk.foldl_spend (h : NotesOk s covered) (hordered : Table.Ordered s.poolNullifiers)
    (nullifiers : List (Nat × Fr))
    (hrows : ∀ nullifier ∈ nullifiers, ∃ n ∈ s.poolNullifiers,
      s.eventContract? n.columns.id = some p ∧ nullifier = (n.rowid, n.columns.nullifier)) :
    NotesOk (nullifiers.foldl (Storage.spend p) s)
      fun q id => covered q id ∨ (q = p ∧ id ∈ nullifiers.map Prod.fst) := by
  induction nullifiers generalizing s covered with
  | nil => exact h.mono (by simp)
  | cons nullifier nullifiers ih =>
      obtain ⟨n, hn, hcontract, rfl⟩ := hrows nullifier List.mem_cons_self
      have hrest := ih (h.spend hordered hn hcontract) hordered
        fun a ha => hrows a (List.mem_cons_of_mem _ ha)
      refine hrest.mono fun q m _ _ hcovered => ?_
      simp only [List.map_cons, List.mem_cons] at hcovered ⊢
      tauto

theorem SpentOk.settle (hs : SpentOk s) {last : Nat} (h : s.nullifierMark? p = some last)
    (limit : Nat) : SpentOk (s.settle p limit last) := by
  have hmark : ∀ q, (s.settle p limit last).nullifierMark q = _ := nullifierMark_settle h limit
  have hlast : s.nullifierMark p = last := congrArg (Option.getD · 0) h
  have hread : ∀ nullifier ∈ (s.nullifiersAfter p last).take limit, ∃ n ∈ s.poolNullifiers,
      s.eventContract? n.columns.id = some p ∧ nullifier = (n.rowid, n.columns.nullifier) := by
    intro nullifier hnullifier
    obtain ⟨n, hn, hcontract, -, heq⟩ := mem_nullifiersAfter.mp (List.take_subset _ _ hnullifier)
    exact ⟨n, hn, hcontract, heq⟩
  have hnotes := hs.notes.foldl_spend hs.nullifiers.ordered _ hread
  obtain ⟨marks, hframe⟩ := settle_frame s p limit last
  obtain ⟨notes, hfold⟩ := foldl_spend_frame p ((s.nullifiersAfter p last).take limit) s
  have hsettled : NotesOk (s.settle p limit last) fun q id => id ≤ s.nullifierMark q ∨
      (q = p ∧ id ∈ ((s.nullifiersAfter p last).take limit).map Prod.fst) := by
    rw [hframe]
    exact ⟨hnotes.refers, hnotes.spent, hnotes.unspent⟩
  have htables : ∃ notes marks, s.settle p limit last =
      { s with userNotes := notes, nullifierScanState := marks } :=
    ⟨notes, marks, by rw [hframe, hfold]⟩
  have hrows : (s.settle p limit last).poolNullifiers = s.poolNullifiers := by
    obtain ⟨_, _, heq⟩ := htables
    rw [heq]
  have hcontract : ∀ id, (s.settle p limit last).eventContract? id = s.eventContract? id := by
    obtain ⟨_, _, heq⟩ := htables
    rw [heq]
    exact fun _ => rfl
  refine ⟨?_, ?_, fun q => ?_, hsettled.mono fun q n hn hpool hle => ?_⟩
  · obtain ⟨_, _, heq⟩ := htables
    rw [heq]
    exact hs.commitments.congr rfl fun _ hid => hid
  · obtain ⟨_, _, heq⟩ := htables
    rw [heq]
    exact hs.nullifiers.congr rfl fun _ hid => hid
  · rw [hmark, hrows]
    by_cases hq : p = q
    · rw [if_pos hq]
      rcases Table.highWater_mem_or with heq | ⟨a, ha, heq⟩
      · rw [heq, ← hlast]
        exact hs.marks p
      · obtain ⟨n, hn, -, rfl⟩ := hread a ha
        rw [← heq]
        exact Table.rowid_lt_nextRowid hn
    · rw [if_neg hq]
      exact hs.marks q
  · rw [hrows] at hn
    rw [hcontract] at hpool
    rw [hmark] at hle
    by_cases hq : p = q
    · subst hq
      rw [if_pos rfl] at hle
      rw [hlast]
      exact (covered_settle hs.nullifiers.ordered hn hpool hle).imp id fun hmem =>
        ⟨rfl, List.mem_map_of_mem hmem⟩
    · rw [if_neg hq] at hle
      exact .inl hle

/-- Every write keeps the invariant. -/
theorem SpentOk.write {derive : DeriveNoteFn} (hs : SpentOk s) (h : Write derive s s') :
    SpentOk s' := by
  obtain ⟨hcommitments, hnullifiers, hmarks, hnotes⟩ := hs
  have hs : SpentOk s := ⟨hcommitments, hnullifiers, hmarks, hnotes⟩
  have hframe : ∀ {s' : Storage}, s'.userNotes = s.userNotes →
      s'.nullifierScanState = s.nullifierScanState → s'.poolCommitments = s.poolCommitments →
      s'.poolNullifiers = s.poolNullifiers → s'.rawContractEvents = s.rawContractEvents →
      SpentOk s' := by
    intro s' hnotes hstate hcommitments hnullifiers hraw
    have hids : ∀ id ∈ s.rawIds, id ∈ s'.rawIds := by
      unfold Storage.rawIds
      rw [hraw]
      exact fun _ hid => hid
    refine hs.grows ⟨hnotes, hstate, fun id _ => ?_, hcommitments ▸ List.Subset.refl _,
      hnullifiers ▸ List.Subset.refl _, fun n hn => .inl (hnullifiers ▸ hn),
      hnullifiers ▸ Nat.le_refl _⟩ (hs.commitments.congr hcommitments hids)
      (hs.nullifiers.congr hnullifiers hids)
    unfold Storage.eventContract? Storage.rawEvent?
    rw [hraw]
  cases h with
  | event event => exact hs.event event
  | commitment event h => exact hs.commitment h
  | nullifier event h => exact hs.nullifier h
  | publicKey event h => exact hframe rfl rfl rfl rfl rfl
  | leaf event h => exact hframe rfl rfl rfl rfl rfl
  | account address => exact hframe rfl rfl rfl rfl rfl
  | keypair keys => exact hframe rfl rfl rfl rfl rfl
  | scanMarks marks => exact hframe rfl rfl rfl rfl rfl
  | note p account row derived haccount hrow hderive => exact hs.note hrow
  | nullifierScanRow p h =>
      have hmark := nullifierMark_insert s p
      refine ⟨hs.commitments.congr rfl fun _ hid => hid,
        hs.nullifiers.congr rfl fun _ hid => hid, fun q => (hmark q).symm ▸ hs.marks q, ?_⟩
      have hnotes : NotesOk s fun q id => id ≤ Storage.nullifierMark { s with
          nullifierScanState := Table.insert s.nullifierScanState ⟨p, 0⟩ } q :=
        hs.notes.mono fun q n _ _ hle => (hmark q) ▸ hle
      exact ⟨hnotes.refers, hnotes.spent, hnotes.unspent⟩
  | settle p limit last h => exact hs.settle h limit

end Invariant

theorem SpentOk.empty : SpentOk Storage.empty := by
  have hnone : ∀ p, Storage.empty.nullifierMark p = 0 := fun _ => rfl
  refine ⟨⟨Table.ordered_nil, .nil, .nil, ?_⟩, ⟨Table.ordered_nil, .nil, .nil, ?_⟩, fun p => ?_,
    ⟨?_, ?_, ?_⟩⟩
  · intro row hrow
    cases hrow
  · intro row hrow
    cases hrow
  · rw [hnone]
    exact Table.nextRowid_pos
  · intro note hnote
    cases hnote
  · intro note hnote
    cases hnote
  · intro note hnote
    cases hnote

/-! ## Runs -/

/-- A call on the local database. -/
inductive NoteOp
  | saveEvents (events : List ContractEvent)
  | saveCommitments (events : List NewCommitmentEvent)
  | saveNullifiers (events : List NewNullifierEvent)
  | saveKeys (accountAddress : String) (noteKeypair : NoteKeyPair)
      (encryptionKeypair : EncryptionKeyPair) (membershipBlinding : Fr)
  | scan (totalLimit : UInt32)
  | reconcile (limit : UInt32)

namespace NoteOp

/-- The tables that a call leaves, also when it fails. -/
def after (derive : DeriveNoteFn) (s : Storage) : NoteOp → Storage
  | saveEvents events => leaves (saveEventsBatch events) s
  | saveCommitments events => leaves (saveCommitmentEventsBatch events) s
  | saveNullifiers events => leaves (saveNullifierEventsBatch events) s
  | saveKeys address note encryption blinding =>
      leaves (saveEncryptionAndNoteKeypairs address note encryption blinding) s
  | scan totalLimit => leaves (scanCommitmentsForUserNotes totalLimit derive) s
  | reconcile limit => leaves (reconcileNullifiers limit) s

end NoteOp

/-- The tables that a sequence of calls leaves. -/
def noteRun (derive : DeriveNoteFn) (ops : List NoteOp) : Storage :=
  ops.foldl (NoteOp.after derive) Storage.empty

section Run

variable {derive : DeriveNoteFn} {s : Storage}

/-- Every call is a sequence of writes. -/
theorem NoteOp.after_writes (hordered : Table.Ordered s.poolCommitments) (op : NoteOp) :
    Writes derive s (op.after derive s) := by
  cases op with
  | saveEvents events => exact leaves_of_outcome (saveEvents_writes events)
  | saveCommitments events =>
      exact leaves_of_outcome (EventTable.saveBatch_writes (fun _ e h => .commitment e h) events)
  | saveNullifiers events =>
      exact leaves_of_outcome (EventTable.saveBatch_writes (fun _ e h => .nullifier e h) events)
  | saveKeys address note encryption blinding =>
      exact leaves_of_outcome ((saveKeys_outcome derive s address note encryption blinding).imp
        (fun _ _ h => h.writes) fun _ _ h => h.writes)
  | scan totalLimit =>
      exact leaves_of_outcome ((scan_outcome hordered totalLimit).imp
        (fun _ _ h => h.1.writes) fun _ _ h => h.1.writes)
  | reconcile limit =>
      exact leaves_of_outcome ((reconcile_outcome derive s limit).imp
        (fun _ _ h => h.1.writes) fun _ _ h => h.writes)

theorem SpentOk.writes (h : Writes derive Storage.empty s) : SpentOk s :=
  h.keeps (fun _ _ hs hwrite => hs.write hwrite) SpentOk.empty

/-- Every run is a sequence of writes. -/
theorem noteRun_writes (derive : DeriveNoteFn) (ops : List NoteOp) :
    Writes derive Storage.empty (noteRun derive ops) := by
  have hfold : ∀ s, Writes derive Storage.empty s →
      Writes derive Storage.empty (ops.foldl (NoteOp.after derive) s) := by
    induction ops with
    | nil => exact fun s hs => hs
    | cons op ops ih =>
        intro s hs
        have hordered := (SpentOk.writes hs).commitments.ordered
        exact ih _ (hs.trans (NoteOp.after_writes hordered op))
  exact hfold _ .refl

/-- In every state that is reached by saves, scans and reconciliations in any order, with any
limits, accounts and `derive`, a note has a nullifier only if that nullifier spends it; and
once a reconciliation finds nothing to do, a note has a nullifier exactly if one that spends
it has been saved. -/
theorem spentStatus_exact (derive : DeriveNoteFn) (ops : List NoteOp) :
    (∀ note ∈ Table.columns (noteRun derive ops).userNotes, ∀ id, note.nullifierId = some id →
      ∃ n ∈ (noteRun derive ops).poolNullifiers, n.rowid = id ∧
        (noteRun derive ops).Spends n note) ∧
    ∀ limit s', limit ≠ 0 → (reconcileNullifiers limit).run (noteRun derive ops) = .ok false s' →
      ∀ note ∈ Table.columns (noteRun derive ops).userNotes, note.nullifierId.isSome ↔
        ∃ n ∈ (noteRun derive ops).poolNullifiers, (noteRun derive ops).Spends n note := by
  have hs := SpentOk.writes (noteRun_writes derive ops)
  refine ⟨hs.notes.spent, fun limit s' hlimit hrun note hnote => ?_⟩
  constructor
  · intro hsome
    obtain ⟨id, hid⟩ := Option.isSome_iff_exists.mp hsome
    obtain ⟨n, hn, -, hspends⟩ := hs.notes.spent note hnote id hid
    exact ⟨n, hn, hspends⟩
  · intro hspent
    obtain ⟨n, hn, hvalue, p, hpool, hcontract⟩ := hspent
    refine Option.isSome_iff_ne_none.mpr fun hnone => ?_
    have hpast := hs.notes.unspent note hnote hnone p hpool n hn hcontract hvalue
    have hidle := ((reconcile_outcome derive _ limit).ok hrun).2 rfl hlimit
    have hmem : (n.rowid, n.columns.nullifier) ∈ (noteRun derive ops).nullifiersAfter p
        ((noteRun derive ops).nullifierMark p) :=
      mem_nullifiersAfter.mpr ⟨n, hn, hcontract, Nat.lt_of_not_le hpast, rfl⟩
    rw [hidle.2 p] at hmem
    cases hmem

end Run

/-- A `derive` that finds a note in every commitment. -/
def deriveEvery : DeriveNoteFn := fun _ row =>
  .ok (some { amount := 1, blinding := 0, expectedNullifier := row.commitment + 1 })

/-- An output and, saved before the scan, the nullifier that spends it. -/
def spentOutput : List NoteOp :=
  let zero := Bytes32.zero
  [ .saveEvents [⟨"1", 1, "pool", [], ""⟩, ⟨"2", 2, "pool", [], ""⟩],
    .saveCommitments [⟨"1", 7, 0, []⟩],
    .saveNullifiers [⟨"2", 8⟩],
    .saveKeys "account" ⟨zero, zero⟩ ⟨zero, zero⟩ 0,
    .scan 1,
    .reconcile 1 ]

theorem spentStatus_exact_spentOutput :
    ((Table.columns (noteRun deriveEvery spentOutput).userNotes).map UserNote.nullifierId =
      [some 1]) ∧
    ∀ note ∈ Table.columns (noteRun deriveEvery spentOutput).userNotes, note.nullifierId.isSome ↔
      ∃ n ∈ (noteRun deriveEvery spentOutput).poolNullifiers,
        (noteRun deriveEvery spentOutput).Spends n note := by
  refine ⟨by decide +kernel, ?_⟩
  have hidle : (reconcileNullifiers 1).run' (noteRun deriveEvery spentOutput) = some false := by
    decide +kernel
  unfold EStateM.run' at hidle
  cases hrun : (reconcileNullifiers 1).run (noteRun deriveEvery spentOutput) with
  | ok didAny s' =>
      rw [hrun] at hidle
      obtain rfl := Option.some.inj hidle
      exact (spentStatus_exact deriveEvery spentOutput).2 1 s' (by decide) hrun
  | error e s' =>
      rw [hrun] at hidle
      cases hidle

end PrivatePayments.State
