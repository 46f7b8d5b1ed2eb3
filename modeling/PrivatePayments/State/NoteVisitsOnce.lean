import PrivatePayments.State.NoteVisitsSound

/-!
# PrivatePayments.State.NoteVisitsOnce

The scan over whole runs of the store: batches of every kind are saved, accounts and keys are
added, nullifiers reconciled and commitments scanned, in any order and with any limits.

The invariant (`ScanOk`) says of every pool and account that what was passed to `derive`,
followed by what lies past the mark, are the commitments of the pool in the order of their
numbers. A new commitment has a number past every mark, so it only extends what is left; a
scan only moves commitments from the one part to the other.
-/

namespace PrivatePayments.State

/-! ## What the scan reads -/

/-- The commitments that the scan reads: each refers to a raw event, and the numbers grow. -/
structure Fed (s : Storage) : Prop where
  linked : s.Linked
  ordered : Table.Ordered s.poolCommitments
  sources : ∀ c ∈ Table.columns s.poolCommitments, c.id ∈ s.rawIds
  numbers : ∀ c ∈ s.poolCommitments, 0 < c.rowid

/-- A change of the tables that only appends commitments and leaves the marks. -/
structure Feeds (s s' : Storage) : Prop where
  marks : s'.accountCommitmentScan = s.accountCommitmentScan
  commitments : s.poolCommitments <+: s'.poolCommitments
  contracts : ∀ id ∈ s.rawIds, s'.eventContract? id = s.eventContract? id
  raw : s.rawIds ⊆ s'.rawIds

/-- A change of the other tables. -/
structure Untouched (s s' : Storage) : Prop where
  contracts : s'.contracts = s.contracts
  rawContractEvents : s'.rawContractEvents = s.rawContractEvents
  poolCommitments : s'.poolCommitments = s.poolCommitments
  marks : s'.accountCommitmentScan = s.accountCommitmentScan

section Feeding

variable {s s' s'' : Storage} {p : Nat}

theorem Untouched.refl (s : Storage) : Untouched s s := ⟨rfl, rfl, rfl, rfl⟩

theorem Untouched.trans (h : Untouched s s') (h' : Untouched s' s'') : Untouched s s'' :=
  ⟨h'.contracts.trans h.contracts, h'.rawContractEvents.trans h.rawContractEvents,
    h'.poolCommitments.trans h.poolCommitments, h'.marks.trans h.marks⟩

theorem Feeds.refl (s : Storage) : Feeds s s :=
  ⟨rfl, List.prefix_refl _, fun _ _ => rfl, List.Subset.refl _⟩

theorem Feeds.trans (h : Feeds s s') (h' : Feeds s' s'') : Feeds s s'' :=
  ⟨h'.marks.trans h.marks, h.commitments.trans h'.commitments,
    fun id hid => (h'.contracts id (h.raw hid)).trans (h.contracts id hid),
    List.Subset.trans h.raw h'.raw⟩

theorem Untouched.feeds (h : Untouched s s') : Feeds s s' := by
  have hcontract : ∀ id, s'.eventContract? id = s.eventContract? id := fun id => by
    unfold Storage.eventContract? Storage.rawEvent?
    rw [h.rawContractEvents]
  refine ⟨h.marks, by rw [h.poolCommitments], fun id _ => hcontract id, ?_⟩
  unfold Storage.rawIds
  rw [h.rawContractEvents]
  exact List.Subset.refl _

theorem Fed.untouched (hs : Fed s) (h : Untouched s s') : Fed s' := by
  obtain ⟨⟨hcontracts, hids, haddresses⟩, hordered, hsources, hnumbers⟩ := hs
  unfold Storage.rawIds at hids hsources
  unfold Storage.contractAddress? at haddresses
  rw [← h.contracts] at hcontracts haddresses
  rw [← h.rawContractEvents] at hids hsources haddresses
  rw [← h.poolCommitments] at hordered hsources hnumbers
  exact ⟨⟨hcontracts, hids, haddresses⟩, hordered, hsources, hnumbers⟩

theorem Fed.empty : Fed Storage.empty :=
  ⟨Storage.linked_empty, Table.ordered_nil, by simp [Storage.empty], by simp [Storage.empty]⟩

/-- Without sorting: the numbers grow in the order of insertion. -/
theorem poolRows_eq (h : Table.Ordered s.poolCommitments) (p : Nat) :
    s.poolRows p =
      (s.poolCommitments.filter fun c => s.eventContract? c.columns.id = some p).map
        fun c => ⟨c.rowid, c.columns.commitment, c.columns.index, c.columns.encryptedOutput⟩ :=
  Table.orderBy_eq_of_perm (List.Perm.refl _) (List.pairwise_map.mpr (h.filter _))

/-- The new commitments of a pool come after the old ones. -/
theorem Feeds.poolRows (h : Feeds s s') (hs : Fed s) (hs' : Fed s') (p : Nat) :
    ∃ new, s'.poolRows p = s.poolRows p ++ new ∧
      ∀ row ∈ new, 0 < row.commitmentId ∧ ∀ old ∈ s.poolRows p,
        old.commitmentId < row.commitmentId := by
  obtain ⟨new, hnew⟩ := h.commitments
  have hold : s.poolCommitments.filter (fun c => s'.eventContract? c.columns.id = some p) =
      s.poolCommitments.filter fun c => s.eventContract? c.columns.id = some p := by
    refine List.filter_congr fun c hc => ?_
    rw [h.contracts _ (hs.sources _ (Table.mem_columns hc))]
  have hordered : Table.Ordered (s.poolCommitments ++ new) := hnew ▸ hs'.ordered
  refine ⟨(new.filter fun c => s'.eventContract? c.columns.id = some p).map
    fun c => ⟨c.rowid, c.columns.commitment, c.columns.index, c.columns.encryptedOutput⟩, ?_, ?_⟩
  · rw [poolRows_eq hs'.ordered, poolRows_eq hs.ordered, ← hnew, List.filter_append,
      List.map_append, hold]
  · intro row hrow
    obtain ⟨c, hc, rfl⟩ := List.mem_map.mp hrow
    have hmem : c ∈ new := (List.mem_filter.mp hc).1
    refine ⟨hs'.numbers c (hnew ▸ List.mem_append_right _ hmem), fun old hmemOld => ?_⟩
    obtain ⟨c', hc', -, rfl⟩ := mem_poolRows.mp hmemOld
    exact (List.pairwise_append.mp hordered).2.2 c' hc' c hmem

end Feeding

/-! ## Calls of the store -/

/-- A call of a method of the store that writes. -/
inductive StoreCall
  | saveEvents (events : List ContractEvent)
  | saveNullifierEvents (events : List NewNullifierEvent)
  | saveCommitmentEvents (events : List NewCommitmentEvent)
  | savePublicKeyEvents (events : List PublicKeyEvent)
  | saveLeafAddedEvents (events : List LeafAddedEvent)
  | createAccount (address : String)
  | saveKeys (accountAddress : String) (noteKeypair : NoteKeyPair)
      (encryptionKeypair : EncryptionKeyPair) (membershipBlinding : Fr)
  | scan (totalLimit : UInt32) (derive : DeriveNoteFnMut)
  | reconcile (limit : UInt32)

namespace StoreCall

/-- The method that is called; a scan goes on with the calls of `derive` so far. -/
def body : StoreCall → ScanDb Unit
  | saveEvents events => Recording.onState (saveEventsBatch events)
  | saveNullifierEvents events => Recording.onState (saveNullifierEventsBatch events)
  | saveCommitmentEvents events => Recording.onState (saveCommitmentEventsBatch events)
  | savePublicKeyEvents events => Recording.onState (savePublicKeyEventsBatch events)
  | saveLeafAddedEvents events => Recording.onState (saveLeafAddedEventsBatch events)
  | createAccount address => Recording.onState do
      let _ ← getOrCreateAccount address
      pure ()
  | saveKeys address note encryption blinding =>
      Recording.onState (saveEncryptionAndNoteKeypairs address note encryption blinding)
  | scan totalLimit derive => do
      let _ ← scanCommitmentsForUserNotesRecorded totalLimit derive
      pure ()
  | reconcile limit => Recording.onState do
      let _ ← reconcileNullifiers limit
      pure ()

/-- The `derive` of a scan always returns `Ok`. -/
def DeriveOk : StoreCall → Prop
  | scan _ derive => ReturnsOk derive
  | _ => True

end StoreCall

/-- The tables and the calls of `derive` after a sequence of calls, from the empty store. -/
def storeRun (calls : List StoreCall) : Storage × List DeriveCall :=
  calls.foldl (fun t call => Outcome.final call.body t) (Storage.empty, [])

section Calls

variable {s : Storage} {P : Storage → Prop}

/-- A method that works on the tables leaves the record as it is. -/
theorem onState_final {α : Type} {x : Db α} {t : Storage × List DeriveCall}
    (h : Outcome x t.1 (fun _ => P) (fun _ => P)) :
    P (Outcome.final (Recording.onState x) t).1 ∧
      (Outcome.final (Recording.onState x) t).2 = t.2 := by
  unfold Outcome at h
  unfold Outcome.final
  rw [Recording.run_onState]
  cases hrun : x.run t.1 with
  | ok a s' =>
      rw [hrun] at h
      exact ⟨h, rfl⟩
  | error e s' =>
      rw [hrun] at h
      exact ⟨h, rfl⟩

/-- A scan in a run leaves the tables that the scan leaves. -/
theorem final_scan_fst (totalLimit : UInt32) (derive : DeriveNoteFn)
    (t : Storage × List DeriveCall) :
    (Outcome.final (StoreCall.scan totalLimit fun _ => derive).body t).1 =
      leaves (scanCommitmentsForUserNotes totalLimit derive) t.1 := by
  obtain ⟨calls, hrun⟩ := scanCommitmentsForUserNotesRecorded_forgets derive totalLimit t.1 t.2
  unfold Outcome.final leaves StoreCall.body
  rw [EStateM.run_bind, hrun]
  cases (scanCommitmentsForUserNotes totalLimit derive).run t.1 with
  | ok progressed s' => rfl
  | error e s' => rfl

/-- What a method that ignores the value of `x` leaves. -/
theorem ignore_outcome {α : Type} {x : Db α} (h : Outcome x s (fun _ => P) (fun _ => P)) :
    Outcome (do let _ ← x; pure ()) s (fun _ => P) (fun _ => P) :=
  Outcome.bind h fun _ _ hs => .pure hs

theorem Feeds.addEvent (hs : Fed s) (event : ContractEvent) :
    Feeds s (s.addEvent event) ∧ Fed (s.addEvent event) := by
  have hframe : (s.addEvent event).accountCommitmentScan = s.accountCommitmentScan ∧
      (s.addEvent event).poolCommitments = s.poolCommitments := by
    unfold Storage.addEvent Storage.withContract
    split <;> exact ⟨rfl, rfl⟩
  have hraw : s.rawIds ⊆ (s.addEvent event).rawIds := by
    show _ ⊆ (Table.columns (Table.insertNew _ s.rawContractEvents _)).map _
    rw [Table.columns_insertNew]
    exact List.map_subset _ Table.prefix_addNew.subset
  refine ⟨⟨hframe.1, by rw [hframe.2], fun id hid => eventContract?_addEvent event hid, hraw⟩,
    hs.linked.addEvent event, ?_, ?_, ?_⟩
  · rw [hframe.2]
    exact hs.ordered
  · rw [hframe.2]
    exact fun c hc => hraw (hs.sources c hc)
  · rw [hframe.2]
    exact hs.numbers

/-- A batch of raw events. -/
theorem saveEvents_feeds (hs : Fed s) (events : List ContractEvent) :
    Outcome (saveEventsBatch events) s (fun _ s' => Feeds s s' ∧ Fed s')
      fun _ s' => Feeds s s' ∧ Fed s' := by
  refine (Outcome.of_ok (saveEventsBatch_run events s)).mpr ?_
  induction events generalizing s with
  | nil => exact ⟨.refl s, hs⟩
  | cons event events ih =>
      obtain ⟨hfeeds, hfed⟩ := Feeds.addEvent hs event
      obtain ⟨hfeeds', hfed'⟩ := ih hfed
      exact ⟨hfeeds.trans hfeeds', hfed'⟩

/-- A batch of commitments. -/
theorem saveCommitmentEvents_feeds (hs : Fed s) (events : List NewCommitmentEvent) :
    Outcome (saveCommitmentEventsBatch events) s (fun _ s' => Feeds s s' ∧ Fed s')
      fun _ s' => Feeds s s' ∧ Fed s' := by
  refine EventTable.saveBatch_keeps (P := fun s' => Feeds s s' ∧ Fed s')
    (fun s₁ event hs₁ haccepts => ?_) events ⟨.refl s, hs⟩
  obtain ⟨hfeeds, hlinked, hordered, hsources, hnumbers⟩ := hs₁
  refine ⟨hfeeds.trans ⟨rfl, List.prefix_append _ _, fun _ _ => rfl, List.Subset.refl _⟩,
    ⟨hlinked.contracts, hlinked.ids, hlinked.addresses⟩, hordered.insert, ?_, ?_⟩
  · show ∀ c ∈ Table.columns (Table.insert s₁.poolCommitments event), c.id ∈ s₁.rawIds
    intro c hc
    rcases List.mem_append.mp (Table.columns_insert ▸ hc) with hold | hnew
    · exact hsources c hold
    · obtain rfl := List.mem_singleton.mp hnew
      exact haccepts.raw
  · show ∀ c ∈ Table.insert s₁.poolCommitments event, 0 < c.rowid
    intro c hc
    rcases List.mem_append.mp hc with hold | hnew
    · exact hnumbers c hold
    · obtain rfl := List.mem_singleton.mp hnew
      exact Table.nextRowid_pos

theorem createAccount_untouched (s : Storage) (address : String) :
    Outcome (getOrCreateAccount address) s (fun _ => Untouched s) (fun _ => Untouched s) := by
  unfold getOrCreateAccount
  refine Outcome.bind (.modify (Q := fun _ => Untouched s) ⟨rfl, rfl, rfl, rfl⟩)
    fun _ s₁ hs₁ => Outcome.get_bind ?_
  split
  · exact .pure hs₁
  · exact .throw hs₁

theorem saveKeys_untouched (s : Storage) (address : String) (note : NoteKeyPair)
    (encryption : EncryptionKeyPair) (blinding : Fr) :
    Outcome (saveEncryptionAndNoteKeypairs address note encryption blinding) s
      (fun _ => Untouched s) (fun _ => Untouched s) := by
  refine outcome_transaction ((Outcome.bind (createAccount_untouched s address)
    fun _ s₁ hs₁ => ?_).imp (fun _ _ h => h) fun _ _ _ => .refl s)
  exact .modify (hs₁.trans ⟨rfl, rfl, rfl, rfl⟩)

/-- The reconciliation of a pool writes to the notes and its own marks. -/
theorem reconcilePool_untouched (s : Storage) (limit poolContractId : Nat) :
    Outcome (reconcilePool limit poolContractId) s (fun _ => Untouched s)
      (fun _ => Untouched s) := by
  refine outcome_transaction (E := fun _ => Untouched s) ?_
  have hinsert : Outcome (insertNullifierScanRow poolContractId) s (fun _ => Untouched s)
      (fun _ _ => Untouched s s) := by
    unfold insertNullifierScanRow
    refine Outcome.get_bind (Outcome.ite (fun _ => .pure (.refl s)) fun _ => ?_)
    exact Outcome.ite (fun _ => .throw (.refl s)) fun _ => .set ⟨rfl, rfl, rfl, rfl⟩
  refine Outcome.bind hinsert fun _ s₁ hs₁ => Outcome.get_bind ?_
  cases s₁.nullifierMark? poolContractId with
  | none => exact .throw (.refl s)
  | some last =>
      refine Outcome.bind ((markSpents_outcome _).imp (fun _ _ h => h) fun _ _ _ => .refl s)
        fun _ s₂ hs₂ => ?_
      obtain ⟨notes, hframe⟩ := foldl_spend_frame poolContractId
        ((s₁.nullifiersAfter poolContractId last).take limit) s₁
      have hspent : Untouched s s₂ := by
        rw [hs₂, hframe]
        exact hs₁.trans ⟨rfl, rfl, rfl, rfl⟩
      refine Outcome.ite (fun _ => ?_) fun _ => .pure hspent
      exact Outcome.bind (Q := fun _ => Untouched s)
        (.modify (hspent.trans ⟨rfl, rfl, rfl, rfl⟩)) fun _ _ h => .pure h

theorem reconcile_untouched (s : Storage) (limit : UInt32) :
    Outcome (reconcileNullifiers limit) s (fun _ => Untouched s) (fun _ => Untouched s) := by
  have hpools : ∀ pools s₁, Untouched s s₁ → Outcome (reconcilePools limit.toNat pools) s₁
      (fun _ => Untouched s) (fun _ => Untouched s) := by
    intro pools
    induction pools with
    | nil => exact fun s₁ hs₁ => .pure hs₁
    | cons pool pools ih =>
        intro s₁ hs₁
        have hfirst := (reconcilePool_untouched s₁ limit.toNat pool).imp
          (fun _ _ h => hs₁.trans h) fun _ _ h => hs₁.trans h
        refine Outcome.bind hfirst fun _ s₂ hs₂ => ?_
        exact Outcome.bind (ih s₂ hs₂) fun _ _ h => .pure h
  unfold reconcileNullifiers
  exact Outcome.get_bind (Outcome.ite (fun _ => .pure (.refl s)) fun _ => hpools _ s (.refl s))

end Calls

/-! ## The invariant -/

/-- The invariant of a run: marks are numbers of commitments and only in pools that one scan
could count, and of every pool an account was offered what is not left. -/
structure ScanOk (t : Storage × List DeriveCall) : Prop where
  fed : Fed t.1
  marks : ∀ p a, t.1.scanMark p a = 0 ∨
    ∃ row ∈ t.1.poolRows p, row.commitmentId = t.1.scanMark p a
  few : ∃ pools : List Nat, pools.length < UInt32.size ∧ ∀ p a, t.1.scanMark p a ≠ 0 → p ∈ pools
  offered : ∀ p a, visited t.2 p a ++ t.1.unscanned p a = t.1.poolRows p

section Invariant

variable {t t' : Storage × List DeriveCall}

theorem ScanOk.empty : ScanOk (Storage.empty, []) :=
  ⟨.empty, fun _ _ => .inl rfl, ⟨[], by decide, fun _ _ h => absurd rfl h⟩, fun _ _ => rfl⟩

/-- New commitments are left for every account. -/
theorem ScanOk.feeds (ht : ScanOk t) (h : Feeds t.1 t'.1) (hfed : Fed t'.1)
    (hcalls : t'.2 = t.2) : ScanOk t' := by
  have hmark : ∀ p a, t'.1.scanMark p a = t.1.scanMark p a := fun p a => by
    unfold Storage.scanMark Storage.scanMark?
    rw [h.marks]
  refine ⟨hfed, fun p a => ?_, ?_, fun p a => ?_⟩
  · obtain ⟨new, hnew, -⟩ := h.poolRows ht.fed hfed p
    rw [hmark, hnew]
    rcases ht.marks p a with hzero | ⟨row, hrow, hid⟩
    · exact .inl hzero
    · exact .inr ⟨row, List.mem_append_left _ hrow, hid⟩
  · obtain ⟨pools, hlength, hpools⟩ := ht.few
    exact ⟨pools, hlength, fun p a hne => hpools p a (hmark p a ▸ hne)⟩
  · obtain ⟨new, hnew, hlater⟩ := h.poolRows ht.fed hfed p
    have hpast : ∀ row ∈ new, t.1.scanMark p a < row.commitmentId := by
      intro row hrow
      rcases ht.marks p a with hzero | ⟨old, hold, hid⟩
      · rw [hzero]
        exact (hlater row hrow).1
      · rw [← hid]
        exact (hlater row hrow).2 old hold
    have hleft : t'.1.unscanned p a = t.1.unscanned p a ++ new := by
      unfold Storage.unscanned Storage.commitmentsAfter
      rw [hmark, hnew, List.filter_append, List.filter_eq_self.mpr fun row hrow =>
        decide_eq_true (hpast row hrow)]
    rw [hcalls, hleft, ← List.append_assoc, ht.offered, hnew]

/-- A scan offers what is left, in order. -/
theorem ScanOk.scan {made : List DeriveCall} (ht : ScanOk t) (h : VisitRun t t' made)
    (hfew : made ≠ [] → t.1.commitmentPools.length < UInt32.size) : ScanOk t' := by
  have hmarks : ∀ p a, t'.1.scanMark p a = 0 ∨
      ∃ row ∈ t.1.poolRows p, row.commitmentId = t'.1.scanMark p a := by
    intro p a
    rcases h.marks p a with hsame | ⟨row, hrow, hid⟩
    · rw [hsame]
      exact ht.marks p a
    · exact .inr ⟨row, (mem_unscanned.mp (h.visited_subset p a hrow)).1, hid⟩
  refine ⟨?_, fun p a => h.poolRows p ▸ hmarks p a, ?_, fun p a => ?_⟩
  · obtain ⟨notes, marks, hframe⟩ := h.frame
    obtain ⟨hlinked, hordered, hsources, hnumbers⟩ := ht.fed
    rw [hframe]
    exact ⟨⟨hlinked.contracts, hlinked.ids, hlinked.addresses⟩, hordered, hsources, hnumbers⟩
  · by_cases hmade : made = []
    · subst hmade
      obtain ⟨pools, hlength, hpools⟩ := ht.few
      refine ⟨pools, hlength, fun p a hne => ?_⟩
      rcases h.marks p a with hsame | ⟨row, hrow, -⟩
      · exact hpools p a (hsame ▸ hne)
      · cases hrow
    · refine ⟨t.1.commitmentPools, hfew hmade, fun p a hne => ?_⟩
      obtain ⟨row, hrow, -⟩ := (hmarks p a).resolve_left hne
      exact mem_commitmentPools.mpr ⟨row, hrow⟩
  · rw [h.calls, visited_append, List.append_assoc, h.advance, ht.offered, h.poolRows]

/-- Methods that leave what the scan reads and its marks. -/
theorem ScanOk.untouched (ht : ScanOk t) {α : Type} {x : Db α}
    (h : Outcome x t.1 (fun _ => Untouched t.1) (fun _ => Untouched t.1)) :
    ScanOk (Outcome.final (Recording.onState x) t) := by
  obtain ⟨huntouched, hcalls⟩ := onState_final h
  exact ht.feeds huntouched.feeds (ht.fed.untouched huntouched) hcalls

/-- Every call keeps the invariant. -/
theorem ScanOk.after (ht : ScanOk t) {call : StoreCall} (hcall : call.DeriveOk) :
    ScanOk (Outcome.final call.body t) := by
  cases call with
  | saveEvents events =>
      obtain ⟨⟨hfeeds, hfed⟩, hcalls⟩ := onState_final (saveEvents_feeds ht.fed events)
      exact ht.feeds hfeeds hfed hcalls
  | saveCommitmentEvents events =>
      obtain ⟨⟨hfeeds, hfed⟩, hcalls⟩ := onState_final (saveCommitmentEvents_feeds ht.fed events)
      exact ht.feeds hfeeds hfed hcalls
  | saveNullifierEvents events =>
      exact ht.untouched (EventTable.saveBatch_keeps
        (fun _ _ hs _ => hs.trans ⟨rfl, rfl, rfl, rfl⟩) events (.refl t.1))
  | savePublicKeyEvents events =>
      exact ht.untouched (EventTable.saveBatch_keeps
        (fun _ _ hs _ => hs.trans ⟨rfl, rfl, rfl, rfl⟩) events (.refl t.1))
  | saveLeafAddedEvents events =>
      exact ht.untouched (EventTable.saveBatch_keeps
        (fun _ _ hs _ => hs.trans ⟨rfl, rfl, rfl, rfl⟩) events (.refl t.1))
  | createAccount address =>
      exact ht.untouched (ignore_outcome (createAccount_untouched t.1 address))
  | saveKeys address note encryption blinding =>
      exact ht.untouched (saveKeys_untouched t.1 address note encryption blinding)
  | scan totalLimit derive =>
      have hscan := scanRecorded_outcome hcall ht.fed.linked ht.fed.ordered totalLimit
      have hkeeps : Outcome (scanCommitmentsForUserNotesRecorded totalLimit derive) t
          (fun _ => ScanOk) fun _ => ScanOk := by
        refine hscan.imp (fun _ t' ht' => ?_) fun _ t' ht' => ht'.1 ▸ ht
        obtain ⟨made, hrun, -, -, -, hfew⟩ := ht'
        exact ht.scan hrun hfew
      exact Outcome.of_final (Outcome.bind hkeeps fun _ _ ht' => .pure ht')
  | reconcile limit =>
      exact ht.untouched (ignore_outcome (reconcile_untouched t.1 limit))

/-- Every run keeps the invariant. -/
theorem ScanOk.run {calls : List StoreCall} (hcalls : ∀ call ∈ calls, call.DeriveOk) :
    ScanOk (storeRun calls) := by
  have hfold : ∀ t, ScanOk t →
      ScanOk (calls.foldl (fun t call => Outcome.final call.body t) t) := by
    induction calls with
    | nil => exact fun t ht => ht
    | cons call calls ih =>
        intro t ht
        exact ih (fun c hc => hcalls c (List.mem_cons_of_mem call hc)) _
          (ht.after (hcalls call List.mem_cons_self))
  exact hfold _ .empty

/-- What was not passed to `derive` is what lies past the mark. -/
theorem ScanOk.unscanned_iff (ht : ScanOk t) {p a : Nat} {row : PoolCommitmentRow} :
    row ∈ t.1.unscanned p a ↔ row ∈ t.1.poolRows p ∧ row ∉ visited t.2 p a := by
  have hsorted : (t.1.poolRows p).Pairwise _ := poolRows_pairwise ht.fed.ordered
  rw [← ht.offered p a, List.pairwise_append] at hsorted
  rw [← ht.offered p a, List.mem_append]
  constructor
  · intro hrow
    exact ⟨.inr hrow, fun hvisited => Nat.lt_irrefl _ (hsorted.2.2 row hvisited row hrow)⟩
  · intro h
    exact h.1.resolve_left h.2

/-- With too many pools to count there is one that no account was offered anything of. -/
theorem ScanOk.exists_unscanned (ht : ScanOk t)
    (hmany : UInt32.size ≤ t.1.commitmentPools.length) (a : Nat) :
    ∃ p row, row ∈ t.1.unscanned p a := by
  obtain ⟨pools, hlength, hpools⟩ := ht.few
  have hnodup : t.1.commitmentPools.Nodup :=
    Table.orderBy_perm.nodup_iff.mpr (List.nodup_dedup _)
  have hnew : ∃ p ∈ t.1.commitmentPools, p ∉ pools := by
    by_contra hnone
    have hsubset : t.1.commitmentPools ⊆ pools := fun p hp => by
      by_contra hnot
      exact hnone ⟨p, hp, hnot⟩
    exact absurd (hnodup.subperm hsubset).length_le (by omega)
  obtain ⟨p, hp, hnot⟩ := hnew
  obtain ⟨row, hrow⟩ := mem_commitmentPools.mp hp
  have hzero : t.1.scanMark p a = 0 := by
    by_contra hne
    exact hnot (hpools p a hne)
  obtain ⟨c, hc, -, rfl⟩ := mem_poolRows.mp hrow
  exact ⟨p, _, mem_unscanned.mpr ⟨hrow, hzero ▸ ht.fed.numbers c hc⟩⟩

/-- A scan returns `false` exactly when nothing is left. -/
theorem ScanOk.scan_false_iff (ht : ScanOk t) {derive : DeriveNoteFnMut}
    (hderive : ReturnsOk derive) {totalLimit : UInt32} (hlimit : totalLimit ≠ 0) :
    (∃ t', (scanCommitmentsForUserNotesRecorded totalLimit derive).run t = .ok false t') ↔
      ∀ account ∈ getAccountsWithLatestKeypairs t.1, ∀ p,
        t.1.unscanned p account.accountId = [] := by
  have hscan := scanRecorded_outcome hderive ht.fed.linked ht.fed.ordered totalLimit
  cases hrun : (scanCommitmentsForUserNotesRecorded totalLimit derive).run t with
  | ok progressed t' =>
      obtain ⟨made, hvisit, -, hprogress, hnone, -⟩ := hscan.ok hrun
      by_cases hmade : made = []
      · have hfalse : progressed = false := by simp [hprogress, hmade]
        refine ⟨fun _ account haccount p => hnone hmade hlimit p account haccount, fun _ => ?_⟩
        exact ⟨t', hfalse ▸ rfl⟩
      · have htrue : progressed = true := by simp [hprogress, hmade]
        refine ⟨fun h => ?_, fun hleft => ?_⟩
        · obtain ⟨_, h⟩ := h
          rw [htrue] at h
          cases h
        · obtain ⟨call, hcall⟩ := List.exists_mem_of_ne_nil made hmade
          have hoffered := hvisit.visited_subset _ _ (mem_visited_of_mem hcall)
          rw [hleft call.account (hvisit.accounts call hcall)] at hoffered
          cases hoffered
  | error e t' =>
      obtain ⟨-, hmany, haccounts⟩ := (Outcome.of_error hrun).mp hscan
      refine ⟨fun h => ?_, fun hleft => ?_⟩
      · obtain ⟨_, h⟩ := h
        cases h
      · obtain ⟨account, haccount⟩ := List.exists_mem_of_ne_nil _ haccounts
        obtain ⟨p, row, hrow⟩ := ht.exists_unscanned hmany account.accountId
        rw [hleft account haccount] at hrow
        cases hrow

end Invariant

/-! ## Every commitment once -/

/-- After every run of the store and for every pool and account, the commitments that were
passed to `derive` over all scans have increasing numbers and are the first of the pool. The
next scan makes at most as many calls as its limit, or as there are pools, and returns `false`
exactly when there is no account, or every account was offered every commitment of every
pool. -/
theorem scan_visits_once (calls : List StoreCall) (hcalls : ∀ call ∈ calls, call.DeriveOk)
    {derive : DeriveNoteFnMut} (hderive : ReturnsOk derive) (totalLimit : UInt32) :
    (∀ p a, ((visited (storeRun calls).2 p a).Pairwise
        fun row row' => row.commitmentId < row'.commitmentId) ∧
      visited (storeRun calls).2 p a <+: (storeRun calls).1.poolRows p) ∧
    (∃ made, (Outcome.final (scanCommitmentsForUserNotesRecorded totalLimit derive)
        (storeRun calls)).2 = (storeRun calls).2 ++ made ∧
      made.length ≤ max totalLimit.toNat (storeRun calls).1.commitmentPools.length) ∧
    (1 ≤ totalLimit.toNat →
      ((∃ t', (scanCommitmentsForUserNotesRecorded totalLimit derive).run (storeRun calls) =
          .ok false t') ↔
        getAccountsWithLatestKeypairs (storeRun calls).1 = [] ∨
          ¬ ∃ account ∈ getAccountsWithLatestKeypairs (storeRun calls).1, ∃ p,
            ∃ row ∈ (storeRun calls).1.poolRows p,
              row ∉ visited (storeRun calls).2 p account.accountId)) := by
  have ht := ScanOk.run hcalls
  generalize storeRun calls = t at ht ⊢
  refine ⟨fun p a => ?_, ?_, fun hlimit => ?_⟩
  · have hprefix : visited t.2 p a <+: t.1.poolRows p := ⟨_, ht.offered p a⟩
    exact ⟨(poolRows_pairwise ht.fed.ordered).sublist hprefix.sublist, hprefix⟩
  · have hscan := scanRecorded_outcome hderive ht.fed.linked ht.fed.ordered totalLimit
    refine Outcome.of_final (P := fun t' => ∃ made, t'.2 = t.2 ++ made ∧
      made.length ≤ max totalLimit.toNat t.1.commitmentPools.length)
      (hscan.imp (fun _ t' ht' => ?_) fun _ t' ht' => ⟨[], by simp [ht'.1], Nat.zero_le _⟩)
    obtain ⟨made, hrun, hlength, -⟩ := ht'
    exact ⟨made, hrun.calls, hlength⟩
  · have hne : totalLimit ≠ 0 := by
      intro hzero
      rw [hzero] at hlimit
      exact absurd hlimit (by decide)
    rw [ht.scan_false_iff hderive hne]
    constructor
    · intro hleft
      refine .inr fun hsome => ?_
      obtain ⟨account, haccount, p, row, hrow⟩ := hsome
      have hmem := ht.unscanned_iff.mpr hrow
      rw [hleft account haccount] at hmem
      cases hmem
    · intro hnone account haccount p
      rcases hnone with hempty | hnone
      · rw [hempty] at haccount
        cases haccount
      · refine List.eq_nil_iff_forall_not_mem.mpr fun row hrow => hnone ?_
        exact ⟨account, haccount, p, row, ht.unscanned_iff.mp hrow⟩

/-- Two pools with three commitments, and a second account after the first scan. -/
def twoPoolCalls : List StoreCall :=
  let key := Bytes32.zero
  [.saveEvents [⟨"1", 1, "A", [], ""⟩, ⟨"2", 1, "B", [], ""⟩, ⟨"3", 2, "A", [], ""⟩],
    .saveKeys "G" ⟨key, key⟩ ⟨key, key⟩ 0,
    .saveCommitmentEvents [⟨"1", 5, 0, []⟩, ⟨"2", 6, 0, []⟩],
    .scan 1 fun _ _ _ => .ok none,
    .saveKeys "H" ⟨key, key⟩ ⟨key, key⟩ 0,
    .saveCommitmentEvents [⟨"3", 7, 1, []⟩],
    .scan 3 fun _ _ _ => .ok none]

theorem scan_visits_once_two_pools :
    (((visited (storeRun twoPoolCalls).2 1 1).map PoolCommitmentRow.commitmentId = [1, 3] ∧
      (visited (storeRun twoPoolCalls).2 2 1).map PoolCommitmentRow.commitmentId = [2]) ∧
      (visited (storeRun twoPoolCalls).2 1 2).map PoolCommitmentRow.commitmentId = [1] ∧
      (visited (storeRun twoPoolCalls).2 2 2).map PoolCommitmentRow.commitmentId = [2]) ∧
    visited (storeRun twoPoolCalls).2 1 2 <+: (storeRun twoPoolCalls).1.poolRows 1 :=
  ⟨by decide +kernel,
    ((@scan_visits_once twoPoolCalls (by simp [twoPoolCalls, StoreCall.DeriveOk, ReturnsOk])
      (fun _ _ _ => .ok none) (fun _ _ _ => ⟨none, rfl⟩) 1).1 1 2).2⟩

end PrivatePayments.State
