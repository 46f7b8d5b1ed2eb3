import PrivatePayments.State.ClientRun

/-!
# PrivatePayments.State.NotesComplete

Every note that the scan has passed is stored.

The scan of a pool goes by turns: an account is offered some commitments, `derive` is called
for each, what it returns is stored, and then the mark of the account moves past them. So the
invariant (`NotesComplete`) is that a commitment behind the mark of an account that `derive`
finds a note in has a row in `user_notes`; the only other case is a note that was spent before
it was found and has the nullifier of another note. It needs that the key rows of an account
are equal, since the mark does not say with which keys a commitment was tried.
-/

namespace PrivatePayments.State

/-! ## What every turn of the scan keeps -/

/-- A property of the tables that the scan keeps: it is kept by a new mark and by a turn. -/
structure KeptByScan (derive : DeriveNoteFn) (P : Storage → Prop) : Prop where
  ordered : ∀ s, P s → Table.Ordered s.poolCommitments
  mark : ∀ s poolContractId accountId, P s → P { s with
    accountCommitmentScan := Table.insert s.accountCommitmentScan ⟨poolContractId, accountId, 0⟩ }
  turn : ∀ s poolContractId account poolQuota, P s →
    account ∈ getAccountsWithLatestKeypairs s →
    (s.scanMark? poolContractId account.accountId).isSome →
    Outcome (scanAccount derive poolContractId account poolQuota) s (fun _ => P) fun _ _ => True

section KeptByScan

variable {derive : DeriveNoteFn} {P : Storage → Prop} {s : Storage} {poolContractId : Nat}
  {accounts : List AccountKeys}

theorem KeptByScan.rows (h : KeptByScan derive P) (hs : P s) :
    Outcome (forM accounts (insertScanRow poolContractId)) s (fun _ => P) fun _ _ => True := by
  refine Outcome.forM (I := fun _ => P) (fun account _ s₁ hs₁ => ?_) accounts s hs
  unfold insertScanRow
  refine Outcome.get_bind (Outcome.ite (fun _ => .pure hs₁) fun _ => ?_)
  exact Outcome.ite (fun _ => .throw trivial) fun _ => .set (h.mark s₁ _ _ hs₁)

theorem KeptByScan.cycle (h : KeptByScan derive P) (hs : P s)
    (haccounts : accounts ⊆ getAccountsWithLatestKeypairs s)
    (hmarks : ∀ account ∈ accounts, (s.scanMark? poolContractId account.accountId).isSome)
    (poolQuota : Nat) :
    Outcome (scanCycle derive poolContractId accounts poolQuota) s (fun _ => P)
      fun _ _ => True := by
  induction accounts generalizing s poolQuota with
  | nil => exact .pure hs
  | cons account accounts ih =>
      refine Outcome.ite (fun _ => .pure hs) fun _ => ?_
      have haccount := haccounts List.mem_cons_self
      have hmark := hmarks account List.mem_cons_self
      have hturn := (scanAccount_outcome (h.ordered s hs) haccount hmark poolQuota).both
        (h.turn s poolContractId account poolQuota hs haccount hmark)
      refine Outcome.bind (hturn.imp (fun _ _ h => h) fun _ _ _ => trivial) fun scanned s₁ hs₁ => ?_
      obtain ⟨⟨hrun, -⟩, hkept⟩ := hs₁
      have hrest := ih hkept
        (fun a ha => hrun.accountKeys ▸ haccounts (List.mem_cons_of_mem _ ha))
        (fun a ha => hrun.rows _ _ (hmarks a (List.mem_cons_of_mem _ ha))) (poolQuota - scanned)
      exact Outcome.bind hrest fun _ _ hs₂ => .pure hs₂

theorem KeptByScan.loop (h : KeptByScan derive P) (hs : P s)
    (haccounts : accounts ⊆ getAccountsWithLatestKeypairs s)
    (hmarks : ∀ account ∈ accounts, (s.scanMark? poolContractId account.accountId).isSome)
    (rounds poolQuota : Nat) :
    Outcome (scanLoop derive poolContractId accounts rounds poolQuota) s (fun _ => P)
      fun _ _ => True := by
  induction rounds generalizing s poolQuota with
  | zero => exact .pure hs
  | succ rounds ih =>
      refine Outcome.ite (fun _ => .pure hs) fun _ => ?_
      have hcycle := (scanCycle_outcome (h.ordered s hs) haccounts hmarks
        poolQuota).both (h.cycle hs haccounts hmarks poolQuota)
      refine Outcome.bind (hcycle.imp (fun _ _ h => h) fun _ _ _ => trivial) fun result s₁ hs₁ => ?_
      obtain ⟨⟨hrun, -⟩, hkept⟩ := hs₁
      refine Outcome.ite (fun _ => ?_) fun _ => .pure hkept
      have hrest := ih hkept (fun a ha => hrun.accountKeys ▸ haccounts ha)
        (fun a ha => hrun.rows _ _ (hmarks a ha)) result.1
      exact Outcome.bind hrest fun _ _ hs₂ => .pure hs₂

/-- A pool is scanned in a transaction, so a failure changes nothing. -/
theorem KeptByScan.pool (h : KeptByScan derive P) (hs : P s) (poolQuota : Nat) :
    Outcome (scanPool derive (getAccountsWithLatestKeypairs s) poolContractId poolQuota) s
      (fun _ => P) fun _ => P := by
  unfold scanPool
  refine Outcome.ite (fun _ => .pure hs) fun _ => outcome_transaction (E := fun _ => P) ?_
  have hsubset := List.Subset.refl (getAccountsWithLatestKeypairs s)
  have hrows : Outcome (forM (getAccountsWithLatestKeypairs s) (insertScanRow poolContractId)) s
      _ _ := (insertScanRows_outcome derive hsubset).both (h.rows hs)
  refine Outcome.bind (hrows.imp (fun _ _ h => h) fun _ _ _ => hs) fun _ s₁ hs₁ => ?_
  obtain ⟨⟨hrun, -, hmarks⟩, hkept⟩ := hs₁
  exact (h.loop hkept (hrun.accountKeys ▸ hsubset) hmarks poolQuota poolQuota).imp
    (fun _ _ h => h) fun _ _ _ => hs

theorem KeptByScan.pools (h : KeptByScan derive P) (hs : P s) {pools : List (Nat × Nat)}
    (hquotas : ∀ pool ∈ pools, 0 < pool.2) :
    Outcome (scanPools derive (getAccountsWithLatestKeypairs s) pools) s (fun _ => P)
      fun _ => P := by
  induction pools generalizing s with
  | nil => exact .pure hs
  | cons pool pools ih =>
      have hfirst : Outcome (scanPool derive (getAccountsWithLatestKeypairs s) pool.1 pool.2) s
          _ _ := (scanPool_outcome (h.ordered s hs) (hquotas pool List.mem_cons_self)).both
        (h.pool hs pool.2)
      refine Outcome.bind (hfirst.imp (fun _ _ h => h) fun _ _ h => h.2) fun _ s₁ hs₁ => ?_
      obtain ⟨⟨hrun, -⟩, hkept⟩ := hs₁
      have hrest := ih hkept fun p hp => hquotas p (List.mem_cons_of_mem pool hp)
      rw [hrun.accountKeys] at hrest
      exact Outcome.bind hrest fun _ _ hs₂ => .pure hs₂

/-- What every turn keeps, a scan keeps, also when it fails. -/
theorem KeptByScan.scan (h : KeptByScan derive P) (hs : P s) (totalLimit : UInt32) :
    Outcome (scanCommitmentsForUserNotes totalLimit derive) s (fun _ => P) fun _ => P := by
  unfold scanCommitmentsForUserNotes
  refine Outcome.get_bind (Outcome.ite (fun _ => .pure hs) fun _ => ?_)
  show Outcome (if s.commitmentPools.isEmpty then pure false else _) s _ _
  refine Outcome.ite (fun _ => .pure hs) fun hnonempty => ?_
  refine Outcome.ite (fun _ => .throw hs) fun _ => h.pools hs fun pool hpool => ?_
  have hcount : 0 < s.commitmentPools.length :=
    List.length_pos_of_ne_nil (by simpa using hnonempty)
  exact poolQuotas_pos hcount _ (List.of_mem_zip hpool).2

end KeptByScan

/-! ## What the reconciliation keeps -/

/-- What every spent note and every mark keeps, a reconciliation keeps. -/
theorem reconcile_keeps {P : Storage → Prop}
    (hmarks : ∀ s marks, P s → P { s with nullifierScanState := marks })
    (hspend : ∀ s poolContractId nullifier, P s → P (s.spend poolContractId nullifier))
    {s : Storage} (hs : P s) (limit : UInt32) :
    Outcome (reconcileNullifiers limit) s (fun _ => P) fun _ => P := by
  have hpool : ∀ poolContractId s₁, P s₁ →
      Outcome (reconcilePool limit.toNat poolContractId) s₁ (fun _ => P) fun _ => P := by
    intro poolContractId s₁ hs₁
    refine outcome_transaction (E := fun _ => P) ?_
    have hinsert : Outcome (insertNullifierScanRow poolContractId) s₁ (fun _ => P)
        fun _ _ => P s₁ := by
      unfold insertNullifierScanRow
      refine Outcome.get_bind (Outcome.ite (fun _ => .pure hs₁) fun _ => ?_)
      exact Outcome.ite (fun _ => .throw hs₁) fun _ => .set (hmarks s₁ _ hs₁)
    refine Outcome.bind hinsert fun _ s₂ hs₂ => Outcome.get_bind ?_
    cases s₂.nullifierMark? poolContractId with
    | none => exact .throw hs₁
    | some last =>
        have hspent : ∀ (nullifiers : List (Nat × Fr)) s₃, P s₃ →
            P (nullifiers.foldl (Storage.spend poolContractId) s₃) := by
          intro nullifiers
          induction nullifiers with
          | nil => exact fun _ hs₃ => hs₃
          | cons nullifier nullifiers ih => exact fun s₃ hs₃ => ih _ (hspend s₃ _ _ hs₃)
        refine Outcome.bind ((markSpents_outcome _).imp (fun _ _ h => h) fun _ _ _ => hs₁)
          fun _ s₃ hs₃ => ?_
        have hkept : P s₃ := hs₃ ▸ hspent _ s₂ hs₂
        refine Outcome.ite (fun _ => ?_) fun _ => .pure hkept
        exact Outcome.bind (.modify (Q := fun _ => P) (hmarks s₃ _ hkept)) fun _ _ h => .pure h
  have hpools : ∀ pools s₁, P s₁ →
      Outcome (reconcilePools limit.toNat pools) s₁ (fun _ => P) fun _ => P := by
    intro pools
    induction pools with
    | nil => exact fun s₁ hs₁ => .pure hs₁
    | cons pool pools ih =>
        intro s₁ hs₁
        refine Outcome.bind (hpool pool s₁ hs₁) fun _ s₂ hs₂ => ?_
        exact Outcome.bind (ih s₂ hs₂) fun _ _ h => .pure h
  unfold reconcileNullifiers
  exact Outcome.get_bind (Outcome.ite (fun _ => .pure hs) fun _ => hpools _ s hs)

/-! ## The invariant -/

/-- The commitment and the row of the commitment of a note. -/
def UserNote.place (note : UserNote) : Fr × Nat := (note.id, note.commitmentId)

/-- The places of the stored notes. -/
def Storage.notePlaces (s : Storage) : List (Fr × Nat) :=
  (Table.columns s.userNotes).map UserNote.place

/-- The key rows of an account are equal. -/
def OneKey (s : Storage) : Prop :=
  ∀ k ∈ Table.columns s.keypairs, ∀ k' ∈ Table.columns s.keypairs,
    k.accountId = k'.accountId → k = k'

/-- A nullifier is stored for a pool. -/
def Storage.HasNullifier (s : Storage) (poolContractId : Nat) (nullifier : Fr) : Prop :=
  ∃ n ∈ s.poolNullifiers, s.eventContract? n.columns.id = some poolContractId ∧
    n.columns.nullifier = nullifier

/-- What the scan has passed is stored: a note is that of its commitment, a mark is set for
accounts with keys and is not past the last commitment, and a commitment that the mark of an
account is past and that `derive` finds a note in has its row, or its nullifier is known. -/
structure NotesComplete (derive : DeriveNoteFn) (s : Storage) : Prop where
  commitments : poolCommitmentsTable.Valid s
  nullifiers : poolNullifiersTable.Valid s
  numbers : ∀ c ∈ s.poolCommitments, 0 < c.rowid
  marks : ∀ p a, s.scanMark p a ≠ 0 →
    (∃ c ∈ s.poolCommitments, s.scanMark p a ≤ c.rowid) ∧
      ∃ k ∈ Table.columns s.keypairs, k.accountId = a
  notes : ∀ place ∈ s.notePlaces, ∃ c ∈ s.poolCommitments, place = (c.columns.commitment, c.rowid)
  distinct : (s.notePlaces.map Prod.snd).Nodup
  found : OneKey s → ∀ p, ∀ k ∈ Table.columns s.keypairs, ∀ row ∈ s.poolRows p,
    row.commitmentId ≤ s.scanMark p k.accountId →
      ∀ derived, derive k.toAccountKeys row = .ok (some derived) →
        row.commitmentId ∈ s.notePlaces.map Prod.snd ∨
          s.HasNullifier p derived.expectedNullifier

section Invariant

variable {derive : DeriveNoteFn} {s s' : Storage}

theorem NotesComplete.empty : NotesComplete derive Storage.empty := by
  have hzero : ∀ p a, Storage.empty.scanMark p a = 0 := fun _ _ => rfl
  refine ⟨SpentOk.empty.commitments, SpentOk.empty.nullifiers, fun _ h => ?_,
    fun p a h => absurd (hzero p a) h, fun _ h => ?_, .nil, fun _ _ _ h => ?_⟩
  all_goals cases h

/-- What a change of the tables leaves to the notes: commitments and nullifiers are added, new
commitments with new numbers, and the keys, the marks and the places of the notes stay. -/
structure NotesFrame (s s' : Storage) : Prop where
  contracts : ∀ id ∈ s.rawIds, s'.eventContract? id = s.eventContract? id
  commitments : s.poolCommitments ⊆ s'.poolCommitments
  later : ∀ c ∈ s'.poolCommitments, c ∈ s.poolCommitments ∨
    Table.nextRowid s.poolCommitments ≤ c.rowid
  nullifiers : s.poolNullifiers ⊆ s'.poolNullifiers
  keypairs : s'.keypairs = s.keypairs
  marks : s'.accountCommitmentScan = s.accountCommitmentScan
  places : s'.notePlaces = s.notePlaces

theorem NotesFrame.scanMark (h : NotesFrame s s') (p a : Nat) :
    s'.scanMark p a = s.scanMark p a := by
  unfold Storage.scanMark Storage.scanMark?
  rw [h.marks]

theorem NotesFrame.commitmentContract (h : NotesFrame s s') (hs : poolCommitmentsTable.Valid s)
    {c : Table.Row NewCommitmentEvent} (hc : c ∈ s.poolCommitments) :
    s'.eventContract? c.columns.id = s.eventContract? c.columns.id :=
  h.contracts _ (hs.linked _ (Table.mem_columns hc))

theorem NotesFrame.hasNullifier (h : NotesFrame s s') (hs : poolNullifiersTable.Valid s) {p : Nat}
    {nullifier : Fr} (hspent : s.HasNullifier p nullifier) : s'.HasNullifier p nullifier := by
  obtain ⟨n, hn, hpool, hvalue⟩ := hspent
  refine ⟨n, h.nullifiers hn, ?_, hvalue⟩
  rw [← hpool]
  exact h.contracts _ (hs.linked _ (Table.mem_columns hn))

theorem NotesComplete.frame (hs : NotesComplete derive s) (h : NotesFrame s s')
    (hcommitments : poolCommitmentsTable.Valid s') (hnullifiers : poolNullifiersTable.Valid s') :
    NotesComplete derive s' := by
  refine ⟨hcommitments, hnullifiers, fun c hc => ?_, fun p a hmark => ?_, fun place hplace => ?_,
    h.places ▸ hs.distinct, fun hkeys p k hk row hrow hmark derived hderive => ?_⟩
  · rcases h.later c hc with hold | hnew
    · exact hs.numbers c hold
    · exact Table.nextRowid_pos.trans_le hnew
  · rw [h.scanMark] at hmark ⊢
    obtain ⟨⟨c, hc, hle⟩, hkey⟩ := hs.marks p a hmark
    exact ⟨⟨c, h.commitments hc, hle⟩, h.keypairs ▸ hkey⟩
  · obtain ⟨c, hc, heq⟩ := hs.notes place (h.places ▸ hplace)
    exact ⟨c, h.commitments hc, heq⟩
  · rw [h.places]
    rw [h.scanMark] at hmark
    unfold OneKey at hkeys
    rw [h.keypairs] at hk hkeys
    obtain ⟨c, hc, hcontract, rfl⟩ := mem_poolRows.mp hrow
    rcases h.later c hc with hold | hnew
    · rw [h.commitmentContract hs.commitments hold] at hcontract
      exact (hs.found hkeys p k hk _ (mem_poolRows.mpr ⟨c, hold, hcontract, rfl⟩) hmark derived
        hderive).imp_right (h.hasNullifier hs.nullifiers)
    · -- a new commitment lies past every mark
      have hmark : c.rowid ≤ s.scanMark p k.accountId := hmark
      have hne : s.scanMark p k.accountId ≠ 0 := by
        have := Table.nextRowid_pos.trans_le hnew
        omega
      obtain ⟨c', hc', hle⟩ := (hs.marks p k.accountId hne).1
      have := Table.rowid_lt_nextRowid hc'
      omega

/-! ### Saves -/

theorem NotesComplete.event (hs : NotesComplete derive s) (event : ContractEvent) :
    NotesComplete derive (s.addEvent event) := by
  have hraw : ∀ id ∈ s.rawIds, id ∈ (s.addEvent event).rawIds := by
    show ∀ id ∈ s.rawIds, id ∈ (Table.columns (Table.insertNew _ s.rawContractEvents _)).map _
    rw [Table.columns_insertNew]
    exact List.map_subset _ Table.prefix_addNew.subset
  have hframe : ∃ contracts raw, s.addEvent event =
      { s with contracts := contracts, rawContractEvents := raw } := by
    unfold Storage.addEvent Storage.withContract
    split <;> exact ⟨_, _, rfl⟩
  have hcontract : ∀ id ∈ s.rawIds, (s.addEvent event).eventContract? id = s.eventContract? id :=
    fun id hid => eventContract?_addEvent event hid
  obtain ⟨contracts, raw, heq⟩ := hframe
  rw [heq] at hraw hcontract ⊢
  exact hs.frame ⟨hcontract, List.Subset.refl _, fun _ h => .inl h, List.Subset.refl _, rfl, rfl,
    rfl⟩ (hs.commitments.congr rfl hraw) (hs.nullifiers.congr rfl hraw)

theorem NotesComplete.commitment (hs : NotesComplete derive s) {event : NewCommitmentEvent}
    (h : poolCommitmentsTable.Accepts s event) :
    NotesComplete derive (poolCommitmentsTable.add s event) := by
  refine hs.frame ⟨fun _ _ => rfl, List.subset_append_left _ _, fun c hc => ?_,
    List.Subset.refl _, rfl, rfl, rfl⟩ (hs.commitments.add h)
    (hs.nullifiers.congr rfl fun _ hid => hid)
  rcases List.mem_append.mp hc with hold | hnew
  · exact .inl hold
  · obtain rfl := List.mem_singleton.mp hnew
    exact .inr (Nat.le_refl _)

theorem NotesComplete.nullifier (hs : NotesComplete derive s) {event : NewNullifierEvent}
    (h : poolNullifiersTable.Accepts s event) :
    NotesComplete derive (poolNullifiersTable.add s event) :=
  hs.frame ⟨fun _ _ => rfl, List.Subset.refl _, fun _ hc => .inl hc,
    List.subset_append_left _ _, rfl, rfl, rfl⟩ (hs.commitments.congr rfl fun _ hid => hid)
    (hs.nullifiers.add h)

/-- A change of the tables that the notes do not depend on. -/
theorem NotesComplete.other (hs : NotesComplete derive s)
    (hframe : ∃ accounts publicKeys leaves marks, s' =
      { s with accounts := accounts, publicKeys := publicKeys, aspMembershipLeaves := leaves,
               nullifierScanState := marks }) : NotesComplete derive s' := by
  obtain ⟨accounts, publicKeys, leaves, marks, rfl⟩ := hframe
  exact hs.frame ⟨fun _ _ => rfl, List.Subset.refl _, fun _ hc => .inl hc, List.Subset.refl _,
    rfl, rfl, rfl⟩ (hs.commitments.congr rfl fun _ hid => hid)
    (hs.nullifiers.congr rfl fun _ hid => hid)

/-- One call of `process_events`. -/
theorem NotesComplete.process (hs : NotesComplete derive s) (xdr : Xdr) (limit : UInt32) :
    Outcome (processEvents xdr limit) s (fun _ => NotesComplete derive)
      fun _ => NotesComplete derive := by
  unfold processEvents
  refine Outcome.get_bind (Outcome.ite (fun _ => .pure hs) fun _ => ?_)
  refine Outcome.bind (poolNullifiersTable.saveBatch_keeps
    (fun _ _ hs h => NotesComplete.nullifier hs h) _ hs) fun _ s₁ hs₁ => ?_
  refine Outcome.bind (poolCommitmentsTable.saveBatch_keeps
    (fun _ _ hs h => NotesComplete.commitment hs h) _ hs₁) fun _ s₂ hs₂ => ?_
  refine Outcome.bind (publicKeysTable.saveBatch_keeps
    (fun _ _ hs _ => NotesComplete.other hs ⟨_, _, _, _, rfl⟩) _ hs₂) fun _ s₃ hs₃ => ?_
  refine Outcome.bind (aspMembershipLeavesTable.saveBatch_keeps
    (fun _ _ hs _ => NotesComplete.other hs ⟨_, _, _, _, rfl⟩) _ hs₃) fun _ s₄ hs₄ => ?_
  exact .pure hs₄

/-- New keys: of an account that has a mark they are those it had before. -/
theorem NotesComplete.keypair (hs : NotesComplete derive s) (keys : KeypairColumns) :
    NotesComplete derive { s with keypairs := Table.insert s.keypairs keys } := by
  have hmem : ∀ k, k ∈ Table.columns (Table.insert s.keypairs keys) ↔
      k ∈ Table.columns s.keypairs ∨ k = keys := by simp
  refine ⟨hs.commitments.congr rfl fun _ hid => hid, hs.nullifiers.congr rfl fun _ hid => hid,
    hs.numbers, fun p a hmark => ?_, hs.notes, hs.distinct,
    fun hkeys p k hk row hrow hmark derived hderive => ?_⟩
  · obtain ⟨hlast, k, hk, haccount⟩ := hs.marks p a hmark
    exact ⟨hlast, k, (hmem k).mpr (.inl hk), haccount⟩
  · have hbefore : OneKey s := fun k hk k' hk' =>
      hkeys k ((hmem k).mpr (.inl hk)) k' ((hmem k').mpr (.inl hk'))
    have hold : k ∈ Table.columns s.keypairs := by
      rcases (hmem k).mp hk with hold | rfl
      · exact hold
      · obtain ⟨c, hc, -, rfl⟩ := mem_poolRows.mp hrow
        have hne : s.scanMark p k.accountId ≠ 0 := by
          have hpos := hs.numbers c hc
          have hmark : c.rowid ≤ s.scanMark p k.accountId := hmark
          omega
        obtain ⟨-, k', hk', haccount⟩ := hs.marks p k.accountId hne
        exact hkeys k' ((hmem k').mpr (.inl hk')) k hk haccount ▸ hk'
    exact hs.found hbefore p k hold row hrow hmark derived hderive

theorem NotesComplete.saveKeys (hs : NotesComplete derive s) (accountAddress : String)
    (noteKeypair : NoteKeyPair) (encryptionKeypair : EncryptionKeyPair)
    (membershipBlinding : Fr) :
    Outcome (saveEncryptionAndNoteKeypairs accountAddress noteKeypair encryptionKeypair
      membershipBlinding) s (fun _ => NotesComplete derive) fun _ => NotesComplete derive := by
  refine outcome_transaction (E := fun _ => NotesComplete derive) ?_
  have haccount : Outcome (getOrCreateAccount accountAddress) s (fun _ => NotesComplete derive)
      fun _ _ => NotesComplete derive s := by
    unfold getOrCreateAccount
    refine Outcome.bind (.modify (Q := fun _ => NotesComplete derive)
      (hs.other ⟨_, _, _, _, rfl⟩)) fun _ s₁ hs₁ => Outcome.get_bind ?_
    split
    · exact .pure hs₁
    · exact .throw hs
  exact Outcome.bind haccount fun _ s₁ hs₁ => .modify (hs₁.keypair _)

theorem NotesComplete.reconcile (hs : NotesComplete derive s) (limit : UInt32) :
    Outcome (reconcileNullifiers limit) s (fun _ => NotesComplete derive)
      fun _ => NotesComplete derive := by
  refine reconcile_keeps (fun s marks hs => hs.other ⟨_, _, _, _, rfl⟩)
    (fun s p nullifier hs => ?_) hs limit
  refine hs.frame ⟨fun _ _ => rfl, List.Subset.refl _, fun _ hc => .inl hc, List.Subset.refl _,
    rfl, rfl, ?_⟩ (hs.commitments.congr rfl fun _ hid => hid)
    (hs.nullifiers.congr rfl fun _ hid => hid)
  unfold Storage.notePlaces Storage.spend Table.update Table.columns
  rw [List.map_map, List.map_map, List.map_map]
  refine List.map_congr_left fun row _ => ?_
  dsimp only [Function.comp_apply]
  split <;> rfl

/-! ### Turns of the scan -/

/-- A note of a commitment that has none yet. -/
theorem NotesComplete.note (hs : NotesComplete derive s) {note : UserNote}
    (hplace : ∃ c ∈ s.poolCommitments, note.place = (c.columns.commitment, c.rowid))
    (hnew : note.commitmentId ∉ s.notePlaces.map Prod.snd) :
    NotesComplete derive { s with userNotes := Table.insert s.userNotes note } := by
  have hplaces : Storage.notePlaces { s with userNotes := Table.insert s.userNotes note } =
      s.notePlaces ++ [note.place] := by
    unfold Storage.notePlaces
    rw [Table.columns_insert, List.map_append]
    rfl
  refine ⟨hs.commitments.congr rfl fun _ hid => hid, hs.nullifiers.congr rfl fun _ hid => hid,
    hs.numbers, hs.marks, fun place hmem => ?_, ?_, fun hkeys p k hk row hrow hmark derived hd => ?_⟩
  · rw [hplaces] at hmem
    rcases List.mem_append.mp hmem with hold | hnew
    · exact hs.notes place hold
    · exact List.mem_singleton.mp hnew ▸ hplace
  · rw [hplaces, List.map_append, List.map_cons, List.map_nil, ← List.concat_eq_append]
    exact hs.distinct.concat hnew
  · rw [hplaces, List.map_append, List.mem_append]
    exact (hs.found hkeys p k hk row hrow hmark derived hd).imp_left .inl

/-- What `derive` finds in a commitment is stored, or its nullifier is known. -/
def Storage.Stored (derive : DeriveNoteFn) (s : Storage) (poolContractId : Nat)
    (account : AccountKeys) (row : PoolCommitmentRow) : Prop :=
  ∀ derived, derive account row = .ok (some derived) →
    row.commitmentId ∈ s.notePlaces.map Prod.snd ∨
      s.HasNullifier poolContractId derived.expectedNullifier

variable {poolContractId : Nat} {account : AccountKeys}

/-- One commitment of a turn. -/
theorem NotesComplete.row (hs : NotesComplete derive s) {row : PoolCommitmentRow}
    (hrow : row ∈ s.poolRows poolContractId) :
    Outcome (scanRow derive poolContractId account row) s
      (fun _ s' => NotesComplete derive s' ∧ (∃ notes, s' = { s with userNotes := notes }) ∧
        s.notePlaces ⊆ s'.notePlaces ∧ s'.Stored derive poolContractId account row)
      fun _ _ => True := by
  unfold scanRow
  cases hderive : derive account row with
  | error e => exact .throw trivial
  | ok result =>
      cases result with
      | none =>
          refine .pure ⟨hs, ⟨_, rfl⟩, List.Subset.refl _, fun derived hd => ?_⟩
          rw [hderive] at hd
          cases hd
      | some derived =>
          obtain ⟨c, hc, -, rfl⟩ := mem_poolRows.mp hrow
          refine Outcome.get_bind (Outcome.get_bind (Outcome.ite (fun htaken => .pure ?_)
            fun hfree => Outcome.ite (fun _ => .throw trivial) fun _ => .set ?_))
          · refine ⟨hs, ⟨_, rfl⟩, List.Subset.refl _, fun derived' hd => ?_⟩
            obtain rfl : derived = derived' := by
              rw [hderive] at hd
              exact Option.some.inj (Except.ok.inj hd)
            obtain ⟨n, hn, hconflict⟩ := List.any_eq_true.mp htaken
            have hplace := List.mem_map_of_mem (f := UserNote.place) hn
            rcases of_decide_eq_true hconflict with hid | hid | ⟨hsome, hsame⟩
            · -- a note of the same commitment is a note of the same row
              obtain ⟨c', hc', heq⟩ := hs.notes _ hplace
              obtain ⟨hvalue, hrowid⟩ := Prod.mk.inj heq
              have hcolumns : c'.columns = c.columns := List.inj_on_of_nodup_map hs.commitments.keys
                (Table.mem_columns hc') (Table.mem_columns hc) (hvalue.symm.trans hid)
              obtain rfl := eq_of_columns (hs.commitments.keys.of_map _) hc' hc hcolumns
              exact .inl (List.mem_map.mpr ⟨_, hplace, hrowid⟩)
            · exact .inl (List.mem_map.mpr ⟨_, hplace, hid⟩)
            · rw [hsame] at hsome
              obtain ⟨id, hknown⟩ := Option.isSome_iff_exists.mp hsome
              obtain ⟨m, hm, -, hvalue, hpool⟩ := nullifierId?_mem hknown
              exact .inr ⟨m, hm, hpool, hvalue⟩
          · have hnew : c.rowid ∉ s.notePlaces.map Prod.snd := by
              intro hmem
              obtain ⟨place, hplace, hid⟩ := List.mem_map.mp hmem
              obtain ⟨n, hn, rfl⟩ := List.mem_map.mp hplace
              exact hfree (List.any_eq_true.mpr ⟨n, hn, decide_eq_true (.inr (.inl hid))⟩)
            refine ⟨hs.note ⟨c, hc, rfl⟩ hnew, ⟨_, rfl⟩, ?_, fun _ _ => .inl ?_⟩
            · unfold Storage.notePlaces
              rw [Table.columns_insert, List.map_append]
              exact List.subset_append_left _ _
            · unfold Storage.notePlaces
              rw [Table.columns_insert, List.map_append, List.map_append]
              exact List.mem_append_right _ List.mem_cons_self

/-- The commitments of a turn. -/
theorem NotesComplete.rows (hs : NotesComplete derive s) {rows : List PoolCommitmentRow}
    (hrows : rows ⊆ s.poolRows poolContractId) :
    Outcome (forM rows (scanRow derive poolContractId account)) s
      (fun _ s' => NotesComplete derive s' ∧ (∃ notes, s' = { s with userNotes := notes }) ∧
        ∀ row ∈ rows, s'.Stored derive poolContractId account row) fun _ _ => True := by
  refine Outcome.imp (Outcome.forM (I := fun rest s' => rest ⊆ rows ∧ NotesComplete derive s' ∧
    (∃ notes, s' = { s with userNotes := notes }) ∧
    ∀ row ∈ rows, row ∉ rest → s'.Stored derive poolContractId account row) ?_ rows s
    ⟨List.Subset.refl _, hs, ⟨_, rfl⟩, fun row hrow hnot => absurd hrow hnot⟩)
    (fun _ s' hs' => ⟨hs'.2.1, hs'.2.2.1, fun row hrow => hs'.2.2.2 row hrow List.not_mem_nil⟩)
    fun _ _ h => h
  intro row rest s₁ hs₁
  obtain ⟨hsubset, hkept, ⟨notes, hframe⟩, hstored⟩ := hs₁
  have hrow : row ∈ s₁.poolRows poolContractId := by
    subst hframe
    exact hrows (hsubset List.mem_cons_self)
  refine (hkept.row hrow).imp (fun _ s₂ hs₂ => ?_) fun _ _ h => h
  obtain ⟨hkept₂, ⟨notes₂, hframe₂⟩, hgrows, hhere⟩ := hs₂
  refine ⟨fun r hr => hsubset (List.mem_cons_of_mem row hr), hkept₂,
    ⟨notes₂, by rw [hframe₂, hframe]⟩, fun r hr hnot => ?_⟩
  by_cases heq : r = row
  · exact heq ▸ hhere
  · intro derived hd
    have hnotBefore : r ∉ row :: rest := by
      rw [List.mem_cons, not_or]
      exact ⟨heq, hnot⟩
    refine (hstored r hr hnotBefore derived hd).imp (fun hmem => List.map_subset _ hgrows hmem)
      fun hspent => ?_
    rw [hframe₂]
    exact hspent

/-- The mark of an account moves past the commitments of its turn. -/
theorem NotesComplete.setMark (hs : NotesComplete derive s)
    (haccount : account ∈ getAccountsWithLatestKeypairs s)
    (hmark : (s.scanMark? poolContractId account.accountId).isSome) {n : Nat}
    (hstored : ∀ row ∈ (s.unscanned poolContractId account.accountId).take n,
      s.Stored derive poolContractId account row) :
    Outcome (setScanMark poolContractId account
        (Table.highWater PoolCommitmentRow.commitmentId
          (s.scanMark poolContractId account.accountId)
          ((s.unscanned poolContractId account.accountId).take n))) s
      (fun _ => NotesComplete derive) fun _ _ => True := by
  generalize hhigh : Table.highWater PoolCommitmentRow.commitmentId _ _ = high
  refine (setScanMark_outcome s high).imp (fun _ s' hs' => ?_) fun _ _ h => h.elim
  obtain ⟨⟨marks, hframe⟩, hmark?⟩ := hs'
  obtain ⟨a, -, hkey⟩ := mem_accounts.mp haccount
  obtain ⟨key, hlatest, rfl⟩ := Option.map_eq_some_iff.mp hkey
  obtain ⟨hkey, -⟩ := latestKeypair?_some hlatest
  obtain ⟨m, hm⟩ := Option.isSome_iff_exists.mp hmark
  have hhere : s'.scanMark poolContractId key.toAccountKeys.accountId = high := by
    simp [Storage.scanMark, hmark?, hm]
  have hother : ∀ p a, ¬ (poolContractId = p ∧ key.toAccountKeys.accountId = a) →
      s'.scanMark p a = s.scanMark p a := by
    intro p a h
    unfold Storage.scanMark
    rw [hmark?]
    simp only [if_neg h, Option.map_id']
  have hpool : s'.poolRows poolContractId = s.poolRows poolContractId := by rw [hframe]; rfl
  have hleft := unscanned_of_highWater (p := poolContractId) (a := key.toAccountKeys.accountId)
    (n := n) hs.commitments.ordered hpool (hhere.trans hhigh.symm)
  subst hframe
  refine ⟨hs.commitments.congr rfl fun _ hid => hid, hs.nullifiers.congr rfl fun _ hid => hid,
    hs.numbers, fun p a hne => ?_, hs.notes, hs.distinct,
    fun hkeys p k hk row hrow hle derived hderive => ?_⟩
  · by_cases h : poolContractId = p ∧ key.toAccountKeys.accountId = a
    · obtain ⟨rfl, rfl⟩ := h
      rw [hhere] at hne ⊢
      refine ⟨?_, key, hkey, rfl⟩
      rcases Table.highWater_mem_or (f := PoolCommitmentRow.commitmentId) with heq | ⟨r, hr, heq⟩
      · rw [← hhigh, heq] at hne ⊢
        exact (hs.marks _ _ hne).1
      · obtain ⟨c, hc, -, rfl⟩ := mem_poolRows.mp (mem_unscanned.mp (List.take_subset n _ hr)).1
        exact ⟨c, hc, (hhigh.symm.trans heq.symm).le⟩
    · rw [hother p a h] at hne ⊢
      exact hs.marks p a hne
  · by_cases h : poolContractId = p ∧ key.toAccountKeys.accountId = k.accountId
    · obtain ⟨rfl, haccountId⟩ := h
      obtain rfl := hkeys key hkey k hk haccountId
      by_cases hold : row.commitmentId ≤ s.scanMark poolContractId key.accountId
      · exact hs.found hkeys _ key hk row hrow hold derived hderive
      · -- the commitment is one of this turn
        have hbefore : row ∈ s.unscanned poolContractId key.accountId :=
          mem_unscanned.mpr ⟨hrow, Nat.lt_of_not_le hold⟩
        have hturn : row ∈ (s.unscanned poolContractId key.accountId).take n := by
          have hsplit := List.take_append_drop n (s.unscanned poolContractId key.accountId)
          rw [← hsplit, List.mem_append] at hbefore
          refine hbefore.resolve_right fun hdrop => ?_
          rw [show key.accountId = key.toAccountKeys.accountId from rfl, ← hleft] at hdrop
          exact absurd hle (Nat.not_le.mpr (mem_unscanned.mp hdrop).2)
        exact hstored row hturn derived hderive
    · rw [hother p k.accountId h] at hle
      exact hs.found hkeys p k hk row hrow hle derived hderive

/-- A turn of an account. -/
theorem NotesComplete.turn (hs : NotesComplete derive s)
    (haccount : account ∈ getAccountsWithLatestKeypairs s)
    (hmark : (s.scanMark? poolContractId account.accountId).isSome) (poolQuota : Nat) :
    Outcome (scanAccount derive poolContractId account poolQuota) s
      (fun _ => NotesComplete derive) fun _ _ => True := by
  unfold scanAccount
  refine Outcome.bind (lastCommitmentId_outcome hmark) fun last s₀ hlast => ?_
  obtain ⟨rfl, rfl⟩ := hlast
  refine Outcome.get_bind ?_
  show Outcome (if ((s₀.unscanned poolContractId account.accountId).take
    (min poolQuota accountChunk)).isEmpty then pure 0 else _) s₀ _ _
  generalize min poolQuota accountChunk = n
  refine Outcome.ite (fun _ => .pure hs) fun _ => ?_
  have hrows : (s₀.unscanned poolContractId account.accountId).take n ⊆
      s₀.poolRows poolContractId := fun row hrow =>
    (mem_unscanned.mp (List.take_subset n _ hrow)).1
  refine Outcome.bind (hs.rows hrows) fun _ s₁ hs₁ => ?_
  obtain ⟨hkept, ⟨notes, hframe⟩, hstored⟩ := hs₁
  subst hframe
  have hset := hkept.setMark (n := n) haccount hmark hstored
  exact Outcome.bind hset fun _ _ hs₂ => .pure hs₂

theorem NotesComplete.keptByScan (derive : DeriveNoteFn) :
    KeptByScan derive (NotesComplete derive) := by
  refine ⟨fun s hs => hs.commitments.ordered, fun s p a hs => ?_,
    fun s p account quota hs haccount hmark => hs.turn haccount hmark quota⟩
  have hsame := scanMark_insert s p a
  refine ⟨hs.commitments.congr rfl fun _ hid => hid, hs.nullifiers.congr rfl fun _ hid => hid,
    hs.numbers, fun q b hne => ?_, hs.notes, hs.distinct,
    fun hkeys q k hk row hrow hle derived hderive => ?_⟩
  · rw [hsame] at hne ⊢
    exact hs.marks q b hne
  · rw [hsame] at hle
    exact hs.found hkeys q k hk row hrow hle derived hderive

end Invariant

/-! ## Runs -/

/-- Every call of the client keeps the invariant. -/
theorem NotesComplete.after {xdr : Xdr} {box : Prover.NoteBox} {s : Storage}
    (hs : NotesComplete (deriveUserNote box) s) (op : ClientOp) :
    NotesComplete (deriveUserNote box) (op.after xdr box s) := by
  cases op with
  | save events =>
      show NotesComplete _ (leaves (saveEventsBatch events) s)
      rw [leaves_of_ok (saveEventsBatch_run events s)]
      show NotesComplete _ (events.foldl Storage.addEvent s)
      induction events generalizing s with
      | nil => exact hs
      | cons event events ih => exact ih (hs.event event)
  | process limit => exact leaves_of_outcome (hs.process xdr limit)
  | saveKeys address note encryption blinding =>
      exact leaves_of_outcome (hs.saveKeys address note encryption blinding)
  | scan totalLimit =>
      exact leaves_of_outcome ((NotesComplete.keptByScan _).scan hs totalLimit)
  | reconcile limit => exact leaves_of_outcome (hs.reconcile limit)

/-- Every run keeps the invariant. -/
theorem NotesComplete.run (xdr : Xdr) (box : Prover.NoteBox) (ops : List ClientOp) :
    NotesComplete (deriveUserNote box) (clientRun xdr box ops) := by
  have hfold : ∀ s, NotesComplete (deriveUserNote box) s →
      NotesComplete (deriveUserNote box) (ops.foldl (ClientOp.after xdr box) s) := by
    induction ops with
    | nil => exact fun s hs => hs
    | cons op ops ih => exact fun s hs => ih _ (hs.after op)
  exact hfold _ .empty

end PrivatePayments.State
