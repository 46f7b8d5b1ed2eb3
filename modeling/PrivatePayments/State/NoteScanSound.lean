import PrivatePayments.State.Writes

/-!
# PrivatePayments.State.NoteScanSound

What a scan for user notes does.

Every part of the scan moves the high-water marks forward past commitments that `derive`
returned on, and writes notes for some of them (`ScanRun`). A scan that returns `true` has
moved a mark; one that returns `false` found nothing left for any account in any pool; and
it fails only where `derive` fails, or a pool has no contract row, or there are too many
pools (`scan_outcome`).
-/

namespace PrivatePayments.State

/-! ## High-water marks -/

/-- The high-water mark of an account in a pool; without a row it is at the start. -/
def Storage.scanMark (s : Storage) (poolContractId accountId : Nat) : Nat :=
  (s.scanMark? poolContractId accountId).getD 0

/-- The commitments of a pool that an account was not offered yet. -/
def Storage.unscanned (s : Storage) (poolContractId accountId : Nat) : List PoolCommitmentRow :=
  s.commitmentsAfter poolContractId (s.scanMark poolContractId accountId)

section Marks

variable {s : Storage} {poolContractId accountId : Nat} {row : PoolCommitmentRow}

theorem mem_poolRows : row ∈ s.poolRows poolContractId ↔
    ∃ c ∈ s.poolCommitments, s.eventContract? c.columns.id = some poolContractId ∧
      row = ⟨c.rowid, c.columns.commitment, c.columns.index, c.columns.encryptedOutput⟩ := by
  unfold Storage.poolRows
  rw [Table.orderBy_perm.mem_iff, List.mem_map]
  constructor
  · intro h
    obtain ⟨c, hc, rfl⟩ := h
    obtain ⟨hmem, hpool⟩ := List.mem_filter.mp hc
    exact ⟨c, hmem, by simpa using hpool, rfl⟩
  · intro h
    obtain ⟨c, hmem, hpool, rfl⟩ := h
    exact ⟨c, List.mem_filter.mpr ⟨hmem, by simpa using hpool⟩, rfl⟩

/-- The commitments of a pool are read in the order of their numbers. -/
theorem poolRows_pairwise (h : Table.Ordered s.poolCommitments) :
    (s.poolRows poolContractId).Pairwise fun a b => a.commitmentId < b.commitmentId := by
  refine Table.orderBy_pairwise_lt ?_
  rw [List.map_map]
  have hfilter := h.filter fun c => s.eventContract? c.columns.id = some poolContractId
  exact hfilter.map Table.Row.rowid fun _ _ hlt => Nat.ne_of_lt hlt

theorem mem_unscanned : row ∈ s.unscanned poolContractId accountId ↔
    row ∈ s.poolRows poolContractId ∧ s.scanMark poolContractId accountId < row.commitmentId := by
  unfold Storage.unscanned Storage.commitmentsAfter
  rw [List.mem_filter, decide_eq_true_iff]

/-- Past the commitments that were read come the others. -/
theorem commitmentsAfter_highWater (h : Table.Ordered s.poolCommitments)
    (poolContractId last n : Nat) :
    s.commitmentsAfter poolContractId (Table.highWater PoolCommitmentRow.commitmentId last
        ((s.commitmentsAfter poolContractId last).take n)) =
      (s.commitmentsAfter poolContractId last).drop n := by
  have hsorted : (s.commitmentsAfter poolContractId last).Pairwise
      fun a b => a.commitmentId < b.commitmentId := (poolRows_pairwise h).filter _
  have hlast : ∀ row ∈ s.commitmentsAfter poolContractId last, last < row.commitmentId :=
    fun row hrow => by simpa using (List.mem_filter.mp hrow).2
  rw [← Table.filter_highWater_take hsorted hlast n]
  unfold Storage.commitmentsAfter
  rw [List.filter_filter]
  refine List.filter_congr fun row _ => ?_
  generalize hhigh : Table.highWater PoolCommitmentRow.commitmentId last _ = high
  have hle : last ≤ high := hhigh ▸ Table.le_highWater
  rw [← Bool.decide_and]
  exact decide_eq_decide.mpr ⟨fun hlt => ⟨hlt, Nat.lt_of_le_of_lt hle hlt⟩, fun hlt => hlt.1⟩

/-- The keys of an account are those of its latest key row. -/
theorem mem_accounts {account : AccountKeys} : account ∈ getAccountsWithLatestKeypairs s ↔
    ∃ a ∈ s.accounts, (s.latestKeypair? a.rowid).map KeypairColumns.toAccountKeys =
      some account := by
  unfold getAccountsWithLatestKeypairs
  rw [List.mem_filterMap]
  simp only [Table.orderBy_perm.mem_iff]

theorem latestKeypair?_some {k : KeypairColumns} (h : s.latestKeypair? accountId = some k) :
    k ∈ Table.columns s.keypairs ∧ k.accountId = accountId := by
  unfold Storage.latestKeypair? at h
  obtain ⟨r, hr, rfl⟩ := Option.map_eq_some_iff.mp h
  obtain ⟨hmem, haccount⟩ := List.mem_filter.mp (Table.latest_mem hr)
  exact ⟨Table.mem_columns hmem, by simpa using haccount⟩

/-- An account that is scanned has a row. -/
theorem exists_account_of_mem {account : AccountKeys}
    (h : account ∈ getAccountsWithLatestKeypairs s) :
    s.accounts.any fun a => a.rowid = account.accountId := by
  obtain ⟨a, ha, hkeys⟩ := mem_accounts.mp h
  obtain ⟨k, hk, rfl⟩ := Option.map_eq_some_iff.mp hkeys
  exact List.any_eq_true.mpr ⟨a, ha, decide_eq_true (latestKeypair?_some hk).2.symm⟩

/-- Scanned accounts are pairwise distinct. -/
theorem accounts_nodup (h : Table.Ordered s.accounts) :
    ((getAccountsWithLatestKeypairs s).map AccountKeys.accountId).Nodup := by
  have hids : ((Table.orderBy Table.Row.rowid s.accounts).map Table.Row.rowid).Nodup := by
    rw [(Table.orderBy_perm.map Table.Row.rowid).nodup_iff]
    exact h.map Table.Row.rowid fun _ _ hlt => Nat.ne_of_lt hlt
  refine hids.sublist ?_
  unfold getAccountsWithLatestKeypairs
  generalize Table.orderBy Table.Row.rowid s.accounts = accounts
  induction accounts with
  | nil => exact .slnil
  | cons a accounts ih =>
      cases hk : s.latestKeypair? a.rowid with
      | none =>
          rw [List.filterMap_cons_none (by rw [hk]; rfl)]
          exact ih.cons _
      | some k =>
          rw [List.filterMap_cons_some (by rw [hk]; rfl), List.map_cons, List.map_cons,
            show k.toAccountKeys.accountId = a.rowid from (latestKeypair?_some hk).2]
          exact ih.cons_cons _

/-- A row at the start is not a different mark. -/
theorem scanMark?_insert (s : Storage) (p a q b : Nat) :
    Storage.scanMark? { s with
      accountCommitmentScan := Table.insert s.accountCommitmentScan ⟨p, a, 0⟩ } q b =
      (s.scanMark? q b).or (if p = q ∧ a = b then some 0 else none) := by
  unfold Storage.scanMark?
  rw [Table.columns_insert, List.find?_append, Option.map_or]
  by_cases h : p = q ∧ a = b
  · simp [h]
  · simp [h]

/-- Setting a mark moves it, if there is one, and no other. -/
theorem scanMark?_setScanMark (s : Storage) (p a last q b : Nat) :
    Storage.scanMark? { s with
      accountCommitmentScan := Table.update (fun m => m.poolContractId = p ∧ m.accountId = a)
        (fun m => { m with lastCommitmentId := last }) s.accountCommitmentScan } q b =
      (s.scanMark? q b).map fun m => if p = q ∧ a = b then last else m := by
  unfold Storage.scanMark?
  dsimp only
  rw [Table.find?_columns_update]
  · rw [Option.map_map, Option.map_map]
    refine Option.map_congr fun m hm => ?_
    obtain ⟨hq, hb⟩ : m.poolContractId = q ∧ m.accountId = b := by simpa using List.find?_some hm
    subst hq hb
    by_cases h : p = m.poolContractId ∧ a = m.accountId
    · simp [h]
    · have h' : ¬ (m.poolContractId = p ∧ m.accountId = a) := fun hm => h ⟨hm.1.symm, hm.2.symm⟩
      simp only [Function.comp_apply, if_neg h, decide_eq_true_eq, if_neg h']
  · exact fun _ _ => rfl

end Marks

/-! ## Scan -/

/-- What any part of the scan does: it writes notes and marks, keeps the rows of the marks,
and moves every mark forward, past commitments that `derive` returned on. -/
structure ScanRun (derive : DeriveNoteFn) (s s' : Storage) : Prop where
  writes : Writes derive s s'
  frame : ∃ notes marks, s' = { s with userNotes := notes, accountCommitmentScan := marks }
  rows : ∀ p a, (s.scanMark? p a).isSome → (s'.scanMark? p a).isSome
  advance : ∀ p a, ∃ n, s'.unscanned p a = (s.unscanned p a).drop n ∧
    ∀ row ∈ (s.unscanned p a).take n, ∃ account ∈ getAccountsWithLatestKeypairs s,
      account.accountId = a ∧ ∃ derived, derive account row = .ok derived

section Scan

variable {derive : DeriveNoteFn} {s s' s'' : Storage} {poolContractId : Nat}
  {account : AccountKeys} {accounts : List AccountKeys}

theorem unscanned_congr {p a : Nat} (hrows : s'.poolRows p = s.poolRows p)
    (hmark : s'.scanMark p a = s.scanMark p a) : s'.unscanned p a = s.unscanned p a := by
  unfold Storage.unscanned Storage.commitmentsAfter
  rw [hrows, hmark]

/-- The scan writes notes and marks only, so what it reads stays. -/
theorem poolRows_of_frame (h : ∃ notes marks, s' =
    { s with userNotes := notes, accountCommitmentScan := marks }) (p : Nat) :
    s'.poolRows p = s.poolRows p := by
  obtain ⟨notes, marks, rfl⟩ := h
  rfl

theorem poolCommitments_of_frame (h : ∃ notes marks, s' =
    { s with userNotes := notes, accountCommitmentScan := marks }) :
    s'.poolCommitments = s.poolCommitments := by
  obtain ⟨notes, marks, rfl⟩ := h
  rfl

theorem contracts_of_frame (h : ∃ notes marks, s' =
    { s with userNotes := notes, accountCommitmentScan := marks }) :
    s'.contracts = s.contracts := by
  obtain ⟨notes, marks, rfl⟩ := h
  rfl

theorem accountKeys_of_frame (h : ∃ notes marks, s' =
    { s with userNotes := notes, accountCommitmentScan := marks }) :
    getAccountsWithLatestKeypairs s' = getAccountsWithLatestKeypairs s := by
  obtain ⟨notes, marks, rfl⟩ := h
  rfl

namespace ScanRun

theorem poolRows (h : ScanRun derive s s') (p : Nat) : s'.poolRows p = s.poolRows p :=
  poolRows_of_frame h.frame p

theorem poolCommitments (h : ScanRun derive s s') : s'.poolCommitments = s.poolCommitments :=
  poolCommitments_of_frame h.frame

theorem contracts (h : ScanRun derive s s') : s'.contracts = s.contracts :=
  contracts_of_frame h.frame

theorem accountKeys (h : ScanRun derive s s') :
    getAccountsWithLatestKeypairs s' = getAccountsWithLatestKeypairs s :=
  accountKeys_of_frame h.frame

/-- A part that moves no mark. -/
theorem of_marks (hwrites : Writes derive s s')
    (hframe : ∃ notes marks, s' = { s with userNotes := notes, accountCommitmentScan := marks })
    (hrows : ∀ p a, (s.scanMark? p a).isSome → (s'.scanMark? p a).isSome)
    (hmarks : ∀ p a, s'.scanMark p a = s.scanMark p a) : ScanRun derive s s' := by
  refine ⟨hwrites, hframe, hrows, fun p a => ⟨0, ?_, by simp⟩⟩
  rw [List.drop_zero]
  exact unscanned_congr (poolRows_of_frame hframe p) (hmarks p a)

theorem refl (s : Storage) : ScanRun derive s s :=
  of_marks .refl ⟨_, _, rfl⟩ (fun _ _ h => h) fun _ _ => rfl

theorem trans (h : ScanRun derive s s') (h' : ScanRun derive s' s'') : ScanRun derive s s'' := by
  refine ⟨h.writes.trans h'.writes, ?_, fun p a hsome => h'.rows p a (h.rows p a hsome), ?_⟩
  · obtain ⟨notes, marks, rfl⟩ := h.frame
    obtain ⟨notes', marks', rfl⟩ := h'.frame
    exact ⟨notes', marks', rfl⟩
  · intro p a
    obtain ⟨n, hdrop, htake⟩ := h.advance p a
    obtain ⟨m, hdrop', htake'⟩ := h'.advance p a
    rw [hdrop] at hdrop' htake'
    rw [h.accountKeys] at htake'
    refine ⟨n + m, by rw [hdrop', List.drop_drop], fun row hrow => ?_⟩
    rw [List.take_add, List.mem_append] at hrow
    rcases hrow with hrow | hrow
    · exact htake row hrow
    · exact htake' row hrow

theorem unscanned_subset (h : ScanRun derive s s') (p a : Nat) :
    s'.unscanned p a ⊆ s.unscanned p a := by
  obtain ⟨n, hdrop, -⟩ := h.advance p a
  rw [hdrop]
  exact List.drop_subset n _

theorem length_unscanned_le (h : ScanRun derive s s') (p a : Nat) :
    (s'.unscanned p a).length ≤ (s.unscanned p a).length := by
  obtain ⟨n, hdrop, -⟩ := h.advance p a
  rw [hdrop, List.length_drop]
  exact Nat.sub_le _ _

end ScanRun

/-- A mark at the start changes nothing of what is left to scan. -/
theorem scanMark_insert (s : Storage) (p a q b : Nat) :
    Storage.scanMark { s with
      accountCommitmentScan := Table.insert s.accountCommitmentScan ⟨p, a, 0⟩ } q b =
      s.scanMark q b := by
  unfold Storage.scanMark
  rw [scanMark?_insert]
  cases s.scanMark? q b with
  | none =>
      by_cases h : p = q ∧ a = b
      · simp [h]
      · simp [h]
  | some m => rfl

theorem insertScanRow_outcome (derive : DeriveNoteFn)
    (haccount : account ∈ getAccountsWithLatestKeypairs s) :
    Outcome (insertScanRow poolContractId account) s
      (fun _ s' => ScanRun derive s s' ∧ (∀ p a, s'.scanMark p a = s.scanMark p a) ∧
        (s'.scanMark? poolContractId account.accountId).isSome)
      (fun _ _ => ¬ s.contracts.any fun c => c.rowid = poolContractId) := by
  unfold insertScanRow
  refine Outcome.get_bind (Outcome.ite ?_ fun hnone => Outcome.ite ?_ ?_)
  · exact fun hsome => .pure ⟨.refl s, fun _ _ => rfl, hsome⟩
  · exact fun hmissing => .throw
      (hmissing.resolve_right (not_not_intro (exists_account_of_mem haccount)))
  · refine fun _ => .set ⟨?_, fun p a => scanMark_insert s _ _ p a, ?_⟩
    · refine .of_marks (.single (.scanMarks _)) ⟨_, _, rfl⟩ (fun p a hsome => ?_)
        fun p a => scanMark_insert s _ _ p a
      rw [scanMark?_insert, Option.isSome_or, hsome, Bool.true_or]
    · rw [scanMark?_insert, if_pos ⟨rfl, rfl⟩]
      simp

theorem lastCommitmentId_outcome
    (hmark : (s.scanMark? poolContractId account.accountId).isSome) {E : String → Storage → Prop} :
    Outcome (lastCommitmentId poolContractId account) s
      (fun last s' => s' = s ∧ last = s.scanMark poolContractId account.accountId) E := by
  unfold lastCommitmentId
  obtain ⟨last, hlast⟩ := Option.isSome_iff_exists.mp hmark
  refine Outcome.get_bind ?_
  simp only [hlast]
  exact .pure ⟨rfl, by simp [Storage.scanMark, hlast]⟩

/-- A part of the scan that writes notes only. -/
def NotesRun (derive : DeriveNoteFn) (s s' : Storage) : Prop :=
  Writes derive s s' ∧ ∃ notes, s' = { s with userNotes := notes }

theorem NotesRun.scanRun (h : NotesRun derive s s') : ScanRun derive s s' := by
  obtain ⟨hwrites, notes, rfl⟩ := h
  exact .of_marks hwrites ⟨notes, _, rfl⟩ (fun _ _ hsome => hsome) fun _ _ => rfl

theorem NotesRun.scanMark? (h : NotesRun derive s s') (p a : Nat) :
    s'.scanMark? p a = s.scanMark? p a := by
  obtain ⟨_, notes, rfl⟩ := h
  rfl

theorem NotesRun.scanMark (h : NotesRun derive s s') (p a : Nat) :
    s'.scanMark p a = s.scanMark p a := congrArg (Option.getD · 0) (h.scanMark? p a)

theorem NotesRun.unscanned (h : NotesRun derive s s') (p a : Nat) :
    s'.unscanned p a = s.unscanned p a :=
  unscanned_congr (h.scanRun.poolRows p) (h.scanMark p a)

theorem nullifierId?_mem {nullifier : Fr} {id : Nat}
    (h : s.nullifierId? poolContractId nullifier = some id) :
    ∃ n ∈ s.poolNullifiers, n.rowid = id ∧ n.columns.nullifier = nullifier ∧
      s.eventContract? n.columns.id = some poolContractId := by
  unfold Storage.nullifierId? at h
  obtain ⟨n, hn, hid⟩ := Option.map_eq_some_iff.mp h
  obtain ⟨hpool, hnullifier⟩ : s.eventContract? n.columns.id = some poolContractId ∧
      n.columns.nullifier = nullifier := by simpa using List.find?_some hn
  exact ⟨n, List.mem_of_find?_eq_some hn, hid, hnullifier, hpool⟩

/-- Only `derive` can fail: what a note refers to exists. -/
theorem scanRow_outcome {row : PoolCommitmentRow}
    (haccount : account ∈ getAccountsWithLatestKeypairs s) (hrow : row ∈ s.poolRows poolContractId) :
    Outcome (scanRow derive poolContractId account row) s
      (fun _ s' => NotesRun derive s s' ∧ ∃ derived, derive account row = .ok derived)
      (fun e _ => derive account row = .error e) := by
  unfold scanRow
  cases hderive : derive account row with
  | error e => exact .throw rfl
  | ok derived =>
      cases derived with
      | none => exact .pure ⟨⟨.refl, _, rfl⟩, _, rfl⟩
      | some derived =>
          refine Outcome.get_bind (Outcome.get_bind ?_)
          refine Outcome.ite (fun _ => .pure ⟨⟨.refl, _, rfl⟩, _, rfl⟩) fun _ => ?_
          refine Outcome.ite (fun hmissing => ?_) fun _ => .set ⟨⟨?_, _, rfl⟩, _, rfl⟩
          · obtain ⟨c, hc, hpool, rfl⟩ := mem_poolRows.mp hrow
            exfalso
            rcases hmissing with hmissing | hmissing | hmissing
            · exact hmissing (exists_account_of_mem haccount)
            · exact hmissing (List.any_eq_true.mpr ⟨c, hc, by simp⟩)
            · refine hmissing ((Option.all_eq_true _ _).mpr fun id hid => ?_)
              obtain ⟨n, hn, hrowid, -⟩ := nullifierId?_mem hid
              exact List.any_eq_true.mpr ⟨n, hn, by simpa using hrowid⟩
          · exact .single (.note poolContractId account row derived haccount hrow hderive)

/-- The commitments of one turn. -/
theorem scanRows_outcome {rows : List PoolCommitmentRow}
    (haccount : account ∈ getAccountsWithLatestKeypairs s)
    (hrows : rows ⊆ s.poolRows poolContractId) :
    Outcome (forM rows (scanRow derive poolContractId account)) s
      (fun _ s' => NotesRun derive s s' ∧
        ∀ row ∈ rows, ∃ derived, derive account row = .ok derived)
      (fun e _ => ∃ row ∈ rows, derive account row = .error e) := by
  refine Outcome.forM_mem (fun row hrow s₁ hs₁ => ?_) s ⟨.refl, _, rfl⟩
  obtain ⟨hwrites, notes, rfl⟩ := hs₁
  have hbody : Outcome (scanRow derive poolContractId account row) { s with userNotes := notes }
      (fun _ s₂ => NotesRun derive { s with userNotes := notes } s₂ ∧
        ∃ derived, derive account row = .ok derived)
      (fun e _ => derive account row = .error e) := scanRow_outcome haccount (hrows hrow)
  refine hbody.imp (fun _ s₂ hs₂ => ⟨?_, hs₂.2⟩) fun e _ he => ⟨row, hrow, he⟩
  obtain ⟨⟨hwrites', notes', rfl⟩, -⟩ := hs₂
  exact ⟨hwrites.trans hwrites', notes', rfl⟩

/-- Past the largest number that was read comes what was not read. -/
theorem unscanned_of_highWater (hordered : Table.Ordered s.poolCommitments) {p a n : Nat}
    (hrows : s'.poolRows p = s.poolRows p)
    (hmark : s'.scanMark p a = Table.highWater PoolCommitmentRow.commitmentId (s.scanMark p a)
      ((s.unscanned p a).take n)) : s'.unscanned p a = (s.unscanned p a).drop n := by
  have hafter := commitmentsAfter_highWater hordered p (s.scanMark p a) n
  unfold Storage.unscanned at hmark ⊢
  rw [hmark, ← hafter]
  unfold Storage.commitmentsAfter
  rw [hrows]

/-- Moving a mark: it writes the marks only, and no other one. -/
theorem setScanMark_outcome (s : Storage) (last : Nat) :
    Outcome (setScanMark poolContractId account last) s
      (fun _ s' => (∃ marks, s' = { s with accountCommitmentScan := marks }) ∧
        ∀ q b, s'.scanMark? q b = (s.scanMark? q b).map fun m =>
          if poolContractId = q ∧ account.accountId = b then last else m) fun _ _ => False :=
  .modify ⟨⟨_, rfl⟩, scanMark?_setScanMark s poolContractId account.accountId last⟩

/-- Moving the mark of an account past what it was offered. -/
theorem ScanRun.setMark (hordered : Table.Ordered s.poolCommitments)
    (haccount : account ∈ getAccountsWithLatestKeypairs s) {n : Nat}
    (hmark : (s.scanMark? poolContractId account.accountId).isSome)
    (hrows : ∀ row ∈ (s.unscanned poolContractId account.accountId).take n,
      ∃ derived, derive account row = .ok derived) :
    Outcome (setScanMark poolContractId account
        (Table.highWater PoolCommitmentRow.commitmentId
          (s.scanMark poolContractId account.accountId)
          ((s.unscanned poolContractId account.accountId).take n))) s
      (fun _ s' => ScanRun derive s s' ∧ s'.unscanned poolContractId account.accountId =
        (s.unscanned poolContractId account.accountId).drop n) fun _ _ => False := by
  generalize hhigh : Table.highWater PoolCommitmentRow.commitmentId _ _ = high
  refine (setScanMark_outcome s high).imp (fun _ s' hs' => ?_) fun _ _ h => h
  obtain ⟨⟨marks, hs'⟩, hmark?⟩ := hs'
  have hpool : ∀ p, s'.poolRows p = s.poolRows p := fun p => by
    subst hs'
    rfl
  have hread : s'.unscanned poolContractId account.accountId =
      (s.unscanned poolContractId account.accountId).drop n := by
    obtain ⟨m, hm⟩ := Option.isSome_iff_exists.mp hmark
    refine unscanned_of_highWater hordered (hpool _) ?_
    rw [hhigh]
    simp [Storage.scanMark, hmark?, hm]
  refine ⟨⟨?_, ?_, fun q b hsome => ?_, fun q b => ?_⟩, hread⟩
  · subst hs'
    exact .single (.scanMarks _)
  · subst hs'
    exact ⟨_, _, rfl⟩
  · rw [hmark?, Option.isSome_map]
    exact hsome
  · by_cases h : poolContractId = q ∧ account.accountId = b
    · obtain ⟨rfl, rfl⟩ := h
      exact ⟨n, hread, fun row hrow => ⟨account, haccount, rfl, hrows row hrow⟩⟩
    · refine ⟨0, ?_, by simp⟩
      have hsame : s'.scanMark q b = s.scanMark q b := by
        unfold Storage.scanMark
        rw [hmark?]
        simp only [if_neg h, Option.map_id']
      rw [List.drop_zero]
      exact unscanned_congr (hpool q) hsame

/-- One turn of an account. -/
theorem scanAccount_outcome (hordered : Table.Ordered s.poolCommitments)
    (haccount : account ∈ getAccountsWithLatestKeypairs s)
    (hmark : (s.scanMark? poolContractId account.accountId).isSome) (poolQuota : Nat) :
    Outcome (scanAccount derive poolContractId account poolQuota) s
      (fun scanned s' => ScanRun derive s s' ∧
        scanned = min (min poolQuota accountChunk)
          (s.unscanned poolContractId account.accountId).length ∧
        s'.unscanned poolContractId account.accountId =
          (s.unscanned poolContractId account.accountId).drop scanned ∧ (scanned = 0 → s' = s))
      (fun e _ => ∃ row ∈ s.unscanned poolContractId account.accountId,
        derive account row = .error e) := by
  unfold scanAccount
  refine Outcome.bind (lastCommitmentId_outcome hmark) fun last s₀ hlast => ?_
  obtain ⟨rfl, rfl⟩ := hlast
  refine Outcome.get_bind ?_
  show Outcome (if ((s₀.unscanned poolContractId account.accountId).take
    (min poolQuota accountChunk)).isEmpty then pure 0 else _) s₀ _ _
  generalize hn : min poolQuota accountChunk = n
  have hlength : ((s₀.unscanned poolContractId account.accountId).take n).length =
      min n (s₀.unscanned poolContractId account.accountId).length := List.length_take
  have hdrop : (s₀.unscanned poolContractId account.accountId).drop n =
      (s₀.unscanned poolContractId account.accountId).drop
        ((s₀.unscanned poolContractId account.accountId).take n).length := by
    rw [hlength]
    rcases Nat.le_total n (s₀.unscanned poolContractId account.accountId).length with hle | hle
    · rw [Nat.min_eq_left hle]
    · rw [Nat.min_eq_right hle, List.drop_length, List.drop_eq_nil_of_le hle]
  refine Outcome.ite (fun hempty => .pure ⟨.refl s₀, ?_, rfl, fun _ => rfl⟩) fun hnonempty => ?_
  · rw [← hlength, List.isEmpty_iff.mp hempty]
    rfl
  · have hrows : (s₀.unscanned poolContractId account.accountId).take n ⊆
        s₀.poolRows poolContractId := fun row hrow =>
      (mem_unscanned.mp (List.take_subset n _ hrow)).1
    refine Outcome.bind ((scanRows_outcome haccount hrows).imp (fun _ _ h => h) ?_)
      fun _ s₁ hs₁ => ?_
    · intro e _ he
      obtain ⟨row, hrow, herror⟩ := he
      exact ⟨row, List.take_subset n _ hrow, herror⟩
    · obtain ⟨hnotes, hok⟩ := hs₁
      have hok₁ : ∀ row ∈ (s₁.unscanned poolContractId account.accountId).take n,
          ∃ derived, derive account row = .ok derived := by
        rw [hnotes.unscanned]
        exact hok
      have hset := ScanRun.setMark (hnotes.scanRun.poolCommitments ▸ hordered)
        (hnotes.scanRun.accountKeys ▸ haccount) (hnotes.scanMark? _ _ ▸ hmark) hok₁
      rw [hnotes.scanMark, hnotes.unscanned] at hset
      refine Outcome.bind (hset.imp (fun _ _ h => h) fun _ _ h => h.elim) fun _ s₂ hs₂ => .pure ?_
      obtain ⟨hrun, hread⟩ := hs₂
      refine ⟨hnotes.scanRun.trans hrun, hlength, hread.trans hdrop, fun hzero => ?_⟩
      exact absurd (List.isEmpty_iff.mpr (List.length_eq_zero_iff.mp hzero)) hnonempty

/-- Why the scan of a pool can fail: `derive` fails on a commitment that an account was not
offered yet. -/
def DeriveFails (derive : DeriveNoteFn) (s : Storage) (accounts : List AccountKeys)
    (poolContractId : Nat) (e : String) : Prop :=
  ∃ account ∈ accounts, ∃ row ∈ s.unscanned poolContractId account.accountId,
    derive account row = .error e

theorem DeriveFails.mono {e : String} {accounts' : List AccountKeys}
    (h : DeriveFails derive s' accounts poolContractId e) (hrun : ScanRun derive s s')
    (haccounts : accounts ⊆ accounts') : DeriveFails derive s accounts' poolContractId e := by
  obtain ⟨account, haccount, row, hrow, herror⟩ := h
  exact ⟨account, haccounts haccount, row, hrun.unscanned_subset _ _ hrow, herror⟩

/-- Some account was offered more commitments of a pool. -/
def Progressed (s s' : Storage) (accounts : List AccountKeys) (poolContractId : Nat) : Prop :=
  ∃ account ∈ accounts, (s'.unscanned poolContractId account.accountId).length <
    (s.unscanned poolContractId account.accountId).length

theorem Progressed.before {accounts' : List AccountKeys}
    (h : Progressed s' s'' accounts poolContractId) (hrun : ScanRun derive s s')
    (haccounts : accounts ⊆ accounts') : Progressed s s'' accounts' poolContractId := by
  obtain ⟨account, haccount, hlt⟩ := h
  exact ⟨account, haccounts haccount, hlt.trans_le (hrun.length_unscanned_le _ _)⟩

theorem Progressed.after (h : Progressed s s' accounts poolContractId)
    (hrun : ScanRun derive s' s'') : Progressed s s'' accounts poolContractId := by
  obtain ⟨account, haccount, hlt⟩ := h
  exact ⟨account, haccount, (hrun.length_unscanned_le _ _).trans_lt hlt⟩

/-- One cycle over the accounts. Without progress there was nothing to scan. -/
theorem scanCycle_outcome (hordered : Table.Ordered s.poolCommitments)
    (haccounts : accounts ⊆ getAccountsWithLatestKeypairs s)
    (hmarks : ∀ account ∈ accounts, (s.scanMark? poolContractId account.accountId).isSome)
    (poolQuota : Nat) :
    Outcome (scanCycle derive poolContractId accounts poolQuota) s
      (fun result s' => ScanRun derive s s' ∧
        (result.2 = true → result.1 < poolQuota ∧ Progressed s s' accounts poolContractId) ∧
        (result.2 = false → result.1 = poolQuota ∧ s' = s ∧
          (0 < poolQuota → ∀ account ∈ accounts, s.unscanned poolContractId account.accountId = [])))
      (fun e _ => DeriveFails derive s accounts poolContractId e) := by
  induction accounts generalizing s poolQuota with
  | nil => exact .pure ⟨.refl s, by simp, by simp⟩
  | cons account accounts ih =>
      refine Outcome.ite (fun hzero => .pure ⟨.refl s, by simp, fun _ => ⟨rfl, rfl, ?_⟩⟩)
        fun hquota => ?_
      · exact fun hpos => absurd hzero hpos.ne'
      · have hturn : Outcome (scanAccount derive poolContractId account poolQuota) s _ _ :=
          scanAccount_outcome hordered (haccounts List.mem_cons_self)
            (hmarks account List.mem_cons_self) poolQuota
        refine Outcome.bind (hturn.imp (fun _ _ h => h) ?_) fun scanned s₁ hs₁ => ?_
        · intro e _ he
          exact ⟨account, List.mem_cons_self, he⟩
        · obtain ⟨hrun, hscanned, hread, hsame⟩ := hs₁
          have hrest := ih (hrun.poolCommitments ▸ hordered)
            (fun a ha => hrun.accountKeys ▸ haccounts (List.mem_cons_of_mem _ ha))
            (fun a ha => hrun.rows _ _ (hmarks a (List.mem_cons_of_mem _ ha)))
            (poolQuota - scanned)
          refine Outcome.bind (hrest.imp (fun _ _ h => h) ?_) fun result s₂ hs₂ => .pure ?_
          · exact fun e _ he => he.mono hrun fun a ha => List.mem_cons_of_mem _ ha
          · obtain ⟨hrun', hprogress, hidle⟩ := hs₂
            have hleft : result.1 ≤ poolQuota - scanned := by
              cases hresult : result.2 with
              | true => exact (hprogress hresult).1.le
              | false => exact (hidle hresult).1.le
            by_cases hzero : scanned = 0
            · obtain rfl := hsame hzero
              have hempty : s₁.unscanned poolContractId account.accountId = [] := by
                refine List.length_eq_zero_iff.mp ?_
                unfold accountChunk at hscanned
                omega
              simp only [hzero, Nat.sub_zero, ne_eq, not_true_eq_false, decide_false,
                Bool.false_or] at hprogress hidle ⊢
              refine ⟨hrun', fun htrue => ?_, fun hfalse => ?_⟩
              · obtain ⟨hlt, hprogressed⟩ := hprogress htrue
                exact ⟨hlt, hprogressed.before hrun fun a ha => List.mem_cons_of_mem _ ha⟩
              · obtain ⟨heq, hsame', hnone⟩ := hidle hfalse
                refine ⟨heq, hsame', fun hpos a ha => ?_⟩
                rcases List.mem_cons.mp ha with rfl | ha
                · exact hempty
                · exact hnone hpos a ha
            · have hsome : decide (scanned ≠ 0) = true := decide_eq_true hzero
              rw [hsome, Bool.true_or]
              refine ⟨hrun.trans hrun', fun _ => ⟨by omega, ?_⟩, fun hfalse => by cases hfalse⟩
              have hhere : Progressed s s₁ (account :: accounts) poolContractId := by
                refine ⟨account, List.mem_cons_self, ?_⟩
                rw [hread, List.length_drop]
                omega
              exact hhere.after hrun'

/-- The cycles: whether the first of them progressed. -/
theorem scanLoop_outcome (hordered : Table.Ordered s.poolCommitments)
    (haccounts : accounts ⊆ getAccountsWithLatestKeypairs s)
    (hmarks : ∀ account ∈ accounts, (s.scanMark? poolContractId account.accountId).isSome)
    (rounds poolQuota : Nat) :
    Outcome (scanLoop derive poolContractId accounts rounds poolQuota) s
      (fun progressed s' => ScanRun derive s s' ∧
        (progressed = true → Progressed s s' accounts poolContractId) ∧
        (progressed = false → s' = s ∧ (0 < rounds → 0 < poolQuota →
          ∀ account ∈ accounts, s.unscanned poolContractId account.accountId = [])))
      (fun e _ => DeriveFails derive s accounts poolContractId e) := by
  induction rounds generalizing s poolQuota with
  | zero => exact .pure ⟨.refl s, by simp, by simp⟩
  | succ rounds ih =>
      refine Outcome.ite (fun hzero => .pure ⟨.refl s, by simp, ?_⟩) fun _ => ?_
      · exact fun _ => ⟨rfl, fun _ hpos => absurd hzero hpos.ne'⟩
      · refine Outcome.bind (scanCycle_outcome hordered haccounts hmarks poolQuota)
          fun result s₁ hs₁ => ?_
        obtain ⟨hrun, hprogress, hidle⟩ := hs₁
        refine Outcome.ite (fun htrue => ?_) fun hfalse => ?_
        · have hrest := ih (hrun.poolCommitments ▸ hordered)
            (fun a ha => hrun.accountKeys ▸ haccounts ha)
            (fun a ha => hrun.rows _ _ (hmarks a ha)) result.1
          refine Outcome.bind (hrest.imp (fun _ _ h => h) ?_) fun _ s₂ hs₂ => .pure ?_
          · exact fun e _ he => he.mono hrun (List.Subset.refl accounts)
          · refine ⟨hrun.trans hs₂.1, fun _ => ?_, fun h => by cases h⟩
            exact (hprogress htrue).2.after hs₂.1
        · obtain ⟨-, hsame, hnone⟩ := hidle (by simpa using hfalse)
          exact .pure ⟨hrun, by simp, fun _ => ⟨hsame, fun _ hpos => hnone hpos⟩⟩

/-- More rounds than the quota change nothing: every cycle with progress lowers the quota. -/
theorem scanLoop_fuel (hordered : Table.Ordered s.poolCommitments)
    (haccounts : accounts ⊆ getAccountsWithLatestKeypairs s)
    (hmarks : ∀ account ∈ accounts, (s.scanMark? poolContractId account.accountId).isSome)
    {rounds rounds' poolQuota : Nat} (h : poolQuota ≤ rounds) (h' : poolQuota ≤ rounds') :
    (scanLoop derive poolContractId accounts rounds poolQuota).run s =
      (scanLoop derive poolContractId accounts rounds' poolQuota).run s := by
  induction rounds generalizing s rounds' poolQuota with
  | zero =>
      obtain rfl := Nat.le_zero.mp h
      cases rounds' <;> rfl
  | succ rounds ih =>
      cases rounds' with
      | zero =>
          obtain rfl := Nat.le_zero.mp h'
          rfl
      | succ rounds' =>
          unfold scanLoop
          by_cases hzero : poolQuota = 0
          · rw [if_pos hzero, if_pos hzero]
          · rw [if_neg hzero, if_neg hzero, EStateM.run_bind, EStateM.run_bind]
            cases hcycle : (scanCycle derive poolContractId accounts poolQuota).run s with
            | error e s₁ => rfl
            | ok result s₁ =>
                obtain ⟨hrun, hprogress, -⟩ :=
                  (scanCycle_outcome hordered haccounts hmarks poolQuota).ok hcycle
                dsimp only
                cases hresult : result.2 with
                | false => rfl
                | true =>
                    have hless := (hprogress hresult).1
                    have hsame := ih (hrun.poolCommitments ▸ hordered)
                      (fun a ha => hrun.accountKeys ▸ haccounts ha)
                      (fun a ha => hrun.rows _ _ (hmarks a ha))
                      (show result.1 ≤ rounds by omega) (show result.1 ≤ rounds' by omega)
                    rw [if_pos rfl, if_pos rfl, EStateM.run_bind, EStateM.run_bind, hsame]

/-- Every account gets a mark. -/
theorem insertScanRows_outcome (derive : DeriveNoteFn)
    (haccounts : accounts ⊆ getAccountsWithLatestKeypairs s) :
    Outcome (forM accounts (insertScanRow poolContractId)) s
      (fun _ s' => ScanRun derive s s' ∧ (∀ p a, s'.scanMark p a = s.scanMark p a) ∧
        ∀ account ∈ accounts, (s'.scanMark? poolContractId account.accountId).isSome)
      (fun _ _ => ¬ s.contracts.any fun c => c.rowid = poolContractId) := by
  induction accounts generalizing s with
  | nil => exact .pure ⟨.refl s, fun _ _ => rfl, by simp⟩
  | cons account accounts ih =>
      rw [List.forM_cons]
      refine Outcome.bind (insertScanRow_outcome derive (haccounts List.mem_cons_self))
        fun _ s₁ hs₁ => ?_
      obtain ⟨hrun, hsame, hmark⟩ := hs₁
      have hrest := ih (s := s₁)
        fun a ha => hrun.accountKeys ▸ haccounts (List.mem_cons_of_mem account ha)
      refine hrest.imp (fun _ s₂ hs₂ => ?_) fun _ _ h => hrun.contracts ▸ h
      obtain ⟨hrun', hsame', hmarks⟩ := hs₂
      refine ⟨hrun.trans hrun', fun p a => (hsame' p a).trans (hsame p a), fun a ha => ?_⟩
      rcases List.mem_cons.mp ha with rfl | ha
      · exact hrun'.rows _ _ hmark
      · exact hmarks a ha

/-- The scan of a pool. -/
theorem scanPool_outcome (hordered : Table.Ordered s.poolCommitments) {poolQuota : Nat}
    (hquota : 0 < poolQuota) :
    Outcome (scanPool derive (getAccountsWithLatestKeypairs s) poolContractId poolQuota) s
      (fun progressed s' => ScanRun derive s s' ∧
        (progressed = true → Progressed s s' (getAccountsWithLatestKeypairs s) poolContractId) ∧
        (progressed = false → (∀ p a, s'.unscanned p a = s.unscanned p a) ∧
          ∀ account ∈ getAccountsWithLatestKeypairs s,
            s.unscanned poolContractId account.accountId = []))
      (fun e s' => s' = s ∧ ((¬ s.contracts.any fun c => c.rowid = poolContractId) ∨
        DeriveFails derive s (getAccountsWithLatestKeypairs s) poolContractId e)) := by
  unfold scanPool
  rw [if_neg hquota.ne']
  generalize haccounts : getAccountsWithLatestKeypairs s = accounts
  have hsubset : accounts ⊆ getAccountsWithLatestKeypairs s := haccounts ▸ List.Subset.refl _
  refine outcome_transaction (E := fun e s' => s' = s ∧ _) ?_
  refine Outcome.bind ((insertScanRows_outcome derive hsubset).imp (fun _ _ h => h)
    fun _ _ h => ⟨rfl, .inl h⟩) fun _ s₁ hs₁ => ?_
  obtain ⟨hrun, hsameMarks, hmarks⟩ := hs₁
  have hsame : ∀ p a, s₁.unscanned p a = s.unscanned p a :=
    fun p a => unscanned_congr (hrun.poolRows p) (hsameMarks p a)
  have hloop : Outcome (scanLoop derive poolContractId accounts poolQuota poolQuota) s₁ _ _ :=
    scanLoop_outcome (hrun.poolCommitments ▸ hordered) (hrun.accountKeys ▸ hsubset) hmarks
      poolQuota poolQuota
  refine hloop.imp (fun progressed s₂ hs₂ => ?_) fun e _ he => ⟨rfl, .inr ?_⟩
  · obtain ⟨hrun', hprogress, hidle⟩ := hs₂
    refine ⟨hrun.trans hrun', fun htrue => ?_, fun hfalse => ?_⟩
    · exact (hprogress htrue).before hrun (List.Subset.refl accounts)
    · obtain ⟨rfl, hnone⟩ := hidle hfalse
      refine ⟨hsame, fun account haccount => ?_⟩
      rw [← hsame]
      exact hnone hquota hquota account haccount
  · exact he.mono hrun (List.Subset.refl accounts)

/-- The pools in turn. -/
theorem scanPools_outcome (hordered : Table.Ordered s.poolCommitments)
    {pools : List (Nat × Nat)} (hquotas : ∀ pool ∈ pools, 0 < pool.2) :
    Outcome (scanPools derive (getAccountsWithLatestKeypairs s) pools) s
      (fun progressed s' => ScanRun derive s s' ∧
        (progressed = true →
          ∃ pool ∈ pools, Progressed s s' (getAccountsWithLatestKeypairs s) pool.1) ∧
        (progressed = false → (∀ p a, s'.unscanned p a = s.unscanned p a) ∧
          ∀ pool ∈ pools, ∀ account ∈ getAccountsWithLatestKeypairs s,
            s.unscanned pool.1 account.accountId = []))
      (fun e s' => ScanRun derive s s' ∧ ∃ pool ∈ pools,
        (¬ s.contracts.any fun c => c.rowid = pool.1) ∨
          DeriveFails derive s (getAccountsWithLatestKeypairs s) pool.1 e) := by
  induction pools generalizing s with
  | nil => exact .pure ⟨.refl s, by simp, by simp⟩
  | cons pool pools ih =>
      refine Outcome.bind ((scanPool_outcome hordered (hquotas pool List.mem_cons_self)).imp
        (fun _ _ h => h) fun e s' h => ?_) fun progressed s₁ hs₁ => ?_
      · obtain ⟨rfl, hreason⟩ := h
        exact ⟨.refl _, pool, List.mem_cons_self, hreason⟩
      · obtain ⟨hrun, hprogress, hidle⟩ := hs₁
        have hrest := ih (s := s₁) (hrun.poolCommitments ▸ hordered)
          fun p hp => hquotas p (List.mem_cons_of_mem pool hp)
        rw [hrun.accountKeys] at hrest
        refine Outcome.bind (hrest.imp (fun _ _ h => h) fun e s' h => ?_) fun rest s₂ hs₂ => .pure ?_
        · obtain ⟨hrun', p, hp, hreason⟩ := h
          refine ⟨hrun.trans hrun', p, List.mem_cons_of_mem pool hp, ?_⟩
          rcases hreason with hmissing | hfails
          · exact .inl (hrun.contracts ▸ hmissing)
          · exact .inr (hfails.mono hrun (List.Subset.refl _))
        · obtain ⟨hrun', hprogress', hidle'⟩ := hs₂
          refine ⟨hrun.trans hrun', fun htrue => ?_, fun hfalse => ?_⟩
          · rcases (Bool.or_eq_true _ _).mp htrue with htrue | htrue
            · exact ⟨pool, List.mem_cons_self, (hprogress htrue).after hrun'⟩
            · obtain ⟨p, hp, hprogressed⟩ := hprogress' htrue
              exact ⟨p, List.mem_cons_of_mem pool hp,
                hprogressed.before hrun (List.Subset.refl _)⟩
          · obtain ⟨hfirst, hothers⟩ := Bool.or_eq_false_iff.mp hfalse
            obtain ⟨hsame, hnone⟩ := hidle hfirst
            obtain ⟨hsame', hnone'⟩ := hidle' hothers
            refine ⟨fun p a => (hsame' p a).trans (hsame p a), fun p hp a ha => ?_⟩
            rcases List.mem_cons.mp hp with rfl | hp
            · exact hnone a ha
            · rw [← hsame]
              exact hnone' p hp a ha

/-- The pools that have commitments. -/
def Storage.commitmentPools (s : Storage) : List Nat :=
  s.poolIds ((Table.columns s.poolCommitments).map NewCommitmentEvent.id)

/-- They are the pools that a commitment is in. -/
theorem mem_commitmentPools :
    poolContractId ∈ s.commitmentPools ↔ ∃ row, row ∈ s.poolRows poolContractId := by
  unfold Storage.commitmentPools
  rw [mem_poolIds]
  constructor
  · intro h
    obtain ⟨eventId, hid, hpool⟩ := h
    obtain ⟨event, hevent, rfl⟩ := List.mem_map.mp hid
    obtain ⟨c, hc, rfl⟩ := List.mem_map.mp hevent
    exact ⟨_, mem_poolRows.mpr ⟨c, hc, hpool, rfl⟩⟩
  · intro h
    obtain ⟨row, hrow⟩ := h
    obtain ⟨c, hc, hpool, -⟩ := mem_poolRows.mp hrow
    exact ⟨_, List.mem_map_of_mem (Table.mem_columns hc), hpool⟩

/-- A pool without commitments has nothing to scan. -/
theorem unscanned_eq_nil (h : poolContractId ∉ s.commitmentPools) (a : Nat) :
    s.unscanned poolContractId a = [] := by
  refine List.eq_nil_iff_forall_not_mem.mpr fun row hrow => h ?_
  exact mem_commitmentPools.mpr ⟨row, (mem_unscanned.mp hrow).1⟩

theorem length_distribute (remainder nextPool : Nat) (quotas : List Nat) :
    (distribute remainder nextPool quotas).length = quotas.length := by
  induction remainder generalizing nextPool quotas with
  | zero => rfl
  | succ remainder ih =>
      rw [distribute, ih]
      exact List.length_modify ..

theorem distribute_pos {quotas : List Nat} (h : ∀ quota ∈ quotas, 0 < quota)
    (remainder nextPool : Nat) : ∀ quota ∈ distribute remainder nextPool quotas, 0 < quota := by
  induction remainder generalizing nextPool quotas with
  | zero => exact h
  | succ remainder ih =>
      refine ih (fun quota hquota => ?_) _
      obtain ⟨i, hi, rfl⟩ := List.mem_iff_getElem.mp hquota
      rw [List.getElem_modify]
      split
      · exact Nat.succ_pos _
      · exact h _ (List.getElem_mem _)

/-- Every pool gets a quota, however many there are. -/
theorem poolQuotas_pos {totalLimit poolCount : Nat} (hpools : 0 < poolCount) :
    ∀ quota ∈ poolQuotas totalLimit poolCount, 0 < quota := by
  refine distribute_pos (fun quota hquota => ?_) _ _
  obtain ⟨-, rfl⟩ := List.mem_replicate.mp hquota
  split
  · rename_i hle
    exact Nat.div_pos hle hpools
  · exact Nat.one_pos

theorem length_poolQuotas (totalLimit poolCount : Nat) :
    (poolQuotas totalLimit poolCount).length = poolCount := by
  unfold poolQuotas
  rw [length_distribute, List.length_replicate]

/-- Why a scan can fail. -/
def ScanFails (derive : DeriveNoteFn) (s : Storage) (e : String) : Prop :=
  UInt32.size ≤ s.commitmentPools.length ∨ ∃ p ∈ s.commitmentPools,
    (¬ s.contracts.any fun c => c.rowid = p) ∨
      DeriveFails derive s (getAccountsWithLatestKeypairs s) p e

/-- A scan that returns `true` has progressed; one that returns `false` had nothing to do. -/
theorem scan_outcome (hordered : Table.Ordered s.poolCommitments) (totalLimit : UInt32) :
    Outcome (scanCommitmentsForUserNotes totalLimit derive) s
      (fun progressed s' => ScanRun derive s s' ∧
        (progressed = true →
          ∃ p ∈ s.commitmentPools, Progressed s s' (getAccountsWithLatestKeypairs s) p) ∧
        (progressed = false → totalLimit ≠ 0 → (∀ p a, s'.unscanned p a = s.unscanned p a) ∧
          ∀ p, ∀ account ∈ getAccountsWithLatestKeypairs s,
            s.unscanned p account.accountId = []) ∧
        (getAccountsWithLatestKeypairs s ≠ [] → totalLimit ≠ 0 →
          s.commitmentPools.length < UInt32.size))
      (fun e s' => ScanRun derive s s' ∧ ScanFails derive s e ∧
        getAccountsWithLatestKeypairs s ≠ []) := by
  unfold scanCommitmentsForUserNotes
  refine Outcome.get_bind (Outcome.ite (fun hnone => .pure ⟨.refl s, by simp, ?_, ?_⟩)
    fun hsome => ?_)
  · intro _ hlimit
    have hempty : getAccountsWithLatestKeypairs s = [] := by simpa using hnone.resolve_right hlimit
    exact ⟨fun _ _ => rfl, fun p account haccount => by simp [hempty] at haccount⟩
  · intro haccounts hlimit
    exact absurd (by simpa using hnone.resolve_right hlimit) haccounts
  · obtain ⟨hempty, hlimit⟩ := not_or.mp hsome
    have haccounts : getAccountsWithLatestKeypairs s ≠ [] := by simpa using hempty
    have hpos : 0 < totalLimit.toNat := by
      refine Nat.pos_of_ne_zero fun hzero => hlimit (UInt32.toNat_inj.mp hzero)
    show Outcome (if s.commitmentPools.isEmpty then pure false else _) s _ _
    refine Outcome.ite (fun hempty => .pure ⟨.refl s, by simp, fun _ _ => ?_, fun _ _ => ?_⟩)
      fun hnonempty => ?_
    · refine ⟨fun _ _ => rfl, fun p account _ => unscanned_eq_nil ?_ _⟩
      rw [List.isEmpty_iff.mp hempty]
      exact List.not_mem_nil
    · rw [List.isEmpty_iff.mp hempty]
      decide
    · refine Outcome.ite (fun hmany =>
        .throw ⟨.refl s, .inl (Nat.le_of_not_lt hmany), haccounts⟩) fun hfew => ?_
      have hcount : 0 < s.commitmentPools.length :=
        List.length_pos_of_ne_nil (by simpa using hnonempty)
      have hzip : (s.commitmentPools.zip (poolQuotas totalLimit.toNat
          s.commitmentPools.length)).map Prod.fst = s.commitmentPools :=
        List.map_fst_zip (length_poolQuotas _ _).ge
      have hquotas : ∀ pool ∈ s.commitmentPools.zip (poolQuotas totalLimit.toNat
          s.commitmentPools.length), 0 < pool.2 :=
        fun pool hpool => poolQuotas_pos hcount _ (List.of_mem_zip hpool).2
      have hpools : Outcome (scanPools derive _ _) s _ _ := scanPools_outcome hordered hquotas
      refine hpools.imp (fun progressed s' hs' => ?_) fun e s' he => ?_
      · obtain ⟨hrun, hprogress, hidle⟩ := hs'
        refine ⟨hrun, fun htrue => ?_, fun hfalse _ => ⟨(hidle hfalse).1, fun p a ha => ?_⟩,
          fun _ _ => not_not.mp hfew⟩
        · obtain ⟨pool, hpool, hprogressed⟩ := hprogress htrue
          exact ⟨pool.1, (List.of_mem_zip hpool).1, hprogressed⟩
        · by_cases hp : p ∈ s.commitmentPools
          · rw [← hzip] at hp
            obtain ⟨pool, hpool, rfl⟩ := List.mem_map.mp hp
            exact (hidle hfalse).2 pool hpool a ha
          · exact unscanned_eq_nil hp _
      · obtain ⟨hrun, pool, hpool, hreason⟩ := he
        exact ⟨hrun, .inr ⟨pool.1, (List.of_mem_zip hpool).1, hreason⟩, haccounts⟩

end Scan

end PrivatePayments.State
