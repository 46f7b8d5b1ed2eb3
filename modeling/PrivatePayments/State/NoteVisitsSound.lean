import PrivatePayments.State.NoteVisits
import PrivatePayments.State.SpentStatus

/-!
# PrivatePayments.State.NoteVisitsSound

The scan offers every commitment to every account once, in order.

A part of the scan that makes some calls of `derive` takes them from the front of what the
accounts were not offered yet (`VisitRun`), and makes no more of them than its quota. Over a
whole run, what an account was offered of a pool followed by what it was not offered yet is
the pool (`ScanOk.offered`): a batch of commitments is appended past every mark.
-/

namespace PrivatePayments.State

/-- `derive` always returns `Ok`. -/
def ReturnsOk (derive : DeriveNoteFnMut) : Prop :=
  ∀ calls account row, ∃ derived, derive calls account row = .ok derived

/-! ## Visits -/

section Visited

variable {made made' : List DeriveCall} {p a : Nat}

@[simp] theorem visited_nil : visited [] p a = [] := rfl

@[simp] theorem visited_append :
    visited (made ++ made') p a = visited made p a ++ visited made' p a := by
  simp [visited]

theorem mem_visited_of_mem {call : DeriveCall} (h : call ∈ made) :
    call.row ∈ visited made call.poolContractId call.account.accountId := by
  refine List.mem_map_of_mem (List.mem_filter.mpr ⟨h, ?_⟩)
  simp

/-- The calls of one turn. -/
theorem visited_turn (poolContractId : Nat) (account : AccountKeys)
    (rows : List PoolCommitmentRow) :
    visited (rows.map (DeriveCall.mk poolContractId account)) p a =
      if poolContractId = p ∧ account.accountId = a then rows else [] := by
  unfold visited
  rw [List.filter_map, List.map_map]
  by_cases h : poolContractId = p ∧ account.accountId = a
  · simp [h, Function.comp_def]
  · simp [h, Function.comp_def]

end Visited

/-- What a part of the scan does that makes the calls `made`: it writes notes and marks only,
keeps the rows of the marks, and moves the mark of an account in a pool past the commitments
it was offered, which are the first of those it was not offered before. -/
structure VisitRun (t t' : Storage × List DeriveCall) (made : List DeriveCall) : Prop where
  calls : t'.2 = t.2 ++ made
  frame : ∃ notes marks, t'.1 = { t.1 with userNotes := notes, accountCommitmentScan := marks }
  rows : ∀ p a, (t.1.scanMark? p a).isSome → (t'.1.scanMark? p a).isSome
  marks : ∀ p a, t'.1.scanMark p a = t.1.scanMark p a ∨
    ∃ row ∈ visited made p a, row.commitmentId = t'.1.scanMark p a
  accounts : ∀ call ∈ made, call.account ∈ getAccountsWithLatestKeypairs t.1
  advance : ∀ p a, visited made p a ++ t'.1.unscanned p a = t.1.unscanned p a

section Visits

variable {derive : DeriveNoteFnMut} {t t' t'' : Storage × List DeriveCall}
  {made made' : List DeriveCall} {poolContractId : Nat} {account : AccountKeys}
  {accounts : List AccountKeys}

namespace VisitRun

theorem poolRows (h : VisitRun t t' made) (p : Nat) : t'.1.poolRows p = t.1.poolRows p :=
  poolRows_of_frame h.frame p

theorem poolCommitments (h : VisitRun t t' made) :
    t'.1.poolCommitments = t.1.poolCommitments :=
  poolCommitments_of_frame h.frame

theorem contracts (h : VisitRun t t' made) : t'.1.contracts = t.1.contracts :=
  contracts_of_frame h.frame

theorem accountKeys (h : VisitRun t t' made) :
    getAccountsWithLatestKeypairs t'.1 = getAccountsWithLatestKeypairs t.1 :=
  accountKeys_of_frame h.frame

/-- A part that makes no call and moves no mark. -/
theorem of_marks (hcalls : t'.2 = t.2)
    (hframe : ∃ notes marks, t'.1 = { t.1 with userNotes := notes, accountCommitmentScan := marks })
    (hrows : ∀ p a, (t.1.scanMark? p a).isSome → (t'.1.scanMark? p a).isSome)
    (hmarks : ∀ p a, t'.1.scanMark p a = t.1.scanMark p a) : VisitRun t t' [] := by
  refine ⟨by simp [hcalls], hframe, hrows, fun p a => .inl (hmarks p a), by simp, fun p a => ?_⟩
  exact unscanned_congr (poolRows_of_frame hframe p) (hmarks p a)

theorem refl (t : Storage × List DeriveCall) : VisitRun t t [] :=
  of_marks rfl ⟨_, _, rfl⟩ (fun _ _ h => h) fun _ _ => rfl

theorem trans (h : VisitRun t t' made) (h' : VisitRun t' t'' made') :
    VisitRun t t'' (made ++ made') := by
  refine ⟨?_, ?_, fun p a hsome => h'.rows p a (h.rows p a hsome), fun p a => ?_,
    fun call hcall => ?_, fun p a => ?_⟩
  · rw [h'.calls, h.calls, List.append_assoc]
  · obtain ⟨notes, marks, hframe⟩ := h.frame
    obtain ⟨notes', marks', hframe'⟩ := h'.frame
    exact ⟨notes', marks', by rw [hframe', hframe]⟩
  · rcases h'.marks p a with hsame | ⟨row, hrow, hid⟩
    · rw [hsame]
      rcases h.marks p a with hsame | ⟨row, hrow, hid⟩
      · exact .inl hsame
      · exact .inr ⟨row, by simp [hrow], hid⟩
    · exact .inr ⟨row, by simp [hrow], hid⟩
  · rcases List.mem_append.mp hcall with hcall | hcall
    · exact h.accounts call hcall
    · rw [← h.accountKeys]
      exact h'.accounts call hcall
  · rw [visited_append, List.append_assoc, h'.advance, h.advance]

/-- Without a call nothing moves. -/
theorem idle (h : VisitRun t t' []) (p a : Nat) : t'.1.unscanned p a = t.1.unscanned p a :=
  h.advance p a

theorem visited_subset (h : VisitRun t t' made) (p a : Nat) :
    visited made p a ⊆ t.1.unscanned p a := by
  rw [← h.advance p a]
  exact List.subset_append_left _ _

/-- The turn of an account: its mark moves to the largest number it was offered. -/
theorem turn (hordered : Table.Ordered t.1.poolCommitments)
    (haccount : account ∈ getAccountsWithLatestKeypairs t.1)
    (hmark : (t.1.scanMark? poolContractId account.accountId).isSome) {n : Nat}
    (hframe : ∃ notes marks, t'.1 = { t.1 with userNotes := notes, accountCommitmentScan := marks })
    (hmarks : ∀ q b, t'.1.scanMark? q b = (t.1.scanMark? q b).map fun m =>
      if poolContractId = q ∧ account.accountId = b then
        Table.highWater PoolCommitmentRow.commitmentId
          (t.1.scanMark poolContractId account.accountId)
          ((t.1.unscanned poolContractId account.accountId).take n)
      else m)
    (hcalls : t'.2 = t.2 ++ ((t.1.unscanned poolContractId account.accountId).take n).map
      (DeriveCall.mk poolContractId account)) :
    VisitRun t t' (((t.1.unscanned poolContractId account.accountId).take n).map
      (DeriveCall.mk poolContractId account)) := by
  have hpool := poolRows_of_frame hframe
  obtain ⟨m, hm⟩ := Option.isSome_iff_exists.mp hmark
  have hhere : t'.1.scanMark poolContractId account.accountId =
      Table.highWater PoolCommitmentRow.commitmentId
        (t.1.scanMark poolContractId account.accountId)
        ((t.1.unscanned poolContractId account.accountId).take n) := by
    simp [Storage.scanMark, hmarks, hm]
  have hother : ∀ q b, ¬ (poolContractId = q ∧ account.accountId = b) →
      t'.1.scanMark q b = t.1.scanMark q b := by
    intro q b h
    unfold Storage.scanMark
    rw [hmarks]
    simp only [if_neg h, Option.map_id']
  refine ⟨hcalls, hframe, fun q b hsome => ?_, fun q b => ?_, fun call hcall => ?_, fun q b => ?_⟩
  · rw [hmarks, Option.isSome_map]
    exact hsome
  · by_cases h : poolContractId = q ∧ account.accountId = b
    · obtain ⟨rfl, rfl⟩ := h
      rw [visited_turn, if_pos ⟨rfl, rfl⟩, hhere]
      exact Table.highWater_mem_or
    · exact .inl (hother q b h)
  · obtain ⟨row, -, rfl⟩ := List.mem_map.mp hcall
    exact haccount
  · by_cases h : poolContractId = q ∧ account.accountId = b
    · obtain ⟨rfl, rfl⟩ := h
      rw [visited_turn, if_pos ⟨rfl, rfl⟩, unscanned_of_highWater hordered (hpool _) hhere,
        List.take_append_drop]
    · rw [visited_turn, if_neg h, List.nil_append]
      exact unscanned_congr (hpool q) (hother q b h)

end VisitRun

/-! ## Scan -/

/-- A recorded transaction that cannot fail is its body. -/
theorem transactionRecorded_outcome {α : Type} {x : ScanDb α}
    {Q : α → Storage × List DeriveCall → Prop} (h : Outcome x t Q fun _ _ => False) :
    Outcome (transactionRecorded x) t Q fun _ _ => False := by
  obtain ⟨a, t', hrun, hQ⟩ := h.exists_ok fun _ _ h => h
  refine (Outcome.of_ok (a := a) ?_).mpr hQ
  simp only [transactionRecorded, EStateM.run] at hrun ⊢
  rw [hrun]

/-- One commitment: the call is recorded, and a note may be written. -/
theorem scanRowRecorded_outcome (hderive : ReturnsOk derive) {row : PoolCommitmentRow}
    (haccount : account ∈ getAccountsWithLatestKeypairs t.1)
    (hrow : row ∈ t.1.poolRows poolContractId) :
    Outcome (scanRowRecorded derive poolContractId account row) t
      (fun _ t' => (∃ notes, t'.1 = { t.1 with userNotes := notes }) ∧
        t'.2 = t.2 ++ [⟨poolContractId, account, row⟩]) fun _ _ => False := by
  obtain ⟨derived, hok⟩ := hderive t.2 account row
  have hcall : Outcome (callDerive derive poolContractId account row) t
      (fun d t' => d = derived ∧ t' = (t.1, t.2 ++ [⟨poolContractId, account, row⟩]))
      fun _ _ => False := by
    have hrun : (callDerive derive poolContractId account row).run t =
        .ok derived (t.1, t.2 ++ [⟨poolContractId, account, row⟩]) := by
      simp only [callDerive, EStateM.run_bind, Recording.run_entries, Recording.run_record, hok]
      rfl
    exact (Outcome.of_ok hrun).mpr ⟨rfl, rfl⟩
  refine Outcome.bind hcall fun d t₁ ht₁ => ?_
  obtain ⟨rfl, rfl⟩ := ht₁
  have hbody : Outcome (scanRow (fun _ _ => .ok d) poolContractId account row) t.1 _ _ :=
    scanRow_outcome haccount hrow
  have hrecorded := Recording.onState_outcome
    (t := (t.1, t.2 ++ [(⟨poolContractId, account, row⟩ : DeriveCall)])) hbody
  refine hrecorded.imp (fun _ t₂ ht₂ => ?_) fun e _ he => by cases he
  obtain ⟨⟨⟨-, hnotes⟩, -⟩, hcalls⟩ := ht₂
  exact ⟨hnotes, hcalls⟩

/-- The commitments of one turn. -/
theorem scanRowsRecorded_outcome (hderive : ReturnsOk derive) {rows : List PoolCommitmentRow}
    (haccount : account ∈ getAccountsWithLatestKeypairs t.1)
    (hrows : rows ⊆ t.1.poolRows poolContractId) :
    Outcome (forM rows (scanRowRecorded derive poolContractId account)) t
      (fun _ t' => (∃ notes, t'.1 = { t.1 with userNotes := notes }) ∧
        t'.2 = t.2 ++ rows.map (DeriveCall.mk poolContractId account)) fun _ _ => False := by
  induction rows generalizing t with
  | nil => exact .pure ⟨⟨_, rfl⟩, by simp⟩
  | cons row rows ih =>
      rw [List.forM_cons]
      refine Outcome.bind (scanRowRecorded_outcome hderive haccount (hrows List.mem_cons_self))
        fun _ t₁ ht₁ => ?_
      obtain ⟨⟨notes, hnotes⟩, hcalls⟩ := ht₁
      have hrest := ih (t := t₁) (by rw [hnotes]; exact haccount)
        (by rw [hnotes]; exact fun r hr => hrows (List.mem_cons_of_mem row hr))
      refine hrest.imp (fun _ t₂ ht₂ => ?_) fun _ _ h => h
      obtain ⟨⟨notes', hnotes'⟩, hcalls'⟩ := ht₂
      exact ⟨⟨notes', by rw [hnotes', hnotes]⟩, by simp [hcalls', hcalls]⟩

/-- One turn of an account. -/
theorem scanAccountRecorded_outcome (hderive : ReturnsOk derive)
    (hordered : Table.Ordered t.1.poolCommitments)
    (haccount : account ∈ getAccountsWithLatestKeypairs t.1)
    (hmark : (t.1.scanMark? poolContractId account.accountId).isSome) (poolQuota : Nat) :
    Outcome (scanAccountRecorded derive poolContractId account poolQuota) t
      (fun scanned t' => ∃ made, VisitRun t t' made ∧ made.length = scanned ∧
        scanned ≤ poolQuota ∧ (scanned = 0 → 0 < poolQuota →
          t.1.unscanned poolContractId account.accountId = [])) fun _ _ => False := by
  unfold scanAccountRecorded
  have hlast := lastCommitmentId_outcome hmark (E := fun _ _ => False)
  refine Outcome.bind (Recording.onState_outcome hlast) fun last t₀ ht₀ => ?_
  obtain ⟨⟨hsame, rfl⟩, hcalls⟩ := ht₀
  obtain rfl : t₀ = t := Prod.ext hsame hcalls
  refine Recording.get_bind ?_
  show Outcome (if ((t₀.1.unscanned poolContractId account.accountId).take
    (min poolQuota accountChunk)).isEmpty then pure 0 else _) t₀ _ _
  have hquota : min poolQuota accountChunk ≤ poolQuota := Nat.min_le_left _ _
  have hpos : 0 < poolQuota → 0 < min poolQuota accountChunk := fun h => Nat.lt_min.mpr ⟨h, by decide⟩
  generalize min poolQuota accountChunk = n at hquota hpos ⊢
  have hlength : ((t₀.1.unscanned poolContractId account.accountId).take n).length ≤ n :=
    List.length_take_le _ _
  refine Outcome.ite (fun hempty => .pure ⟨[], .refl t₀, rfl, Nat.zero_le _, fun _ h => ?_⟩)
    fun hnonempty => ?_
  · exact (List.take_eq_nil_iff.mp (List.isEmpty_iff.mp hempty)).resolve_left (hpos h).ne'
  · have hrows : (t₀.1.unscanned poolContractId account.accountId).take n ⊆
        t₀.1.poolRows poolContractId := fun row hrow =>
      (mem_unscanned.mp (List.take_subset n _ hrow)).1
    refine Outcome.bind (scanRowsRecorded_outcome hderive haccount hrows) fun _ t₁ ht₁ => ?_
    obtain ⟨⟨notes, hnotes⟩, hcalls₁⟩ := ht₁
    refine Outcome.bind ((Recording.onState_outcome (setScanMark_outcome t₁.1 _)).imp
      (fun _ _ h => h) fun _ _ h => h) fun _ t₂ ht₂ => .pure ?_
    obtain ⟨⟨⟨marks, hframe⟩, hmarks⟩, hcalls₂⟩ := ht₂
    refine ⟨_, .turn hordered haccount hmark ⟨notes, marks, by rw [hframe, hnotes]⟩ ?_
      (hcalls₂.trans hcalls₁), List.length_map _, hlength.trans hquota, fun hzero => ?_⟩
    · intro q b
      rw [hmarks, hnotes]
      rfl
    · exact absurd (List.isEmpty_iff.mpr (List.length_eq_zero_iff.mp hzero)) hnonempty

/-- One cycle over the accounts: as many calls as the quota goes down. -/
theorem scanCycleRecorded_outcome (hderive : ReturnsOk derive)
    (hordered : Table.Ordered t.1.poolCommitments)
    (haccounts : accounts ⊆ getAccountsWithLatestKeypairs t.1)
    (hmarks : ∀ account ∈ accounts, (t.1.scanMark? poolContractId account.accountId).isSome)
    (poolQuota : Nat) :
    Outcome (scanCycleRecorded derive poolContractId accounts poolQuota) t
      (fun result t' => ∃ made, VisitRun t t' made ∧ made.length + result.1 = poolQuota ∧
        result.2 = !made.isEmpty ∧ (made = [] → 0 < poolQuota →
          ∀ account ∈ accounts, t.1.unscanned poolContractId account.accountId = []))
      fun _ _ => False := by
  induction accounts generalizing t poolQuota with
  | nil => exact .pure ⟨[], .refl t, by simp, rfl, by simp⟩
  | cons account accounts ih =>
      refine Outcome.ite (fun hzero => .pure ⟨[], .refl t, by simp, rfl, ?_⟩) fun hquota => ?_
      · exact fun _ hpos => absurd hzero hpos.ne'
      · refine Outcome.bind (scanAccountRecorded_outcome hderive hordered
          (haccounts List.mem_cons_self) (hmarks account List.mem_cons_self) poolQuota)
          fun scanned t₁ ht₁ => ?_
        obtain ⟨made, hrun, rfl, hle, hnone⟩ := ht₁
        have hrest := ih (t := t₁) (hrun.poolCommitments ▸ hordered)
          (fun a ha => hrun.accountKeys ▸ haccounts (List.mem_cons_of_mem _ ha))
          (fun a ha => hrun.rows _ _ (hmarks a (List.mem_cons_of_mem _ ha)))
          (poolQuota - made.length)
        refine Outcome.bind hrest fun result t₂ ht₂ => .pure ?_
        obtain ⟨made', hrun', hlength, hprogress, hnone'⟩ := ht₂
        refine ⟨made ++ made', hrun.trans hrun', ?_, ?_, fun hempty hpos => ?_⟩
        · rw [List.length_append]
          omega
        · rw [hprogress]
          cases made <;> simp
        · obtain ⟨rfl, rfl⟩ := List.append_eq_nil_iff.mp hempty
          intro a ha
          rcases List.mem_cons.mp ha with rfl | ha
          · exact hnone rfl hpos
          · rw [← hrun.idle]
            exact hnone' rfl hpos a ha

/-- The cycles. -/
theorem scanLoopRecorded_outcome (hderive : ReturnsOk derive)
    (hordered : Table.Ordered t.1.poolCommitments)
    (haccounts : accounts ⊆ getAccountsWithLatestKeypairs t.1)
    (hmarks : ∀ account ∈ accounts, (t.1.scanMark? poolContractId account.accountId).isSome)
    (rounds poolQuota : Nat) :
    Outcome (scanLoopRecorded derive poolContractId accounts rounds poolQuota) t
      (fun progressed t' => ∃ made, VisitRun t t' made ∧ made.length ≤ poolQuota ∧
        progressed = !made.isEmpty ∧ (made = [] → 0 < rounds → 0 < poolQuota →
          ∀ account ∈ accounts, t.1.unscanned poolContractId account.accountId = []))
      fun _ _ => False := by
  induction rounds generalizing t poolQuota with
  | zero => exact .pure ⟨[], .refl t, by simp, rfl, by simp⟩
  | succ rounds ih =>
      refine Outcome.ite (fun hzero => .pure ⟨[], .refl t, by simp, rfl, ?_⟩) fun _ => ?_
      · exact fun _ _ hpos => absurd hzero hpos.ne'
      · refine Outcome.bind (scanCycleRecorded_outcome hderive hordered haccounts hmarks poolQuota)
          fun result t₁ ht₁ => ?_
        obtain ⟨made, hrun, hlength, hprogress, hnone⟩ := ht₁
        refine Outcome.ite (fun htrue => ?_) fun hfalse => ?_
        · have hrest := ih (t := t₁) (hrun.poolCommitments ▸ hordered)
            (fun a ha => hrun.accountKeys ▸ haccounts ha)
            (fun a ha => hrun.rows _ _ (hmarks a ha)) result.1
          refine Outcome.bind hrest fun _ t₂ ht₂ => .pure ?_
          obtain ⟨made', hrun', hlength', -, -⟩ := ht₂
          have hsome : made ≠ [] := by simpa [hprogress] using htrue
          refine ⟨made ++ made', hrun.trans hrun', ?_, ?_, fun hempty => ?_⟩
          · rw [List.length_append]
            omega
          · simp [hsome]
          · exact absurd (List.append_eq_nil_iff.mp hempty).1 hsome
        · have hempty : made = [] := by simpa [hprogress] using hfalse
          exact .pure ⟨made, hrun, by omega, by simp [hempty], fun h _ => hnone h⟩

/-- The scan of a pool. -/
theorem scanPoolRecorded_outcome (hderive : ReturnsOk derive)
    (hordered : Table.Ordered t.1.poolCommitments) {poolQuota : Nat} (hquota : 0 < poolQuota)
    (hpool : t.1.contracts.any fun c => c.rowid = poolContractId) :
    Outcome (scanPoolRecorded derive (getAccountsWithLatestKeypairs t.1) poolContractId poolQuota) t
      (fun progressed t' => ∃ made, VisitRun t t' made ∧ made.length ≤ poolQuota ∧
        progressed = !made.isEmpty ∧ (made = [] → ∀ account ∈ getAccountsWithLatestKeypairs t.1,
          t.1.unscanned poolContractId account.accountId = []))
      fun _ _ => False := by
  unfold scanPoolRecorded
  rw [if_neg hquota.ne']
  generalize haccounts : getAccountsWithLatestKeypairs t.1 = accounts
  have hsubset : accounts ⊆ getAccountsWithLatestKeypairs t.1 := haccounts ▸ List.Subset.refl _
  refine transactionRecorded_outcome ?_
  have hinsert : Outcome (forM accounts (insertScanRow poolContractId)) t.1 _ _ :=
    insertScanRows_outcome (fun _ _ => .ok none) hsubset
  refine Outcome.bind ((Recording.onState_outcome hinsert).imp (fun _ _ h => h)
    fun _ _ h => h hpool) fun _ t₁ ht₁ => ?_
  obtain ⟨⟨hscan, hsame, hmarks⟩, hcalls⟩ := ht₁
  have hrun : VisitRun t t₁ [] := .of_marks hcalls hscan.frame hscan.rows hsame
  refine (scanLoopRecorded_outcome hderive (hrun.poolCommitments ▸ hordered)
    (hrun.accountKeys ▸ hsubset) hmarks poolQuota poolQuota).imp (fun progressed t₂ ht₂ => ?_)
    fun _ _ h => h
  obtain ⟨made, hrun', hlength, hprogress, hnone⟩ := ht₂
  refine ⟨made, hrun.trans hrun', hlength, hprogress, fun hempty account haccount => ?_⟩
  rw [← hrun.idle]
  exact hnone hempty hquota hquota account haccount

/-- The pools in turn: no more calls than the quotas allow together. -/
theorem scanPoolsRecorded_outcome (hderive : ReturnsOk derive)
    (hordered : Table.Ordered t.1.poolCommitments) {pools : List (Nat × Nat)}
    (hquotas : ∀ pool ∈ pools, 0 < pool.2)
    (hpools : ∀ pool ∈ pools, t.1.contracts.any fun c => c.rowid = pool.1) :
    Outcome (scanPoolsRecorded derive (getAccountsWithLatestKeypairs t.1) pools) t
      (fun progressed t' => ∃ made, VisitRun t t' made ∧
        made.length ≤ (pools.map Prod.snd).sum ∧ progressed = !made.isEmpty ∧
        (made = [] → ∀ pool ∈ pools, ∀ account ∈ getAccountsWithLatestKeypairs t.1,
          t.1.unscanned pool.1 account.accountId = []))
      fun _ _ => False := by
  induction pools generalizing t with
  | nil => exact .pure ⟨[], .refl t, by simp, rfl, by simp⟩
  | cons pool pools ih =>
      refine Outcome.bind (scanPoolRecorded_outcome hderive hordered
        (hquotas pool List.mem_cons_self) (hpools pool List.mem_cons_self))
        fun progressed t₁ ht₁ => ?_
      obtain ⟨made, hrun, hlength, hprogress, hnone⟩ := ht₁
      have hrest := ih (t := t₁) (hrun.poolCommitments ▸ hordered)
        (fun p hp => hquotas p (List.mem_cons_of_mem pool hp))
        (fun p hp => hrun.contracts ▸ hpools p (List.mem_cons_of_mem pool hp))
      rw [hrun.accountKeys] at hrest
      refine Outcome.bind hrest fun rest t₂ ht₂ => .pure ?_
      obtain ⟨made', hrun', hlength', hprogress', hnone'⟩ := ht₂
      refine ⟨made ++ made', hrun.trans hrun', ?_, ?_, fun hempty p hp a ha => ?_⟩
      · rw [List.length_append, List.map_cons, List.sum_cons]
        exact Nat.add_le_add hlength hlength'
      · rw [hprogress, hprogress']
        cases made <;> simp
      · obtain ⟨rfl, rfl⟩ := List.append_eq_nil_iff.mp hempty
        rcases List.mem_cons.mp hp with rfl | hp
        · exact hnone rfl a ha
        · rw [← hrun.idle]
          exact hnone' rfl p hp a ha

end Visits

/-! ## Quotas -/

theorem sum_modify_succ {quotas : List Nat} {i : Nat} (h : i < quotas.length) :
    (quotas.modify i (· + 1)).sum = quotas.sum + 1 := by
  induction quotas generalizing i with
  | nil => cases h
  | cons quota quotas ih =>
      cases i with
      | zero => simp [Nat.add_right_comm]
      | succ i => simp [ih (Nat.lt_of_succ_lt_succ h), Nat.add_assoc]

/-- Handing out the remainder adds it to the quotas. -/
theorem sum_distribute (remainder nextPool : Nat) {quotas : List Nat}
    (h : nextPool < quotas.length) :
    (distribute remainder nextPool quotas).sum = quotas.sum + remainder := by
  induction remainder generalizing nextPool quotas with
  | zero => rfl
  | succ remainder ih =>
      rw [distribute, ih, sum_modify_succ h]
      · omega
      · rw [List.length_modify]
        exact Nat.mod_lt _ (Nat.zero_lt_of_lt h)

/-- The quotas add up to the limit, or to the number of pools where that is more. -/
theorem sum_poolQuotas (totalLimit : Nat) {poolCount : Nat} (h : 0 < poolCount) :
    (poolQuotas totalLimit poolCount).sum = max totalLimit poolCount := by
  unfold poolQuotas
  rw [sum_distribute _ _ (by simpa using h), List.sum_replicate_nat]
  split
  · have hle : poolCount * (totalLimit / poolCount) ≤ totalLimit := Nat.mul_div_le _ _
    rw [Nat.mul_comm (totalLimit / poolCount)]
    omega
  · omega

/-! ## The whole scan -/

section WholeScan

variable {derive : DeriveNoteFnMut} {t : Storage × List DeriveCall}

/-- The pool of a commitment has a contract row. -/
theorem Storage.Linked.any_contract {s : Storage} (hs : s.Linked) {p : Nat}
    (hp : p ∈ s.commitmentPools) : s.contracts.any fun c => c.rowid = p := by
  obtain ⟨eventId, -, hcontract⟩ := mem_poolIds.mp hp
  unfold Storage.eventContract? at hcontract
  obtain ⟨raw, hraw, rfl⟩ := Option.map_eq_some_iff.mp hcontract
  obtain ⟨address, haddress⟩ := hs.addresses raw (List.mem_of_find?_eq_some hraw)
  unfold Storage.contractAddress? at haddress
  obtain ⟨c, hc, -⟩ := Option.map_eq_some_iff.mp haddress
  exact List.any_eq_true.mpr ⟨c, List.mem_of_find?_eq_some hc, by simpa using List.find?_some hc⟩

/-- A scan makes no more calls than its limit, or than one for every pool. It returns `true`
exactly when it makes one, and makes none only when nothing is left; it fails only when there
are too many pools, and then it has done nothing. -/
theorem scanRecorded_outcome (hderive : ReturnsOk derive) (hlinked : t.1.Linked)
    (hordered : Table.Ordered t.1.poolCommitments) (totalLimit : UInt32) :
    Outcome (scanCommitmentsForUserNotesRecorded totalLimit derive) t
      (fun progressed t' => ∃ made, VisitRun t t' made ∧
        made.length ≤ max totalLimit.toNat t.1.commitmentPools.length ∧
        progressed = !made.isEmpty ∧
        (made = [] → totalLimit ≠ 0 → ∀ p, ∀ account ∈ getAccountsWithLatestKeypairs t.1,
          t.1.unscanned p account.accountId = []) ∧
        (made ≠ [] → t.1.commitmentPools.length < UInt32.size))
      (fun _ t' => t' = t ∧ UInt32.size ≤ t.1.commitmentPools.length ∧
        getAccountsWithLatestKeypairs t.1 ≠ []) := by
  unfold scanCommitmentsForUserNotesRecorded
  refine Recording.get_bind (Outcome.ite
    (fun hnone => .pure ⟨[], .refl t, Nat.zero_le _, rfl, fun _ hlimit p account haccount => ?_,
      fun h => absurd rfl h⟩) fun hsome => ?_)
  · have hempty : getAccountsWithLatestKeypairs t.1 = [] := by
      simpa using hnone.resolve_right hlimit
    simp [hempty] at haccount
  · obtain ⟨haccounts, hlimit⟩ := not_or.mp hsome
    show Outcome (if t.1.commitmentPools.isEmpty then pure false else _) t _ _
    refine Outcome.ite
      (fun hempty => .pure ⟨[], .refl t, Nat.zero_le _, rfl, fun _ _ p account _ => ?_,
        fun h => absurd rfl h⟩) fun hnonempty => ?_
    · refine unscanned_eq_nil ?_ _
      rw [List.isEmpty_iff.mp hempty]
      exact List.not_mem_nil
    · refine Outcome.ite (fun hmany =>
        .throw ⟨rfl, Nat.le_of_not_lt hmany, by simpa using haccounts⟩) fun hfew => ?_
      have hcount : 0 < t.1.commitmentPools.length :=
        List.length_pos_of_ne_nil (by simpa using hnonempty)
      show Outcome (scanPoolsRecorded derive (getAccountsWithLatestKeypairs t.1)
        (t.1.commitmentPools.zip (poolQuotas totalLimit.toNat t.1.commitmentPools.length))) t _ _
      have hlengths := length_poolQuotas totalLimit.toNat t.1.commitmentPools.length
      have hpositive := @poolQuotas_pos totalLimit.toNat _ hcount
      have hsum := sum_poolQuotas totalLimit.toNat hcount
      generalize poolQuotas totalLimit.toNat t.1.commitmentPools.length = quotas at *
      have hfst : (t.1.commitmentPools.zip quotas).map Prod.fst = t.1.commitmentPools :=
        List.map_fst_zip hlengths.ge
      have hsnd : (t.1.commitmentPools.zip quotas).map Prod.snd = quotas :=
        List.map_snd_zip hlengths.le
      have hpools := scanPoolsRecorded_outcome hderive hordered
        (fun pool hpool => hpositive _ (List.of_mem_zip hpool).2)
        (fun pool hpool => hlinked.any_contract (List.of_mem_zip hpool).1)
      refine hpools.imp (fun progressed t' ht' => ?_) fun _ _ h => h.elim
      obtain ⟨made, hrun, hlength, hprogress, hnone⟩ := ht'
      rw [hsnd, hsum] at hlength
      refine ⟨made, hrun, hlength, hprogress, fun hempty _ p account haccount => ?_,
        fun _ => not_not.mp hfew⟩
      by_cases hp : p ∈ t.1.commitmentPools
      · rw [← hfst] at hp
        obtain ⟨pool, hpool, rfl⟩ := List.mem_map.mp hp
        exact hnone hempty pool hpool account haccount
      · exact unscanned_eq_nil hp _

end WholeScan

end PrivatePayments.State
