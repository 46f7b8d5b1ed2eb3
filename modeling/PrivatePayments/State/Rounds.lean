import PrivatePayments.State.NotesComplete
import Mathlib.Data.Prod.Lex

/-!
# PrivatePayments.State.Rounds

Rounds of the events processor (`process_notes` of `state/src/processor.rs` and the loop of
`process_until_empty` of `web/src/workers/storage.rs`).

A round processes raw events, scans commitments and reconciles nullifiers, each up to a limit,
and returns whether any of them found something to do. A round that returns `false` leaves
nothing to do (`AtRest`); one that returns `true` leaves less to do (`Storage.backlog`), as
long as every raw event can be processed.
-/

namespace PrivatePayments.State

open Prover (NoteBox)

/-- `process_notes` -/
def processNotes (limit : UInt32) (derive : DeriveNoteFn) : Db Bool := do
  let scanned ← scanCommitmentsForUserNotes limit derive
  let reconciled ← reconcileNullifiers limit
  pure (scanned || reconciled)

/-- One turn of the loop in `process_until_empty`: whether the loop goes on. -/
def processRound (xdr : Xdr) (box : NoteBox) (limit : UInt32) : Db Bool := do
  let didRaw ← processEvents xdr limit
  let didNotes ← processNotes limit (deriveUserNote box)
  pure (didRaw || didNotes)

/-! ## What is left to do -/

/-- Every commitment was offered to every account, and every nullifier to the notes. -/
structure Settled (s : Storage) : Prop where
  scanned : AllScanned s
  matched : ∀ p, s.nullifiersAfter p (s.nullifierMark p) = []

/-- Nothing is left to do. -/
structure AtRest (s : Storage) : Prop where
  processed : s.unprocessedEvents = []
  settled : Settled s

/-- The nullifiers past the mark of their pool. -/
def Storage.unmatched (s : Storage) : Table NewNullifierEvent :=
  s.poolNullifiers.filter fun n =>
    (s.eventContract? n.columns.id).any fun p => s.nullifierMark p < n.rowid

/-- What is left to do: raw events first, as they become commitments and nullifiers. -/
def Storage.backlog (s : Storage) : Nat ×ₗ Nat :=
  toLex (s.unprocessedEvents.length, s.remaining + s.unmatched.length)

/-! ## Reconciliation -/

/-- What a reconciliation changes: notes and marks, and marks move forward. -/
structure Matches (s s' : Storage) : Prop where
  frame : ∃ notes marks, s' = { s with userNotes := notes, nullifierScanState := marks }
  grows : ∀ p, s.nullifierMark p ≤ s'.nullifierMark p

section Matches

variable {s s' s'' : Storage} {poolContractId limit : Nat}

theorem Matches.refl (s : Storage) : Matches s s := ⟨⟨_, _, rfl⟩, fun _ => Nat.le_refl _⟩

theorem Matches.trans (h : Matches s s') (h' : Matches s' s'') : Matches s s'' := by
  obtain ⟨⟨notes, marks, rfl⟩, hgrows⟩ := h
  obtain ⟨⟨notes', marks', rfl⟩, hgrows'⟩ := h'
  exact ⟨⟨notes', marks', rfl⟩, fun p => (hgrows p).trans (hgrows' p)⟩

theorem mem_unmatched {n : Table.Row NewNullifierEvent} : n ∈ s.unmatched ↔
    n ∈ s.poolNullifiers ∧ ∃ p, s.eventContract? n.columns.id = some p ∧
      s.nullifierMark p < n.rowid := by
  unfold Storage.unmatched
  rw [List.mem_filter]
  refine and_congr_right fun _ => ?_
  cases s.eventContract? n.columns.id with
  | none => simp
  | some p => simp

theorem Matches.unmatched_sublist (h : Matches s s') : s'.unmatched.Sublist s.unmatched := by
  obtain ⟨⟨notes, marks, rfl⟩, hgrows⟩ := h
  refine List.monotone_filter_right s.poolNullifiers fun n hn => ?_
  obtain ⟨p, hp, hlt⟩ := Option.any_eq_true .. |>.mp hn
  exact Option.any_eq_true .. |>.mpr
    ⟨p, hp, decide_eq_true ((hgrows p).trans_lt (of_decide_eq_true hlt))⟩

/-- A matched nullifier is not left. -/
theorem Matches.unmatched_lt (h : Matches s s') {n : Table.Row NewNullifierEvent} {p : Nat}
    (hn : n ∈ s.poolNullifiers) (hpool : s.eventContract? n.columns.id = some p)
    (hleft : s.nullifierMark p < n.rowid) (hmatched : n.rowid ≤ s'.nullifierMark p) :
    s'.unmatched.length < s.unmatched.length := by
  have hsub := h.unmatched_sublist
  refine lt_of_le_of_ne hsub.length_le fun hlen => ?_
  have hmem : n ∈ s'.unmatched := by
    rw [hsub.eq_of_length hlen]
    exact mem_unmatched.mpr ⟨hn, p, hpool, hleft⟩
  obtain ⟨-, q, hq, hlt⟩ := mem_unmatched.mp hmem
  obtain ⟨⟨notes, marks, rfl⟩, -⟩ := h
  obtain rfl : q = p := Option.some.inj (hq.symm.trans hpool)
  omega

theorem ReconcileIdle.matches (h : ReconcileIdle s s') : Matches s s' := by
  obtain ⟨⟨marks, hframe⟩, hmark⟩ := h
  exact ⟨⟨_, marks, hframe⟩, fun p => (hmark p).ge⟩

/-- A pool that is settled. -/
theorem settle_matches {last : Nat} (h : s.nullifierMark? poolContractId = some last) :
    Matches s (s.settle poolContractId limit last) ∧
      ((s.nullifiersAfter poolContractId last).take limit ≠ [] →
        (s.settle poolContractId limit last).unmatched.length < s.unmatched.length) := by
  have hlast : s.nullifierMark poolContractId = last := by simp [Storage.nullifierMark, h]
  have hmark := nullifierMark_settle h limit
  have hmatches : Matches s (s.settle poolContractId limit last) := by
    refine ⟨?_, fun p => ?_⟩
    · obtain ⟨marks, hframe⟩ := settle_frame s poolContractId limit last
      obtain ⟨notes, hfold⟩ :=
        foldl_spend_frame poolContractId ((s.nullifiersAfter poolContractId last).take limit) s
      exact ⟨notes, marks, by rw [hframe, hfold]⟩
    · rw [hmark p]
      split
      · next hp => rw [← hp, hlast]; exact Table.le_highWater
      · exact Nat.le_refl _
  refine ⟨hmatches, fun hne => ?_⟩
  obtain ⟨nullifier, hmem⟩ := List.exists_mem_of_ne_nil _ hne
  obtain ⟨n, hn, hpool, hlt, rfl⟩ := mem_nullifiersAfter.mp (List.mem_of_mem_take hmem)
  refine hmatches.unmatched_lt hn hpool (hlast ▸ hlt) ?_
  rw [hmark, if_pos rfl]
  exact Table.le_highWater_of_mem (f := Prod.fst) hmem

/-- The reconciliation of a pool. -/
theorem reconcilePool_matches :
    Outcome (reconcilePool limit poolContractId) s
      (fun didAny s' => Matches s s' ∧
        (didAny = true → s'.unmatched.length < s.unmatched.length)) (fun _ => Matches s) := by
  refine outcome_transaction (E := fun _ => Matches s) ?_
  have hinsert : Outcome (insertNullifierScanRow poolContractId) s _ _ :=
    insertNullifierScanRow_outcome fun _ _ => .ok none
  refine Outcome.bind (hinsert.imp (fun _ _ h => h) fun _ _ _ => .refl s)
    fun _ s₁ hs₁ => Outcome.get_bind ?_
  obtain ⟨-, hidle, hmark⟩ := hs₁
  obtain ⟨last, hlast⟩ := Option.isSome_iff_exists.mp hmark
  simp only [hlast]
  have hsettle : ∀ s', s' = s₁.settle poolContractId limit last → Matches s s' ∧
      ((!((s₁.nullifiersAfter poolContractId last).take limit).isEmpty) = true →
        s'.unmatched.length < s.unmatched.length) := by
    rintro s' rfl
    obtain ⟨hmatches, hless⟩ := @settle_matches s₁ _ limit _ hlast
    refine ⟨hidle.matches.trans hmatches, fun htaken => ?_⟩
    exact (hless (by simpa using htaken)).trans_le hidle.matches.unmatched_sublist.length_le
  refine Outcome.bind ((markSpents_outcome _).imp (fun _ _ h => h) fun _ _ _ => .refl s)
    fun _ s₂ hs₂ => ?_
  subst hs₂
  refine Outcome.ite (fun hmore => ?_) fun hsame => ?_
  · have hmoved : s₁.settle poolContractId limit last = _ := if_pos hmore
    exact Outcome.bind (Q := fun _ s' => s' = s₁.settle poolContractId limit last)
      (.modify hmoved.symm) fun _ s' hs' => .pure (hsettle s' hs')
  · exact .pure (hsettle _ (if_neg hsame).symm)

/-- A reconciliation that finds a nullifier leaves fewer. -/
theorem reconcile_matches (limit : UInt32) :
    Outcome (reconcileNullifiers limit) s
      (fun didAny s' => Matches s s' ∧
        (didAny = true → s'.unmatched.length < s.unmatched.length)) (fun _ => Matches s) := by
  have hpools : ∀ pools s₁, Outcome (reconcilePools limit.toNat pools) s₁
      (fun didAny s' => Matches s₁ s' ∧
        (didAny = true → s'.unmatched.length < s₁.unmatched.length)) (fun _ => Matches s₁) := by
    intro pools
    induction pools with
    | nil => exact fun s₁ => .pure ⟨.refl s₁, nofun⟩
    | cons p pools ih =>
        intro s₁
        refine Outcome.bind reconcilePool_matches fun didAny s₂ hs₂ => ?_
        obtain ⟨hfirst, hless⟩ := hs₂
        refine Outcome.bind ((ih s₂).imp (fun _ _ h => h) fun _ _ h => hfirst.trans h)
          fun rest s₃ hs₃ => .pure ?_
        obtain ⟨hothers, hless'⟩ := hs₃
        refine ⟨hfirst.trans hothers, fun hany => ?_⟩
        rcases (Bool.or_eq_true ..).mp hany with hany | hany
        · exact hothers.unmatched_sublist.length_le.trans_lt (hless hany)
        · exact (hless' hany).trans_le hfirst.unmatched_sublist.length_le
  unfold reconcileNullifiers
  exact Outcome.get_bind (Outcome.ite (fun _ => .pure ⟨.refl s, nofun⟩) fun _ => hpools _ s)

end Matches

/-! ## Rounds -/

section Rounds

variable {derive : DeriveNoteFn} {xdr : Xdr} {box : NoteBox} {s s' : Storage} {limit : UInt32}

theorem ScanRun.remaining_le (h : ScanRun derive s s') : s'.remaining ≤ s.remaining := by
  unfold Storage.remaining
  rw [h.commitmentPools, h.accountKeys]
  exact List.sum_le_sum fun x _ => h.length_unscanned_le _ _

/-- A call that finds nothing leaves the database settled, and one that finds something leaves
less. -/
theorem processNotes_outcome (hordered : Table.Ordered s.poolCommitments) (hlimit : limit ≠ 0) :
    Outcome (processNotes limit derive) s
      (fun didNotes s' => s'.unprocessedEvents = s.unprocessedEvents ∧
        (didNotes = false → Settled s') ∧
        (didNotes = true →
          s'.remaining + s'.unmatched.length < s.remaining + s.unmatched.length))
      fun _ _ => True := by
  refine Outcome.bind ((scan_outcome hordered limit).imp (fun _ _ h => h) fun _ _ _ => trivial)
    fun scanned s₁ hs₁ => ?_
  obtain ⟨hscan, hprogress, hidle, -⟩ := hs₁
  refine Outcome.bind (((reconcile_outcome derive s₁ limit).both (reconcile_matches limit)).imp
    (fun _ _ h => h) fun _ _ _ => trivial) fun reconciled s₂ hs₂ => .pure ?_
  obtain ⟨⟨-, hnone⟩, hmatches, hless⟩ := hs₂
  have hraw : s₁.unprocessedEvents = s.unprocessedEvents := by
    obtain ⟨notes, marks, rfl⟩ := hscan.frame
    rfl
  have hsame : s₁.unmatched = s.unmatched := by
    obtain ⟨notes, marks, rfl⟩ := hscan.frame
    rfl
  have hremaining : s₂.remaining = s₁.remaining := by
    obtain ⟨⟨notes, marks, rfl⟩, -⟩ := hmatches
    rfl
  have hunmatched := hmatches.unmatched_sublist.length_le
  refine ⟨?_, fun hfalse => ?_, fun htrue => ?_⟩
  · obtain ⟨⟨notes, marks, rfl⟩, -⟩ := hmatches
    exact hraw
  · obtain ⟨hscanned, hreconciled⟩ := Bool.or_eq_false_iff.mp hfalse
    obtain ⟨hkept, hall⟩ := hidle hscanned hlimit
    obtain ⟨hreconcileIdle, hmatched⟩ := hnone hreconciled hlimit
    refine ⟨fun p account haccount => ?_, fun p => ?_⟩
    · obtain ⟨⟨notes, marks, rfl⟩, -⟩ := hmatches
      have haccount' : account ∈ getAccountsWithLatestKeypairs s₁ := haccount
      rw [hscan.accountKeys] at haccount'
      exact (hkept p account.accountId).trans (hall p account haccount')
    · rw [hreconcileIdle.nullifiersAfter]
      exact hmatched p
  · rw [hremaining, ← hsame]
    rcases (Bool.or_eq_true ..).mp htrue with hscanned | hreconciled
    · have := hscan.remaining_lt (hprogress hscanned)
      omega
    · have := hscan.remaining_le
      have := hless hreconciled
      omega

/-- A round that finds nothing leaves nothing, and one that finds something leaves less when
every raw event can be processed. -/
theorem processRound_outcome (hs : Pipeline xdr s) (hlimit : limit ≠ 0) :
    Outcome (processRound xdr box limit) s
      (fun more s' => (more = false → AtRest s') ∧
        (more = true → Processable xdr s.storedEvents → s'.backlog < s.backlog))
      fun _ _ => True := by
  have hpos : 0 < limit := UInt32.pos_iff_ne_zero.mpr hlimit
  unfold processRound
  by_cases hnil : getUnprocessedEvents s limit = []
  · -- no raw event is left, so the notes decide
    have hraw := (hs.linked.fetched_eq_nil hpos).mp hnil
    refine Outcome.bind (Q := fun didRaw s' => didRaw = false ∧ s' = s)
      ((Outcome.of_ok (processEvents_run_nil hnil)).mpr ⟨rfl, rfl⟩) fun didRaw s₁ hs₁ => ?_
    obtain ⟨rfl, rfl⟩ := hs₁
    refine Outcome.bind (processNotes_outcome hs.commitments.valid.ordered hlimit)
      fun didNotes s₂ hs₂ => .pure ?_
    obtain ⟨hsame, hsettled, hless⟩ := hs₂
    refine ⟨fun hfalse => ⟨hsame.trans hraw, hsettled hfalse⟩, fun htrue _ => ?_⟩
    exact Prod.Lex.toLex_lt_toLex.mpr (.inr ⟨congrArg List.length hsame, hless htrue⟩)
  · -- the round goes on, and fewer raw events are left
    refine Outcome.bind (Q := fun didRaw s' => didRaw = true ∧
      s' = s.record (parseUnprocessed xdr (getUnprocessedEvents s limit)))
      ((Outcome.of_ok (hs.processEvents_run hnil)).mpr ⟨rfl, rfl⟩) fun didRaw s₁ hs₁ => ?_
    obtain ⟨rfl, hs₁⟩ := hs₁
    have hpipeline : Pipeline xdr s₁ := hs₁ ▸ hs.record limit
    refine Outcome.bind (processNotes_outcome hpipeline.commitments.valid.ordered hlimit)
      fun didNotes s₂ hs₂ => .pure ?_
    obtain ⟨hsame, -⟩ := hs₂
    refine ⟨nofun, fun _ hprocessable => Prod.Lex.toLex_lt_toLex.mpr (.inl ?_)⟩
    rw [hsame, hs₁]
    exact hs.decreases hprocessable hnil

theorem leaves_bind {α β : Type} {x : Db α} {f : α → Db β} {P : Storage → Prop}
    (hx : P (leaves x s)) (hf : ∀ a s', P s' → P (leaves (f a) s')) :
    P (leaves (x >>= f) s) := by
  unfold leaves at hx
  cases hrun : x.run s with
  | ok a s' =>
      rw [hrun] at hx
      have hrest := hf a s' hx
      unfold leaves at hrest ⊢
      rwa [Db.run_bind_of_ok hrun]
  | error e s' =>
      rw [hrun] at hx
      unfold leaves
      rw [EStateM.run_bind, hrun]
      exact hx

/-- What the calls of the client keep, a round keeps, also when it fails. -/
theorem processRound_keeps {P : Storage → Prop}
    (hop : ∀ s (op : ClientOp), op.saved = [] → P s → P (op.after xdr box s)) (hs : P s)
    (limit : UInt32) : P (leaves (processRound xdr box limit) s) := by
  refine leaves_bind (hop s (.process limit) rfl hs) fun didRaw s₁ hs₁ => ?_
  refine leaves_bind (leaves_bind (hop s₁ (.scan limit) rfl hs₁) fun scanned s₂ hs₂ => ?_)
    fun didNotes s₃ hs₃ => hs₃
  exact leaves_bind (hop s₂ (.reconcile limit) rfl hs₂) fun reconciled s₃ hs₃ => hs₃

end Rounds

end PrivatePayments.State
