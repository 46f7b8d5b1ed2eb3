import PrivatePayments.State.Writes

/-!
# PrivatePayments.State.ReconcileSound

What a reconciliation of nullifiers does: it writes to the notes and the marks only, and one
that returns `false` had no nullifier past the high-water mark of any pool
(`reconcile_outcome`).
-/

namespace PrivatePayments.State

/-! ## Reconciliation -/

/-- The high-water mark of a pool over its nullifiers; without a row it is at the start. -/
def Storage.nullifierMark (s : Storage) (poolContractId : Nat) : Nat :=
  (s.nullifierMark? poolContractId).getD 0

/-- A reconciliation with nothing to do: it may add marks at the start. -/
def ReconcileIdle (s s' : Storage) : Prop :=
  (∃ marks, s' = { s with nullifierScanState := marks }) ∧
    ∀ p, s'.nullifierMark p = s.nullifierMark p

section Reconcile

variable {s s' s'' : Storage} {poolContractId limit : Nat}

theorem ReconcileIdle.refl (s : Storage) : ReconcileIdle s s := ⟨⟨_, rfl⟩, fun _ => rfl⟩

theorem ReconcileIdle.trans (h : ReconcileIdle s s') (h' : ReconcileIdle s' s'') :
    ReconcileIdle s s'' := by
  obtain ⟨⟨marks, rfl⟩, hmark⟩ := h
  obtain ⟨⟨marks', rfl⟩, hmark'⟩ := h'
  exact ⟨⟨marks', rfl⟩, fun p => (hmark' p).trans (hmark p)⟩

theorem ReconcileIdle.nullifiersAfter (h : ReconcileIdle s s') (p : Nat) :
    s'.nullifiersAfter p (s'.nullifierMark p) = s.nullifiersAfter p (s.nullifierMark p) := by
  rw [h.2 p]
  obtain ⟨⟨marks, rfl⟩, -⟩ := h
  rfl

theorem nullifierMark?_insert (s : Storage) (p q : Nat) :
    Storage.nullifierMark? { s with
      nullifierScanState := Table.insert s.nullifierScanState ⟨p, 0⟩ } q =
      (s.nullifierMark? q).or (if p = q then some 0 else none) := by
  unfold Storage.nullifierMark?
  rw [Table.columns_insert, List.find?_append, Option.map_or]
  by_cases h : p = q
  · simp [h]
  · simp [h]

theorem nullifierMark_insert (s : Storage) (p q : Nat) :
    Storage.nullifierMark { s with
      nullifierScanState := Table.insert s.nullifierScanState ⟨p, 0⟩ } q = s.nullifierMark q := by
  unfold Storage.nullifierMark
  rw [nullifierMark?_insert]
  cases s.nullifierMark? q with
  | none =>
      by_cases h : p = q
      · simp [h]
      · simp [h]
  | some m => rfl

theorem insertNullifierScanRow_outcome (derive : DeriveNoteFn) :
    Outcome (insertNullifierScanRow poolContractId) s
      (fun _ s' => LocalRun derive s s' ∧ ReconcileIdle s s' ∧
        (s'.nullifierMark? poolContractId).isSome) (fun _ _ => True) := by
  have hany : ((Table.columns s.nullifierScanState).any
      fun m => m.poolContractId = poolContractId) = (s.nullifierMark? poolContractId).isSome := by
    unfold Storage.nullifierMark?
    rw [Option.isSome_map, List.isSome_find?]
  unfold insertNullifierScanRow
  refine Outcome.get_bind (Outcome.ite (fun hsome => .pure ⟨.refl derive s, .refl s, hany ▸ hsome⟩)
    fun hnone => Outcome.ite (fun _ => .throw trivial) fun _ => .set ⟨?_, ⟨⟨_, rfl⟩, ?_⟩, ?_⟩)
  · rw [hany] at hnone
    exact ⟨.single (.nullifierScanRow poolContractId (by simpa using hnone)), _, _, _, _, _, rfl⟩
  · exact nullifierMark_insert s poolContractId
  · rw [nullifierMark?_insert, if_pos rfl]
    simp

/-- Matching a batch of nullifiers against the notes. -/
theorem markSpents_outcome (nullifiers : List (Nat × Fr)) :
    Outcome (forM nullifiers (markSpent poolContractId)) s
      (fun _ s' => s' = nullifiers.foldl (Storage.spend poolContractId) s) (fun _ _ => True) := by
  induction nullifiers generalizing s with
  | nil => exact .pure rfl
  | cons nullifier nullifiers ih =>
      rw [List.forM_cons]
      have hstep : Outcome (markSpent poolContractId nullifier) s
          (fun _ s' => s' = s.spend poolContractId nullifier) (fun _ _ => True) := by
        unfold markSpent
        exact Outcome.get_bind (Outcome.ite (fun _ => .throw trivial) fun _ => .set rfl)
      refine Outcome.bind hstep fun _ s₁ hs₁ => ?_
      subst hs₁
      exact ih

/-- Matching nullifiers changes the notes only. -/
theorem foldl_spend_frame (poolContractId : Nat) (nullifiers : List (Nat × Fr)) (s : Storage) :
    ∃ notes, nullifiers.foldl (Storage.spend poolContractId) s =
      { s with userNotes := notes } := by
  induction nullifiers generalizing s with
  | nil => exact ⟨_, rfl⟩
  | cons nullifier nullifiers ih =>
      obtain ⟨notes, hnotes⟩ := ih (s.spend poolContractId nullifier)
      exact ⟨notes, hnotes⟩

theorem settle_frame (s : Storage) (poolContractId limit last : Nat) :
    ∃ marks, s.settle poolContractId limit last =
      { ((s.nullifiersAfter poolContractId last).take limit).foldl (Storage.spend poolContractId) s
        with nullifierScanState := marks } := by
  unfold Storage.settle
  dsimp only
  split
  · exact ⟨_, rfl⟩
  · exact ⟨_, rfl⟩

theorem settle_localRun (derive : DeriveNoteFn) (limit : Nat) {last : Nat}
    (h : s.nullifierMark? poolContractId = some last) :
    LocalRun derive s (s.settle poolContractId limit last) := by
  refine ⟨.single (.settle poolContractId limit last h), ?_⟩
  obtain ⟨marks, hframe⟩ := settle_frame s poolContractId limit last
  obtain ⟨notes, hfold⟩ :=
    foldl_spend_frame poolContractId ((s.nullifiersAfter poolContractId last).take limit) s
  rw [hframe, hfold]
  exact ⟨_, _, notes, _, marks, rfl⟩

/-- The reconciliation of a pool. -/
theorem reconcilePool_outcome (derive : DeriveNoteFn) (hlimit : 0 < limit) :
    Outcome (reconcilePool limit poolContractId) s
      (fun didAny s' => LocalRun derive s s' ∧ (didAny = false → ReconcileIdle s s' ∧
        s.nullifiersAfter poolContractId (s.nullifierMark poolContractId) = []))
      (fun _ s' => s' = s) := by
  refine outcome_transaction (E := fun _ s' => s' = s) ?_
  refine Outcome.bind ((insertNullifierScanRow_outcome derive).imp (fun _ _ h => h)
    fun _ _ _ => rfl) fun _ s₁ hs₁ => Outcome.get_bind ?_
  obtain ⟨hlocal, hidle, hmark⟩ := hs₁
  obtain ⟨last, hlast⟩ := Option.isSome_iff_exists.mp hmark
  have hlast' : s₁.nullifierMark poolContractId = last := by simp [Storage.nullifierMark, hlast]
  simp only [hlast]
  have hsettle : ∀ s', s' = s₁.settle poolContractId limit last → LocalRun derive s s' ∧
      ((!((s₁.nullifiersAfter poolContractId last).take limit).isEmpty) = false →
        ReconcileIdle s s' ∧
          s.nullifiersAfter poolContractId (s.nullifierMark poolContractId) = []) := by
    intro s' hs'
    refine ⟨hs' ▸ hlocal.trans (settle_localRun derive limit hlast), fun hfalse => ?_⟩
    have hempty : (s₁.nullifiersAfter poolContractId last).take limit = [] := by
      simpa using hfalse
    have hsame : s' = s₁ := by
      rw [hs']
      unfold Storage.settle
      simp [hempty]
    have hnone : s₁.nullifiersAfter poolContractId last = [] :=
      (List.take_eq_nil_iff.mp hempty).resolve_left hlimit.ne'
    rw [← hidle.nullifiersAfter, hlast']
    exact ⟨hsame ▸ hidle, hnone⟩
  refine Outcome.bind (markSpents_outcome _) fun _ s₂ hs₂ => ?_
  subst hs₂
  refine Outcome.ite (fun hmore => ?_) fun hsame => ?_
  · have hmoved : s₁.settle poolContractId limit last = _ := if_pos hmore
    exact Outcome.bind (Q := fun _ s' => s' = s₁.settle poolContractId limit last)
      (.modify hmoved.symm) fun _ s' hs' => .pure (hsettle s' hs')
  · exact .pure (hsettle _ (if_neg hsame).symm)

/-- The pools in turn. -/
theorem reconcilePools_outcome (derive : DeriveNoteFn) (hlimit : 0 < limit) (pools : List Nat) :
    Outcome (reconcilePools limit pools) s
      (fun didAny s' => LocalRun derive s s' ∧ (didAny = false → ReconcileIdle s s' ∧
        ∀ p ∈ pools, s.nullifiersAfter p (s.nullifierMark p) = []))
      (fun _ => LocalRun derive s) := by
  induction pools generalizing s with
  | nil => exact .pure ⟨.refl derive s, fun _ => ⟨.refl s, by simp⟩⟩
  | cons p pools ih =>
      refine Outcome.bind ((reconcilePool_outcome derive hlimit).imp (fun _ _ h => h)
        fun _ _ h => h ▸ .refl derive s) fun didAny s₁ hs₁ => ?_
      obtain ⟨hlocal, hidle⟩ := hs₁
      have hrest := ih (s := s₁)
      refine Outcome.bind (hrest.imp (fun _ _ h => h) fun _ _ h => hlocal.trans h)
        fun rest s₂ hs₂ => .pure ?_
      obtain ⟨hlocal', hidle'⟩ := hs₂
      refine ⟨hlocal.trans hlocal', fun hfalse => ?_⟩
      obtain ⟨hfirst, hothers⟩ := Bool.or_eq_false_iff.mp hfalse
      obtain ⟨hidle₁, hnone⟩ := hidle hfirst
      obtain ⟨hidle₂, hnone'⟩ := hidle' hothers
      refine ⟨hidle₁.trans hidle₂, fun q hq => ?_⟩
      rcases List.mem_cons.mp hq with rfl | hq
      · exact hnone
      · rw [← hidle₁.nullifiersAfter]
        exact hnone' q hq

/-- The nullifiers of a pool past a mark. -/
theorem mem_nullifiersAfter {last : Nat} {nullifier : Nat × Fr} :
    nullifier ∈ s.nullifiersAfter poolContractId last ↔
      ∃ n ∈ s.poolNullifiers, s.eventContract? n.columns.id = some poolContractId ∧
        last < n.rowid ∧ nullifier = (n.rowid, n.columns.nullifier) := by
  unfold Storage.nullifiersAfter
  rw [Table.orderBy_perm.mem_iff, List.mem_map]
  constructor
  · intro h
    obtain ⟨n, hn, rfl⟩ := h
    obtain ⟨hmem, hpool⟩ := List.mem_filter.mp hn
    obtain ⟨hcontract, hlast⟩ : s.eventContract? n.columns.id = some poolContractId ∧
        last < n.rowid := by simpa using hpool
    exact ⟨n, hmem, hcontract, hlast, rfl⟩
  · intro h
    obtain ⟨n, hmem, hcontract, hlast, rfl⟩ := h
    exact ⟨n, List.mem_filter.mpr ⟨hmem, by simp [hcontract, hlast]⟩, rfl⟩

/-- A reconciliation that returns `false` had no nullifier to match. -/
theorem reconcile_outcome (derive : DeriveNoteFn) (s : Storage) (limit : UInt32) :
    Outcome (reconcileNullifiers limit) s
      (fun didAny s' => LocalRun derive s s' ∧ (didAny = false → limit ≠ 0 → ReconcileIdle s s' ∧
        ∀ p, s.nullifiersAfter p (s.nullifierMark p) = []))
      (fun _ => LocalRun derive s) := by
  unfold reconcileNullifiers
  refine Outcome.get_bind (Outcome.ite (fun hzero => .pure ⟨.refl derive s, ?_⟩) fun hlimit => ?_)
  · exact fun _ hlimit => absurd hzero hlimit
  · have hpos : 0 < limit.toNat := Nat.pos_of_ne_zero fun h => hlimit (UInt32.toNat_inj.mp h)
    refine (reconcilePools_outcome derive hpos _).imp (fun didAny s' h => ?_) fun _ _ h => h
    refine ⟨h.1, fun hfalse _ => ⟨(h.2 hfalse).1, fun p => ?_⟩⟩
    refine List.eq_nil_iff_forall_not_mem.mpr fun nullifier hmem => ?_
    obtain ⟨n, hn, hcontract, -, -⟩ := mem_nullifiersAfter.mp hmem
    have hpool : p ∈ s.poolIds ((Table.columns s.poolNullifiers).map NewNullifierEvent.id) :=
      mem_poolIds.mpr ⟨_, List.mem_map_of_mem (Table.mem_columns hn), hcontract⟩
    rw [(h.2 hfalse).2 p hpool] at hmem
    cases hmem

/-! ## What a settled pool holds -/

theorem nullifierMark?_update (s : Storage) (p last q : Nat) :
    Storage.nullifierMark? { s with
      nullifierScanState := Table.update (fun m => m.poolContractId = p)
        (fun m => { m with lastNullifierId := last }) s.nullifierScanState } q =
      (s.nullifierMark? q).map fun m => if p = q then last else m := by
  unfold Storage.nullifierMark?
  dsimp only
  rw [Table.find?_columns_update]
  · rw [Option.map_map, Option.map_map]
    refine Option.map_congr fun m hm => ?_
    obtain rfl : m.poolContractId = q := by simpa using List.find?_some hm
    by_cases h : p = m.poolContractId
    · simp [h]
    · simp [h, Ne.symm h]
  · exact fun _ _ => rfl

/-- After a pool is settled its mark is the largest number that was matched. -/
theorem nullifierMark_settle {last : Nat} (h : s.nullifierMark? poolContractId = some last)
    (limit p : Nat) : (s.settle poolContractId limit last).nullifierMark p =
      if poolContractId = p then
        Table.highWater Prod.fst last ((s.nullifiersAfter poolContractId last).take limit)
      else s.nullifierMark p := by
  unfold Storage.settle
  dsimp only
  generalize (s.nullifiersAfter poolContractId last).take limit = nullifiers
  obtain ⟨notes, hnotes⟩ := foldl_spend_frame poolContractId nullifiers s
  rw [hnotes]
  by_cases hmore : Table.highWater Prod.fst last nullifiers > last
  · rw [if_pos hmore]
    unfold Storage.nullifierMark
    rw [nullifierMark?_update]
    by_cases hp : poolContractId = p
    · subst hp
      simp only [if_true]
      rw [show Storage.nullifierMark? { s with userNotes := notes } poolContractId = some last
        from h]
      rfl
    · simp only [if_neg hp, Option.map_id']
      rfl
  · rw [if_neg hmore]
    have hsame : Table.highWater Prod.fst last nullifiers = last :=
      Nat.le_antisymm (Nat.le_of_not_lt hmore) Table.le_highWater
    by_cases hp : poolContractId = p
    · subst hp
      rw [if_pos rfl, hsame]
      exact congrArg (Option.getD · 0) h
    · rw [if_neg hp]
      rfl

/-- A nullifier of the pool that the new mark covers was covered before or has been matched. -/
theorem covered_settle (h : Table.Ordered s.poolNullifiers) {last : Nat}
    {n : Table.Row NewNullifierEvent} (hn : n ∈ s.poolNullifiers)
    (hpool : s.eventContract? n.columns.id = some poolContractId)
    (hle : n.rowid ≤
      Table.highWater Prod.fst last ((s.nullifiersAfter poolContractId last).take limit)) :
    n.rowid ≤ last ∨
      (n.rowid, n.columns.nullifier) ∈ (s.nullifiersAfter poolContractId last).take limit := by
  rcases Nat.lt_or_ge last n.rowid with hlt | hge
  · refine .inr ?_
    have hmem : (n.rowid, n.columns.nullifier) ∈ s.nullifiersAfter poolContractId last :=
      mem_nullifiersAfter.mpr ⟨n, hn, hpool, hlt, rfl⟩
    have hsorted : (s.nullifiersAfter poolContractId last).Pairwise
        fun a b => a.1 < b.1 := by
      refine Table.orderBy_pairwise_lt ?_
      rw [List.map_map]
      exact (h.filter _).map Table.Row.rowid fun _ _ hlt => Nat.ne_of_lt hlt
    have hlast : ∀ a ∈ s.nullifiersAfter poolContractId last, last < a.1 := by
      intro a ha
      obtain ⟨_, _, _, hlt, rfl⟩ := mem_nullifiersAfter.mp ha
      exact hlt
    have hrest := Table.filter_highWater_take hsorted hlast limit
    rw [← List.take_append_drop limit (s.nullifiersAfter poolContractId last),
      List.mem_append] at hmem
    rcases hmem with hmem | hmem
    · exact hmem
    · rw [← hrest] at hmem
      have hpast := (List.mem_filter.mp hmem).2
      exact absurd (of_decide_eq_true hpast) (Nat.not_lt.mpr hle)
  · exact .inl hge

end Reconcile

end PrivatePayments.State
