import PrivatePayments.Lib.TwoPointers
import PrivatePayments.TxPlanner.CombinationComplete

/-!
# PrivatePayments.TxPlanner.TwoScanOptimal

`TwoScan::scan` looks at a linear number of pairs and still answers for all of them: it finds an
exact pair if there is one, and otherwise the pair with the least excess.

What it returns are the indices that stand in the list, at two distinct positions; only the
indices of the caller's `enumerate` are themselves distinct.
-/

namespace PrivatePayments.TxPlanner

open TwoPointers (Grows Settled)

namespace TwoScan

/-! ## Pairs of positions -/

/-- The entry at a position. -/
abbrev entryAt (sorted : List Entry) (a : Nat) : Entry := sorted.getD a (0, 0)

/-- Two positions of the list, in order. -/
def IsPair (sorted : List Entry) (a b : Nat) : Prop := a < b ∧ b < sorted.length

/-- The sum of two entries. -/
def pairSum (sorted : List Entry) (a b : Nat) : Nat :=
  amountOf (entryAt sorted a) + amountOf (entryAt sorted b)

/-- The list is in ascending order of the amounts. -/
def Ascending (sorted : List Entry) : Prop := sorted.Pairwise fun a b => a.2 ≤ b.2

instance (sorted : List Entry) : Decidable (Ascending sorted) :=
  inferInstanceAs (Decidable (sorted.Pairwise fun a b => a.2 ≤ b.2))

/-- No two entries overflow a `u128`. -/
def PairsFit (sorted : List Entry) : Prop :=
  ∀ a b, IsPair sorted a b → pairSum sorted a b < u128Size

theorem pairsFit_iff {sorted : List Entry} :
    PairsFit sorted ↔ ∀ b < sorted.length, ∀ a < b, pairSum sorted a b < u128Size :=
  ⟨fun h b hb a hab => h a b ⟨hab, hb⟩, fun h a b hpair => h b hpair.2 a hpair.1⟩

instance (sorted : List Entry) : Decidable (PairsFit sorted) :=
  decidable_of_iff' _ pairsFit_iff

/-- `i` and `j` are the indices at two positions whose amounts add up to `total`. -/
def PairOf (sorted : List Entry) (total i j : Nat) : Prop :=
  ∃ a b, IsPair sorted a b ∧ (entryAt sorted a).1 = i ∧ (entryAt sorted b).1 = j ∧
    pairSum sorted a b = total

theorem PairOf.ne {sorted : List Entry} {total i j : Nat} (h : PairOf sorted total i j)
    (hnodup : (sorted.map Prod.fst).Nodup) : i ≠ j := by
  obtain ⟨a, b, ⟨hab, hb⟩, rfl, rfl, -⟩ := h
  have ha : a < sorted.length := hab.trans hb
  rw [entryAt, entryAt, getD_entry ha, getD_entry hb]
  exact List.pairwise_iff_getElem.mp (List.pairwise_map.mp hnodup) a b ha hb hab

theorem amount_mono {sorted : List Entry} (hasc : Ascending sorted) {a b : Nat} (hab : a ≤ b)
    (hb : b < sorted.length) : amountOf (entryAt sorted a) ≤ amountOf (entryAt sorted b) := by
  rcases Nat.lt_or_eq_of_le hab with hlt | rfl
  · rw [entryAt, entryAt, getD_entry (hlt.trans hb), getD_entry hb]
    exact List.pairwise_iff_getElem.mp hasc a b (hlt.trans hb) hb hlt
  · exact Nat.le_refl _

theorem grows_pairSum {sorted : List Entry} (hasc : Ascending sorted) :
    Grows (pairSum sorted) sorted.length where
  row _ _ _ hbb' hb' := Nat.add_le_add_left (amount_mono hasc hbb' hb') _
  column _ haa' ha' := Nat.add_le_add_right (amount_mono hasc haa' ha') _

/-! ## The answer -/

/-- What the scan says about all pairs. -/
structure Optimal (sorted : List Entry) (goal : NoteAmount) (result : TwoScan) : Prop where
  exact_iff : (∃ i j, result = .exact i j) ↔
    ∃ a b, IsPair sorted a b ∧ pairSum sorted a b = goal.val
  exact : ∀ i j, result = .exact i j → PairOf sorted goal.val i j
  overshoot : ∀ i j excess, result = .overshoot i j excess →
    0 < excess.val ∧ PairOf sorted (goal.val + excess.val) i j ∧
      ∀ a b, IsPair sorted a b → goal.val < pairSum sorted a b →
        goal.val + excess.val ≤ pairSum sorted a b
  miss_iff : result = .miss ↔ ∀ a b, IsPair sorted a b → pairSum sorted a b < goal.val
  distinct : (sorted.map Prod.fst).Nodup → ∀ i j,
    (result = .exact i j ∨ ∃ excess, result = .overshoot i j excess) → i ≠ j

theorem optimal_exact {sorted : List Entry} {goal : NoteAmount} {i j : Nat}
    (h : PairOf sorted goal.val i j) : Optimal sorted goal (.exact i j) where
  exact_iff := by
    obtain ⟨a, b, hpair, -, -, hsum⟩ := h
    exact ⟨fun _ => ⟨a, b, hpair, hsum⟩, fun _ => ⟨i, j, rfl⟩⟩
  exact := by
    rintro i j ⟨⟩
    exact h
  overshoot := by simp
  miss_iff := by
    obtain ⟨a, b, hpair, -, -, hsum⟩ := h
    refine ⟨by simp, fun hbelow => ?_⟩
    exact absurd hsum (hbelow a b hpair).ne
  distinct := by
    intro hnodup i' j' hreturned
    obtain ⟨rfl, rfl⟩ : i = i' ∧ j = j' := by simpa using hreturned
    exact h.ne hnodup

theorem optimal_overshoot {sorted : List Entry} {goal : NoteAmount} {i j : Nat}
    {excess : NoteAmount} (hpos : 0 < excess.val)
    (h : PairOf sorted (goal.val + excess.val) i j)
    (hleast : ∀ a b, IsPair sorted a b → goal.val ≤ pairSum sorted a b →
      goal.val + excess.val ≤ pairSum sorted a b) :
    Optimal sorted goal (.overshoot i j excess) where
  exact_iff := by
    refine ⟨by simp, ?_⟩
    rintro ⟨a, b, hpair, hsum⟩
    have hle := hleast a b hpair hsum.ge
    omega
  exact := by simp
  overshoot := by
    rintro i j excess ⟨⟩
    exact ⟨hpos, h, fun a b hpair hlt => hleast a b hpair hlt.le⟩
  miss_iff := by
    obtain ⟨a, b, hpair, -, -, hsum⟩ := h
    refine ⟨by simp, fun hbelow => ?_⟩
    have hlt := hbelow a b hpair
    omega
  distinct := by
    intro hnodup i' j' hreturned
    obtain ⟨rfl, rfl⟩ : i = i' ∧ j = j' := by simpa using hreturned
    exact h.ne hnodup

theorem optimal_miss {sorted : List Entry} {goal : NoteAmount}
    (hbelow : ∀ a b, IsPair sorted a b → pairSum sorted a b < goal.val) :
    Optimal sorted goal .miss where
  exact_iff := by
    refine ⟨by simp, ?_⟩
    rintro ⟨a, b, hpair, hsum⟩
    exact absurd hsum (hbelow a b hpair).ne
  exact := by simp
  overshoot := by simp
  miss_iff := ⟨fun _ => hbelow, fun _ => rfl⟩
  distinct := by simp

/-! ## The loop -/

/-- The sum of the kept pair. -/
def keptSum (goal : NoteAmount) (best : Option (Nat × Nat × NoteAmount)) : WithTop Nat :=
  best.elim ⊤ fun kept => (goal.val + kept.2.2.val : Nat)

/-- The kept pair is a pair of the list that overshoots. -/
def Kept (sorted : List Entry) (goal : NoteAmount) (best : Option (Nat × Nat × NoteAmount)) :
    Prop :=
  ∀ kept ∈ best, 0 < kept.2.2.val ∧ PairOf sorted (goal.val + kept.2.2.val) kept.1 kept.2.1

/-- A smaller excess lowers the sum. -/
theorem keptSum_better {goal diff : NoteAmount} {best : Option (Nat × Nat × NoteAmount)}
    (h : best.all fun kept => diff < kept.2.2) (i j : Nat) :
    keptSum goal (some (i, j, diff)) ≤ keptSum goal best := by
  cases best with
  | none => exact le_top
  | some kept =>
      have hless : diff < kept.2.2 := by simpa using h
      exact WithTop.coe_le_coe.mpr (Nat.add_le_add_left hless.le goal.val)

/-- Any other excess is at least that of the kept pair. -/
theorem keptSum_le {goal diff : NoteAmount} {best : Option (Nat × Nat × NoteAmount)}
    (h : ¬ best.all fun kept => diff < kept.2.2) :
    keptSum goal best ≤ (goal.val + diff.val : Nat) := by
  cases best with
  | none => exact absurd rfl h
  | some kept =>
      have hle : kept.2.2 ≤ diff := by simpa using h
      exact WithTop.coe_le_coe.mpr (Nat.add_le_add_left hle goal.val)

/-- The invariant of the loop: the pairs outside the window are settled by the kept one. -/
theorem loop_optimal {sorted : List Entry} {goal : NoteAmount} (hasc : Ascending sorted)
    (hfit : PairsFit sorted) :
    ∀ (gap left : Nat) (best : Option (Nat × Nat × NoteAmount)), left + gap < sorted.length →
      Settled (pairSum sorted) sorted.length goal.val (keptSum goal best) left (left + gap) →
      Kept sorted goal best →
      ∃ result, TwoScan.loop sorted goal gap left best = .ok result ∧ Optimal sorted goal result
  | 0, left, none, _, hsettled, _ => by
      refine ⟨.miss, rfl, optimal_miss fun a b hpair => ?_⟩
      by_contra hreach
      have hleast := hsettled.least (Nat.le_refl left) hpair.1 hpair.2 (Nat.not_lt.mp hreach)
      exact WithTop.coe_ne_top (top_le_iff.mp hleast)
  | 0, left, some kept, _, hsettled, hkept => by
      obtain ⟨hpos, hpairOf⟩ := hkept kept rfl
      refine ⟨.overshoot kept.1 kept.2.1 kept.2.2, rfl, ?_⟩
      refine optimal_overshoot hpos hpairOf fun a b hpair hreach => ?_
      exact WithTop.coe_le_coe.mp (hsettled.least (Nat.le_refl left) hpair.1 hpair.2 hreach)
  | gap + 1, left, best, hlt, hsettled, hkept => by
      have hgrows := grows_pairSum hasc
      have hpair : IsPair sorted left (left + (gap + 1)) := ⟨by omega, hlt⟩
      obtain ⟨sum, hadd, hsum⟩ := checkedAdd_of_lt (hfit _ _ hpair)
      have hsum : sum.val = pairSum sorted left (left + (gap + 1)) := hsum
      rw [TwoScan.loop]
      simp only [hadd]
      cases hsub : checkedSub sum goal with
      | none =>
          -- the pair is below the goal: the left pointer moves
          have hlow : pairSum sorted left (left + (gap + 1)) < goal.val :=
            hsum ▸ checkedSub_none hsub
          refine loop_optimal hasc hfit gap (left + 1) best (by omega) ?_ hkept
          rw [show left + 1 + gap = left + (gap + 1) by omega]
          exact hsettled.advance hgrows hlt hlow
      | some diff =>
          have hdiff : pairSum sorted left (left + (gap + 1)) = goal.val + diff.val :=
            hsum ▸ checkedSub_some hsub
          dsimp only
          by_cases hzero : diff = 0
          · rw [if_pos hzero]
            refine ⟨_, rfl, optimal_exact ⟨left, left + (gap + 1), hpair, rfl, rfl, ?_⟩⟩
            rw [hdiff, hzero]
            rfl
          · -- the pair overshoots: the right pointer moves, and the better pair is kept
            rw [if_neg hzero]
            by_cases hbetter : best.all fun kept => diff < kept.2.2
            · rw [if_pos hbetter]
              refine loop_optimal hasc hfit gap left _ (by omega) ?_ ?_
              · refine (hsettled.mono (keptSum_better hbetter _ _)).retreat hgrows hlt ?_
                exact WithTop.coe_le_coe.mpr hdiff.ge
              · intro kept hkept
                obtain rfl := Option.some.inj hkept
                exact ⟨Nat.pos_of_ne_zero fun h => hzero (Fin.ext h),
                  left, left + (gap + 1), hpair, rfl, rfl, hdiff⟩
            · rw [if_neg hbetter]
              refine loop_optimal hasc hfit gap left best (by omega) ?_ hkept
              refine Settled.retreat hsettled hgrows hlt ((keptSum_le hbetter).trans ?_)
              exact WithTop.coe_le_coe.mpr hdiff.ge

/-- **The scan is optimal.** On a list in ascending order whose pairs fit a `u128`, the scan
answers, and its answer is optimal over all pairs. -/
theorem scan_optimal {sorted : List Entry} {goal : NoteAmount} (hasc : Ascending sorted)
    (hfit : PairsFit sorted) :
    ∃ result, TwoScan.scan sorted goal = .ok result ∧ Optimal sorted goal result := by
  rw [TwoScan.scan]
  by_cases hshort : sorted.length < 2
  · rw [if_pos hshort]
    refine ⟨.miss, rfl, optimal_miss ?_⟩
    rintro a b ⟨hab, hb⟩
    omega
  · rw [if_neg hshort]
    refine loop_optimal hasc hfit _ 0 none (by omega) ?_ (by simp [Kept])
    rw [Nat.zero_add]
    exact Settled.start

/-- Repeated amounts, and no pair that adds up to the goal. -/
theorem scan_optimal_repeated :
    ∃ result, TwoScan.scan [(3, 1), (0, 2), (1, 2), (2, 7)] 5 = .ok result ∧
      Optimal [(3, 1), (0, 2), (1, 2), (2, 7)] 5 result :=
  scan_optimal (by decide) (by decide)

/-- Two entries with the same index come back as that index twice. -/
theorem scan_same_index : Ascending [(0, 1), (0, 2)] ∧ PairsFit [(0, 1), (0, 2)] ∧
    TwoScan.scan [(0, 1), (0, 2)] 3 = .ok (.exact 0 0) :=
  ⟨by decide, by decide, rfl⟩

end TwoScan

end PrivatePayments.TxPlanner
