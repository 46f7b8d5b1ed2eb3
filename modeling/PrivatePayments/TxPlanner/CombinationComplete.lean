import PrivatePayments.TxPlanner.CombinationSound

/-!
# PrivatePayments.TxPlanner.CombinationComplete

`find_combination` always answers when the wallet's total is a `u128`
(`findCombination_outcome`): no sum overflows, and it gives up only when the total stays below
the goal. An overshoot of nothing is only reported for more notes than a plan may have.
-/

namespace PrivatePayments.TxPlanner

open Prover (checkedAdd checkedAdd_some exists_of_bind_ok)
open TopSums

/-! ## No sum overflows -/

theorem checkedAdd_of_lt {a b : NoteAmount} (h : a.val + b.val < u128Size) :
    ∃ c, checkedAdd a b = some c ∧ c.val = a.val + b.val := ⟨_, dif_pos h, rfl⟩

/-- Two notes of a list together weigh no more than the list. -/
theorem pair_le_weight {sorted : List Entry} (hnodup : sorted.Nodup) {i j : Nat}
    (hi : i < sorted.length) (hj : j < sorted.length) (hne : i ≠ j) :
    amountOf sorted[i] + amountOf sorted[j] ≤ weight amountOf sorted := by
  have hdistinct : sorted[i] ≠ sorted[j] := fun heq => hne ((hnodup.getElem_inj_iff).mp heq)
  have hpair : [sorted[i], sorted[j]].Nodup := by simpa using hdistinct
  have hle := weight_le_of_subset (w := amountOf) hpair
    (List.cons_subset.mpr ⟨List.getElem_mem hi,
      List.cons_subset.mpr ⟨List.getElem_mem hj, List.nil_subset _⟩⟩)
  simpa using hle

theorem TwoScan.loop_isOk {sorted : List Entry} {goal : NoteAmount} (hnodup : sorted.Nodup)
    (hfits : weight amountOf sorted < u128Size) :
    ∀ (gap left : Nat) (best : Option (Nat × Nat × NoteAmount)), left + gap < sorted.length →
      ∃ result, TwoScan.loop sorted goal gap left best = .ok result
  | 0, _, none, _ => ⟨_, rfl⟩
  | 0, _, some _, _ => ⟨_, rfl⟩
  | gap + 1, left, best, hlt => by
      have hlow : left < sorted.length := by omega
      obtain ⟨sum, hsum, -⟩ := checkedAdd_of_lt
        ((pair_le_weight hnodup hlow hlt (by omega)).trans_lt hfits)
      rw [TwoScan.loop, getD_entry hlow, getD_entry hlt]
      simp only [hsum]
      split
      · exact TwoScan.loop_isOk hnodup hfits gap (left + 1) best (by omega)
      · split
        · exact ⟨_, rfl⟩
        · split
          · exact TwoScan.loop_isOk hnodup hfits gap left _ (by omega)
          · exact TwoScan.loop_isOk hnodup hfits gap left best (by omega)

theorem TwoScan.scan_isOk {sorted : List Entry} {goal : NoteAmount} (hnodup : sorted.Nodup)
    (hfits : weight amountOf sorted < u128Size) :
    ∃ result, TwoScan.scan sorted goal = .ok result := by
  rw [TwoScan.scan]
  split
  · exact ⟨_, rfl⟩
  · exact TwoScan.loop_isOk hnodup hfits _ 0 none (by omega)

theorem dfs_isOk {goal : NoteAmount} {k : Nat} (rest : List Entry) :
    ∀ (sum : NoteAmount) (ctx : DfsContext), sum.val + weight amountOf rest < u128Size →
      ∃ result, KScan.dfs goal k rest sum ctx = .ok result := by
  induction rest with
  | nil =>
      intro sum ctx _
      rw [KScan.dfs]
      split
      · exact ⟨_, rfl⟩
      · exact ⟨_, rfl⟩
  | cons entry rest ih =>
      intro sum ctx hfits
      rw [weight_cons] at hfits
      change sum.val + (entry.2.val + _) < _ at hfits
      rw [KScan.dfs]
      split
      · exact ⟨_, rfl⟩
      split
      · exact ⟨_, rfl⟩
      obtain ⟨withNote, hadd, hval⟩ := checkedAdd_of_lt
        (show sum.val + entry.2.val < u128Size by omega)
      obtain ⟨⟨found, ctx₁⟩, hfirst⟩ := ih withNote (ctx.push entry.1) (by omega)
      obtain ⟨result, hskip⟩ := ih sum ctx₁.pop (by omega)
      simp only [hadd, hfirst, bind, Except.bind]
      split
      · exact ⟨_, rfl⟩
      · exact ⟨result, hskip⟩

theorem greedy_isOk {goal : NoteAmount} (rest : List Entry) :
    ∀ (total : NoteAmount) (picks : List Nat), total.val + weight amountOf rest < u128Size →
      ∃ result, KScan.greedy goal rest total picks = .ok result := by
  induction rest with
  | nil => exact fun _ _ _ => ⟨_, rfl⟩
  | cons entry rest ih =>
      intro total picks hfits
      rw [weight_cons] at hfits
      change total.val + (entry.2.val + _) < _ at hfits
      obtain ⟨nextTotal, hadd, hval⟩ := checkedAdd_of_lt
        (show total.val + entry.2.val < u128Size by omega)
      rw [KScan.greedy]
      simp only [hadd]
      split
      case _ hreach =>
        obtain ⟨excess, hexcess⟩ := checkedSub_of_le hreach
        rw [hexcess]
        exact ⟨_, rfl⟩
      · exact ih nextTotal _ (by omega)

/-! ## Excesses -/

/-- Every excess is reported as change, never as zero. -/
theorem TwoScan.loop_excess {sorted : List Entry} {goal : NoteAmount} {i j : Nat}
    {excess : NoteAmount} :
    ∀ (gap left : Nat) (best : Option (Nat × Nat × NoteAmount)),
      (∀ b, best = some b → b.2.2 ≠ 0) →
      TwoScan.loop sorted goal gap left best = .ok (.overshoot i j excess) → excess ≠ 0
  | 0, _, none, _, h => by cases h
  | 0, _, some (i, j, excess), hbest, h => by
      cases h
      exact hbest _ rfl
  | gap + 1, left, best, hbest, h => by
      rw [TwoScan.loop] at h
      split at h
      · cases h
      split at h
      · exact TwoScan.loop_excess gap (left + 1) best hbest h
      split at h
      · cases h
      case _ hdiff =>
        split at h
        · refine TwoScan.loop_excess gap left _ ?_ h
          rintro b ⟨⟩
          exact hdiff
        · exact TwoScan.loop_excess gap left best hbest h

theorem TwoScan.scan_excess {sorted : List Entry} {goal excess : NoteAmount} {i j : Nat}
    (h : TwoScan.scan sorted goal = .ok (.overshoot i j excess)) : excess ≠ 0 := by
  rw [TwoScan.scan] at h
  split at h
  · cases h
  · exact TwoScan.loop_excess _ 0 none (fun _ hbest => by cases hbest) h

theorem OneScan.scan_excess {goal excess : NoteAmount} {i : Nat} {sorted : List Entry}
    (h : OneScan.scan goal sorted = .overshoot i excess) : excess ≠ 0 := by
  induction sorted with
  | nil => cases h
  | cons entry rest ih =>
      rw [OneScan.scan] at h
      split at h
      · exact ih h
      split at h
      · cases h
      case _ hdiff =>
        cases h
        exact hdiff

/-- The best overshoot of a search is not zero. -/
def BestNonzero (ctx : DfsContext) : Prop :=
  ∀ best, ctx.bestOvershoot = some best → best.1 ≠ 0

theorem visit_nonzero {goal sum : NoteAmount} {ctx ctx' : DfsContext} {found : Bool}
    (hbest : BestNonzero ctx) (h : KScan.visit goal sum ctx = (found, ctx')) :
    BestNonzero ctx' := by
  rw [KScan.visit] at h
  split at h
  · cases h
    exact hbest
  split at h
  · cases h
    exact hbest
  case _ hdiff =>
    split at h
    · cases h
      rintro best ⟨⟩
      exact hdiff
    · cases h
      exact hbest

theorem dfs_nonzero {goal : NoteAmount} {k : Nat} {rest : List Entry} :
    ∀ {sum : NoteAmount} {ctx ctx' : DfsContext} {found : Bool}, BestNonzero ctx →
      KScan.dfs goal k rest sum ctx = .ok (found, ctx') → BestNonzero ctx' := by
  induction rest with
  | nil =>
      intro sum ctx ctx' found hbest h
      rw [KScan.dfs] at h
      split at h
      · exact visit_nonzero hbest (Except.ok.inj h)
      · cases h
        exact hbest
  | cons entry rest ih =>
      intro sum ctx ctx' found hbest h
      rw [KScan.dfs] at h
      split at h
      · exact visit_nonzero hbest (Except.ok.inj h)
      split at h
      · cases h
        exact hbest
      split at h
      · cases h
      obtain ⟨⟨hit, ctx₁⟩, hfirst, h⟩ := exists_of_bind_ok h
      have htook : BestNonzero ctx₁ := ih (show BestNonzero (ctx.push entry.1) from hbest) hfirst
      cases hit with
      | true =>
          cases h
          exact htook
      | false => exact ih (show BestNonzero ctx₁.pop from htook) h

/-! ## The sizes -/

/-- A search that finds and keeps nothing: the front of the target length stays below the
goal. -/
theorem dfs_miss {desc : List Entry} {goal : NoteAmount} {k : Nat} {ctx : DfsContext}
    (hlen : k ≤ desc.length) (hlimit : k ≤ 5000)
    (hbelow : ∀ j < k, weight amountOf (desc.take j) < goal.val)
    (h : KScan.dfs goal k desc 0 ⟨5000, [], none⟩ = .ok (false, ctx))
    (hnone : ctx.bestOvershoot = none) : weight amountOf (desc.take k) < goal.val := by
  by_contra hreach
  have hstart : BestPicked desc goal.val k ⟨5000, [], none⟩ := nofun
  -- otherwise the first path would have been kept
  have hkept := dfs_complete (t := []) k (List.Sublist.refl desc) rfl rfl hstart
    (Nat.zero_add k) hlen (by simp only; omega)
    (fun i hi => (Nat.zero_add _).symm ▸ hbelow i hi)
    ((Nat.zero_add _).symm ▸ Nat.not_lt.mp hreach) h
  exact hkept.elim Bool.false_ne_true (fun hkept => hkept hnone)

/-- What the loop over the sizes answers: an overshoot is not zero, and without an answer all
fronts it has tried stay below the goal. -/
theorem scanSizes_outcome {desc : List Entry} {goal : NoteAmount}
    (hfits : weight amountOf desc < u128Size) (n : Nat) :
    ∀ {k : Nat}, k + n ≤ desc.length + 1 → k + n ≤ 5000 →
      (∀ j < k, weight amountOf (desc.take j) < goal.val) →
      ∃ result, KScan.scanSizes desc goal (List.range' k n) = .ok result ∧
        (∀ scan, result = some scan → scan ≠ .miss) ∧
        (∀ indices excess, result = some (.overshoot indices excess) → excess ≠ 0) ∧
        (result = none → ∀ j < k + n, weight amountOf (desc.take j) < goal.val) := by
  induction n with
  | zero => exact fun _ _ hbelow => ⟨none, rfl, (fun _ h => by cases h), (fun _ _ h => by cases h), fun _ => hbelow⟩
  | succ n ih =>
      intro k hlen hlimit hbelow
      obtain ⟨⟨found, ctx⟩, hdfs⟩ := @dfs_isOk goal k desc 0 ⟨5000, [], none⟩
        (by simpa using hfits)
      have hstart : BestNonzero ⟨5000, [], none⟩ := fun _ h => by cases h
      have hnonzero : BestNonzero ctx := dfs_nonzero hstart hdfs
      rw [List.range'_succ, KScan.scanSizes]
      simp only [hdfs, bind, Except.bind]
      cases found with
      | true =>
          refine ⟨_, rfl, ?_, (fun _ _ h => by cases h), fun h => by cases h⟩
          rintro _ ⟨⟩ h
          cases h
      | false =>
          cases hbest : ctx.bestOvershoot with
          | some best =>
              refine ⟨_, rfl, ?_, ?_, fun h => by cases h⟩
              · rintro _ ⟨⟩ h
                cases h
              · rintro indices excess ⟨⟩
                exact hnonzero _ hbest
          | none =>
              have hfront := dfs_miss (by omega) (by omega) hbelow hdfs hbest
              have hbelow' : ∀ j < k + 1, weight amountOf (desc.take j) < goal.val := by
                intro j hj
                rcases Nat.lt_succ_iff_lt_or_eq.mp hj with hj | rfl
                · exact hbelow j hj
                · exact hfront
              obtain ⟨result, hok, hmiss, hexcess, hnone⟩ := ih (by omega) (by omega) hbelow'
              exact ⟨result, hok, hmiss, hexcess, fun h j hj => hnone h j (by omega)⟩

/-- The greedy scan gives up only when all notes together stay below the goal. -/
theorem greedy_miss {goal : NoteAmount} {rest : List Entry} :
    ∀ {total : NoteAmount} {picks : List Nat}, total.val < goal.val →
      KScan.greedy goal rest total picks = .ok .miss →
      total.val + weight amountOf rest < goal.val := by
  induction rest with
  | nil => exact fun hless _ => hless
  | cons entry rest ih =>
      intro total picks hless h
      rw [KScan.greedy] at h
      split at h
      · cases h
      case _ nextTotal hadd =>
        have hadd := checkedAdd_some hadd
        split at h
        · split at h
          · cases h
          · cases h
        case _ hnot =>
          have hrest := ih (Nat.not_le.mp hnot) h
          rw [weight_cons]
          show total.val + (entry.2.val + _) < _
          omega

/-- What `KScan::scan` answers when no pair and no single note reaches the goal. -/
theorem KScan.scan_outcome {sorted : List Entry} {goal : NoteAmount}
    (hfits : weight amountOf sorted < u128Size) (hdesc : Descending amountOf sorted.reverse)
    (hone : ∀ e ∈ sorted, amountOf e < goal.val)
    (hbelow : ∀ j < 3, weight amountOf (sorted.reverse.take j) < goal.val) :
    ∃ result, KScan.scan sorted goal = .ok result ∧
      (result = .miss → weight amountOf sorted < goal.val) ∧
      (∀ indices, result = .overshoot indices 0 → transactionLimit < indices.length) := by
  have hall : sorted.filter (fun entry => entry.2 < goal) = sorted :=
    List.filter_eq_self.mpr fun e he => decide_eq_true (hone e he)
  have hreverse : weight amountOf sorted.reverse = weight amountOf sorted :=
    weight_perm (List.reverse_perm sorted)
  have hfits' : weight amountOf sorted.reverse < u128Size := by rw [hreverse]; exact hfits
  have hpos : (0 : NoteAmount).val < goal.val := by simpa using hbelow 0 (by omega)
  obtain ⟨sizes, hsizes, hmiss, hexcess, hnone⟩ : ∃ result,
      KScan.scanSizes sorted.reverse goal
        (if 3 ≤ sorted.reverse.length then
          List.range' 3 (min sorted.reverse.length transactionLimit - 2) else []) = .ok result ∧
        (∀ scan, result = some scan → scan ≠ .miss) ∧
        (∀ indices excess, result = some (.overshoot indices excess) → excess ≠ 0) ∧
        (result = none → ∀ j ≤ min sorted.length transactionLimit,
          weight amountOf (sorted.reverse.take j) < goal.val) := by
    have hten : transactionLimit = 10 := rfl
    by_cases hlen : 3 ≤ sorted.reverse.length
    · rw [if_pos hlen]
      obtain ⟨result, hok, hmiss, hexcess, hnone⟩ := scanSizes_outcome hfits'
        (min sorted.reverse.length transactionLimit - 2) (k := 3) (by omega) (by omega) hbelow
      refine ⟨result, hok, hmiss, hexcess, fun h j hj => hnone h j ?_⟩
      rw [List.length_reverse] at hlen ⊢
      omega
    · rw [if_neg hlen]
      rw [List.length_reverse] at hlen
      exact ⟨none, rfl, nofun, nofun, fun _ j hj => hbelow j (by omega)⟩
  have hscan : KScan.scan sorted goal =
      sizes.elim (KScan.greedy goal sorted.reverse 0 []) .ok := by
    rw [KScan.scan, hall]
    simp only [hsizes, bind, Except.bind]
    cases sizes <;> rfl
  rw [hscan]
  cases sizes with
  | some result =>
      refine ⟨result, rfl, fun h => absurd h (hmiss _ rfl), ?_⟩
      rintro indices rfl
      exact absurd rfl (hexcess indices 0 rfl)
  | none =>
      obtain ⟨result, hgreedy⟩ := @greedy_isOk goal sorted.reverse 0 [] (by simpa using hfits')
      refine ⟨result, hgreedy, ?_, ?_⟩
      · rintro rfl
        have hless := greedy_miss hpos hgreedy
        rw [hreverse] at hless
        simpa using hless
      · rintro indices rfl
        have hfound : (KScan.overshoot indices 0).Found sorted.reverse goal :=
          greedy_found (p := []) rfl rfl rfl
            (fun j hj => hbelow j (by simp only [List.length_nil] at hj; omega)) hgreedy
        obtain ⟨k, ⟨sel, hsub, rfl, rfl, hcovers⟩, -⟩ := hfound
        rw [List.length_map]
        by_contra hshort
        have hlen := hsub.length_le
        rw [List.length_reverse] at hlen
        have hfront := hnone rfl sel.length (by omega)
        have hle := weight_sublist_le_take hdesc hsub
        omega

/-! ## The answer -/

/-- The outcomes of `find_combination` for a list of values that adds up to a `u128`. -/
structure Answers (values : List NoteAmount) (goal : NoteAmount) (combo : CombinationResult) :
    Prop where
  impossible : combo = .impossible → weight amountOf (enumerate values) < goal.val
  change : ∀ indices, combo.picks = .ok (indices, some 0) → transactionLimit < indices.length

theorem answers_of_picks {values : List NoteAmount} {goal : NoteAmount}
    {combo : CombinationResult} {indices : List Nat} {change : Option NoteAmount}
    (hpicks : combo.picks = .ok (indices, change))
    (hchange : change = some 0 → transactionLimit < indices.length) :
    Answers values goal combo where
  impossible := by
    rintro rfl
    cases hpicks
  change := by
    intro other hother
    rw [hpicks] at hother
    cases hother
    exact hchange rfl

/-- **The selection always answers** when the total of the values is a `u128`. -/
theorem findCombination_outcome {sort : UnstableSort} {values : List NoteAmount}
    {goal : NoteAmount} (hvalues : values ≠ [])
    (hfits : weight amountOf (enumerate values) < u128Size) :
    ∃ combo, findCombination sort values goal = .ok combo ∧ Answers values goal combo := by
  have hperm := sort.perm (enumerate values)
  have hnodup : (sort.sort (enumerate values)).Nodup :=
    hperm.nodup_iff.mpr (nodup_enumerate values).of_map
  have hweight : weight amountOf (sort.sort (enumerate values)) =
      weight amountOf (enumerate values) := weight_perm hperm
  have hne : sort.sort (enumerate values) ≠ [] := by
    intro hnil
    rw [hnil] at hperm
    exact hvalues (by simpa [enumerate] using hperm.nil_eq)
  rw [← hweight] at hfits
  obtain ⟨two, htwo⟩ : ∃ two, TwoScan.scan (sort.sort (enumerate values)) goal = .ok two :=
    TwoScan.scan_isOk hnodup hfits
  have hsingle := OneScan.scan_found goal (sort.sort (enumerate values))
  rw [findCombination, if_neg hvalues]
  simp only [htwo, bind, Except.bind]
  cases two with
  | exact i j => exact ⟨_, rfl, answers_of_picks rfl (fun h => by cases h)⟩
  | overshoot i j excess =>
      have hexcess := TwoScan.scan_excess htwo
      have hpair : Answers values goal (.twoOvershoot i j excess) :=
        answers_of_picks rfl fun h => absurd (Option.some.inj h) hexcess
      cases OneScan.scan goal (sort.sort (enumerate values)) with
      | exact i => exact ⟨_, rfl, answers_of_picks rfl (fun h => by cases h)⟩
      | overshoot _ _ => exact ⟨_, rfl, hpair⟩
      | miss => exact ⟨_, rfl, hpair⟩
  | miss =>
      cases hone : OneScan.scan goal (sort.sort (enumerate values)) with
      | exact i => exact ⟨_, rfl, answers_of_picks rfl (fun h => by cases h)⟩
      | overshoot i excess =>
          exact ⟨_, rfl, answers_of_picks rfl fun h =>
            absurd (Option.some.inj h) (OneScan.scan_excess hone)⟩
      | miss =>
          rw [hone] at hsingle
          obtain ⟨scan, hscan, hmiss, hexcess⟩ := KScan.scan_outcome hfits
            (List.pairwise_reverse.mpr (sort.ascending _)) hsingle
            (TwoScan.scan_miss htwo hsingle hne)
          simp only [hscan]
          cases scan with
          | exact indices => exact ⟨_, rfl, answers_of_picks rfl (fun h => by cases h)⟩
          | overshoot indices excess =>
              refine ⟨_, rfl, answers_of_picks rfl fun h => ?_⟩
              obtain rfl := Option.some.inj h
              exact hexcess indices rfl
          | miss => exact ⟨_, rfl, ⟨fun _ => hweight ▸ hmiss rfl, fun _ h => by cases h⟩⟩

end PrivatePayments.TxPlanner
