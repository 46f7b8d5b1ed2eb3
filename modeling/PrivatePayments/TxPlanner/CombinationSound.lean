import PrivatePayments.Lib.TopSums
import PrivatePayments.Prover.FlowsSound
import PrivatePayments.TxPlanner.Plan
import Mathlib.Data.List.Sort

/-!
# PrivatePayments.TxPlanner.CombinationSound

What a successful `find_combination` returns (`findCombination_picks`): notes that cover the
goal, and from three notes on a selection in descending order with no shorter one that covers
the goal.

The search for three notes and more is capped, but the cap never decides the size: the first
path of the depth-first search takes the largest notes, and they reach the goal as soon as any
notes of that number do.
-/

namespace PrivatePayments.TxPlanner

open Prover (checkedAdd checkedAdd_some exists_of_bind_ok)
open TopSums

/-- The amount of an entry. -/
abbrev amountOf (entry : Entry) : Nat := entry.2.val

theorem checkedSub_some {a b c : NoteAmount} (h : checkedSub a b = some c) :
    a.val = b.val + c.val := by
  simp only [checkedSub, Option.ite_none_right_eq_some, Option.some.injEq] at h
  obtain ⟨hle, rfl⟩ := h
  exact (Nat.add_sub_of_le hle).symm

theorem checkedSub_of_le {a b : NoteAmount} (h : b ≤ a) : ∃ c, checkedSub a b = some c :=
  ⟨_, if_pos h⟩

theorem checkedSub_none {a b : NoteAmount} (h : checkedSub a b = none) : a.val < b.val := by
  simp only [checkedSub, ite_eq_right_iff, reduceCtorEq, imp_false, not_le] at h
  exact h

/-- A sort by insertion. -/
def insertionSort : UnstableSort where
  sort := List.insertionSort fun a b => a.2 ≤ b.2
  perm entries := List.perm_insertionSort _ entries
  ascending entries := by
    have htotal : Std.Total fun a b : Entry => a.2 ≤ b.2 := ⟨fun a b => le_total a.2 b.2⟩
    have htrans : IsTrans Entry fun a b => a.2 ≤ b.2 := ⟨fun _ _ _ => le_trans⟩
    exact List.pairwise_insertionSort _ entries

/-! ## Pairs -/

/-- What `TwoScan` has found in a list. -/
def TwoScan.Found (sorted : List Entry) (goal : NoteAmount) : TwoScan → Prop
  | .exact i j => ∃ low ∈ sorted, ∃ high ∈ sorted, low ≠ high ∧ low.1 = i ∧ high.1 = j ∧
      amountOf low + amountOf high = goal.val
  | .overshoot i j excess => ∃ low ∈ sorted, ∃ high ∈ sorted, low ≠ high ∧ low.1 = i ∧
      high.1 = j ∧ amountOf low + amountOf high = goal.val + excess.val
  | .miss => True

theorem getD_entry {sorted : List Entry} {i : Nat} (h : i < sorted.length) :
    sorted.getD i (0, 0) = sorted[i] := by
  simp [h]

theorem TwoScan.loop_found {sorted : List Entry} {goal : NoteAmount} (hnodup : sorted.Nodup)
    {result : TwoScan} :
    ∀ (gap left : Nat) (best : Option (Nat × Nat × NoteAmount)),
      left + gap < sorted.length →
      (∀ i j excess, best = some (i, j, excess) →
        TwoScan.Found sorted goal (.overshoot i j excess)) →
      TwoScan.loop sorted goal gap left best = .ok result → result.Found sorted goal
  | 0, _, none, _, _, h => by
      cases h
      trivial
  | 0, _, some (i, j, excess), _, hbest, h => by
      cases h
      exact hbest i j excess rfl
  | gap + 1, left, best, hlt, hbest, h => by
      have hlow : left < sorted.length := by omega
      rw [TwoScan.loop, getD_entry hlow, getD_entry hlt] at h
      have hne : sorted[left] ≠ sorted[left + (gap + 1)] := fun heq => by
        have := (List.Nodup.getElem_inj_iff hnodup).mp heq
        omega
      split at h
      · cases h
      case _ sum hsum =>
        have hsum := checkedAdd_some hsum
        split at h
        · exact TwoScan.loop_found hnodup gap (left + 1) best (by omega) hbest h
        case _ diff hdiff =>
          have hdiff := checkedSub_some hdiff
          split at h
          case _ hzero =>
            cases h
            refine ⟨_, List.getElem_mem hlow, _, List.getElem_mem hlt, hne, rfl, rfl, ?_⟩
            rw [← hsum, hdiff, hzero]
            rfl
          · split at h
            · refine TwoScan.loop_found hnodup gap left _ (by omega) ?_ h
              rintro i j excess ⟨⟩
              exact ⟨_, List.getElem_mem hlow, _, List.getElem_mem hlt, hne, rfl, rfl,
                by rw [← hsum, hdiff]⟩
            · exact TwoScan.loop_found hnodup gap left best (by omega) hbest h

/-- Once a pair has overshot, the loop does not miss. -/
theorem TwoScan.loop_some {sorted : List Entry} {goal : NoteAmount} :
    ∀ (gap left : Nat) (best : Nat × Nat × NoteAmount),
      TwoScan.loop sorted goal gap left (some best) ≠ .ok .miss
  | 0, _, (_, _, _), h => by cases h
  | gap + 1, left, best, h => by
      rw [TwoScan.loop] at h
      split at h
      · cases h
      · split at h
        · exact TwoScan.loop_some gap (left + 1) best h
        · split at h
          · cases h
          · split at h
            · exact TwoScan.loop_some gap left _ h
            · exact TwoScan.loop_some gap left best h

/-- A loop that misses has never moved its right end: the two largest stay below the goal. -/
theorem TwoScan.loop_miss {sorted : List Entry} {goal : NoteAmount} :
    ∀ (gap left : Nat), left + gap < sorted.length →
      TwoScan.loop sorted goal gap left none = .ok .miss → 0 < gap →
        amountOf (sorted.getD (left + gap - 1) (0, 0)) +
          amountOf (sorted.getD (left + gap) (0, 0)) < goal.val
  | gap + 1, left, hlt, h, _ => by
      rw [TwoScan.loop] at h
      split at h
      · cases h
      case _ sum hsum =>
        split at h
        case _ hdiff =>
          cases gap with
          | zero =>
              have hsum := checkedAdd_some hsum
              have hless := checkedSub_none hdiff
              rw [hsum] at hless
              exact hless
          | succ gap =>
              have hrest := TwoScan.loop_miss (gap + 1) (left + 1) (by omega) h (Nat.succ_pos gap)
              rw [show left + 1 + (gap + 1) = left + (gap + 1 + 1) by omega] at hrest
              exact hrest
        · split at h
          · cases h
          · split at h
            · exact absurd h (TwoScan.loop_some gap left _)
            case _ hall => exact absurd rfl hall

theorem TwoScan.scan_found {sorted : List Entry} {goal : NoteAmount} {result : TwoScan}
    (hnodup : sorted.Nodup) (h : TwoScan.scan sorted goal = .ok result) :
    result.Found sorted goal := by
  rw [TwoScan.scan] at h
  split at h
  · cases h
    trivial
  · exact TwoScan.loop_found hnodup _ 0 none (by omega) (fun i j excess hbest => by cases hbest) h

/-- The fronts of one and two notes stay below the goal when both scans miss. -/
theorem TwoScan.scan_miss {sorted : List Entry} {goal : NoteAmount}
    (h : TwoScan.scan sorted goal = .ok .miss) (hone : ∀ e ∈ sorted, amountOf e < goal.val)
    (hne : sorted ≠ []) : ∀ j < 3, weight amountOf (sorted.reverse.take j) < goal.val := by
  intro j hj
  have hpos : 0 < goal.val := by
    obtain ⟨e, he⟩ := List.exists_mem_of_ne_nil sorted hne
    exact Nat.lt_of_le_of_lt (Nat.zero_le _) (hone e he)
  by_cases hlen : sorted.length < 2
  · -- a single note is below the goal
    obtain ⟨e, rfl⟩ : ∃ e, sorted = [e] := by
      cases sorted with
      | nil => exact absurd rfl hne
      | cons e rest =>
          cases rest with
          | nil => exact ⟨e, rfl⟩
          | cons _ _ => simp only [List.length_cons] at hlen; omega
    have he := hone e List.mem_cons_self
    cases j with
    | zero => simpa using hpos
    | succ j => simpa using he
  · rw [TwoScan.scan, if_neg hlen] at h
    have hpair := TwoScan.loop_miss (sorted.length - 1) 0 (by omega) h (by omega)
    rw [Nat.zero_add, getD_entry (by omega), getD_entry (by omega)] at hpair
    have htwo : weight amountOf (sorted.reverse.take 2) < goal.val := by
      have htake : sorted.reverse.take 2 =
          [sorted[sorted.length - 1], sorted[sorted.length - 1 - 1]] := by
        apply List.ext_getElem
        · simp
          omega
        · intro i hi hi'
          have hi : i < 2 := hi'
          rw [List.getElem_take, List.getElem_reverse]
          match i, hi with
          | 0, _ => rfl
          | 1, _ => rfl
      rw [htake]
      simpa [Nat.add_comm] using hpair
    exact Nat.lt_of_le_of_lt (weight_take_mono (Nat.le_of_lt_succ hj)) htwo

/-! ## Single notes -/

/-- What `OneScan` has found in a list. -/
def OneScan.Found (sorted : List Entry) (goal : NoteAmount) : OneScan → Prop
  | .exact i => ∃ e ∈ sorted, e.1 = i ∧ amountOf e = goal.val
  | .overshoot i excess => ∃ e ∈ sorted, e.1 = i ∧ amountOf e = goal.val + excess.val
  | .miss => ∀ e ∈ sorted, amountOf e < goal.val

theorem OneScan.scan_found (goal : NoteAmount) (sorted : List Entry) :
    (OneScan.scan goal sorted).Found sorted goal := by
  induction sorted with
  | nil => exact fun e he => absurd he List.not_mem_nil
  | cons entry rest ih =>
      rw [OneScan.scan]
      split
      case _ hdiff =>
        have hless := checkedSub_none hdiff
        cases hrest : OneScan.scan goal rest with
        | exact i =>
            rw [hrest] at ih
            obtain ⟨e, he, hfound⟩ := ih
            exact ⟨e, List.mem_cons_of_mem _ he, hfound⟩
        | overshoot i excess =>
            rw [hrest] at ih
            obtain ⟨e, he, hfound⟩ := ih
            exact ⟨e, List.mem_cons_of_mem _ he, hfound⟩
        | miss =>
            rw [hrest] at ih
            exact List.forall_mem_cons.mpr ⟨hless, ih⟩
      case _ diff hdiff =>
        have hdiff := checkedSub_some hdiff
        split
        case _ hzero =>
          refine ⟨entry, List.mem_cons_self, rfl, hdiff.trans ?_⟩
          rw [hzero]
          rfl
        · exact ⟨entry, List.mem_cons_self, rfl, hdiff⟩

/-! ## Three notes and more -/

/-- A path of the search stands for candidates in their order. -/
def Picked (candidates : List Entry) (goal k : Nat) (path : List Nat) (excess : Nat) : Prop :=
  ∃ sel : List Entry, sel.Sublist candidates ∧ sel.map Prod.fst = path ∧ sel.length = k ∧
    weight amountOf sel = goal + excess

/-- Every best overshoot of a search is a selection. -/
def BestPicked (candidates : List Entry) (goal k : Nat) (ctx : DfsContext) : Prop :=
  ∀ excess path, ctx.bestOvershoot = some (excess, path) →
    Picked candidates goal k path excess.val

section Dfs

variable {candidates : List Entry} {goal sum : NoteAmount} {k : Nat} {ctx ctx' : DfsContext}
  {found : Bool}

/-- What a search leaves behind. -/
structure Searched (candidates : List Entry) (goal : NoteAmount) (k : Nat) (ctx : DfsContext)
    (found : Bool) (ctx' : DfsContext) : Prop where
  best : BestPicked candidates goal.val k ctx'
  hit : found = true → Picked candidates goal.val k ctx'.path 0
  path : found = false → ctx'.path = ctx.path
  keeps : ctx.bestOvershoot ≠ none → ctx'.bestOvershoot ≠ none

theorem Searched.refl (hbest : BestPicked candidates goal.val k ctx) :
    Searched candidates goal k ctx false ctx :=
  ⟨hbest, nofun, fun _ => rfl, id⟩

theorem visit_searched {taken : List Entry} (hsub : taken.Sublist candidates)
    (hpath : ctx.path = taken.map Prod.fst) (hlen : ctx.path.length = k)
    (hsum : sum.val = weight amountOf taken) (hbest : BestPicked candidates goal.val k ctx)
    (h : KScan.visit goal sum ctx = (found, ctx')) :
    Searched candidates goal k ctx found ctx' := by
  have hlen : taken.length = k := by rw [← hlen, hpath, List.length_map]
  rw [KScan.visit] at h
  split at h
  · cases h
    exact Searched.refl hbest
  case _ diff hdiff =>
    have hdiff := checkedSub_some hdiff
    split at h
    case _ hzero =>
      cases h
      refine ⟨hbest, fun _ => ⟨taken, hsub, hpath.symm, hlen, ?_⟩, nofun, id⟩
      rw [← hsum, hdiff, hzero]
      rfl
    · split at h
      · cases h
        refine ⟨?_, nofun, fun _ => rfl, nofun⟩
        rintro excess path ⟨⟩
        exact ⟨taken, hsub, hpath.symm, hlen, by rw [← hsum, hdiff]⟩
      · cases h
        exact Searched.refl hbest

/-- **Soundness of the search.** Whatever it returns or keeps is a selection of the target
length in the order of the candidates. -/
theorem dfs_sound :
    ∀ {rest t : List Entry} {sum : NoteAmount} {ctx ctx' : DfsContext} {found : Bool},
      (t ++ rest).Sublist candidates → ctx.path = t.map Prod.fst →
      sum.val = weight amountOf t → BestPicked candidates goal.val k ctx →
      KScan.dfs goal k rest sum ctx = .ok (found, ctx') →
      Searched candidates goal k ctx found ctx' := by
  intro rest
  induction rest with
  | nil =>
      intro taken sum ctx ctx' found hsub hpath hsum hbest h
      rw [List.append_nil] at hsub
      rw [KScan.dfs] at h
      split at h
      case _ hlen => exact visit_searched hsub hpath hlen hsum hbest (Except.ok.inj h)
      · cases h
        exact Searched.refl hbest
  | cons entry rest ih =>
      intro taken sum ctx ctx' found hsub hpath hsum hbest h
      have htaken : taken.Sublist candidates := (List.sublist_append_left taken _).trans hsub
      rw [KScan.dfs] at h
      split at h
      case _ hlen => exact visit_searched htaken hpath hlen hsum hbest (Except.ok.inj h)
      split at h
      · cases h
        exact Searched.refl hbest
      split at h
      · cases h
      case _ withNote hadd =>
        obtain ⟨⟨hit, ctx₁⟩, hfirst, h⟩ := exists_of_bind_ok h
        have hadd := checkedAdd_some hadd
        have htook : Searched candidates goal k (ctx.push entry.1) hit ctx₁ := by
          refine ih (t := taken ++ [entry]) ?_ ?_ ?_ hbest hfirst
          · rw [List.append_assoc]
            exact hsub
          · simp [DfsContext.push, hpath]
          · simp [hadd, hsum]
        cases hit with
        | true =>
            cases h
            exact ⟨htook.best, htook.hit, nofun, htook.keeps⟩
        | false =>
            -- the entry is taken back, and the search goes on without it
            have hback : ctx₁.pop.path = ctx.path := by
              rw [DfsContext.pop, htook.path rfl, DfsContext.push, List.dropLast_concat]
            have hskip : Searched candidates goal k ctx₁.pop found ctx' := by
              refine ih (t := taken) ?_ (hback.trans hpath) hsum htook.best h
              exact ((List.sublist_cons_self entry rest).append_left taken).trans hsub
            exact ⟨hskip.best, hskip.hit, fun hf => (hskip.path hf).trans hback,
              fun hb => hskip.keeps (htook.keeps hb)⟩

/-- A path of the target length that reaches the goal is a hit or an overshoot. -/
theorem visit_complete (hgoal : goal ≤ sum) (h : KScan.visit goal sum ctx = (found, ctx')) :
    found = true ∨ ctx'.bestOvershoot ≠ none := by
  rw [KScan.visit] at h
  split at h
  case _ hdiff => exact absurd (checkedSub_none hdiff) (Nat.not_lt.mpr hgoal)
  · split at h
    · cases h
      exact .inl rfl
    · split at h
      · cases h
        exact .inr nofun
      case _ hall =>
        cases h
        refine .inr fun hnone => hall ?_
        rw [hnone]
        rfl

/-- **Completeness on the first path.** If the next notes together are the first of their number
to reach the goal, the search returns or keeps something: its first path takes just them, and
nothing prunes that path while the limit lasts. -/
theorem dfs_complete (n : Nat) :
    ∀ {rest t : List Entry} {sum : NoteAmount} {ctx ctx' : DfsContext} {found : Bool},
      (t ++ rest).Sublist candidates → ctx.path = t.map Prod.fst →
      sum.val = weight amountOf t → BestPicked candidates goal.val k ctx →
      t.length + n = k → n ≤ rest.length → n ≤ ctx.iterationLimit →
      (∀ j < n, sum.val + weight amountOf (rest.take j) < goal.val) →
      goal.val ≤ sum.val + weight amountOf (rest.take n) →
      KScan.dfs goal k rest sum ctx = .ok (found, ctx') →
      found = true ∨ ctx'.bestOvershoot ≠ none := by
  induction n with
  | zero =>
      intro rest t sum ctx ctx' found hsub hpath hsum hbest hk hn hlimit hbelow hreach h
      have hlen : ctx.path.length = k := by rw [hpath, List.length_map, ← hk, Nat.add_zero]
      have hgoal : goal ≤ sum := by simpa using hreach
      cases rest with
      | nil =>
          rw [KScan.dfs, if_pos hlen] at h
          exact visit_complete hgoal (Except.ok.inj h)
      | cons entry rest =>
          rw [KScan.dfs, if_pos hlen] at h
          exact visit_complete hgoal (Except.ok.inj h)
  | succ n ih =>
      intro rest t sum ctx ctx' found hsub hpath hsum hbest hk hn hlimit hbelow hreach h
      cases rest with
      | nil => cases hn
      | cons entry rest =>
          have hlen : ctx.path.length ≠ k := by
            rw [hpath, List.length_map]
            omega
          have hgo : ¬(goal ≤ sum ∨ ctx.iterationLimit ≤ 0) := by
            rintro (hgoal | hzero)
            · have hnow := hbelow 0 (Nat.succ_pos n)
              rw [List.take_zero, weight_nil, Nat.add_zero] at hnow
              exact Nat.not_le.mpr hnow hgoal
            · omega
          rw [KScan.dfs, if_neg hlen, if_neg hgo] at h
          split at h
          · cases h
          case _ withNote hadd =>
            obtain ⟨⟨hit, ctx₁⟩, hfirst, h⟩ := exists_of_bind_ok h
            have hadd := checkedAdd_some hadd
            have htaken : (t ++ [entry] ++ rest).Sublist candidates := by
              rw [List.append_assoc]
              exact hsub
            have hpushed : (ctx.push entry.1).path = (t ++ [entry]).map Prod.fst := by
              simp [DfsContext.push, hpath]
            have hwith : withNote.val = weight amountOf (t ++ [entry]) := by simp [hadd, hsum]
            have hstep (j : Nat) : withNote.val + weight amountOf (rest.take j) =
                sum.val + weight amountOf ((entry :: rest).take (j + 1)) := by
              rw [hadd, List.take_succ_cons, weight_cons, Nat.add_assoc]
            have hkept := ih htaken hpushed hwith hbest
              (by simp only [List.length_append, List.length_singleton]; omega)
              (Nat.le_of_succ_le_succ hn) (by simp only [DfsContext.push]; omega)
              (fun j hj => (hstep j).symm ▸ hbelow (j + 1) (Nat.succ_lt_succ hj))
              ((hstep n).symm ▸ hreach) hfirst
            have htook := dfs_sound htaken hpushed hwith hbest hfirst
            cases hit with
            | true =>
                cases h
                exact .inl rfl
            | false =>
                -- the overshoot that was kept survives the rest of the search
                have hback : ctx₁.pop.path = t.map Prod.fst := by
                  rw [DfsContext.pop, htook.path rfl, DfsContext.push, List.dropLast_concat, hpath]
                have hsub' := ((List.sublist_cons_self entry rest).append_left t).trans hsub
                have hskip := dfs_sound hsub' hback hsum htook.best h
                exact .inr (hskip.keeps (hkept.resolve_left Bool.false_ne_true))

end Dfs

/-! ## The sizes -/

/-- What `KScan` has found: the shortest front that reaches the goal has the length of the
selection. -/
def KScan.Found (desc : List Entry) (goal : NoteAmount) : KScan → Prop
  | .exact indices => ∃ k, Picked desc goal.val k indices 0 ∧
      ∀ j < k, weight amountOf (desc.take j) < goal.val
  | .overshoot indices excess => ∃ k, Picked desc goal.val k indices excess.val ∧
      ∀ j < k, weight amountOf (desc.take j) < goal.val
  | .miss => True

theorem scanSizes_found {desc : List Entry} {goal : NoteAmount} (n : Nat) :
    ∀ {k : Nat} {result : Option KScan}, k + n ≤ desc.length + 1 → k + n ≤ 5000 →
      (∀ j < k, weight amountOf (desc.take j) < goal.val) →
      KScan.scanSizes desc goal (List.range' k n) = .ok result →
      ∀ scan, result = some scan → scan.Found desc goal := by
  induction n with
  | zero =>
      intro k result hlen hlimit hbelow h scan hscan
      cases h
      cases hscan
  | succ n ih =>
      intro k result hlen hlimit hbelow h scan hscan
      rw [List.range'_succ, KScan.scanSizes] at h
      obtain ⟨⟨found, ctx⟩, hdfs, h⟩ := exists_of_bind_ok h
      have hstart : BestPicked desc goal.val k ⟨5000, [], none⟩ := nofun
      have hsearched := dfs_sound (t := []) (List.Sublist.refl desc) rfl rfl hstart hdfs
      cases found with
      | true =>
          cases h
          cases hscan
          exact ⟨k, hsearched.hit rfl, hbelow⟩
      | false =>
          dsimp only at h
          rw [if_neg Bool.false_ne_true] at h
          split at h
          case _ excess path hbest =>
            cases h
            cases hscan
            exact ⟨k, hsearched.best excess path hbest, hbelow⟩
          case _ hnone =>
            refine ih (by omega) (by omega) (fun j hj => ?_) h scan hscan
            rcases Nat.lt_succ_iff_lt_or_eq.mp hj with hj | rfl
            · exact hbelow j hj
            · -- otherwise the first path would have been kept
              by_contra hreach
              have hkept := dfs_complete (t := []) j (List.Sublist.refl desc) rfl rfl hstart
                (Nat.zero_add j) (by omega) (by simp only; omega)
                (fun i hi => (Nat.zero_add _).symm ▸ hbelow i hi)
                ((Nat.zero_add _).symm ▸ Nat.not_lt.mp hreach) hdfs
              exact hkept.elim Bool.false_ne_true (fun hkept => hkept hnone)

/-- The greedy scan stops at the shortest front that reaches the goal. -/
theorem greedy_found {desc : List Entry} {goal : NoteAmount} :
    ∀ {rest p : List Entry} {total : NoteAmount} {picks : List Nat} {result : KScan},
      p ++ rest = desc → picks = p.map Prod.fst → total.val = weight amountOf p →
      (∀ j ≤ p.length, weight amountOf (desc.take j) < goal.val) →
      KScan.greedy goal rest total picks = .ok result → result.Found desc goal := by
  intro rest
  induction rest with
  | nil =>
      intro p total picks result hdesc hpicks htotal hbelow h
      cases h
      trivial
  | cons entry rest ih =>
      intro p total picks result hdesc hpicks htotal hbelow h
      have hfront : p ++ [entry] ++ rest = desc := by rw [← hdesc, List.append_assoc]; rfl
      have hpicks' : picks ++ [entry.1] = (p ++ [entry]).map Prod.fst := by simp [hpicks]
      rw [KScan.greedy] at h
      split at h
      · cases h
      case _ nextTotal hadd =>
        have hadd := checkedAdd_some hadd
        have hnext : nextTotal.val = weight amountOf (p ++ [entry]) := by simp [hadd, htotal]
        split at h
        · split at h
          · cases h
          case _ excess hexcess =>
            cases h
            refine ⟨p.length + 1, ⟨p ++ [entry], ?_, hpicks'.symm, by simp, ?_⟩, ?_⟩
            · exact hfront ▸ List.sublist_append_left _ rest
            · rw [← hnext, checkedSub_some hexcess]
            · exact fun j hj => hbelow j (Nat.le_of_lt_succ hj)
        case _ hless =>
          refine ih hfront hpicks' hnext (fun j hj => ?_) h
          rw [List.length_append, List.length_singleton] at hj
          rcases Nat.le_succ_iff.mp hj with hj | rfl
          · exact hbelow j hj
          · have htake : desc.take (p.length + 1) = p ++ [entry] := by
              rw [← hfront, ← List.length_singleton (a := entry), ← List.length_append,
                List.take_left]
            rw [htake, ← hnext]
            exact Nat.not_le.mp hless

/-- What `KScan::scan` finds when no pair and no single note reaches the goal. -/
theorem KScan.scan_found {sorted : List Entry} {goal : NoteAmount} {result : KScan}
    (hone : ∀ e ∈ sorted, amountOf e < goal.val)
    (hbelow : ∀ j < 3, weight amountOf (sorted.reverse.take j) < goal.val)
    (h : KScan.scan sorted goal = .ok result) : result.Found sorted.reverse goal := by
  have hall : sorted.filter (fun entry => entry.2 < goal) = sorted :=
    List.filter_eq_self.mpr fun e he => decide_eq_true (hone e he)
  rw [KScan.scan, hall] at h
  obtain ⟨scanned, hscanned, h⟩ := exists_of_bind_ok h
  have hfound : ∀ scan, scanned = some scan → scan.Found sorted.reverse goal := by
    split at hscanned
    case _ hlen =>
      refine scanSizes_found _ ?_ ?_ hbelow hscanned
      · omega
      · have hcap := Nat.min_le_right sorted.reverse.length transactionLimit
        have hten : transactionLimit = 10 := rfl
        omega
    · rintro scan rfl
      cases hscanned
  cases scanned with
  | some scan =>
      cases h
      exact hfound _ rfl
  | none =>
      refine greedy_found (p := []) rfl rfl rfl (fun j hj => ?_) h
      exact hbelow j (by simp only [List.length_nil] at hj; omega)

/-! ## The selection -/

/-- A selection from a list: it covers the goal, and from three elements on it is in descending
order and no shorter selection covers the goal. -/
structure Selected {α : Type} (w : α → Nat) (l : List α) (goal excess : Nat) (sel : List α) :
    Prop where
  subset : sel ⊆ l
  nodup : sel.Nodup
  nonempty : sel ≠ []
  covers : weight w sel = goal + excess
  descending : 2 < sel.length → Descending w sel
  shortest : 2 < sel.length →
    ∀ m : List α, m.Nodup → m ⊆ l → m.length < sel.length → weight w m < goal

/-- What a combination leaves over. -/
def excessOf (change : Option NoteAmount) : Nat := (change.getD 0).val

theorem selected_one {entries : List Entry} {goal excess : Nat} {e : Entry} (he : e ∈ entries)
    (hcovers : amountOf e = goal + excess) : Selected amountOf entries goal excess [e] where
  subset := List.cons_subset.mpr ⟨he, List.nil_subset _⟩
  nodup := List.nodup_singleton e
  nonempty := nofun
  covers := by simpa using hcovers
  descending hlen := by simp at hlen
  shortest hlen := by simp at hlen

theorem selected_two {entries : List Entry} {goal excess : Nat} {low high : Entry}
    (hlow : low ∈ entries) (hhigh : high ∈ entries) (hne : low ≠ high)
    (hcovers : amountOf low + amountOf high = goal + excess) :
    Selected amountOf entries goal excess [low, high] where
  subset := List.cons_subset.mpr ⟨hlow, List.cons_subset.mpr ⟨hhigh, List.nil_subset _⟩⟩
  nodup := List.nodup_cons.mpr ⟨by simpa using hne, List.nodup_singleton high⟩
  nonempty := nofun
  covers := by simpa using hcovers
  descending hlen := by simp at hlen
  shortest hlen := by simp at hlen

theorem selected_many {desc : List Entry} {goal excess : Nat} {k : Nat} {indices : List Nat}
    (hdesc : Descending amountOf desc) (hnodup : desc.Nodup) (hne : goal ≠ 0)
    (hpicked : Picked desc goal k indices excess)
    (hbelow : ∀ j < k, weight amountOf (desc.take j) < goal) :
    ∃ sel, Selected amountOf desc goal excess sel ∧ sel.map Prod.fst = indices := by
  obtain ⟨sel, hsub, hmap, rfl, hcovers⟩ := hpicked
  refine ⟨sel, ⟨hsub.subset, hnodup.sublist hsub, ?_, hcovers, fun _ => hdesc.sublist hsub, ?_⟩,
    hmap⟩
  · rintro rfl
    rw [weight_nil] at hcovers
    omega
  · exact fun _ m hm hmem hlen =>
      Nat.lt_of_le_of_lt (weight_le_take hdesc hm hmem) (hbelow m.length hlen)

theorem Selected.perm {α : Type} {w : α → Nat} {l l' : List α} {goal excess : Nat} {sel : List α}
    (h : Selected w l goal excess sel) (hperm : l.Perm l') : Selected w l' goal excess sel where
  subset := List.Subset.trans h.subset hperm.subset
  nodup := h.nodup
  nonempty := h.nonempty
  covers := h.covers
  descending := h.descending
  shortest hlen m hm hmem :=
    h.shortest hlen m hm (List.Subset.trans hmem hperm.symm.subset)

theorem nodup_enumerate (values : List NoteAmount) : ((enumerate values).map Prod.fst).Nodup := by
  have hfst : (enumerate values).map Prod.fst = values.zipIdx.map Prod.snd := by
    rw [enumerate, List.map_map]
    rfl
  rw [hfst, List.zipIdx_map_snd]
  exact List.nodup_range'

/-- Two notes of the list that cover the goal. -/
theorem selected_of_pair {entries sorted : List Entry} (hsub : sorted ⊆ entries)
    {goal excess i j : Nat}
    (h : ∃ low ∈ sorted, ∃ high ∈ sorted, low ≠ high ∧ low.1 = i ∧ high.1 = j ∧
      amountOf low + amountOf high = goal + excess) :
    ∃ sel, Selected amountOf entries goal excess sel ∧ sel.map Prod.fst = [i, j] := by
  obtain ⟨low, hlow, high, hhigh, hne, rfl, rfl, hsum⟩ := h
  exact ⟨[low, high], selected_two (hsub hlow) (hsub hhigh) hne hsum, rfl⟩

/-- One note of the list that covers the goal. -/
theorem selected_of_single {entries sorted : List Entry} (hsub : sorted ⊆ entries)
    {goal excess i : Nat} (h : ∃ e ∈ sorted, e.1 = i ∧ amountOf e = goal + excess) :
    ∃ sel, Selected amountOf entries goal excess sel ∧ sel.map Prod.fst = [i] := by
  obtain ⟨e, he, rfl, hcovers⟩ := h
  exact ⟨[e], selected_one (hsub he) hcovers, rfl⟩

/-- **The combination.** What `find_combination` picks covers the goal, and it picks three notes
and more only in descending order and only when no shorter selection covers the goal. -/
theorem findCombination_picks {sort : UnstableSort} {values : List NoteAmount}
    {goal : NoteAmount} {combo : CombinationResult} {indices : List Nat}
    {change : Option NoteAmount} (h : findCombination sort values goal = .ok combo)
    (hpicks : combo.picks = .ok (indices, change)) :
    ∃ sel, Selected amountOf (enumerate values) goal.val (excessOf change) sel ∧
      sel.map Prod.fst = indices := by
  rw [findCombination] at h
  split at h
  · cases h
    cases hpicks
  case _ hvalues =>
    have hperm := sort.perm (enumerate values)
    have hnodup : (enumerate values).Nodup := (nodup_enumerate values).of_map
    have hsorted : (sort.sort (enumerate values)).Nodup := hperm.nodup_iff.mpr hnodup
    obtain ⟨two, htwo, h⟩ := exists_of_bind_ok h
    have hpair := TwoScan.scan_found hsorted htwo
    have hsingle := OneScan.scan_found goal (sort.sort (enumerate values))
    cases two with
    | exact i j =>
        cases h
        cases hpicks
        exact selected_of_pair hperm.subset hpair
    | overshoot i j excess =>
        cases hone : OneScan.scan goal (sort.sort (enumerate values)) with
        | exact i =>
            rw [hone] at h hsingle
            cases h
            cases hpicks
            exact selected_of_single hperm.subset hsingle
        | _ =>
            rw [hone] at h
            cases h
            cases hpicks
            exact selected_of_pair hperm.subset hpair
    | miss =>
        cases hone : OneScan.scan goal (sort.sort (enumerate values)) with
        | exact i =>
            rw [hone] at h hsingle
            cases h
            cases hpicks
            exact selected_of_single hperm.subset hsingle
        | overshoot i excess =>
            rw [hone] at h hsingle
            cases h
            cases hpicks
            exact selected_of_single hperm.subset hsingle
        | miss =>
            rw [hone] at h hsingle
            obtain ⟨scan, hscan, h⟩ := exists_of_bind_ok h
            have hne : sort.sort (enumerate values) ≠ [] := by
              intro hnil
              rw [hnil] at hperm
              exact hvalues (by simpa [enumerate] using hperm.nil_eq)
            have hbelow := TwoScan.scan_miss htwo hsingle hne
            have hgoal : goal.val ≠ 0 := Nat.ne_of_gt (Nat.lt_of_le_of_lt (Nat.zero_le _)
              (hbelow 0 (by omega)))
            have hdesc : Descending amountOf (sort.sort (enumerate values)).reverse :=
              List.pairwise_reverse.mpr (sort.ascending (enumerate values))
            have hmany : ∀ {k excess indices},
                Picked (sort.sort (enumerate values)).reverse goal.val k indices excess →
                (∀ j < k, weight amountOf ((sort.sort (enumerate values)).reverse.take j) <
                  goal.val) →
                ∃ sel, Selected amountOf (enumerate values) goal.val excess sel ∧
                  sel.map Prod.fst = indices := by
              intro k excess indices hpicked hfront
              obtain ⟨sel, hsel, hmap⟩ := selected_many hdesc
                (List.nodup_reverse.mpr hsorted) hgoal hpicked hfront
              exact ⟨sel, hsel.perm ((List.reverse_perm _).trans hperm), hmap⟩
            have hfound := KScan.scan_found hsingle hbelow hscan
            cases scan with
            | exact found =>
                cases h
                cases hpicks
                obtain ⟨k, hpicked, hfront⟩ := hfound
                exact hmany hpicked hfront
            | overshoot found excess =>
                cases h
                cases hpicks
                obtain ⟨k, hpicked, hfront⟩ := hfound
                exact hmany hpicked hfront
            | miss =>
                cases h
                cases hpicks

end PrivatePayments.TxPlanner
