import PrivatePayments.Contracts.AspMembershipSound

/-!
# PrivatePayments.Contracts.MembershipHistory

The life of a membership contract over the ledgers. A history is the calls of `insert_leaf`,
each with the ledger it ran in; from it follow the leaves and the root at a ledger
(`getRoot_at`) and the events with their ledgers (`events_at`).
-/

namespace PrivatePayments.AspMembership

open MerkleWithHistory (treeRoot)

/-- A tree of `levels` levels and the calls that insert into it, oldest first. -/
structure MembershipHistory where
  levels : Nat
  levels_pos : 1 ≤ levels
  levels_le : levels ≤ 32
  calls : List (UInt32 × U256)
  ordered : calls.Pairwise fun a b => a.1 ≤ b.1

namespace MembershipHistory

/-- The calls up to a ledger. -/
def callsAt (h : MembershipHistory) (ledger : UInt32) : List U256 :=
  (h.calls.filter fun call => call.1 ≤ ledger).map Prod.snd

/-- The leaves that the calls insert, each with its ledger. -/
def insertions (h : MembershipHistory) : List (UInt32 × Fr) :=
  ((h.calls.filter fun call => call.2.val < bn256Modulus).map fun call =>
    (call.1, call.2.toFr)).take (2 ^ h.levels)

/-- All leaves. -/
def leaves (h : MembershipHistory) : List Fr := h.insertions.map Prod.snd

/-- The number of leaves at the end of a ledger. -/
def countAt (h : MembershipHistory) (ledger : UInt32) : Nat :=
  (h.insertions.filter fun i => i.1 ≤ ledger).length

/-- The root over the first leaves. -/
def rootOf (h : MembershipHistory) (count : Nat) : Fr := treeRoot h.levels (h.leaves.take count)

/-- The events, each with its ledger. -/
def published (h : MembershipHistory) : List (UInt32 × LeafAddedEvent) :=
  (h.insertions.map Prod.fst).zip (leafEvents h.levels h.leaves)

end MembershipHistory

/-! ### Lists with what is selected in front -/

section Front

variable {α : Type} {p : α → Bool} {l : List α}

theorem filter_eq_nil_of_front {a : α} (h : ∀ b ∈ l, p b → p a) (ha : ¬ p a) :
    l.filter p = [] :=
  List.filter_eq_nil_iff.mpr fun b hb hpb => ha (h b hb hpb)

/-- A selection of the first elements is the first part of the selection. -/
theorem filter_take_of_front (h : l.Pairwise fun a b => p b → p a) (n : Nat) :
    (l.take n).filter p = (l.filter p).take n := by
  induction l generalizing n with
  | nil => simp
  | cons a l ih =>
      obtain ⟨ha, hl⟩ := List.pairwise_cons.mp h
      cases n with
      | zero => simp
      | succ n =>
          by_cases hpa : p a
          · simp [hpa, ih hl]
          · have hrest := filter_eq_nil_of_front ha hpa
            have htake := filter_eq_nil_of_front
              (fun b hb => ha b (List.mem_of_mem_take (i := n) hb)) hpa
            simp [hpa, hrest, htake]

theorem filter_eq_take_of_front (h : l.Pairwise fun a b => p b → p a) :
    l.filter p = l.take (l.filter p).length := by
  induction l with
  | nil => rfl
  | cons a l ih =>
      obtain ⟨ha, hl⟩ := List.pairwise_cons.mp h
      by_cases hpa : p a
      · rw [List.filter_cons_of_pos hpa, List.length_cons, List.take_succ_cons, ← ih hl]
      · rw [List.filter_cons_of_neg hpa, filter_eq_nil_of_front ha hpa]
        rfl

end Front

namespace MembershipHistory

variable (h : MembershipHistory)

theorem insertions_ordered : h.insertions.Pairwise fun a b => a.1 ≤ b.1 := by
  refine List.Pairwise.sublist (List.take_sublist _ _) ?_
  rw [List.pairwise_map]
  exact h.ordered.sublist List.filter_sublist

/-- In a list in the order of the ledgers, those up to one of them come first. -/
theorem front_of_ordered {l : List (UInt32 × Fr)} (hl : l.Pairwise fun a b => a.1 ≤ b.1)
    (ledger : UInt32) :
    l.Pairwise fun a b => decide (b.1 ≤ ledger) = true → decide (a.1 ≤ ledger) = true :=
  hl.imp fun hle hb => decide_eq_true (UInt32.le_trans hle (of_decide_eq_true hb))

/-- The insertions up to a ledger are the first ones. -/
theorem insertions_at (ledger : UInt32) :
    h.insertions.filter (fun i => i.1 ≤ ledger) = h.insertions.take (h.countAt ledger) :=
  filter_eq_take_of_front (front_of_ordered h.insertions_ordered ledger)

theorem countAt_le (ledger : UInt32) : h.countAt ledger ≤ h.insertions.length :=
  List.length_filter_le _ _

theorem countAt_mono {ledger later : UInt32} (hle : ledger ≤ later) :
    h.countAt ledger ≤ h.countAt later := by
  refine (List.monotone_filter_right _ fun i hi => ?_).length_le
  simp only [decide_eq_true_eq] at hi ⊢
  exact UInt32.le_trans hi hle

/-- If the last of the first insertions is within a ledger, all of them are. -/
theorem le_countAt {count : Nat} {ledger : UInt32} {last : UInt32 × Fr}
    (hcount : count ≤ h.insertions.length) (hlast : (h.insertions.take count).getLast? = some last)
    (hle : last.1 ≤ ledger) : count ≤ h.countAt ledger := by
  obtain ⟨front, hfront⟩ := List.getLast?_eq_some_iff.mp hlast
  have hordered : (front ++ [last]).Pairwise fun a b => a.1 ≤ b.1 :=
    hfront ▸ h.insertions_ordered.sublist (List.take_sublist _ _)
  have hwithin : (h.insertions.take count).filter (fun i => i.1 ≤ ledger) =
      h.insertions.take count := by
    refine List.filter_eq_self.mpr fun i hi => decide_eq_true ?_
    rw [hfront, List.mem_append, List.mem_singleton] at hi
    rcases hi with hi | rfl
    · exact UInt32.le_trans ((List.pairwise_append.mp hordered).2.2 i hi last (by simp)) hle
    · exact hle
  have hlength := congrArg List.length hwithin
  rw [filter_take_of_front (front_of_ordered h.insertions_ordered ledger), List.length_take,
    List.length_take, Nat.min_eq_left hcount] at hlength
  exact min_eq_left_iff.mp hlength

/-- The calls up to a ledger insert the first leaves. -/
theorem insertedLeaves_at (ledger : UInt32) :
    insertedLeaves h.levels (h.callsAt ledger) = h.leaves.take (h.countAt ledger) := by
  have hsorted : ((h.calls.filter fun call => call.2.val < bn256Modulus).map fun call =>
      (call.1, call.2.toFr)).Pairwise fun a b => a.1 ≤ b.1 := by
    rw [List.pairwise_map]
    exact h.ordered.sublist List.filter_sublist
  have hfilter := filter_take_of_front (front_of_ordered hsorted ledger) (2 ^ h.levels)
  rw [leaves, ← List.map_take, ← insertions_at, insertions, hfilter, insertedLeaves, callsAt,
    List.map_take, List.filter_map, List.filter_map, List.map_map, List.map_map,
    List.filter_filter, List.filter_filter]
  congr 2
  refine List.filter_congr fun call _ => ?_
  exact Bool.and_comm _ _

/-- Every contract that the calls up to a ledger lead to has the root over these leaves. -/
theorem getRoot_at {admin : Address} {ledger : UInt32} {s : MembershipStorage}
    (hreach : Reaches admin h.levels (h.callsAt ledger) s) :
    getRoot.run s = .ok (h.rootOf (h.countAt ledger)).toU256 s := by
  have hrep := hreach.represents h.levels_pos h.levels_le
  unfold getRoot
  simp only [EStateM.run_bind, EStateM.run_get, hrep.root_eq, Contract.okOr_some,
    insertedLeaves_at]
  rfl

/-- Such a contract has published the first events. -/
theorem events_at {admin : Address} {ledger : UInt32} {s : MembershipStorage}
    (hreach : Reaches admin h.levels (h.callsAt ledger) s) :
    s.events = (h.published.take (h.countAt ledger)).map Prod.snd := by
  have hrep := hreach.represents h.levels_pos h.levels_le
  have hzip : h.published.map Prod.snd = leafEvents h.levels h.leaves :=
    List.map_snd_zip (by simp [leafEvents, leaves])
  rw [hrep.events_eq, insertedLeaves_at, List.map_take, hzip]
  refine List.ext_getElem? fun i => ?_
  simp only [leafEvents, List.getElem?_take, List.getElem?_mapIdx]
  by_cases hi : i < h.countAt ledger
  · rw [if_pos hi, if_pos hi, List.take_take, Nat.min_eq_left (by omega)]
  · simp [hi]

/-- An event: its ledger, and the leaf, the index and the root that it announces. -/
theorem published_getElem? (i : Nat) : h.published[i]? = h.insertions[i]?.map fun inserted =>
    (inserted.1, ⟨inserted.2.toU256, i, (h.rootOf (i + 1)).toU256⟩) := by
  cases hi : h.insertions[i]? with
  | none => simp [published, List.zip, List.getElem?_zipWith, leaves, leafEvents, hi]
  | some inserted =>
      simp [published, List.zip, List.getElem?_zipWith, leaves, leafEvents, hi, rootOf]

end MembershipHistory

end PrivatePayments.AspMembership
