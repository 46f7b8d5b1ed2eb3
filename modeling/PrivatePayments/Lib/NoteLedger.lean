import Mathlib.Algebra.BigOperators.Group.List.Basic
import Mathlib.Algebra.BigOperators.Group.Finset.Basic
import Mathlib.Algebra.BigOperators.Fin
import Mathlib.Data.List.GetD
import Mathlib.Tactic.Abel

/-!
# PrivatePayments.Lib.NoteLedger

A ledger of notes. Every transaction spends notes that were created before, creates new
ones, and moves a value into the ledger from outside, or out of it. Notes are numbered
in the order of their creation and spent by number. Amounts are in any commutative
group.

If every transaction balances, no note is spent twice, and every spend has the amount of
its note, then what has come in is what the unspent notes are worth.
-/

namespace NoteLedger

/-- One transaction: the value from outside, the spent notes with their amounts, and the
amounts of the created notes. -/
structure Tx (M : Type*) where
  ext : M
  spends : List (ℕ × M)
  outs : List M

section Definitions

variable {M : Type*}

/-- The amounts of all notes, by number. -/
def created (txs : List (Tx M)) : List M := txs.flatMap Tx.outs

/-- All spends. -/
def spent (txs : List (Tx M)) : List (ℕ × M) := txs.flatMap Tx.spends

end Definitions

variable {M : Type*} [AddCommGroup M]

/-- What goes in comes out. -/
def Tx.Balanced (tx : Tx M) : Prop := (tx.spends.map Prod.snd).sum + tx.ext = tx.outs.sum

/-- The value from outside is what was created less what was spent. -/
theorem ext_sum {txs : List (Tx M)} (hbal : ∀ tx ∈ txs, tx.Balanced) :
    (txs.map Tx.ext).sum = (created txs).sum - ((spent txs).map Prod.snd).sum := by
  induction txs with
  | nil => simp [created, spent]
  | cons tx txs ih =>
      have hhead : (tx.spends.map Prod.snd).sum + tx.ext = tx.outs.sum :=
        hbal tx List.mem_cons_self
      have htail := ih fun t ht => hbal t (List.mem_cons_of_mem _ ht)
      rw [List.map_cons, List.sum_cons, htail]
      simp only [created, spent, List.flatMap_cons, List.map_append, List.sum_append]
      rw [← hhead]
      abel

/-- A list as a sum over its positions. -/
theorem sum_range_getD (notes : List M) :
    ∑ i ∈ Finset.range notes.length, notes.getD i 0 = notes.sum := by
  rw [Finset.sum_range, ← Fin.sum_univ_getElem]
  exact Finset.sum_congr rfl fun i _ => List.getD_eq_getElem _ _ i.isLt

/-- The unspent notes are worth what was created less what was spent. -/
theorem unspent_sum {notes : List M} {spends : List (ℕ × M)}
    (hnodup : (spends.map Prod.fst).Nodup) (hval : ∀ q ∈ spends, notes[q.1]? = some q.2) :
    ∑ i ∈ Finset.range notes.length, (if i ∈ spends.map Prod.fst then 0 else notes.getD i 0) =
      notes.sum - (spends.map Prod.snd).sum := by
  have hspent : (spends.map Prod.snd).sum =
      ∑ i ∈ (spends.map Prod.fst).toFinset, notes.getD i 0 := by
    rw [List.sum_toFinset _ hnodup, List.map_map]
    congr 1
    refine List.map_congr_left fun q hq => ?_
    simp [List.getD_eq_getElem?_getD, hval q hq]
  have hsub : (spends.map Prod.fst).toFinset ⊆ Finset.range notes.length := by
    intro i hi
    obtain ⟨q, hq, rfl⟩ := List.mem_map.mp (List.mem_toFinset.mp hi)
    exact Finset.mem_range.mpr (List.getElem?_eq_some_iff.mp (hval q hq)).1
  have hsplit := Finset.sum_sdiff (f := fun i => notes.getD i 0) hsub
  have hunspent : ∑ i ∈ Finset.range notes.length,
      (if i ∈ spends.map Prod.fst then 0 else notes.getD i 0) =
      ∑ i ∈ Finset.range notes.length \ (spends.map Prod.fst).toFinset, notes.getD i 0 := by
    rw [Finset.sum_ite, Finset.sum_const_zero, zero_add]
    refine Finset.sum_congr ?_ fun _ _ => rfl
    ext i
    rw [Finset.mem_filter, Finset.mem_sdiff, List.mem_toFinset]
  rw [hunspent, hspent, ← sum_range_getD, ← hsplit, add_sub_cancel_right]

/-- **Conservation.** `isSpent` marks the spent notes, up to notes that are worth
nothing. -/
theorem conservation {txs : List (Tx M)} (hbal : ∀ tx ∈ txs, tx.Balanced)
    (hnodup : ((spent txs).map Prod.fst).Nodup)
    (hval : ∀ q ∈ spent txs, (created txs)[q.1]? = some q.2)
    (isSpent : ℕ → Prop) [DecidablePred isSpent]
    (hspent : ∀ i, (created txs).getD i 0 ≠ 0 → (isSpent i ↔ i ∈ (spent txs).map Prod.fst)) :
    (txs.map Tx.ext).sum = ∑ i ∈ Finset.range (created txs).length,
      (if isSpent i then 0 else (created txs).getD i 0) := by
  rw [ext_sum hbal, ← unspent_sum hnodup hval]
  refine Finset.sum_congr rfl fun i _ => ?_
  by_cases hzero : (created txs).getD i 0 = 0
  · rw [hzero, ite_self, ite_self]
  · exact if_congr (hspent i hzero).symm rfl rfl

end NoteLedger
