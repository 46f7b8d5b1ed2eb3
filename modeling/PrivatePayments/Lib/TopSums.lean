import Mathlib.Algebra.BigOperators.Group.List.Basic
import Mathlib.Algebra.Order.Monoid.Canonical.Defs
import Mathlib.Data.List.Perm.Subperm

/-!
# PrivatePayments.Lib.TopSums

Weights of selections from a list in descending order of weight.

* `weight_le_take`: no selection weighs more than the front of the list of the same length;
* `weight_take_ne`: in a shortest selection that reaches a goal, no other element of the list
  weighs as much as two or more of the front elements together, because it could take their
  place.
-/

namespace TopSums

variable {α M : Type*} {w : α → M} {a x : α} {l m sel : List α} {n : ℕ}

section Sum

variable [AddCommMonoid M]

/-- The weight of a list. -/
def weight (w : α → M) (l : List α) : M := (l.map w).sum

@[simp] theorem weight_nil : weight w [] = 0 := rfl

@[simp] theorem weight_cons : weight w (a :: l) = w a + weight w l := by
  simp [weight]

@[simp] theorem weight_append : weight w (l ++ m) = weight w l + weight w m := by
  simp [weight]

theorem weight_perm (h : l.Perm m) : weight w l = weight w m := (h.map w).sum_eq

theorem weight_take_add_drop (n : ℕ) (l : List α) :
    weight w (l.take n) + weight w (l.drop n) = weight w l := by
  rw [← weight_append, List.take_append_drop]

end Sum

/-! ## Descending order -/

/-- The list is in descending order of weight. -/
def Descending [LE M] (w : α → M) (l : List α) : Prop := l.Pairwise fun a b => w b ≤ w a

theorem Descending.tail [LE M] (h : Descending w (a :: l)) : Descending w l :=
  (List.pairwise_cons.mp h).2

theorem Descending.sublist [LE M] (h : Descending w l) (hsub : m.Sublist l) : Descending w m :=
  List.Pairwise.sublist hsub h

section Ordered

variable [AddCommMonoid M] [PartialOrder M] [IsOrderedAddMonoid M]

/-- One step to the front makes no front heavier. -/
theorem weight_take_le_cons (h : Descending w (a :: l)) (hn : n ≤ l.length) :
    weight w (l.take n) ≤ weight w ((a :: l).take n) := by
  induction n generalizing a l with
  | zero => simp
  | succ n ih =>
      cases l with
      | nil => cases hn
      | cons b l =>
          obtain ⟨ha, hl⟩ := List.pairwise_cons.mp h
          rw [List.take_succ_cons, List.take_succ_cons, weight_cons, weight_cons]
          exact add_le_add (ha b List.mem_cons_self) (ih hl (Nat.le_of_succ_le_succ hn))

/-- No sublist weighs more than the front of the same length. -/
theorem weight_sublist_le_take (h : Descending w l) (hsub : m.Sublist l) :
    weight w m ≤ weight w (l.take m.length) := by
  induction hsub with
  | slnil => simp
  | cons a hsub ih => exact (ih h.tail).trans (weight_take_le_cons h hsub.length_le)
  | cons_cons a hsub ih =>
      rw [List.length_cons, List.take_succ_cons, weight_cons, weight_cons]
      exact add_le_add le_rfl (ih h.tail)

/-- No selection weighs more than the front of the same length. -/
theorem weight_le_take (h : Descending w l) (hm : m.Nodup) (hsub : m ⊆ l) :
    weight w m ≤ weight w (l.take m.length) := by
  obtain ⟨m', hperm, hsublist⟩ := List.subperm_of_subset hm hsub
  rw [← weight_perm hperm, ← hperm.length_eq]
  exact weight_sublist_le_take h hsublist

end Ordered

section Canonical

variable [AddCommMonoid M] [PartialOrder M] [CanonicallyOrderedAdd M] {goal : M}

theorem weight_take_mono {i j : ℕ} (hij : i ≤ j) : weight w (l.take i) ≤ weight w (l.take j) := by
  have htake : l.take i = (l.take j).take i := by rw [List.take_take, Nat.min_eq_left hij]
  rw [htake, ← weight_take_add_drop i (l.take j)]
  exact le_self_add

theorem weight_sublist_le (hsub : m.Sublist l) : weight w m ≤ weight w l := by
  induction hsub with
  | slnil => exact le_rfl
  | cons a _ ih =>
      rw [weight_cons]
      exact ih.trans le_add_self
  | cons_cons a _ ih =>
      rw [weight_cons, weight_cons]
      exact add_le_add_right ih (w a)

/-- A selection weighs no more than the list. -/
theorem weight_le_of_subset (hm : m.Nodup) (hsub : m ⊆ l) : weight w m ≤ weight w l := by
  obtain ⟨m', hperm, hsublist⟩ := List.subperm_of_subset hm hsub
  rw [← weight_perm hperm]
  exact weight_sublist_le hsublist

/-- **Sums of front elements are new.** If no shorter selection from `l` reaches the goal that
`sel` reaches, then no element of `l` outside the first two or more elements of `sel` weighs
as much as these together. -/
theorem weight_take_ne (hsel : Descending w sel) (hnodup : sel.Nodup) (hsub : sel ⊆ l)
    (hgoal : goal ≤ weight w sel)
    (hmin : ∀ m : List α, m.Nodup → m ⊆ l → m.length < sel.length → ¬ goal ≤ weight w m)
    {i : ℕ} (hi : 2 ≤ i) (hlen : i < sel.length) (hx : x ∈ l) (hfresh : x ∉ sel.take i) :
    w x ≠ weight w (sel.take i) := by
  intro heq
  have hshort : (sel.drop i).length + 1 < sel.length := by
    rw [List.length_drop]
    omega
  have hdrop : (sel.drop i).Nodup := hnodup.sublist (List.drop_sublist i sel)
  have hdropSub : sel.drop i ⊆ l := List.Subset.trans (List.drop_subset i sel) hsub
  -- whatever weighs as much as the first `i` elements and is not behind them can replace them
  have hreplace : ∀ y ∈ l, y ∉ sel.drop i → w y ≠ weight w (sel.take i) := by
    intro y hy hbehind hweight
    refine hmin (y :: sel.drop i) (List.nodup_cons.mpr ⟨hbehind, hdrop⟩)
      (List.cons_subset.mpr ⟨hy, hdropSub⟩) hshort ?_
    rw [weight_cons, hweight, weight_take_add_drop]
    exact hgoal
  by_cases hbehind : x ∈ sel.drop i
  · -- then the first element weighs as much as `x`, and it replaces itself and the others
    cases sel with
    | nil => cases hlen
    | cons a rest =>
        obtain ⟨i, rfl⟩ : ∃ j, i = j + 1 := ⟨i - 1, by omega⟩
        rw [List.drop_succ_cons] at hbehind hreplace
        obtain ⟨hfirst, -⟩ := List.pairwise_cons.mp hsel
        obtain ⟨hnotin, -⟩ := List.nodup_cons.mp hnodup
        have hle : w x ≤ w a := hfirst x (List.drop_subset i rest hbehind)
        have hge : w a ≤ w x := by
          rw [heq, List.take_succ_cons, weight_cons]
          exact le_self_add
        have hsame : w a = weight w ((a :: rest).take (i + 1)) := (le_antisymm hge hle).trans heq
        exact hreplace a (hsub List.mem_cons_self)
          (fun ha => hnotin (List.drop_subset i rest ha)) hsame
  · exact hreplace x hx hbehind heq

end Canonical

end TopSums
