import Mathlib.Order.WithBot

/-!
# PrivatePayments.Lib.TwoPointers

Two pointers that close in on a table of pairs that grows along its rows and its columns, in
search of the least pair that reaches a goal.

A corner of the window settles a whole line of pairs. Below the goal, it settles the pairs to its
left in its row (`Settled.advance`); from the goal on, the pairs above it in its column
(`Settled.retreat`). When the pointers meet, every pair is settled (`Settled.least`).
-/

namespace TwoPointers

variable {β : Type*} [Preorder β] {g : ℕ → ℕ → β} {n l r : ℕ} {goal : β} {best best' : WithTop β}

/-- The table grows along its rows and its columns. -/
structure Grows (g : ℕ → ℕ → β) (n : ℕ) : Prop where
  row : ∀ a {b b'}, b ≤ b' → b' < n → g a b ≤ g a b'
  column : ∀ {a a'} b, a ≤ a' → a' < n → g a b ≤ g a' b

/-- Of the pairs that have left the window from `l` to `r`, none that reaches the goal is below
`best`. -/
def Settled (g : ℕ → ℕ → β) (n : ℕ) (goal : β) (best : WithTop β) (l r : ℕ) : Prop :=
  ∀ a b, a < b → b < n → a < l ∨ r < b → goal ≤ g a b → best ≤ g a b

/-- No pair has left the whole table. -/
theorem Settled.start : Settled g n goal best 0 (n - 1) := by
  intro a b hab hb hout hgoal
  omega

/-- A lower `best` settles as much. -/
theorem Settled.mono (h : Settled g n goal best l r) (hle : best' ≤ best) :
    Settled g n goal best' l r := by
  intro a b hab hb hout hgoal
  exact hle.trans (h a b hab hb hout hgoal)

/-- A corner below the goal is the largest of its row. -/
theorem Settled.advance (h : Settled g n goal best l r) (hgrows : Grows g n) (hr : r < n)
    (hlow : g l r < goal) : Settled g n goal best (l + 1) r := by
  intro a b hab hb hout hgoal
  by_cases hsettled : a < l ∨ r < b
  · exact h a b hab hb hsettled hgoal
  · obtain rfl : a = l := by omega
    have hle : g a b ≤ g a r := hgrows.row a (by omega) hr
    exact absurd (hgoal.trans hle) hlow.not_ge

/-- A corner from `best` on is the least of its column. -/
theorem Settled.retreat (h : Settled g n goal best l (r + 1)) (hgrows : Grows g n)
    (hr : r + 1 < n) (hbest : best ≤ g l (r + 1)) : Settled g n goal best l r := by
  intro a b hab hb hout hgoal
  by_cases hsettled : a < l ∨ r + 1 < b
  · exact h a b hab hb hsettled hgoal
  · obtain rfl : b = r + 1 := by omega
    have hle : g l (r + 1) ≤ g a (r + 1) := hgrows.column (r + 1) (by omega) (by omega)
    exact hbest.trans (WithTop.coe_le_coe.mpr hle)

/-- Once the pointers meet, `best` bounds every pair that reaches the goal. -/
theorem Settled.least (h : Settled g n goal best l r) (hmeet : r ≤ l) {a b : ℕ} (hab : a < b)
    (hb : b < n) (hgoal : goal ≤ g a b) : best ≤ g a b :=
  h a b hab hb (by omega) hgoal

end TwoPointers
