import Mathlib.Algebra.BigOperators.Group.List.Basic
import Mathlib.Algebra.GroupWithZero.Nat
import Mathlib.Algebra.Order.Group.Nat

/-!
# PrivatePayments.Lib.Worklist

Loops that pop an item of a stack, work on it and push what is left to do.

A recursion is often written as such a loop, and `run_eq_foldlM` leads back to it: where one step
on an item does what `mean` says of the item, given that `mean` is what becomes of the items it
pushes, the loop does what `mean` says of each item of the stack in turn. The items of a run may
be restricted to those of an invariant.
-/

/-- A loop over a stack: what is done with an item, which gives the items to push, in order. Each
item weighs more than the items pushed for it. -/
structure Worklist (α σ ε : Type*) where
  step : α → σ → Except ε (List α × σ)
  weight : α → Nat
  decreases : ∀ {a s r}, step a s = .ok r → (r.1.map weight).sum < weight a

namespace Worklist

variable {α σ ε : Type*} {W : Worklist α σ ε}

/-- Pops items until the stack is empty; its top is the head of the list. -/
def run (W : Worklist α σ ε) : List α → σ → Except ε σ
  | [], s => .ok s
  | a :: stack, s =>
      match _h : W.step a s with
      | .error e => .error e
      | .ok r => run W (r.1.reverse ++ stack) r.2
termination_by stack => (stack.map W.weight).sum
decreasing_by
  have hlt := W.decreases _h
  simp only [List.unattach_reverse, List.unattach_attach, List.map_append, List.map_reverse,
    List.sum_append, List.sum_reverse, List.map_cons, List.sum_cons]
  omega

@[simp] theorem run_nil {s : σ} : W.run [] s = .ok s := by
  rw [run]

theorem run_error {a : α} {stack : List α} {s : σ} {e : ε} (h : W.step a s = .error e) :
    W.run (a :: stack) s = .error e := by
  rw [run]
  split
  case _ e' h' => rw [← Except.error.inj (h.symm.trans h')]
  case _ r h' => simp [h] at h'

theorem run_ok {a : α} {stack : List α} {s : σ} {r : List α × σ} (h : W.step a s = .ok r) :
    W.run (a :: stack) s = W.run (r.1.reverse ++ stack) r.2 := by
  rw [run]
  split
  case _ e h' => simp [h] at h'
  case _ r' h' =>
    obtain rfl : r = r' := Except.ok.inj (h.symm.trans h')
    rfl

/-- **The recursion behind the loop.** -/
theorem run_eq_foldlM {Good : α → Prop} {mean : σ → α → Except ε σ}
    (hgood : ∀ {a s r}, Good a → W.step a s = .ok r → ∀ c ∈ r.1, Good c)
    (herror : ∀ {a s e}, Good a → W.step a s = .error e → mean s a = .error e)
    (hok : ∀ {a s r}, Good a → W.step a s = .ok r → mean s a = r.1.reverse.foldlM mean r.2)
    (stack : List α) (s : σ) (hstack : ∀ a ∈ stack, Good a) :
    W.run stack s = stack.foldlM mean s := by
  induction stack, s using run.induct W with
  | case1 s => rw [run_nil]; rfl
  | case2 a stack s e h =>
      have ha : Good a := hstack a List.mem_cons_self
      rw [run_error h, List.foldlM_cons, herror ha h]
      rfl
  | case3 a stack s r h ih =>
      have ha : Good a := hstack a List.mem_cons_self
      have hrest : ∀ c ∈ r.1.reverse ++ stack, Good c := by
        intro c hc
        rcases List.mem_append.mp hc with hc | hc
        · exact hgood ha h c (List.mem_reverse.mp hc)
        · exact hstack c (List.mem_cons_of_mem a hc)
      simp only [List.unattach_reverse, List.unattach_attach] at ih
      rw [run_ok h, ih hrest, List.foldlM_append, List.foldlM_cons, hok ha h]

/-- The same for items on which no step fails. -/
theorem run_eq_ok {Good : α → Prop} {effect : σ → α → σ}
    (hstep : ∀ a s, Good a → ∃ r, W.step a s = .ok r ∧ (∀ c ∈ r.1, Good c) ∧
      r.1.reverse.foldl effect r.2 = effect s a)
    (stack : List α) (s : σ) (hstack : ∀ a ∈ stack, Good a) :
    W.run stack s = .ok (stack.foldl effect s) := by
  have hfold (l : List α) (s : σ) :
      l.foldlM (fun s a => (.ok (effect s a) : Except ε σ)) s = .ok (l.foldl effect s) :=
    List.foldlM_pure
  rw [← hfold]
  refine @run_eq_foldlM α σ ε W Good _ ?_ ?_ ?_ stack s hstack
  · intro a s r ha h
    obtain ⟨r', hr', hgood, -⟩ := hstep a s ha
    obtain rfl : r' = r := Except.ok.inj (hr'.symm.trans h)
    exact hgood
  · intro a s e ha h
    obtain ⟨r, hr, -⟩ := hstep a s ha
    exact absurd (h.symm.trans hr) (by simp)
  · intro a s r ha h
    obtain ⟨r', hr', -, heffect⟩ := hstep a s ha
    obtain rfl : r' = r := Except.ok.inj (hr'.symm.trans h)
    rw [hfold, heffect]

end Worklist
