import Mathlib.Logic.Basic

/-!
# PrivatePayments.Lib.Outcome

Postconditions of stateful computations that may fail.

`Outcome x s Q E` says what running `x` from `s` ends in: `Q` of the value and the state when
it succeeds, `E` of the error and the state it leaves when it fails. One proof by these rules
gives both what a successful run has done and why a failing run failed.
-/

/-- What `x` ends in from `s`. -/
def Outcome {ε σ α : Type} (x : EStateM ε σ α) (s : σ) (Q : α → σ → Prop) (E : ε → σ → Prop) :
    Prop :=
  match x.run s with
  | .ok a s' => Q a s'
  | .error e s' => E e s'

namespace Outcome

variable {ε σ α β : Type} {x : EStateM ε σ α} {f : α → EStateM ε σ β} {s : σ}
  {Q Q' : α → σ → Prop} {R : β → σ → Prop} {E E' : ε → σ → Prop}

theorem of_ok {a : α} {s' : σ} (h : x.run s = .ok a s') : Outcome x s Q E ↔ Q a s' := by
  unfold Outcome
  rw [h]

theorem of_error {e : ε} {s' : σ} (h : x.run s = .error e s') : Outcome x s Q E ↔ E e s' := by
  unfold Outcome
  rw [h]

/-- A successful run has its postcondition. -/
theorem ok (h : Outcome x s Q E) {a : α} {s' : σ} (hrun : x.run s = .ok a s') : Q a s' :=
  (of_ok hrun).mp h

/-- A run that cannot fail succeeds. -/
theorem exists_ok (h : Outcome x s Q E) (hE : ∀ e s', ¬ E e s') :
    ∃ a s', x.run s = .ok a s' ∧ Q a s' := by
  cases hrun : x.run s with
  | ok a s' => exact ⟨a, s', rfl, h.ok hrun⟩
  | error e s' => exact absurd ((of_error hrun).mp h) (hE e s')

theorem imp (h : Outcome x s Q E) (hQ : ∀ a s', Q a s' → Q' a s')
    (hE : ∀ e s', E e s' → E' e s') : Outcome x s Q' E' := by
  unfold Outcome at h ⊢
  cases hrun : x.run s with
  | ok a s' =>
      rw [hrun] at h
      exact hQ a s' h
  | error e s' =>
      rw [hrun] at h
      exact hE e s' h

/-- Two postconditions of one run. -/
theorem both (h : Outcome x s Q E) (h' : Outcome x s Q' E') :
    Outcome x s (fun a s' => Q a s' ∧ Q' a s') fun e s' => E e s' ∧ E' e s' := by
  cases hrun : x.run s with
  | ok a s' => exact (of_ok hrun).mpr ⟨h.ok hrun, h'.ok hrun⟩
  | error e s' => exact (of_error hrun).mpr ⟨(of_error hrun).mp h, (of_error hrun).mp h'⟩

/-- The run itself belongs to what it ends in. -/
theorem and_run (h : Outcome x s Q E) :
    Outcome x s (fun a s' => x.run s = .ok a s' ∧ Q a s')
      fun e s' => x.run s = .error e s' ∧ E e s' := by
  cases hrun : x.run s with
  | ok a s' => exact (of_ok hrun).mpr ⟨rfl, h.ok hrun⟩
  | error e s' => exact (of_error hrun).mpr ⟨rfl, (of_error hrun).mp h⟩

/-- The state that a run leaves, also when it fails. -/
def final (x : EStateM ε σ α) (s : σ) : σ :=
  match x.run s with
  | .ok _ s' => s'
  | .error _ s' => s'

theorem of_final {P : σ → Prop} (h : Outcome x s (fun _ s' => P s') fun _ s' => P s') :
    P (final x s) := by
  unfold Outcome at h
  unfold final
  cases hrun : x.run s with
  | ok a s' =>
      rw [hrun] at h
      exact h
  | error e s' =>
      rw [hrun] at h
      exact h

theorem pure {a : α} (h : Q a s) : Outcome (Pure.pure a) s Q E := h

theorem throw {e : ε} (h : E e s) : Outcome (MonadExcept.throw e : EStateM ε σ α) s Q E := h

theorem modify {g : σ → σ} {Q : PUnit → σ → Prop} (h : Q ⟨⟩ (g s)) :
    Outcome (modify g : EStateM ε σ PUnit) s Q E := h

theorem set {t : σ} {Q : PUnit → σ → Prop} (h : Q ⟨⟩ t) :
    Outcome (MonadStateOf.set t : EStateM ε σ PUnit) s Q E := h

/-- The rule of a branch. -/
theorem ite {c : Prop} [Decidable c] {y : EStateM ε σ α} (hpos : c → Outcome x s Q E)
    (hneg : ¬ c → Outcome y s Q E) : Outcome (if c then x else y) s Q E := by
  by_cases h : c
  · rw [if_pos h]
    exact hpos h
  · rw [if_neg h]
    exact hneg h

/-- The rule of composition. -/
theorem bind (hx : Outcome x s Q E) (hf : ∀ a s', Q a s' → Outcome (f a) s' R E) :
    Outcome (x >>= f) s R E := by
  unfold Outcome at hx
  cases hrun : x.run s with
  | ok a s' =>
      rw [hrun] at hx
      have hcont := hf a s' hx
      unfold Outcome at hcont ⊢
      rw [EStateM.run_bind, hrun]
      exact hcont
  | error e s' =>
      rw [hrun] at hx
      unfold Outcome
      rw [EStateM.run_bind, hrun]
      exact hx

/-- The rule of composition after a known run. -/
theorem bind_run {a : α} {s' : σ} (hrun : x.run s = .ok a s') (hf : Outcome (f a) s' R E) :
    Outcome (x >>= f) s R E := by
  unfold Outcome at hf ⊢
  rw [EStateM.run_bind, hrun]
  exact hf

/-- Reading the state. -/
theorem get_bind {g : σ → EStateM ε σ β} (h : Outcome (g s) s R E) :
    Outcome (get >>= g) s R E := h

/-- The rule of a loop over a list: the invariant speaks of what is left. -/
theorem forM {body : β → EStateM ε σ PUnit} {I : List β → σ → Prop}
    (hstep : ∀ b rest s, I (b :: rest) s → Outcome (body b) s (fun _ s' => I rest s') E)
    (l : List β) (s : σ) (h : I l s) :
    Outcome (ForM.forM l body) s (fun _ s' => I [] s') E := by
  induction l generalizing s with
  | nil => exact h
  | cons b l ih =>
      rw [List.forM_cons]
      exact bind (hstep b l s h) fun _ s' hs' => ih s' hs'

/-- The rule of a loop whose body keeps `J` and shows `R` of each element. -/
theorem forM_mem {body : β → EStateM ε σ PUnit} {J : σ → Prop} {R : β → Prop} {l : List β}
    (hstep : ∀ b ∈ l, ∀ s, J s → Outcome (body b) s (fun _ s' => J s' ∧ R b) E) (s : σ) (h : J s) :
    Outcome (ForM.forM l body) s (fun _ s' => J s' ∧ ∀ b ∈ l, R b) E := by
  induction l generalizing s with
  | nil => exact ⟨h, by simp⟩
  | cons b l ih =>
      rw [List.forM_cons]
      refine bind (hstep b List.mem_cons_self s h) fun _ s₁ hs₁ => ?_
      have hrest := ih (fun b' hb' => hstep b' (List.mem_cons_of_mem b hb')) s₁ hs₁.1
      refine hrest.imp (fun _ s₂ hs₂ => ⟨hs₂.1, ?_⟩) fun _ _ he => he
      intro b' hb'
      rcases List.mem_cons.mp hb' with rfl | hb'
      · exact hs₁.2
      · exact hs₂.2 b' hb'

end Outcome
