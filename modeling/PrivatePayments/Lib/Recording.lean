import PrivatePayments.Lib.Outcome

/-!
# PrivatePayments.Lib.Recording

Stateful computations that keep a record.

A `Recording` computation runs on a state beside a list of entries, so that a statement can
speak of what the computation did on the way and not only of the state it leaves. The record
is an addition: `Forgets x y` says that dropping it turns `x` into `y`, and the rules below
show it along the structure of the two.
-/

/-- A computation on a state beside a record. -/
abbrev Recording (ε σ τ : Type) := EStateM ε (σ × List τ)

namespace Recording

variable {ε σ τ α β : Type}

/-- A result beside a record. -/
def withRecord : EStateM.Result ε σ α → List τ → EStateM.Result ε (σ × List τ) α
  | .ok a s, entries => .ok a (s, entries)
  | .error e s, entries => .error e (s, entries)

/-- A computation that records nothing. -/
def onState (x : EStateM ε σ α) : Recording ε σ τ α := fun t => withRecord (x.run t.1) t.2

/-- What was recorded so far. -/
def entries : Recording ε σ τ (List τ) := fun t => .ok t.2 t

/-- One more entry. -/
def record (entry : τ) : Recording ε σ τ PUnit := modify fun t => (t.1, t.2 ++ [entry])

/-- Without its record `x` is `y`. -/
def Forgets (x : Recording ε σ τ α) (y : EStateM ε σ α) : Prop :=
  ∀ s entries, ∃ entries', x.run (s, entries) = withRecord (y.run s) entries'

variable {x : Recording ε σ τ α} {y : EStateM ε σ α} {f : α → Recording ε σ τ β}
  {g : α → EStateM ε σ β}

@[simp] theorem withRecord_ok (a : α) (s : σ) (entries : List τ) :
    withRecord (.ok a s : EStateM.Result ε σ α) entries = .ok a (s, entries) := rfl

@[simp] theorem withRecord_error (e : ε) (s : σ) (entries : List τ) :
    withRecord (.error e s : EStateM.Result ε σ α) entries = .error e (s, entries) := rfl

@[simp] theorem run_onState (y : EStateM ε σ α) (t : σ × List τ) :
    (onState y : Recording ε σ τ α).run t = withRecord (y.run t.1) t.2 := rfl

@[simp] theorem run_entries (t : σ × List τ) :
    (entries : Recording ε σ τ (List τ)).run t = .ok t.2 t := rfl

@[simp] theorem run_record (entry : τ) (t : σ × List τ) :
    (record entry : Recording ε σ τ PUnit).run t = .ok ⟨⟩ (t.1, t.2 ++ [entry]) := rfl

/-! ## Dropping the record -/

theorem Forgets.onState (y : EStateM ε σ α) : Forgets (Recording.onState y : Recording ε σ τ α) y :=
  fun _ entries => ⟨entries, rfl⟩

theorem Forgets.pure (a : α) : Forgets (Pure.pure a : Recording ε σ τ α) (Pure.pure a) :=
  fun _ entries => ⟨entries, rfl⟩

theorem Forgets.throw (e : ε) :
    Forgets (MonadExcept.throw e : Recording ε σ τ α) (MonadExcept.throw e) :=
  fun _ entries => ⟨entries, rfl⟩

theorem Forgets.bind (hx : Forgets x y) (hf : ∀ a, Forgets (f a) (g a)) :
    Forgets (x >>= f) (y >>= g) := by
  intro s entries
  obtain ⟨entries', hrun⟩ := hx s entries
  rw [EStateM.run_bind, EStateM.run_bind, hrun]
  cases hy : y.run s with
  | ok a s' => exact hf a s' entries'
  | error e s' => exact ⟨entries', rfl⟩

/-- Reading the record or adding to it leaves no trace. -/
theorem Forgets.entries_bind {f : List τ → Recording ε σ τ α} (hf : ∀ l, Forgets (f l) y) :
    Forgets (entries >>= f) y := fun s l => hf l s l

theorem Forgets.record_bind (entry : τ) {f : PUnit → Recording ε σ τ α} (hf : Forgets (f ⟨⟩) y) :
    Forgets (record entry >>= f) y := fun s l => hf s (l ++ [entry])

theorem Forgets.ite {c : Prop} [Decidable c] {x' : Recording ε σ τ α} {y' : EStateM ε σ α}
    (hpos : c → Forgets x y) (hneg : ¬ c → Forgets x' y') :
    Forgets (if c then x else x') (if c then y else y') := by
  by_cases h : c
  · rw [if_pos h, if_pos h]
    exact hpos h
  · rw [if_neg h, if_neg h]
    exact hneg h

theorem Forgets.forM {body : α → Recording ε σ τ PUnit} {body' : α → EStateM ε σ PUnit}
    (hbody : ∀ a, Forgets (body a) (body' a)) (l : List α) :
    Forgets (ForM.forM l body) (ForM.forM l body') := by
  induction l with
  | nil => exact .pure PUnit.unit
  | cons a l ih =>
      rw [List.forM_cons, List.forM_cons]
      exact .bind (hbody a) fun _ => ih

/-! ## Postconditions -/

/-- A computation that records nothing has the postconditions it has on the state. -/
theorem onState_outcome {Q : α → σ → Prop} {E : ε → σ → Prop} {t : σ × List τ}
    (h : Outcome y t.1 Q E) :
    Outcome (onState y) t (fun a t' => Q a t'.1 ∧ t'.2 = t.2) (fun e t' => E e t'.1) := by
  unfold Outcome at h ⊢
  rw [run_onState]
  cases hrun : y.run t.1 with
  | ok a s' =>
      rw [hrun] at h
      exact ⟨h, rfl⟩
  | error e s' =>
      rw [hrun] at h
      exact h

/-- Reading the state. -/
theorem get_bind {g : σ → Recording ε σ τ α} {t : σ × List τ} {R : α → σ × List τ → Prop}
    {E : ε → σ × List τ → Prop} (h : Outcome (g t.1) t R E) :
    Outcome (onState get >>= g) t R E := h

end Recording
