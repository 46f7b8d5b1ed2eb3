import PrivatePayments.Soroban

/-!
# PrivatePayments.SorobanRules

Rules for contract functions. The first ones say exactly when a composed function
succeeds; the others (`Preserves`) say which part of the storage it leaves alone when it does.
-/

namespace PrivatePayments

namespace Contract

variable {σ ε α β : Type} {s s' : σ} {b : β}

theorem bind_ok_iff {x : Contract σ ε α} {f : α → Contract σ ε β} :
    (x >>= f).run s = .ok b s' ↔ ∃ a s₁, x.run s = .ok a s₁ ∧ (f a).run s₁ = .ok b s' :=
  ⟨bind_ok, fun ⟨_, _, hx, hf⟩ => (run_bind_of_ok hx).trans hf⟩

/-- A part that only reads. -/
theorem reads_bind_ok_iff {x : Contract σ ε α} {f : α → Contract σ ε β} {P : α → Prop}
    (hx : ∀ {a s₁}, x.run s = .ok a s₁ ↔ s₁ = s ∧ P a) :
    (x >>= f).run s = .ok b s' ↔ ∃ a, P a ∧ (f a).run s = .ok b s' := by
  rw [bind_ok_iff]
  constructor
  · rintro ⟨a, s₁, ha, hf⟩
    obtain ⟨rfl, hP⟩ := hx.mp ha
    exact ⟨a, hP, hf⟩
  · rintro ⟨a, hP, hf⟩
    exact ⟨a, s, hx.mpr ⟨rfl, hP⟩, hf⟩

/-- A part that only checks. -/
theorem checks_bind_ok_iff {x : Contract σ ε PUnit} {f : PUnit → Contract σ ε β} {P : Prop}
    (hx : ∀ {s₁}, x.run s = .ok ⟨⟩ s₁ ↔ s₁ = s ∧ P) :
    (x >>= f).run s = .ok b s' ↔ P ∧ (f ⟨⟩).run s = .ok b s' := by
  rw [reads_bind_ok_iff (P := fun _ => P) (fun {_ _} => hx)]
  exact ⟨fun ⟨_, h⟩ => h, fun h => ⟨⟨⟩, h⟩⟩

theorem get_bind_ok_iff {f : σ → Contract σ ε β} :
    (get >>= f).run s = .ok b s' ↔ (f s).run s = .ok b s' := Iff.rfl

theorem failIf_ok_iff {c : Prop} [Decidable c] {e : ε} {u : Unit} :
    (failIf c e : Contract σ ε Unit).run s = .ok u s' ↔ s' = s ∧ ¬ c := by
  constructor
  · intro h
    obtain ⟨hc, hs⟩ := failIf_ok h
    exact ⟨hs, hc⟩
  · rintro ⟨rfl, hc⟩
    rw [failIf_neg hc]
    rfl

theorem okOr_ok_iff {o : Option α} {e : ε} {a : α} :
    (okOr o e : Contract σ ε α).run s = .ok a s' ↔ s' = s ∧ o = some a := by
  constructor
  · intro h
    obtain ⟨ho, hs⟩ := okOr_ok h
    exact ⟨hs, ho⟩
  · rintro ⟨rfl, rfl⟩
    rfl

theorem hostCall_ok_iff {o : Option α} {a : α} :
    (hostCall o : Contract σ ε α).run s = .ok a s' ↔ s' = s ∧ o = some a := by
  constructor
  · intro h
    obtain ⟨ho, hs⟩ := hostCall_ok h
    exact ⟨hs, ho⟩
  · rintro ⟨rfl, rfl⟩
    rfl

theorem requireAuth_ok_iff {authorised : Bool} {u : Unit} :
    (requireAuth authorised : Contract σ ε Unit).run s = .ok u s' ↔
      s' = s ∧ authorised = true := by
  cases authorised with
  | false => exact iff_of_false (fun h => by cases h) fun h => by cases h.2
  | true => exact ⟨fun h => by cases h; exact ⟨rfl, rfl⟩, fun h => by rw [h.1]; rfl⟩

theorem pure_ok_iff {a c : α} :
    (pure c : Contract σ ε α).run s = .ok a s' ↔ s' = s ∧ a = c := by
  constructor
  · intro h
    cases h
    exact ⟨rfl, rfl⟩
  · rintro ⟨rfl, rfl⟩
    rfl

/-- A loop of checks passes if each of them does. -/
theorem forM_check_ok_iff {f : α → Contract σ ε PUnit} {P : α → Prop}
    (hf : ∀ {a s₁}, (f a).run s = .ok ⟨⟩ s₁ ↔ s₁ = s ∧ P a) (l : List α) :
    ∀ {s₁}, (forM l f : Contract σ ε PUnit).run s = .ok ⟨⟩ s₁ ↔ s₁ = s ∧ ∀ a ∈ l, P a := by
  induction l with
  | nil =>
      intro s₁
      rw [List.forM_nil, pure_ok_iff]
      simp
  | cons a l ih =>
      intro s₁
      rw [List.forM_cons, checks_bind_ok_iff (fun {_} => hf), ih, List.forall_mem_cons]
      exact and_left_comm

/-! ### Frames -/

variable {γ : Type} {g : σ → γ}

/-- A function that does not change a part of the storage when it succeeds. -/
def Preserves (g : σ → γ) (f : Contract σ ε α) : Prop :=
  ∀ s a s', f.run s = .ok a s' → g s' = g s

theorem Preserves.eq {f : Contract σ ε α} (hf : Preserves g f) {s s' : σ} {a : α}
    (h : f.run s = .ok a s') : g s' = g s := hf s a s' h

theorem preserves_pure (a : α) : Preserves g (pure a : Contract σ ε α) := by
  intro s b s' h
  cases h
  rfl

theorem preserves_get : Preserves g (get : Contract σ ε σ) := by
  intro s b s' h
  cases h
  rfl

theorem preserves_throw (e : Failure ε) : Preserves g (throw e : Contract σ ε α) := by
  intro s b s' h
  cases h

theorem preserves_modify {f : σ → σ} (hf : ∀ s, g (f s) = g s) :
    Preserves g (modify f : Contract σ ε PUnit) := by
  intro s b s' h
  cases h
  exact hf s

theorem preserves_bind {x : Contract σ ε α} {f : α → Contract σ ε β} (hx : Preserves g x)
    (hf : ∀ a, Preserves g (f a)) : Preserves g (x >>= f) := by
  intro s b s' h
  obtain ⟨a, s₁, ha, hb⟩ := bind_ok h
  exact ((hf a).eq hb).trans (hx.eq ha)

theorem preserves_okOr (o : Option α) (e : ε) : Preserves g (okOr o e) := by
  intro s a s' h
  rw [(okOr_ok h).2]

theorem preserves_hostCall (o : Option α) : Preserves g (hostCall o : Contract σ ε α) := by
  intro s a s' h
  rw [(hostCall_ok h).2]

theorem preserves_failIf (c : Prop) [Decidable c] (e : ε) : Preserves g (failIf c e) := by
  intro s a s' h
  rw [(failIf_ok h).2]

theorem preserves_requireAuth (authorised : Bool) :
    Preserves g (requireAuth authorised : Contract σ ε Unit) := by
  intro s a s' h
  rw [(requireAuth_ok_iff.mp h).1]

theorem preserves_ite {c : Prop} [Decidable c] {x y : Contract σ ε α} (hx : Preserves g x)
    (hy : Preserves g y) : Preserves g (if c then x else y) := by
  split
  · exact hx
  · exact hy

theorem preserves_foldrM {f : β → α → Contract σ ε α} (hf : ∀ b a, Preserves g (f b a))
    (l : List β) : ∀ a, Preserves g (l.foldrM f a) := by
  induction l with
  | nil => exact fun a => preserves_pure a
  | cons b l ih =>
      intro a
      rw [List.foldrM_cons]
      exact preserves_bind (ih a) fun a' => hf b a'

end Contract

end PrivatePayments
