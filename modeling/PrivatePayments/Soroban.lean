import PrivatePayments.Poseidon2.Hash

/-!
# PrivatePayments.Soroban

What the contracts use of the Soroban host.

A contract function reads and writes its storage and returns a `Result`; it can also
trap (a panic, a failed authorisation, a host error). `Contract σ ε` is the monad of
such functions. It keeps the storage that a failing function leaves behind, so that
"nothing was written before the check" can be stated; the host itself discards that
storage when the call fails (`invoke`).
-/

namespace PrivatePayments

/-- Why a call did not return `Ok`. -/
inductive Failure (ε : Type)
  /-- A panic or a host error. -/
  | trap
  /-- The function returned `Err`. -/
  | error (e : ε)
  deriving DecidableEq, Repr

/-- A contract function over storage `σ` with errors `ε`. -/
abbrev Contract (σ ε : Type) := EStateM (Failure ε) σ

namespace Contract

variable {σ ε α β : Type}

/-- `ok_or`: an absent value is an error. -/
def okOr (o : Option α) (e : ε) : Contract σ ε α :=
  match o with
  | some a => pure a
  | none => throw (.error e)

/-- `if condition { return Err(e); }` -/
def failIf (condition : Prop) [Decidable condition] (e : ε) : Contract σ ε Unit :=
  if condition then throw (.error e) else pure ()

/-- `Address::require_auth`: traps unless the address has authorised the call. -/
def requireAuth (authorised : Bool) : Contract σ ε Unit :=
  if authorised then pure () else throw .trap

/-- A value that a host function or another contract returns, or its trap. -/
def hostCall (result : Option α) : Contract σ ε α :=
  match result with
  | some a => pure a
  | none => throw .trap

@[simp] theorem run_throw (e : Failure ε) (s : σ) :
    (throw e : Contract σ ε α).run s = .error e s := rfl

@[simp] theorem okOr_some (a : α) (e : ε) : (okOr (some a) e : Contract σ ε α) = pure a := rfl

@[simp] theorem okOr_none (e : ε) :
    (okOr none e : Contract σ ε α) = throw (.error e) := rfl

theorem failIf_pos {c : Prop} [Decidable c] {e : ε} (h : c) :
    (failIf c e : Contract σ ε Unit) = throw (.error e) := if_pos h

theorem failIf_neg {c : Prop} [Decidable c] {e : ε} (h : ¬ c) :
    (failIf c e : Contract σ ε Unit) = pure () := if_neg h

@[simp] theorem requireAuth_true : (requireAuth true : Contract σ ε Unit) = pure () := rfl

@[simp] theorem requireAuth_false : (requireAuth false : Contract σ ε Unit) = throw .trap := rfl

@[simp] theorem hostCall_some (a : α) : (hostCall (some a) : Contract σ ε α) = pure a := rfl

@[simp] theorem hostCall_none : (hostCall none : Contract σ ε α) = throw .trap := rfl

/-- After a part that succeeds the rest runs from the storage it leaves. -/
theorem run_bind_of_ok {x : Contract σ ε α} {f : α → Contract σ ε β} {s s₁ : σ} {a : α}
    (h : x.run s = .ok a s₁) : (x >>= f).run s = (f a).run s₁ := by
  rw [EStateM.run_bind, h]

theorem run_bind_of_error {x : Contract σ ε α} {f : α → Contract σ ε β} {s s₁ : σ}
    {e : Failure ε} (h : x.run s = .error e s₁) : (x >>= f).run s = .error e s₁ := by
  rw [EStateM.run_bind, h]

/-- Inversion of a sequence that succeeds: both parts do. -/
theorem bind_ok {x : Contract σ ε α} {f : α → Contract σ ε β} {s s' : σ} {b : β}
    (h : (x >>= f).run s = .ok b s') :
    ∃ a s₁, x.run s = .ok a s₁ ∧ (f a).run s₁ = .ok b s' := by
  rw [EStateM.run_bind] at h
  cases hx : x.run s with
  | ok a s₁ => exact ⟨a, s₁, rfl, by rw [hx] at h; exact h⟩
  | error e s₁ => rw [hx] at h; cases h

/-- A part that only reads: what follows it runs from the same storage. -/
theorem reads_bind_ok {x : Contract σ ε α} {f : α → Contract σ ε β} {P : α → Prop} {s s' : σ}
    {b : β} (hx : ∀ {a s₁}, x.run s = .ok a s₁ → s₁ = s ∧ P a)
    (h : (x >>= f).run s = .ok b s') : ∃ a, P a ∧ (f a).run s = .ok b s' := by
  obtain ⟨a, s₁, ha, hf⟩ := bind_ok h
  obtain ⟨rfl, hP⟩ := hx ha
  exact ⟨a, hP, hf⟩

theorem get_bind_ok {f : σ → Contract σ ε β} {s s' : σ} {b : β}
    (h : (get >>= f).run s = .ok b s') : (f s).run s = .ok b s' := h

theorem modify_bind_ok {g : σ → σ} {f : PUnit → Contract σ ε β} {s s' : σ} {b : β}
    (h : (modify g >>= f).run s = .ok b s') : (f ⟨⟩).run (g s) = .ok b s' := h

theorem okOr_ok {o : Option α} {e : ε} {s s' : σ} {a : α}
    (h : (okOr o e : Contract σ ε α).run s = .ok a s') : o = some a ∧ s' = s := by
  cases o with
  | none => cases h
  | some b => cases h; exact ⟨rfl, rfl⟩

theorem okOr_bind_ok {o : Option α} {e : ε} {f : α → Contract σ ε β} {s s' : σ} {b : β}
    (h : (okOr o e >>= f).run s = .ok b s') : ∃ a, o = some a ∧ (f a).run s = .ok b s' := by
  cases o with
  | none => cases h
  | some a => exact ⟨a, rfl, h⟩

theorem failIf_bind_ok {c : Prop} [Decidable c] {e : ε} {f : Unit → Contract σ ε β} {s s' : σ}
    {b : β} (h : (failIf c e >>= f).run s = .ok b s') : ¬ c ∧ (f ()).run s = .ok b s' := by
  by_cases hc : c
  · rw [failIf_pos hc] at h
    cases h
  · rw [failIf_neg hc] at h
    exact ⟨hc, h⟩

theorem failIf_ok {c : Prop} [Decidable c] {e : ε} {s s' : σ} {u : Unit}
    (h : (failIf c e : Contract σ ε Unit).run s = .ok u s') : ¬ c ∧ s' = s := by
  by_cases hc : c
  · rw [failIf_pos hc] at h
    cases h
  · rw [failIf_neg hc] at h
    cases h
    exact ⟨hc, rfl⟩

theorem hostCall_ok {o : Option α} {s s' : σ} {a : α}
    (h : (hostCall o : Contract σ ε α).run s = .ok a s') : o = some a ∧ s' = s := by
  cases o with
  | none => cases h
  | some b => cases h; exact ⟨rfl, rfl⟩

theorem hostCall_bind_ok {o : Option α} {f : α → Contract σ ε β} {s s' : σ} {b : β}
    (h : (hostCall o >>= f).run s = .ok b s') : ∃ a, o = some a ∧ (f a).run s = .ok b s' := by
  cases o with
  | none => cases h
  | some a => exact ⟨a, rfl, h⟩

theorem requireAuth_bind_ok {authorised : Bool} {f : Unit → Contract σ ε β} {s s' : σ} {b : β}
    (h : (requireAuth authorised >>= f).run s = .ok b s') :
    authorised = true ∧ (f ()).run s = .ok b s' := by
  cases authorised with
  | false => cases h
  | true => exact ⟨rfl, h⟩

/-- What a caller of the host sees: the result, and the storage, which is the old one
unless the function returned `Ok`. -/
def invoke (f : Contract σ ε α) (s : σ) : Except (Failure ε) α × σ :=
  match f.run s with
  | .ok a s' => (.ok a, s')
  | .error e _ => (.error e, s)

theorem invoke_of_ok {f : Contract σ ε α} {s s' : σ} {a : α} (h : f.run s = .ok a s') :
    invoke f s = (.ok a, s') := by
  rw [invoke, h]

theorem invoke_of_error {f : Contract σ ε α} {s s' : σ} {e : Failure ε}
    (h : f.run s = .error e s') : invoke f s = (.error e, s) := by
  rw [invoke, h]

end Contract

/-! ### The hash functions of the contracts -/

section Hash

variable {σ ε : Type}

/-- `poseidon2_compress`: both inputs must be canonical; the addition is on `U256` and
reduces only when it has to. -/
def contractCompress (left right : U256) : Contract σ ε U256 :=
  if bn256Modulus ≤ left.val ∨ bn256Modulus ≤ right.val then throw .trap
  else
    let out0 := ((Poseidon2.permutation [left.toFr, right.toFr]).headD 0).toU256
    let compressed0 := out0 + left
    if bn256Modulus ≤ compressed0.val then pure compressed0.remEuclidModulus
    else pure compressed0

/-- `poseidon2_hash2`: the inputs and the separator must be canonical; no separator
means zero. -/
def contractHash2 (a b : U256) (sep : Option U256) : Contract σ ε U256 :=
  let sep := sep.getD 0
  if bn256Modulus ≤ a.val ∨ bn256Modulus ≤ b.val ∨ bn256Modulus ≤ sep.val then throw .trap
  else pure (poseidon2Hash2 a.toFr b.toFr sep.toFr).toU256

/-- A number that is not canonical makes the compression panic. -/
theorem contractCompress_trap {left right : U256}
    (h : bn256Modulus ≤ left.val ∨ bn256Modulus ≤ right.val) :
    (contractCompress left right : Contract σ ε U256) = throw .trap := if_pos h

/-- On canonical inputs the contracts compress as the circuits do. -/
theorem contractCompress_toU256 (l r : Fr) :
    (contractCompress l.toU256 r.toU256 : Contract σ ε U256) =
      pure (poseidon2Compress l r).toU256 := by
  unfold contractCompress poseidon2Compress
  rw [if_neg (not_or.mpr ⟨not_le.mpr l.toU256_lt, not_le.mpr r.toU256_lt⟩)]
  simp only [U256.toFr_toU256]
  generalize (Poseidon2.permutation [l, r]).headD 0 = out
  split
  · rename_i hge
    congr 1
    refine Fin.ext ?_
    rw [U256.remEuclidModulus_val, Fr.toU256_add_val, Fr.toU256_val, Fin.val_add]
  · rename_i hlt
    congr 1
    refine Fin.ext ?_
    rw [Fr.toU256_add_val] at hlt
    rw [Fr.toU256_add_val, Fr.toU256_val, Fin.val_add, Nat.mod_eq_of_lt (not_le.mp hlt)]

/-- Only canonical inputs are compressed. -/
theorem contractCompress_ok {left right v : U256} {s s' : σ}
    (h : (contractCompress left right : Contract σ ε U256).run s = .ok v s') :
    left.val < bn256Modulus ∧ right.val < bn256Modulus := by
  by_cases hbig : bn256Modulus ≤ left.val ∨ bn256Modulus ≤ right.val
  · rw [contractCompress_trap hbig] at h
    cases h
  · obtain ⟨hleft, hright⟩ := not_or.mp hbig
    exact ⟨not_le.mp hleft, not_le.mp hright⟩

/-- Only canonical inputs are hashed. -/
theorem contractHash2_ok {a b v : U256} {sep : Option U256} {s s' : σ}
    (h : (contractHash2 a b sep : Contract σ ε U256).run s = .ok v s') :
    a.val < bn256Modulus ∧ b.val < bn256Modulus := by
  unfold contractHash2 at h
  by_cases hbig : bn256Modulus ≤ a.val ∨ bn256Modulus ≤ b.val ∨ bn256Modulus ≤ (sep.getD 0).val
  · rw [if_pos hbig] at h
    cases h
  · obtain ⟨ha, hb⟩ := not_or.mp hbig
    exact ⟨not_le.mp ha, not_le.mp (not_or.mp hb).1⟩

theorem contractHash2_toU256 (a b d : Fr) :
    (contractHash2 a.toU256 b.toU256 (some d.toU256) : Contract σ ε U256) =
      pure (poseidon2Hash2 a b d).toU256 := by
  unfold contractHash2
  simp only [Option.getD_some]
  rw [if_neg (not_or.mpr ⟨not_le.mpr a.toU256_lt,
    not_or.mpr ⟨not_le.mpr b.toU256_lt, not_le.mpr d.toU256_lt⟩⟩)]
  simp only [U256.toFr_toU256]

end Hash

end PrivatePayments
