import PrivatePayments.OnChain.System

/-!
# PrivatePayments.OnChain.SystemSound

What one action can do to the pool (`step_pool_cases`), and the rule for whole runs
(`run_induction`). The pool inside the system runs as `Pool.run` runs it on the calls
that reach it, so what is known of such runs holds in the system (`Sound`).
-/

namespace PrivatePayments.OnChain

open Pool (Address Host CallEnv Transaction PoolStorage Reflects AdmittedRun Acceptable Accepts)

variable {σ κ : Type}

namespace Deployment

section Runs

variable (D : Deployment σ κ)

@[simp] theorem run_nil (st : State σ) : D.run st [] = st := rfl

@[simp] theorem run_cons (st : State σ) (act : Action κ) (acts : List (Action κ)) :
    D.run st (act :: acts) = D.run (D.step st act) acts := rfl

theorem run_append (st : State σ) (acts acts' : List (Action κ)) :
    D.run st (acts ++ acts') = D.run (D.run st acts) acts' := List.foldl_append

@[simp] theorem accepted_nil (st : State σ) : D.accepted st [] = [] := rfl

section Call

variable {D} {st : State σ} {signed : Address → Bool} {foreign : Address → Option U256}
variable {call : PoolCall} {s' : PoolStorage}

theorem step_of_ok
    (h : ((D.poolCall st signed foreign call).function D.host).run st.pool = .ok () s') :
    D.step st (.pool signed foreign call) =
      { st with pool := s', token := (D.settle st.token signed call).getD st.token } := by
  simp only [step, Contract.invoke_of_ok h]

theorem step_of_error {e : Failure Pool.PoolError}
    (h : ((D.poolCall st signed foreign call).function D.host).run st.pool = .error e s') :
    D.step st (.pool signed foreign call) = st := by
  simp only [step, Contract.invoke_of_error h]

theorem accepted_of_ok
    (h : ((D.poolCall st signed foreign call).function D.host).run st.pool = .ok () s') :
    D.accepted st [.pool signed foreign call] =
      (D.poolCall st signed foreign call).transaction := by
  simp only [accepted, poolCalls, Pool.run_cons, h, Pool.run, List.append_nil]

theorem accepted_of_error {e : Failure Pool.PoolError}
    (h : ((D.poolCall st signed foreign call).function D.host).run st.pool = .error e s') :
    D.accepted st [.pool signed foreign call] = [] := by
  simp only [accepted, poolCalls, Pool.run_cons, h, Pool.run]

end Call

/-- The other actions do not reach the pool. -/
theorem accepted_cons (st : State σ) (act : Action κ) (acts : List (Action κ)) :
    D.accepted st (act :: acts) = D.accepted st [act] ++ D.accepted (D.step st act) acts := by
  cases act with
  | pool signed foreign call =>
      cases hrun : ((D.poolCall st signed foreign call).function D.host).run st.pool with
      | ok u s' =>
          rw [accepted_of_ok hrun, step_of_ok hrun, accepted, poolCalls, Pool.run_cons, hrun,
            step_of_ok hrun]
          rfl
      | error e s' =>
          rw [accepted_of_error hrun, step_of_error hrun, accepted, poolCalls, Pool.run_cons, hrun,
            step_of_error hrun]
          rfl
  | membership contract signed call => rfl
  | nonMembership contract signed call => rfl
  | deployMembership contract admin levels => rfl
  | deployNonMembership contract admin => rfl
  | token signed call => rfl

theorem accepted_append (acts : List (Action κ)) : ∀ (st : State σ) (acts' : List (Action κ)),
    D.accepted st (acts ++ acts') = D.accepted st acts ++ D.accepted (D.run st acts) acts' := by
  induction acts with
  | nil => intro st acts'; rfl
  | cons act acts ih =>
      intro st acts'
      rw [List.cons_append, accepted_cons, ih, accepted_cons D st act acts, List.append_assoc,
        run_cons]

/-- The pool inside the system is the pool on the calls that reach it. -/
theorem run_pool (acts : List (Action κ)) : ∀ st : State σ,
    (D.run st acts).pool = (Pool.run D.host st.pool (D.poolCalls st acts)).2 := by
  induction acts with
  | nil => intro st; rfl
  | cons act acts ih =>
      intro st
      rw [run_cons, ih]
      cases act with
      | pool signed foreign call =>
          rw [poolCalls, Pool.run_cons]
          cases hrun : ((D.poolCall st signed foreign call).function D.host).run st.pool with
          | ok u s' => rw [step_of_ok hrun]
          | error e s' => rw [step_of_error hrun]
      | membership contract signed call => rfl
      | nonMembership contract signed call => rfl
      | deployMembership contract admin levels => rfl
      | deployNonMembership contract admin => rfl
      | token signed call => rfl

/-- **Induction over a run**: what holds at the start and is kept by every action, with the
transactions accepted so far. -/
theorem run_induction {P : List Transaction → State σ → Prop}
    (hstep : ∀ {txs st} act, P txs st → P (txs ++ D.accepted st [act]) (D.step st act))
    (acts : List (Action κ)) : ∀ {txs : List Transaction} {st : State σ}, P txs st →
    P (txs ++ D.accepted st acts) (D.run st acts) := by
  induction acts with
  | nil =>
      intro txs st h
      rw [accepted_nil, List.append_nil]
      exact h
  | cons act acts ih =>
      intro txs st h
      rw [accepted_cons, ← List.append_assoc]
      exact ih (hstep act h)

end Runs

/-! ### The pool in the system -/

/-- The pool has run through the transactions `txs`. -/
structure Sound (D : Deployment σ κ) (levels : Nat) (verifier : Address)
    (txs : List Transaction) (st : State σ) : Prop where
  reflects : Reflects levels verifier txs st.pool
  admitted : AdmittedRun D.host levels verifier txs
  token_eq : st.pool.token = some D.token

/-- A call of the administrator, which has signed it, and the storage after it. -/
inductive Administers (D : Deployment σ κ) (signed : Address → Bool) (s : PoolStorage) :
    PoolCall → PoolStorage → Prop
  | updateAdmin (hsigned : s.admin.any (D.signers signed)) (a : Address) :
      Administers D signed s (.updateAdmin a) { s with admin := some a }
  | updateAspMembership (hsigned : s.admin.any (D.signers signed)) (a : Address) :
      Administers D signed s (.updateAspMembership a) { s with aspMembership := some a }
  | updateAspNonMembership (hsigned : s.admin.any (D.signers signed)) (a : Address) :
      Administers D signed s (.updateAspNonMembership a) { s with aspNonMembership := some a }

section Step

variable {D : Deployment σ κ} {levels : Nat} {verifier : Address} {txs : List Transaction}
variable {st : State σ}

/-- The transfer that an acceptable transaction needs is the one that is made. -/
theorem settle_of_acceptable (h : Sound D levels verifier txs st) {signed : Address → Bool}
    {foreign : Address → Option U256} {tx : Transaction}
    (ha : Acceptable D.host levels verifier txs st.pool
      (D.callEnv st signed foreign (some tx.sender)) tx) :
    ∃ t', D.settle st.token signed (.transact tx) = some t' := by
  obtain ⟨token, htoken, hpay⟩ := ha.payable
  obtain rfl : D.token = token := Option.some.inj (h.token_eq.symm.trans htoken)
  have hdeposit := hpay.deposit
  have hwithdrawal := hpay.withdrawal
  unfold callEnv at hdeposit hwithdrawal
  simp only [if_pos, Option.map_eq_some_iff] at hdeposit hwithdrawal
  simp only [settle]
  by_cases hpos : 0 < tx.extData.extAmount.val
  · obtain ⟨t', ht', -⟩ := hdeposit hpos
    exact ⟨t', by rw [if_pos hpos, ht']⟩
  · by_cases hneg : tx.extData.extAmount.val < 0
    · obtain ⟨t', ht', -⟩ := hwithdrawal hneg
      exact ⟨t', by rw [if_neg hpos, if_pos hneg, ht']⟩
    · exact ⟨st.token, by rw [if_neg hpos, if_neg hneg]⟩

/-- Everything a call of the pool can do: nothing, a transaction with its transfer, or a
change by the administrator. -/
theorem step_pool_cases (h : Sound D levels verifier txs st) (signed : Address → Bool)
    (foreign : Address → Option U256) (call : PoolCall) :
    (D.step st (.pool signed foreign call) = st ∧
      D.accepted st [.pool signed foreign call] = []) ∨
    (∃ tx s' t', call = .transact tx ∧
      Acceptable D.host levels verifier txs st.pool
        (D.callEnv st signed foreign (some tx.sender)) tx ∧
      Accepts D.host tx st.pool s' ∧ D.settle st.token signed call = some t' ∧
      D.step st (.pool signed foreign call) = { st with pool := s', token := t' } ∧
      D.accepted st [.pool signed foreign call] = [tx]) ∨
    (∃ s', Administers D signed st.pool call s' ∧
      D.step st (.pool signed foreign call) = { st with pool := s' } ∧
      D.accepted st [.pool signed foreign call] = []) := by
  cases hrun : ((D.poolCall st signed foreign call).function D.host).run st.pool with
  | error e s' =>
      exact .inl ⟨step_of_error hrun, accepted_of_error hrun⟩
  | ok u s' =>
      have hstep := step_of_ok hrun
      have hacc := accepted_of_ok hrun
      cases call with
      | transact tx =>
          obtain ⟨nulls, hnulls, -⟩ := h.reflects.nullifiers
          have ha := (Pool.transact_ok_iff h.reflects).mp ⟨s', hrun⟩
          obtain ⟨t', ht'⟩ := settle_of_acceptable h ha
          refine .inr (.inl ⟨tx, s', t', rfl, ha, Pool.transact_accepts h.reflects.tree
            (by rw [hnulls]; rfl) hrun, ht', ?_, hacc⟩)
          rw [hstep, ht']
          rfl
      | updateAdmin a =>
          obtain ⟨hsigned, rfl⟩ := Pool.updateAdmin_ok hrun
          exact .inr (.inr ⟨_, .updateAdmin hsigned a, hstep, hacc⟩)
      | updateAspMembership a =>
          obtain ⟨hsigned, rfl⟩ := Pool.updateAspMembership_ok hrun
          exact .inr (.inr ⟨_, .updateAspMembership hsigned a, hstep, hacc⟩)
      | updateAspNonMembership a =>
          obtain ⟨hsigned, rfl⟩ := Pool.updateAspNonMembership_ok hrun
          exact .inr (.inr ⟨_, .updateAspNonMembership hsigned a, hstep, hacc⟩)

/-- What the administrator changes is not what the transactions write. -/
theorem Administers.keeps {signed : Address → Bool} {s s' : PoolStorage} {call : PoolCall}
    (ha : Administers D signed s call s') (h : Reflects levels verifier txs s) :
    Reflects levels verifier txs s' ∧ s'.token = s.token := by
  cases ha with
  | updateAdmin => exact ⟨h.of_eq rfl rfl rfl rfl, rfl⟩
  | updateAspMembership => exact ⟨h.of_eq rfl rfl rfl rfl, rfl⟩
  | updateAspNonMembership => exact ⟨h.of_eq rfl rfl rfl rfl, rfl⟩

/-- The pool after an action that does not call it. -/
theorem step_other (st : State σ) {act : Action κ}
    (h : ∀ signed foreign call, act ≠ .pool signed foreign call) :
    (D.step st act).pool = st.pool ∧ D.accepted st [act] = [] := by
  cases act with
  | pool signed foreign call => exact absurd rfl (h signed foreign call)
  | membership contract signed call => exact ⟨rfl, rfl⟩
  | nonMembership contract signed call => exact ⟨rfl, rfl⟩
  | deployMembership contract admin levels => exact ⟨rfl, rfl⟩
  | deployNonMembership contract admin => exact ⟨rfl, rfl⟩
  | token signed call => exact ⟨rfl, rfl⟩

theorem Sound.step (h : Sound D levels verifier txs st) (act : Action κ) :
    Sound D levels verifier (txs ++ D.accepted st [act]) (D.step st act) := by
  by_cases hpool : ∃ signed foreign call, act = .pool signed foreign call
  · obtain ⟨signed, foreign, call, rfl⟩ := hpool
    obtain ⟨hst, hacc⟩ | ⟨tx, s', t', rfl, -, haccepts, -, hst, hacc⟩ | ⟨s', hadmin, hst, hacc⟩ :=
      step_pool_cases h signed foreign call
    · rw [hst, hacc, List.append_nil]
      exact h
    · rw [hst, hacc]
      obtain ⟨hreflects, hadmitted⟩ := h.reflects.accept haccepts
      obtain ⟨nulls, tree, idx, -, -, hs'⟩ := haccepts.written
      exact ⟨hreflects, .snoc h.admitted hadmitted, by rw [hs']; exact h.token_eq⟩
    · rw [hst, hacc, List.append_nil]
      obtain ⟨hreflects, htoken⟩ := hadmin.keeps h.reflects
      exact ⟨hreflects, h.admitted, htoken.trans h.token_eq⟩
  · obtain ⟨hst, hacc⟩ := step_other (D := D) st fun signed foreign call heq =>
      hpool ⟨signed, foreign, call, heq⟩
    rw [hacc, List.append_nil]
    exact ⟨by rw [hst]; exact h.reflects, h.admitted, by rw [hst]; exact h.token_eq⟩

theorem Sound.run (h : Sound D levels verifier txs st) (acts : List (Action κ)) :
    Sound D levels verifier (txs ++ D.accepted st acts) (D.run st acts) :=
  D.run_induction (fun act h => h.step act) acts h

theorem Constructed.sound (h : D.Constructed levels verifier st) :
    1 ≤ levels ∧ levels ≤ 32 ∧ Sound D levels verifier [] st := by
  obtain ⟨admin, asp, aspNon, hinit⟩ := h.pool
  obtain ⟨hpos, hle, hreflects⟩ := Pool.constructor_reflects hinit
  refine ⟨hpos, hle, hreflects, .nil, ?_⟩
  obtain ⟨tree, -, hs⟩ := Pool.liftTree_ok (Contract.modify_bind_ok hinit)
  rw [hs]

end Step

end Deployment

end PrivatePayments.OnChain
