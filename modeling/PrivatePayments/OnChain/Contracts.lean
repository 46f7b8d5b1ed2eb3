import PrivatePayments.OnChain.SystemSound
import PrivatePayments.Contracts.AspMembershipEvents
import PrivatePayments.Contracts.AspNonMembershipEvents

/-!
# PrivatePayments.OnChain.Contracts

The ASP contracts of the system. In every run each of them is in a state that its own
events tell (`Contracts`), and what changes it, its administrator has signed.
-/

namespace PrivatePayments.OnChain

open Pool (Address Transaction PoolStorage)
open AspMembership (MembershipStorage)
open AspNonMembership (AspStorage)

variable {σ κ : Type}

namespace Deployment

section Tables

variable {τ ε : Type} {contracts : Address → Option τ} {a b : Address} {s' : τ}

/-- A contract after an invocation is as before, or the invocation has succeeded on it. -/
theorem invokeAt_cases {f : τ → Contract τ ε Unit} (h : invokeAt contracts a f b = some s') :
    contracts b = some s' ∨ b = a ∧ ∃ s, contracts a = some s ∧ (f s).run s = .ok () s' := by
  unfold invokeAt at h
  cases ha : contracts a with
  | none =>
      rw [ha] at h
      exact .inl h
  | some s =>
      simp only [ha] at h
      by_cases hb : b = a
      · rw [hb, Function.update_self, Option.some.injEq] at h
        cases hrun : (f s).run s with
        | ok u s₁ =>
            rw [Contract.invoke_of_ok hrun] at h
            rw [← h]
            exact .inr ⟨hb, s, rfl, hrun⟩
        | error e s₁ =>
            rw [Contract.invoke_of_error hrun] at h
            exact .inl (by rw [hb, ha, ← h])
      · rw [Function.update_of_ne hb] at h
        exact .inl h

/-- A contract after a deployment is as before, or newly constructed at a free address. -/
theorem deployAt_cases {free : Bool} {f : Contract τ ε Unit} {empty : τ}
    (h : deployAt contracts a free f empty b = some s') :
    contracts b = some s' ∨ b = a ∧ free = true ∧ f.run empty = .ok () s' := by
  unfold deployAt at h
  cases free with
  | false => exact .inl h
  | true =>
      cases hrun : f.run empty with
      | error e s => rw [hrun] at h; exact .inl h
      | ok u s =>
          simp only [hrun] at h
          by_cases hb : b = a
          · rw [hb, Function.update_self, Option.some.injEq] at h
            rw [← h]
            exact .inr ⟨hb, rfl, rfl⟩
          · rw [Function.update_of_ne hb] at h
            exact .inl h

/-- A contract does not disappear. -/
theorem invokeAt_isSome {f : τ → Contract τ ε Unit} (h : (contracts b).isSome) :
    (invokeAt contracts a f b).isSome := by
  unfold invokeAt
  cases contracts a with
  | none => exact h
  | some s =>
      simp only
      by_cases hb : b = a
      · rw [hb, Function.update_self]
        rfl
      · rwa [Function.update_of_ne hb]

theorem deployAt_isSome {free : Bool} {f : Contract τ ε Unit} {empty : τ}
    (h : (contracts b).isSome) : (deployAt contracts a free f empty b).isSome := by
  unfold deployAt
  cases free with
  | false => exact h
  | true =>
      cases f.run empty with
      | error e s => exact h
      | ok u s =>
          simp only
          by_cases hb : b = a
          · rw [hb, Function.update_self]
            rfl
          · rwa [Function.update_of_ne hb]

end Tables

/-- Every ASP contract is what its events tell, and no address has two of them. -/
structure Contracts (st : State σ) : Prop where
  membership : ∀ {a m}, st.membership a = some m → AspMembership.Published m
  nonMembership : ∀ {a n}, st.nonMembership a = some n → AspNonMembership.Published n
  disjoint : ∀ a, st.membership a = none ∨ st.nonMembership a = none

section Step

variable {D : Deployment σ κ} {st : State σ}

theorem MembershipCall.published {m m' : MembershipStorage} {authorised : Bool}
    {call : MembershipCall} (hp : AspMembership.Published m)
    (h : (call.function authorised).run m = .ok () m') : AspMembership.Published m' := by
  cases call with
  | insertLeaf leaf => exact (hp.insertLeaf h).2.2
  | setAdminInsertOnly adminOnly =>
      obtain ⟨-, rfl⟩ := AspMembership.setAdminInsertOnly_ok h
      obtain ⟨levels, hrep⟩ := hp
      exact AspMembership.Published.settings ⟨levels, hrep⟩ hrep.admin_isSome _
  | updateAdmin newAdmin =>
      obtain ⟨-, rfl⟩ := AspMembership.updateAdmin_ok h
      exact hp.settings rfl _

theorem NonMembershipCall.published {n n' : AspStorage} {authorised : Bool}
    {call : NonMembershipCall} (hp : AspNonMembership.Published n)
    (h : (call.function authorised).run n = .ok () n') : AspNonMembership.Published n' := by
  cases call with
  | insertLeaf key value => exact hp.call (c := .insertLeaf authorised key value) h
  | deleteLeaf key => exact hp.call (c := .deleteLeaf authorised key) h
  | updateAdmin newAdmin => exact hp.updateAdmin h

/-- The ASP contracts after an action: unchanged, called, or new. -/
theorem step_membership_cases {act : Action κ} {a : Address} {m' : MembershipStorage}
    (h : (D.step st act).membership a = some m') :
    st.membership a = some m' ∨
    (∃ signed call m, act = .membership a signed call ∧ st.membership a = some m ∧
      (call.function (m.admin.any (D.signers signed))).run m = .ok () m') ∨
    ∃ admin levels, act = .deployMembership a admin levels ∧ st.membership a = none ∧
      st.nonMembership a = none ∧
      (AspMembership.constructor admin levels).run {} = .ok () m' := by
  cases act with
  | pool signed foreign call =>
      refine .inl ?_
      cases hrun : ((D.poolCall st signed foreign call).function D.host).run st.pool with
      | ok u s' => rwa [step_of_ok hrun] at h
      | error e s' => rwa [step_of_error hrun] at h
  | membership contract signed call =>
      obtain hm | ⟨rfl, m, hm, hrun⟩ := invokeAt_cases h
      · exact .inl hm
      · exact .inr (.inl ⟨signed, call, m, rfl, hm, hrun⟩)
  | nonMembership contract signed call => exact .inl h
  | deployMembership contract admin levels =>
      obtain hm | ⟨rfl, hfree, hrun⟩ := deployAt_cases h
      · exact .inl hm
      · simp only [Bool.and_eq_true, Option.isNone_iff_eq_none] at hfree
        exact .inr (.inr ⟨admin, levels, rfl, hfree.1, hfree.2, hrun⟩)
  | deployNonMembership contract admin => exact .inl h
  | token signed call => exact .inl h

theorem step_nonMembership_cases {act : Action κ} {a : Address} {n' : AspStorage}
    (h : (D.step st act).nonMembership a = some n') :
    st.nonMembership a = some n' ∨
    (∃ signed call n, act = .nonMembership a signed call ∧ st.nonMembership a = some n ∧
      (call.function (n.admin.any (D.signers signed))).run n = .ok () n') ∨
    ∃ admin, act = .deployNonMembership a admin ∧ st.membership a = none ∧
      st.nonMembership a = none ∧
      (AspNonMembership.constructor admin).run {} = .ok () n' := by
  cases act with
  | pool signed foreign call =>
      refine .inl ?_
      cases hrun : ((D.poolCall st signed foreign call).function D.host).run st.pool with
      | ok u s' => rwa [step_of_ok hrun] at h
      | error e s' => rwa [step_of_error hrun] at h
  | membership contract signed call => exact .inl h
  | nonMembership contract signed call =>
      obtain hn | ⟨rfl, n, hn, hrun⟩ := invokeAt_cases h
      · exact .inl hn
      · exact .inr (.inl ⟨signed, call, n, rfl, hn, hrun⟩)
  | deployMembership contract admin levels => exact .inl h
  | deployNonMembership contract admin =>
      obtain hn | ⟨rfl, hfree, hrun⟩ := deployAt_cases h
      · exact .inl hn
      · simp only [Bool.and_eq_true, Option.isNone_iff_eq_none] at hfree
        exact .inr (.inr ⟨admin, rfl, hfree.1, hfree.2, hrun⟩)
  | token signed call => exact .inl h

theorem step_membership_isSome {act : Action κ} {a : Address} (h : (st.membership a).isSome) :
    ((D.step st act).membership a).isSome := by
  cases act with
  | pool signed foreign call =>
      cases hrun : ((D.poolCall st signed foreign call).function D.host).run st.pool with
      | ok u s' => rwa [step_of_ok hrun]
      | error e s' => rwa [step_of_error hrun]
  | membership contract signed call => exact invokeAt_isSome h
  | nonMembership contract signed call => exact h
  | deployMembership contract admin levels => exact deployAt_isSome h
  | deployNonMembership contract admin => exact h
  | token signed call => exact h

theorem step_nonMembership_isSome {act : Action κ} {a : Address}
    (h : (st.nonMembership a).isSome) : ((D.step st act).nonMembership a).isSome := by
  cases act with
  | pool signed foreign call =>
      cases hrun : ((D.poolCall st signed foreign call).function D.host).run st.pool with
      | ok u s' => rwa [step_of_ok hrun]
      | error e s' => rwa [step_of_error hrun]
  | membership contract signed call => exact h
  | nonMembership contract signed call => exact invokeAt_isSome h
  | deployMembership contract admin levels => exact h
  | deployNonMembership contract admin => exact deployAt_isSome h
  | token signed call => exact h

theorem Contracts.step (h : Contracts st) (act : Action κ) : Contracts (D.step st act) where
  membership := by
    intro a m' hm'
    obtain hm | ⟨signed, call, m, -, hm, hrun⟩ | ⟨admin, levels, -, -, -, hrun⟩ :=
      step_membership_cases hm'
    · exact h.membership hm
    · exact MembershipCall.published (h.membership hm) hrun
    · exact AspMembership.constructor_published hrun
  nonMembership := by
    intro a n' hn'
    obtain hn | ⟨signed, call, n, -, hn, hrun⟩ | ⟨admin, -, -, -, hrun⟩ :=
      step_nonMembership_cases hn'
    · exact h.nonMembership hn
    · exact NonMembershipCall.published (h.nonMembership hn) hrun
    · cases hrun
      exact AspNonMembership.deployed_published admin
  disjoint := by
    intro a
    by_contra hboth
    obtain ⟨hm, hn⟩ := not_or.mp hboth
    obtain ⟨m', hm'⟩ := Option.ne_none_iff_exists'.mp hm
    obtain ⟨n', hn'⟩ := Option.ne_none_iff_exists'.mp hn
    have hone : ∀ {m n}, st.membership a = some m → st.nonMembership a ≠ some n := by
      intro m n hm hn
      rcases h.disjoint a with hnone | hnone
      · rw [hm] at hnone
        cases hnone
      · rw [hn] at hnone
        cases hnone
    obtain hm | ⟨signed, call, m, rfl, hm, -⟩ | ⟨admin, levels, rfl, -, hfree, -⟩ :=
      step_membership_cases hm'
    · obtain hn | ⟨signed, call, n, -, hn, -⟩ | ⟨admin, -, hfree, -, -⟩ :=
        step_nonMembership_cases hn'
      · exact hone hm hn
      · exact hone hm hn
      · rw [hm] at hfree
        cases hfree
    · exact hone hm hn'
    · have hn : st.nonMembership a = some n' := hn'
      rw [hn] at hfree
      cases hfree

theorem Contracts.run (h : Contracts st) (acts : List (Action κ)) :
    Contracts (D.run st acts) := by
  induction acts generalizing st with
  | nil => exact h
  | cons act acts ih => exact ih (h.step act)

theorem Constructed.contracts {levels : Nat} {verifier : Address}
    (h : D.Constructed levels verifier st) : Contracts st where
  membership hm := by rw [h.membership] at hm; cases hm
  nonMembership hn := by rw [h.nonMembership] at hn; cases hn
  disjoint a := .inl (h.membership a)

end Step

end Deployment

end PrivatePayments.OnChain
