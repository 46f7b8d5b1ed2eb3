import PrivatePayments.TxPlanner.PlanChain
import PrivatePayments.TxPlanner.SessionSound

/-!
# PrivatePayments.TxPlanner.SessionFinal

When a spend that is set up can be finished (`accepted_spend_finishes_iff`). `setup` checks that
a withdrawal has a recipient and that the wallet has a plan; whether the amount is an external
amount is only found out by the last step, after the merges before it.
-/

namespace PrivatePayments.TxPlanner

open Prover (checkedNeg exists_of_bind_ok)
open TopSums

/-! ## One step -/

/-- The amounts that a withdrawal can take out. -/
theorem bind_checkedNeg_eq_none_iff {amount : NoteAmount} :
    (extAmountTryFrom amount).bind checkedNeg = none ↔ ¬(amount.val : Int) ≤ 2 ^ 127 - 1 := by
  constructor
  · intro h hle
    obtain ⟨ext, hext, hval⟩ := extAmountTryFrom_eq hle
    obtain ⟨neg, hneg, -⟩ := checkedNeg_eq (show 0 ≤ ext.val by omega)
    rw [hext, Option.bind_some, hneg] at h
    cases h
  · intro h
    have hnone : extAmountTryFrom amount = none := dif_neg (by omega)
    rw [hnone, Option.bind_none]

theorem materialize_consolidate {step : PlannedStep} {output : NoteAmount} (pool : String)
    (target : SpendTarget) (inputs : List SpendableNote)
    (h : step.action = .consolidate output) :
    ∃ transact, materializeStep step pool target inputs = .ok transact := by
  simp [materializeStep, h]

theorem materialize_final_fits {step : PlannedStep} {amount : NoteAmount}
    {change : Option NoteAmount} {target : SpendTarget} (pool : String)
    (inputs : List SpendableNote) (h : step.action = .final (amount, change))
    (hfits : FitsTarget target amount) :
    ∃ transact, materializeStep step pool target inputs = .ok transact := by
  cases target with
  | transfer _ _ => simp [materializeStep, h]
  | withdraw recipient =>
      obtain ⟨ext, hext, hval⟩ := extAmountTryFrom_eq (hfits recipient rfl)
      obtain ⟨neg, hneg, -⟩ := checkedNeg_eq (show 0 ≤ ext.val by omega)
      rw [materializeStep, h]
      dsimp only
      rw [hext]
      simp only [okOr, bind, Except.bind, hneg]
      exact ⟨_, rfl⟩

/-! ## The steps of a session -/

/-- The sessions that come after `session`, whatever the merged notes are called. -/
inductive Reachable (session : SpendSession) : SpendSession → Prop
  | start : Reachable session session
  | complete {now next : SpendSession} (h : Reachable session now) (oc : Fr × Fr)
      (hnext : now.completeStep oc = .ok next) : Reachable session next

theorem Reachable.frozen {session later : SpendSession} (h : Reachable session later) :
    later.steps = session.steps ∧ later.poolAddress = session.poolAddress ∧
      later.target = session.target := by
  induction h with
  | start => exact ⟨rfl, rfl, rfl⟩
  | complete _ oc hnext ih =>
      rw [SpendSession.completeStep] at hnext
      split at hnext
      · cases hnext
      · obtain ⟨_, _, hnext⟩ := exists_of_bind_ok hnext
        cases hnext
        exact ih

/-- A session whose steps can all be materialized never meets the overflow. -/
theorem step_ne_overflow {session : SpendSession}
    (h : ∀ step ∈ session.steps, ∀ inputs, ∃ transact,
      materializeStep step session.poolAddress session.target inputs = .ok transact) :
    session.step ≠ .error .extAmountOverflow := by
  intro hstep
  rw [SpendSession.step] at hstep
  split at hstep
  · cases hstep
  case _ step hget =>
    cases hresolved : step.resolve session.wallet with
    | error e =>
        rw [hresolved] at hstep
        cases hstep
    | ok resolved =>
        obtain ⟨transact, hok⟩ := h step (List.mem_of_getElem? hget) resolved
        rw [hresolved] at hstep
        simp only [liftPlan, bind, Except.bind, hok] at hstep
        cases hstep

theorem setup_ok_iff {sort : UnstableSort} {wallet : List SpendableNote} {amount : NoteAmount}
    {pool : String} {target : SpendTarget} {session : SpendSession} :
    SpendSession.setup sort wallet amount pool target = .ok session ↔
      validateTarget target = .ok () ∧ ∃ txPlan, plan sort amount wallet = .ok txPlan ∧
        session = ⟨txPlan.steps, wallet, pool, target, 0⟩ := by
  rw [SpendSession.setup]
  cases hvalid : validateTarget target with
  | error e => simp [bind, Except.bind]
  | ok _ =>
      cases hplan : plan sort amount wallet with
      | error e => simp [bind, Except.bind, liftPlan]
      | ok txPlan => simp [bind, Except.bind, liftPlan, pure, Except.pure, eq_comm]

/-- Every planned step merges, or pays the amount of the plan. -/
theorem action_of_mem {sort : UnstableSort} {amount : NoteAmount} {wallet : List SpendableNote}
    {txPlan : TransactionPlan} (h : plan sort amount wallet = .ok txPlan) {step : PlannedStep}
    (hstep : step ∈ txPlan.steps) :
    (∃ output, step.action = .consolidate output) ∨ ∃ change, step.action = .final (amount, change) := by
  obtain ⟨_, change, _, _, _, _, _, _, hchain, -⟩ := plan_balanced h
  obtain ⟨last, hlast, haction, -⟩ := hchain.final
  rw [← List.dropLast_append_getLast? last hlast] at hstep
  rcases List.mem_append.mp hstep with hstep | hstep
  · obtain ⟨output, haction, -⟩ := hchain.merges step hstep
    exact .inl ⟨output, haction⟩
  · rw [List.mem_singleton.mp hstep]
    exact .inr ⟨change, haction⟩

/-- **An accepted spend can be finished** exactly when it has no plan, no recipient, or an amount
that its target can take: every step of a session that is set up can be materialized, no step
that is reached meets the overflow, and a withdrawal of an amount that cannot be negated is
rejected. -/
theorem accepted_spend_finishes_iff {sort : UnstableSort} {wallet : List SpendableNote}
    {amount : NoteAmount} {pool : String} {target : SpendTarget} :
    ((∀ session, SpendSession.setup sort wallet amount pool target = .ok session →
        (∀ step ∈ session.steps, ∀ inputs, ∃ transact,
          materializeStep step session.poolAddress session.target inputs = .ok transact) ∧
        ∀ later, Reachable session later → later.step ≠ .error .extAmountOverflow) ∧
      (∀ recipient, target = .withdraw recipient →
        (extAmountTryFrom amount).bind checkedNeg = none →
          ∃ e, SpendSession.setup sort wallet amount pool target = .error e)) ↔
    (validateTarget target = .ok () → (∃ txPlan, plan sort amount wallet = .ok txPlan) →
      ∀ recipient, target = .withdraw recipient → (amount.val : Int) ≤ 2 ^ 127 - 1) := by
  constructor
  · rintro ⟨-, hrejected⟩ hvalid ⟨txPlan, hplan⟩ recipient htarget
    by_contra hlarge
    obtain ⟨e, he⟩ := hrejected recipient htarget (bind_checkedNeg_eq_none_iff.mpr hlarge)
    rw [setup_ok_iff.mpr ⟨hvalid, txPlan, hplan, rfl⟩] at he
    cases he
  · intro hfits
    constructor
    · intro session hsetup
      obtain ⟨hvalid, txPlan, hplan, rfl⟩ := setup_ok_iff.mp hsetup
      have hsteps : ∀ step ∈ txPlan.steps, ∀ inputs, ∃ transact,
          materializeStep step pool target inputs = .ok transact := by
        intro step hstep inputs
        rcases action_of_mem hplan hstep with ⟨output, haction⟩ | ⟨change, haction⟩
        · exact materialize_consolidate pool target inputs haction
        · exact materialize_final_fits pool inputs haction (hfits hvalid ⟨txPlan, hplan⟩)
      refine ⟨hsteps, fun later hlater => ?_⟩
      obtain ⟨hfrozen, hpool, htarget⟩ := hlater.frozen
      exact step_ne_overflow (by rw [hfrozen, hpool, htarget]; exact hsteps)
    · intro recipient htarget hnone
      cases hsetup : SpendSession.setup sort wallet amount pool target with
      | error e => exact ⟨e, rfl⟩
      | ok session =>
          obtain ⟨hvalid, txPlan, hplan, -⟩ := setup_ok_iff.mp hsetup
          exact absurd (hfits hvalid ⟨txPlan, hplan⟩ recipient htarget)
            (bind_checkedNeg_eq_none_iff.mp hnone)

/-- Three notes of `2 ^ 126` are accepted for a withdrawal of all of them; the merge is handed
out, and the step after it overflows. -/
theorem accepted_spend_overflows :
    ∃ session transact next,
      SpendSession.setup insertionSort
        [⟨101, ⟨2 ^ 126, by decide⟩⟩, ⟨102, ⟨2 ^ 126, by decide⟩⟩, ⟨103, ⟨2 ^ 126, by decide⟩⟩]
        ⟨3 * 2 ^ 126, by decide⟩ "POOL" (.withdraw "G") = .ok session ∧
      session.step = .ok (some transact) ∧ session.completeStep (901, 902) = .ok next ∧
      next.step = .error .extAmountOverflow :=
  ⟨_, _, _, rfl, rfl, rfl, rfl⟩

end PrivatePayments.TxPlanner
