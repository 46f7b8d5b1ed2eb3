import PrivatePayments.TxPlanner.Plan

/-!
# PrivatePayments.TxPlanner.Session

A spend session (`tx-planner/src/execute/mod.rs`) steps through a plan and keeps the wallet: each
step is resolved against the notes that are left, and the merged note of a completed step joins
them. `run` is the loop of `execute_plan` (`platforms/web/src/client/transact.rs`) around it.
-/

namespace PrivatePayments.TxPlanner

open Prover (checkedNeg)

/-! ## Targets and calls -/

/-- `SpendTarget` -/
inductive SpendTarget where
  | transfer (recipientNote recipientEnc : Bytes32)
  | withdraw (recipient : String)
  deriving DecidableEq

/-- `Transact` -/
structure Transact where
  inputCommitments : List Fr
  outputAmounts : NoteAmount × NoteAmount
  extAmount : ExtAmount
  extRecipient : String
  outRecipientNotePubkeys : Option Bytes32 × Option Bytes32
  outRecipientEncryptionPubkeys : Option Bytes32 × Option Bytes32
  deriving DecidableEq

/-- `SpendSessionError` -/
inductive SpendSessionError where
  | plan (e : PlanError)
  | complete
  | extAmountOverflow
  | missingWithdrawRecipient
  deriving DecidableEq

/-- `#[from] PlanError` -/
def liftPlan {α : Type} : Except PlanError α → Except SpendSessionError α
  | .ok a => .ok a
  | .error e => .error (.plan e)

/-- `ExtAmount::ZERO` -/
def extAmountZero : ExtAmount := ⟨0, by decide⟩

/-- `TryFrom<NoteAmount> for ExtAmount` -/
def extAmountTryFrom (value : NoteAmount) : Option ExtAmount :=
  if h : (value.val : Int) < 2 ^ 127 then some ⟨value.val, by omega, h⟩ else none

/-! ## The session -/

/-- `SpendSession` -/
structure SpendSession where
  steps : List PlannedStep
  wallet : List SpendableNote
  poolAddress : String
  target : SpendTarget
  stepIndex : Nat

/-- `validate_target` -/
def validateTarget : SpendTarget → Except SpendSessionError Unit
  | .withdraw recipient => if recipient = "" then .error .missingWithdrawRecipient else .ok ()
  | .transfer _ _ => .ok ()

/-- `materialize_step` -/
def materializeStep (step : PlannedStep) (poolAddress : String) (target : SpendTarget)
    (resolvedInputs : List SpendableNote) : Except SpendSessionError Transact :=
  let inputCommitments := resolvedInputs.map (·.commitment)
  match step.action with
  | .consolidate output =>
      .ok {
        inputCommitments
        outputAmounts := (output, 0)
        extAmount := extAmountZero
        extRecipient := poolAddress
        outRecipientNotePubkeys := (none, none)
        outRecipientEncryptionPubkeys := (none, none) }
  | .final outputs =>
      match target with
      | .transfer recipientNote recipientEnc =>
          .ok {
            inputCommitments
            outputAmounts := (outputs.1, outputs.2.getD 0)
            extAmount := extAmountZero
            extRecipient := poolAddress
            outRecipientNotePubkeys :=
              if outputs.2.isSome then (some recipientNote, none)
              else (some recipientNote, some recipientNote)
            outRecipientEncryptionPubkeys :=
              if outputs.2.isSome then (some recipientEnc, none)
              else (some recipientEnc, some recipientEnc) }
      | .withdraw recipient => do
          let amount ← okOr .extAmountOverflow (extAmountTryFrom outputs.1)
          let extAmount ← okOr .extAmountOverflow (checkedNeg amount)
          return {
            inputCommitments
            outputAmounts := (outputs.2.getD 0, 0)
            extAmount
            extRecipient := recipient
            outRecipientNotePubkeys := (none, none)
            outRecipientEncryptionPubkeys := (none, none) }

/-- `remove_spent` -/
def removeSpent (wallet spent : List SpendableNote) : List SpendableNote :=
  spent.foldl (fun wallet note => wallet.filter fun n => n.commitment ≠ note.commitment) wallet

namespace SpendSession

/-- `SpendSession::setup` -/
def setup (sort : UnstableSort) (wallet : List SpendableNote) (amount : NoteAmount)
    (poolAddress : String) (target : SpendTarget) : Except SpendSessionError SpendSession := do
  validateTarget target
  let txPlan ← liftPlan (plan sort amount wallet)
  return { steps := txPlan.steps, wallet, poolAddress, target, stepIndex := 0 }

/-- `SpendSession::is_done` -/
def isDone (session : SpendSession) : Bool := session.steps.length ≤ session.stepIndex

/-- `SpendSession::step` -/
def step (session : SpendSession) : Except SpendSessionError (Option Transact) :=
  match session.steps[session.stepIndex]? with
  | none => .ok none
  | some step => do
      let resolved ← liftPlan (step.resolve session.wallet)
      return some (← materializeStep step session.poolAddress session.target resolved)

/-- `SpendSession::complete_step` -/
def completeStep (outputCommitments : Fr × Fr) (session : SpendSession) :
    Except SpendSessionError SpendSession :=
  match session.steps[session.stepIndex]? with
  | none => .error .complete
  | some step => do
      let spent ← liftPlan (step.resolve session.wallet)
      let left := removeSpent session.wallet spent
      let wallet := match step.action with
        | .consolidate output => left ++ [{ commitment := outputCommitments.1, amount := output }]
        | .final _ => left
      return { session with wallet, stepIndex := session.stepIndex + 1 }

/-- The loop of `execute_plan`, for so many rounds at most, where the call of a step gets the
output commitments `outputs` gives for it: each call with the wallet it was made for, and the
session at the end. -/
def run (outputs : Nat → Fr × Fr) : Nat → SpendSession →
    Except SpendSessionError (List (List SpendableNote × Transact) × SpendSession)
  | 0, session => .ok ([], session)
  | rounds + 1, session => do
      match ← session.step with
      | none => return ([], session)
      | some transact =>
          let next ← session.completeStep (outputs session.stepIndex)
          let (calls, last) ← run outputs rounds next
          return ((session.wallet, transact) :: calls, last)

end SpendSession

end PrivatePayments.TxPlanner
