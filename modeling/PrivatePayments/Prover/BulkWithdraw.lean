import PrivatePayments.TxPlanner.Combination

/-!
# PrivatePayments.Prover.BulkWithdraw

Withdrawals and sessions of them (`withdraw` and `BulkWithdrawSession` in `prover/src/flows.rs`).
A session pays a list of recipients one by one, each from the change note of the payment before.

The random blindings are arguments. A call that fails says whether it returns an error or
panics.
-/

namespace PrivatePayments.Prover

open Stellar (AspNonMembershipProof)
open TxPlanner (checkedSub)

/-! ## Withdraw -/

/-- `WithdrawParams` -/
structure WithdrawParams where
  privKey : Bytes32
  encryptionPubkey : Bytes32
  poolRoot : Fr
  withdrawRecipient : String
  withdrawAmount : ExtAmount
  inputs : List TransactInputNote
  outputs : Option (List TransactOutput)
  membershipProof : AspMembershipProof
  nonMembershipProof : AspNonMembershipProof
  treeDepth : UInt32
  smtDepth : UInt32

/-- What `withdraw` passes to `transact`. -/
def withdrawTransactParams (changeBlinding dummyBlinding : Fr) (p : WithdrawParams) :
    Except String TransactParams := do
  let inputTotal ← sumNoteAmounts "overflow summing input amounts" (p.inputs.map (·.amount))
  let withdrawNoteAmount ← noteAmountTryFrom p.withdrawAmount
  if inputTotal < withdrawNoteAmount then
    .error (s!"insufficient input amount: have {inputTotal.val}, " ++
      s!"need {p.withdrawAmount.val}")
  else do
    let change ← okOr "insufficient input amount" (checkedSub inputTotal withdrawNoteAmount)
    let extAmount ← okOr "withdraw amount overflow" (checkedNeg p.withdrawAmount)
    return {
      privKey := p.privKey
      encryptionPubkey := p.encryptionPubkey
      poolRoot := p.poolRoot
      extRecipient := p.withdrawRecipient
      extAmount := extAmount
      inputs := p.inputs
      outputs := p.outputs.getD [
        { amount := change
          blinding := changeBlinding
          recipientNotePubkey := none
          recipientEncryptionPubkey := none },
        { amount := 0
          blinding := dummyBlinding
          recipientNotePubkey := none
          recipientEncryptionPubkey := none }]
      membershipProof := p.membershipProof
      nonMembershipProof := p.nonMembershipProof
      treeDepth := p.treeDepth
      smtDepth := p.smtDepth }

/-- `withdraw` -/
def withdraw (box : NoteBox) (random : TransactRandomness) (changeBlinding dummyBlinding : Fr)
    (hashExtData : ExtData → Except String Bytes32) (p : WithdrawParams) :
    Except String TransactArtifacts := do
  let params ← withdrawTransactParams changeBlinding dummyBlinding p
  transact box random hashExtData params

/-! ## Sessions -/

/-- `BulkWithdrawRecipient` -/
structure BulkWithdrawRecipient where
  recipientAddress : String
  amount : ExtAmount

/-- `StepMerkleWitness` -/
structure StepMerkleWitness where
  poolRoot : Fr
  merklePathElements : List Fr
  merklePathIndices : Fr

/-- `BulkWithdrawSession` -/
structure BulkWithdrawSession where
  privKey : Bytes32
  encryptionPubkey : Bytes32
  membershipProof : AspMembershipProof
  nonMembershipProof : AspNonMembershipProof
  treeDepth : UInt32
  smtDepth : UInt32
  recipients : List BulkWithdrawRecipient
  changeBlindings : List Fr
  currentStep : Nat
  currentNoteBlinding : Fr
  currentNoteAmount : NoteAmount

/-- How a call fails. -/
inductive Failure where
  | error (message : String)
  | panic (message : String)
  deriving DecidableEq

/-- `?` on a result -/
def orError {α : Type} (message : String) : Except String α → Except Failure α
  | .ok a => .ok a
  | .error _ => .error (.error message)

/-- `ok_or_else` -/
def someOrError {α : Type} (message : String) : Option α → Except Failure α
  | some a => .ok a
  | none => .error (.error message)

/-- `expect`, and indexing -/
def orPanic {α : Type} (message : String) : Option α → Except Failure α
  | some a => .ok a
  | none => .error (.panic message)

/-- The loop of `new`: what is left after the recipients from number `i` on. -/
def checkPayouts : Nat → NoteAmount → List BulkWithdrawRecipient → Except Failure NoteAmount
  | _, running, [] => .ok running
  | i, running, r :: recipients => do
      let payout ← orError s!"recipient[{i}].amount must be positive and fit in NoteAmount"
        (noteAmountTryFrom r.amount)
      let running ← someOrError
        s!"sum of recipient amounts exceeds initial note balance at recipient[{i}]"
        (checkedSub running payout)
      checkPayouts (i + 1) running recipients

namespace BulkWithdrawSession

/-- `BulkWithdrawSession::new`; `blinding` are the random blindings. -/
def new (privKey encryptionPubkey : Bytes32) (initialNoteBlinding : Fr)
    (initialNoteAmount : NoteAmount) (recipients : List BulkWithdrawRecipient)
    (membershipProof : AspMembershipProof) (nonMembershipProof : AspNonMembershipProof)
    (treeDepth smtDepth : UInt32) (blinding : Nat → Fr) : Except Failure BulkWithdrawSession :=
  if recipients = [] then
    .error (.error "BulkWithdrawSession requires at least one recipient")
  else do
    let _ ← checkPayouts 0 initialNoteAmount recipients
    return {
      privKey
      encryptionPubkey
      membershipProof
      nonMembershipProof
      treeDepth
      smtDepth
      recipients
      changeBlindings := (List.range recipients.length).map blinding
      currentStep := 0
      currentNoteBlinding := initialNoteBlinding
      currentNoteAmount := initialNoteAmount }

variable (session : BulkWithdrawSession)

/-- `is_done` -/
def isDone : Bool := session.recipients.length ≤ session.currentStep

/-- `build_step` -/
def buildStep (witness : StepMerkleWitness) (dummyBlinding : Fr) :
    Except Failure WithdrawParams :=
  if session.isDone then .error (.error "BulkWithdrawSession is already complete")
  else do
    let step := session.currentStep
    let recipient ← orPanic "index out of bounds" session.recipients[step]?
    let payoutNote ← orError s!"step {step}: withdraw_amount must be positive NoteAmount"
      (noteAmountTryFrom recipient.amount)
    let changeAmount ← someOrError
      (s!"step {step}: insufficient change note balance " ++
        s!"({session.currentNoteAmount.val} < {payoutNote.val})")
      (checkedSub session.currentNoteAmount payoutNote)
    let changeBlinding ← orPanic "index out of bounds" session.changeBlindings[step]?
    return {
      privKey := session.privKey
      encryptionPubkey := session.encryptionPubkey
      poolRoot := witness.poolRoot
      withdrawRecipient := recipient.recipientAddress
      withdrawAmount := recipient.amount
      inputs := [
        { amount := session.currentNoteAmount
          blinding := session.currentNoteBlinding
          merklePathElements := witness.merklePathElements
          merklePathIndices := witness.merklePathIndices }]
      outputs := some [
        { amount := changeAmount
          blinding := changeBlinding
          recipientNotePubkey := none
          recipientEncryptionPubkey := none },
        { amount := 0
          blinding := dummyBlinding
          recipientNotePubkey := none
          recipientEncryptionPubkey := none }]
      membershipProof := session.membershipProof
      nonMembershipProof := session.nonMembershipProof
      treeDepth := session.treeDepth
      smtDepth := session.smtDepth }

/-- `advance` -/
def advance : Except Failure BulkWithdrawSession :=
  if session.isDone then .error (.error "BulkWithdrawSession is already complete")
  else do
    let step := session.currentStep
    let recipient ← orPanic "index out of bounds" session.recipients[step]?
    let payoutNote ← orPanic "validated in new()" (noteAmountTryFrom recipient.amount).toOption
    let newAmount ← orPanic "validated in new()"
      (checkedSub session.currentNoteAmount payoutNote)
    let changeBlinding ← orPanic "index out of bounds" session.changeBlindings[step]?
    return { session with
      currentNoteBlinding := changeBlinding
      currentNoteAmount := newAmount
      currentStep := session.currentStep + 1 }

end BulkWithdrawSession

/-- A call on a session. -/
inductive SessionCall where
  | buildStep (witness : StepMerkleWitness) (dummyBlinding : Fr)
  | advance

/-- The session after a call; a failed call leaves it as it is. -/
def SessionCall.apply (session : BulkWithdrawSession) : SessionCall → BulkWithdrawSession
  | .buildStep _ _ => session
  | .advance =>
      match session.advance with
      | .ok next => next
      | .error _ => session

/-- The session after some calls. -/
def BulkWithdrawSession.after (session : BulkWithdrawSession) (calls : List SessionCall) :
    BulkWithdrawSession :=
  calls.foldl SessionCall.apply session

end PrivatePayments.Prover
