import PrivatePayments.Prover.BulkWithdraw
import PrivatePayments.TxPlanner.CombinationSound
import Mathlib.Data.List.Induction

/-!
# PrivatePayments.Prover.BulkWithdrawSound

A bulk withdrawal session always runs to the end (`bulkWithdraw_runs`).

`new` subtracts all payments once; `build_step` and `advance` subtract them again, one by one.
`Reached` is what ties them together: the note of a step is worth what the payments before it
have left over, and its blinding is the change blinding of the step before.
-/

namespace PrivatePayments.Prover

open Stellar (AspNonMembershipProof)
open TxPlanner (checkedSub checkedSub_some checkedSub_of_le)

/-- The sum of the payments to some recipients. -/
def payouts (recipients : List BulkWithdrawRecipient) : Int :=
  (recipients.map (·.amount.val)).sum

@[simp] theorem payouts_nil : payouts [] = 0 := rfl

@[simp] theorem payouts_cons (r : BulkWithdrawRecipient) (recipients : List BulkWithdrawRecipient) :
    payouts (r :: recipients) = r.amount.val + payouts recipients := by
  simp [payouts]

@[simp] theorem payouts_append (first second : List BulkWithdrawRecipient) :
    payouts (first ++ second) = payouts first + payouts second := by
  simp [payouts]

theorem payouts_nonneg {recipients : List BulkWithdrawRecipient}
    (h : ∀ r ∈ recipients, 0 ≤ r.amount.val) : 0 ≤ payouts recipients := by
  induction recipients with
  | nil => simp
  | cons r recipients ih =>
      obtain ⟨hr, hrest⟩ := List.forall_mem_cons.mp h
      have := ih hrest
      rw [payouts_cons]
      omega

/-! ## Amounts -/

theorem noteAmountTryFrom_of_nonneg {value : ExtAmount} (h : 0 ≤ value.val) :
    ∃ amount, noteAmountTryFrom value = .ok amount ∧ (amount.val : Int) = value.val :=
  ⟨_, dif_pos h, Int.toNat_of_nonneg h⟩

theorem checkedNeg_of_nonneg {value : ExtAmount} (h : 0 ≤ value.val) :
    ∃ negated, checkedNeg value = some negated ∧ negated.val = -value.val := by
  have hlt : -value.val < 2 ^ 127 := by omega
  exact ⟨_, dif_pos hlt, rfl⟩

theorem orError_ok {α : Type} {message : String} {x : Except String α} {a : α}
    (h : orError message x = .ok a) : x = .ok a := by
  cases x with
  | error e => cases h
  | ok b =>
      cases h
      rfl

theorem someOrError_ok {α : Type} {message : String} {x : Option α} {a : α}
    (h : someOrError message x = .ok a) : x = some a := by
  cases x with
  | none => cases h
  | some b =>
      cases h
      rfl

/-- Taking a payment out of a note that covers it. -/
theorem pay_of_le (amount : NoteAmount) {value : ExtAmount} (hpos : 0 ≤ value.val)
    (hle : value.val ≤ amount.val) :
    ∃ payout change, noteAmountTryFrom value = .ok payout ∧
      checkedSub amount payout = some change ∧ (payout.val : Int) = value.val ∧
      (change.val : Int) = amount.val - value.val := by
  obtain ⟨payout, hpayout, hval⟩ := noteAmountTryFrom_of_nonneg hpos
  have hcovered : payout.val ≤ amount.val := by omega
  obtain ⟨change, hchange⟩ := checkedSub_of_le (show payout ≤ amount from hcovered)
  refine ⟨payout, change, hpayout, hchange, hval, ?_⟩
  have hsub := checkedSub_some hchange
  omega

theorem checkedAdd_of_val {a b c : NoteAmount} (h : a.val + b.val = c.val) :
    checkedAdd a b = some c := by
  have hlt : a.val + b.val < u128Size := h ▸ c.isLt
  rw [checkedAdd, dif_pos hlt]
  exact congrArg some (Fin.ext h)

/-- A balanced transaction passes the balance test. -/
theorem isBalanced_of_eq (extAmount : ExtAmount) (inputsSum outputsSum : NoteAmount)
    (h : (inputsSum.val : Int) + extAmount.val = outputsSum.val)
    (hmin : -2 ^ 127 < extAmount.val) : isBalanced extAmount inputsSum outputsSum = .ok true := by
  unfold isBalanced
  by_cases hpos : 0 ≤ extAmount.val
  · obtain ⟨paid, hpaid, hval⟩ := noteAmountTryFrom_of_nonneg hpos
    have hadd : checkedAdd inputsSum paid = some outputsSum := checkedAdd_of_val (by omega)
    rw [if_pos hpos]
    simp [hpaid, hadd, okOr, bind, Except.bind]
  · have hneg : -extAmount.val < 2 ^ 127 := by omega
    obtain ⟨negated, hnegated, hnegval⟩ : ∃ negated, checkedNeg extAmount = some negated ∧
        negated.val = -extAmount.val := ⟨_, dif_pos hneg, rfl⟩
    obtain ⟨paid, hpaid, hval⟩ :=
      noteAmountTryFrom_of_nonneg (show 0 ≤ negated.val by omega)
    have hadd : checkedAdd outputsSum paid = some inputsSum := checkedAdd_of_val (by omega)
    rw [if_neg hpos]
    simp [hnegated, hpaid, hadd, okOr, bind, Except.bind]

/-! ## New sessions -/

/-- The check of `new`: every payment is one, and the note covers all of them. -/
theorem checkPayouts_ok {recipients : List BulkWithdrawRecipient} :
    ∀ {i : Nat} {running left : NoteAmount}, checkPayouts i running recipients = .ok left →
      (∀ r ∈ recipients, 0 ≤ r.amount.val) ∧ payouts recipients ≤ running.val := by
  induction recipients with
  | nil =>
      intro i running left _
      exact ⟨List.forall_mem_nil _, by simp⟩
  | cons r recipients ih =>
      intro i running left h
      rw [checkPayouts] at h
      obtain ⟨payout, hpayout, h⟩ := exists_of_bind_ok h
      obtain ⟨rest, hrest, h⟩ := exists_of_bind_ok h
      obtain ⟨hpos, hle⟩ := ih h
      have hval := noteAmountTryFrom_ok (orError_ok hpayout)
      have hsub := checkedSub_some (someOrError_ok hrest)
      refine ⟨List.forall_mem_cons.mpr ⟨by omega, hpos⟩, ?_⟩
      rw [payouts_cons]
      omega

/-- What `new` has checked. -/
structure Ready (start : BulkWithdrawSession) : Prop where
  blindings : start.changeBlindings.length = start.recipients.length
  positive : ∀ r ∈ start.recipients, 0 ≤ r.amount.val
  covered : payouts start.recipients ≤ start.currentNoteAmount.val
  first : start.currentStep = 0

/-- A session `s` that was reached from `start`. -/
structure Reached (start s : BulkWithdrawSession) : Prop where
  recipients : s.recipients = start.recipients
  changeBlindings : s.changeBlindings = start.changeBlindings
  amount : (start.currentNoteAmount.val : Int) =
    s.currentNoteAmount.val + payouts (start.recipients.take s.currentStep)
  -- the first note has its own blinding, and every later one that of a change note
  blinding : s.currentNoteBlinding =
    (start.currentNoteBlinding :: start.changeBlindings).getD s.currentStep 0
  step : s.currentStep ≤ start.recipients.length

theorem Reached.refl {start : BulkWithdrawSession} (h : Ready start) : Reached start start where
  recipients := rfl
  changeBlindings := rfl
  amount := by simp [h.first]
  blinding := by simp [h.first]
  step := by simp [h.first]

section Steps

variable {start s : BulkWithdrawSession}

/-- What the next payment of a session is. -/
structure NextPayment (start s : BulkWithdrawSession) (recipient : BulkWithdrawRecipient)
    (payout change : NoteAmount) (changeBlinding : Fr) : Prop where
  listed : start.recipients[s.currentStep]? = some recipient
  blinded : start.changeBlindings[s.currentStep]? = some changeBlinding
  paid : noteAmountTryFrom recipient.amount = .ok payout
  left : checkedSub s.currentNoteAmount payout = some change
  paid_val : (payout.val : Int) = recipient.amount.val
  left_val : (change.val : Int) = s.currentNoteAmount.val - recipient.amount.val

/-- A session that is not done can pay the next recipient. -/
theorem Reached.nextPayment (hready : Ready start) (h : Reached start s)
    (hdone : s.isDone = false) : ∃ recipient payout change changeBlinding,
      NextPayment start s recipient payout change changeBlinding := by
  have hlt : s.currentStep < start.recipients.length := by
    rw [← h.recipients]
    simpa [BulkWithdrawSession.isDone] using hdone
  have hblinding : s.currentStep < start.changeBlindings.length := hready.blindings ▸ hlt
  have hpos := hready.positive _ (List.getElem_mem hlt)
  -- the payments that are left are covered by the note that is left
  have hsplit := congrArg payouts (List.take_append_drop s.currentStep start.recipients)
  rw [List.drop_eq_getElem_cons hlt, payouts_append, payouts_cons] at hsplit
  have hrest : 0 ≤ payouts (start.recipients.drop (s.currentStep + 1)) :=
    payouts_nonneg fun r hr => hready.positive r (List.drop_subset _ _ hr)
  have hamount := h.amount
  have hcovered := hready.covered
  obtain ⟨payout, change, hpayout, hchange, hval, hleft⟩ :=
    pay_of_le s.currentNoteAmount hpos (by omega)
  exact ⟨_, payout, change, _, List.getElem?_eq_getElem hlt, List.getElem?_eq_getElem hblinding,
    hpayout, hchange, hval, hleft⟩

variable {recipient : BulkWithdrawRecipient} {payout change : NoteAmount} {changeBlinding : Fr}

/-- What `build_step` returns. -/
theorem NextPayment.buildStep (h : Reached start s) (hdone : s.isDone = false)
    (hnext : NextPayment start s recipient payout change changeBlinding)
    (witness : StepMerkleWitness) (dummyBlinding : Fr) :
    s.buildStep witness dummyBlinding = .ok {
      privKey := s.privKey
      encryptionPubkey := s.encryptionPubkey
      poolRoot := witness.poolRoot
      withdrawRecipient := recipient.recipientAddress
      withdrawAmount := recipient.amount
      inputs := [⟨s.currentNoteAmount, s.currentNoteBlinding, witness.merklePathElements,
        witness.merklePathIndices⟩]
      outputs := some [⟨change, changeBlinding, none, none⟩, ⟨0, dummyBlinding, none, none⟩]
      membershipProof := s.membershipProof
      nonMembershipProof := s.nonMembershipProof
      treeDepth := s.treeDepth
      smtDepth := s.smtDepth } := by
  simp [BulkWithdrawSession.buildStep, hdone, h.recipients, h.changeBlindings, hnext.listed,
    hnext.blinded, hnext.paid, hnext.left, orPanic, orError, someOrError, bind, Except.bind,
    pure, Except.pure]

/-- What `advance` returns. -/
theorem NextPayment.advance (h : Reached start s) (hdone : s.isDone = false)
    (hnext : NextPayment start s recipient payout change changeBlinding) :
    s.advance = .ok { s with
      currentNoteBlinding := changeBlinding
      currentNoteAmount := change
      currentStep := s.currentStep + 1 } := by
  simp [BulkWithdrawSession.advance, hdone, h.recipients, h.changeBlindings, hnext.listed,
    hnext.blinded, hnext.paid, hnext.left, orPanic, Except.toOption, bind, Except.bind,
    pure, Except.pure]

/-- **One step.** The session goes on with the change of its payment. -/
theorem Reached.advance (h : Reached start s)
    (hnext : NextPayment start s recipient payout change changeBlinding) :
    Reached start { s with
      currentNoteBlinding := changeBlinding
      currentNoteAmount := change
      currentStep := s.currentStep + 1 } where
  recipients := h.recipients
  changeBlindings := h.changeBlindings
  amount := by
    obtain ⟨hlt, hget⟩ := List.getElem?_eq_some_iff.mp hnext.listed
    have hamount := h.amount
    have hchange := hnext.left_val
    simp only [List.take_succ_eq_append_getElem hlt, payouts_append, payouts_cons, payouts_nil,
      hget]
    omega
  blinding := by
    rw [List.getD_cons_succ, List.getD_eq_getElem?_getD, hnext.blinded]
    rfl
  step := (List.getElem?_eq_some_iff.mp hnext.listed).1

/-- The balance tests of `withdraw` and `transact` pass for one note and its change. -/
theorem withdraw_balanced {p : WithdrawParams} {input : TransactInputNote}
    {change dummy : TransactOutput} (hinputs : p.inputs = [input])
    (houtputs : p.outputs = some [change, dummy]) (hdummy : dummy.amount = 0)
    (hpos : 0 ≤ p.withdrawAmount.val)
    (hsum : (input.amount.val : Int) = p.withdrawAmount.val + change.amount.val)
    (changeBlinding dummyBlinding : Fr) :
    ∃ params, withdrawTransactParams changeBlinding dummyBlinding p = .ok params ∧
      checkBalance params = .ok () := by
  obtain ⟨payout, left, hpayout, hleft, hval, -⟩ :=
    pay_of_le input.amount hpos (by omega)
  obtain ⟨negated, hnegated, hneg⟩ := checkedNeg_of_nonneg hpos
  have hmin : -2 ^ 127 < negated.val := by
    have hlt := p.withdrawAmount.property.2
    omega
  have hinput : checkedAdd 0 input.amount = some input.amount := checkedAdd_of_val (by simp)
  have hchange : checkedAdd 0 change.amount = some change.amount := checkedAdd_of_val (by simp)
  have hboth : checkedAdd change.amount 0 = some change.amount := checkedAdd_of_val (by simp)
  have hnot : ¬input.amount < payout := by
    have hle : payout.val ≤ input.amount.val := by omega
    exact Nat.not_lt.mpr hle
  have hbalanced := isBalanced_of_eq negated input.amount change.amount (by omega) hmin
  let params : TransactParams := {
    privKey := p.privKey
    encryptionPubkey := p.encryptionPubkey
    poolRoot := p.poolRoot
    extRecipient := p.withdrawRecipient
    extAmount := negated
    inputs := p.inputs
    outputs := [change, dummy]
    membershipProof := p.membershipProof
    nonMembershipProof := p.nonMembershipProof
    treeDepth := p.treeDepth
    smtDepth := p.smtDepth }
  refine ⟨params, ?_, ?_⟩
  · simp [withdrawTransactParams, sumNoteAmounts, hinputs, houtputs, hinput, hpayout, hnot, hleft,
      hnegated, okOr, bind, Except.bind, pure, Except.pure, params]
  · simp [checkBalance, sumNoteAmounts, hinputs, hinput, hdummy, hchange, hboth, hbalanced, okOr,
      bind, Except.bind, pure, Except.pure, params]

end Steps

/-! ## Runs -/

section Runs

variable {privKey encryptionPubkey : Bytes32} {initialNoteBlinding : Fr}
  {initialNoteAmount : NoteAmount} {recipients : List BulkWithdrawRecipient}
  {membershipProof : AspMembershipProof} {nonMembershipProof : AspNonMembershipProof}
  {treeDepth smtDepth : UInt32} {blinding : Nat → Fr} {start : BulkWithdrawSession}

/-- What `new` returns. -/
theorem new_ok (hnew : BulkWithdrawSession.new privKey encryptionPubkey initialNoteBlinding
      initialNoteAmount recipients membershipProof nonMembershipProof treeDepth smtDepth
      blinding = .ok start) :
    Ready start ∧ start.recipients = recipients ∧
      start.currentNoteBlinding = initialNoteBlinding ∧
      start.currentNoteAmount = initialNoteAmount := by
  unfold BulkWithdrawSession.new at hnew
  by_cases hempty : recipients = []
  · rw [if_pos hempty] at hnew
    cases hnew
  · rw [if_neg hempty] at hnew
    obtain ⟨left, hleft, hnew⟩ := exists_of_bind_ok hnew
    cases hnew
    obtain ⟨hpos, hcovered⟩ := checkPayouts_ok hleft
    exact ⟨⟨by simp, hpos, hcovered, rfl⟩, rfl, rfl, rfl⟩

/-- `advance` on a session that has paid everybody. -/
theorem advance_done {s : BulkWithdrawSession} (hdone : s.isDone = true) :
    s.advance = .error (.error "BulkWithdrawSession is already complete") := by
  rw [BulkWithdrawSession.advance, if_pos hdone]

/-- Whether a call is `advance`. -/
def SessionCall.isAdvance : SessionCall → Bool
  | .advance => true
  | .buildStep _ _ => false

/-- How often a run calls `advance`. -/
def advances (calls : List SessionCall) : Nat := calls.countP SessionCall.isAdvance

/-- A call keeps a reached session reached, and only `advance` moves it. -/
theorem Reached.apply {s : BulkWithdrawSession} (hready : Ready start) (h : Reached start s)
    (call : SessionCall) : Reached start (call.apply s) ∧
      (call.apply s).currentStep =
        min (s.currentStep + if call.isAdvance then 1 else 0) start.recipients.length := by
  have hstep := h.step
  cases call with
  | buildStep witness dummyBlinding => exact ⟨h, (Nat.min_eq_left hstep).symm⟩
  | advance =>
      cases hdone : s.isDone with
      | true =>
          have hend : start.recipients.length ≤ s.currentStep := by
            simpa [BulkWithdrawSession.isDone, h.recipients] using hdone
          simp only [SessionCall.apply, advance_done hdone, SessionCall.isAdvance]
          exact ⟨h, by simp; omega⟩
      | false =>
          obtain ⟨recipient, payout, change, changeBlinding, hnext⟩ :=
            h.nextPayment hready hdone
          have hreached := h.advance hnext
          have hle := hreached.step
          simp only [SessionCall.apply, hnext.advance h hdone, SessionCall.isAdvance]
          exact ⟨hreached, (Nat.min_eq_left hle).symm⟩

/-- **A whole run.** Every session of a run is reached. -/
theorem after_reached (hready : Ready start) (calls : List SessionCall) :
    Reached start (start.after calls) ∧
      (start.after calls).currentStep = min (advances calls) start.recipients.length := by
  induction calls using List.reverseRecOn with
  | nil => exact ⟨.refl hready, by simp [BulkWithdrawSession.after, advances, hready.first]⟩
  | append_singleton calls call ih =>
      obtain ⟨hreached, hstep⟩ := ih
      have hafter : start.after (calls ++ [call]) = call.apply (start.after calls) := by
        simp [BulkWithdrawSession.after]
      have hcount : advances (calls ++ [call]) =
          advances calls + if call.isAdvance then 1 else 0 := by
        simp [advances, List.countP_singleton]
      rw [hafter, hcount]
      obtain ⟨hnext, hcall⟩ := hreached.apply hready call
      exact ⟨hnext, by omega⟩

/-- What a step pays: its input is the payment and the outputs, and the tests of `withdraw` and
`transact` see that. -/
structure Pays (p : WithdrawParams) (recipient : BulkWithdrawRecipient)
    (input : TransactInputNote) (change dummy : TransactOutput) : Prop where
  withdrawRecipient : p.withdrawRecipient = recipient.recipientAddress
  withdrawAmount : p.withdrawAmount = recipient.amount
  inputs : p.inputs = [input]
  outputs : p.outputs = some [change, dummy]
  conserved : (input.amount.val : Int) =
    p.withdrawAmount.val + (change.amount.val + dummy.amount.val)
  balanced : ∀ changeBlinding dummyBlinding : Fr, ∃ params,
    withdrawTransactParams changeBlinding dummyBlinding p = .ok params ∧
      checkBalance params = .ok ()

/-- The note of a step is the change of the step before. -/
theorem NextPayment.chained {s later : BulkWithdrawSession} {recipient : BulkWithdrawRecipient}
    {payout change : NoteAmount} {changeBlinding : Fr} (h : Reached start s)
    (hnext : NextPayment start s recipient payout change changeBlinding)
    (hlater : Reached start later) (hstep : later.currentStep = s.currentStep + 1) :
    later.currentNoteAmount = change ∧ later.currentNoteBlinding = changeBlinding := by
  have hreached := h.advance hnext
  constructor
  · have hhere := hreached.amount
    have hthere := hlater.amount
    rw [hstep] at hthere
    exact Fin.ext (by dsimp only at hhere; omega)
  · rw [hlater.blinding, hstep]
    exact hreached.blinding.symm

/-- **A session always runs to the end.** Until it is done every step can be built and paid, in
the order of the recipients, each from the change of the step before; and at the end the note
holds what the recipients were not paid. -/
theorem bulkWithdraw_runs (hnew : BulkWithdrawSession.new privKey encryptionPubkey
      initialNoteBlinding initialNoteAmount recipients membershipProof nonMembershipProof treeDepth
      smtDepth blinding = .ok start) (calls : List SessionCall) :
    (start.after calls).currentStep = min (advances calls) recipients.length ∧
    ((start.after calls).currentStep = 0 →
      (start.after calls).currentNoteAmount = initialNoteAmount ∧
      (start.after calls).currentNoteBlinding = initialNoteBlinding) ∧
    ((start.after calls).isDone = false → ∀ (witness : StepMerkleWitness) (dummyBlinding : Fr),
      ∃ next p recipient input change dummy,
        (start.after calls).advance = .ok next ∧
        (start.after calls).buildStep witness dummyBlinding = .ok p ∧
        recipients[(start.after calls).currentStep]? = some recipient ∧
        Pays p recipient input change dummy ∧
        input.amount = (start.after calls).currentNoteAmount ∧
        input.blinding = (start.after calls).currentNoteBlinding ∧
        ∀ later, (start.after later).currentStep = (start.after calls).currentStep + 1 →
          (start.after later).currentNoteAmount = change.amount ∧
          (start.after later).currentNoteBlinding = change.blinding) ∧
    ((start.after calls).isDone = true →
      (initialNoteAmount.val : Int) =
        (start.after calls).currentNoteAmount.val + payouts recipients ∧
      (start.after calls).advance =
        .error (.error "BulkWithdrawSession is already complete")) := by
  obtain ⟨hready, rfl, rfl, rfl⟩ := new_ok hnew
  obtain ⟨hreached, hstep⟩ := after_reached hready calls
  refine ⟨hstep, fun hfirst => ?_, fun hdone witness dummyBlinding => ?_, fun hdone => ?_⟩
  · have hamount := hreached.amount
    have hblinding := hreached.blinding
    rw [hfirst] at hamount hblinding
    exact ⟨Fin.ext (by simp at hamount; omega), hblinding⟩
  · obtain ⟨recipient, payout, change, changeBlinding, hnext⟩ := hreached.nextPayment hready hdone
    have hval := hnext.left_val
    have hpos := hready.positive _ (List.mem_of_getElem? hnext.listed)
    refine ⟨_, _, recipient, _, _, _, hnext.advance hreached hdone,
      hnext.buildStep hreached hdone witness dummyBlinding, hnext.listed,
      ⟨rfl, rfl, rfl, rfl, ?_, ?_⟩, rfl, rfl, ?_⟩
    · simp
      omega
    · exact withdraw_balanced rfl rfl rfl hpos (by dsimp only; omega)
    · intro later hlater
      exact hnext.chained hreached (after_reached hready later).1 hlater
  · have hend : start.recipients.length ≤ (start.after calls).currentStep := by
      simpa [BulkWithdrawSession.isDone, hreached.recipients] using hdone
    have hamount := hreached.amount
    rw [List.take_of_length_le hend] at hamount
    exact ⟨hamount, advance_done hdone⟩

theorem three_fits : -2 ^ 127 ≤ (3 : Int) ∧ (3 : Int) < 2 ^ 127 := by decide

/-- A note of 10 that is to pay 3 and 4. -/
def payTwo : Except Failure BulkWithdrawSession :=
  BulkWithdrawSession.new Bytes32.zero Bytes32.zero 5 10
    [⟨"GA", ⟨3, three_fits⟩⟩, ⟨"GB", ⟨4, by decide⟩⟩] ⟨0, 0, [], 0, 0⟩ ⟨0, 0, 0, true, [], 0⟩ 32 32
    (fun i => Fin.ofNat _ (i + 6))

/-- The second payment goes to the second recipient, and 3 are left after it. -/
theorem bulkWithdraw_runs_two : ∃ start, payTwo = .ok start ∧
    (∃ p recipient input change dummy,
      (start.after [.advance]).buildStep ⟨0, [], 0⟩ 9 = .ok p ∧
        recipient.recipientAddress = "GB" ∧ Pays p recipient input change dummy) ∧
    (10 : Int) = (start.after [.advance, .advance]).currentNoteAmount.val + 7 := by
  refine ⟨_, rfl, ?_, ?_⟩
  · obtain ⟨-, -, hstep, -⟩ := bulkWithdraw_runs (show payTwo = .ok _ from rfl) [.advance]
    obtain ⟨next, p, recipient, input, change, dummy, -, hbuild, hlisted, hpays, -⟩ :=
      hstep rfl ⟨0, [], 0⟩ 9
    obtain rfl : _ = recipient := Option.some.inj hlisted
    exact ⟨p, _, input, change, dummy, hbuild, rfl, hpays⟩
  · obtain ⟨-, -, -, hend⟩ :=
      bulkWithdraw_runs (show payTwo = .ok _ from rfl) [.advance, .advance]
    exact (hend rfl).1

end Runs

end PrivatePayments.Prover
