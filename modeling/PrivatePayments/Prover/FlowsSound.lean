import PrivatePayments.Prover.Flows

/-!
# PrivatePayments.Prover.FlowsSound

What a successful `transact` has checked and returned (`Transacted`): the slots, the balance
and the numbers it computes for them.
-/

namespace PrivatePayments.Prover

open Stellar (fieldTryFromExtAmount)

/-! ## Amounts -/

theorem okOr_ok {α : Type} {e : String} {o : Option α} {a : α} (h : okOr e o = .ok a) :
    o = some a := by
  cases o with
  | none => cases h
  | some b =>
      cases h
      rfl

theorem checkedAdd_some {a b c : NoteAmount} (h : checkedAdd a b = some c) :
    c.val = a.val + b.val := by
  unfold checkedAdd at h
  split at h
  · cases h
    rfl
  · cases h

theorem foldlM_checkedAdd {overflow : String} (amounts : List NoteAmount) :
    ∀ {start sum : NoteAmount},
      amounts.foldlM (fun sum amount => okOr overflow (checkedAdd sum amount)) start = .ok sum →
        sum.val = start.val + (amounts.map (·.val)).sum := by
  induction amounts with
  | nil =>
      intro start sum h
      cases h
      simp
  | cons amount amounts ih =>
      intro start sum h
      rw [List.foldlM_cons] at h
      obtain ⟨next, hnext, h⟩ := exists_of_bind_ok h
      rw [ih h, checkedAdd_some (okOr_ok hnext), List.map_cons, List.sum_cons, Nat.add_assoc]

/-- A sum that does not overflow is the sum. -/
theorem sumNoteAmounts_ok {overflow : String} {amounts : List NoteAmount} {sum : NoteAmount}
    (h : sumNoteAmounts overflow amounts = .ok sum) : sum.val = (amounts.map (·.val)).sum := by
  simpa using foldlM_checkedAdd amounts h

theorem noteAmountTryFrom_ok {value : ExtAmount} {amount : NoteAmount}
    (h : noteAmountTryFrom value = .ok amount) : (amount.val : Int) = value.val := by
  unfold noteAmountTryFrom at h
  split at h
  · rename_i hpos
    cases h
    exact Int.toNat_of_nonneg hpos
  · cases h

theorem checkedNeg_some {value negated : ExtAmount} (h : checkedNeg value = some negated) :
    negated.val = -value.val := by
  unfold checkedNeg at h
  split at h
  · cases h
    rfl
  · cases h

theorem isBalanced_ok {extAmount : ExtAmount} {inputsSum outputsSum : NoteAmount}
    (h : isBalanced extAmount inputsSum outputsSum = .ok true) :
    (inputsSum.val : Int) + extAmount.val = outputsSum.val := by
  unfold isBalanced at h
  split at h
  · obtain ⟨publicNote, hpublic, h⟩ := exists_of_bind_ok h
    obtain ⟨lhs, hlhs, h⟩ := exists_of_bind_ok h
    have hvalue := noteAmountTryFrom_ok hpublic
    have hsum := checkedAdd_some (okOr_ok hlhs)
    have heq : lhs = outputsSum := by simpa using h
    rw [← heq]
    omega
  · obtain ⟨negated, hneg, h⟩ := exists_of_bind_ok h
    obtain ⟨publicNote, hpublic, h⟩ := exists_of_bind_ok h
    obtain ⟨rhs, hrhs, h⟩ := exists_of_bind_ok h
    have hnegated := checkedNeg_some (okOr_ok hneg)
    have hvalue := noteAmountTryFrom_ok hpublic
    have hsum := checkedAdd_some (okOr_ok hrhs)
    have heq : inputsSum = rhs := by simpa using h
    rw [heq]
    omega

/-! ## Slots -/

/-- The sender's note public key. -/
def senderNotePubkey (p : TransactParams) : Bytes32 :=
  ⟨scalarToBytes (keypair (scalarOf p.privKey.val)), length_scalarToBytes _⟩

/-- The input slots: the inputs, then dummies. -/
def inputSlot (random : TransactRandomness) (p : TransactParams) (i : Fin 2) :
    TransactInputNote :=
  p.inputs.getD i
    (dummyInput p.treeDepth.toNat (random.inputBlinding (i - p.inputs.length)))

/-- The output slots: the outputs, then dummies. -/
def outputSlot (random : TransactRandomness) (p : TransactParams) (i : Fin 2) : TransactOutput :=
  p.outputs.getD i (dummyOutput (random.outputBlinding (i - p.outputs.length)))

/-- The note public key that an output is for. -/
def recipientNotePubkey (p : TransactParams) (output : TransactOutput) : Bytes32 :=
  output.recipientNotePubkey.getD (senderNotePubkey p)

/-- The encryption public key that an output is for. -/
def recipientEncryptionPubkey (p : TransactParams) (output : TransactOutput) : Bytes32 :=
  output.recipientEncryptionPubkey.getD p.encryptionPubkey

/-- The commitment of an input. -/
def inputCommitment (p : TransactParams) (input : TransactInputNote) : Fr :=
  noteCommitment input.amount (senderNotePubkey p) input.blinding

/-- The commitment of an output. -/
def outputCommitment (p : TransactParams) (output : TransactOutput) : Fr :=
  noteCommitment output.amount (recipientNotePubkey p output) output.blinding

theorem ofFn_two {α : Type} (f : Fin 2 → α) : List.ofFn f = [f 0, f 1] := by
  simp [List.ofFn_succ]

theorem padInputs_ok {random : TransactRandomness} {p : TransactParams}
    {slots : List TransactInputNote}
    (h : padInputs random p.treeDepth.toNat p.inputs = .ok slots) :
    p.inputs.length ≤ 2 ∧ slots = List.ofFn (inputSlot random p) := by
  unfold padInputs nInputs at h
  split at h
  · cases h
  · rename_i hlen
    cases h
    refine ⟨Nat.le_of_not_lt hlen, ?_⟩
    unfold inputSlot
    rw [ofFn_two]
    match p.inputs, hlen with
    | [], _ => rfl
    | [_], _ => rfl
    | [_, _], _ => rfl
    | _ :: _ :: _ :: inputs, hlen => exact absurd hlen (by simp)

theorem padOutputs_eq {random : TransactRandomness} {p : TransactParams}
    (hlen : p.outputs.length ≤ 2) :
    padOutputs random p.outputs = List.ofFn (outputSlot random p) := by
  unfold padOutputs nOutputs outputSlot
  rw [ofFn_two]
  match p.outputs, hlen with
  | [], _ => rfl
  | [_], _ => rfl
  | [_, _], _ => rfl

/-- Dummies are worth nothing. -/
theorem sum_inputSlot (random : TransactRandomness) {p : TransactParams}
    (hlen : p.inputs.length ≤ 2) :
    (p.inputs.map (·.amount.val)).sum =
      (inputSlot random p 0).amount.val + (inputSlot random p 1).amount.val := by
  unfold inputSlot
  match p.inputs, hlen with
  | [], _ => rfl
  | [_], _ => rfl
  | [_, _], _ => simp

theorem sum_outputSlot (random : TransactRandomness) {p : TransactParams}
    (hlen : p.outputs.length ≤ 2) :
    (p.outputs.map (·.amount.val)).sum =
      (outputSlot random p 0).amount.val + (outputSlot random p 1).amount.val := by
  unfold outputSlot
  match p.outputs, hlen with
  | [], _ => rfl
  | [_], _ => rfl
  | [_, _], _ => simp

/-- A slot that is not one of the inputs is worth nothing. -/
theorem inputSlot_cases (random : TransactRandomness) (p : TransactParams) (i : Fin 2) :
    inputSlot random p i ∈ p.inputs ∨ ∃ blinding,
      inputSlot random p i = dummyInput p.treeDepth.toNat blinding := by
  unfold inputSlot
  by_cases hlt : i < p.inputs.length
  · rw [List.getD_eq_getElem _ _ hlt]
    exact .inl (List.getElem_mem hlt)
  · rw [List.getD_eq_default _ _ (Nat.le_of_not_lt hlt)]
    exact .inr ⟨_, rfl⟩

/-! ## What is computed for a slot -/

theorem toBytes32_scalarToBytes (what : String) (x : Fr) :
    toBytes32 what (scalarToBytes x) = .ok ⟨scalarToBytes x, length_scalarToBytes x⟩ :=
  dif_pos (length_scalarToBytes x)

theorem computeCommitment_amountFr (amount : NoteAmount) (publicKey : Bytes32) (blinding : Fr) :
    computeCommitment (scalarToBytes (amountFr amount)) publicKey.val (scalarToBytes blinding) =
      .ok (scalarToBytes (noteCommitment amount publicKey blinding)) :=
  computeCommitment_eq amount publicKey blinding

theorem inputNullifier_eq (p : TransactParams) (input : TransactInputNote) :
    inputNullifier p.privKey (senderNotePubkey p) input =
      .ok (noteNullifier p.privKey (inputCommitment p input) input.merklePathIndices) := by
  have hkey := p.privKey.property
  unfold inputNullifier computeSignature computeNullifier inputCommitment noteNullifier
  rw [computeCommitment_amountFr, ok_bind,
    hash3Bytes_eq hkey (length_scalarToBytes _) (length_scalarToBytes _), ok_bind,
    hash3Bytes_eq (length_scalarToBytes _) (length_scalarToBytes _) (length_scalarToBytes _),
    ok_bind, toBytes32_scalarToBytes, ok_bind, fieldTryFromLeBytes_scalarToBytes]
  simp only [scalarOf_scalarToBytes]

/-- An output slot with what is computed for it. -/
structure Prepared (box : NoteBox) (random : BoxRandomness) (p : TransactParams)
    (output : TransactOutput) (prepared : PreparedOutput) : Prop where
  slot : prepared.output = output
  notePubkey : prepared.notePubkey = recipientNotePubkey p output
  commitment : prepared.commitment = outputCommitment p output
  encrypted : encryptOutputNote box random (recipientEncryptionPubkey p output) output.amount
    output.blinding = .ok prepared.encrypted

theorem prepareOutput_ok {box : NoteBox} {random : BoxRandomness} {p : TransactParams}
    {output : TransactOutput} {prepared : PreparedOutput}
    (h : prepareOutput box random (senderNotePubkey p) p.encryptionPubkey output =
      .ok prepared) : Prepared box random p output prepared := by
  unfold prepareOutput at h
  dsimp only at h
  rw [computeCommitment_amountFr, ok_bind, toBytes32_scalarToBytes, ok_bind,
    fieldTryFromLeBytes_scalarToBytes, ok_bind] at h
  obtain ⟨encrypted, hencrypted, h⟩ := exists_of_bind_ok h
  cases h
  exact ⟨rfl, rfl, rfl, hencrypted⟩

theorem prepareOutputs_two {box : NoteBox} {random : TransactRandomness} {p : TransactParams}
    {output : Fin 2 → TransactOutput} {outputs : List PreparedOutput}
    (h : prepareOutputs box random.box (senderNotePubkey p) p.encryptionPubkey 0
      (List.ofFn output) = .ok outputs) :
    ∃ prepared : Fin 2 → PreparedOutput, outputs = List.ofFn prepared ∧
      ∀ i : Fin 2, Prepared box (random.box i) p (output i) (prepared i) := by
  rw [ofFn_two] at h
  unfold prepareOutputs at h
  obtain ⟨out0, h0, h⟩ := exists_of_bind_ok h
  obtain ⟨rest, hrest, h⟩ := exists_of_bind_ok h
  unfold prepareOutputs at hrest
  obtain ⟨out1, h1, hrest⟩ := exists_of_bind_ok hrest
  cases hrest
  cases h
  refine ⟨![out0, out1], ?_, fun i => ?_⟩
  · rw [ofFn_two]
    rfl
  · match i with
    | 0 => exact prepareOutput_ok h0
    | 1 => exact prepareOutput_ok h1

/-! ## The run -/

theorem checkShapes_ok {p : TransactParams} (h : checkShapes p = .ok ()) :
    p.membershipProof.pathElements.length = p.treeDepth.toNat ∧
      p.nonMembershipProof.siblings.length = p.smtDepth.toNat ∧ p.outputs.length ≤ 2 := by
  unfold checkShapes nOutputs at h
  split at h
  · cases h
  · split at h
    · cases h
    · split at h
      · cases h
      · rename_i hmembership
        split at h
        · cases h
        · rename_i hsiblings
          split at h
          · cases h
          · rename_i houtputs
            exact ⟨not_not.mp hmembership, not_not.mp hsiblings, Nat.le_of_not_lt houtputs⟩

theorem checkBalance_ok {p : TransactParams} (h : checkBalance p = .ok ()) :
    ((p.inputs.map (·.amount.val)).sum : Nat) + p.extAmount.val =
      ((p.outputs.map (·.amount.val)).sum : Nat) := by
  unfold checkBalance at h
  obtain ⟨inputsSum, hinputs, h⟩ := exists_of_bind_ok h
  obtain ⟨outputsSum, houtputs, h⟩ := exists_of_bind_ok h
  obtain ⟨balanced, hbalanced, h⟩ := exists_of_bind_ok h
  cases balanced with
  | false => cases h
  | true =>
      have heq := isBalanced_ok hbalanced
      rw [sumNoteAmounts_ok hinputs, sumNoteAmounts_ok houtputs, List.map_map, List.map_map] at heq
      exact heq

theorem checkInputShapes_ok {treeDepth : UInt32} {slots : List TransactInputNote} :
    ∀ {i : Nat}, checkInputShapes treeDepth i slots = .ok () →
      ∀ input ∈ slots, input.merklePathElements.length = treeDepth.toNat := by
  induction slots with
  | nil =>
      intro i _ input hmem
      cases hmem
  | cons slot slots ih =>
      intro i h input hmem
      unfold checkInputShapes at h
      split at h
      · cases h
      · rename_i hlen
        cases hmem with
        | head => exact not_not.mp hlen
        | tail _ hmem => exact ih h input hmem

/-- A successful run of `transact`, with the results for its outputs. -/
structure Transacted (box : NoteBox) (random : TransactRandomness)
    (hashExtData : ExtData → Except String Bytes32) (p : TransactParams)
    (art : TransactArtifacts) (outs : Fin 2 → PreparedOutput) : Prop where
  membership_length : p.membershipProof.pathElements.length = p.treeDepth.toNat
  siblings_length : p.nonMembershipProof.siblings.length = p.smtDepth.toNat
  path_length : ∀ i, (inputSlot random p i).merklePathElements.length = p.treeDepth.toNat
  inputs_length : p.inputs.length ≤ 2
  outputs_length : p.outputs.length ≤ 2
  balance : ((inputSlot random p 0).amount.val + (inputSlot random p 1).amount.val : Int) +
      p.extAmount.val =
    (outputSlot random p 0).amount.val + (outputSlot random p 1).amount.val
  publicAmount : fieldTryFromExtAmount p.extAmount = .ok art.prepared.publicAmountField
  nullifiers : art.prepared.inputNullifiers = List.ofFn fun i =>
    noteNullifier p.privKey (inputCommitment p (inputSlot random p i))
      (inputSlot random p i).merklePathIndices
  outputs : ∀ i : Fin 2, Prepared box (random.box i) p (outputSlot random p i) (outs i)
  extData : art.extData = ⟨p.extRecipient, p.extAmount, (outs 0).encrypted, (outs 1).encrypted⟩
  hash : hashExtData art.extData = .ok art.prepared.extDataHashBe
  commitments : art.prepared.outputCommitments = List.ofFn fun i =>
    outputCommitment p (outputSlot random p i)
  roots : art.prepared.poolRoot = p.poolRoot ∧
    art.prepared.aspMembershipRoot = p.membershipProof.root ∧
    art.prepared.aspNonMembershipRoot = p.nonMembershipProof.root
  circuit : art.circuitInputs =
    (buildCircuit p art.prepared.publicAmountField (List.ofFn (inputSlot random p))
      art.prepared.inputNullifiers (List.ofFn outs)).setSingle "extDataHash"
      (be32To0xHex art.prepared.extDataHashBe.val)

theorem transact_ok {box : NoteBox} {random : TransactRandomness}
    {hashExtData : ExtData → Except String Bytes32} {p : TransactParams} {art : TransactArtifacts}
    (h : transact box random hashExtData p = .ok art) :
    ∃ outs, Transacted box random hashExtData p art outs := by
  unfold transact at h
  obtain ⟨⟨⟩, hshapes, h⟩ := exists_of_bind_ok h
  obtain ⟨⟨⟩, hbalance, h⟩ := exists_of_bind_ok h
  rw [derivePublicKey_eq p.privKey.property, ok_bind, toBytes32_scalarToBytes, ok_bind] at h
  obtain ⟨slots, hslots, h⟩ := exists_of_bind_ok h
  obtain ⟨⟨⟩, hpaths, h⟩ := exists_of_bind_ok h
  obtain ⟨hmembership, hsiblings, houtputs⟩ := checkShapes_ok hshapes
  obtain ⟨hinputs, rfl⟩ := padInputs_ok hslots
  rw [padOutputs_eq houtputs] at h
  obtain ⟨⟨⟩, -, h⟩ := exists_of_bind_ok h
  obtain ⟨publicAmountField, hpublic, h⟩ := exists_of_bind_ok h
  obtain ⟨nullifiers, hnullifiers, h⟩ := exists_of_bind_ok h
  obtain ⟨outputs, hprepared, h⟩ := exists_of_bind_ok h
  obtain ⟨hash, hhash, h⟩ := exists_of_bind_ok h
  obtain ⟨outs, rfl, houts⟩ := prepareOutputs_two hprepared
  have hsum := checkBalance_ok hbalance
  rw [sum_inputSlot random hinputs, sum_outputSlot random houtputs] at hsum
  push_cast at hsum
  have hlist : nullifiers = List.ofFn fun i => noteNullifier p.privKey
      (inputCommitment p (inputSlot random p i)) (inputSlot random p i).merklePathIndices := by
    have hfun : inputNullifier p.privKey (senderNotePubkey p) = fun input =>
        .ok (noteNullifier p.privKey (inputCommitment p input) input.merklePathIndices) :=
      funext (inputNullifier_eq p)
    have hmapM : (List.ofFn (inputSlot random p)).mapM
        (inputNullifier p.privKey (senderNotePubkey p)) = .ok ((List.ofFn (inputSlot random p)).map
          fun input => noteNullifier p.privKey (inputCommitment p input)
            input.merklePathIndices) := by
      rw [hfun]
      exact List.mapM_pure
    have heq := hmapM.symm.trans hnullifiers
    rw [List.map_ofFn] at heq
    cases heq
    rfl
  cases h
  refine ⟨outs, hmembership, hsiblings, fun i => ?_, hinputs, houtputs, hsum, hpublic, hlist,
    houts, ?_, ?_, ?_, ⟨rfl, rfl, rfl⟩, rfl⟩
  · exact checkInputShapes_ok hpaths _ (List.mem_ofFn.mpr ⟨i, rfl⟩)
  · rw [ofFn_two]
    rfl
  · exact hhash
  · rw [List.map_ofFn]
    exact congrArg List.ofFn (funext fun i => (houts i).commitment)

end PrivatePayments.Prover
