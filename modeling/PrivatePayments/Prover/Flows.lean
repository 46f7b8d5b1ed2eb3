import PrivatePayments.Prover.CircuitInputs
import PrivatePayments.Prover.Notes
import PrivatePayments.Stellar.ContractState
import PrivatePayments.Stellar.ExtDataHash

/-!
# PrivatePayments.Prover.Flows

The transaction builder of the client (`transact` in `prover/src/flows.rs`): it checks the
shapes and the balance, pads both sides to two slots, and writes the inputs of the circuit.

The random bytes are arguments. The check that twice the depth fits a `usize` is left out: a
path of that length does not fit in memory.
-/

namespace PrivatePayments.Prover

open Stellar (AspNonMembershipProof fieldTryFromExtAmount)

/-! ## Parameters and results -/

/-- `N_INPUTS` -/
def nInputs : Nat := 2

/-- `N_OUTPUTS` -/
def nOutputs : Nat := 2

/-- `TransactInputNote` -/
structure TransactInputNote where
  amount : NoteAmount
  blinding : Fr
  merklePathElements : List Fr
  merklePathIndices : Fr

/-- `TransactOutput` -/
structure TransactOutput where
  amount : NoteAmount
  blinding : Fr
  recipientNotePubkey : Option Bytes32
  recipientEncryptionPubkey : Option Bytes32

/-- `AspMembershipProof` -/
structure AspMembershipProof where
  leaf : Fr
  blinding : Fr
  pathElements : List Fr
  pathIndices : Fr
  root : Fr

/-- `TransactParams` -/
structure TransactParams where
  privKey : Bytes32
  encryptionPubkey : Bytes32
  poolRoot : Fr
  extRecipient : String
  extAmount : ExtAmount
  inputs : List TransactInputNote
  outputs : List TransactOutput
  membershipProof : AspMembershipProof
  nonMembershipProof : AspNonMembershipProof
  treeDepth : UInt32
  smtDepth : UInt32

/-- `PreparedTx` -/
structure PreparedTx where
  poolRoot : Fr
  inputNullifiers : List Fr
  outputCommitments : List Fr
  publicAmountField : Fr
  extDataHashBe : Bytes32
  aspMembershipRoot : Fr
  aspNonMembershipRoot : Fr

/-- `TransactArtifacts` -/
structure TransactArtifacts where
  circuitInputs : CircuitInputs
  extData : ExtData
  prepared : PreparedTx

/-- What one call of `transact` draws: the blindings of its padding, and the bytes of one box
for each output. -/
structure TransactRandomness where
  inputBlinding : Nat → Fr
  outputBlinding : Nat → Fr
  box : Nat → BoxRandomness

/-! ## Amounts -/

/-- `NoteAmount::checked_add` -/
def checkedAdd (a b : NoteAmount) : Option NoteAmount :=
  if h : a.val + b.val < u128Size then some ⟨a.val + b.val, h⟩ else none

/-- `TryFrom<ExtAmount> for NoteAmount` -/
def noteAmountTryFrom (value : ExtAmount) : Except String NoteAmount :=
  if h : 0 ≤ value.val then
    .ok ⟨value.val.toNat, by
      have hlt := value.property.2
      unfold u128Size
      omega⟩
  else .error s!"NoteAmount out of range: {value.val}"

/-- `ExtAmount::checked_neg` -/
def checkedNeg (value : ExtAmount) : Option ExtAmount :=
  if h : -value.val < 2 ^ 127 then
    some ⟨-value.val, by
      have hlt := value.property.2
      omega, h⟩
  else none

/-- `ok_or_else` -/
def okOr {α : Type} (e : String) : Option α → Except String α
  | some a => .ok a
  | none => .error e

/-- `sum_note_amounts_inputs`, `sum_note_amounts_outputs` -/
def sumNoteAmounts (overflow : String) (amounts : List NoteAmount) : Except String NoteAmount :=
  amounts.foldlM (fun sum amount => okOr overflow (checkedAdd sum amount)) 0

/-- Whether inputs and external amount give the outputs. -/
def isBalanced (extAmount : ExtAmount) (inputsSum outputsSum : NoteAmount) :
    Except String Bool :=
  if 0 ≤ extAmount.val then do
    let publicNote ← noteAmountTryFrom extAmount
    let lhs ← okOr "overflow computing note amount LHS" (checkedAdd inputsSum publicNote)
    .ok (decide (lhs = outputsSum))
  else do
    let negated ← okOr "public amount negation overflow" (checkedNeg extAmount)
    let publicNote ← noteAmountTryFrom negated
    let rhs ← okOr "overflow computing note amount RHS" (checkedAdd outputsSum publicNote)
    .ok (decide (inputsSum = rhs))

/-! ## Checks -/

/-- The checks before anything is computed. -/
def checkShapes (p : TransactParams) : Except String Unit :=
  if p.treeDepth = 0 then .error "tree_depth must be > 0"
  else if p.smtDepth = 0 then .error "smt_depth must be > 0"
  else if p.membershipProof.pathElements.length ≠ p.treeDepth.toNat then
    .error (s!"membership_proof.path_elements length mismatch: expected {p.treeDepth}, " ++
      s!"got {p.membershipProof.pathElements.length}")
  else if p.nonMembershipProof.siblings.length ≠ p.smtDepth.toNat then
    .error (s!"non_membership_proof.siblings length mismatch: expected {p.smtDepth}, " ++
      s!"got {p.nonMembershipProof.siblings.length}")
  else if p.outputs.length > nOutputs then
    .error s!"too many outputs: expected at most {nOutputs}, got {p.outputs.length}"
  else .ok ()

/-- The equation `inputs + ext_amount = outputs`. -/
def checkBalance (p : TransactParams) : Except String Unit := do
  let inputsSum ← sumNoteAmounts "overflow summing input amounts" (p.inputs.map (·.amount))
  let outputsSum ← sumNoteAmounts "overflow summing output amounts" (p.outputs.map (·.amount))
  let balanced ← isBalanced p.extAmount inputsSum outputsSum
  if balanced then .ok ()
  else .error (s!"not balanced: inputs({inputsSum.val}) + public({p.extAmount.val}) " ++
    s!"!= outputs({outputsSum.val})")

/-- Every input slot has a path of the depth of the tree; `i` is the number of the first one. -/
def checkInputShapes (treeDepth : UInt32) : Nat → List TransactInputNote → Except String Unit
  | _, [] => .ok ()
  | i, input :: inputs =>
      if input.merklePathElements.length ≠ treeDepth.toNat then
        .error (s!"input[{i}].merkle_path_elements length mismatch: expected {treeDepth}, " ++
          s!"got {input.merklePathElements.length}")
      else checkInputShapes treeDepth (i + 1) inputs

/-- The keys of a recipient come in pairs; `i` is the number of the first slot. -/
def checkRecipients : Nat → List TransactOutput → Except String Unit
  | _, [] => .ok ()
  | i, output :: outputs =>
      if output.recipientNotePubkey.isSome ≠ output.recipientEncryptionPubkey.isSome then
        .error (s!"output[{i}]: recipient_note_pubkey and recipient_encryption_pubkey " ++
          "must be both set or both unset")
      else checkRecipients (i + 1) outputs

/-! ## Slots -/

/-- `dummy_input` -/
def dummyInput (treeDepth : Nat) (blinding : Fr) : TransactInputNote where
  amount := 0
  blinding := blinding
  merklePathElements := List.replicate treeDepth 0
  merklePathIndices := 0

/-- The input slots: the inputs, and dummies up to two. -/
def padInputs (random : TransactRandomness) (treeDepth : Nat) (inputs : List TransactInputNote) :
    Except String (List TransactInputNote) :=
  if inputs.length > nInputs then
    .error s!"too many inputs: expected at most {nInputs}, got {inputs.length}"
  else .ok (inputs ++ (List.range (nInputs - inputs.length)).map fun i =>
    dummyInput treeDepth (random.inputBlinding i))

/-- An output of the padding. -/
def dummyOutput (blinding : Fr) : TransactOutput where
  amount := 0
  blinding := blinding
  recipientNotePubkey := none
  recipientEncryptionPubkey := none

/-- The output slots: the outputs, and dummies up to two. -/
def padOutputs (random : TransactRandomness) (outputs : List TransactOutput) :
    List TransactOutput :=
  outputs ++ (List.range (nOutputs - outputs.length)).map fun i =>
    dummyOutput (random.outputBlinding i)

/-- `try_into` of a `Vec<u8>` to 32 bytes. -/
def toBytes32 (what : String) (bytes : List UInt8) : Except String Bytes32 :=
  if h : bytes.length = 32 then .ok ⟨bytes, h⟩
  else .error s!"{what}: expected 32 bytes, got {bytes.length}"

/-- The nullifier of an input slot. -/
def inputNullifier (privKey senderNotePubkey : Bytes32) (input : TransactInputNote) :
    Except String Fr := do
  let commitment ← computeCommitment (scalarToBytes (amountFr input.amount)) senderNotePubkey.val
    (scalarToBytes input.blinding)
  let signature ← computeSignature privKey.val commitment (scalarToBytes input.merklePathIndices)
  let nullifier ← computeNullifier commitment (scalarToBytes input.merklePathIndices) signature
  let nullifierArr ← toBytes32 "nullifier" nullifier
  fieldTryFromLeBytes nullifierArr.val

/-- An output slot with what is computed for it. -/
structure PreparedOutput where
  output : TransactOutput
  notePubkey : Bytes32
  commitment : Fr
  encrypted : List UInt8

/-- The commitment and the box of an output slot; without a recipient it is the sender's. -/
def prepareOutput (box : NoteBox) (random : BoxRandomness) (senderNotePubkey : Bytes32)
    (encryptionPubkey : Bytes32) (output : TransactOutput) : Except String PreparedOutput := do
  let notePubkey := output.recipientNotePubkey.getD senderNotePubkey
  let encPubkey := output.recipientEncryptionPubkey.getD encryptionPubkey
  let commitment ← computeCommitment (scalarToBytes (amountFr output.amount)) notePubkey.val
    (scalarToBytes output.blinding)
  let commitmentArr ← toBytes32 "commitment" commitment
  let commitment ← fieldTryFromLeBytes commitmentArr.val
  let encrypted ← encryptOutputNote box random encPubkey output.amount output.blinding
  return { output, notePubkey, commitment, encrypted }

/-- The output slots from number `i` on. -/
def prepareOutputs (box : NoteBox) (random : Nat → BoxRandomness) (senderNotePubkey : Bytes32)
    (encryptionPubkey : Bytes32) : Nat → List TransactOutput → Except String (List PreparedOutput)
  | _, [] => .ok []
  | i, output :: outputs => do
      let prepared ← prepareOutput box (random i) senderNotePubkey encryptionPubkey output
      let rest ← prepareOutputs box random senderNotePubkey encryptionPubkey (i + 1) outputs
      return prepared :: rest

/-! ## The inputs of the circuit -/

/-- The proofs of the association sets, for one input slot. -/
def setProofs (membershipProof : AspMembershipProof) (nonMembershipProof : AspNonMembershipProof)
    (circuit : CircuitInputs) (slot : Nat) : CircuitInputs :=
  let m := CircuitInputs.slotName "membershipProofs" slot
  let n := CircuitInputs.slotName "nonMembershipProofs" slot
  circuit
    |>.setSingle (m "leaf") (fieldToCircuitHex membershipProof.leaf)
    |>.setSingle (m "blinding") (fieldToCircuitHex membershipProof.blinding)
    |>.setSingle (m "pathIndices") (fieldToCircuitHex membershipProof.pathIndices)
    |>.setArray (m "pathElements") (membershipProof.pathElements.map fieldToCircuitHex)
    |>.setSingle (m "root") (fieldToCircuitHex membershipProof.root)
    |>.setSingle (n "key") (fieldToCircuitHex nonMembershipProof.key)
    |>.setSingle (n "oldKey") (fieldToCircuitHex nonMembershipProof.oldKey)
    |>.setSingle (n "oldValue") (fieldToCircuitHex nonMembershipProof.oldValue)
    |>.setSingle (n "isOld0")
      (fieldToCircuitHex (if nonMembershipProof.isOld0 then amountFr 1 else 0))
    |>.setArray (n "siblings") (nonMembershipProof.siblings.map fieldToCircuitHex)
    |>.setSingle (n "root") (fieldToCircuitHex nonMembershipProof.root)

/-- All entries but the hash of the external data. -/
def buildCircuit (p : TransactParams) (publicAmountField : Fr) (inputs : List TransactInputNote)
    (nullifiers : List Fr) (outputs : List PreparedOutput) : CircuitInputs :=
  let circuit := CircuitInputs.new
    |>.setSingle "root" (fieldToCircuitHex p.poolRoot)
    |>.setSingle "publicAmount" (fieldToCircuitHex publicAmountField)
    |>.setArray "inputNullifier" (nullifiers.map fieldToCircuitHex)
    |>.setArray "outputCommitment" (outputs.map fun o => fieldToCircuitHex o.commitment)
    |>.setArray "inAmount" (inputs.map fun i => fieldToCircuitHex (amountFr i.amount))
    |>.setArray "inPrivateKey" (inputs.map fun _ => fieldBytesToHex p.privKey)
    |>.setArray "inBlinding" (inputs.map fun i => fieldToCircuitHex i.blinding)
    |>.setArray "inPathIndices" (inputs.map fun i => fieldToCircuitHex i.merklePathIndices)
    |>.setArray "inPathElements"
      (inputs.flatMap fun i => i.merklePathElements.map fieldToCircuitHex)
    |>.setArray "outAmount" (outputs.map fun o => fieldToCircuitHex (amountFr o.output.amount))
    |>.setArray "outPubkey" (outputs.map fun o => fieldBytesToHex o.notePubkey)
    |>.setArray "outBlinding" (outputs.map fun o => fieldToCircuitHex o.output.blinding)
    |>.setArray "membershipRoots"
      [fieldToCircuitHex p.membershipProof.root, fieldToCircuitHex p.membershipProof.root]
    |>.setArray "nonMembershipRoots"
      [fieldToCircuitHex p.nonMembershipProof.root, fieldToCircuitHex p.nonMembershipProof.root]
  (List.range nInputs).foldl (setProofs p.membershipProof p.nonMembershipProof) circuit

/-- `transact` -/
def transact (box : NoteBox) (random : TransactRandomness)
    (hashExtData : ExtData → Except String Bytes32) (p : TransactParams) :
    Except String TransactArtifacts := do
  checkShapes p
  checkBalance p
  let senderNotePubkeyBytes ← derivePublicKey p.privKey.val
  let senderNotePubkey ← toBytes32 "derive_public_key" senderNotePubkeyBytes
  let inputSlots ← padInputs random p.treeDepth.toNat p.inputs
  checkInputShapes p.treeDepth 0 inputSlots
  let outputSlots := padOutputs random p.outputs
  checkRecipients 0 outputSlots
  let publicAmountField ← fieldTryFromExtAmount p.extAmount
  let inputNullifiers ← inputSlots.mapM (inputNullifier p.privKey senderNotePubkey)
  let outputs ← prepareOutputs box random.box senderNotePubkey p.encryptionPubkey 0 outputSlots
  let circuit := buildCircuit p publicAmountField inputSlots inputNullifiers outputs
  let extData : ExtData := {
    recipient := p.extRecipient
    extAmount := p.extAmount
    encryptedOutput0 := (outputs.map (·.encrypted)).getD 0 []
    encryptedOutput1 := (outputs.map (·.encrypted)).getD 1 [] }
  let extDataHashBe ← hashExtData extData
  return {
    circuitInputs := circuit.setSingle "extDataHash" (be32To0xHex extDataHashBe.val)
    extData := extData
    prepared := {
      poolRoot := p.poolRoot
      inputNullifiers := inputNullifiers
      outputCommitments := outputs.map (·.commitment)
      publicAmountField := publicAmountField
      extDataHashBe := extDataHashBe
      aspMembershipRoot := p.membershipProof.root
      aspNonMembershipRoot := p.nonMembershipProof.root } }

end PrivatePayments.Prover
