import PrivatePayments.Prover.HonestWitness
import PrivatePayments.Circuits.SelectiveDisclosure

/-!
# PrivatePayments.Prover.SelectiveDisclosure

The inputs of a disclosure (`selective_disclosure_1` of `prover/src/flows.rs`), and that the
circuit accepts them for every note of a tree with the path that the client builds.
-/

namespace PrivatePayments.Prover

open PerfectTree MerkleWithHistory

/-- `SelectiveDisclosure1Params` -/
structure SelectiveDisclosure1Params where
  root : Fr
  noteCommitment : Fr
  noteAmount : NoteAmount
  notePrivateKey : Bytes32
  noteBlinding : Fr
  merklePathIndices : Fr
  merklePathElements : List Fr
  extContextHash : Fr

/-- `DisclosureArtifacts` -/
structure DisclosureArtifacts where
  circuitInputs : CircuitInputs
  extContextHash : Fr

/-- `selective_disclosure_1` -/
def selectiveDisclosure1 (params : SelectiveDisclosure1Params) : DisclosureArtifacts where
  circuitInputs :=
    CircuitInputs.new
    |>.setArray "roots" [fieldToCircuitHex params.root]
    |>.setArray "noteCommitments" [fieldToCircuitHex params.noteCommitment]
    |>.setSingle "extContextHash" (fieldToCircuitHex params.extContextHash)
    |>.setArray "inAmount" [fieldToCircuitHex (amountFr params.noteAmount)]
    |>.setArray "inPrivateKey" [fieldBytesToHex params.notePrivateKey]
    |>.setArray "inBlinding" [fieldToCircuitHex params.noteBlinding]
    |>.setArray "inPathIndices" [fieldToCircuitHex params.merklePathIndices]
    |>.setArray "inPathElements" (params.merklePathElements.map fieldToCircuitHex)
  extContextHash := params.extContextHash

/-- The input signals of `SelectiveDisclosure(levels, nNotes)`. -/
def CircuitInputs.disclosureSignals? (c : CircuitInputs) (levels nNotes : Nat) :
    Option (DisclosureSignals levels nNotes) := do
  let roots ← c.vector? nNotes "roots"
  let noteCommitments ← c.vector? nNotes "noteCommitments"
  let extContextHash ← c.scalar? "extContextHash"
  let inAmount ← c.vector? nNotes "inAmount"
  let inPrivateKey ← c.vector? nNotes "inPrivateKey"
  let inBlinding ← c.vector? nNotes "inBlinding"
  let inPathIndices ← c.vector? nNotes "inPathIndices"
  let inPathElements ← c.vector? (nNotes * levels) "inPathElements"
  return {
    roots, noteCommitments, extContextHash, inAmount, inPrivateKey, inBlinding, inPathIndices
    inPathElements := fun ni i => inPathElements (finProdFinEquiv (ni, i)) }

/-! ## Reading the inputs back -/

/-- The signals of a disclosure. -/
def SelectiveDisclosure1Params.signals (params : SelectiveDisclosure1Params) (levels : Nat) :
    DisclosureSignals levels 1 where
  roots := fun _ => params.root
  noteCommitments := fun _ => params.noteCommitment
  extContextHash := params.extContextHash
  inAmount := fun _ => amountFr params.noteAmount
  inPrivateKey := fun _ => scalarOf params.notePrivateKey.val
  inBlinding := fun _ => params.noteBlinding
  inPathIndices := fun _ => params.merklePathIndices
  inPathElements := fun _ i => params.merklePathElements.getD i 0

section Read

variable {params : SelectiveDisclosure1Params} {levels : Nat}

/-- An array with one value. -/
theorem vector?_single {c : CircuitInputs} {name value : String} {x : Fr}
    (h : c.signals.lookup name = some (.array [value])) (hx : signalValue value = some x) :
    c.vector? 1 name = some fun _ => x := by
  refine CircuitInputs.vector?_of_lookup h ?_
  simp [hx]

theorem pathElements_vector? (hlen : params.merklePathElements.length = levels) :
    (selectiveDisclosure1 params).circuitInputs.vector? (1 * levels) "inPathElements" =
      some fun i : Fin (1 * levels) => params.merklePathElements.getD i 0 := by
  refine CircuitInputs.vector?_of_lookup rfl ?_
  rw [mapM_signalValue, CircuitInputs.ofFn_getD (by rw [hlen, Nat.one_mul])]

/-- The calculator reads the signals that the client means. -/
theorem disclosureSignals?_selectiveDisclosure1
    (hlen : params.merklePathElements.length = levels) :
    (selectiveDisclosure1 params).circuitInputs.disclosureSignals? levels 1 =
      some (params.signals levels) := by
  have hrow : ∀ (ni : Fin 1) (i : Fin levels), (finProdFinEquiv (ni, i)).val = i.val := by
    intro ni i
    simp [finProdFinEquiv_apply_val]
  unfold CircuitInputs.disclosureSignals?
  rw [vector?_single rfl (signalValue_fieldToCircuitHex params.root),
    vector?_single rfl (signalValue_fieldToCircuitHex params.noteCommitment),
    CircuitInputs.scalar?_of_lookup rfl (signalValue_fieldToCircuitHex params.extContextHash),
    vector?_single rfl (signalValue_fieldToCircuitHex (amountFr params.noteAmount)),
    vector?_single rfl (signalValue_fieldBytesToHex params.notePrivateKey),
    vector?_single rfl (signalValue_fieldToCircuitHex params.noteBlinding),
    vector?_single rfl (signalValue_fieldToCircuitHex params.merklePathIndices),
    pathElements_vector? hlen]
  simp only [Option.bind_eq_bind, Option.bind_some, hrow]
  rfl

end Read

/-! ## The constraints -/

/-- The commitment is the client's commitment to the amount, the key and the blinding. -/
def SelectiveDisclosure1Params.OpensNote (params : SelectiveDisclosure1Params) : Prop :=
  params.noteCommitment = PrivatePayments.noteCommitment (amountFr params.noteAmount)
    (keypair (scalarOf params.notePrivateKey.val)) params.noteBlinding

/-- **The inputs satisfy the circuit.** For a note of a tree with the proof that the client
builds for it, the inputs of `selective_disclosure_1` are read as signals that satisfy
`SelectiveDisclosure(levels, 1)`, and their public part is the root of the tree, the commitment
and the context hash. -/
theorem selectiveDisclosure1_satisfies (lib : Circomlib) {levels index : Nat} {leaves : List Fr}
    {tree : MerklePrefixTree} {proof : MerkleProof} {params : SelectiveDisclosure1Params}
    (hnew : MerklePrefixTree.new levels leaves = .ok tree) (hfits : leaves.length ≤ 2 ^ levels)
    (hget : leaves[index]? = some params.noteCommitment)
    (hproof : tree.build.proof index = .ok proof) (hopens : params.OpensNote)
    (hroot : params.root = proof.root) (hindices : params.merklePathIndices = proof.pathIndices)
    (helements : params.merklePathElements = proof.pathElements) :
    ∃ w, (selectiveDisclosure1 params).circuitInputs.disclosureSignals? levels 1 = some w ∧
      SelectiveDisclosure lib w ∧
      w.publicInputs = [treeRoot levels leaves, params.noteCommitment, params.extContextHash] := by
  obtain ⟨-, hle, -⟩ := MerklePrefixTree.new_inv hnew
  obtain ⟨hindex, hlen, htree, hfold⟩ := MerklePrefixTree.proof_sound hnew hfits hget hproof
  have hlt : proof.pathIndices.val < 2 ^ levels := by
    rw [hindex]
    exact (List.getElem?_eq_some_iff.mp hget).1.trans_le hfits
  have hsignals : List.ofFn ((params.signals levels).inPathElements 0) = proof.pathElements := by
    rw [← helements]
    exact CircuitInputs.ofFn_getD (by rw [helements, hlen])
  refine ⟨params.signals levels, disclosureSignals?_selectiveDisclosure1 (by rw [helements, hlen]),
    ⟨fun ni => ?_, _, rfl⟩, ?_⟩
  · obtain rfl : ni = 0 := Subsingleton.elim _ _
    refine ⟨hopens, ?_⟩
    have hcommitment : (params.signals levels).inCommitment 0 = params.noteCommitment := hopens.symm
    rw [hsignals, hcommitment, merkleProof_iff (by rw [hlen]; omega)]
    refine ⟨?_, ?_⟩
    · show params.merklePathIndices.val < _
      rw [hindices, hlen]
      exact hlt
    · show params.root = foldPath _ _ _ params.merklePathIndices.val
      rw [hindices, hfold, hroot]
  · rw [← htree, ← hroot]
    rfl

end PrivatePayments.Prover
