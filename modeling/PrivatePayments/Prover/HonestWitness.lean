import PrivatePayments.Prover.FlowsSound
import PrivatePayments.Circuits.SmtVerifierSound

/-!
# PrivatePayments.Prover.HonestWitness

The circuit accepts what `transact` builds. The inputs it writes are read back as the signals
`transactSignals`, and these satisfy the constraints when the paths and the proofs that the
caller supplies are right.
-/

namespace PrivatePayments.Prover

open PerfectTree

/-! ## Reading the inputs back -/

namespace CircuitInputs

variable {c : CircuitInputs} {name value : String} {values : List String}

theorem vector?_of_values {n : Nat} {f : Fin n → Fr} (h : c.values? name = some (List.ofFn f)) :
    c.vector? n name = some f := by
  have hlen : (List.ofFn f).length = n := List.length_ofFn
  unfold vector?
  rw [h, Option.bind_eq_bind, Option.bind_some, dif_pos hlen]
  congr 1
  funext i
  simp

theorem scalar?_of_lookup {x : Fr} (h : c.signals.lookup name = some (.single value))
    (hx : signalValue value = some x) : c.scalar? name = some x := by
  have hvalues : c.values? name = some (List.ofFn fun _ : Fin 1 => x) := by
    simp [values?, h, valuesOf, hx]
  rw [scalar?, vector?_of_values hvalues]
  rfl

theorem vector?_of_lookup {n : Nat} {f : Fin n → Fr}
    (h : c.signals.lookup name = some (.array values))
    (hx : values.mapM signalValue = some (List.ofFn f)) : c.vector? n name = some f := by
  refine vector?_of_values ?_
  rw [values?, h, Option.bind_some, valuesOf, hx]

theorem mapM_signalValue_map {α : Type} {write : α → String} {read : α → Fr}
    (h : ∀ a, signalValue (write a) = some (read a)) (l : List α) :
    (l.map write).mapM signalValue = some (l.map read) := by
  induction l with
  | nil => rfl
  | cons a l ih => simp [h, ih]

/-- A list as a vector, when it has the length. -/
theorem ofFn_getD {n : Nat} {l : List Fr} (h : l.length = n) :
    (List.ofFn fun i : Fin n => l.getD i 0) = l := by
  subst h
  refine List.ext_getElem (by simp) fun i _ _ => ?_
  simp

theorem pair_const {α : Type} (a : α) : ![a, a] = fun _ => a := by
  funext i
  match i with
  | 0 => rfl
  | 1 => rfl

/-- The rows of a matrix in row-major order. -/
theorem ofFn_rows {n m : Nat} (f : Fin n → Fin m → Fr) :
    (List.ofFn fun k => f (finProdFinEquiv.symm k).1 (finProdFinEquiv.symm k).2) =
      (List.ofFn fun i => List.ofFn (f i)).flatten := by
  rw [List.ofFn_mul]
  congr 1
  refine congrArg List.ofFn (funext fun i => congrArg List.ofFn (funext fun j => ?_))
  have hk : (⟨i * m + j, by
      calc i.val * m + j.val < (i.val + 1) * m := by
            rw [Nat.succ_mul]
            exact Nat.add_lt_add_left j.isLt _
        _ ≤ n * m := Nat.mul_le_mul_right m i.isLt⟩ : Fin (n * m)) = finProdFinEquiv (i, j) := by
    apply Fin.ext
    simp [finProdFinEquiv_apply_val, Nat.mul_comm, Nat.add_comm]
  rw [hk, Equiv.symm_apply_apply]

end CircuitInputs

/-! ## The signals -/

/-- The flag of a non-membership proof as the client writes it. -/
def isOld0Fr (isOld0 : Bool) : Fr := if isOld0 then amountFr 1 else 0

theorem isOld0Fr_eq (isOld0 : Bool) : isOld0Fr isOld0 = bit isOld0 := by
  cases isOld0 <;> rfl

/-- The membership proof of every input. -/
def membershipSignals (p : TransactParams) : MembershipProof p.treeDepth.toNat where
  leaf := p.membershipProof.leaf
  blinding := p.membershipProof.blinding
  pathElements := fun i => p.membershipProof.pathElements.getD i 0
  pathIndices := p.membershipProof.pathIndices

/-- The non-membership proof of every input. -/
def nonMembershipSignals (p : TransactParams) : NonMembershipProof p.smtDepth.toNat where
  key := p.nonMembershipProof.key
  siblings := fun i => p.nonMembershipProof.siblings.getD i 0
  oldKey := p.nonMembershipProof.oldKey
  oldValue := p.nonMembershipProof.oldValue
  isOld0 := isOld0Fr p.nonMembershipProof.isOld0

/-- The signals of a transaction. -/
def transactSignals (random : TransactRandomness) (p : TransactParams)
    (publicAmount extDataHash : Fr) :
    PolicySignals 2 2 1 1 p.treeDepth.toNat p.smtDepth.toNat where
  root := p.poolRoot
  publicAmount := publicAmount
  extDataHash := extDataHash
  inputNullifier := fun tx => noteNullifier p.privKey
    (inputCommitment p (inputSlot random p tx)) (inputSlot random p tx).merklePathIndices
  outputCommitment := fun tx => outputCommitment p (outputSlot random p tx)
  membershipRoots := fun _ _ => p.membershipProof.root
  nonMembershipRoots := fun _ _ => p.nonMembershipProof.root
  membershipProofs := fun _ _ => membershipSignals p
  nonMembershipProofs := fun _ _ => nonMembershipSignals p
  inAmount := fun tx => amountFr (inputSlot random p tx).amount
  inPrivateKey := fun _ => scalarOf p.privKey.val
  inBlinding := fun tx => (inputSlot random p tx).blinding
  inPathIndices := fun tx => (inputSlot random p tx).merklePathIndices
  inPathElements := fun tx i => (inputSlot random p tx).merklePathElements.getD i 0
  outAmount := fun tx => amountFr (outputSlot random p tx).amount
  outPubkey := fun tx => scalarOf (recipientNotePubkey p (outputSlot random p tx)).val
  outBlinding := fun tx => (outputSlot random p tx).blinding

section Read

variable {p : TransactParams} {publicAmount : Fr} {inputs : Fin 2 → TransactInputNote}
  {nullifiers : List Fr} {outs : Fin 2 → PreparedOutput} {extDataHash : String}

variable (p publicAmount inputs nullifiers outs extDataHash) in
/-- The inputs of the circuit, with their slots. -/
def circuitOf : CircuitInputs :=
  (buildCircuit p publicAmount (List.ofFn inputs) nullifiers (List.ofFn outs)).setSingle
    "extDataHash" extDataHash

theorem inputs_vector? (name : String) {write : TransactInputNote → String}
    {read : TransactInputNote → Fr}
    (h : (circuitOf p publicAmount inputs nullifiers outs extDataHash).signals.lookup name =
      some (.array ((List.ofFn inputs).map write)))
    (hx : ∀ input, signalValue (write input) = some (read input)) :
    (circuitOf p publicAmount inputs nullifiers outs extDataHash).vector? 2 name =
      some fun tx => read (inputs tx) := by
  refine CircuitInputs.vector?_of_lookup h ?_
  rw [CircuitInputs.mapM_signalValue_map hx, List.map_ofFn]
  rfl

theorem outputs_vector? (name : String) {write : PreparedOutput → String}
    {read : PreparedOutput → Fr}
    (h : (circuitOf p publicAmount inputs nullifiers outs extDataHash).signals.lookup name =
      some (.array ((List.ofFn outs).map write)))
    (hx : ∀ out, signalValue (write out) = some (read out)) :
    (circuitOf p publicAmount inputs nullifiers outs extDataHash).vector? 2 name =
      some fun tx => read (outs tx) := by
  refine CircuitInputs.vector?_of_lookup h ?_
  rw [CircuitInputs.mapM_signalValue_map hx, List.map_ofFn]
  rfl

theorem inPathElements_vector? (hlen : ∀ tx, (inputs tx).merklePathElements.length = n) :
    (circuitOf p publicAmount inputs nullifiers outs extDataHash).vector? (2 * n)
      "inPathElements" = some fun k =>
        (inputs (finProdFinEquiv.symm k).1).merklePathElements.getD (finProdFinEquiv.symm k).2 0 := by
  refine CircuitInputs.vector?_of_lookup rfl ?_
  have hrows : (List.ofFn inputs).flatMap (fun i => i.merklePathElements.map fieldToCircuitHex) =
      (List.ofFn fun tx => (inputs tx).merklePathElements).flatten.map fieldToCircuitHex := by
    simp [List.flatMap]
  rw [hrows, mapM_signalValue,
    CircuitInputs.ofFn_rows fun (tx : Fin 2) (i : Fin n) => (inputs tx).merklePathElements.getD i 0]
  congr 2
  exact congrArg List.ofFn (funext fun tx => (CircuitInputs.ofFn_getD (hlen tx)).symm)

theorem membershipProof?_slot {slot : Nat} (hslot : slot < 2)
    (hlen : p.membershipProof.pathElements.length = p.treeDepth.toNat) :
    (circuitOf p publicAmount inputs nullifiers outs extDataHash).membershipProof?
      p.treeDepth.toNat slot = some (membershipSignals p) := by
  have hpath : (p.membershipProof.pathElements.map fieldToCircuitHex).mapM signalValue =
      some (List.ofFn (membershipSignals p).pathElements) := by
    rw [mapM_signalValue]
    exact congrArg some (CircuitInputs.ofFn_getD hlen).symm
  have hslots : slot = 0 ∨ slot = 1 := by omega
  obtain rfl | rfl := hslots <;>
  · unfold CircuitInputs.membershipProof?
    rw [CircuitInputs.scalar?_of_lookup rfl (signalValue_fieldToCircuitHex p.membershipProof.leaf),
      CircuitInputs.scalar?_of_lookup rfl
        (signalValue_fieldToCircuitHex p.membershipProof.blinding),
      CircuitInputs.vector?_of_lookup rfl hpath,
      CircuitInputs.scalar?_of_lookup rfl
        (signalValue_fieldToCircuitHex p.membershipProof.pathIndices)]
    rfl

theorem nonMembershipProof?_slot {slot : Nat} (hslot : slot < 2)
    (hlen : p.nonMembershipProof.siblings.length = p.smtDepth.toNat) :
    (circuitOf p publicAmount inputs nullifiers outs extDataHash).nonMembershipProof?
      p.smtDepth.toNat slot = some (nonMembershipSignals p) := by
  have hsiblings : (p.nonMembershipProof.siblings.map fieldToCircuitHex).mapM signalValue =
      some (List.ofFn (nonMembershipSignals p).siblings) := by
    rw [mapM_signalValue]
    exact congrArg some (CircuitInputs.ofFn_getD hlen).symm
  have hslots : slot = 0 ∨ slot = 1 := by omega
  obtain rfl | rfl := hslots <;>
  · unfold CircuitInputs.nonMembershipProof?
    rw [CircuitInputs.scalar?_of_lookup rfl
        (signalValue_fieldToCircuitHex p.nonMembershipProof.key),
      CircuitInputs.vector?_of_lookup rfl hsiblings,
      CircuitInputs.scalar?_of_lookup rfl
        (signalValue_fieldToCircuitHex p.nonMembershipProof.oldKey),
      CircuitInputs.scalar?_of_lookup rfl
        (signalValue_fieldToCircuitHex p.nonMembershipProof.oldValue),
      CircuitInputs.scalar?_of_lookup rfl
        (signalValue_fieldToCircuitHex (isOld0Fr p.nonMembershipProof.isOld0))]
    rfl

/-- The calculator reads the signals that the client means. -/
theorem policySignals?_circuitOf {random : TransactRandomness} {x : Fr}
    (hmembership : p.membershipProof.pathElements.length = p.treeDepth.toNat)
    (hsiblings : p.nonMembershipProof.siblings.length = p.smtDepth.toNat)
    (hpaths : ∀ tx, (inputSlot random p tx).merklePathElements.length = p.treeDepth.toNat)
    (hnullifiers : nullifiers =
      List.ofFn (transactSignals random p publicAmount x).inputNullifier)
    (houts : ∀ tx, (outs tx).output = outputSlot random p tx ∧
      (outs tx).notePubkey = recipientNotePubkey p (outputSlot random p tx) ∧
      (outs tx).commitment = outputCommitment p (outputSlot random p tx))
    (hhash : signalValue extDataHash = some x) :
    (circuitOf p publicAmount (inputSlot random p) nullifiers outs extDataHash).policySignals?
      p.treeDepth.toNat p.smtDepth.toNat = some (transactSignals random p publicAmount x) := by
  have hroots : ∀ root : Fr, [fieldToCircuitHex root, fieldToCircuitHex root].mapM signalValue =
      some (List.ofFn fun _ : Fin (2 * 1) => root) := by
    intro root
    rw [show List.ofFn (fun _ : Fin (2 * 1) => root) = [root, root] from ofFn_two _]
    exact mapM_signalValue [root, root]
  unfold CircuitInputs.policySignals?
  rw [CircuitInputs.scalar?_of_lookup rfl (signalValue_fieldToCircuitHex p.poolRoot),
    CircuitInputs.scalar?_of_lookup rfl (signalValue_fieldToCircuitHex publicAmount),
    CircuitInputs.scalar?_of_lookup rfl hhash,
    CircuitInputs.vector?_of_lookup rfl ((mapM_signalValue nullifiers).trans
      (congrArg some hnullifiers)),
    outputs_vector? "outputCommitment" rfl
      (fun out => signalValue_fieldToCircuitHex out.commitment),
    CircuitInputs.vector?_of_lookup rfl (hroots p.membershipProof.root),
    CircuitInputs.vector?_of_lookup rfl (hroots p.nonMembershipProof.root),
    membershipProof?_slot (by decide) hmembership, membershipProof?_slot (by decide) hmembership,
    nonMembershipProof?_slot (by decide) hsiblings, nonMembershipProof?_slot (by decide) hsiblings,
    inputs_vector? "inAmount" rfl (fun input => signalValue_fieldToCircuitHex (amountFr input.amount)),
    inputs_vector? "inPrivateKey" rfl (fun _ => signalValue_fieldBytesToHex p.privKey),
    inputs_vector? "inBlinding" rfl (fun input => signalValue_fieldToCircuitHex input.blinding),
    inputs_vector? "inPathIndices" rfl
      (fun input => signalValue_fieldToCircuitHex input.merklePathIndices),
    inPathElements_vector? hpaths,
    outputs_vector? "outAmount" rfl
      (fun out => signalValue_fieldToCircuitHex (amountFr out.output.amount)),
    outputs_vector? "outPubkey" rfl (fun out => signalValue_fieldBytesToHex out.notePubkey),
    outputs_vector? "outBlinding" rfl
      (fun out => signalValue_fieldToCircuitHex out.output.blinding)]
  simp only [Option.bind_eq_bind, Option.bind_some, Equiv.symm_apply_apply, houts, CircuitInputs.pair_const]
  rfl

end Read

/-! ## The constraints -/

/-- The hashes that a transaction computes. -/
def transactQueries (random : TransactRandomness) (p : TransactParams) (tx : Fin 2) :
    List Query :=
  let w := transactSignals random p 0 0
  [.hash2 (w.inPrivateKey tx) 0 3,
   .hash3 (w.inAmount tx) (w.inPublicKey tx) (w.inBlinding tx) 1,
   .hash3 (w.inPrivateKey tx) (w.inCommitment tx) (w.inPathIndices tx) 4,
   .hash3 (w.inCommitment tx) (w.inPathIndices tx) (w.inSignature tx) 2,
   .hash3 (w.outAmount tx) (w.outPubkey tx) (w.outBlinding tx) 1]

/-- The Merkle path of an input leads from its commitment to the root of the pool. -/
def InPool (p : TransactParams) (input : TransactInputNote) : Prop :=
  input.merklePathIndices.val < 2 ^ p.treeDepth.toNat ∧
    foldPath poseidon2Compress (inputCommitment p input) input.merklePathElements
      input.merklePathIndices.val = p.poolRoot

/-- The membership proof is for the sender's key. -/
def IsMember (p : TransactParams) : Prop :=
  p.membershipProof.leaf =
      membershipLeaf (keypair (scalarOf p.privKey.val)) p.membershipProof.blinding ∧
    p.membershipProof.pathIndices.val < 2 ^ p.treeDepth.toNat ∧
    foldPath poseidon2Compress p.membershipProof.leaf p.membershipProof.pathElements
      p.membershipProof.pathIndices.val = p.membershipProof.root

/-- The non-membership proof is for the sender's key. -/
def IsNotBlocked (lib : Circomlib) (p : TransactParams) : Prop :=
  p.nonMembershipProof.key = keypair (scalarOf p.privKey.val) ∧
    smtVerifier lib 1 p.nonMembershipProof.root p.nonMembershipProof.siblings
      p.nonMembershipProof.oldKey p.nonMembershipProof.oldValue (bit p.nonMembershipProof.isOld0)
      p.nonMembershipProof.key p.nonMembershipProof.key 1

section Satisfied

variable {lib : Circomlib} {random : TransactRandomness} {p : TransactParams}
  {publicAmount extDataHash : Fr}

/-- A path as the constraints of `MerkleProof`, for trees of any depth. -/
theorem merkleProof_of_fold
    (hbits : ∀ (n : Nat) (x : Fr), x.val < 2 ^ n → lib.num2Bits n x (bits n x.val))
    {leaf pathIndices : Fr} {pathElements : List Fr}
    (hlt : pathIndices.val < 2 ^ pathElements.length) :
    merkleProof lib leaf pathElements pathIndices
      (foldPath poseidon2Compress leaf pathElements pathIndices.val) :=
  ⟨_, hbits _ _ hlt, (merkleHashers_iff pathElements).mpr rfl⟩

/-- The commitment that the circuit computes is the client's. -/
theorem transactSignals_inCommitment (tx : Fin 2) :
    (transactSignals random p publicAmount extDataHash).inCommitment tx =
      inputCommitment p (inputSlot random p tx) := by
  unfold inputCommitment noteCommitment senderNotePubkey
  rw [scalarOf_scalarToBytes]
  rfl

theorem transactSignals_inputs
    (hbits : ∀ (n : Nat) (x : Fr), x.val < 2 ^ n → lib.num2Bits n x (bits n x.val))
    (hpaths : ∀ tx, (inputSlot random p tx).merklePathElements.length = p.treeDepth.toNat)
    (hmembershipLength : p.membershipProof.pathElements.length = p.treeDepth.toNat)
    (hsiblingsLength : p.nonMembershipProof.siblings.length = p.smtDepth.toNat)
    (hpool : ∀ input ∈ p.inputs, InPool p input) (hmember : IsMember p)
    (hblocked : IsNotBlocked lib p) (tx : Fin 2) :
    InputConstraints lib (transactSignals random p publicAmount extDataHash) tx where
  nullifier := by
    show PrivatePayments.noteNullifier _ _ (PrivatePayments.signature _ _ _) = _
    rw [transactSignals_inCommitment]
    rfl
  tree := by
    have helements : List.ofFn
        ((transactSignals random p publicAmount extDataHash).inPathElements tx) =
          (inputSlot random p tx).merklePathElements := CircuitInputs.ofFn_getD (hpaths tx)
    have hlt : (inputSlot random p tx).merklePathIndices.val <
        2 ^ (inputSlot random p tx).merklePathElements.length := by
      rw [hpaths tx]
      obtain hinput | ⟨blinding, hdummy⟩ := inputSlot_cases random p tx
      · exact (hpool _ hinput).1
      · rw [hdummy]
        exact Nat.two_pow_pos _
    rw [helements, transactSignals_inCommitment]
    refine ⟨_, merkleProof_of_fold hbits hlt,
      lib.forceEqualIfEnabled_iff.mpr fun hamount => ?_⟩
    -- a dummy is worth nothing, so its path is not compared with the root
    obtain hinput | ⟨blinding, hdummy⟩ := inputSlot_cases random p tx
    · exact (hpool _ hinput).2.symm
    · refine absurd ?_ hamount
      show amountFr (inputSlot random p tx).amount = 0
      rw [hdummy]
      rfl
  membership := fun i => by
    have helements : List.ofFn (membershipSignals p).pathElements =
        p.membershipProof.pathElements := CircuitInputs.ofFn_getD hmembershipLength
    refine ⟨hmember.1, ?_⟩
    show merkleProof lib p.membershipProof.leaf (List.ofFn (membershipSignals p).pathElements)
      p.membershipProof.pathIndices p.membershipProof.root
    rw [helements, ← hmember.2.2]
    exact merkleProof_of_fold hbits (hmembershipLength ▸ hmember.2.1)
  nonMembership := fun i => by
    have hsiblings : List.ofFn (nonMembershipSignals p).siblings =
        p.nonMembershipProof.siblings := CircuitInputs.ofFn_getD hsiblingsLength
    have hlt : (bit p.nonMembershipProof.isOld0).val < 2 ^ 1 := by
      cases p.nonMembershipProof.isOld0 <;> decide
    have hhead : (bits 1 (bit p.nonMembershipProof.isOld0).val).headD 0 =
        bit p.nonMembershipProof.isOld0 := by
      cases p.nonMembershipProof.isOld0 <;> decide
    have hflag : (nonMembershipSignals p).isOld0 = bit p.nonMembershipProof.isOld0 :=
      isOld0Fr_eq _
    refine ⟨hblocked.1, bits 1 (bit p.nonMembershipProof.isOld0).val, ?_, ?_⟩
    · show lib.num2Bits 1 (nonMembershipSignals p).isOld0 _
      rw [hflag]
      exact hbits 1 _ hlt
    · rw [hhead]
      show smtVerifier lib 1 p.nonMembershipProof.root (List.ofFn (nonMembershipSignals p).siblings)
        _ _ _ p.nonMembershipProof.key p.nonMembershipProof.key 1
      rw [hsiblings]
      exact hblocked.2

theorem transactSignals_outputs (tx : Fin 2) :
    OutputConstraints lib (transactSignals random p publicAmount extDataHash) tx where
  commitment := rfl
  range := by
    refine ⟨_, (lib.num2Bits_iff (by decide)).mpr ⟨?_, rfl⟩⟩
    exact (outputSlot random p tx).amount.isLt.trans (by decide)

/-- Different inputs have different nullifiers. -/
theorem transactSignals_sameNullifiers
    (hinj : Set.InjOn Query.eval { q | ∃ tx, q ∈ transactQueries random p tx })
    (hdistinct : Function.Injective fun tx =>
      (inputCommitment p (inputSlot random p tx), (inputSlot random p tx).merklePathIndices))
    {i j : Fin 2} (hij : i < j) :
    lib.isEqual ((transactSignals random p publicAmount extDataHash).inputNullifier i)
      ((transactSignals random p publicAmount extDataHash).inputNullifier j) 0 := by
  have hcommitment : ∀ tx, (transactSignals random p 0 0).inCommitment tx =
      inputCommitment p (inputSlot random p tx) := fun tx => transactSignals_inCommitment tx
  have hmem : ∀ tx, Query.hash3 (inputCommitment p (inputSlot random p tx))
      (inputSlot random p tx).merklePathIndices
      ((transactSignals random p 0 0).inSignature tx) 2 ∈
        { q | ∃ tx, q ∈ transactQueries random p tx } := by
    intro tx
    refine ⟨tx, ?_⟩
    rw [← hcommitment tx]
    simp only [transactQueries, List.mem_cons]
    exact .inr (.inr (.inr (.inl rfl)))
  have heval : ∀ tx, (transactSignals random p publicAmount extDataHash).inputNullifier tx =
      (Query.hash3 (inputCommitment p (inputSlot random p tx))
        (inputSlot random p tx).merklePathIndices
        ((transactSignals random p 0 0).inSignature tx) 2).eval := by
    intro tx
    unfold PolicySignals.inSignature
    rw [hcommitment tx]
    rfl
  rw [lib.isEqual_iff, decide_eq_false, bit_false]
  intro heq
  rw [heval, heval] at heq
  have hquery := hinj (hmem i) (hmem j) heq
  injection hquery with hfirst hindex
  exact hij.ne (hdistinct (Prod.ext hfirst hindex))

/-- Inputs and public amount give the outputs, modulo the field order. -/
theorem transactSignals_amounts {f : Fr} (hf : Stellar.fieldTryFromExtAmount p.extAmount = .ok f)
    (hbalance : ((inputSlot random p 0).amount.val + (inputSlot random p 1).amount.val : Int) +
        p.extAmount.val =
      (outputSlot random p 0).amount.val + (outputSlot random p 1).amount.val) :
    ∑ tx, (transactSignals random p f extDataHash).inAmount tx + f =
      ∑ tx, (transactSignals random p f extDataHash).outAmount tx := by
  obtain ⟨f', hf', hval⟩ := Stellar.fieldTryFromExtAmount_eq p.extAmount
  rw [hf] at hf'
  cases hf'
  have h0 := (inputSlot random p 0).amount.isLt
  have h1 := (inputSlot random p 1).amount.isLt
  have h2 := (outputSlot random p 0).amount.isLt
  have h3 := (outputSlot random p 1).amount.isLt
  rw [Fin.sum_univ_two, Fin.sum_univ_two]
  apply Fin.ext
  show (((inputSlot random p 0).amount.val + (inputSlot random p 1).amount.val) % bn256Modulus +
    f.val) % bn256Modulus =
      ((outputSlot random p 0).amount.val + (outputSlot random p 1).amount.val) % bn256Modulus
  unfold Pool.encodeAmount at hval
  unfold bn256Modulus at *
  unfold u128Size at *
  split at hval <;> omega

end Satisfied

/-- **A transaction of the client satisfies the circuit.** For 0, 1 or 2 inputs and outputs and
any external amount: what `transact` builds is read as signals that satisfy every constraint,
and their public part is what it returns in `PreparedTx`. The hash of the external data is any
function to canonical field elements. -/
theorem transact_satisfies (lib : Circomlib)
    (hwide : ∀ (n : Nat) (x : Fr), 254 ≤ n → lib.num2Bits n x (bits n x.val))
    {box : NoteBox} {random : TransactRandomness} {hashExtData : ExtData → Except String Bytes32}
    (hcanonical : ∀ ext be, hashExtData ext = .ok be → leValue be.val.reverse < bn256Modulus)
    {p : TransactParams} {art : TransactArtifacts}
    (hok : transact box random hashExtData p = .ok art)
    (hpool : ∀ input ∈ p.inputs, InPool p input)
    (hdistinct : Function.Injective fun tx =>
      (inputCommitment p (inputSlot random p tx), (inputSlot random p tx).merklePathIndices))
    (hinj : Set.InjOn Query.eval { q | ∃ tx, q ∈ transactQueries random p tx })
    (hmember : IsMember p) (hblocked : IsNotBlocked lib p) :
    ∃ w, art.circuitInputs.policySignals? p.treeDepth.toNat p.smtDepth.toNat = some w ∧
      PolicyTransaction lib w ∧
      w.publicInputs =
        [art.prepared.poolRoot, art.prepared.publicAmountField,
          scalarOf art.prepared.extDataHashBe.val.reverse] ++
        art.prepared.inputNullifiers ++ art.prepared.outputCommitments ++
        [art.prepared.aspMembershipRoot, art.prepared.aspMembershipRoot] ++
        [art.prepared.aspNonMembershipRoot, art.prepared.aspNonMembershipRoot] := by
  obtain ⟨outs, h⟩ := transact_ok hok
  have hbits : ∀ (n : Nat) (x : Fr), x.val < 2 ^ n → lib.num2Bits n x (bits n x.val) := by
    intro n x hlt
    by_cases hn : 254 ≤ n
    · exact hwide n x hn
    · exact (lib.num2Bits_iff (Nat.lt_of_not_le hn)).mpr ⟨hlt, rfl⟩
  have hhash : signalValue (be32To0xHex art.prepared.extDataHashBe.val) =
      some (scalarOf art.prepared.extDataHashBe.val.reverse) := by
    have hlt := hcanonical _ _ h.hash
    have hne : art.prepared.extDataHashBe.val ≠ [] := by
      intro hnil
      have hlen := art.prepared.extDataHashBe.property
      rw [hnil] at hlen
      cases hlen
    rw [signalValue_be32To0xHex hne]
    exact (dif_pos hlt).trans (congrArg some (Fin.ext (Nat.mod_eq_of_lt hlt).symm))
  refine ⟨transactSignals random p art.prepared.publicAmountField
    (scalarOf art.prepared.extDataHashBe.val.reverse), ?_, ?_, ?_⟩
  · rw [h.circuit]
    exact policySignals?_circuitOf h.membership_length h.siblings_length h.path_length
      h.nullifiers (fun tx => ⟨(h.outputs tx).slot, (h.outputs tx).notePubkey,
        (h.outputs tx).commitment⟩) hhash
  · exact {
      inputs := transactSignals_inputs hbits h.path_length h.membership_length
        h.siblings_length hpool hmember hblocked
      outputs := transactSignals_outputs
      sameNullifiers := fun _ _ hij => transactSignals_sameNullifiers hinj hdistinct hij
      amounts := transactSignals_amounts h.publicAmount h.balance
      extDataSquare := ⟨_, rfl⟩ }
  · obtain ⟨hroot, hmembership, hnonMembership⟩ := h.roots
    rw [hroot, hmembership, hnonMembership, h.nullifiers, h.commitments]
    rfl

/-! ## A withdrawal -/

/-- A box that hides nothing and whose tag is the shared secret. -/
def tagBox : NoteBox where
  publicKey key := key
  diffieHellman a b := ⟨a.val.zipWith (· + ·) b.val, by simp [a.property, b.property]⟩
  encrypt secret _ plaintext := some (plaintext ++ secret.val.take 16)
  decrypt secret _ ciphertext :=
    if 16 ≤ ciphertext.length ∧
        ciphertext.drop (ciphertext.length - 16) = secret.val.take 16 then
      some (ciphertext.take (ciphertext.length - 16))
    else none
  decrypt_length := by
    intro secret nonce ciphertext plaintext h
    split at h
    · cases h
      simp
      omega
    · cases h

/-- A number as a key. -/
def numberKey (n : Nat) : Bytes32 := ⟨toLeBytes 32 n, length_toLeBytes 32 n⟩

/-- The note of 5 units that the withdrawal spends. -/
def withdrawnNote : TransactInputNote where
  amount := 5
  blinding := 7
  merklePathElements := [0]
  merklePathIndices := 0

/-- Of one note of 5 units, 2 are withdrawn and 3 are change; the pool and the association set
have this one leaf each. -/
def withdrawParams : TransactParams where
  privKey := numberKey 11
  encryptionPubkey := numberKey 12
  poolRoot := poseidon2Compress (poseidon2Hash3 5 (keypair 11) 7 1) 0
  extRecipient := "GA"
  extAmount := ⟨-2, by decide⟩
  inputs := [withdrawnNote]
  outputs := [⟨3, 8, none, none⟩]
  membershipProof := {
    leaf := membershipLeaf (keypair 11) 0
    blinding := 0
    pathElements := [0]
    pathIndices := 0
    root := poseidon2Compress (membershipLeaf (keypair 11) 0) 0 }
  nonMembershipProof := ⟨keypair 11, 0, 0, true, [0], 0⟩
  treeDepth := 1
  smtDepth := 1

/-- The random bytes of the withdrawal. -/
def withdrawRandomness : TransactRandomness where
  inputBlinding i := Fin.ofNat _ (21 + i)
  outputBlinding i := Fin.ofNat _ (31 + i)
  box i := ⟨numberKey (41 + i), ⟨List.replicate 24 0, rfl⟩⟩

/-- A hash that is zero. -/
def zeroHash (_ : ExtData) : Except String Bytes32 := .ok (numberKey 0)

theorem withdrawQueries_injOn :
    Set.InjOn Query.eval { q | ∃ tx, q ∈ transactQueries withdrawRandomness withdrawParams tx } := by
  have hnodup : ((transactQueries withdrawRandomness withdrawParams 0 ++
      transactQueries withdrawRandomness withdrawParams 1).dedup.map Query.eval).Nodup := by
    decide +kernel
  have hmem : ∀ q, (∃ tx, q ∈ transactQueries withdrawRandomness withdrawParams tx) →
      q ∈ (transactQueries withdrawRandomness withdrawParams 0 ++
        transactQueries withdrawRandomness withdrawParams 1).dedup := by
    intro q hq
    obtain ⟨tx, hq⟩ := hq
    rw [List.mem_dedup, List.mem_append]
    match tx with
    | 0 => exact .inl hq
    | 1 => exact .inr hq
  exact fun q hq q' hq' heq => List.inj_on_of_nodup_map hnodup (hmem q hq) (hmem q' hq') heq

theorem documented_wide (n : Nat) (x : Fr) (h : 254 ≤ n) :
    Circomlib.documented.num2Bits n x (bits n x.val) := by
  have hlt : x.val < 2 ^ 254 := x.isLt.trans (by decide)
  exact ⟨hlt.trans_le (Nat.pow_le_pow_right (by decide) h), rfl⟩

theorem transact_satisfies_withdraw :
    ∃ art w, transact tagBox withdrawRandomness zeroHash withdrawParams = .ok art ∧
      art.circuitInputs.policySignals? withdrawParams.treeDepth.toNat
        withdrawParams.smtDepth.toNat = some w ∧
      PolicyTransaction Circomlib.documented w := by
  have hisOk : (transact tagBox withdrawRandomness zeroHash withdrawParams).isOk = true := by
    decide +kernel
  cases hok : transact tagBox withdrawRandomness zeroHash withdrawParams with
  | error e =>
      rw [hok] at hisOk
      cases hisOk
  | ok art =>
      have hpool : ∀ input ∈ withdrawParams.inputs, InPool withdrawParams input := by
        intro input hinput
        rw [List.mem_singleton.mp hinput]
        unfold InPool
        decide +kernel
      have hdistinct : ∀ i j : Fin 2,
          (inputCommitment withdrawParams (inputSlot withdrawRandomness withdrawParams i),
            (inputSlot withdrawRandomness withdrawParams i).merklePathIndices) =
          (inputCommitment withdrawParams (inputSlot withdrawRandomness withdrawParams j),
            (inputSlot withdrawRandomness withdrawParams j).merklePathIndices) → i = j := by
        decide +kernel
      have hmember : IsMember withdrawParams := by
        unfold IsMember
        decide +kernel
      have hblocked : IsNotBlocked Circomlib.documented withdrawParams :=
        ⟨by decide +kernel, (@smtVerifier_iff _ _ _ _ _ _ true _).mpr
          ⟨rfl, rfl, fun h => by cases h⟩⟩
      obtain ⟨w, hread, hsat, -⟩ := transact_satisfies Circomlib.documented documented_wide
        (fun ext be h => by cases h; decide) hok hpool (fun _ _ => hdistinct _ _)
        withdrawQueries_injOn hmember hblocked
      exact ⟨art, w, rfl, hread, hsat⟩

end PrivatePayments.Prover
