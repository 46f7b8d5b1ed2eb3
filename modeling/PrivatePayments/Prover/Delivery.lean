import PrivatePayments.Prover.HonestWitness
import PrivatePayments.Contracts.PoolSafety

/-!
# PrivatePayments.Prover.Delivery

From the sender to the recipient and back to the pool: an output of `transact` is found by
the scan of its recipient under every leaf index that the pool gives its commitment, and the
nullifier derived there is the one that spending the note publishes.
-/

namespace PrivatePayments.Prover

open Pool (announced outputs)

/-! ## Finding the note -/

section Found

variable {box : NoteBox} {random : TransactRandomness}
  {hashExtData : ExtData → Except String Bytes32} {p : TransactParams} {art : TransactArtifacts}

/-- The commitment and the encrypted output of slot `i`. -/
def Emitted (art : TransactArtifacts) (i : Nat) (commitment : Fr) (encrypted : List UInt8) :
    Prop :=
  art.prepared.outputCommitments[i]? = some commitment ∧
    [art.extData.encryptedOutput0, art.extData.encryptedOutput1][i]? = some encrypted

theorem outputSlot_of_getElem? (random : TransactRandomness) {i : Nat} {output : TransactOutput}
    (hlen : p.outputs.length ≤ 2) (hget : p.outputs[i]? = some output) :
    ∃ hi : i < 2, outputSlot random p ⟨i, hi⟩ = output := by
  obtain ⟨hlt, heq⟩ := List.getElem?_eq_some_iff.mp hget
  refine ⟨hlt.trans_le hlen, ?_⟩
  unfold outputSlot
  rw [List.getD_eq_getElem _ _ hlt]
  exact heq

/-- What `transact` returns for an output. -/
theorem transact_emits (hok : transact box random hashExtData p = .ok art) {i : Nat}
    {output : TransactOutput} (hget : p.outputs[i]? = some output) :
    ∃ encrypted, Emitted art i (outputCommitment p output) encrypted ∧
      encryptOutputNote box (random.box i) (recipientEncryptionPubkey p output) output.amount
        output.blinding = .ok encrypted := by
  obtain ⟨outs, h⟩ := transact_ok hok
  obtain ⟨hi, hslot⟩ := outputSlot_of_getElem? random h.outputs_length hget
  have hout := h.outputs ⟨i, hi⟩
  rw [hslot] at hout
  refine ⟨(outs ⟨i, hi⟩).encrypted, ⟨?_, ?_⟩, hout.encrypted⟩
  · rw [h.commitments, List.getElem?_ofFn, dif_pos hi, hslot]
  · rw [h.extData]
    match i, hi with
    | 0, _ => rfl
    | 1, _ => rfl

/-- A key pair as the recipient holds it. -/
theorem publicKey_eq {pk sk : Bytes32} (h : derivePublicKey sk.val = .ok pk.val) :
    pk.val = scalarToBytes (keypair (scalarOf sk.val)) := by
  rw [derivePublicKey_eq sk.property] at h
  exact (Except.ok.inj h).symm

/-- The scan of the recipient returns the note. -/
theorem tryDecrypt_delivered (hbox : box.Inverts) {random : BoxRandomness} {pk sk esk : Bytes32}
    {amount : NoteAmount} (hamount : amount ≠ 0) {blinding : Fr} {encrypted : List UInt8}
    (hsent : encryptOutputNote box random (box.publicKey esk) amount blinding = .ok encrypted)
    (leafIndex : UInt32) :
    tryDecryptAndDeriveUserNote box ⟨sk, pk⟩ esk (noteCommitment amount pk blinding) leafIndex
      encrypted = .ok (some
        { amount, blinding,
          expectedNullifier :=
            noteNullifier sk (noteCommitment amount pk blinding) (indexFr leafIndex) }) := by
  obtain ⟨derived, hok, hderives⟩ := @tryDecryptAndDeriveUserNote_ok box ⟨sk, pk⟩ esk
    (noteCommitment amount pk blinding) leafIndex encrypted _
    (decryptOutputNote_encryptOutputNote hbox hsent)
  rw [hok]
  cases hderives with
  | skipped _ h => exact absurd ⟨hamount, rfl⟩ h
  | found _ _ => rfl

end Found

/-! ## Spending the note -/

/-- Input `j` of `p` spends the note of the private key `sk` along the path of `proof`. -/
def Spends (p : TransactParams) (j : Nat) (sk : Bytes32) (note : DerivedUserNote)
    (proof : MerkleProof) : Prop :=
  p.privKey = sk ∧ ∃ input, p.inputs[j]? = some input ∧ input.amount = note.amount ∧
    input.blinding = note.blinding ∧ input.merklePathElements = proof.pathElements ∧
    input.merklePathIndices = proof.pathIndices

theorem inputSlot_of_getElem? (random : TransactRandomness) {p : TransactParams} {j : Nat}
    {input : TransactInputNote} (hlen : p.inputs.length ≤ 2) (hget : p.inputs[j]? = some input) :
    ∃ hj : j < 2, inputSlot random p ⟨j, hj⟩ = input := by
  obtain ⟨hlt, heq⟩ := List.getElem?_eq_some_iff.mp hget
  refine ⟨hlt.trans_le hlen, ?_⟩
  unfold inputSlot
  rw [List.getD_eq_getElem _ _ hlt]
  exact heq

/-- The nullifier that `transact` computes for a spent note is the one that discovery has
derived from the leaf index. -/
theorem transact_spends {box : NoteBox} {random : TransactRandomness}
    {hashExtData : ExtData → Except String Bytes32} {p : TransactParams} {art : TransactArtifacts}
    (hok : transact box random hashExtData p = .ok art) {j : Nat} {pk sk : Bytes32}
    (hpk : derivePublicKey sk.val = .ok pk.val) {amount : NoteAmount} {blinding : Fr}
    {leafIndex : UInt32} {proof : MerkleProof}
    (hindex : proof.pathIndices.val = leafIndex.toNat)
    (hspends : Spends p j sk
      { amount, blinding,
        expectedNullifier :=
          noteNullifier sk (noteCommitment amount pk blinding) (indexFr leafIndex) } proof) :
    art.prepared.inputNullifiers[j]? =
      some (noteNullifier sk (noteCommitment amount pk blinding) (indexFr leafIndex)) := by
  obtain ⟨outs, h⟩ := transact_ok hok
  obtain ⟨rfl, input, hget, hamount, hblinding, -, hpath⟩ := hspends
  obtain ⟨hj, hslot⟩ := inputSlot_of_getElem? random h.inputs_length hget
  have hsender : senderNotePubkey p = pk := Subtype.ext (publicKey_eq hpk).symm
  have hcommitment : inputCommitment p input = noteCommitment amount pk blinding := by
    rw [inputCommitment, hsender, hamount, hblinding]
  have hindices : input.merklePathIndices = indexFr leafIndex := by
    rw [hpath]
    exact Fin.ext hindex
  rw [h.nullifiers, List.getElem?_ofFn, dif_pos hj, hslot, hcommitment, hindices]

/-! ## The pool -/

section Pool

variable {host : Pool.Host} {levels : Nat} {verifier : Pool.Address}
  {txs : List Pool.Transaction} {s : Pool.PoolStorage}

/-- A leaf index that the pool has announced is the place of the leaf. -/
theorem announced_index (h : Pool.Reflects levels verifier txs s) {commitment : Fr} {index : Nat}
    (hevent : (commitment.toU256, index) ∈ announced s.events) :
    (outputs txs)[index]? = some commitment ∧ index < 2 ^ 32 := by
  rw [h.events, List.mem_zipIdx_iff_getElem?, List.getElem?_map] at hevent
  obtain ⟨leaf, hleaf, heq⟩ := Option.map_eq_some_iff.mp hevent
  rw [Fr.toU256_inj.mp heq] at hleaf
  refine ⟨hleaf, ?_⟩
  have hlt := (List.getElem?_eq_some_iff.mp hleaf).1
  exact hlt.trans_le h.tree.length_le

/-- An accepted call publishes its nullifiers first, in order. -/
theorem transact_publishes (h : Pool.Reflects levels verifier txs s) {env : Pool.CallEnv}
    {tx : Pool.Transaction} {s' : Pool.PoolStorage}
    (hrun : (Pool.transact host env tx.proof tx.extData tx.sender).run s = .ok () s') {j : Nat}
    {nullifier : U256} (hget : tx.proof.inputNullifiers[j]? = some nullifier) :
    (s'.events.drop s.events.length)[j]? = some (.newNullifier nullifier) := by
  obtain ⟨nulls, hnulls, -⟩ := h.nullifiers
  have hsome : s.nullifiers.isSome := by simp [hnulls]
  obtain ⟨_, tree, idx, -, -, hs'⟩ := (Pool.transact_accepts h.tree hsome hrun).written
  have hlt := (List.getElem?_eq_some_iff.mp hget).1
  rw [hs', List.append_assoc, List.drop_left' rfl,
    List.getElem?_append_left (by simpa using hlt), List.getElem?_map, hget]
  rfl

end Pool

/-- Whoever spends the note along the path of `proof` computes the derived nullifier in that
slot, and a pool in the state `s` that accepts the transaction publishes it there. -/
def SpentAs (host : Pool.Host) (s : Pool.PoolStorage) (sk : Bytes32) (note : DerivedUserNote)
    (proof : MerkleProof) : Prop :=
  ∀ (box : NoteBox) (random : TransactRandomness) (hashExtData : ExtData → Except String Bytes32)
    (p : TransactParams) (art : TransactArtifacts) (j : Nat),
    transact box random hashExtData p = .ok art → Spends p j sk note proof →
    art.prepared.inputNullifiers[j]? = some note.expectedNullifier ∧
      ∀ (env : Pool.CallEnv) (tx : Pool.Transaction) (s' : Pool.PoolStorage),
        tx.proof.inputNullifiers = art.prepared.inputNullifiers.map Fr.toU256 →
        (Pool.transact host env tx.proof tx.extData tx.sender).run s = .ok () s' →
        (s'.events.drop s.events.length)[j]? =
          some (.newNullifier note.expectedNullifier.toU256)

/-- **A delivered note is found and is spendable.** `output` is output `i` of a successful
`transact`, worth something and for the note key `pk` and the encryption key of `esk`. Under
every leaf index that the pool announces for its commitment, the recipient's scan returns its
amount and blinding; when the owner spends the note with the client's Merkle proof for this
index, `transact` computes the nullifier that the scan has derived, and the pool publishes it. -/
theorem delivered_note_spendable {box : NoteBox} (hbox : box.Inverts)
    {random : TransactRandomness} {hashExtData : ExtData → Except String Bytes32}
    {p : TransactParams} {art : TransactArtifacts}
    (hok : transact box random hashExtData p = .ok art) {i : Nat} {output : TransactOutput}
    (hget : p.outputs[i]? = some output) (hamount : output.amount ≠ 0) {pk sk esk : Bytes32}
    (hpk : derivePublicKey sk.val = .ok pk.val) (hto : recipientNotePubkey p output = pk)
    (hkey : recipientEncryptionPubkey p output = box.publicKey esk)
    (host : Pool.Host) {levels : Nat} {admin token verifier asp aspNon : Pool.Address}
    {s₀ : Pool.PoolStorage}
    (hinit : (Pool.constructor admin token verifier asp aspNon levels).run {} = .ok () s₀)
    (calls : List Pool.Call) :
    ∃ commitment encrypted, Emitted art i commitment encrypted ∧
      ∀ index, (commitment.toU256, index) ∈ announced (Pool.run host s₀ calls).2.events →
        (outputs (Pool.run host s₀ calls).1)[index]? = some commitment ∧
        ∃ (leafIndex : UInt32) (note : DerivedUserNote), leafIndex.toNat = index ∧
          tryDecryptAndDeriveUserNote box ⟨sk, pk⟩ esk commitment leafIndex encrypted =
            .ok (some note) ∧
          note.amount = output.amount ∧ note.blinding = output.blinding ∧
          ∀ leaves, leaves <+: outputs (Pool.run host s₀ calls).1 → index < leaves.length →
            ∃ t proof, MerklePrefixTree.new levels leaves = .ok t ∧
              t.build.proof index = .ok proof ∧
              SpentAs host (Pool.run host s₀ calls).2 sk note proof := by
  obtain ⟨hpos, hle, -⟩ := Pool.constructor_reflects hinit
  obtain ⟨hs, -⟩ := Pool.run_admitted host hinit calls
  obtain ⟨encrypted, hemitted, hsent⟩ := transact_emits hok hget
  have hcommitment : outputCommitment p output =
      noteCommitment output.amount pk output.blinding := by rw [outputCommitment, hto]
  rw [hcommitment] at hemitted
  rw [hkey] at hsent
  refine ⟨_, encrypted, hemitted, fun index hevent => ?_⟩
  obtain ⟨hleaf, hindex⟩ := announced_index hs hevent
  have hval : (UInt32.ofNat index).toNat = index := UInt32.toNat_ofNat_of_lt' hindex
  refine ⟨hleaf, UInt32.ofNat index, _, hval,
    tryDecrypt_delivered hbox hamount hsent (UInt32.ofNat index), rfl, rfl,
    fun leaves hprefix hlt => ?_⟩
  -- the client's tree over a part of the pool's leaves
  obtain ⟨t, hnew, hdepth, hleaves, hempty⟩ := MerklePrefixTree.new_ok hpos hle leaves
  rw [← hdepth] at hempty
  have hroom : t.leaves.length ≤ 2 ^ t.depth := by
    rw [hleaves, hdepth]
    exact hprefix.length_le.trans hs.tree.fits
  obtain ⟨proof, hproof, hpath, -⟩ := MerklePrefixTree.proof_eq hempty hroom (hdepth ▸ hle)
    (hleaves ▸ hlt)
  refine ⟨t, proof, hnew, hproof, fun box' random' hashExtData' p' art' j hok' hspends => ?_⟩
  have hnullifier := transact_spends hok' hpk (hpath.trans hval.symm) hspends
  refine ⟨hnullifier, fun env tx s' hcarries hrun => ?_⟩
  refine transact_publishes hs hrun ?_
  rw [hcarries, List.getElem?_map, hnullifier]
  rfl

/-! ## A deposit to oneself -/

theorem tagBox_inverts : tagBox.Inverts := by
  intro ephemeralSecret privateKey nonce plaintext ciphertext h
  have hcomm : (ephemeralSecret.val.zipWith (· + ·) privateKey.val) =
      privateKey.val.zipWith (· + ·) ephemeralSecret.val :=
    List.zipWith_comm_of_comm (fun a b => UInt8.add_comm a b)
  have hlen : (privateKey.val.zipWith (· + ·) ephemeralSecret.val).length = 32 := by
    simp [privateKey.property, ephemeralSecret.property]
  simp only [tagBox, hcomm, Option.some.injEq] at h
  subst h
  have htag : ((privateKey.val.zipWith (· + ·) ephemeralSecret.val).take 16).length = 16 := by
    simp [hlen]
  simp only [tagBox, List.length_append, htag, Nat.add_sub_cancel, List.drop_left,
    List.take_left, and_true]
  rw [if_pos (Nat.le_add_left 16 _)]

/-- Three units are deposited into an empty pool of one level, for the sender. -/
def depositParams : TransactParams :=
  { withdrawParams with
    poolRoot := zeroNode 1
    extAmount := ⟨3, by decide⟩
    inputs := [] }

/-- The call of the pool for this deposit. -/
def depositCall : Pool.Call :=
  let commitment := fun i => (outputCommitment depositParams
    (outputSlot withdrawRandomness depositParams i)).toU256
  let nullifier := fun i => (noteNullifier depositParams.privKey
    (inputCommitment depositParams (inputSlot withdrawRandomness depositParams i)) 0).toU256
  .transact
    { this := 2, authorised := true, transfer := fun _ _ _ _ => some ()
      aspMembershipRoot := fun _ => some 0, aspNonMembershipRoot := fun _ => some 0 }
    { proof := {
        proof := ⟨[1], [1], [1]⟩
        root := (zeroNode 1).toU256
        inputNullifiers := [nullifier Pool.slot0, nullifier Pool.slot1]
        outputCommitment0 := commitment Pool.slot0
        outputCommitment1 := commitment Pool.slot1
        publicAmount := 3
        extDataHash := 0
        aspMembershipRoot := 0
        aspNonMembershipRoot := 0 }
      extData := ⟨2, ⟨3, by decide⟩, [], []⟩
      sender := 1 }

/-- A host whose verifier accepts. -/
def depositPoolHost : Pool.Host where
  toXdr _ := []
  keccak256 _ := 0
  verify _ _ _ := some true

theorem deposit_announced :
    ((outputCommitment depositParams (outputSlot withdrawRandomness depositParams 0)).toU256, 0) ∈
      announced (Pool.run depositPoolHost (Pool.initialPool 1) [depositCall]).2.events := by
  have hok : Pool.isOk ((depositCall.function depositPoolHost).run (Pool.initialPool 1)) = true := by
    decide +kernel
  have hinit := Pool.constructor_run (le_refl 1) (show 1 ≤ 32 by decide)
  obtain ⟨hs, -⟩ := Pool.run_admitted depositPoolHost hinit [depositCall]
  have htxs : (Pool.run depositPoolHost (Pool.initialPool 1) [depositCall]).1 =
      depositCall.transaction := by
    rw [Pool.run_cons]
    cases hrun : (depositCall.function depositPoolHost).run (Pool.initialPool 1) with
    | ok u s => rfl
    | error e s =>
        rw [hrun] at hok
        cases hok
  rw [hs.events, htxs]
  simp [depositCall, Pool.Call.transaction]

theorem delivered_note_spendable_deposit :
    ∃ art commitment encrypted note,
      transact tagBox withdrawRandomness zeroHash depositParams = .ok art ∧
      Emitted art 0 commitment encrypted ∧
      (commitment.toU256, 0) ∈
        announced (Pool.run depositPoolHost (Pool.initialPool 1) [depositCall]).2.events ∧
      tryDecryptAndDeriveUserNote tagBox ⟨numberKey 11, senderNotePubkey depositParams⟩
        (numberKey 12) commitment 0 encrypted = .ok (some note) ∧
      note.amount = 3 ∧ note.blinding = 8 := by
  have hisOk : (transact tagBox withdrawRandomness zeroHash depositParams).isOk = true := by
    decide +kernel
  cases hok : transact tagBox withdrawRandomness zeroHash depositParams with
  | error e =>
      rw [hok] at hisOk
      cases hisOk
  | ok art =>
      have hkey : recipientEncryptionPubkey depositParams ⟨3, 8, none, none⟩ =
          tagBox.publicKey (numberKey 12) := rfl
      obtain ⟨commitment, encrypted, hemitted, hfound⟩ :=
        delivered_note_spendable tagBox_inverts hok (i := 0) rfl (by decide)
          (derivePublicKey_eq (numberKey 11).property) rfl hkey depositPoolHost
          (Pool.constructor_run (le_refl 1) (by decide)) [depositCall]
      have hcommitment : commitment =
          outputCommitment depositParams (outputSlot withdrawRandomness depositParams 0) := by
        obtain ⟨outs, h⟩ := transact_ok hok
        have hget := hemitted.1
        rw [h.commitments] at hget
        exact (Option.some.inj hget).symm
      have hevent := deposit_announced
      rw [← hcommitment] at hevent
      obtain ⟨-, leafIndex, note, hindex, hnote, hamount, hblinding, -⟩ := hfound 0 hevent
      obtain rfl : leafIndex = 0 := UInt32.toNat_inj.mp hindex
      exact ⟨art, commitment, encrypted, note, rfl, hemitted, hevent, hnote, hamount, hblinding⟩

end PrivatePayments.Prover
