import PrivatePayments.Prover.Delivery
import PrivatePayments.State.WitnessReadsSound
import PrivatePayments.Web.StorageWorker

/-!
# PrivatePayments.Web.WitnessSound

The parameters that the storage worker answers with match the snapshot of the request, for
every database that was filled from the chain (`transactParams_match`): however far each
table has come, the worker answers with parameters only when the database agrees with the
snapshot where it matters. The transaction builder then makes a satisfying witness of them
(`worker_witness_honest` gives the conditions of `Prover.transact_satisfies`).
-/

namespace PrivatePayments.Web

open State Prover PerfectTree MerkleWithHistory

/-! ## What an answer says -/

/-- An input of the answer: the stored amount and blinding open the requested commitment under
the user's public key, the path leads from its leaf index to the root of the pool, and its
nullifier has not been reconciled. -/
structure InputMatches (s : Storage) (keys : StoredUserKeys) (req : TransactRequest)
    (poolLeaves : List Fr) (poolRoot commitment : Fr) (input : TransactInputNote) : Prop where
  opens : Prover.noteCommitment input.amount keys.noteKeypair.publicKey input.blinding = commitment
  index : poolLeaves[input.merklePathIndices.val]? = some commitment
  depth : input.merklePathElements.length = req.treeDepth.toNat
  path : foldPath poseidon2Compress commitment input.merklePathElements
    input.merklePathIndices.val = poolRoot
  unspent : s.NotReconciled req.poolAddress
    (Prover.noteNullifier keys.noteKeypair.privateKey commitment input.merklePathIndices)

/-- The proof of membership of the answer: its leaf is that of the user, and the path leads
from its leaf index to the root of the association set. -/
structure MembershipMatches (keys : StoredUserKeys) (req : TransactRequest)
    (aspLeaves : List Fr) (proof : AspMembershipProof) : Prop where
  blinding : proof.blinding = keys.membershipBlinding
  leaf : proof.leaf =
    membershipLeaf (scalarOf keys.noteKeypair.publicKey.val) keys.membershipBlinding
  index : aspLeaves[proof.pathIndices.val]? = some proof.leaf
  depth : proof.pathElements.length = req.treeDepth.toNat
  path : foldPath poseidon2Compress proof.leaf proof.pathElements proof.pathIndices.val =
    proof.root
  root : proof.root = req.aspmemRoot

/-! ## Membership -/

section Membership

variable {s : Storage} {syncMetadata : List SyncMetadata} {asp : String}

/-- The check answers with an index only when the database has the root and the leaf. -/
theorem checkAspMembershipPrecondition_userIndex {userLeaf currentRoot : Fr}
    {currentLedger index : UInt32}
    (h : checkAspMembershipPrecondition s syncMetadata asp userLeaf currentRoot currentLedger =
      .ok (.userIndex index)) :
    (∃ l ∈ s.aspLeaves asp, l.leaf = userLeaf ∧ l.index = index) ∧
      ∃ last, (s.aspLeaves asp).getLast? = some last ∧ last.root = currentRoot := by
  unfold checkAspMembershipPrecondition at h
  split at h
  · cases h
  · split at h
    · cases h
    · dsimp only at h
      split at h
      · cases h
      · rename_i lastRoot lastLeafLedger hlast
        split at h
        · split at h <;> cases h
        · rename_i hroot
          split at h
          · rename_i l hfind
            cases h
            obtain ⟨last, hget, hraw⟩ := Option.bind_eq_some_iff.mp hlast
            obtain ⟨raw, -, heq⟩ := Option.map_eq_some_iff.mp hraw
            refine ⟨⟨l, List.mem_of_find?_eq_some hfind, ?_, rfl⟩, last, hget, ?_⟩
            · simpa using List.find?_some hfind
            · rw [(Prod.mk.inj heq).1]
              exact (not_not.mp hroot).symm
          · cases h

/-- The steps behind a proof of membership. -/
theorem buildMembershipProof_ok {notePubkey : Bytes32} {membershipBlinding aspmemRoot : Fr}
    {aspmemLedger treeDepth : UInt32} {proof : AspMembershipProof}
    (h : buildMembershipProof s syncMetadata asp notePubkey membershipBlinding aspmemRoot
      aspmemLedger treeDepth = .ok (.ok proof)) :
    ∃ index leaves tree p,
      checkAspMembershipPrecondition s syncMetadata asp
          (membershipLeaf (scalarOf notePubkey.val) membershipBlinding) aspmemRoot aspmemLedger =
        .ok (.userIndex index) ∧
      getAllAspMembershipLeavesOrdered s asp = .ok leaves ∧
      MerklePrefixTree.new treeDepth.toNat leaves = .ok tree ∧
      tree.build.proof index.toNat = .ok p ∧
      proof = ⟨membershipLeaf (scalarOf notePubkey.val) membershipBlinding, membershipBlinding,
        p.pathElements, p.pathIndices, p.root⟩ := by
  unfold buildMembershipProof at h
  obtain ⟨userLeaf, hleaf, h⟩ := exists_of_bind_ok h
  rw [aspMembershipLeaf_eq notePubkey.property] at hleaf
  obtain rfl := Except.ok.inj hleaf
  obtain ⟨status, hcheck, h⟩ := exists_of_bind_ok h
  cases status with
  | syncRequired gap => cases h
  | registerAtASP => cases h
  | userIndex index =>
      obtain ⟨leaves, hleaves, h⟩ := exists_of_bind_ok h
      obtain ⟨tree, htree, h⟩ := exists_of_bind_ok h
      obtain ⟨p, hp, h⟩ := exists_of_bind_ok h
      cases h
      exact ⟨index, leaves, tree, p, hcheck, hleaves, htree, hp, rfl⟩

end Membership

/-! ## Inputs -/

section Inputs

variable {s : Storage} {user pool : String}

/-- The tree that the inputs are taken from has the root of the snapshot. -/
theorem buildValidatedPoolTree_ok {poolNextIndex treeDepth : UInt32} {poolRoot : Fr}
    {built : MerklePrefixTreeBuilt}
    (h : buildValidatedPoolTree s pool poolNextIndex treeDepth poolRoot = .ok (.ok built)) :
    ∃ leaves tree, getPoolCommitmentLeavesOrdered s pool = .ok leaves ∧
      MerklePrefixTree.new treeDepth.toNat leaves = .ok tree ∧ built = tree.build ∧
      tree.build.root = .ok poolRoot := by
  unfold buildValidatedPoolTree at h
  obtain ⟨leaves, hleaves, h⟩ := exists_of_bind_ok h
  by_cases hcount : leaves.length ≠ poolNextIndex.toNat
  · rw [if_pos hcount] at h
    cases h
  · rw [if_neg hcount] at h
    obtain ⟨tree, htree, h⟩ := exists_of_bind_ok h
    obtain ⟨root, hroot, h⟩ := exists_of_bind_ok h
    by_cases hsame : root ≠ poolRoot
    · rw [if_pos hsame] at h
      cases h
    · rw [if_neg hsame] at h
      cases h
      exact ⟨leaves, tree, hleaves, htree, rfl, not_not.mp hsame ▸ hroot⟩

/-- Where an input comes from: a note that was read back, and the path of its leaf. -/
def FromNote (s : Storage) (user pool : String) (tree : MerklePrefixTreeBuilt) (commitment : Fr)
    (input : TransactInputNote) : Prop :=
  ∃ amount blinding index p,
    getUnspentUserNoteByCommitment s pool user commitment = .ok (some (amount, blinding, index)) ∧
    tree.proof index.toNat = .ok p ∧
    input = ⟨amount, blinding, p.pathElements, p.pathIndices⟩

theorem buildPoolInputNotes_ok {tree : MerklePrefixTreeBuilt} {commitments : List Fr}
    {inputs : List TransactInputNote}
    (h : buildPoolInputNotes s user pool tree commitments = .ok (.ok inputs)) :
    List.Forall₂ (FromNote s user pool tree) commitments inputs := by
  induction commitments generalizing inputs with
  | nil =>
      cases h
      exact .nil
  | cons commitment commitments ih =>
      unfold buildPoolInputNotes at h
      obtain ⟨found, hfound, h⟩ := exists_of_bind_ok h
      match found with
      | none => cases h
      | some (amount, blinding, index) =>
          obtain ⟨input, hinput, h⟩ := exists_of_bind_ok h
          obtain ⟨rest, hrest, h⟩ := exists_of_bind_ok h
          obtain ⟨p, hp, hinput⟩ := exists_of_bind_ok hinput
          cases hinput
          cases rest with
          | error status => cases h
          | ok notes =>
              cases h
              exact .cons ⟨amount, blinding, index, p, hfound, hp, rfl⟩ (ih hrest)

/-- The inputs all come from one tree with the root of the snapshot. -/
theorem buildPoolInputs_ok {poolNextIndex treeDepth : UInt32} {poolRoot : Fr}
    {commitments : List Fr} {inputs : List TransactInputNote}
    (h : buildPoolInputs s user pool poolNextIndex treeDepth poolRoot commitments =
      .ok (.ok inputs)) :
    (commitments = [] ∧ inputs = []) ∨
      ∃ leaves tree, getPoolCommitmentLeavesOrdered s pool = .ok leaves ∧
        MerklePrefixTree.new treeDepth.toNat leaves = .ok tree ∧
        tree.build.root = .ok poolRoot ∧
        List.Forall₂ (FromNote s user pool tree.build) commitments inputs := by
  unfold buildPoolInputs at h
  by_cases hempty : commitments.isEmpty
  · rw [if_pos hempty] at h
    cases h
    exact .inl ⟨List.isEmpty_iff.mp hempty, rfl⟩
  · rw [if_neg hempty] at h
    obtain ⟨validated, hvalidated, h⟩ := exists_of_bind_ok h
    cases validated with
    | error status => cases h
    | ok built =>
        obtain ⟨leaves, tree, hleaves, htree, rfl, hroot⟩ := buildValidatedPoolTree_ok hvalidated
        exact .inr ⟨leaves, tree, hleaves, htree, hroot, buildPoolInputNotes_ok h⟩

end Inputs

/-! ## The answer -/

theorem getElem?_of_initial {α : Type} {l all : List α} (h : l <+: all) {i : Nat} {a : α}
    (hget : l[i]? = some a) : all[i]? = some a := by
  obtain ⟨hi, rfl⟩ := List.getElem?_eq_some_iff.mp hget
  exact List.getElem?_eq_some_iff.mpr ⟨hi.trans_le h.length_le, (h.getElem hi).symm⟩

section Answer

variable {s : Storage} {syncMetadata : List SyncMetadata} {outputBlinding : Fin 2 → Fr}
  {req : TransactRequest} {params : TransactParams}

/-- The steps behind an answer with parameters. -/
theorem transactRequest_ok
    (h : transactRequest s syncMetadata outputBlinding req = .ok (.transactParams params)) :
    ∃ keys, getUserKeys s req.userAddress = some keys ∧
      params.privKey = keys.noteKeypair.privateKey ∧ params.treeDepth = req.treeDepth ∧
      req.poolRoot = some params.poolRoot ∧
      buildMembershipProof s syncMetadata req.aspmemContractId keys.noteKeypair.publicKey
          keys.membershipBlinding req.aspmemRoot req.aspmemLedger req.treeDepth =
        .ok (.ok params.membershipProof) ∧
      buildPoolInputs s req.userAddress req.poolAddress req.poolNextIndex req.treeDepth
          params.poolRoot req.inputCommitments = .ok (.ok params.inputs) := by
  unfold transactRequest at h
  split at h
  · cases h
  · obtain ⟨keys, hkeys, h⟩ := exists_of_bind_ok h
    have hstored : getUserKeys s req.userAddress = some keys := by
      unfold loadUserKeyMaterial at hkeys
      split at hkeys
      · cases hkeys
        assumption
      · cases hkeys
    obtain ⟨membership, hmembership, h⟩ := exists_of_bind_ok h
    cases membership with
    | error status => cases h
    | ok membershipProof =>
        obtain ⟨poolRoot, hroot, h⟩ := exists_of_bind_ok h
        obtain ⟨poolInputs, hinputs, h⟩ := exists_of_bind_ok h
        cases poolInputs with
        | error status => cases h
        | ok inputs =>
            dsimp only at h
            split at h
            · cases h
            · cases h
              exact ⟨keys, hstored, rfl, rfl, okOr_ok hroot, hmembership, hinputs⟩

/-- An input that comes from a note of the user and from the tree of the snapshot. -/
theorem FromNote.matches {xdr : Xdr} {box : NoteBox} {chain : List ContractEvent}
    (hs : ClientOk xdr box chain s) (hagree : KeysAgree s) {poolLeaves aspLeaves : List Fr}
    (hchain : ChainTrees xdr chain req.poolAddress req.aspmemContractId req.treeDepth.toNat
      poolLeaves aspLeaves) {keys : StoredUserKeys}
    (hkeys : getUserKeys s req.userAddress = some keys) {leaves : List Fr}
    {tree : MerklePrefixTree} {poolRoot commitment : Fr} {input : TransactInputNote}
    (hleaves : getPoolCommitmentLeavesOrdered s req.poolAddress = .ok leaves)
    (htree : MerklePrefixTree.new req.treeDepth.toNat leaves = .ok tree)
    (hroot : tree.build.root = .ok poolRoot)
    (h : FromNote s req.userAddress req.poolAddress tree.build commitment input) :
    InputMatches s keys req poolLeaves poolRoot commitment input := by
  obtain ⟨amount, blinding, index, p, hnote, hp, rfl⟩ := h
  obtain ⟨hinitial, hrows⟩ := poolLeaves_sound hs hchain hleaves
  obtain ⟨hopens, ⟨row, hrow, haddress, rfl, rfl⟩, hunspent⟩ := unspent_sound hs hagree hkeys hnote
  have hget := hrows row hrow haddress
  obtain ⟨hindex, hdepth, -, hpath⟩ := MerklePrefixTree.proof_sound htree
    (hinitial.length_le.trans hchain.poolFits) hget hp
  have hproofRoot : p.root = poolRoot := by
    have hbuilt := MerklePrefixTreeBuilt.proof_root hp
    rw [hroot] at hbuilt
    exact (Except.ok.inj hbuilt).symm
  have hpathIndices : p.pathIndices = indexFr row.index := Fin.ext hindex
  refine ⟨hopens, ?_, hdepth, hproofRoot ▸ hpath, hpathIndices ▸ hunspent⟩
  show poolLeaves[p.pathIndices.val]? = some row.commitment
  rw [hindex]
  exact getElem?_of_initial hinitial hget

/-- A database that was filled from the chain. -/
theorem answer_matches {xdr : Xdr} {box : NoteBox} {chain : List ContractEvent}
    (hs : ClientOk xdr box chain s) (hagree : KeysAgree s) {poolLeaves aspLeaves : List Fr}
    (hchain : ChainTrees xdr chain req.poolAddress req.aspmemContractId req.treeDepth.toNat
      poolLeaves aspLeaves)
    (h : transactRequest s syncMetadata outputBlinding req = .ok (.transactParams params)) :
    ∃ keys, getUserKeys s req.userAddress = some keys ∧
      params.privKey = keys.noteKeypair.privateKey ∧ params.treeDepth = req.treeDepth ∧
      req.poolRoot = some params.poolRoot ∧
      List.Forall₂ (InputMatches s keys req poolLeaves params.poolRoot) req.inputCommitments
        params.inputs ∧
      MembershipMatches keys req aspLeaves params.membershipProof := by
  obtain ⟨keys, hkeys, hpriv, hdepth, hroot, hmembership, hinputs⟩ := transactRequest_ok h
  refine ⟨keys, hkeys, hpriv, hdepth, hroot, ?_, ?_⟩
  · rcases buildPoolInputs_ok hinputs with ⟨hnil, hnone⟩ | ⟨leaves, tree, hleaves, htree, hr, hnotes⟩
    · rw [hnil, hnone]
      exact .nil
    · exact hnotes.imp fun _ _ hnote => hnote.matches hs hagree hchain hkeys hleaves htree hr
  · obtain ⟨index, leaves, tree, p, hcheck, hleaves, htree, hp, hproof⟩ :=
      buildMembershipProof_ok hmembership
    obtain ⟨⟨l, hl, hleaf, rfl⟩, last, hlast, hlastRoot⟩ :=
      checkAspMembershipPrecondition_userIndex hcheck
    obtain ⟨hinitial, hrows, hlastLeaves⟩ := aspLeaves_sound hs hchain hleaves
    have hget := hrows l hl
    rw [hleaf] at hget
    obtain ⟨hindex, hlen, hproofRoot, hpath⟩ := MerklePrefixTree.proof_sound htree
      (hinitial.length_le.trans hchain.aspFits) hget hp
    rw [hproof]
    refine ⟨rfl, rfl, ?_, hlen, hpath, ?_⟩
    · show aspLeaves[p.pathIndices.val]? = _
      rw [hindex]
      exact getElem?_of_initial hinitial hget
    · show p.root = _
      rw [hproofRoot, ← hlastLeaves last hlast, hlastRoot]

/-- The parameters meet the conditions under which the transaction builder makes a satisfying
witness of them. -/
theorem worker_witness_honest {xdr : Xdr} {box : NoteBox} {chain : List ContractEvent}
    (hs : ClientOk xdr box chain s) (hagree : KeysAgree s) {poolLeaves aspLeaves : List Fr}
    (hchain : ChainTrees xdr chain req.poolAddress req.aspmemContractId req.treeDepth.toNat
      poolLeaves aspLeaves)
    (h : transactRequest s syncMetadata outputBlinding req = .ok (.transactParams params)) :
    (∀ input ∈ params.inputs, InPool params input) ∧ IsMember params := by
  obtain ⟨keys, hkeys, hpriv, hdepth, -, hinputs, hmember⟩ := answer_matches hs hagree hchain h
  obtain ⟨k, hk, -, rfl⟩ := getUserKeys_some hkeys
  have hpublic : k.notePublicKey.val = scalarToBytes (keypair (scalarOf params.privKey.val)) := by
    rw [hpriv]
    exact publicKey_eq (hagree.derived k hk)
  have hsender : senderNotePubkey params = k.notePublicKey := Subtype.ext hpublic.symm
  refine ⟨fun input hinput => ?_, ?_, ?_, hmember.path⟩
  · obtain ⟨commitment, -, hmatches⟩ := exists_of_forall₂ hinputs hinput
    have hlt := (List.getElem?_eq_some_iff.mp hmatches.index).1
    refine ⟨hdepth ▸ hlt.trans_le hchain.poolFits, ?_⟩
    have hcommitment : inputCommitment params input = commitment := by
      rw [inputCommitment, hsender]
      exact hmatches.opens
    rw [hcommitment]
    exact hmatches.path
  · rw [hmember.leaf, hmember.blinding, ← scalarOf_scalarToBytes (keypair _), ← hpublic]
  · have hlt := (List.getElem?_eq_some_iff.mp hmember.index).1
    exact hdepth ▸ hlt.trans_le hchain.aspFits

/-- **The worker's witness.** In every run over the events of the chain, whatever was saved,
processed, scanned and reconciled of them and in whatever order: if the worker answers a
request with parameters then each input opens the requested commitment under the user's
public key and its path leads from its leaf index to the root of the pool in the request, no
nullifier that was reconciled is its nullifier, and the proof of membership leads from the
user's leaf to the root of the association set in the request. -/
theorem transactParams_match (xdr : Xdr) (box : NoteBox) {chain : List ContractEvent}
    {poolLeaves aspLeaves : List Fr}
    (hchain : ChainTrees xdr chain req.poolAddress req.aspmemContractId req.treeDepth.toNat
      poolLeaves aspLeaves)
    {ops : List ClientOp} (hops : ∀ op ∈ ops, op.saved ⊆ chain)
    (hagree : KeysAgree (clientRun xdr box ops))
    (h : transactRequest (clientRun xdr box ops) syncMetadata outputBlinding req =
      .ok (.transactParams params)) :
    ∃ keys, getUserKeys (clientRun xdr box ops) req.userAddress = some keys ∧
      params.privKey = keys.noteKeypair.privateKey ∧ params.treeDepth = req.treeDepth ∧
      req.poolRoot = some params.poolRoot ∧
      List.Forall₂ (InputMatches (clientRun xdr box ops) keys req poolLeaves params.poolRoot)
        req.inputCommitments params.inputs ∧
      MembershipMatches keys req aspLeaves params.membershipProof :=
  answer_matches (ClientOk.run hops) hagree hchain h

end Answer

/-! ## One note -/

/-- The user's keys. -/
def oneNoteKeys : StoredUserKeys where
  noteKeypair := ⟨numberKey 11, ⟨scalarToBytes (keypair 11), length_scalarToBytes _⟩⟩
  encryptionKeypair := ⟨numberKey 12, numberKey 12⟩
  membershipBlinding := 0

/-- The commitment of 5 units for the user. -/
def oneNoteCommitment : Fr := Prover.noteCommitment 5 oneNoteKeys.noteKeypair.publicKey 7

/-- The user's leaf. -/
def oneNoteLeaf : Fr := membershipLeaf (keypair 11) 0

/-- The note, encrypted for the user. -/
def oneNoteOutput : List UInt8 :=
  (encryptOutputNote tagBox (withdrawRandomness.box 0)
    (numberKey 12) 5 7).toOption.getD []

/-- The values on the wire. -/
def oneNoteValues : List (String × ScVal) := [
  ("new_commitment_event", .symbol (asciiBytes "new_commitment_event")),
  ("commitment", wireField oneNoteCommitment),
  ("output", .map (some [(.symbol (asciiBytes "encrypted_output"), .bytes oneNoteOutput),
    (.symbol (asciiBytes "index"), .u32 0)])),
  ("leaf_added", .symbol (asciiBytes "leaf_added")),
  ("leaf", .map (some [(.symbol (asciiBytes "leaf"), wireField oneNoteLeaf),
    (.symbol (asciiBytes "index"), .u64 0),
    (.symbol (asciiBytes "root"), wireField (treeRoot 1 [oneNoteLeaf]))]))]

/-- The decoder on these values. -/
def oneNoteXdr : Xdr :=
  { wireXdr with
    fromXdrBase64 := fun text => okOrElse (oneNoteValues.lookup text) "xdr value invalid" }

/-- One leaf in the pool and one in the association set. -/
def oneNoteChain : List ContractEvent := [
  ⟨"7-0", 7, "pool", ["new_commitment_event", "commitment"], "output"⟩,
  ⟨"8-0", 8, "asp", ["leaf_added"], "leaf"⟩]

/-- Everything is saved, processed, scanned and reconciled. -/
def oneNoteRun : List ClientOp := [
  .saveKeys "user" oneNoteKeys.noteKeypair oneNoteKeys.encryptionKeypair 0,
  .save oneNoteChain, .process 10, .scan 10, .reconcile 10]

/-- The note is spent: 2 units are withdrawn and 3 are change. -/
def oneNoteRequest : TransactRequest where
  userAddress := "user"
  poolRoot := some (treeRoot 1 [oneNoteCommitment])
  poolNextIndex := 1
  poolAddress := "pool"
  extRecipient := "GA"
  extAmount := withdrawParams.extAmount
  aspmemRoot := treeRoot 1 [oneNoteLeaf]
  aspmemContractId := "asp"
  aspmemLedger := 9
  inputCommitments := [oneNoteCommitment]
  outputAmounts i := if i.val = 0 then 3 else 0
  outRecipientNotePubkeys _ := none
  outRecipientEncryptionPubkeys _ := none
  smtDepth := 1
  treeDepth := 1
  nonMembershipProof := ⟨keypair 11, 0, 0, true, [0], 0⟩

theorem oneNoteChain_parsed : oneNoteChain.map (fun e => parseEvent oneNoteXdr e.asRead) = [
    .ok (.commitment ⟨"7-0", oneNoteCommitment, 0, oneNoteOutput⟩),
    .ok (.leafAdded ⟨"8-0", oneNoteLeaf, 0, treeRoot 1 [oneNoteLeaf]⟩)] := by
  decide +kernel

theorem oneNoteTrees : ChainTrees oneNoteXdr oneNoteChain oneNoteRequest.poolAddress
    oneNoteRequest.aspmemContractId oneNoteRequest.treeDepth.toNat [oneNoteCommitment]
    [oneNoteLeaf] := by
  have hparsed := oneNoteChain_parsed
  simp only [oneNoteChain, List.map_cons, List.map_nil, List.cons.injEq, and_true] at hparsed
  obtain ⟨hcommitment, hleaf⟩ := hparsed
  refine ⟨fun e he hcontract ev hev => ?_, fun e he hcontract ev hev => ?_, by decide, by decide⟩
  · rcases List.mem_cons.mp he with rfl | he
    · rw [hcommitment] at hev
      cases hev
      rfl
    · obtain rfl := List.mem_singleton.mp he
      exact absurd hcontract (by decide)
  · rcases List.mem_cons.mp he with rfl | he
    · exact absurd hcontract (by decide)
    · obtain rfl := List.mem_singleton.mp he
      rw [hleaf] at hev
      cases hev
      exact ⟨rfl, rfl⟩

def hasParams : Except String StorageWorkerResponse → Bool
  | .ok (.transactParams _) => true
  | _ => false

theorem exists_of_hasParams {answer : Except String StorageWorkerResponse}
    (h : hasParams answer = true) : ∃ params, answer = .ok (.transactParams params) := by
  cases answer with
  | error e => cases h
  | ok response =>
      cases response with
      | transactParams params => exact ⟨params, rfl⟩
      | _ => cases h

theorem transactParams_match_oneNote :
    ∃ params keys,
      transactRequest (clientRun oneNoteXdr tagBox oneNoteRun) [⟨"asp", "", 9, 9⟩] (fun _ => 31)
        oneNoteRequest = .ok (.transactParams params) ∧
      List.Forall₂ (InputMatches (clientRun oneNoteXdr tagBox oneNoteRun) keys oneNoteRequest
        [oneNoteCommitment] params.poolRoot) [oneNoteCommitment] params.inputs ∧
      MembershipMatches keys oneNoteRequest [oneNoteLeaf] params.membershipProof := by
  obtain ⟨params, hok⟩ := @exists_of_hasParams (transactRequest
    (clientRun oneNoteXdr tagBox oneNoteRun) [⟨"asp", "", 9, 9⟩] (fun _ => 31) oneNoteRequest)
    (by decide +kernel)
  have hagree : KeysAgree (clientRun oneNoteXdr tagBox oneNoteRun) :=
    ⟨by decide +kernel, by decide +kernel⟩
  have hops : ∀ op ∈ oneNoteRun, op.saved ⊆ oneNoteChain := by decide +kernel
  obtain ⟨keys, -, -, -, -, hinputs, hmember⟩ :=
    transactParams_match oneNoteXdr tagBox oneNoteTrees hops hagree hok
  exact ⟨params, keys, hok, hinputs, hmember⟩

end PrivatePayments.Web
