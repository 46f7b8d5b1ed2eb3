import PrivatePayments.Contracts.PoolBinding
import PrivatePayments.OnChain.Policy
import PrivatePayments.Prover.Delivery
import PrivatePayments.Stellar.NonMembershipUsable
import PrivatePayments.Stellar.SorobanEncode

/-!
# PrivatePayments.OnChain.HonestTransaction

The client against the contracts. A client that has read the leaves of the pool and of the
membership contract and has asked the non-membership contract builds its parameters from
these (`Informed`). What `transact` makes of them is proved, encoded and sent, and the pool
accepts it.
-/

namespace PrivatePayments

open PerfectTree
open MerkleWithHistory (treeRoot rootHistorySize)
open Pool (Address Host Transaction Signals Acceptable RecentRoot outputs)

/-! ### The parameters -/

namespace Prover

/-- The hash function that the client hands to `transact`. -/
def hashExtDataFn (toXdr : Stellar.ScVal → List UInt8) (keccak256 : List UInt8 → Bytes32)
    (parseAddress : String → Option Stellar.ScAddress) (ext : ExtData) : Except String Bytes32 := do
  let be ← Stellar.hashExtDataOffchain toXdr keccak256 parseAddress ext
  toBytes32 "ext_data_hash" be

/-- `impl From<&PreparedTxPublic> for OnchainProofPublicInputs` -/
def PreparedTx.onchain (prepared : PreparedTx) : Stellar.OnchainProofPublicInputs where
  root := prepared.poolRoot.toU256
  inputNullifiers i := (prepared.inputNullifiers.getD i 0).toU256
  outputCommitment0 := (prepared.outputCommitments.getD 0 0).toU256
  outputCommitment1 := (prepared.outputCommitments.getD 1 0).toU256
  publicAmount := prepared.publicAmountField.toU256
  extDataHashBe := prepared.extDataHashBe
  aspMembershipRoot := prepared.aspMembershipRoot.toU256
  aspNonMembershipRoot := prepared.aspNonMembershipRoot.toU256

/-- The inputs are leaves of the pool's tree, with the paths that the client's tree gives. -/
structure FromPool (leaves : List Fr) (p : TransactParams) : Prop where
  root : ∃ t, MerklePrefixTree.new p.treeDepth.toNat leaves = .ok t ∧
    t.build.root = .ok p.poolRoot ∧
    ∀ input ∈ p.inputs, ∃ (index : Nat) (proof : MerkleProof),
      leaves[index]? = some (inputCommitment p input) ∧ t.build.proof index = .ok proof ∧
      input.merklePathElements = proof.pathElements ∧
      input.merklePathIndices = proof.pathIndices

/-- The sender's key is a leaf of the membership tree, with the path of the client's tree. -/
structure FromMembership (leaves : List Fr) (p : TransactParams) : Prop where
  leaf : p.membershipProof.leaf =
    membershipLeaf (keypair (scalarOf p.privKey.val)) p.membershipProof.blinding
  path : ∃ (t : MerklePrefixTree) (index : Nat) (proof : MerkleProof),
    MerklePrefixTree.new p.treeDepth.toNat leaves = .ok t ∧
    leaves[index]? = some p.membershipProof.leaf ∧ t.build.proof index = .ok proof ∧
    p.membershipProof.pathElements = proof.pathElements ∧
    p.membershipProof.pathIndices = proof.pathIndices ∧ p.membershipProof.root = proof.root

theorem FromPool.inPool {leaves : List Fr} {p : TransactParams} (h : FromPool leaves p)
    (hfits : leaves.length ≤ 2 ^ p.treeDepth.toNat) :
    p.poolRoot = treeRoot p.treeDepth.toNat leaves ∧ ∀ input ∈ p.inputs, InPool p input := by
  obtain ⟨t, hnew, hroot, hinputs⟩ := h.root
  obtain ⟨-, -, hdepth, hleaves, hempty⟩ := MerklePrefixTree.new_inv hnew
  have hbuilt := MerklePrefixTree.build_root_eq (t := t) (by rwa [hdepth])
  rw [hroot, hdepth, hleaves] at hbuilt
  have hpoolRoot := Except.ok.inj hbuilt
  refine ⟨hpoolRoot, fun input hinput => ?_⟩
  obtain ⟨index, proof, hget, hproof, helements, hindices⟩ := hinputs input hinput
  obtain ⟨hindex, -, hproofRoot, hfold⟩ := MerklePrefixTree.proof_sound hnew hfits hget hproof
  have hlt := (List.getElem?_eq_some_iff.mp hget).1
  refine ⟨?_, ?_⟩
  · rw [hindices, hindex]
    exact hlt.trans_le hfits
  · rw [helements, hindices, hfold, hproofRoot, hpoolRoot]

theorem FromMembership.isMember {leaves : List Fr} {p : TransactParams}
    (h : FromMembership leaves p) (hfits : leaves.length ≤ 2 ^ p.treeDepth.toNat) :
    p.membershipProof.root = treeRoot p.treeDepth.toNat leaves ∧ IsMember p := by
  obtain ⟨t, index, proof, hnew, hget, hproof, helements, hindices, hroot⟩ := h.path
  obtain ⟨hindex, -, hproofRoot, hfold⟩ := MerklePrefixTree.proof_sound hnew hfits hget hproof
  have hlt := (List.getElem?_eq_some_iff.mp hget).1
  refine ⟨by rw [hroot, hproofRoot], h.leaf, ?_, ?_⟩
  · rw [hindices, hindex]
    exact hlt.trans_le hfits
  · rw [helements, hindices, hfold, hroot]

/-- The proof that the sender's key is not blocked is the one that the client gets, and the
path of the key fits into the circuit. -/
structure FromNonMembership (n : AspNonMembership.AspStorage) (p : TransactParams) : Prop where
  proof : ∃ root, n.root = some root ∧
    Stellar.getNonmembershipProof (Stellar.simulateFindKey n) (senderNotePubkey p) root.toFr
      p.smtDepth.toNat = .ok p.nonMembershipProof
  short : ∀ r, (AspNonMembership.findKey (keypair (scalarOf p.privKey.val)).toU256).run n =
    .ok r n → r.siblings.length < p.smtDepth.toNat

theorem FromNonMembership.isNotBlocked {S : Set Query} {n : AspNonMembership.AspStorage}
    {es : List (Fr × Fr)} {m : AspNonMembership.KeyMap} {p : TransactParams}
    (h : FromNonMembership n p) (lib : Circomlib) (h0 : ∀ q ∈ S, q.eval ≠ 0)
    (hn : AspNonMembership.Agrees S n es m) :
    p.nonMembershipProof.root =
      AspNonMembership.treeRoot (AspNonMembership.canonicalTree es) ∧ IsNotBlocked lib p := by
  obtain ⟨root, hroot, hproof⟩ := h.proof
  have hkey : fieldTryFromLeBytes (senderNotePubkey p).val =
      .ok (keypair (scalarOf p.privKey.val)) := fieldTryFromLeBytes_scalarToBytes _
  have hdepth : 1 ≤ p.smtDepth.toNat := by
    by_contra hzero
    unfold Stellar.getNonmembershipProof at hproof
    rw [if_pos (by omega)] at hproof
    cases hproof
  rw [hn.keeps.root] at hroot
  cases hroot
  rw [U256.toFr_toU256] at hproof
  by_cases hempty : AspNonMembership.treeRoot (AspNonMembership.canonicalTree es) = 0
  · rw [hempty] at hproof ⊢
    rw [Stellar.getNonmembershipProof_zero hkey hdepth] at hproof
    have husable := Stellar.usable_zero lib (keypair (scalarOf p.privKey.val)) hdepth
    rw [Except.ok.inj hproof] at husable
    exact ⟨husable.root_eq, husable.key_eq, husable.key_eq ▸ husable.verified _⟩
  · rw [Stellar.getNonmembershipProof_of_ne_zero hkey hdepth h0 hn hempty rfl] at hproof
    by_cases hfound : (AspNonMembership.findResult (AspNonMembership.canonicalTree es)
        (keypair (scalarOf p.privKey.val)).toU256).found = true
    · rw [if_pos hfound] at hproof
      cases hproof
    · rw [if_neg hfound] at hproof
      have hsame : Stellar.SameAnswer p.smtDepth.toNat
          (AspNonMembership.findResult (AspNonMembership.canonicalTree es)
            (keypair (scalarOf p.privKey.val)).toU256)
          (AspNonMembership.findResult (AspNonMembership.canonicalTree es)
            (keypair (scalarOf p.privKey.val)).toU256) := {
        absent := Bool.eq_false_iff.mpr hfound
        short := h.short _ (hn.keeps.findKey h0 _)
        siblings := rfl
        notFoundKey := rfl
        notFoundValue := rfl
        isOld0 := rfl }
      rw [IsNotBlocked, ← Except.ok.inj hproof]
      exact ⟨rfl, rfl, hsame.verified h0 hn (keypair (scalarOf p.privKey.val))⟩

/-! ### What `transact` returns -/

section Transacted

variable {lib : Circomlib} {box : NoteBox} {random : TransactRandomness}
  {hashExtData : ExtData → Except String Bytes32} {p : TransactParams} {art : TransactArtifacts}
  {outs : Fin 2 → PreparedOutput}

/-- The signals of a transaction, with what is computed for it. -/
def artifactSignals (random : TransactRandomness) (p : TransactParams) (art : TransactArtifacts) :
    Signals p.treeDepth.toNat p.smtDepth.toNat :=
  transactSignals random p art.prepared.publicAmountField
    (scalarOf art.prepared.extDataHashBe.val.reverse)

/-- The calculator reads these signals. -/
theorem Transacted.reads (h : Transacted box random hashExtData p art outs)
    (hlt : leValue art.prepared.extDataHashBe.val.reverse < bn256Modulus) :
    art.circuitInputs.policySignals? p.treeDepth.toNat p.smtDepth.toNat =
      some (artifactSignals random p art) := by
  have hne : art.prepared.extDataHashBe.val ≠ [] :=
    List.ne_nil_of_length_pos (by rw [art.prepared.extDataHashBe.property]; decide)
  have hhash : signalValue (be32To0xHex art.prepared.extDataHashBe.val) =
      some (scalarOf art.prepared.extDataHashBe.val.reverse) := by
    rw [signalValue_be32To0xHex hne]
    exact (dif_pos hlt).trans (congrArg some (Fin.ext (Nat.mod_eq_of_lt hlt).symm))
  rw [h.circuit]
  exact policySignals?_circuitOf h.membership_length h.siblings_length h.path_length
    h.nullifiers (fun tx => ⟨(h.outputs tx).slot, (h.outputs tx).notePubkey,
      (h.outputs tx).commitment⟩) hhash

/-- They satisfy the circuit, if the paths and the proofs of the parameters are right. -/
theorem Transacted.satisfied (h : Transacted box random hashExtData p art outs)
    (hbits : ∀ (n : Nat) (x : Fr), x.val < 2 ^ n → lib.num2Bits n x (bits n x.val))
    (hpool : ∀ input ∈ p.inputs, InPool p input)
    (hdistinct : Function.Injective fun tx =>
      (inputCommitment p (inputSlot random p tx), (inputSlot random p tx).merklePathIndices))
    (hinj : Set.InjOn Query.eval { q | ∃ tx, q ∈ transactQueries random p tx })
    (hmember : IsMember p) (hblocked : IsNotBlocked lib p) :
    PolicyTransaction lib (artifactSignals random p art) where
  inputs := transactSignals_inputs hbits h.path_length h.membership_length h.siblings_length
    hpool hmember hblocked
  outputs := transactSignals_outputs
  sameNullifiers := fun _ _ hij => transactSignals_sameNullifiers hinj hdistinct hij
  amounts := transactSignals_amounts h.publicAmount h.balance
  extDataSquare := ⟨_, rfl⟩

theorem getD_ofFn {α : Type} {n : Nat} (f : Fin n → α) (i : Fin n) (default : α) :
    (List.ofFn f).getD i default = f i := by
  rw [List.getD_eq_getElem _ _ (List.length_ofFn ▸ i.isLt), List.getElem_ofFn]

/-- Their public part is the one of the proof that is sent. -/
theorem Transacted.carries (h : Transacted box random hashExtData p art outs)
    (proofUncompressed : List UInt8) :
    Pool.Carries (artifactSignals random p art)
      (Stellar.proofOf proofUncompressed art.prepared.onchain) := by
  obtain ⟨hroot, hmembership, hnonMembership⟩ := h.roots
  have hcommitment (i : Fin 2) : (art.prepared.outputCommitments.getD i 0).toU256.toFr =
      (artifactSignals random p art).outputCommitment i := by
    rw [U256.toFr_toU256, h.commitments, getD_ofFn]
    rfl
  have hnullifier : art.prepared.inputNullifiers =
      List.ofFn (artifactSignals random p art).inputNullifier := h.nullifiers
  exact {
    root := by
      show p.poolRoot = art.prepared.poolRoot.toU256.toFr
      rw [U256.toFr_toU256, hroot]
    publicAmount := (U256.toFr_toU256 _).symm
    extDataHash := rfl
    inputNullifier := by
      show _ = (List.ofFn fun i : Fin 2 =>
        (art.prepared.inputNullifiers.getD i 0).toU256).map U256.toFr
      rw [hnullifier, List.map_ofFn]
      refine congrArg List.ofFn (funext fun i => ?_)
      rw [Function.comp_apply, U256.toFr_toU256, getD_ofFn]
    outputCommitment0 := (hcommitment 0).symm
    outputCommitment1 := (hcommitment 1).symm
    membershipRoots := fun tx => by
      show p.membershipProof.root = art.prepared.aspMembershipRoot.toU256.toFr
      rw [U256.toFr_toU256, hmembership]
    nonMembershipRoots := fun tx => by
      show p.nonMembershipProof.root = art.prepared.aspNonMembershipRoot.toU256.toFr
      rw [U256.toFr_toU256, hnonMembership] }

end Transacted

theorem isBalanced_fits {extAmount : ExtAmount} {inputsSum outputsSum : NoteAmount}
    {balanced : Bool} (h : isBalanced extAmount inputsSum outputsSum = .ok balanced) :
    |extAmount.val| < 2 ^ 127 := by
  have hlow := extAmount.property.1
  have hhigh := extAmount.property.2
  unfold isBalanced at h
  by_cases hpos : 0 ≤ extAmount.val
  · rwa [abs_of_nonneg hpos]
  · rw [if_neg hpos] at h
    obtain ⟨negated, hneg, -⟩ := exists_of_bind_ok h
    have hnegated := checkedNeg_some (okOr_ok hneg)
    have hlt := negated.property.2
    rw [abs_of_neg (not_le.mp hpos)]
    omega

/-- The smallest `i128` has no negation, and is refused. -/
theorem transact_fits {box : NoteBox} {random : TransactRandomness}
    {hashExtData : ExtData → Except String Bytes32} {p : TransactParams} {art : TransactArtifacts}
    (h : transact box random hashExtData p = .ok art) : |p.extAmount.val| < 2 ^ 127 := by
  obtain ⟨_, -, h⟩ := exists_of_bind_ok h
  obtain ⟨_, hbalance, -⟩ := exists_of_bind_ok h
  obtain ⟨_, -, hbalance⟩ := exists_of_bind_ok hbalance
  obtain ⟨_, -, hbalance⟩ := exists_of_bind_ok hbalance
  obtain ⟨_, hbalanced, -⟩ := exists_of_bind_ok hbalance
  exact isBalanced_fits hbalanced

/-! ### The hash of the external data -/

theorem ofBeBytes_toBeBytes (v : U256) (h : v.toBeBytes.length = 32) :
    U256.ofBeBytes ⟨v.toBeBytes, h⟩ = v := by
  apply Fin.ext
  show leValue (toLeBytes 32 v.val).reverse.reverse = v.val
  rw [List.reverse_reverse]
  exact leValue_toLeBytes (v.isLt.trans_le (by decide))

section Hash

variable {addresses : Stellar.AddressTable} {toXdr : Stellar.ScVal → List UInt8}
  {keccak256 : List UInt8 → Bytes32} {parseAddress : String → Option Stellar.ScAddress}
  {ext : ExtData} {be : Bytes32}

/-- A hash is one of external data that fit and have a recipient, and it is canonical. -/
theorem hashExtDataFn_ok (h : hashExtDataFn toXdr keccak256 parseAddress ext = .ok be) :
    Stellar.hashExtDataOffchain toXdr keccak256 parseAddress ext = .ok be.val ∧
    leValue be.val.reverse < bn256Modulus ∧
    (ext.encryptedOutput0.length < 2 ^ 32 ∧ ext.encryptedOutput1.length < 2 ^ 32) ∧
    ∃ a, parseAddress ext.recipient = some a := by
  obtain ⟨bytes, hbytes, h⟩ := exists_of_bind_ok h
  obtain ⟨hlength, hcanonical⟩ := Stellar.hashExtDataOffchain_canonical toXdr keccak256
    parseAddress hbytes
  unfold toBytes32 at h
  rw [dif_pos hlength] at h
  have hbe := Except.ok.inj h
  subst hbe
  refine ⟨hbytes, hcanonical, ?_, ?_⟩
  · by_contra hlong
    rw [(Stellar.outputs_too_long toXdr keccak256 parseAddress hlong).2] at hbytes
    cases hbytes
  · unfold Stellar.hashExtDataOffchain Stellar.addressScval at hbytes
    obtain ⟨_, -, hbytes⟩ := exists_of_bind_ok hbytes
    obtain ⟨_, -, hbytes⟩ := exists_of_bind_ok hbytes
    cases hparse : parseAddress ext.recipient with
    | some a => exact ⟨a, rfl⟩
    | none =>
        rw [hparse] at hbytes
        cases hbytes

/-- The pool computes the hash of the client from what it is sent. -/
theorem hashExtData_extDataOf (h : hashExtDataFn toXdr keccak256 parseAddress ext = .ok be)
    {a : Stellar.ScAddress} (ha : parseAddress ext.recipient = some a) {recipient : Address}
    (hrecipient : addresses.ofScAddress a = some recipient) (host : Host) :
    Pool.hashExtData (Stellar.xdrHost addresses toXdr keccak256 host)
      (Stellar.extDataOf ext recipient) = U256.ofBeBytes be := by
  obtain ⟨hbytes, -, hfits, -⟩ := hashExtDataFn_ok h
  obtain ⟨parts, hparts, hval⟩ := Stellar.i128ToI256Scval_eq ext.extAmount
  rw [Stellar.hashExtDataOffchain_eq toXdr keccak256 parseAddress hfits.1 hfits.2 hparts ha]
    at hbytes
  have hamount : (Stellar.extDataOf ext recipient).extAmount = I256.ofParts parts :=
    Subtype.ext ((Stellar.extDataOf_extAmount ext recipient).trans hval.symm)
  have hscval : Stellar.extDataToScval addresses (Stellar.extDataOf ext recipient) =
      .map (Stellar.extDataEntries ext.encryptedOutput0 ext.encryptedOutput1 parts a) := by
    rw [Stellar.extDataToScval_eq, hamount, I256.toParts_ofParts]
    show Stellar.ScVal.map (Stellar.extDataEntries _ _ _ (addresses.scAddress recipient)) = _
    rw [addresses.scAddress_of hrecipient]
    rfl
  have hdigest := Except.ok.inj hbytes
  have hread := ofBeBytes_toBeBytes _ (hdigest ▸ be.property)
  unfold Pool.hashExtData Stellar.xdrHost
  simp only [hscval]
  rw [← hread]
  exact congrArg U256.ofBeBytes (Subtype.ext hdigest)

end Hash

end Prover

namespace OnChain.Deployment

open AspMembership (MembershipStorage)
open AspNonMembership (AspStorage)
open Prover (TransactParams TransactRandomness TransactArtifacts NoteBox)

variable {σ κ : Type} {D : Deployment σ κ} {verifier : Address}

/-- A prover whose proofs the verifier accepts: 256 bytes for signals that satisfy the
circuit. -/
def ProverComplete {levels smtLevels : Nat} (lib : Circomlib) (host : Host) (verifier : Address)
    (prove : Signals levels smtLevels → List UInt8) : Prop :=
  ∀ w, PolicyTransaction lib w → (prove w).length = 256 ∧
    host.verify verifier ⟨(prove w).take 64, ((prove w).drop 64).take 128,
      ((prove w).drop 192).take 64⟩ w.publicInputs = some true

/-- The client's parameters are those of the ledger: of the last leaves of the pool, and of
the two ASP contracts that are registered with it. -/
structure Informed (st : State σ) (before : List Transaction) (n : AspStorage)
    (p : TransactParams) : Prop where
  synced : ∃ j ≤ before.length, before.length < j + rootHistorySize ∧
    Prover.FromPool (outputs (before.take j)) p
  root_ne_zero : p.poolRoot ≠ 0
  membership : ∃ a m, st.pool.aspMembership = some a ∧ st.membership a = some m ∧
    m.levels = some p.treeDepth.toNat ∧ Prover.FromMembership (AspMembership.announced m) p
  nonMembership : ∃ b, st.pool.aspNonMembership = some b ∧ st.nonMembership b = some n ∧
    Prover.FromNonMembership n p

/-- The token makes the transfer of the transaction. -/
structure Funded (D : Deployment σ κ) (st : State σ) (signed : Address → Bool)
    (sender recipient : Address) (extAmount : ExtAmount) : Prop where
  deposit : 0 < extAmount.val → (D.tokenContract.transfer st.token (D.transferSigners signed)
    sender D.pool extAmount.val).isSome
  withdrawal : extAmount.val < 0 → (D.tokenContract.transfer st.token (D.transferSigners signed)
    D.pool recipient (-extAmount.val)).isSome

/-- The hashes of the transaction and of the non-membership contract. -/
def honestQueries (random : TransactRandomness) (p : TransactParams) (n : AspStorage) :
    Set Query :=
  { q | (∃ tx, q ∈ Prover.transactQueries random p tx) ∨
    q ∈ AspNonMembership.runQueries [] (AspNonMembership.replay n) }

/-- The numbers that the client sends are field elements. -/
theorem onchain_canonical (proofUncompressed : List UInt8) (prepared : Prover.PreparedTx) :
    Pool.CanonicalInputs (Stellar.proofOf proofUncompressed prepared.onchain) where
  root := prepared.poolRoot.toU256_lt
  inputNullifiers := by
    intro n hn
    obtain ⟨i, rfl⟩ := List.mem_ofFn.mp hn
    exact (prepared.inputNullifiers.getD i 0).toU256_lt
  outputCommitment0 := (prepared.outputCommitments.getD 0 0).toU256_lt
  outputCommitment1 := (prepared.outputCommitments.getD 1 0).toU256_lt
  publicAmount := prepared.publicAmountField.toU256_lt
  aspMembershipRoot := prepared.aspMembershipRoot.toU256_lt
  aspNonMembershipRoot := prepared.aspNonMembershipRoot.toU256_lt

theorem proofOf_isEmpty {proofUncompressed : List UInt8} (h : proofUncompressed.length = 256)
    (pub : Stellar.OnchainProofPublicInputs) :
    (Stellar.proofOf proofUncompressed pub).proof.isEmpty = false := by
  have hne : ∀ (bytes : List UInt8), 0 < bytes.length → bytes.isEmpty = false :=
    fun bytes hpos => List.isEmpty_eq_false_iff.mpr (List.ne_nil_of_length_pos hpos)
  show ((proofUncompressed.take 64).isEmpty || ((proofUncompressed.drop 64).take 128).isEmpty ||
    ((proofUncompressed.drop 192).take 64).isEmpty) = false
  rw [hne _ (by simp; omega), hne _ (by simp; omega), hne _ (by simp; omega)]
  rfl

/-- What `get_root` of the two registered contracts returns to the pool. -/
theorem rootAt_of_contracts {st : State σ} (h : Contracts st) (foreign : Address → Option U256)
    {a b : Address} {m : MembershipStorage} {n : AspStorage} (hm : st.membership a = some m)
    (hn : st.nonMembership b = some n) :
    st.rootAt foreign a = m.root ∧ st.rootAt foreign b = n.root := by
  have hfree : st.membership b = none := by
    rcases h.disjoint b with hnone | hnone
    · exact hnone
    · rw [hn] at hnone
      cases hnone
  constructor
  · rw [State.rootAt, hm]
    cases hroot : m.root with
    | none => simp [returned, AspMembership.getRoot, EStateM.run_bind, hroot, Contract.okOr]
    | some root => simp [returned, AspMembership.getRoot, EStateM.run_bind, hroot]
  · rw [State.rootAt, hfree, hn]
    cases hroot : n.root with
    | none => simp [returned, AspNonMembership.getRoot, EStateM.run_bind, hroot, Contract.okOr]
    | some root => simp [returned, AspNonMembership.getRoot, EStateM.run_bind, hroot]

/-- The pool can make the transfer of what it is sent. -/
theorem Funded.payable {st : State σ} {signed : Address → Bool} {sender recipient : Address}
    {ext : ExtData} (h : Funded D st signed sender recipient ext.extAmount)
    (hfits : |ext.extAmount.val| < 2 ^ 127) (foreign : Address → Option U256)
    (caller : Option Address) (proof : Pool.Proof) :
    Pool.Payable (D.callEnv st signed foreign caller) D.token
      { proof, extData := Stellar.extDataOf ext recipient, sender } := by
  have hamount := Stellar.extDataOf_extAmount ext recipient
  have htransfer : ∀ src dst amount,
      (D.tokenContract.transfer st.token (D.transferSigners signed) src dst amount).isSome →
      (D.callEnv st signed foreign caller).transfer D.token src dst amount = some () := by
    intro src dst amount hsome
    obtain ⟨t', ht'⟩ := Option.isSome_iff_exists.mp hsome
    simp only [callEnv, if_pos, ht', Option.map_some]
  constructor
  · simp only [hamount]
    exact hfits
  · simp only [hamount]
    exact fun hpos => htransfer _ _ _ (h.deposit hpos)
  · simp only [hamount]
    exact fun hneg => htransfer _ _ _ (h.withdrawal hneg)

/-- **An honest transaction is accepted.** After any sequence of actions by anybody, a client
that is informed about the ledger builds a transaction of its own unspent notes; its key is
approved and not blocked. Then the arguments it sends are read by the pool as a transaction,
and the pool accepts this, if the tree has room, the sender signs and the token makes the
transfer. -/
theorem honest_transaction_accepted {addresses : Stellar.AddressTable}
    {toXdr : Stellar.ScVal → List UInt8} {keccak256 : List UInt8 → Bytes32}
    {parseAddress : String → Option Stellar.ScAddress} {host : Host}
    (hhost : D.host = Stellar.xdrHost addresses toXdr keccak256 host) (lib : Circomlib)
    (hwide : ∀ (n : Nat) (x : Fr), 254 ≤ n → lib.num2Bits n x (bits n x.val)) {box : NoteBox}
    {random : TransactRandomness} {p : TransactParams} {art : TransactArtifacts}
    {prove : Signals p.treeDepth.toNat p.smtDepth.toNat → List UInt8}
    (hprove : ProverComplete lib D.host verifier prove) {st₀ : State σ}
    (hinit : D.Constructed p.treeDepth.toNat verifier st₀) (acts : List (Action κ))
    {n : AspStorage} (hinformed : Informed (D.run st₀ acts) (D.accepted st₀ acts) n p)
    (hok : Prover.transact box random (Prover.hashExtDataFn toXdr keccak256 parseAddress) p =
      .ok art)
    (hinj : Set.InjOn Query.eval (honestQueries random p n))
    (hzero : ∀ q ∈ honestQueries random p n, q.eval ≠ 0)
    (hdistinct : Function.Injective fun tx => (Prover.inputCommitment p
      (Prover.inputSlot random p tx), (Prover.inputSlot random p tx).merklePathIndices))
    (hfresh : ∀ nullifier ∈ art.prepared.inputNullifiers,
      ¬ Pool.IsSpent (D.run st₀ acts).pool nullifier.toU256)
    (hroom : 2 * (D.accepted st₀ acts).length + 2 ≤ 2 ^ p.treeDepth.toNat)
    {sourceAccount : String} {sender recipient : Address}
    (hsender : (parseAddress sourceAccount).bind addresses.ofScAddress = some sender)
    (hrecipient : (parseAddress p.extRecipient).bind addresses.ofScAddress = some recipient)
    {signed : Address → Bool} (hsigned : D.signers signed sender = true)
    (hfunded : Funded D (D.run st₀ acts) signed sender recipient p.extAmount)
    (foreign : Address → Option U256) :
    ∃ w args tx,
      art.circuitInputs.policySignals? p.treeDepth.toNat p.smtDepth.toNat = some w ∧
      Stellar.poolTransactArgs parseAddress ⟨prove w, art.extData, art.prepared.onchain⟩
        sourceAccount = .ok args ∧
      Stellar.transactionOfArgs addresses args = some tx ∧
      D.accepted (D.run st₀ acts) [.pool signed foreign (.transact tx)] = [tx] := by
  obtain ⟨-, -, hsound₀⟩ := hinit.sound
  have hsound := hsound₀.run acts
  rw [List.nil_append] at hsound
  have hcontracts := hinit.contracts.run (D := D) acts
  obtain ⟨outs, hart⟩ := Prover.transact_ok hok
  have hdata : art.extData.recipient = p.extRecipient ∧ art.extData.extAmount = p.extAmount := by
    rw [hart.extData]
    exact ⟨rfl, rfl⟩
  obtain ⟨-, hlt, ⟨hfits0, hfits1⟩, a₀, ha₀⟩ := Prover.hashExtDataFn_ok hart.hash
  -- the parameters are right
  obtain ⟨j, hj, hwindow, hpoolPaths⟩ := hinformed.synced
  have hleavesFit : (outputs ((D.accepted st₀ acts).take j)).length ≤ 2 ^ p.treeDepth.toNat := by
    rw [Pool.outputs_length, List.length_take]
    omega
  obtain ⟨hpoolRoot, hpool⟩ := hpoolPaths.inPool hleavesFit
  obtain ⟨a, m, ha, hm, hmlevels, hmemberPath⟩ := hinformed.membership
  obtain ⟨levels, hrep⟩ := hcontracts.membership hm
  obtain rfl : p.treeDepth.toNat = levels := Option.some.inj (hmlevels.symm.trans hrep.levels_eq)
  obtain ⟨hmemberRoot, hmember⟩ := hmemberPath.isMember hrep.fits
  obtain ⟨b, hb, hn, hnonMember⟩ := hinformed.nonMembership
  have hagrees := hcontracts.nonMembership hn _ hinj hzero fun q hq => .inr hq
  obtain ⟨hblockedRoot, hblocked⟩ := hnonMember.isNotBlocked lib hzero hagrees
  -- so the circuit is satisfied and the proof is accepted
  have hbits : ∀ (n : Nat) (x : Fr), x.val < 2 ^ n → lib.num2Bits n x (bits n x.val) := by
    intro n x hxlt
    by_cases hwideN : 254 ≤ n
    · exact hwide n x hwideN
    · exact (lib.num2Bits_iff (Nat.lt_of_not_le hwideN)).mpr ⟨hxlt, rfl⟩
  have hsatisfied := hart.satisfied hbits hpool hdistinct (hinj.mono fun q hq => .inl hq) hmember
    hblocked
  obtain ⟨hlength, hverified⟩ := hprove _ hsatisfied
  -- what is sent is read back
  obtain ⟨senderAddress, hsenderParse, hsenderHost⟩ := Option.bind_eq_some_iff.mp hsender
  obtain ⟨recipientAddress, hrecipientParse, hrecipientHost⟩ :=
    Option.bind_eq_some_iff.mp hrecipient
  rw [← hdata.1] at hrecipientParse hrecipient
  obtain ⟨args, hargs⟩ := (Stellar.poolTransactArgs_isOk_iff parseAddress
    ⟨prove (Prover.artifactSignals random p art), art.extData, art.prepared.onchain⟩
    sourceAccount).mpr ⟨hlength, hfits0, hfits1, by rw [hrecipientParse]; rfl,
      by rw [hsenderParse]; rfl⟩
  have hread := Stellar.transactionOfArgs_eq parseAddress addresses hargs
  simp only [hrecipient, hsender, Option.bind_eq_bind, Option.bind_some, Option.pure_def] at hread
  refine ⟨_, args, _, hart.reads hlt, hargs, hread, ?_⟩
  obtain ⟨hrootAt, hrootAt'⟩ := rootAt_of_contracts hcontracts foreign hm hn
  obtain ⟨hartRoot, hartMember, hartBlocked⟩ := hart.roots
  have hacceptable : Acceptable D.host p.treeDepth.toNat verifier (D.accepted st₀ acts)
      (D.run st₀ acts).pool (D.callEnv (D.run st₀ acts) signed foreign (some sender))
      { proof := Stellar.proofOf (prove (Prover.artifactSignals random p art)) art.prepared.onchain
        extData := Stellar.extDataOf art.extData recipient
        sender := sender } := {
    authorised := hsigned
    payable := by
      refine ⟨D.token, hsound.token_eq, Funded.payable ?_ ?_ foreign _ _⟩
      · rwa [hdata.2]
      · rw [hdata.2]
        exact Prover.transact_fits hok
    known := by
      refine ⟨fun hroot => hinformed.root_ne_zero ?_, j, hj, hwindow, ?_⟩
      · rw [← hartRoot]
        exact AspNonMembership.Fr.toU256_eq_zero.mp hroot
      · show art.prepared.poolRoot.toU256 = _
        rw [hartRoot, hpoolRoot]
    fresh := by
      intro nullifier hmem hspent
      obtain ⟨i, rfl⟩ := List.mem_ofFn.mp hmem
      have hget : art.prepared.inputNullifiers.getD i 0 ∈ art.prepared.inputNullifiers := by
        rw [hart.nullifiers, List.getD_eq_getElem _ _ (List.length_ofFn ▸ i.isLt)]
        exact List.getElem_mem _
      obtain ⟨nulls, hnulls, hmarked⟩ := hsound.reflects.nullifiers
      exact hfresh _ hget ⟨nulls, hnulls, (hmarked _).mpr hspent⟩
    extDataHash := by
      rw [hhost]
      exact Prover.hashExtData_extDataOf hart.hash hrecipientParse hrecipientHost host
    publicAmount := by
      obtain ⟨f, hf, hval⟩ := Stellar.fieldTryFromExtAmount_eq p.extAmount
      obtain rfl := Except.ok.inj (hf.symm.trans hart.publicAmount)
      rw [Stellar.extDataOf_extAmount, hdata.2, ← hval]
      rfl
    membership := by
      refine ⟨a, ha, hrootAt.trans ?_⟩
      show m.root = some art.prepared.aspMembershipRoot.toU256
      rw [hartMember, hmemberRoot]
      exact hrep.root_eq
    nonMembership := by
      refine ⟨b, hb, hrootAt'.trans ?_⟩
      show n.root = some art.prepared.aspNonMembershipRoot.toU256
      rw [hartBlocked, hblockedRoot]
      exact hagrees.keeps.root
    nonempty := proofOf_isEmpty hlength _
    canonical := onchain_canonical _ _
    verified := by
      rw [← (hart.carries _).publicInputs_eq]
      exact hverified
    room := hroom }
  obtain ⟨s', hrun⟩ := (Pool.transact_ok_iff hsound.reflects).mpr hacceptable
  exact accepted_of_ok hrun

/-! ### The member's deposit -/

/-- The sender holds the address 1, the recipient the address 0. -/
def honestParse (s : String) : Option Stellar.ScAddress :=
  if s = "sender" then some (.contract .zero) else some (.account .zero)

def honestKeccak (_ : List UInt8) : Bytes32 := ⟨List.replicate 32 7, List.length_replicate⟩

/-- The host of a verifier that accepts. -/
def honestHost : Host :=
  Stellar.xdrHost Stellar.exampleAddresses (fun _ => []) honestKeccak Prover.depositPoolHost

def honestDeployment : Deployment (Address → Int) (Address × Address × Int) :=
  { depositDeployment with host := honestHost }

/-- Three units are deposited with the path of the member. -/
def honestParams : TransactParams :=
  { Prover.depositParams with
    extRecipient := "recipient"
    membershipProof := {
      leaf := membershipLeaf (keypair 11) 0
      blinding := 0
      pathElements := [MerkleWithHistory.zeroLeaf]
      pathIndices := 0
      root := poseidon2Compress (membershipLeaf (keypair 11) 0) MerkleWithHistory.zeroLeaf } }

def honestProve (_ : Signals honestParams.treeDepth.toNat honestParams.smtDepth.toNat) :
    List UInt8 := List.replicate 256 1

theorem honestProve_complete :
    ProverComplete Circomlib.documented honestDeployment.host 12 honestProve :=
  fun _ _ => ⟨List.length_replicate, rfl⟩

theorem honestParams_fromPool : Prover.FromPool [] honestParams := by
  obtain ⟨t, hnew, hdepth, hleaves, hempty⟩ :=
    Prover.MerklePrefixTree.new_ok (le_refl 1) (by decide) []
  refine ⟨t, hnew, ?_, fun input hinput => by cases hinput⟩
  rw [Prover.MerklePrefixTree.build_root_eq (by rwa [hdepth]), hdepth, hleaves]
  exact congrArg Except.ok (by decide +kernel)

theorem honestParams_fromMembership :
    Prover.FromMembership [membershipLeaf (keypair 11) 0] honestParams := by
  obtain ⟨t, hnew, hdepth, hleaves, hempty⟩ := Prover.MerklePrefixTree.new_ok (le_refl 1)
    (by decide) [membershipLeaf (keypair 11) 0]
  have hroom : t.leaves.length ≤ 2 ^ t.depth := by rw [hleaves, hdepth]; decide
  have hfirst : 0 < t.leaves.length := by rw [hleaves]; decide
  obtain ⟨proof, hproof, hindex, -, helements, -⟩ := Prover.MerklePrefixTree.proof_eq
    (by rwa [hdepth]) hroom (by rw [hdepth]; decide) hfirst
  obtain ⟨-, -, hroot, -⟩ := Prover.MerklePrefixTree.proof_sound hnew
    (show [membershipLeaf (keypair 11) 0].length ≤ 2 ^ 1 by decide)
    (show [membershipLeaf (keypair 11) 0][0]? = some (membershipLeaf (keypair 11) 0) from rfl)
    hproof
  refine ⟨by decide +kernel, t, 0, proof, hnew, rfl, hproof, ?_, (Fin.ext hindex).symm, ?_⟩
  · rw [helements, hleaves, hdepth]
    rfl
  · rw [hroot]
    decide +kernel

/-- What the deployments and the approval of the member leave. -/
theorem honest_run :
    ((honestDeployment.run depositState memberActions).nonMembership 14).map
      (fun n => (n.root, (AspNonMembership.replay n).length)) = some (some 0, 0) ∧
    ((honestDeployment.run depositState memberActions).membership 13).map
      (fun m => (m.levels, AspMembership.announced m)) =
        some (some 1, [membershipLeaf (keypair 11) 0]) ∧
    honestDeployment.accepted depositState memberActions = [] ∧
    honestParams.poolRoot ≠ 0 := by
  decide +kernel

/-- The storage of the non-membership contract after the deployments. -/
theorem honest_nonMembership :
    ∃ n, (honestDeployment.run depositState memberActions).nonMembership 14 = some n ∧
      n.root = some 0 ∧ AspNonMembership.replay n = [] := by
  obtain ⟨n, hn, hval⟩ := Option.map_eq_some_iff.mp honest_run.1
  obtain ⟨hroot, hreplay⟩ := Prod.ext_iff.mp hval
  exact ⟨n, hn, hroot, List.length_eq_zero_iff.mp hreplay⟩

theorem honest_membership :
    ∃ m, (honestDeployment.run depositState memberActions).membership 13 = some m ∧
      m.levels = some 1 ∧ AspMembership.announced m = [membershipLeaf (keypair 11) 0] := by
  obtain ⟨m, hm, hval⟩ := Option.map_eq_some_iff.mp honest_run.2.1
  obtain ⟨hlevels, hannounced⟩ := Prod.ext_iff.mp hval
  exact ⟨m, hm, hlevels, hannounced⟩

theorem honest_accepted_nil : honestDeployment.accepted depositState memberActions = [] :=
  honest_run.2.2.1

/-- No key is found in an empty tree. -/
theorem findKeyInternal_zero (node : U256 → Option (List U256)) (key : U256)
    (keyBits : List Bool) : AspNonMembership.findKeyInternal node key keyBits 0 =
      .ok { found := false, siblings := [], foundValue := 0, notFoundKey := key,
            notFoundValue := 0, isOld0 := true } := by
  unfold AspNonMembership.findKeyInternal
  rw [if_pos rfl]

theorem honestParams_fromNonMembership {n : AspStorage} (hroot : n.root = some 0) :
    Prover.FromNonMembership n honestParams where
  proof := by
    have hkey : Prover.fieldTryFromLeBytes (Prover.senderNotePubkey honestParams).val =
        .ok (keypair (Prover.scalarOf honestParams.privKey.val)) :=
      Prover.fieldTryFromLeBytes_scalarToBytes _
    refine ⟨0, hroot, (Stellar.getNonmembershipProof_zero hkey (by decide)).trans ?_⟩
    have hproofKey : keypair (Prover.scalarOf honestParams.privKey.val) =
        honestParams.nonMembershipProof.key := by decide +kernel
    rw [hproofKey]
    rfl
  short := by
    intro r hr
    unfold AspNonMembership.findKey at hr
    rw [EStateM.run_bind, EStateM.run_get] at hr
    dsimp only at hr
    rw [hroot, Option.getD_some, findKeyInternal_zero] at hr
    cases hr
    decide

theorem honest_informed {n : AspStorage}
    (hn : (honestDeployment.run depositState memberActions).nonMembership 14 = some n)
    (hroot : n.root = some 0) :
    Informed (honestDeployment.run depositState memberActions)
      (honestDeployment.accepted depositState memberActions) n honestParams where
  synced := by
    rw [honest_accepted_nil]
    exact ⟨0, le_refl _, by decide, honestParams_fromPool⟩
  root_ne_zero := honest_run.2.2.2
  membership := by
    obtain ⟨m, hm, hlevels, hannounced⟩ := honest_membership
    exact ⟨13, m, rfl, hm, hlevels, hannounced ▸ honestParams_fromMembership⟩
  nonMembership := ⟨14, rfl, hn, honestParams_fromNonMembership hroot⟩

/-- What the deposit hashes. -/
def honestQueryList : List Query :=
  (Prover.transactQueries Prover.withdrawRandomness honestParams Pool.slot0 ++
    Prover.transactQueries Prover.withdrawRandomness honestParams Pool.slot1).dedup

theorem honestQueries_subset {n : AspStorage} (hn : AspNonMembership.replay n = []) :
    honestQueries Prover.withdrawRandomness honestParams n ⊆ { q | q ∈ honestQueryList } := by
  rintro q (⟨tx, hq⟩ | hq)
  · rw [Set.mem_ofPred_eq, honestQueryList, List.mem_dedup, List.mem_append]
    match tx with
    | 0 => exact .inl hq
    | 1 => exact .inr hq
  · rw [hn] at hq
    cases hq

theorem honestQueryList_distinct :
    (honestQueryList.map Query.eval).Nodup ∧ ∀ q ∈ honestQueryList, q.eval ≠ 0 := by
  decide +kernel

theorem honestQueryList_injOn : Set.InjOn Query.eval { q | q ∈ honestQueryList } :=
  fun _ hq _ hq' heq => List.inj_on_of_nodup_map honestQueryList_distinct.1 hq hq' heq

/-- The member deposits three of its nine units. -/
theorem honest_transaction_accepted_deposit :
    ∃ input args tx, Stellar.poolTransactArgs honestParse input "sender" = .ok args ∧
      Stellar.transactionOfArgs Stellar.exampleAddresses args = some tx ∧
      honestDeployment.accepted (honestDeployment.run depositState memberActions)
        [.pool (fun a => a = 1) (fun _ => none) (.transact tx)] = [tx] := by
  have hisOk : (Prover.transact Prover.tagBox Prover.withdrawRandomness
      (Prover.hashExtDataFn (fun _ => []) honestKeccak honestParse) honestParams).isOk = true := by
    decide +kernel
  cases hok : Prover.transact Prover.tagBox Prover.withdrawRandomness
      (Prover.hashExtDataFn (fun _ => []) honestKeccak honestParse) honestParams with
  | error e =>
      rw [hok] at hisOk
      cases hisOk
  | ok art =>
      obtain ⟨n, hn, hroot, hreplay⟩ := honest_nonMembership
      have hinit : honestDeployment.Constructed 1 12 depositState :=
        ⟨depositState_constructed.pool, fun _ => rfl, fun _ => rfl⟩
      have hsubset := honestQueries_subset hreplay
      have hdistinct : ∀ i j : Fin 2,
          (Prover.inputCommitment honestParams
            (Prover.inputSlot Prover.withdrawRandomness honestParams i),
            (Prover.inputSlot Prover.withdrawRandomness honestParams i).merklePathIndices) =
          (Prover.inputCommitment honestParams
            (Prover.inputSlot Prover.withdrawRandomness honestParams j),
            (Prover.inputSlot Prover.withdrawRandomness honestParams j).merklePathIndices) →
          i = j := by decide +kernel
      have hfunded : Funded honestDeployment (honestDeployment.run depositState memberActions)
          (fun a => a = 1) 1 0 honestParams.extAmount :=
        ⟨fun _ => by decide +kernel, fun h => absurd h (by decide)⟩
      have hhost : honestDeployment.host = Stellar.xdrHost Stellar.exampleAddresses (fun _ => [])
          honestKeccak Prover.depositPoolHost := rfl
      have hsender : (honestParse "sender").bind Stellar.exampleAddresses.ofScAddress = some 1 := by
        decide +kernel
      have hrecipient : (honestParse honestParams.extRecipient).bind
          Stellar.exampleAddresses.ofScAddress = some 0 := by
        decide +kernel
      obtain ⟨w, args, tx, -, hargs, hread, haccepted⟩ := honest_transaction_accepted hhost
        Circomlib.documented Prover.documented_wide honestProve_complete hinit memberActions
        (honest_informed hn hroot) hok
        (honestQueryList_injOn.mono hsubset) (fun q hq => honestQueryList_distinct.2 q (hsubset hq))
        (fun i j => hdistinct i j)
        (fun nullifier _ hspent => by
          obtain ⟨nulls, hnulls, hmem⟩ := hspent
          cases hnulls
          cases hmem)
        (by rw [honest_accepted_nil]; decide) hsender hrecipient (by rfl) hfunded (fun _ => none)
      exact ⟨_, args, tx, hargs, hread, haccepted⟩

end OnChain.Deployment

end PrivatePayments
