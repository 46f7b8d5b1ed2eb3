import PrivatePayments.Disclosure.Canonical
import PrivatePayments.Stellar.PoolRoots
import PrivatePayments.Contracts.PoolSafety
import PrivatePayments.Prover.SelectiveDisclosure

/-!
# PrivatePayments.Disclosure.ReceiptSound

A verified receipt discloses a note of the pool that its context names, for pools of every
depth.

The circuit has a path of fixed length. In a pool of the same depth the path is bound to a leaf;
in a deeper pool it ends below the root at an inner node, which is a compression and not a
commitment; in a shallower pool it passes a leaf, which would then be a compression. In the last
case the leaves have to be commitments, which the pool's own circuit guarantees.
-/

namespace PrivatePayments.Disclosure

open PerfectTree MerkleWithHistory Pool
open Prover (Groth16)

/-! ### Paths that end in the root of a pool -/

section Path

variable {depth levels : Nat} {lib : Circomlib} {w : DisclosureSignals depth 1} {S : Set Query}
  {leaves : List Fr}

/-- The hashes of a disclosure: the commitment and the path. -/
def disclosureQueries (w : DisclosureSignals depth 1) : Set Query :=
  let note : Fin 1 := Fin.last 0
  { q | q = .hash3 (w.inAmount note) (w.inPublicKey note) (w.inBlinding note) 1 ∨
    ∃ p ∈ pathPairs poseidon2Compress (w.inCommitment note) (List.ofFn (w.inPathElements note))
      (w.inPathIndices note).val, q = .compress p.1 p.2 }

/-- A commitment is not a compression. -/
theorem commitment_ne_compress (hS : Set.InjOn Query.eval S) {amount publicKey blinding l r : Fr}
    (h₁ : .hash3 amount publicKey blinding 1 ∈ S) (h₂ : .compress l r ∈ S) :
    noteCommitment amount publicKey blinding ≠ poseidon2Compress l r := by
  intro heq
  have hquery := hS h₁ h₂ heq
  cases hquery

/-- A commitment is not the leaf of an empty slot. -/
theorem commitment_ne_zeroLeaf (hS : Set.InjOn Query.eval S) (hzero : zeroLeafQuery ∈ S)
    {amount publicKey blinding : Fr} (h : .hash3 amount publicKey blinding 1 ∈ S) :
    noteCommitment amount publicKey blinding ≠ zeroLeaf := by
  intro heq
  obtain ⟨-, -, -, hdomain⟩ := hash3_inj hS h hzero heq
  exact absurd hdomain (by decide)

/-- The leaf of an empty slot is not a compression. -/
theorem zeroLeaf_ne_compress (hS : Set.InjOn Query.eval S) (hzero : zeroLeafQuery ∈ S) {l r : Fr}
    (h : .compress l r ∈ S) : zeroLeaf ≠ poseidon2Compress l r := by
  intro heq
  have hquery := hS hzero h heq
  cases hquery

variable (hS : Set.InjOn Query.eval S) (hzero : zeroLeafQuery ∈ S)
variable (hq : disclosureQueries w ⊆ S) (htree : treeQueries levels leaves ⊆ S)

include hS hzero hq htree

/-- **A disclosed commitment is a leaf.** The path of the circuit may be shorter or longer than
the tree is deep; when it is longer, the leaves are known to be commitments. -/
theorem inCommitment_mem (hdepth : depth < 254) (hw : SelectiveDisclosure lib w)
    (hroot : w.roots 0 = treeRoot levels leaves)
    (hleaves : levels < depth → ∀ leaf ∈ leaves, ∃ amount, Opens S leaf amount) :
    w.inCommitment 0 ∈ leaves := by
  obtain ⟨hlt, hpath⟩ := (hw.notes 0).path hdepth
  rw [hroot] at hpath
  have hinj := compress_injOn hS
  have hcommitment : .hash3 (w.inAmount 0) (w.inPublicKey 0) (w.inBlinding 0) 1 ∈ S := hq (.inl rfl)
  have hpairs : ∀ p ∈ pathPairs poseidon2Compress (w.inCommitment 0)
      (List.ofFn (w.inPathElements 0)) (w.inPathIndices 0).val, .compress p.1 p.2 ∈ S :=
    fun p hp => hq (.inr ⟨p, hp, rfl⟩)
  have hnodes : ∀ p ∈ treePairs poseidon2Compress (padded zeroLeaf leaves) levels,
      .compress p.1 p.2 ∈ S := fun p hp => htree ⟨p, hp, rfl⟩
  by_cases hle : depth ≤ levels
  · have hnode := foldPath_binding_deep hinj (by simpa using hle) (by simpa using hlt) hpairs
      hnodes hpath
    rw [List.length_ofFn] at hnode
    cases hgap : levels - depth with
    | zero =>
        rw [hgap, node_zero] at hnode
        rcases padded_mem_or_eq zeroLeaf leaves (w.inPathIndices 0).val with hmem | hempty
        · rwa [hnode]
        · rw [hempty] at hnode
          exact absurd hnode (commitment_ne_zeroLeaf hS hzero hcommitment)
    | succ gap =>
        -- an inner node of the pool's tree
        rw [hgap, node_succ] at hnode
        refine absurd hnode (commitment_ne_compress hS hcommitment (hnodes (_, _) ?_))
        refine ⟨gap, (w.inPathIndices 0).val, by omega, ?_, rfl⟩
        rwa [show levels - (gap + 1) = depth by omega]
  · obtain ⟨j, p, hp, hleaf⟩ := foldPath_binding_shallow hinj (by simpa using hle)
      (by simpa using hlt) hpairs hnodes hpath
    rcases padded_mem_or_eq zeroLeaf leaves j with hmem | hempty
    · obtain ⟨amount, publicKey, blinding, hopen, heq⟩ := hleaves (by omega) _ hmem
      rw [heq] at hleaf
      exact absurd hleaf (commitment_ne_compress hS hopen (hpairs p hp))
    · rw [hempty] at hleaf
      exact absurd hleaf (zeroLeaf_ne_compress hS hzero (hpairs p hp))

end Path

/-! ### Receipts and pools -/

/-- The public inputs that a receipt shows, as field elements in the order of the circuit. -/
def DisclosureReceipt.shownInputs (receipt : DisclosureReceipt U256) : List Fr :=
  (receipt.publicInputs.roots ++ receipt.publicInputs.noteCommitments ++
    [receipt.publicInputs.extContextHash]).map U256.toFr

/-- The genuine verifying key: public inputs are accepted only when `w` returns signals of
`SelectiveDisclosure(10, 1)` for them. -/
def KeySound (lib : Circomlib) (g : Groth16) (vkBytes : List UInt8)
    (w : List Fr → DisclosureSignals 10 1) : Prop :=
  ∀ proofBytes inputs, g.Accepts vkBytes proofBytes inputs →
    (w inputs).publicInputs = inputs ∧ SelectiveDisclosure lib (w inputs)

/-- The hashes of a pool: the zero leaf and the trees after each of its transactions. -/
def poolQueries (pool : DeployedPool) : Set Query :=
  { q | q = zeroLeafQuery ∨ ∃ j ≤ pool.transactions.length,
    q ∈ treeQueries pool.levels (outputs (pool.transactions.take j)) }

/-- The verifier of the pool is sound for the circuit of its transactions, whose hashes are
in `S`. -/
def PoolSound (lib : Circomlib) (pool : DeployedPool) (S : Set Query) : Prop :=
  ∃ (smtLevels : Nat) (policy : List Fr → Signals pool.levels smtLevels),
    VerifierSound lib pool.host pool.verifier policy ∧ runQueries policy pool.transactions ⊆ S

/-- A sound verifier admits commitments only. -/
theorem PoolSound.opens {lib : Circomlib} {pool : DeployedPool} {S : Set Query}
    (h : PoolSound lib pool S) {leaf : Fr} (hleaf : leaf ∈ outputs pool.transactions) :
    ∃ amount, Opens S leaf amount := by
  obtain ⟨smtLevels, policy, hsound, hq⟩ := h
  rw [outputs_eq_map hsound pool.admitted] at hleaf
  obtain ⟨o, ho, rfl⟩ := List.mem_map.mp hleaf
  exact ⟨o.1, o.2.1, o.2.2, hq (opening_query_mem ho), rfl⟩

section Receipts

variable (lib : Circomlib) (sha256 : List UInt8 → Bytes32) (g : Groth16)
  (config : ContractConfig) (network : String → Option DeployedPool) (vkBytes : List UInt8)
  (vkHash : String)

/-- A receipt passes the three checks. -/
structure FullyVerified (receipt : DisclosureReceipt U256) : Prop where
  proof : verifyReceiptProof sha256 g receipt vkBytes vkHash = .ok true
  context : verifyReceiptContext sha256 receipt = .ok true
  roots : ∀ root ∈ receipt.publicInputs.roots,
    Stellar.isPoolKnownRoot config network receipt.context.poolAddress.val root = .ok true

variable {lib sha256 g config network vkBytes vkHash} {w : List Fr → DisclosureSignals 10 1}
  {S : Set Query} {receipt : DisclosureReceipt U256}

/-- The shown commitment is a leaf of the pool, and the signals open it. -/
theorem FullyVerified.disclosed (hkey : KeySound lib g vkBytes w)
    (h : FullyVerified sha256 g config network vkBytes vkHash receipt)
    {json : DisclosureReceipt String} (hparse : json.fromJson = .ok receipt)
    (hS : Set.InjOn Query.eval S) (hq : disclosureQueries (w receipt.shownInputs) ⊆ S)
    (hpool : ∀ pool, network receipt.context.poolAddress.val = some pool →
      poolQueries pool ⊆ S ∧ (pool.levels < 10 → PoolSound lib pool S)) :
    ∃ pool commitment, network receipt.context.poolAddress.val = some pool ∧
      receipt.publicInputs.noteCommitments = [commitment] ∧ commitment ∈ pool.leaves ∧
      commitment = ((w receipt.shownInputs).inCommitment 0).toU256 := by
  obtain ⟨root, commitment, proofBytes, hroots, hcommitments, haccepts⟩ :=
    verifyReceiptProof_true h.proof
  obtain ⟨hrootLt, hcommitmentLt⟩ := fromJson_canonical hparse
  have hknown := h.roots root (by rw [hroots]; exact List.mem_singleton.mpr rfl)
  have hcanonical := hcommitmentLt commitment
    (by rw [hcommitments]; exact List.mem_singleton.mpr rfl)
  have hshown : receipt.shownInputs =
      [root.toFr, commitment.toFr, receipt.publicInputs.extContextHash.toFr] := by
    unfold DisclosureReceipt.shownInputs
    rw [hroots, hcommitments]
    rfl
  rw [← hshown] at haccepts
  obtain ⟨hpublic, hw⟩ := hkey _ _ haccepts
  generalize hsignals : w receipt.shownInputs = signals at hpublic hw hq ⊢
  rw [hshown] at hpublic
  simp only [DisclosureSignals.publicInputs, List.ofFn_succ, List.ofFn_zero, List.cons_append,
    List.nil_append, List.cons.injEq, and_true] at hpublic
  obtain ⟨hroot, hnote, -⟩ := hpublic
  obtain ⟨pool, s, hnetwork, hrun⟩ := Stellar.isPoolKnownRoot_true hknown
  obtain ⟨hqueries, hsoundPool⟩ := hpool pool hnetwork
  obtain ⟨j, hj, hprefix⟩ := DeployedPool.known_prefix hrun
  -- the leaves behind the known root are leaves of the pool
  have hsub : outputs (pool.transactions.take j) ⊆ outputs pool.transactions := by
    rw [← outputs_take]
    exact List.take_subset _ _
  have hmem := inCommitment_mem hS (hqueries (.inl rfl)) hq
    (fun q hq => hqueries (.inr ⟨j, hj, hq⟩)) (by decide) hw
    (by rw [hroot, hprefix, U256.toFr_toU256])
    (fun hlevels leaf hleaf => (hsoundPool hlevels).opens (hsub hleaf))
  rw [← (hw.notes 0).commitment, hnote] at hmem
  refine ⟨pool, commitment, hnetwork, hcommitments, DeployedPool.mem_leaves hcanonical
    (hsub hmem), ?_⟩
  rw [← (hw.notes 0).commitment, hnote, U256.toU256_toFr hcanonical]

/-- Receipts with equal public inputs name one context, up to a collision. -/
theorem FullyVerified.same_context {other : DisclosureReceipt U256}
    (h : FullyVerified sha256 g config network vkBytes vkHash receipt)
    (h' : FullyVerified sha256 g config network vkBytes vkHash other)
    (hinputs : receipt.publicInputs = other.publicInputs) :
    receipt.context = other.context ∨ ContextCollision sha256 receipt.context other.context := by
  refine context_eq_or_collision ?_
  rw [← verifyReceiptContext_true h.context, ← verifyReceiptContext_true h'.context, hinputs]

end Receipts

/-- The current root of a pool is the root over all its leaves. -/
theorem getLastRoot_pool (pool : DeployedPool) :
    getLastRoot.run pool.storage.tree =
      .ok (treeRoot pool.levels (outputs pool.transactions)).toU256 pool.storage.tree :=
  getLastRoot_of_represents pool.reflects.tree

/-- The metadata of the registered circuit are valid for every verifying key. -/
theorem receiptMetadata_validate (sha256 : List UInt8 → Bytes32) (vkBytes : List UInt8) :
    (selectiveDisclosure1.receiptMetadata (verifyingKeyHash sha256 vkBytes)).validate =
      .ok () := by
  generalize hmetadata : selectiveDisclosure1.receiptMetadata (verifyingKeyHash sha256 vkBytes) =
    metadata
  have hname : metadata.name ≠ "" := hmetadata ▸ show selectiveDisclosure1.name ≠ "" by decide
  have hlevels : metadata.levels ≠ 0 := hmetadata ▸ show selectiveDisclosure1.levels ≠ 0 by decide
  have hnotes : metadata.nNotes ≠ 0 := hmetadata ▸ show selectiveDisclosure1.nNotes ≠ 0 by decide
  have hhash : metadata.vkHash = "0x" ++ hexEncode (sha256 vkBytes).val := hmetadata ▸ rfl
  unfold DisclosureCircuitMetadata.validate
  rw [if_neg hname, if_neg hlevels, if_neg hnotes, hhash,
    parse0xHexExact_hexEncode _ (by decide) (sha256 vkBytes).property]
  rfl

/-- A receipt that names the registered circuit passes when its other parts are valid. -/
theorem validateRegisteredReceipt_of {sha256 : List UInt8 → Bytes32} {vkBytes bytes : List UInt8}
    {receipt : DisclosureReceipt U256} (hversion : receipt.version = disclosureReceiptVersion)
    (hcircuit : receipt.circuit =
      selectiveDisclosure1.receiptMetadata (verifyingKeyHash sha256 vkBytes))
    (hcontext : receipt.context.validate = .ok ())
    (hinputs : receipt.publicInputs.validate selectiveDisclosure1.nNotes = .ok ())
    (hproof : receipt.proofCompressedBytes = .ok bytes) (hissued : receipt.issuedAt ≠ "") :
    validateRegisteredReceipt receipt (verifyingKeyHash sha256 vkBytes) =
      .ok selectiveDisclosure1 := by
  have hreceipt : receipt.validate = .ok () := by
    unfold DisclosureReceipt.validate
    rw [if_neg (not_not.mpr hversion), hcircuit, receiptMetadata_validate, hcontext,
      show (selectiveDisclosure1.receiptMetadata (verifyingKeyHash sha256 vkBytes)).nNotes =
        selectiveDisclosure1.nNotes from rfl, hinputs, hproof]
    exact if_neg hissued
  have hfind : findCircuit receipt.circuit.name = some selectiveDisclosure1 := by
    rw [hcircuit]
    exact if_pos rfl
  have hvalid : selectiveDisclosure1.validateReceipt receipt (verifyingKeyHash sha256 vkBytes) =
      .ok () := by
    unfold RegisteredCircuit.validateReceipt
    rw [hreceipt, receiptMetadata_validate]
    exact if_neg (not_not.mpr hcircuit)
  unfold validateRegisteredReceipt
  simp only [hfind, hvalid]
  rfl

/-! ### A receipt

A pool of depth 10 with one deposit, and the receipt for its first note. The verifier accepts
the public inputs of this receipt only. -/

/-- The deposit, into an empty pool of depth 10. -/
def disclosedTx : Transaction :=
  { depositTx with proof := { depositTx.proof with root := (zeroNode 10).toU256 } }

/-- The pool after the deposit; a pool of this depth needs no sound verifier. -/
def disclosedPool : DeployedPool where
  host := { depositHost with verify := fun _ _ _ => some true }
  levels := 10
  admin := 10
  token := 11
  verifier := 12
  aspMembership := 13
  aspNonMembership := 14
  deployed := initialPool 10
  constructor_ok := constructor_run (by decide) (by decide)
  calls := [.transact depositEnv disclosedTx]

/-- The nodes above two leaves, from level 1 on, when all other slots are empty. -/
def spine (a b : Fr) : Nat → Fr
  | 0 => poseidon2Compress a b
  | l + 1 => poseidon2Compress (spine a b l) (zeroNode (l + 1))

theorem node_spine (a b : Fr) (l : Nat) :
    node poseidon2Compress (padded zeroLeaf [a, b]) (l + 1) 0 = spine a b l := by
  induction l with
  | zero => rfl
  | succ l ih =>
      rw [node_succ, ih, node_padded_of_le, ← zeroNode_eq_constNode, spine]
      rw [List.length_cons, List.length_singleton, Nat.mul_zero, Nat.zero_add, Nat.one_mul]
      exact le_self_pow₀ (by decide) (by omega)

/-- The hashes of an empty tree. -/
theorem mem_treeQueries_nil {levels : Nat} {q : Query} (h : q ∈ treeQueries levels []) :
    ∃ l < levels, q = .compress (zeroNode l) (zeroNode l) := by
  obtain ⟨p, ⟨l, i, hl, -, rfl⟩, rfl⟩ := h
  refine ⟨l, hl, ?_⟩
  rw [node_padded_of_le _ (Nat.zero_le _), node_padded_of_le _ (Nat.zero_le _),
    ← zeroNode_eq_constNode]

/-- The hashes of a tree with two leaves. -/
theorem mem_treeQueries_two {levels : Nat} {a b : Fr} {q : Query}
    (h : q ∈ treeQueries levels [a, b]) :
    q = .compress a b ∨ (∃ l, l + 1 < levels ∧ q = .compress (spine a b l) (zeroNode (l + 1))) ∨
      ∃ l < levels, q = .compress (zeroNode l) (zeroNode l) := by
  obtain ⟨p, ⟨l, i, hl, -, rfl⟩, rfl⟩ := h
  have hempty : ∀ k, 2 ≤ k * 2 ^ l →
      node poseidon2Compress (padded zeroLeaf [a, b]) l k = zeroNode l := by
    intro k hk
    rw [node_padded_of_le _ hk, ← zeroNode_eq_constNode]
  by_cases hi : i = 0
  · subst hi
    cases l with
    | zero => exact .inl rfl
    | succ l =>
        refine .inr (.inl ⟨l, hl, ?_⟩)
        rw [Nat.mul_zero, node_spine, hempty 1 (by
          rw [Nat.one_mul]
          exact le_self_pow₀ (by decide) (by omega))]
  · have hpow : 1 ≤ 2 ^ l := Nat.one_le_two_pow
    refine .inr (.inr ⟨l, hl, ?_⟩)
    rw [hempty (2 * i) (Nat.mul_le_mul (by omega : 2 ≤ 2 * i) hpow),
      hempty (2 * i + 1) (Nat.mul_le_mul (by omega : 2 ≤ 2 * i + 1) hpow)]

/-- The parameters of the disclosure. -/
def disclosedParams : Prover.SelectiveDisclosure1Params where
  root := 3812638523625000750363857013085446331434626720979765135395425000939467766265
  noteCommitment := 19534438816404169154609878279565967145495783006460590322495841730004938599581
  noteAmount := 5
  notePrivateKey := Prover.numberKey 11
  noteBlinding := 7
  merklePathIndices := 0
  merklePathElements := depositSignals.outputCommitment slot1 :: (List.range' 1 9).map zeroNode
  extContextHash := 397514729926571183164174097828185334237927423520103924080003055474559217311

/-- A pool that is enabled. -/
def disclosedConfig : ContractConfig where
  aspMembership := "CMEMBER"
  aspMembershipDeploymentLedger := none
  aspNonMembership := "CNONMEMBER"
  publicKeyRegistry := "CREGISTRY"
  pools := [⟨"CPOOL", 1, true⟩]

/-- The contracts of the network. -/
def disclosedNetwork (address : String) : Option DeployedPool :=
  if address = "CPOOL" then some disclosedPool else none

/-- The context of the receipt, with the representation of its nonce. -/
def disclosedContext {F : Type} (contextNonce : F) : DisclosureContext F where
  network := testnet
  poolAddress := testPool
  authorityLabel := ⟨"Authority XYZ", by decide +kernel⟩
  authorityIdentityPayloadHex := ⟨"0x617574686f72697479", by decide +kernel⟩
  purpose := ⟨"kyc-review", by decide +kernel⟩
  contextNonce := contextNonce

/-- SHA-256 of the empty key and of the context. -/
def disclosedSha256 (bytes : List UInt8) : Bytes32 :=
  if bytes = [] then ⟨
    [227, 176, 196, 66, 152, 252, 28, 20, 154, 251, 244, 200, 153, 111, 185, 36, 39, 174, 65,
     228, 100, 155, 147, 76, 164, 149, 153, 27, 120, 82, 184, 85], rfl⟩
  else if bytes = contextBytes (disclosedContext 7) then ⟨
    [159, 238, 120, 187, 172, 64, 71, 123, 38, 142, 100, 133, 127, 207, 181, 143, 149, 244, 118,
     89, 190, 239, 23, 179, 206, 133, 244, 207, 64, 252, 224, 0], rfl⟩
  else Bytes32.zero

/-- A receipt, with the representations of its four field elements. -/
def receiptOf {F : Type} (contextNonce root commitment extContextHash : F) :
    DisclosureReceipt F where
  version := 1
  circuit := ⟨"selectiveDisclosure_1", 10, 1, verifyingKeyHash disclosedSha256 []⟩
  context := disclosedContext contextNonce
  publicInputs := ⟨[root], [commitment], extContextHash⟩
  proofCompressedHex := String.ofList ('0' :: 'x' :: List.replicate 256 'a')
  issuedAt := "2026-05-19T14:00:00Z"

/-- The receipt as a document. -/
def disclosedJson : DisclosureReceipt String :=
  receiptOf "0x0000000000000000000000000000000000000000000000000000000000000007"
    "0x086de07e9f2cc0b6abec58a37d0e9a2449596456b6bc1b1cf106d7934cdaf9f9"
    "0x2b3019be1490ce48dc20ff463cdca948a10f41afbf63e4330f1eefdaf2c32c9d"
    "0x00e0fc40cff485ceb317efbe5976f4958fb5cf7f85648e267b4740acbb78ee9f"

/-- The receipt. -/
def disclosedReceipt : DisclosureReceipt U256 :=
  receiptOf 7 disclosedParams.root.toU256 disclosedParams.noteCommitment.toU256
    disclosedParams.extContextHash.toU256

/-- A verifier that accepts the public inputs of this receipt only. -/
def disclosedGroth16 : Groth16 where
  VerifyingKey := Unit
  PreparedVerifyingKey := Unit
  Proof := Unit
  deserializeVk _ := .ok ()
  deserializeProof _ := .ok ()
  processVk _ := .ok ()
  gammaAbcLength _ := 4
  verifyWithProcessedVk _ inputs _ := .ok (inputs = (disclosedParams.signals 10).publicInputs)

theorem disclosedJson_fromJson : disclosedJson.fromJson = .ok disclosedReceipt := by
  decide +kernel

/-- The deposit is accepted, and the root of the receipt is known afterwards. -/
def depositKnown : Bool :=
  match (Call.function disclosedPool.host (.transact depositEnv disclosedTx)).run (initialPool 10) with
  | .ok _ s =>
      match (Pool.isKnownRoot disclosedParams.root.toU256).run s with
      | .ok known _ => known
      | .error _ _ => false
  | .error _ _ => false

theorem depositKnown_eq : depositKnown = true := by decide +kernel

theorem disclosedPool_transactions : disclosedPool.transactions = [disclosedTx] ∧
    ∃ s, (Pool.isKnownRoot disclosedParams.root.toU256).run disclosedPool.storage = .ok true s := by
  have hknown := depositKnown_eq
  unfold depositKnown at hknown
  unfold DeployedPool.transactions DeployedPool.storage
  have hcalls : disclosedPool.calls = [.transact depositEnv disclosedTx] := rfl
  have hdeployed : disclosedPool.deployed = initialPool 10 := rfl
  rw [hcalls, hdeployed, run_cons]
  cases hrun : (Call.function disclosedPool.host (.transact depositEnv disclosedTx)).run
      (initialPool 10) with
  | error e s =>
      rw [hrun] at hknown
      cases hknown
  | ok u s =>
      rw [hrun] at hknown
      refine ⟨rfl, ?_⟩
      cases hroot : (Pool.isKnownRoot disclosedParams.root.toU256).run s with
      | error e s' =>
          simp only [hroot] at hknown
          cases hknown
      | ok known s' =>
          simp only [hroot] at hknown
          subst hknown
          exact ⟨s', hroot⟩

/-- The hashes of the disclosure and of the pool. -/
def disclosedQueries : List Query :=
  [zeroLeafQuery, .hash3 5 (keypair 11) 7 1,
   .compress (depositSignals.outputCommitment slot0) (depositSignals.outputCommitment slot1)] ++
  (List.range 9).map (fun l => .compress
    (spine (depositSignals.outputCommitment slot0) (depositSignals.outputCommitment slot1) l)
    (zeroNode (l + 1))) ++
  (List.range 10).map fun l => .compress (zeroNode l) (zeroNode l)

theorem disclosedQueries_injOn : Set.InjOn Query.eval { q | q ∈ disclosedQueries } := by
  have hnodup : (disclosedQueries.map Query.eval).Nodup := by decide +kernel
  exact fun q hq q' hq' heq => List.inj_on_of_nodup_map hnodup hq hq' heq

theorem disclosedQueries_cover : poolQueries disclosedPool ⊆ { q | q ∈ disclosedQueries } := by
  rintro q (rfl | ⟨j, hj, hq⟩)
  · exact List.mem_append_left _ (List.mem_append_left _ List.mem_cons_self)
  · rw [disclosedPool_transactions.1] at hj hq
    have hj' : j = 0 ∨ j = 1 := by
      rw [List.length_singleton] at hj
      omega
    have hzero : ∀ l < 10, Query.compress (zeroNode l) (zeroNode l) ∈ disclosedQueries := by
      intro l hl
      exact List.mem_append_right _ (List.mem_map.mpr ⟨l, List.mem_range.mpr hl, rfl⟩)
    rcases hj' with rfl | rfl
    · obtain ⟨l, hl, rfl⟩ := mem_treeQueries_nil hq
      exact hzero l hl
    · have hleaves : outputs ([disclosedTx].take 1) = [depositSignals.outputCommitment 0,
          depositSignals.outputCommitment 1] := by
        simp [disclosedTx, depositTx]
      rw [hleaves] at hq
      rcases mem_treeQueries_two hq with rfl | ⟨l, hl, rfl⟩ | ⟨l, hl, rfl⟩
      · exact List.mem_append_left _ (List.mem_append_left _
          (List.mem_cons_of_mem _ (List.mem_cons_of_mem _ (List.mem_singleton.mpr rfl))))
      · have hl' : l + 1 < 10 := hl
        exact List.mem_append_left _ (List.mem_append_right _
          (List.mem_map.mpr ⟨l, List.mem_range.mpr (by omega), rfl⟩))
      · exact hzero l hl

/-- The pairs that are hashed above a node of the spine. -/
theorem mem_pathPairs_spine {a b : Fr} {p : Fr × Fr} (n : Nat) : ∀ {l : Nat},
    p ∈ pathPairs poseidon2Compress (spine a b l) ((List.range' (l + 1) n).map zeroNode) 0 →
    ∃ k < l + n, p = (spine a b k, zeroNode (k + 1)) := by
  induction n with
  | zero =>
      intro l hp
      cases hp
  | succ n ih =>
      intro l hp
      rw [List.range'_succ, List.map_cons, pathPairs] at hp
      rcases List.mem_cons.mp hp with rfl | hp
      · exact ⟨l, by omega, rfl⟩
      · obtain ⟨k, hk, heq⟩ := ih (l := l + 1) hp
        exact ⟨k, by omega, heq⟩

theorem foldPath_spine (a b : Fr) (n : Nat) : ∀ {l : Nat},
    foldPath poseidon2Compress (spine a b l) ((List.range' (l + 1) n).map zeroNode) 0 =
      spine a b (l + n) := by
  induction n with
  | zero =>
      intro l
      rfl
  | succ n ih =>
      intro l
      have hstep := ih (l := l + 1)
      rw [show l + 1 + n = l + (n + 1) by omega] at hstep
      rw [List.range'_succ, List.map_cons, foldPath_cons]
      exact hstep

theorem scalarOf_numberKey : Prover.scalarOf (Prover.numberKey 11).val = 11 := by decide +kernel

theorem disclosedSignals_inCommitment : (disclosedParams.signals 10).inCommitment 0 =
    depositSignals.outputCommitment 0 := by
  have hamount : Prover.amountFr 5 = 5 := by decide
  show noteCommitment (Prover.amountFr 5) (keypair (Prover.scalarOf (Prover.numberKey 11).val)) 7 =
    noteCommitment 5 (keypair 11) 7
  rw [scalarOf_numberKey, hamount]

theorem disclosedSignals_elements : List.ofFn ((disclosedParams.signals 10).inPathElements 0) =
    disclosedParams.merklePathElements :=
  Prover.CircuitInputs.ofFn_getD rfl

theorem disclosed_cover : disclosureQueries (disclosedParams.signals 10) ⊆
    { q | q ∈ disclosedQueries } := by
  rintro q (rfl | ⟨p, hp, rfl⟩)
  · have hamount : Prover.amountFr 5 = 5 := by decide
    show Query.hash3 (Prover.amountFr 5)
      (keypair (Prover.scalarOf (Prover.numberKey 11).val)) 7 1 ∈ disclosedQueries
    rw [scalarOf_numberKey, hamount]
    exact List.mem_append_left _ (List.mem_append_left _
      (List.mem_cons_of_mem _ List.mem_cons_self))
  · have hnote : (Fin.last 0 : Fin 1) = 0 := rfl
    rw [hnote, disclosedSignals_elements, disclosedSignals_inCommitment] at hp
    have hpath : disclosedParams.merklePathElements =
        depositSignals.outputCommitment 1 :: (List.range' 1 9).map zeroNode := rfl
    have hindex : ((disclosedParams.signals 10).inPathIndices 0).val = 0 := rfl
    rw [hpath, hindex, pathPairs] at hp
    rcases List.mem_cons.mp hp with rfl | hp
    · exact List.mem_append_left _ (List.mem_append_left _
        (List.mem_cons_of_mem _ (List.mem_cons_of_mem _ (List.mem_singleton.mpr rfl))))
    · obtain ⟨k, hk, rfl⟩ := mem_pathPairs_spine 9 (l := 0) hp
      exact List.mem_append_left _ (List.mem_append_right _
        (List.mem_map.mpr ⟨k, List.mem_range.mpr (by omega), rfl⟩))

theorem disclosed_commitment :
    depositSignals.outputCommitment 0 = disclosedParams.noteCommitment := by
  decide +kernel

theorem disclosedSignals_satisfied :
    SelectiveDisclosure Circomlib.documented (disclosedParams.signals 10) where
  notes := by
    intro ni
    obtain rfl : ni = 0 := Subsingleton.elim _ _
    have hroot : spine (depositSignals.outputCommitment 0) (depositSignals.outputCommitment 1) 9 =
        disclosedParams.root := by
      decide +kernel
    refine ⟨?_, ?_⟩
    · rw [disclosedSignals_inCommitment, disclosed_commitment]
      rfl
    · rw [disclosedSignals_inCommitment, disclosedSignals_elements]
      refine (merkleProof_iff (by decide)).mpr ⟨by decide, ?_⟩
      show disclosedParams.root = _
      rw [← hroot]
      exact (foldPath_spine _ _ 9 (l := 0)).symm
  extContextSquare := ⟨_, rfl⟩

/-- The proof of the receipt is the encoding of 128 bytes. -/
theorem disclosedReceipt_bytes :
    disclosedReceipt.proofCompressedBytes = .ok (List.replicate 128 0xaa) := by
  have hdigits : (hexEncode (List.replicate 128 0xaa)).toList = List.replicate 256 'a' := by
    rw [hexEncode, String.toList_ofList]
    decide +kernel
  have hspelled : disclosedReceipt.proofCompressedHex =
      "0x" ++ hexEncode (List.replicate 128 0xaa) := by
    refine String.toList_inj.mp ?_
    show (String.ofList ('0' :: 'x' :: List.replicate 256 'a')).toList = _
    rw [String.toList_append, String.toList_ofList, hdigits]
    rfl
  unfold DisclosureReceipt.proofCompressedBytes
  rw [hspelled]
  exact parse0xHexExact_hexEncode _ (by decide) List.length_replicate

theorem disclosedReceipt_verified : FullyVerified disclosedSha256 disclosedGroth16 disclosedConfig
    disclosedNetwork [] (verifyingKeyHash disclosedSha256 []) disclosedReceipt where
  proof := by
    have hregistered : validateRegisteredReceipt disclosedReceipt
        (verifyingKeyHash disclosedSha256 []) = .ok selectiveDisclosure1 :=
      validateRegisteredReceipt_of rfl rfl (by decide +kernel) (by decide +kernel)
        disclosedReceipt_bytes (by decide)
    unfold verifyReceiptProof validateVerifyingKeyHash
    rw [if_neg (not_not.mpr rfl), hregistered, disclosedReceipt_bytes]
    show (selectiveDisclosure1.publicInputsBytes disclosedReceipt >>= fun publicInputs =>
      Prover.verifyProof disclosedGroth16 [] (List.replicate 128 0xaa) publicInputs) = _
    rw [publicInputsBytes_selectiveDisclosure1]
    decide +kernel
  context := by decide +kernel
  roots := by
    intro root hroot
    obtain ⟨s, hknown⟩ := disclosedPool_transactions.2
    rw [List.mem_singleton.mp hroot]
    have hentry : Stellar.enabledPoolFor disclosedConfig "CPOOL" = .ok ⟨"CPOOL", 1, true⟩ := by
      decide +kernel
    show Stellar.isPoolKnownRoot disclosedConfig disclosedNetwork "CPOOL"
      disclosedParams.root.toU256 = _
    have hnetwork : disclosedNetwork "CPOOL" = some disclosedPool := if_pos rfl
    unfold Stellar.isPoolKnownRoot
    rw [hentry, Prover.ok_bind]
    dsimp only
    rw [hnetwork]
    simp only [hknown]

end PrivatePayments.Disclosure
