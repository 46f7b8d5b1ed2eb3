import PrivatePayments.Circuits.SmtVerifier
import PrivatePayments.Lib.PerfectTree
import Mathlib.Algebra.BigOperators.Fin

/-!
# PrivatePayments.Circuits.PolicyTransaction

The constraint system of a transaction (`policyTransaction.circom`) with the templates
it is made of (`keypair.circom`, `merkleProof.circom`). Signals are the fields of
`PolicySignals`; the template is a predicate on them.
-/

namespace PrivatePayments

/-- `Keypair`: the public key of a private key. -/
def keypair (privateKey : Fr) : Fr := poseidon2Hash2 privateKey 0 3

/-- `Signature` -/
def signature (privateKey commitment merklePath : Fr) : Fr :=
  poseidon2Hash3 privateKey commitment merklePath 4

/-- `inCommitmentHasher`, `outCommitmentHasher` -/
def noteCommitment (amount publicKey blinding : Fr) : Fr :=
  poseidon2Hash3 amount publicKey blinding 1

/-- `inNullifierHasher` -/
def noteNullifier (commitment pathIndices signature : Fr) : Fr :=
  poseidon2Hash3 commitment pathIndices signature 2

/-- `policyMembershipHasher` -/
def membershipLeaf (publicKey blinding : Fr) : Fr := poseidon2Hash2 publicKey blinding 1

/-- The components `switcher[i]`, `hasher[i]` of `MerkleProof`, from the running hash on. -/
def merkleHashers (lib : Circomlib) : Fr → List Fr → List Fr → Fr → Prop
  | current, [], _, root => root = current
  | current, element :: elements, indexBit :: indexBits, root =>
      ∃ outL outR, lib.switcher indexBit current element outL outR ∧
        merkleHashers lib (poseidon2Compress outL outR) elements indexBits root
  | _, _ :: _, [], _ => False

/-- The constraints of `MerkleProof(levels)`, where `levels` is the number of path elements. -/
def merkleProof (lib : Circomlib) (leaf : Fr) (pathElements : List Fr) (pathIndices root : Fr) :
    Prop :=
  ∃ indexBits, lib.num2Bits pathElements.length pathIndices indexBits ∧
    merkleHashers lib leaf pathElements indexBits root

/-- The bus `MembershipProof(levels)` -/
structure MembershipProof (levels : Nat) where
  leaf : Fr
  blinding : Fr
  pathElements : Fin levels → Fr
  pathIndices : Fr

/-- The bus `NonMembershipProof(levels)` -/
structure NonMembershipProof (levels : Nat) where
  key : Fr
  siblings : Fin levels → Fr
  oldKey : Fr
  oldValue : Fr
  isOld0 : Fr

/-- The input signals of `PolicyTransaction`. -/
structure PolicySignals
    (nIns nOuts nMembershipProofs nNonMembershipProofs levels smtLevels : Nat) where
  root : Fr
  publicAmount : Fr
  extDataHash : Fr
  inputNullifier : Fin nIns → Fr
  outputCommitment : Fin nOuts → Fr
  membershipRoots : Fin nIns → Fin nMembershipProofs → Fr
  nonMembershipRoots : Fin nIns → Fin nNonMembershipProofs → Fr
  membershipProofs : Fin nIns → Fin nMembershipProofs → MembershipProof levels
  nonMembershipProofs : Fin nIns → Fin nNonMembershipProofs → NonMembershipProof smtLevels
  inAmount : Fin nIns → Fr
  inPrivateKey : Fin nIns → Fr
  inBlinding : Fin nIns → Fr
  inPathIndices : Fin nIns → Fr
  inPathElements : Fin nIns → Fin levels → Fr
  outAmount : Fin nOuts → Fr
  outPubkey : Fin nOuts → Fr
  outBlinding : Fin nOuts → Fr

namespace PolicySignals

variable {nIns nOuts nM nN levels smtLevels : Nat}
variable (w : PolicySignals nIns nOuts nM nN levels smtLevels)

/-- The public signals, in the order the main component declares them. -/
def publicInputs : List Fr :=
  [w.root, w.publicAmount, w.extDataHash] ++ List.ofFn w.inputNullifier ++
    List.ofFn w.outputCommitment ++ (List.ofFn fun tx => List.ofFn (w.membershipRoots tx)).flatten ++
    (List.ofFn fun tx => List.ofFn (w.nonMembershipRoots tx)).flatten

/-- `inKeypair[tx].publicKey` -/
def inPublicKey (tx : Fin nIns) : Fr := keypair (w.inPrivateKey tx)

/-- `inCommitmentHasher[tx].out` -/
def inCommitment (tx : Fin nIns) : Fr :=
  noteCommitment (w.inAmount tx) (w.inPublicKey tx) (w.inBlinding tx)

/-- `inSignature[tx].out` -/
def inSignature (tx : Fin nIns) : Fr :=
  signature (w.inPrivateKey tx) (w.inCommitment tx) (w.inPathIndices tx)

end PolicySignals

section Template

variable {nIns nOuts nM nN levels smtLevels : Nat} (lib : Circomlib)
variable (w : PolicySignals nIns nOuts nM nN levels smtLevels)

/-- The constraints on membership proof `i` of input `tx`. -/
structure MembershipConstraints (tx : Fin nIns) (i : Fin nM) : Prop where
  leaf : (w.membershipProofs tx i).leaf =
    membershipLeaf (w.inPublicKey tx) (w.membershipProofs tx i).blinding
  root : merkleProof lib (w.membershipProofs tx i).leaf
    (List.ofFn (w.membershipProofs tx i).pathElements) (w.membershipProofs tx i).pathIndices
    (w.membershipRoots tx i)

/-- The constraints on non-membership proof `i` of input `tx`. -/
structure NonMembershipConstraints (tx : Fin nIns) (i : Fin nN) : Prop where
  key : (w.nonMembershipProofs tx i).key = w.inPublicKey tx
  verifier : ∃ n2b, lib.num2Bits 1 (w.nonMembershipProofs tx i).isOld0 n2b ∧
    smtVerifier lib 1 (w.nonMembershipRoots tx i) (List.ofFn (w.nonMembershipProofs tx i).siblings)
      (w.nonMembershipProofs tx i).oldKey (w.nonMembershipProofs tx i).oldValue (n2b.headD 0)
      (w.nonMembershipProofs tx i).key (w.nonMembershipProofs tx i).key 1

/-- The constraints on input `tx`. -/
structure InputConstraints (tx : Fin nIns) : Prop where
  nullifier : noteNullifier (w.inCommitment tx) (w.inPathIndices tx) (w.inSignature tx) =
    w.inputNullifier tx
  /-- `inTree`, and `inCheckRoot`, which is enabled by the amount -/
  tree : ∃ treeRoot, merkleProof lib (w.inCommitment tx) (List.ofFn (w.inPathElements tx))
      (w.inPathIndices tx) treeRoot ∧
    lib.forceEqualIfEnabled (w.inAmount tx) w.root treeRoot
  membership : ∀ i, MembershipConstraints lib w tx i
  nonMembership : ∀ i, NonMembershipConstraints lib w tx i

/-- The constraints on output `tx`. -/
structure OutputConstraints (tx : Fin nOuts) : Prop where
  commitment : noteCommitment (w.outAmount tx) (w.outPubkey tx) (w.outBlinding tx) =
    w.outputCommitment tx
  /-- `outAmountCheck` -/
  range : ∃ bits, lib.num2Bits 248 (w.outAmount tx) bits

/-- The constraints of `PolicyTransaction(nIns, nOuts, nMembershipProofs,
nNonMembershipProofs, levels, smtLevels)`. -/
structure PolicyTransaction : Prop where
  inputs : ∀ tx, InputConstraints lib w tx
  outputs : ∀ tx, OutputConstraints lib w tx
  sameNullifiers : ∀ i j, i < j → lib.isEqual (w.inputNullifier i) (w.inputNullifier j) 0
  amounts : ∑ tx, w.inAmount tx + w.publicAmount = ∑ tx, w.outAmount tx
  extDataSquare : ∃ extDataSquare, extDataSquare = w.extDataHash * w.extDataHash

end Template

/-! ### What the constraints say -/

section Meaning

open PerfectTree

variable {lib : Circomlib}

theorem testBit_zero_eq (v : Nat) : v.testBit 0 = decide (v % 2 = 1) := Nat.testBit_zero v

/-- The hashers of `MerkleProof` compute the fold of the path. -/
theorem merkleHashers_iff (elements : List Fr) : ∀ {current root : Fr} {v : Nat},
    merkleHashers lib current elements (bits elements.length v) root ↔
      root = foldPath poseidon2Compress current elements v := by
  induction elements with
  | nil => intro current root v; exact Iff.rfl
  | cons element elements ih =>
      intro current root v
      rw [List.length_cons, bits_succ, foldPath_cons]
      unfold merkleHashers combine
      simp only [lib.switcher_iff, testBit_zero_eq, decide_eq_true_eq]
      by_cases hv : v % 2 = 1
      · simp only [if_pos hv]
        constructor
        · rintro ⟨outL, outR, ⟨rfl, rfl⟩, h⟩
          exact ih.mp h
        · intro h
          exact ⟨element, current, ⟨rfl, rfl⟩, ih.mpr h⟩
      · simp only [if_neg hv]
        constructor
        · rintro ⟨outL, outR, ⟨rfl, rfl⟩, h⟩
          exact ih.mp h
        · intro h
          exact ⟨current, element, ⟨rfl, rfl⟩, ih.mpr h⟩

/-- `MerkleProof` says that the path indices are a leaf index and that the path leads from
the leaf to the root. -/
theorem merkleProof_iff {leaf pathIndices root : Fr} {pathElements : List Fr}
    (hlen : pathElements.length < 254) :
    merkleProof lib leaf pathElements pathIndices root ↔
      pathIndices.val < 2 ^ pathElements.length ∧
        root = foldPath poseidon2Compress leaf pathElements pathIndices.val := by
  unfold merkleProof
  constructor
  · rintro ⟨indexBits, hbits, hroot⟩
    obtain ⟨hlt, rfl⟩ := (lib.num2Bits_iff hlen).mp hbits
    exact ⟨hlt, (merkleHashers_iff pathElements).mp hroot⟩
  · rintro ⟨hlt, hroot⟩
    exact ⟨_, (lib.num2Bits_iff hlen).mpr ⟨hlt, rfl⟩, (merkleHashers_iff pathElements).mpr hroot⟩

variable {nIns nOuts nM nN levels smtLevels : Nat}
variable {w : PolicySignals nIns nOuts nM nN levels smtLevels}

/-- The path of an input that is worth something ends in the public root. -/
theorem InputConstraints.path {tx : Fin nIns} (h : InputConstraints lib w tx)
    (hlevels : levels < 254) :
    (w.inPathIndices tx).val < 2 ^ levels ∧ (w.inAmount tx ≠ 0 →
      foldPath poseidon2Compress (w.inCommitment tx) (List.ofFn (w.inPathElements tx))
        (w.inPathIndices tx).val = w.root) := by
  obtain ⟨treeRoot, hproof, hcheck⟩ := h.tree
  obtain ⟨hlt, hroot⟩ := (merkleProof_iff (by simpa using hlevels)).mp hproof
  rw [List.length_ofFn] at hlt
  refine ⟨hlt, fun hamount => ?_⟩
  rw [← hroot, lib.forceEqualIfEnabled_iff.mp hcheck hamount]

/-- Output amounts have 248 bits. -/
theorem OutputConstraints.amount_lt {tx : Fin nOuts} (h : OutputConstraints lib w tx) :
    (w.outAmount tx).val < 2 ^ 248 := by
  obtain ⟨bits, hbits⟩ := h.range
  exact ((lib.num2Bits_iff (by decide)).mp hbits).1

/-- The nullifiers of one transaction are pairwise distinct. -/
theorem PolicyTransaction.nullifier_injective (h : PolicyTransaction lib w) :
    Function.Injective w.inputNullifier := by
  have hne : ∀ i j, i < j → w.inputNullifier i ≠ w.inputNullifier j := by
    intro i j hij heq
    have hout := lib.isEqual_iff.mp (h.sameNullifiers i j hij)
    rw [heq, decide_eq_true rfl] at hout
    exact absurd hout (by decide)
  intro i j heq
  rcases lt_trichotomy i j with hij | hij | hij
  · exact absurd heq (hne i j hij)
  · exact hij
  · exact absurd heq.symm (hne j i hij)

end Meaning

end PrivatePayments
