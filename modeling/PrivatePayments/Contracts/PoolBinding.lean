import PrivatePayments.Contracts.Groth16Verifier
import PrivatePayments.Contracts.PoolSound
import PrivatePayments.Circuits.PolicyTransaction

/-!
# PrivatePayments.Contracts.PoolBinding

What an accepted proof is bound to. The vector that `verify_proof` hands to the verifier has
as many nullifiers as the caller chose and no lengths; the length check of the verifier fixes
their number, and with it the slot of every value.
-/

namespace PrivatePayments.Pool

open Groth16Verifier (Bn254 VerificationKey clientVerify clientVerify_length)

/-- The host whose verifier contract has the key `vk` embedded. -/
def Host.withKey (host : Host) {bn : Bn254} (vk : VerificationKey bn) : Host :=
  { host with verify := fun _ => clientVerify vk }

/-- The public signals of the circuit are the values of the proof. -/
structure Carries {nIns levels smtLevels : Nat} (w : PolicySignals nIns 2 1 1 levels smtLevels)
    (proof : Proof) : Prop where
  root : w.root = proof.root.toFr
  publicAmount : w.publicAmount = proof.publicAmount.toFr
  extDataHash : w.extDataHash = proof.extDataHash.toFr
  inputNullifier : List.ofFn w.inputNullifier = proof.inputNullifiers.map U256.toFr
  outputCommitment0 : w.outputCommitment 0 = proof.outputCommitment0.toFr
  outputCommitment1 : w.outputCommitment 1 = proof.outputCommitment1.toFr
  membershipRoots : ∀ tx, w.membershipRoots tx 0 = proof.aspMembershipRoot.toFr
  nonMembershipRoots : ∀ tx, w.nonMembershipRoots tx 0 = proof.aspNonMembershipRoot.toFr

theorem Proof.publicInputs_length (proof : Proof) :
    proof.publicInputs.length = 5 + 3 * proof.inputNullifiers.length := by
  simp only [Proof.publicInputs, List.length_append, List.length_cons, List.length_nil,
    List.length_map, List.length_replicate]
  omega

/-- The vector has the order in which the circuit declares its public signals. -/
theorem Carries.publicInputs_eq {nIns levels smtLevels : Nat}
    {w : PolicySignals nIns 2 1 1 levels smtLevels} {proof : Proof} (h : Carries w proof) :
    w.publicInputs = proof.publicInputs := by
  have hcount : proof.inputNullifiers.length = nIns := by
    simpa using (congrArg List.length h.inputNullifier).symm
  have hcopies (roots : Fin nIns → Fin 1 → Fr) (root : U256)
      (hroots : ∀ tx, roots tx 0 = root.toFr) :
      (List.ofFn fun tx => List.ofFn (roots tx)).flatten = List.replicate nIns root.toFr := by
    have hone : (fun tx => List.ofFn (roots tx)) = fun _ => [root.toFr] := by
      funext tx
      simp [hroots tx]
    rw [hone, List.ofFn_const, List.flatten_replicate_singleton]
  unfold PolicySignals.publicInputs Proof.publicInputs
  rw [hcopies w.membershipRoots _ h.membershipRoots,
    hcopies w.nonMembershipRoots _ h.nonMembershipRoots, h.inputNullifier, hcount, h.root,
    h.publicAmount, h.extDataHash]
  simp [h.outputCommitment0, h.outputCommitment1]

/-- Vectors with as many nullifiers have equal values slot by slot. -/
theorem Proof.publicInputs_inj {proof proof' : Proof}
    (hcount : proof'.inputNullifiers.length = proof.inputNullifiers.length)
    (heq : proof'.publicInputs = proof.publicInputs) :
    proof'.root.toFr = proof.root.toFr ∧
    proof'.publicAmount.toFr = proof.publicAmount.toFr ∧
    proof'.extDataHash.toFr = proof.extDataHash.toFr ∧
    proof'.inputNullifiers.map U256.toFr = proof.inputNullifiers.map U256.toFr ∧
    proof'.outputCommitment0.toFr = proof.outputCommitment0.toFr ∧
    proof'.outputCommitment1.toFr = proof.outputCommitment1.toFr ∧
    (0 < proof.inputNullifiers.length →
      proof'.aspMembershipRoot.toFr = proof.aspMembershipRoot.toFr ∧
      proof'.aspNonMembershipRoot.toFr = proof.aspNonMembershipRoot.toFr) := by
  unfold Proof.publicInputs at heq
  simp only [List.append_assoc] at heq
  obtain ⟨hhead, heq⟩ := List.append_inj heq (by simp)
  obtain ⟨hnulls, heq⟩ := List.append_inj heq (by simpa using hcount)
  obtain ⟨houts, heq⟩ := List.append_inj heq (by simp)
  obtain ⟨hmember, hnonMember⟩ := List.append_inj heq (by simpa using hcount)
  simp only [List.cons.injEq, and_true] at hhead houts
  obtain ⟨hroot, hamount, hhash⟩ := hhead
  refine ⟨hroot, hamount, hhash, hnulls, houts.1, houts.2, fun hpos => ?_⟩
  rw [hcount] at hmember hnonMember
  exact ⟨(List.replicate_inj.mp hmember).2.resolve_left (by omega),
    (List.replicate_inj.mp hnonMember).2.resolve_left (by omega)⟩

/-- Canonical nullifiers are given by the field elements they stand for. -/
theorem map_toFr_inj {ns ns' : List U256} (hns : ∀ n ∈ ns, n.val < bn256Modulus)
    (hns' : ∀ n ∈ ns', n.val < bn256Modulus) (h : ns'.map U256.toFr = ns.map U256.toFr) :
    ns' = ns := by
  have hback : ∀ l : List U256, (∀ n ∈ l, n.val < bn256Modulus) →
      (l.map U256.toFr).map Fr.toU256 = l := by
    intro l hl
    rw [List.map_map]
    exact (List.map_congr_left fun n hn => U256.toU256_toFr (hl n hn)).trans (List.map_id' l)
  rw [← hback ns' hns', h, hback ns hns]

variable {bn : Bn254} {vk : VerificationKey bn} {nIns : Nat} {host : Host}
  {s s' s₁ s₁' : PoolStorage} {proof proof' : Proof}

theorem verifyProof_count (hvk : vk.ic.length = 5 + 3 * nIns + 1)
    (h : (verifyProof (host.withKey vk) proof).run s = .ok true s₁) :
    proof.inputNullifiers.length = nIns := by
  obtain ⟨-, -, verifier, -, haccept⟩ := verifyProof_ok h
  have hlen := clientVerify_length haccept
  rw [Proof.publicInputs_length] at hlen
  omega

theorem hashExtData_lt (host : Host) (ext : ExtData) :
    (hashExtData host ext).val < bn256Modulus := Fr.toU256_lt _

/-- The curve groups by their exponents: the pairing of two points multiplies them. -/
def exponents : Bn254 where
  G1 := Fr
  G2 := Fr
  g1 bytes := Fin.ofNat bn256Modulus (bytes.headD 0).toNat
  g2 bytes := Fin.ofNat bn256Modulus (bytes.headD 0).toNat
  neg a := -a
  g1Add a b := some (a + b)
  g1Mul a x := some (a * x)
  pairingCheck as bs := some ((List.zipWith (· * ·) as bs).sum = 0)

/-- A key for `nIns` inputs that every vector satisfies. -/
def exampleKey (nIns : Nat) : VerificationKey exponents where
  alpha := (1 : Fr)
  beta := (1 : Fr)
  gamma := (1 : Fr)
  delta := (1 : Fr)
  ic := List.replicate (5 + 3 * nIns + 1) (0 : Fr)

def exampleProof (nullifiers : List U256) (extDataHash aspRoot : U256) : Proof where
  proof := ⟨[1], [1], [0]⟩
  root := 5
  inputNullifiers := nullifiers
  outputCommitment0 := 8
  outputCommitment1 := 9
  publicAmount := 0
  extDataHash := extDataHash
  aspMembershipRoot := aspRoot
  aspNonMembershipRoot := 0

def exampleHost : Host where
  toXdr _ := []
  keccak256 _ := 0
  verify _ _ _ := none

def examplePool : PoolStorage := { verifier := some 12 }

/-- Whether the example is accepted. -/
def exampleRun (nIns : Nat) (proof : Proof) : Bool :=
  match (verifyProof (exampleHost.withKey (exampleKey nIns)) proof).run examplePool with
  | .ok valid _ => valid
  | .error _ _ => false

theorem exampleRun_ok {nIns : Nat} {proof : Proof} (h : exampleRun nIns proof = true) :
    ∃ s, (verifyProof (exampleHost.withKey (exampleKey nIns)) proof).run examplePool =
      .ok true s := by
  unfold exampleRun at h
  cases hrun : (verifyProof (exampleHost.withKey (exampleKey nIns)) proof).run examplePool with
  | ok valid s =>
      rw [hrun] at h
      exact ⟨s, by rw [show valid = true from h]⟩
  | error e s =>
      rw [hrun] at h
      cases h

/-- The number `p`, which stands for zero. -/
def modulusHash : U256 := ⟨bn256Modulus, by decide⟩

end PrivatePayments.Pool
