import PrivatePayments.OnChain.Contracts
import PrivatePayments.OnChain.Custody
import PrivatePayments.Contracts.NonMembershipProof

/-!
# PrivatePayments.OnChain.Policy

The association-set policy, across the contracts. The circuit proves membership against two
roots, the pool compares these with what the registered ASP contracts return at that
moment, and the contracts' roots stand for what they have been told; together, whoever
spends is approved and not blocked when the transaction is accepted.
-/

namespace PrivatePayments

open PerfectTree
open MerkleWithHistory (treeRoot zeroLeaf)

namespace Pool

variable {levels smtLevels : Nat}

/-- The roots among the public inputs are those of the proof. -/
theorem publicInputs_roots {w : Signals levels smtLevels} {proof : Proof}
    (h : w.publicInputs = proof.publicInputs) (k : Fin 2) :
    w.membershipRoots k 0 = proof.aspMembershipRoot.toFr ∧
      w.nonMembershipRoots k 0 = proof.aspNonMembershipRoot.toFr := by
  have htwo : proof.inputNullifiers.length = 2 := by
    have hlen := congrArg List.length (publicInputs_eq h).2.2.1
    rwa [List.length_map] at hlen
  obtain ⟨n0, n1, hns⟩ := List.length_eq_two.mp htwo
  unfold PolicySignals.publicInputs Proof.publicInputs at h
  rw [hns] at h
  simp only [List.ofFn_succ, List.ofFn_zero, List.flatten_cons, List.flatten_nil, List.map_cons,
    List.map_nil, List.length_cons, List.length_nil, List.replicate_succ, List.replicate_zero,
    List.cons_append, List.nil_append, List.cons.injEq, Fin.succ_zero_eq_one] at h
  obtain ⟨-, -, -, -, -, -, -, hm0, hm1, hn0, hn1, -⟩ := h
  fin_cases k
  · exact ⟨hm0, hn0⟩
  · exact ⟨hm1, hn1⟩

/-- The hashes of the policy of input `k` in the circuit. -/
def policyQueries (w : Signals levels smtLevels) (k : Fin 2) : List Query :=
  .hash2 (w.inPublicKey k) (w.membershipProofs k 0).blinding 1 ::
  ((pathPairs poseidon2Compress (w.membershipProofs k 0).leaf
    (List.ofFn (w.membershipProofs k 0).pathElements)
    (w.membershipProofs k 0).pathIndices.val).map fun p => .compress p.1 p.2) ++
  AspNonMembership.verifierQueries ((w.nonMembershipProofs k 0).isOld0.val.testBit 0)
    (w.nonMembershipProofs k 0).oldKey (w.nonMembershipProofs k 0).oldValue (w.inPublicKey k)
    (List.ofFn (w.nonMembershipProofs k 0).siblings)

section Circuit

variable {lib : Circomlib} {w : Signals levels smtLevels} {S : Set Query} {k : Fin 2}
variable (hS : Set.InjOn Query.eval S) (hq : ∀ q ∈ policyQueries w k, q ∈ S)

include hS hq

/-- A membership proof against the root of a tree proves a leaf of the tree. -/
theorem approved_of_constraints {leaves : List Fr} (hlevels : levels ≤ 32)
    (h : MembershipConstraints lib w k 0) (hroot : w.membershipRoots k 0 = treeRoot levels leaves)
    (hzero : zeroLeafQuery ∈ S) (htree : treeQueries levels leaves ⊆ S) :
    membershipLeaf (w.inPublicKey k) (w.membershipProofs k 0).blinding ∈ leaves := by
  obtain ⟨hlt, hfold⟩ := (merkleProof_iff (by rw [List.length_ofFn]; omega)).mp h.root
  rw [List.length_ofFn] at hlt
  rw [hroot] at hfold
  have hleaf := foldPath_binding (compress_injOn hS) (List.length_ofFn) hlt
    (fun p hp => hq _ (List.mem_append_left _ (List.mem_cons_of_mem _
      (List.mem_map_of_mem hp))))
    (fun p hp => htree ⟨p, hp, rfl⟩) hfold.symm
  rw [← h.leaf, hleaf]
  rcases padded_mem_or_eq zeroLeaf leaves (w.membershipProofs k 0).pathIndices.val with
    hmem | hempty
  · exact hmem
  · -- the leaf of an empty slot is no hash of a key
    exfalso
    rw [hempty, h.leaf] at hleaf
    have heq := hS (hq _ List.mem_cons_self) hzero hleaf
    cases heq

/-- A non-membership proof against the root of a map proves the key absent. -/
theorem absent_of_constraints (h0 : ∀ q ∈ S, q.eval ≠ 0) {n : AspNonMembership.AspStorage}
    {es : List (Fr × Fr)} {m : AspNonMembership.KeyMap}
    (hn : AspNonMembership.Agrees S n es m) (h : NonMembershipConstraints lib w k 0)
    (hroot : w.nonMembershipRoots k 0 =
      AspNonMembership.treeRoot (AspNonMembership.canonicalTree es)) :
    m (w.inPublicKey k).toU256 = none := by
  obtain ⟨n2b, hbits, hverifier⟩ := h.verifier
  obtain ⟨-, rfl⟩ := (lib.num2Bits_iff (by decide)).mp hbits
  rw [hroot, h.key] at hverifier
  exact hn.absent_of_verified hS h0 (fun q hqm => hq q (List.mem_append_right _ hqm)) hverifier

end Circuit

end Pool

namespace OnChain.Deployment

open Pool
open AspMembership (MembershipStorage)
open AspNonMembership (AspStorage)

variable {levels smtLevels : Nat}

/-- The key that spends input `k` is approved and not blocked: a leaf for it has been
announced by the membership contract, and the non-membership contract does not find it. -/
structure Complies (m : MembershipStorage) (n : AspStorage) (w : Signals levels smtLevels)
    (k : Fin 2) : Prop where
  approved : ∃ e ∈ m.events,
    e.leaf.toFr = membershipLeaf (w.inPublicKey k) (w.membershipProofs k 0).blinding
  notBlocked : ∃ r, (AspNonMembership.findKey (w.inPublicKey k).toU256).run n = .ok r n ∧
    r.found = false

/-- The hashes behind the policy of one transaction: in the two contracts and in the
circuit. -/
def complianceQueries (m : MembershipStorage) (n : AspStorage) (w : Signals levels smtLevels) :
    Set Query :=
  { q | q = zeroLeafQuery ∨ q ∈ treeQueries levels (AspMembership.announced m) ∨
    q ∈ AspNonMembership.runQueries [] (AspNonMembership.replay n) ∨
    ∃ k, q ∈ policyQueries w k }

variable {σ κ : Type} {D : Deployment σ κ} {verifier : Address}

/-- The signals of the deposit with the path of a membership contract that has this one
member. -/
def memberSignals : Signals 1 1 := { depositSignals with
  membershipRoots := fun _ _ => poseidon2Compress (membershipLeaf (keypair 11) 0) zeroLeaf
  membershipProofs := fun _ _ => {
    leaf := membershipLeaf (keypair 11) 0, blinding := 0, pathElements := fun _ => zeroLeaf,
    pathIndices := 0 } }

theorem memberSignals_satisfied : PolicyTransaction Circomlib.documented memberSignals where
  inputs tx := {
    nullifier := (depositSignals_satisfied.inputs tx).nullifier
    tree := (depositSignals_satisfied.inputs tx).tree
    membership := fun _ => ⟨rfl, (merkleProof_iff (by simp)).mpr ⟨by simp [memberSignals], rfl⟩⟩
    nonMembership := fun i => ⟨rfl, ((depositSignals_satisfied.inputs tx).nonMembership i).verifier⟩ }
  outputs tx := ⟨(depositSignals_satisfied.outputs tx).commitment,
    (depositSignals_satisfied.outputs tx).range⟩
  sameNullifiers := depositSignals_satisfied.sameNullifiers
  amounts := depositSignals_satisfied.amounts
  extDataSquare := depositSignals_satisfied.extDataSquare

def memberTx : Transaction := { depositTx with
  proof := { depositTx.proof with
    aspMembershipRoot := (memberSignals.membershipRoots slot0 (Fin.last 0)).toU256 } }

def memberDeployment : Deployment (Address → Int) (Address × Address × Int) :=
  { depositDeployment with
    host := { depositHost with
      verify := fun _ _ inputs => some (inputs = memberSignals.publicInputs) } }

theorem memberHost_sound : VerifierSound Circomlib.documented memberDeployment.host 12
    fun _ => memberSignals := by
  intro proof inputs h
  have heq : inputs = memberSignals.publicInputs := by simpa [memberDeployment] using h
  exact ⟨heq.symm, memberSignals_satisfied⟩

/-- The administrator deploys both contracts and approves the member. -/
def memberActions : List (Action (Address × Address × Int)) :=
  [.deployMembership 13 10 1, .deployNonMembership 14 10,
   .membership 13 (fun a => a = 10) (.insertLeaf (membershipLeaf (keypair 11) 0).toU256)]

theorem memberTx_accepted :
    memberDeployment.accepted (memberDeployment.run depositState memberActions)
      [.pool (fun a => a = 1) (fun _ => none) (.transact memberTx)] = [memberTx] := by
  have hok : isOk (((memberDeployment.poolCall (memberDeployment.run depositState memberActions)
      (fun a => a = 1) (fun _ => none) (.transact memberTx)).function memberDeployment.host).run
      (memberDeployment.run depositState memberActions).pool) = true := by
    decide +kernel
  obtain ⟨_, s', hrun⟩ := ok_of_isOk hok
  exact accepted_of_ok hrun

def memberQueries : List Query :=
  [zeroLeafQuery, .hash2 (keypair 11) 0 1, .compress (membershipLeaf (keypair 11) 0) zeroLeaf]

/-- The hashes of the member do not collide and are not zero, and they are all it needs. -/
theorem memberQueries_distinct :
    (memberQueries.map Query.eval).Nodup ∧ (∀ q ∈ memberQueries, q.eval ≠ 0) ∧
      ∀ k, ∀ q ∈ policyQueries memberSignals k, q ∈ memberQueries := by
  decide +kernel

theorem memberQueries_injOn : Set.InjOn Query.eval { q | q ∈ memberQueries } :=
  fun _ hq _ hq' heq => List.inj_on_of_nodup_map memberQueries_distinct.1 hq hq' heq

theorem memberQueries_cover {m : MembershipStorage} {n : AspStorage}
    (hm : AspMembership.announced m = [membershipLeaf (keypair 11) 0])
    (hn : AspNonMembership.replay n = []) :
    complianceQueries m n memberSignals ⊆ { q | q ∈ memberQueries } := by
  rintro q (rfl | ⟨p, ⟨l, i, hl, hi, rfl⟩, rfl⟩ | hq | ⟨k, hq⟩)
  · exact List.mem_cons_self
  · obtain rfl : l = 0 := by omega
    obtain rfl : i = 0 := by simpa using hi
    rw [hm]
    exact List.mem_cons_of_mem _ (List.mem_cons_of_mem _ (List.mem_singleton.mpr rfl))
  · rw [hn] at hq
    cases hq
  · exact memberQueries_distinct.2.2 k q hq

end OnChain.Deployment

end PrivatePayments
