import PrivatePayments.Contracts.PoolSound
import PrivatePayments.Prover.Crypto
import PrivatePayments.Types

/-!
# PrivatePayments.Stellar.PoolRoots

The client's question whether a root is one of a pool (`is_pool_known_root` of
`stellar/src/contract_state.rs`), and what the answer says about the pool's leaves.
-/

namespace PrivatePayments

namespace Pool

/-- `is_known_root` -/
def isKnownRoot (root : U256) : PoolM Bool := liftTree (MerkleWithHistory.isKnownRoot root)

/-- A pool on the network: its deployment, and the calls it has received since. -/
structure DeployedPool where
  host : Host
  levels : Nat
  admin : Address
  token : Address
  verifier : Address
  aspMembership : Address
  aspNonMembership : Address
  deployed : PoolStorage
  constructor_ok :
    (constructor admin token verifier aspMembership aspNonMembership levels).run {} =
      .ok () deployed
  calls : List Call

namespace DeployedPool

variable (pool : DeployedPool)

/-- The accepted transactions, in order. -/
def transactions : List Transaction := (run pool.host pool.deployed pool.calls).1

/-- The storage after the calls. -/
def storage : PoolStorage := (run pool.host pool.deployed pool.calls).2

/-- The commitments that the transactions have inserted, as the contract has received them. -/
def leaves : List U256 :=
  pool.transactions.flatMap fun tx => [tx.proof.outputCommitment0, tx.proof.outputCommitment1]

theorem reflects : Reflects pool.levels pool.verifier pool.transactions pool.storage :=
  (run_admitted pool.host pool.constructor_ok pool.calls).1

theorem admitted : AdmittedRun pool.host pool.levels pool.verifier pool.transactions :=
  (run_admitted pool.host pool.constructor_ok pool.calls).2

theorem outputs_eq : outputs pool.transactions = pool.leaves.map U256.toFr := by
  unfold outputs leaves
  rw [List.map_flatMap]
  rfl

end DeployedPool

/-- The commitments of an admitted run are canonical. -/
theorem AdmittedRun.commitment_lt {host : Host} {levels : Nat} {verifier : Address}
    {txs : List Transaction} (h : AdmittedRun host levels verifier txs) {tx : Transaction}
    (htx : tx ∈ txs) : tx.proof.outputCommitment0.val < bn256Modulus ∧
      tx.proof.outputCommitment1.val < bn256Modulus := by
  induction h with
  | nil => cases htx
  | snoc _ hadm ih =>
      rcases List.mem_append.mp htx with hmem | hmem
      · exact ih hmem
      · rw [List.mem_singleton.mp hmem]
        exact ⟨hadm.canonical.outputCommitment0, hadm.canonical.outputCommitment1⟩

theorem DeployedPool.leaf_lt {pool : DeployedPool} {leaf : U256} (h : leaf ∈ pool.leaves) :
    leaf.val < bn256Modulus := by
  obtain ⟨tx, htx, hleaf⟩ := List.mem_flatMap.mp h
  obtain ⟨h0, h1⟩ := pool.admitted.commitment_lt htx
  rcases List.mem_cons.mp hleaf with rfl | hleaf
  · exact h0
  · rw [List.mem_singleton.mp hleaf]
    exact h1

/-- A canonical number whose field element is a leaf of the tree is that leaf. -/
theorem DeployedPool.mem_leaves {pool : DeployedPool} {v : U256} (hv : v.val < bn256Modulus)
    (h : v.toFr ∈ outputs pool.transactions) : v ∈ pool.leaves := by
  rw [pool.outputs_eq] at h
  obtain ⟨leaf, hleaf, heq⟩ := List.mem_map.mp h
  rwa [(U256.toFr_inj (leaf_lt hleaf) hv).mp heq] at hleaf

/-- A root that the contract knows is the root after some of its transactions. -/
theorem DeployedPool.known_prefix {pool : DeployedPool} {root : U256} {s : PoolStorage}
    (h : (isKnownRoot root).run pool.storage = .ok true s) :
    ∃ j ≤ pool.transactions.length, root =
      (MerkleWithHistory.treeRoot pool.levels (outputs (pool.transactions.take j))).toU256 := by
  obtain ⟨tree, htree, -⟩ := liftTree_ok h
  obtain ⟨-, j, hj, hroot⟩ := MerkleWithHistory.isKnownRoot_true pool.reflects.tree htree
  rw [outputs_length] at hj
  refine ⟨j, by omega, ?_⟩
  rw [hroot, MerkleWithHistory.prefixRoot, outputs_take]

end Pool

namespace Stellar

open Pool (DeployedPool)

/-- `enabled_pool_for` -/
def enabledPoolFor (config : ContractConfig) (poolContractId : String) :
    Except String PoolConfigEntry :=
  match config.pools.find? fun p => p.enabled && p.poolContractId = poolContractId with
  | some pool => .ok pool
  | none => .error s!"enabled pool not found in deployments config: {poolContractId}"

/-- `is_pool_known_root`; the node simulates the call on the state the pool has then. -/
def isPoolKnownRoot (config : ContractConfig) (network : String → Option DeployedPool)
    (poolContractId : String) (root : U256) : Except String Bool := do
  let pool ← enabledPoolFor config poolContractId
  match network pool.poolContractId with
  | none => .error "simulation failed"
  | some deployed =>
      match (Pool.isKnownRoot root).run deployed.storage with
      | .ok known _ => .ok known
      | .error _ _ => .error "simulation failed"

variable {config : ContractConfig} {network : String → Option DeployedPool} {id : String}

theorem enabledPoolFor_ok {pool : PoolConfigEntry} (h : enabledPoolFor config id = .ok pool) :
    pool.poolContractId = id := by
  unfold enabledPoolFor at h
  cases hfind : config.pools.find? fun p => p.enabled && p.poolContractId = id with
  | none =>
      rw [hfind] at h
      cases h
  | some found =>
      rw [hfind] at h
      cases h
      have hpred := List.find?_some hfind
      simp only [Bool.and_eq_true, decide_eq_true_eq] at hpred
      exact hpred.2

/-- A root that passes is one of the named pool. -/
theorem isPoolKnownRoot_true {root : U256}
    (h : isPoolKnownRoot config network id root = .ok true) :
    ∃ pool s, network id = some pool ∧
      (Pool.isKnownRoot root).run pool.storage = .ok true s := by
  obtain ⟨entry, hentry, h⟩ := Prover.exists_of_bind_ok h
  rw [enabledPoolFor_ok hentry] at h
  cases hpool : network id with
  | none =>
      rw [hpool] at h
      cases h
  | some pool =>
      rw [hpool] at h
      simp only at h
      cases hrun : (Pool.isKnownRoot root).run pool.storage with
      | error e s =>
          rw [hrun] at h
          cases h
      | ok known s =>
          rw [hrun] at h
          cases h
          exact ⟨pool, s, rfl, hrun⟩

end Stellar

end PrivatePayments
