import PrivatePayments.Circuits.Merkle
import PrivatePayments.Prover.Merkle

/-!
# PrivatePayments.Prover.MerkleAgree

The prefix tree of the client against the trees of the circuits crate
(`merkle_implementations_agree`), and against the leaves it was given
(`only_provided_leaves_iff`).

The prefix tree does not check its capacity. It stores the nodes over all leaves it is given,
and takes the first node of the top level for the root; a path leads to the node over its own
block of `2 ^ depth` leaves.
-/

namespace PrivatePayments.Prover

open PerfectTree MerkleWithHistory

/-! ## Agreement -/

/-- The leaves with the zero leaf in every free place. -/
def padLeaves (depth : Nat) (leaves : List Fr) : List Fr :=
  leaves ++ List.replicate (2 ^ depth - leaves.length) zeroLeaf

theorem padded_padLeaves (depth : Nat) (leaves : List Fr) :
    padded zeroLeaf (padLeaves depth leaves) = padded zeroLeaf leaves := by
  funext i
  unfold padded padLeaves
  by_cases hi : i < leaves.length
  · rw [List.getD_append _ _ _ _ hi]
  · rw [List.getD_append_right _ _ _ _ (by omega), List.getD_eq_default leaves _ (by omega),
      List.getD_eq_getElem?_getD, List.getElem?_replicate]
    split <;> rfl

theorem length_padLeaves {depth : Nat} {leaves : List Fr} (h : leaves.length ≤ 2 ^ depth) :
    (padLeaves depth leaves).length = 2 ^ depth := by
  rw [padLeaves, List.length_append, List.length_replicate]
  omega

/-- **The Merkle implementations agree.** On leaves that fit, the roots of the prefix tree and of
its built form are the root of the circuits crate on the padded list, and the two proofs of a
leaf have the same path and the leaf's index, which lead to this root. -/
theorem merkle_implementations_agree {depth : Nat} (hpos : 1 ≤ depth) (hle : depth ≤ 32)
    {leaves : List Fr} (hne : leaves ≠ []) (hlen : leaves.length ≤ 2 ^ depth) :
    ∃ t treeRoot, MerklePrefixTree.new depth leaves = .ok t ∧ t.root = .ok treeRoot ∧
      t.build.root = .ok treeRoot ∧
      CoreMerkle.merkleRoot (padLeaves depth leaves) = some treeRoot ∧
      ∀ index, (hi : index < leaves.length) → ∃ proof pathElements pathIndices levels,
        t.build.proof index = .ok proof ∧
        CoreMerkle.merkleProof (padLeaves depth leaves) index =
          some (pathElements, pathIndices, levels) ∧
        proof.pathElements = pathElements ∧ proof.pathIndices.val = pathIndices ∧
        pathIndices = index ∧ proof.levels = levels ∧
        foldPath poseidon2Compress leaves[index] pathElements pathIndices = treeRoot := by
  obtain ⟨t, hnew, rfl, rfl, hempty⟩ := MerklePrefixTree.new_ok hpos hle leaves
  have hpad := length_padLeaves hlen
  refine ⟨t, treeRoot t.depth t.leaves, hnew, MerklePrefixTree.root_eq hempty,
    MerklePrefixTree.build_root_eq hempty, ?_, ?_⟩
  · rw [CoreMerkle.merkleRoot_eq (z := zeroLeaf) hpad, padded_padLeaves]
    rfl
  · intro index hi
    obtain ⟨proof, hproof, hindex, hlevels, hpath, hfold⟩ :=
      MerklePrefixTree.proof_eq hempty hlen hle hi
    have hroot := MerklePrefixTreeBuilt.proof_root hproof
    rw [MerklePrefixTree.build_root_eq hempty] at hroot
    refine ⟨proof, _, index, t.depth, hproof, ?_, hpath, hindex, rfl, hlevels, ?_⟩
    · rw [CoreMerkle.merkleProof_eq (z := zeroLeaf) hpad (lt_of_lt_of_le hi hlen),
        padded_padLeaves]
    · rw [hpath, hindex] at hfold
      rw [hfold]
      exact (Except.ok.inj hroot).symm

/-- Three leaves in a tree of two levels. -/
theorem merkle_implementations_agree_three : ∃ t treeRoot,
    MerklePrefixTree.new 2 [7, 8, 9] = .ok t ∧ t.build.root = .ok treeRoot ∧
      CoreMerkle.merkleRoot (padLeaves 2 [7, 8, 9]) = some treeRoot := by
  obtain ⟨t, treeRoot, hnew, -, hbuilt, hcore, -⟩ :=
    @merkle_implementations_agree 2 (by decide) (by decide) [7, 8, 9] nofun (by decide)
  exact ⟨t, treeRoot, hnew, hbuilt, hcore⟩

/-! ## Proofs of provided leaves -/

/-- The built tree knows the leaves it was given and no others, and its proofs lead to its
root. -/
structure OnlyProvidedLeaves (t : MerklePrefixTree) : Prop where
  leafCount : t.build.leafCount = t.leaves.length
  proof_ok_iff : ∀ i : UInt32, (∃ p, t.build.proof i.toNat = .ok p) ↔ i.toNat < t.leaves.length
  fold : ∀ (i : UInt32) (p : MerkleProof), t.build.proof i.toNat = .ok p →
    ∃ leaf, t.leaves[i.toNat]? = some leaf ∧
      t.build.root = .ok (foldPath poseidon2Compress leaf p.pathElements p.pathIndices.val) ∧
      t.root = .ok (foldPath poseidon2Compress leaf p.pathElements p.pathIndices.val)

/-- The root over the `b`-th block of `2 ^ depth` leaves. -/
def blockRoot (depth : Nat) (leaves : List Fr) (b : Nat) : Fr :=
  treeRoot depth ((leaves.drop (b * 2 ^ depth)).take (2 ^ depth))

theorem blockRoot_eq_node (depth : Nat) (leaves : List Fr) (b : Nat) :
    blockRoot depth leaves b = node poseidon2Compress (padded zeroLeaf leaves) depth b := by
  rw [node_eq_root_shift, blockRoot, treeRoot, PerfectTree.root, PerfectTree.root]
  refine node_congr _ fun j _ hj => ?_
  rw [Nat.zero_add, Nat.one_mul] at hj
  unfold padded
  rw [List.getD_eq_getElem?_getD, List.getElem?_take, if_pos hj, List.getElem?_drop,
    ← List.getD_eq_getElem?_getD]

section Provided

variable {t : MerklePrefixTree} (hempty : ∀ l ≤ t.depth, t.empty.getD l 0 = zeroNode l)
  (hpos : 1 ≤ t.depth) (hle : t.depth ≤ 32)

include hempty hle

/-- A proof leads to the root over the block of its leaf. -/
theorem proof_foldPath {index : Nat} (hi : index < t.leaves.length) :
    ∃ p, t.build.proof index = .ok p ∧
      foldPath poseidon2Compress t.leaves[index] p.pathElements p.pathIndices.val =
        blockRoot t.depth t.leaves (index / 2 ^ t.depth) := by
  have hne : t.leaves ≠ [] := List.ne_nil_of_length_pos (by omega)
  obtain ⟨p, hp, hindex, -, -, hpath⟩ :=
    MerklePrefixTree.proof_ok hempty hle (MerklePrefixTree.leafCount_build hne ▸ hi)
  refine ⟨p, hp, ?_⟩
  have hfold := foldPath_siblings poseidon2Compress (padded zeroLeaf t.leaves) 0 index t.depth
  have hleaf : padded zeroLeaf t.leaves index = t.leaves[index] := List.getD_eq_getElem _ _ hi
  rw [node_zero, hleaf, Nat.zero_add] at hfold
  have hmod := foldPath_mod poseidon2Compress t.leaves[index] p.pathElements index
  rw [hpath, length_siblings] at hmod
  rw [hindex, hpath, hmod, blockRoot_eq_node, hfold]

omit hle in
theorem root_eq_blockRoot : t.root = .ok (blockRoot t.depth t.leaves 0) := by
  rw [MerklePrefixTree.root_eq hempty, blockRoot_eq_node]
  rfl

omit hempty hle in
/-- A tree without leaves stores the zero leaf as if it were one. -/
theorem leafCount_build_nil (hpos : 1 ≤ t.depth) (hnil : t.leaves = []) :
    t.build.leafCount = 1 := by
  obtain ⟨n, hn⟩ : ∃ n, t.depth = n + 1 := ⟨t.depth - 1, by omega⟩
  rw [MerklePrefixTreeBuilt.leafCount, MerklePrefixTree.build, hn, hnil, List.range_eq_range',
    List.range'_succ, MerklePrefixTree.buildLevels]
  rfl

theorem onlyProvidedLeaves_iff (hpos : 1 ≤ t.depth) :
    OnlyProvidedLeaves t ↔ t.leaves ≠ [] ∧ ∀ i : UInt32, i.toNat < t.leaves.length →
      blockRoot t.depth t.leaves (i.toNat / 2 ^ t.depth) = blockRoot t.depth t.leaves 0 := by
  constructor
  · intro h
    have hne : t.leaves ≠ [] := by
      intro hnil
      have hcount := h.leafCount
      rw [leafCount_build_nil hpos hnil, hnil] at hcount
      cases hcount
    refine ⟨hne, fun i hi => ?_⟩
    obtain ⟨p, hp, hfold⟩ := proof_foldPath hempty hle hi
    obtain ⟨leaf, hleaf, -, hroot⟩ := h.fold i p hp
    rw [List.getElem?_eq_getElem hi, Option.some.injEq] at hleaf
    rw [root_eq_blockRoot hempty, ← hleaf, hfold] at hroot
    exact (Except.ok.inj hroot).symm
  · rintro ⟨hne, hblocks⟩
    have hcount := MerklePrefixTree.leafCount_build hne
    have hiff : ∀ i : UInt32, (∃ p, t.build.proof i.toNat = .ok p) ↔
        i.toNat < t.leaves.length := by
      intro i
      constructor
      · rintro ⟨p, hp⟩
        by_contra hout
        rw [MerklePrefixTreeBuilt.proof, if_pos (by omega)] at hp
        cases hp
      · intro hi
        obtain ⟨p, hp, -⟩ := proof_foldPath hempty hle hi
        exact ⟨p, hp⟩
    refine ⟨hcount, hiff, fun i p hp => ?_⟩
    have hi := (hiff i).mp ⟨p, hp⟩
    obtain ⟨q, hq, hfold⟩ := proof_foldPath hempty hle hi
    obtain rfl : q = p := Except.ok.inj (hq.symm.trans hp)
    refine ⟨t.leaves[i.toNat], List.getElem?_eq_getElem hi, ?_, ?_⟩
    · rw [MerklePrefixTree.build_root_eq hempty, ← MerklePrefixTree.root_eq hempty,
        root_eq_blockRoot hempty, hfold, hblocks i hi]
    · rw [root_eq_blockRoot hempty, hfold, hblocks i hi]

end Provided

/-- **The prefix tree proves provided leaves only** exactly when it has leaves, and every block
of `2 ^ depth` leaves has the root of the first one; in particular when the leaves fit. -/
theorem only_provided_leaves_iff {depth : Nat} (hpos : 1 ≤ depth) (hle : depth ≤ 32)
    (leaves : List Fr) :
    ((∀ t, MerklePrefixTree.new depth leaves = .ok t → OnlyProvidedLeaves t) ↔
      leaves ≠ [] ∧ ∀ i : UInt32, i.toNat < leaves.length →
        blockRoot depth leaves (i.toNat / 2 ^ depth) = blockRoot depth leaves 0) ∧
    (leaves ≠ [] → leaves.length ≤ 2 ^ depth →
      ∀ t, MerklePrefixTree.new depth leaves = .ok t → OnlyProvidedLeaves t) := by
  obtain ⟨t, hnew, rfl, rfl, hempty⟩ := MerklePrefixTree.new_ok hpos hle leaves
  have hiff := onlyProvidedLeaves_iff hempty hle hpos
  have honly : (∀ t', MerklePrefixTree.new t.depth t.leaves = .ok t' → OnlyProvidedLeaves t') ↔
      OnlyProvidedLeaves t := by
    constructor
    · exact fun h => h t hnew
    · rintro h t' hnew'
      obtain rfl : t = t' := Except.ok.inj (hnew.symm.trans hnew')
      exact h
  rw [honly, hiff]
  refine ⟨Iff.rfl, fun hne hlen => ⟨hne, fun i hi => ?_⟩⟩
  rw [Nat.div_eq_of_lt (lt_of_lt_of_le hi hlen)]

/-- A full tree of one level. -/
theorem only_provided_leaves_pair :
    ∃ t, MerklePrefixTree.new 1 [7, 8] = .ok t ∧ OnlyProvidedLeaves t := by
  obtain ⟨t, hnew, -⟩ := MerklePrefixTree.new_ok (le_refl 1) (by decide) [7, 8]
  exact ⟨t, hnew,
    (only_provided_leaves_iff (by decide) (by decide) [7, 8]).2 nofun (by decide) t hnew⟩

/-- Without leaves, and with three leaves in a tree of two, the built tree proves a leaf that is
not its own, or proves one under another root. -/
theorem only_provided_leaves_fails :
    (∃ t, MerklePrefixTree.new 1 [] = .ok t ∧ ¬OnlyProvidedLeaves t) ∧
      ∃ t, MerklePrefixTree.new 1 [7, 8, 9] = .ok t ∧ ¬OnlyProvidedLeaves t := by
  constructor
  · obtain ⟨t, hnew, hdepth, hleaves, -⟩ := MerklePrefixTree.new_ok (le_refl 1) (by decide) []
    refine ⟨t, hnew, fun h => ?_⟩
    have hcount := h.leafCount
    rw [leafCount_build_nil (by omega) hleaves, hleaves] at hcount
    cases hcount
  · obtain ⟨t, hnew, hdepth, hleaves, hempty⟩ :=
      MerklePrefixTree.new_ok (le_refl 1) (by decide) [7, 8, 9]
    rw [← hdepth] at hempty
    refine ⟨t, hnew, fun h => ?_⟩
    have hblocks := ((onlyProvidedLeaves_iff hempty (by omega) (by omega)).mp h).2 2
    rw [hdepth, hleaves] at hblocks
    have hdiffer : blockRoot 1 [7, 8, 9] 1 ≠ blockRoot 1 [7, 8, 9] 0 := by decide +kernel
    exact hdiffer (hblocks (by decide))

end PrivatePayments.Prover
