import PrivatePayments.Contracts.MerkleWithHistorySound
import Mathlib.Data.List.Iterate

/-!
# PrivatePayments.Prover.Merkle

The off-chain tree of the client (`prover/src/merkle.rs`): it keeps the nodes of every
level for a prefix of the leaves and reads every other node as the empty subtree of its
level. Its root and its paths are those of the plain tree.
-/

namespace PrivatePayments.Prover

open PerfectTree MerkleWithHistory

/-- A little-endian byte string as a number. -/
def leValue : List UInt8 → Nat
  | [] => 0
  | b :: bytes => b.toNat + 256 * leValue bytes

/-- `Field::try_from_le_bytes` -/
def fieldTryFromLeBytes (bytes : List UInt8) : Except String Fr :=
  if h : leValue bytes < bn256Modulus then .ok ⟨leValue bytes, h⟩
  else .error "field element out of range"

/-- `ZERO_LEAF_BYTES`, big-endian -/
def zeroLeafBytes : List UInt8 := [
    37, 48, 34, 136, 219, 153, 53, 3, 68, 151, 65, 131, 206, 49, 13, 99, 181, 58, 187, 158, 240,
    248, 87, 87, 83, 238, 211, 110, 1, 24, 249, 206]

/-- `hash_pair` -/
def hashPair (left right : Fr) : Fr := poseidon2Compress left right

/-- `MerklePrefixTree`: the empty-subtree nodes by level, and the given leaves. -/
structure MerklePrefixTree where
  depth : Nat
  leaves : List Fr
  empty : List Fr

/-- `MerklePrefixTreeBuilt`: the computed nodes of every level. -/
structure MerklePrefixTreeBuilt where
  depth : Nat
  empty : List Fr
  levels : List (List Fr)

/-- `MerkleProof` -/
structure MerkleProof where
  pathElements : List Fr
  pathIndices : Fr
  root : Fr
  levels : Nat

namespace MerklePrefixTree

/-- `MerklePrefixTree::new` -/
def new (depth : Nat) (leaves : List Fr) : Except String MerklePrefixTree := do
  if depth = 0 ∨ depth > 32 then throw "Depth must be between 1 and 32"
  let zero ← fieldTryFromLeBytes zeroLeafBytes.reverse
  return { depth, leaves, empty := List.iterate (fun z => hashPair z z) zero (depth + 1) }

/-- The loop over the nodes of one level: the nodes of the level above. -/
def nextLevel (nodes : List Fr) (emptyNode : Fr) : List Fr :=
  (List.range ((nodes.length + 1) / 2)).map fun i =>
    hashPair (nodes.getD (2 * i) emptyNode) (nodes.getD (2 * i + 1) emptyNode)

/-- A level without nodes gets the empty subtree as its first node. -/
def fillEmpty (nodes : List Fr) (emptyNode : Fr) : List Fr :=
  if nodes.isEmpty then [emptyNode] else nodes

/-- The loop of `build_from_parts` over the levels. -/
def buildLevels (empty : List Fr) : List Nat → List Fr → List (List Fr)
  | [], nodes => [nodes]
  | level :: rest, nodes =>
      let emptyNode := empty.getD level 0
      let nodes := fillEmpty nodes emptyNode
      nodes :: buildLevels empty rest (nextLevel nodes emptyNode)

/-- `MerklePrefixTree::build` (`build_from_parts`) -/
def build (t : MerklePrefixTree) : MerklePrefixTreeBuilt :=
  { depth := t.depth, empty := t.empty,
    levels := buildLevels t.empty (List.range t.depth) t.leaves }

/-- The loop of `root` over the levels. -/
def rootLoop (empty : List Fr) : List Nat → List Fr → List Fr
  | [], nodes => nodes
  | level :: rest, nodes =>
      let emptyNode := empty.getD level 0
      rootLoop empty rest (nextLevel (fillEmpty nodes emptyNode) emptyNode)

/-- `MerklePrefixTree::root` -/
def root (t : MerklePrefixTree) : Except String Fr :=
  .ok ((rootLoop t.empty (List.range t.depth) t.leaves).head?.getD (t.empty.getD t.depth 0))

end MerklePrefixTree

namespace MerklePrefixTreeBuilt

/-- `MerklePrefixTreeBuilt::leaf_count` -/
def leafCount (t : MerklePrefixTreeBuilt) : Nat :=
  (t.levels.head?.map List.length).getD 0

/-- `MerklePrefixTreeBuilt::root` -/
def root (t : MerklePrefixTreeBuilt) : Except String Fr :=
  .ok ((t.levels[t.depth]?.bind List.head?).getD (t.empty.getD t.depth 0))

/-- The loop of `proof` over the levels: the siblings, and the bits of the index. -/
def proofLoop (t : MerklePrefixTreeBuilt) : List Nat → Nat → Nat → List Fr × Nat
  | [], _, pathIndicesBits => ([], pathIndicesBits)
  | level :: rest, currentIndex, pathIndicesBits =>
      let sib := (t.levels.getD level []).getD (currentIndex ^^^ 1) (t.empty.getD level 0)
      let pathIndicesBits :=
        if currentIndex % 2 ≠ 0 then pathIndicesBits ||| 1 <<< level else pathIndicesBits
      let (path, bits) := proofLoop t rest (currentIndex / 2) pathIndicesBits
      (sib :: path, bits)

/-- `MerklePrefixTreeBuilt::proof` -/
def proof (t : MerklePrefixTreeBuilt) (index : Nat) : Except String MerkleProof := do
  if index ≥ t.leafCount then
    throw s!"leaf index out of range: index={index}, leaves={t.leafCount}"
  let (pathElements, bits) := proofLoop t (List.range t.depth) index 0
  let root ← t.root
  return { pathElements, pathIndices := Fin.ofNat bn256Modulus bits, root, levels := t.depth }

end MerklePrefixTreeBuilt

/-! ### The levels of the plain tree -/

/-- `nodes`, with the empty subtree for every missing node, is level `l` of the tree. -/
def IsLevel (leaves : List Fr) (l : Nat) (nodes : List Fr) : Prop :=
  ∀ i, nodes.getD i (zeroNode l) = node poseidon2Compress (padded zeroLeaf leaves) l i

variable {leaves nodes : List Fr} {l : Nat}

theorem isLevel_leaves (leaves : List Fr) : IsLevel leaves 0 leaves := fun _ => rfl

theorem IsLevel.fillEmpty (h : IsLevel leaves l nodes) :
    IsLevel leaves l (MerklePrefixTree.fillEmpty nodes (zeroNode l)) := by
  unfold MerklePrefixTree.fillEmpty
  cases nodes with
  | nil =>
      intro i
      rw [← h i, List.isEmpty_nil, if_pos rfl]
      cases i with
      | zero => rfl
      | succ i => rfl
  | cons x nodes => exact h

theorem IsLevel.nextLevel (h : IsLevel leaves l nodes) :
    IsLevel leaves (l + 1) (MerklePrefixTree.nextLevel nodes (zeroNode l)) := by
  intro i
  unfold MerklePrefixTree.nextLevel
  rw [node_succ, ← h (2 * i), ← h (2 * i + 1), List.getD_eq_getElem?_getD, List.getElem?_map]
  by_cases hi : i < (nodes.length + 1) / 2
  · rw [List.getElem?_range hi]
    rfl
  · -- both children are missing, so the node is the empty subtree
    rw [List.getElem?_eq_none (by simpa using hi), List.getD_eq_default _ _ (by omega),
      List.getD_eq_default _ _ (by omega)]
    rfl

theorem IsLevel.head (h : IsLevel leaves l nodes) :
    nodes.head?.getD (zeroNode l) = node poseidon2Compress (padded zeroLeaf leaves) l 0 := by
  rw [← h 0, List.head?_eq_getElem?, List.getD_eq_getElem?_getD]

/-! ### The bits of an index -/

/-- Adding the bit of level `l` to the bits below it. -/
theorem pathBits_step (index l : Nat) :
    (if index / 2 ^ l % 2 ≠ 0 then index % 2 ^ l ||| 1 <<< l else index % 2 ^ l) =
      index % 2 ^ (l + 1) := by
  have hsplit : index % 2 ^ (l + 1) = index % 2 ^ l + 2 ^ l * (index / 2 ^ l % 2) := by
    rw [pow_succ, Nat.mod_mul]
  have hlow : index % 2 ^ l < 2 ^ l := Nat.mod_lt _ (Nat.two_pow_pos l)
  by_cases hbit : index / 2 ^ l % 2 ≠ 0
  · rw [if_pos hbit, hsplit, Nat.one_shiftLeft, show index / 2 ^ l % 2 = 1 by omega, Nat.or_comm,
      Nat.add_comm, Nat.two_pow_add_eq_or_of_lt hlow, Nat.mul_one]
  · rw [if_neg hbit, hsplit, show index / 2 ^ l % 2 = 0 by omega, Nat.mul_zero, Nat.add_zero]

theorem xor_one_eq_sibling (i : Nat) : i ^^^ 1 = sibling i := by
  unfold sibling
  by_cases hi : i % 2 = 1
  · rw [if_pos hi, Nat.xor_one_of_odd (Nat.odd_iff.mpr hi)]
  · rw [if_neg hi, Nat.xor_one_of_even (Nat.even_iff.mpr (by omega))]

/-! ### `new`, `root` and `build` -/

/-- The client's zero leaf is the contract's. -/
theorem fieldTryFromLeBytes_zeroLeaf :
    fieldTryFromLeBytes zeroLeafBytes.reverse = .ok zeroLeaf := by
  have hval : leValue zeroLeafBytes.reverse = zeroLeaf.val := by decide +kernel
  unfold fieldTryFromLeBytes
  rw [dif_pos (by rw [hval]; exact zeroLeaf.isLt)]
  exact congrArg Except.ok (Fin.ext hval)

theorem iterate_hashPair (i : Nat) : (fun z => hashPair z z)^[i] zeroLeaf = zeroNode i := by
  induction i with
  | zero => rfl
  | succ i ih => rw [Function.iterate_succ_apply', ih]; rfl

namespace MerklePrefixTree

/-- `new` succeeds for the depths of the contract, with the contract's empty subtrees. -/
theorem new_ok {depth : Nat} (hpos : 1 ≤ depth) (hle : depth ≤ 32) (leaves : List Fr) :
    ∃ t, new depth leaves = .ok t ∧ t.depth = depth ∧ t.leaves = leaves ∧
      ∀ l ≤ depth, t.empty.getD l 0 = zeroNode l := by
  refine ⟨{ depth, leaves, empty := List.iterate (fun z => hashPair z z) zeroLeaf (depth + 1) },
    ?_, rfl, rfl, ?_⟩
  · unfold new
    rw [if_neg (by omega), fieldTryFromLeBytes_zeroLeaf]
    rfl
  · intro l hl
    rw [List.getD_eq_getElem?_getD, List.getElem?_iterate _ _ _ _ (by omega), iterate_hashPair]
    rfl

/-- The loop of `root` climbs from one level of the tree to a higher one. -/
theorem rootLoop_isLevel {empty : List Fr} (n : Nat) : ∀ {l : Nat} {nodes : List Fr},
    (∀ k, k < l + n → empty.getD k 0 = zeroNode k) → IsLevel leaves l nodes →
    IsLevel leaves (l + n) (rootLoop empty (List.range' l n) nodes) := by
  induction n with
  | zero => intro l nodes _ h; exact h
  | succ n ih =>
      intro l nodes hempty h
      rw [List.range'_succ, rootLoop, hempty l (by omega), show l + (n + 1) = l + 1 + n by omega]
      exact ih (fun k hk => hempty k (by omega)) h.fillEmpty.nextLevel

/-- The `m`-th list of `buildLevels` is a level of the tree. -/
theorem buildLevels_isLevel {empty : List Fr} (n : Nat) : ∀ {l m : Nat} {nodes : List Fr},
    (∀ k, k < l + n → empty.getD k 0 = zeroNode k) → IsLevel leaves l nodes → m ≤ n →
    ∃ level, (buildLevels empty (List.range' l n) nodes)[m]? = some level ∧
      IsLevel leaves (l + m) level := by
  induction n with
  | zero =>
      intro l m nodes _ h hm
      obtain rfl : m = 0 := by omega
      exact ⟨nodes, rfl, h⟩
  | succ n ih =>
      intro l m nodes hempty h hm
      rw [List.range'_succ, buildLevels, hempty l (by omega)]
      cases m with
      | zero => exact ⟨_, rfl, h.fillEmpty⟩
      | succ m =>
          rw [show l + (m + 1) = l + 1 + m by omega]
          exact ih (fun k hk => hempty k (by omega)) h.fillEmpty.nextLevel (by omega)

variable {t : MerklePrefixTree} (hempty : ∀ l ≤ t.depth, t.empty.getD l 0 = zeroNode l)

include hempty

/-- `root` is the root of the plain tree. -/
theorem root_eq : t.root = .ok (treeRoot t.depth t.leaves) := by
  unfold root
  have hlevel : IsLevel t.leaves (0 + t.depth) _ :=
    rootLoop_isLevel t.depth (fun k hk => hempty k (by omega)) (isLevel_leaves t.leaves)
  rw [Nat.zero_add] at hlevel
  rw [hempty t.depth le_rfl, List.range_eq_range', hlevel.head]
  rfl

/-- The levels that `build` stores. -/
theorem build_levels {m : Nat} (hm : m ≤ t.depth) :
    ∃ level, t.build.levels[m]? = some level ∧ IsLevel t.leaves m level := by
  obtain ⟨level, hget, hlevel⟩ := buildLevels_isLevel t.depth (l := 0)
    (fun k hk => hempty k (by omega)) (isLevel_leaves t.leaves) hm
  rw [Nat.zero_add] at hlevel
  refine ⟨level, ?_, hlevel⟩
  rw [build, List.range_eq_range']
  exact hget

theorem build_root_eq : t.build.root = .ok (treeRoot t.depth t.leaves) := by
  obtain ⟨level, hget, hlevel⟩ := build_levels hempty le_rfl
  unfold MerklePrefixTreeBuilt.root
  have hdepth : t.build.depth = t.depth := rfl
  have hempty' : t.build.empty = t.empty := rfl
  rw [hdepth, hempty', hget, hempty t.depth le_rfl, Option.bind_some, hlevel.head]
  rfl

/-! ### `proof` -/

/-- The loop of `proof` collects the siblings and the bits of the index. -/
theorem proofLoop_eq (index n : Nat) : ∀ {l : Nat}, l + n ≤ t.depth →
    t.build.proofLoop (List.range' l n) (index / 2 ^ l) (index % 2 ^ l) =
      (siblings poseidon2Compress (padded zeroLeaf t.leaves) l (index / 2 ^ l) n,
        index % 2 ^ (l + n)) := by
  induction n with
  | zero => intro l _; rfl
  | succ n ih =>
      intro l hl
      obtain ⟨level, hget, hlevel⟩ := build_levels hempty (m := l) (by omega)
      have hsib : (t.build.levels.getD l []).getD (index / 2 ^ l ^^^ 1) (t.build.empty.getD l 0) =
          node poseidon2Compress (padded zeroLeaf t.leaves) l (sibling (index / 2 ^ l)) := by
        have hgetD : t.build.levels.getD l [] = level := by
          rw [List.getD_eq_getElem?_getD, hget, Option.getD_some]
        rw [hgetD, xor_one_eq_sibling, show t.build.empty = t.empty from rfl,
          hempty l (by omega), hlevel]
      have ih := ih (l := l + 1) (by omega)
      rw [pow_succ, ← Nat.div_div_eq_div_mul, ← pow_succ] at ih
      rw [List.range'_succ, MerklePrefixTreeBuilt.proofLoop]
      simp only [hsib]
      rw [pathBits_step, ih, show l + (n + 1) = l + 1 + n by omega]
      rfl

omit hempty in
/-- The stored leaves of a tree that has any. -/
theorem leafCount_build (hne : t.leaves ≠ []) : t.build.leafCount = t.leaves.length := by
  have hhead : t.build.levels.head? = some t.leaves := by
    unfold build
    cases List.range t.depth with
    | nil => rfl
    | cons l rest => simp [buildLevels, fillEmpty, hne]
  rw [MerklePrefixTreeBuilt.leafCount, hhead]
  rfl

/-- What `proof` returns for an index it accepts: the siblings of the index in the plain tree,
and as many bits of the index as there are levels. -/
theorem proof_ok {index : Nat} (hle : t.depth ≤ 32) (hi : index < t.build.leafCount) :
    ∃ p, t.build.proof index = .ok p ∧ p.pathIndices.val = index % 2 ^ t.depth ∧
      p.levels = t.depth ∧ p.root = treeRoot t.depth t.leaves ∧
      p.pathElements = siblings poseidon2Compress (padded zeroLeaf t.leaves) 0 index t.depth := by
  have hpow : 2 ^ t.depth ≤ 2 ^ 32 := Nat.pow_le_pow_right (by omega) hle
  have hbits : index % 2 ^ t.depth < 2 ^ t.depth := Nat.mod_lt _ (Nat.two_pow_pos _)
  have hval : (Fin.ofNat bn256Modulus (index % 2 ^ t.depth)).val = index % 2 ^ t.depth :=
    Nat.mod_eq_of_lt (by unfold bn256Modulus; omega)
  have hloop := proofLoop_eq hempty index t.depth (l := 0) (by omega)
  rw [pow_zero, Nat.div_one, Nat.mod_one, Nat.zero_add, ← List.range_eq_range'] at hloop
  refine ⟨⟨_, _, treeRoot t.depth t.leaves, _⟩, ?_, hval, rfl, rfl, rfl⟩
  unfold MerklePrefixTreeBuilt.proof
  rw [if_neg (by omega), show t.build.depth = t.depth from rfl, hloop, build_root_eq hempty]
  rfl

/-- **Paths of the client.** For every leaf that is in the tree, `proof` returns its
siblings in the plain tree and its index; they lead from the leaf to the root. -/
theorem proof_eq {index : Nat} (hlen : t.leaves.length ≤ 2 ^ t.depth) (hle : t.depth ≤ 32)
    (hi : index < t.leaves.length) :
    ∃ p, t.build.proof index = .ok p ∧ p.pathIndices.val = index ∧ p.levels = t.depth ∧
      p.pathElements = siblings poseidon2Compress (padded zeroLeaf t.leaves) 0 index t.depth ∧
      foldPath poseidon2Compress t.leaves[index] p.pathElements p.pathIndices.val = p.root := by
  have hne : t.leaves ≠ [] := List.ne_nil_of_length_pos (by omega)
  obtain ⟨p, hp, hindex, hlevels, hroot, hpath⟩ :=
    proof_ok hempty hle (leafCount_build hne ▸ hi)
  rw [Nat.mod_eq_of_lt (lt_of_lt_of_le hi hlen)] at hindex
  refine ⟨p, hp, hindex, hlevels, hpath, ?_⟩
  have hfold := foldPath_siblings poseidon2Compress (padded zeroLeaf t.leaves) 0 index t.depth
  rw [node_zero, Nat.zero_add, Nat.div_eq_of_lt (lt_of_lt_of_le hi hlen)] at hfold
  rw [hindex, hpath, hroot, treeRoot, PerfectTree.root, ← hfold]
  unfold padded
  rw [List.getD_eq_getElem _ _ hi]

end MerklePrefixTree

/-! ### A proof that was returned -/

/-- The root of a proof is the root of its tree. -/
theorem MerklePrefixTreeBuilt.proof_root {t : MerklePrefixTreeBuilt} {index : Nat}
    {p : MerkleProof} (h : t.proof index = .ok p) : t.root = .ok p.root := by
  unfold MerklePrefixTreeBuilt.proof at h
  by_cases hindex : index ≥ t.leafCount
  · rw [if_pos hindex] at h
    cases h
  · rw [if_neg hindex] at h
    cases hroot : t.root with
    | error e =>
        rw [hroot] at h
        cases h
    | ok root =>
        rw [hroot] at h
        cases h
        rfl

namespace MerklePrefixTree

/-- `new` succeeds for the depths of the contract only. -/
theorem new_inv {depth : Nat} {leaves : List Fr} {t : MerklePrefixTree}
    (h : new depth leaves = .ok t) : 1 ≤ depth ∧ depth ≤ 32 ∧ t.depth = depth ∧
      t.leaves = leaves ∧ ∀ l ≤ depth, t.empty.getD l 0 = zeroNode l := by
  by_cases hdepth : depth = 0 ∨ depth > 32
  · unfold new at h
    rw [if_pos hdepth] at h
    cases h
  · obtain ⟨t', hnew, hrest⟩ := new_ok (by omega) (by omega : depth ≤ 32) leaves
    rw [hnew] at h
    cases h
    exact ⟨by omega, by omega, hrest⟩

/-- A proof for a leaf leads from it to the root of the plain tree. -/
theorem proof_sound {depth index : Nat} {leaves : List Fr} {t : MerklePrefixTree} {leaf : Fr}
    {p : MerkleProof} (hnew : new depth leaves = .ok t) (hlen : leaves.length ≤ 2 ^ depth)
    (hget : leaves[index]? = some leaf) (hproof : t.build.proof index = .ok p) :
    p.pathIndices.val = index ∧ p.pathElements.length = depth ∧
      p.root = treeRoot depth leaves ∧
      foldPath poseidon2Compress leaf p.pathElements p.pathIndices.val = p.root := by
  obtain ⟨-, hle, rfl, rfl, hempty⟩ := new_inv hnew
  obtain ⟨hi, rfl⟩ := List.getElem?_eq_some_iff.mp hget
  obtain ⟨q, hq, hindex, -, helements, hfold⟩ := proof_eq hempty hlen hle hi
  have hroot := MerklePrefixTreeBuilt.proof_root hproof
  rw [hq] at hproof
  cases hproof
  rw [build_root_eq hempty] at hroot
  refine ⟨hindex, ?_, (Except.ok.inj hroot).symm, hfold⟩
  rw [helements, length_siblings]

end MerklePrefixTree

/-! ### The two trees agree -/

/-- The storage after a call, which the function itself has left behind. -/
def insertCall (s : MerkleStorage) (call : Fr × Fr) : MerkleStorage :=
  match (insertTwoLeaves call.1.toU256 call.2.toU256).run s with
  | .ok _ s' => s'
  | .error _ s' => s'

/-- The storage after a sequence of calls. -/
def insertCalls (s : MerkleStorage) (calls : List (Fr × Fr)) : MerkleStorage :=
  calls.foldl insertCall s

/-- The leaves that the calls of a run insert: those of the calls that fit. -/
def insertedLeaves (levels : Nat) (calls : List (Fr × Fr)) : List Fr :=
  (calls.take (2 ^ levels / 2)).flatMap fun call => [call.1, call.2]

/-- What a run has inserted: a pair for each call, while there is room. -/
theorem insertCalls_represents {levels : Nat} (hpos : 1 ≤ levels) (hle : levels ≤ 32)
    (calls : List (Fr × Fr)) :
    Represents levels (insertedLeaves levels calls)
        (insertCalls (initialStorage levels) calls) ∧
      (insertedLeaves levels calls).length = 2 * min calls.length (2 ^ levels / 2) := by
  have hpow : 2 ^ levels = 2 * 2 ^ (levels - 1) := by
    rw [← pow_succ', Nat.sub_add_cancel hpos]
  induction calls using List.reverseRecOn with
  | nil =>
      have hnil : insertedLeaves levels [] = [] := by simp [insertedLeaves]
      rw [hnil]
      exact ⟨init_represents hpos hle, by simp⟩
  | append_singleton calls call ih =>
      obtain ⟨hrep, hlen⟩ := ih
      have hfold : insertCalls (initialStorage levels) (calls ++ [call]) =
          insertCall (insertCalls (initialStorage levels) calls) call := by
        rw [insertCalls, List.foldl_append]
        rfl
      rw [hfold, List.length_append, List.length_singleton]
      by_cases hroom : calls.length < 2 ^ levels / 2
      · have hleaves : insertedLeaves levels (calls ++ [call]) =
            insertedLeaves levels calls ++ [call.1, call.2] := by
          unfold insertedLeaves
          rw [List.take_of_length_le (by rw [List.length_append, List.length_singleton]; omega),
            List.take_of_length_le (by omega), List.flatMap_append]
          rfl
        obtain ⟨s', hrun, hrep'⟩ := insertTwoLeaves_room hrep (by omega) call.1 call.2
        rw [hleaves]
        refine ⟨?_, ?_⟩
        · unfold insertCall
          rw [hrun]
          exact hrep'
        · rw [List.length_append, hlen]
          simp only [List.length_cons, List.length_nil]
          omega
      · have hleaves : insertedLeaves levels (calls ++ [call]) = insertedLeaves levels calls := by
          unfold insertedLeaves
          rw [List.take_append_of_le_length (by omega)]
        have hfull := insertTwoLeaves_full hrep (by omega) call.1.toU256 call.2.toU256
        rw [hleaves]
        refine ⟨?_, by omega⟩
        unfold insertCall
        rw [hfull]
        exact hrep

end PrivatePayments.Prover
