import PrivatePayments.Lib.PerfectTree
import PrivatePayments.Poseidon2.Hash

/-!
# PrivatePayments.Circuits.Merkle

The Merkle trees of the circuits crate (`circuits/src/core/merkle.rs`). They work on the full
list of leaves, whose length is a power of two; on it `merkle_root` is the root of the plain
tree, and `merkle_proof` gives the plain path.
-/

namespace PrivatePayments.CoreMerkle

open PerfectTree

/-! ## The functions -/

/-- `is_power_of_two` -/
def isPowerOfTwo (n : Nat) : Bool := n ≠ 0 ∧ 2 ^ n.log2 = n

/-- The hashes of the pairs of `chunks_exact(2)`. -/
def nextLevel : List Fr → List Fr
  | left :: right :: rest => poseidon2Compress left right :: nextLevel rest
  | _ => []

theorem length_nextLevel (leaves : List Fr) : (nextLevel leaves).length = leaves.length / 2 := by
  fun_induction nextLevel leaves with
  | case1 left right rest ih =>
      simp only [List.length_cons, ih]
      omega
  | case2 leaves hshort =>
      rcases leaves with _ | ⟨a, _ | ⟨b, rest⟩⟩
      · rfl
      · simp
      · exact absurd rfl (hshort a b rest)

/-- The loop of `merkle_root`. -/
def merkleRootLoop (leaves : List Fr) : Option Fr :=
  if 1 < leaves.length then merkleRootLoop (nextLevel leaves) else leaves[0]?
termination_by leaves.length
decreasing_by
  rw [length_nextLevel]
  omega

/-- `merkle_root`; a failed assertion is `none`. -/
def merkleRoot (leaves : List Fr) : Option Fr :=
  if leaves = [] ∨ ¬isPowerOfTwo leaves.length then none else merkleRootLoop leaves

/-- The sibling of an index. -/
def sibIndex (index : Nat) : Nat := if index % 2 = 0 then index + 1 else index - 1

/-- The loop of `merkle_proof` over so many levels: the path, and the bits of the index. -/
def merkleProofLoop : Nat → List Fr → Nat → Option (List Fr × List Nat)
  | 0, _, _ => some ([], [])
  | levels + 1, levelNodes, index => do
      let sib ← levelNodes[sibIndex index]?
      let (pathElems, bits) ← merkleProofLoop levels (nextLevel levelNodes) (index / 2)
      some (sib :: pathElems, index % 2 :: bits)

/-- The loop over `path_indices_bits_lsb`. -/
def packBits (bits : List Nat) : Nat :=
  bits.zipIdx.foldl (fun pathIndices b => pathIndices ||| b.1 <<< b.2) 0

/-- `merkle_proof`: the path, its indices and the number of levels. -/
def merkleProof (leaves : List Fr) (index : Nat) : Option (List Fr × Nat × Nat) :=
  if leaves = [] ∨ ¬isPowerOfTwo leaves.length then none
  else do
    let levels := leaves.length.log2
    let (pathElems, bits) ← merkleProofLoop levels leaves index
    some (pathElems, packBits bits, levels)

/-! ## The levels of the plain tree -/

/-- All nodes of a level, for a tree of `n` more levels. -/
def fullLevel (f : Nat → Fr) (l n : Nat) : List Fr :=
  (List.range (2 ^ n)).map (node poseidon2Compress f l)

variable {f : Nat → Fr}

@[simp] theorem length_fullLevel (l n : Nat) : (fullLevel f l n).length = 2 ^ n := by
  simp [fullLevel]

theorem isPowerOfTwo_pow (n : Nat) : isPowerOfTwo (2 ^ n) = true := by
  simp [isPowerOfTwo, Nat.log2_two_pow]

theorem nextLevel_range' (g : Nat → Fr) (m : Nat) : ∀ s : Nat,
    nextLevel ((List.range' (2 * s) (2 * m)).map g) =
      (List.range' s m).map fun i => poseidon2Compress (g (2 * i)) (g (2 * i + 1)) := by
  induction m with
  | zero => exact fun _ => rfl
  | succ m ih =>
      intro s
      have hrange : List.range' (2 * s) (2 * (m + 1)) =
          2 * s :: (2 * s + 1) :: List.range' (2 * (s + 1)) (2 * m) := by
        rw [show 2 * (m + 1) = 2 * m + 1 + 1 by omega, List.range'_succ, List.range'_succ]
        rfl
      rw [hrange, List.map_cons, List.map_cons, nextLevel, ih, List.range'_succ, List.map_cons]

/-- Pairing the nodes of a level gives the level above. -/
theorem nextLevel_fullLevel (l n : Nat) :
    nextLevel (fullLevel f l (n + 1)) = fullLevel f (l + 1) n := by
  rw [fullLevel, fullLevel, List.range_eq_range', List.range_eq_range', pow_succ', ← Nat.mul_zero 2,
    nextLevel_range']
  rfl

/-- A list of the full length is the lowest level of the tree over its entries. -/
theorem fullLevel_of_length {z : Fr} {leaves : List Fr} {n : Nat} (h : leaves.length = 2 ^ n) :
    fullLevel (padded z leaves) 0 n = leaves := by
  apply List.ext_getElem
  · simp [h]
  · intro i hi hi'
    simp [fullLevel, padded, hi']

/-! ## Roots and proofs -/

theorem merkleRootLoop_fullLevel (n : Nat) : ∀ l : Nat,
    merkleRootLoop (fullLevel f l n) = some (node poseidon2Compress f (l + n) 0) := by
  induction n with
  | zero =>
      intro l
      rw [merkleRootLoop, length_fullLevel, if_neg (by simp)]
      rfl
  | succ n ih =>
      intro l
      have hpos := Nat.two_pow_pos n
      rw [merkleRootLoop, length_fullLevel, if_pos (by rw [pow_succ]; omega),
        nextLevel_fullLevel, ih, show l + 1 + n = l + (n + 1) by omega]

/-- `merkle_root` is the root of the plain tree. -/
theorem merkleRoot_eq {z : Fr} {leaves : List Fr} {n : Nat} (h : leaves.length = 2 ^ n) :
    merkleRoot leaves = some (root poseidon2Compress (padded z leaves) n) := by
  have hne : leaves ≠ [] := by
    rintro rfl
    exact absurd h (Nat.two_pow_pos n).ne
  have hroot := merkleRootLoop_fullLevel (f := padded z leaves) n 0
  rw [fullLevel_of_length h, Nat.zero_add] at hroot
  rw [merkleRoot, if_neg (by simp [hne, h, isPowerOfTwo_pow]), hroot, PerfectTree.root]

theorem sibIndex_eq (index : Nat) : sibIndex index = sibling index := by
  unfold sibIndex sibling
  by_cases h : index % 2 = 0
  · rw [if_pos h, if_neg (by omega)]
  · rw [if_neg h, if_pos (by omega)]

theorem sibling_lt {index n : Nat} (h : index < 2 ^ (n + 1)) : sibling index < 2 ^ (n + 1) := by
  rw [pow_succ] at h ⊢
  unfold sibling
  split <;> omega

/-- The bits of a number, the lowest first. -/
def lowBits : Nat → Nat → List Nat
  | 0, _ => []
  | n + 1, index => index % 2 :: lowBits n (index / 2)

theorem merkleProofLoop_fullLevel (n : Nat) : ∀ {l index : Nat}, index < 2 ^ n →
    merkleProofLoop n (fullLevel f l n) index =
      some (siblings poseidon2Compress f l index n, lowBits n index) := by
  induction n with
  | zero => exact fun _ => rfl
  | succ n ih =>
      intro l index h
      have hsib : (fullLevel f l (n + 1))[sibIndex index]? =
          some (node poseidon2Compress f l (sibling index)) := by
        rw [sibIndex_eq, fullLevel, List.getElem?_map, List.getElem?_range (sibling_lt h)]
        rfl
      have hhalf : index / 2 < 2 ^ n := by
        rw [pow_succ] at h
        omega
      simp [merkleProofLoop, hsib, nextLevel_fullLevel, ih hhalf, siblings, lowBits]

/-- Bits are packed above the ones before them. -/
theorem foldl_lowBits (n : Nat) : ∀ (index l acc : Nat), acc < 2 ^ l →
    ((lowBits n index).zipIdx l).foldl (fun pathIndices b => pathIndices ||| b.1 <<< b.2) acc =
      acc + 2 ^ l * (index % 2 ^ n) := by
  induction n with
  | zero => intro index l acc _; simp [lowBits, Nat.mod_one]
  | succ n ih =>
      intro index l acc hacc
      have hbit : acc ||| (index % 2) <<< l = acc + 2 ^ l * (index % 2) := by
        rw [Nat.shiftLeft_eq, Nat.mul_comm, Nat.or_comm, ← Nat.two_pow_add_eq_or_of_lt hacc,
          Nat.add_comm]
      have hnext : acc + 2 ^ l * (index % 2) < 2 ^ (l + 1) := by
        have hmod : index % 2 < 2 := Nat.mod_lt _ (by decide)
        have hle : 2 ^ l * (index % 2) ≤ 2 ^ l * 1 := Nat.mul_le_mul_left _ (by omega)
        rw [pow_succ]
        omega
      have hindex : index % 2 ^ (n + 1) = index % 2 + 2 * (index / 2 % 2 ^ n) := by
        rw [pow_succ', Nat.mod_mul]
      rw [lowBits, List.zipIdx_cons, List.foldl_cons, hbit, ih _ _ _ hnext, hindex, pow_succ]
      ring

theorem packBits_lowBits {n index : Nat} (h : index < 2 ^ n) :
    packBits (lowBits n index) = index := by
  rw [packBits, foldl_lowBits n index 0 0 (by decide), Nat.mod_eq_of_lt h]
  simp

/-- `merkle_proof` gives the plain path of an index, and the index. -/
theorem merkleProof_eq {z : Fr} {leaves : List Fr} {n index : Nat} (h : leaves.length = 2 ^ n)
    (hi : index < 2 ^ n) :
    merkleProof leaves index =
      some (siblings poseidon2Compress (padded z leaves) 0 index n, index, n) := by
  have hne : leaves ≠ [] := by
    rintro rfl
    exact absurd h (Nat.two_pow_pos n).ne
  have hloop := merkleProofLoop_fullLevel (f := padded z leaves) n (l := 0) hi
  rw [fullLevel_of_length h] at hloop
  rw [merkleProof, if_neg (by simp [hne, h, isPowerOfTwo_pow])]
  simp [h, Nat.log2_two_pow, hloop, packBits_lowBits hi]

end PrivatePayments.CoreMerkle
