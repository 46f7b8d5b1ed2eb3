import PrivatePayments.Contracts.MerkleWithHistory
import PrivatePayments.Lib.PerfectTree

/-!
# PrivatePayments.Contracts.MerkleWithHistorySound

The contract's tree is the plain one. `Represents levels leaves s` says what the storage
holds after the leaves have been inserted: the filled subtrees are a frontier of the
perfect tree over the leaves, and the ring buffer holds the roots of its last prefixes.
`init` establishes it, `insert_two_leaves` maintains it, and the two read functions are
read off it.
-/

namespace PrivatePayments.MerkleWithHistory

open PerfectTree

/-- The leaf of an empty slot. -/
def zeroLeaf : Fr := zeroNode 0

theorem zeroNode_eq_constNode (l : Nat) : zeroNode l = constNode poseidon2Compress zeroLeaf l := by
  induction l with
  | zero => rfl
  | succ l ih => rw [zeroNode, constNode, ih]

/-- The root of the plain tree: `leaves` from the left, empty slots after them. -/
def treeRoot (levels : Nat) (leaves : List Fr) : Fr :=
  root poseidon2Compress (padded zeroLeaf leaves) levels

/-- The root after the first `j` insertions of two leaves each. -/
def prefixRoot (levels : Nat) (leaves : List Fr) (j : Nat) : Fr :=
  treeRoot levels (leaves.take (2 * j))

/-- The storage after `leaves` have been inserted into a tree of `levels` levels. -/
structure Represents (levels : Nat) (leaves : List Fr) (s : MerkleStorage) : Prop where
  levels_pos : 1 ≤ levels
  levels_le : levels ≤ 32
  even : leaves.length % 2 = 0
  fits : leaves.length ≤ 2 ^ levels
  levels_eq : s.levels = some levels
  nextIndex_eq : s.nextIndex = some leaves.length
  currentRootIndex_eq : s.currentRootIndex = some (leaves.length / 2 % rootHistorySize)
  zeroes_eq : ∀ l ≤ levels, s.zeroes l = some (zeroNode l).toU256
  filled_eq : ∃ filled : Nat → Fr,
    (∀ l ≤ levels, s.filledSubtree l = some (filled l).toU256) ∧
    Frontier poseidon2Compress (padded zeroLeaf leaves) (levels - 1) 1
      (leaves.length / 2) filled
  root_eq : ∀ i v, s.root i = some v ↔ ∃ j ≤ leaves.length / 2,
    leaves.length / 2 < j + rootHistorySize ∧ i = j % rootHistorySize ∧
    v = (prefixRoot levels leaves j).toU256

theorem prefixRoot_length {levels : Nat} {leaves : List Fr} (heven : leaves.length % 2 = 0) :
    prefixRoot levels leaves (leaves.length / 2) = treeRoot levels leaves := by
  rw [prefixRoot, show 2 * (leaves.length / 2) = leaves.length by omega, List.take_length]

/-- Earlier roots do not change. -/
theorem prefixRoot_append {levels j : Nat} {leaves more : List Fr}
    (hj : j ≤ leaves.length / 2) :
    prefixRoot levels (leaves ++ more) j = prefixRoot levels leaves j := by
  rw [prefixRoot, prefixRoot, List.take_append_of_le_length (by omega)]

/-! ### `init` -/

/-- The level just written joins the interval of the later ones. -/
theorem zeroes_update (g : Nat → Option U256) (l n : Nat) :
    (fun i => if l + 1 ≤ i ∧ i < l + 1 + n then some (zeroNode i).toU256
      else Function.update g l (some (zeroNode l).toU256) i) =
      fun i => if l ≤ i ∧ i < l + (n + 1) then some (zeroNode i).toU256 else g i := by
  funext i
  by_cases hi : i = l
  · subst hi
    rw [if_neg (by omega), if_pos (by omega), Function.update_self]
  · rw [Function.update_of_ne hi]
    exact if_congr (by omega) rfl rfl

/-- The levels that the loop of `init` has written. -/
theorem initLevels_apply (n : Nat) : ∀ (l : Nat) (s : MerkleStorage), l + n ≤ 33 →
    (forM (List.range' l n) initLevel : MerkleM PUnit).run s = .ok () { s with
      filledSubtree := fun i => if l ≤ i ∧ i < l + n then some (zeroNode i).toU256
        else s.filledSubtree i
      zeroes := fun i => if l ≤ i ∧ i < l + n then some (zeroNode i).toU256
        else s.zeroes i } := by
  induction n with
  | zero =>
      intro l s _
      have hnone : ∀ i, ¬ (l ≤ i ∧ i < l + 0) := fun i hi => by omega
      simp only [hnone, if_false]
      rfl
  | succ n ih =>
      intro l s hl
      rw [List.range'_succ, List.forM_cons, EStateM.run_bind]
      have hz := getZeroes_getElem? (i := l) (by omega)
      have hhead : (initLevel l).run s = .ok () { s with
          filledSubtree := Function.update s.filledSubtree l (some (zeroNode l).toU256)
          zeroes := Function.update s.zeroes l (some (zeroNode l).toU256) } := by
        unfold initLevel
        rw [hz, Contract.okOr_some]
        rfl
      rw [hhead]
      simp only
      rw [ih (l + 1) _ (by omega)]
      simp only [zeroes_update]

/-- The storage that `init` leaves behind. -/
def initialStorage (levels : Nat) : MerkleStorage where
  levels := some levels
  currentRootIndex := some 0
  nextIndex := some 0
  filledSubtree := fun i => if i < levels + 1 then some (zeroNode i).toU256 else none
  zeroes := fun i => if i < levels + 1 then some (zeroNode i).toU256 else none
  root := Function.update (fun _ => none) 0 (some (zeroNode levels).toU256)

theorem init_apply {levels : Nat} (hpos : 1 ≤ levels) (hle : levels ≤ 32) :
    (init levels).run {} = .ok () (initialStorage levels) := by
  have hz := getZeroes_getElem? hle
  unfold init
  rw [Contract.failIf_neg (by omega), hz]
  simp only [Contract.okOr_some, EStateM.run_bind, EStateM.run_pure, EStateM.run_get,
    EStateM.run_modify, Option.isSome_none, Bool.false_eq_true, not_false_iff,
    Contract.failIf_neg, List.range_eq_range', List.forM_eq_forM]
  rw [initLevels_apply (levels + 1) 0 _ (by omega)]
  simp only [Nat.zero_le, true_and, Nat.zero_add]
  rfl

theorem init_represents {levels : Nat} (hpos : 1 ≤ levels) (hle : levels ≤ 32) :
    Represents levels [] (initialStorage levels) where
  levels_pos := hpos
  levels_le := hle
  even := rfl
  fits := Nat.zero_le _
  levels_eq := rfl
  nextIndex_eq := rfl
  currentRootIndex_eq := rfl
  zeroes_eq := fun l hl => if_pos (by omega)
  filled_eq := ⟨zeroNode, fun l hl => if_pos (by omega), fun k _ hk => by simp at hk⟩
  root_eq := by
    intro i v
    have hempty : prefixRoot levels [] 0 = zeroNode levels := by
      rw [prefixRoot, treeRoot, root, zeroNode_eq_constNode]
      exact node_padded_of_le _ (Nat.zero_le _)
    constructor
    · intro h
      by_cases hi : i = 0
      · subst hi
        have hv : some (zeroNode levels).toU256 = some v := h
        exact ⟨0, le_rfl, by decide, rfl, by rw [hempty]; exact (Option.some.inj hv).symm⟩
      · have hv : (Function.update (fun _ => none) 0 (some (zeroNode levels).toU256)) i = some v :=
          h
        rw [Function.update_of_ne hi] at hv
        cases hv
    · rintro ⟨j, hj, -, rfl, rfl⟩
      obtain rfl : j = 0 := Nat.le_zero.mp hj
      rw [hempty]
      rfl

/-! ### `insert_two_leaves` -/

/-- The loop computes `carry`. Below `bound`, the filled subtrees before and after it are
the siblings that `carry` is given and returns; the other entries stay. -/
theorem updatePath_carry (bound n : Nat) : ∀ (l i : Nat) (cur : Fr) (filled : Nat → Fr)
    (s : MerkleStorage), l + n ≤ bound →
    (∀ k < bound, s.filledSubtree k = some (filled k).toU256) →
    (∀ k < bound, s.zeroes k = some (zeroNode k).toU256) →
    ∃ fs, (updatePath (List.range' l n) i cur.toU256).run s =
        .ok (carry poseidon2Compress zeroNode n l i cur filled).1.toU256
          { s with filledSubtree := fs } ∧
      ∀ k < bound,
        fs k = some ((carry poseidon2Compress zeroNode n l i cur filled).2 k).toU256 := by
  induction n with
  | zero =>
      intro l i cur filled s _ hf _
      exact ⟨s.filledSubtree, rfl, hf⟩
  | succ n ih =>
      intro l i cur filled s hl hf hz
      rw [List.range'_succ]
      unfold updatePath carry
      rw [Nat.and_one_is_mod, Nat.shiftRight_one]
      simp only [EStateM.run_bind, EStateM.run_get]
      by_cases hi : i % 2 = 1
      · rw [if_pos hi, if_pos hi, hf l (by omega), Contract.okOr_some]
        simp only [EStateM.run_bind, EStateM.run_pure, contractCompress_toU256]
        exact ih _ _ _ _ _ (by omega) hf hz
      · rw [if_neg hi, if_neg hi, hz l (by omega), Contract.okOr_some]
        simp only [EStateM.run_bind, EStateM.run_pure, EStateM.run_modify,
          contractCompress_toU256]
        refine ih _ _ _ _ { s with filledSubtree := _ } (by omega) ?_ hz
        intro k hk
        by_cases hkl : k = l
        · subst hkl
          simp
        · simpa [Function.update_of_ne hkl] using hf k hk

variable {levels : Nat} {leaves : List Fr} {s : MerkleStorage}

/-- The current root is the newest of the ring buffer. -/
theorem Represents.root_current (h : Represents levels leaves s) :
    s.root (leaves.length / 2 % rootHistorySize) = some (treeRoot levels leaves).toU256 :=
  (h.root_eq _ _).mpr ⟨leaves.length / 2, le_rfl, by simp [rootHistorySize], rfl,
    by rw [prefixRoot_length h.even]⟩

theorem getLastRoot_of_represents (h : Represents levels leaves s) :
    getLastRoot.run s = .ok (treeRoot levels leaves).toU256 s := by
  unfold getLastRoot
  simp only [EStateM.run_bind, EStateM.run_get]
  rw [h.currentRootIndex_eq, Contract.okOr_some]
  simp only [EStateM.run_pure]
  rw [h.root_current, Contract.okOr_some]
  rfl

theorem checkedShl64_of_le (hle : levels ≤ 32) : checkedShl64 levels = some (2 ^ levels) := by
  unfold checkedShl64
  rw [if_pos (by omega), Nat.one_shiftLeft]

theorem checkedAdd_of_lt (bits a b : Nat) (h : a + b < 2 ^ bits) :
    checkedAdd bits a b = some (a + b) := if_pos h

/-- The bound on the leaf count, below the width of the counters. -/
theorem Represents.length_le (h : Represents levels leaves s) : leaves.length ≤ 2 ^ 32 :=
  le_trans h.fits (Nat.pow_le_pow_right (by omega) h.levels_le)

/-- A full tree refuses every leaf, before it has written anything. -/
theorem insertTwoLeaves_full (h : Represents levels leaves s)
    (hfull : 2 ^ levels < leaves.length + 2) (leaf1 leaf2 : U256) :
    (insertTwoLeaves leaf1 leaf2).run s = .error (.error .merkleTreeFull) s := by
  have hlen := h.length_le
  have hadd := checkedAdd_of_lt 64 leaves.length 2 (by omega)
  unfold insertTwoLeaves
  simp only [EStateM.run_bind, EStateM.run_get, h.levels_eq, h.nextIndex_eq,
    h.currentRootIndex_eq, checkedShl64_of_le h.levels_le, Contract.okOr_some, EStateM.run_pure]
  rw [Contract.failIf_neg (by simpa using h.even), hadd]
  simp only [Contract.okOr_some, EStateM.run_pure]
  rw [Contract.failIf_pos (by omega)]
  rfl

/-- The ring buffer after one more root. -/
theorem root_eq_push {more : List Fr} (h : Represents levels leaves s)
    (hmore : (leaves ++ more).length = leaves.length + 2) (i : Nat) (v : U256) :
    Function.update s.root ((leaves.length / 2 % rootHistorySize + 1) % rootHistorySize)
        (some (treeRoot levels (leaves ++ more)).toU256) i = some v ↔
      ∃ j ≤ (leaves ++ more).length / 2, (leaves ++ more).length / 2 < j + rootHistorySize ∧
        i = j % rootHistorySize ∧ v = (prefixRoot levels (leaves ++ more) j).toU256 := by
  have heven := h.even
  have hhalf : (leaves ++ more).length / 2 = leaves.length / 2 + 1 := by omega
  have hslot : (leaves.length / 2 % rootHistorySize + 1) % rootHistorySize =
      (leaves.length / 2 + 1) % rootHistorySize := by
    unfold rootHistorySize
    omega
  have hlast : prefixRoot levels (leaves ++ more) (leaves.length / 2 + 1) =
      treeRoot levels (leaves ++ more) := by
    rw [← hhalf, prefixRoot_length (by omega)]
  rw [hslot, hhalf]
  by_cases hi : i = (leaves.length / 2 + 1) % rootHistorySize
  · subst hi
    rw [Function.update_self, Option.some.injEq]
    constructor
    · rintro rfl
      exact ⟨leaves.length / 2 + 1, le_rfl, by simp [rootHistorySize], rfl, by rw [hlast]⟩
    · rintro ⟨j, hj, hwin, hmod, rfl⟩
      -- the window is as long as the buffer, so only the newest root has this slot
      obtain rfl : j = leaves.length / 2 + 1 := by
        unfold rootHistorySize at *
        omega
      rw [hlast]
  · rw [Function.update_of_ne hi, h.root_eq]
    constructor
    · rintro ⟨j, hj, hwin, rfl, rfl⟩
      refine ⟨j, by omega, ?_, rfl, by rw [prefixRoot_append hj]⟩
      unfold rootHistorySize at *
      omega
    · rintro ⟨j, hj, hwin, rfl, rfl⟩
      have hj' : j ≤ leaves.length / 2 := by
        by_contra hgt
        exact hi (by rw [show j = leaves.length / 2 + 1 by omega])
      refine ⟨j, hj', ?_, rfl, by rw [prefixRoot_append hj']⟩
      unfold rootHistorySize at *
      omega

/-- **One insertion.** While there is room, two leaves are appended, their indices are
returned, and the storage represents the longer list. -/
theorem insertTwoLeaves_room (h : Represents levels leaves s)
    (hroom : leaves.length + 2 ≤ 2 ^ levels) (leaf1 leaf2 : Fr) :
    ∃ s', (insertTwoLeaves leaf1.toU256 leaf2.toU256).run s =
        .ok (leaves.length, leaves.length + 1) s' ∧
      Represents levels (leaves ++ [leaf1, leaf2]) s' := by
  have hlen := h.length_le
  have heven := h.even
  have hmax : (2 : Nat) ^ levels ≤ 2 ^ 32 := Nat.pow_le_pow_right (by omega) h.levels_le
  have hpos := h.levels_pos
  obtain ⟨filled, hfilled, hfrontier⟩ := h.filled_eq
  have hmore : (leaves ++ [leaf1, leaf2]).length = leaves.length + 2 := by simp
  -- the two leaves are the next node of level 1, the last one with leaves
  have hnode : poseidon2Compress leaf1 leaf2 =
      node poseidon2Compress (padded zeroLeaf (leaves ++ [leaf1, leaf2])) 1
        (leaves.length / 2) := by
    rw [node_succ, node_zero, node_zero, show 2 * (leaves.length / 2) = leaves.length by omega]
    unfold padded
    rw [List.getD_append_right _ _ _ _ le_rfl, List.getD_append_right _ _ _ _ (by omega)]
    simp
  have hfrontier' : Frontier poseidon2Compress (padded zeroLeaf (leaves ++ [leaf1, leaf2]))
      (levels - 1) 1 (leaves.length / 2) filled := hfrontier.append (by omega)
  have hright : EmptyRight poseidon2Compress zeroNode
      (padded zeroLeaf (leaves ++ [leaf1, leaf2])) (levels - 1) 1 (leaves.length / 2) := by
    rw [show zeroNode = constNode poseidon2Compress zeroLeaf from funext zeroNode_eq_constNode]
    exact emptyRight_padded (by omega)
  obtain ⟨fs, hpath, hfs⟩ := updatePath_carry (levels + 1) (levels - 1) 1
    (leaves.length / 2) (poseidon2Compress leaf1 leaf2) filled s (by omega) (fun k hk => hfilled k (by omega)) (fun k hk => h.zeroes_eq k (by omega))
  have hroot : (carry poseidon2Compress zeroNode (levels - 1) 1 (leaves.length / 2)
      (poseidon2Compress leaf1 leaf2) filled).1 = treeRoot levels (leaves ++ [leaf1, leaf2]) := by
    have htop : leaves.length / 2 < 2 ^ (levels - 1) := by
      rw [Nat.div_lt_iff_lt_mul (by omega), ← pow_succ, Nat.sub_add_cancel hpos]
      omega
    rw [hnode, carry_fst _ hfrontier' hright, Nat.div_eq_of_lt htop,
      show 1 + (levels - 1) = levels by omega]
    rfl
  refine ⟨{ s with
    filledSubtree := fs
    root := Function.update s.root ((leaves.length / 2 % rootHistorySize + 1) % rootHistorySize)
      (some (treeRoot levels (leaves ++ [leaf1, leaf2])).toU256)
    currentRootIndex := some ((leaves.length / 2 % rootHistorySize + 1) % rootHistorySize)
    nextIndex := some (leaves.length + 2) }, ?_, ?_⟩
  · have hidx : checkedAdd 32 (leaves.length / 2 % rootHistorySize) 1 =
        some (leaves.length / 2 % rootHistorySize + 1) :=
      checkedAdd_of_lt _ _ _ (by unfold rootHistorySize; omega)
    have hadd := checkedAdd_of_lt 64 leaves.length 2 (by omega)
    have hadd' := checkedAdd_of_lt 64 leaves.length 1 (by omega)
    unfold insertTwoLeaves toU32
    simp only [EStateM.run_bind, EStateM.run_get, h.levels_eq, h.nextIndex_eq,
      h.currentRootIndex_eq, checkedShl64_of_le h.levels_le, Contract.okOr_some,
      EStateM.run_pure]
    rw [Contract.failIf_neg (by simpa using heven), hadd]
    simp only [Contract.okOr_some, EStateM.run_pure]
    rw [Contract.failIf_neg (by omega), Nat.shiftRight_one]
    simp only [EStateM.run_pure, contractCompress_toU256, hpath, hidx, hadd',
      Contract.okOr_some, EStateM.run_modify]
    rw [if_pos (by omega), if_pos (by omega), hroot]
    simp only [EStateM.run_pure, h.levels_eq]
  · refine ⟨hpos, h.levels_le, by omega, by omega, h.levels_eq, by rw [hmore], ?_,
      h.zeroes_eq, ?_, fun i v => root_eq_push h hmore i v⟩
    · have hslot : (leaves.length / 2 % rootHistorySize + 1) % rootHistorySize =
          (leaves.length + 2) / 2 % rootHistorySize := by
        unfold rootHistorySize
        omega
      rw [hmore, hslot]
    · refine ⟨_, fun l hl => hfs l (by omega), ?_⟩
      rw [hmore, show (leaves.length + 2) / 2 = leaves.length / 2 + 1 by omega, hnode]
      exact carry_frontier hfrontier' hright

/-- **Inversion of an insertion.** A call that succeeds had room for two canonical leaves. -/
theorem insertTwoLeaves_ok (h : Represents levels leaves s) {leaf1 leaf2 : U256}
    {idx : Nat × Nat} {s' : MerkleStorage}
    (hrun : (insertTwoLeaves leaf1 leaf2).run s = .ok idx s') :
    Represents levels (leaves ++ [leaf1.toFr, leaf2.toFr]) s' := by
  have hroom : leaves.length + 2 ≤ 2 ^ levels := by
    by_contra hfull
    rw [insertTwoLeaves_full h (not_le.mp hfull)] at hrun
    cases hrun
  have hcanonical : leaf1.val < bn256Modulus ∧ leaf2.val < bn256Modulus := by
    obtain ⟨_, -, h1⟩ := Contract.okOr_bind_ok (Contract.get_bind_ok hrun)
    obtain ⟨_, -, h2⟩ := Contract.okOr_bind_ok h1
    obtain ⟨_, -, h3⟩ := Contract.okOr_bind_ok h2
    obtain ⟨_, -, h4⟩ := Contract.okOr_bind_ok h3
    obtain ⟨_, -, h5⟩ := Contract.okOr_bind_ok (Contract.failIf_bind_ok h4).2
    obtain ⟨_, _, hhash, -⟩ := Contract.bind_ok (Contract.failIf_bind_ok h5).2
    exact contractCompress_ok hhash
  obtain ⟨s₁, hrun₁, hrep⟩ := insertTwoLeaves_room h hroom leaf1.toFr leaf2.toFr
  rw [U256.toU256_toFr hcanonical.1, U256.toU256_toFr hcanonical.2, hrun] at hrun₁
  cases hrun₁
  exact hrep

/-! ### `is_known_root` -/

theorem searchRoots_hit {root : U256} {c i fuel : Nat} {s : MerkleStorage}
    (hroot : s.root i = some root) : (searchRoots root c (fuel + 1) i).run s = .ok true s := by
  unfold searchRoots
  simp only [EStateM.run_bind, EStateM.run_get]
  rw [if_pos hroot]
  rfl

theorem searchRoots_miss {root : U256} {c i fuel : Nat} {s : MerkleStorage}
    (hi : i < rootHistorySize) (hroot : s.root i ≠ some root) :
    (searchRoots root c (fuel + 1) i).run s =
      if (i + 1) % rootHistorySize = c then .ok false s
      else (searchRoots root c fuel ((i + 1) % rootHistorySize)).run s := by
  have hadd := checkedAdd_of_lt 32 i 1 (by unfold rootHistorySize at hi; omega)
  conv_lhs => unfold searchRoots
  simp only [EStateM.run_bind, EStateM.run_get]
  rw [if_neg hroot, hadd, Contract.okOr_some]
  simp only [EStateM.run_bind, EStateM.run_pure]
  split <;> rfl

/-- The search from the slot `d` places after the current one looks at the rest of the
buffer. -/
theorem searchRoots_run (root : U256) {c : Nat} (hc : c < rootHistorySize) (s : MerkleStorage)
    (fuel : Nat) : ∀ {d : Nat}, d + (fuel + 1) = rootHistorySize →
    ∃ b, (searchRoots root c (fuel + 1) ((c + d) % rootHistorySize)).run s = .ok b s ∧
      (b = true ↔ ∃ e, d ≤ e ∧ e < rootHistorySize ∧
        s.root ((c + e) % rootHistorySize) = some root) := by
  induction fuel with
  | zero =>
      intro d hd
      have hnext : ((c + d) % rootHistorySize + 1) % rootHistorySize = c := by
        unfold rootHistorySize at *
        omega
      by_cases hroot : s.root ((c + d) % rootHistorySize) = some root
      · exact ⟨true, searchRoots_hit hroot,
          fun _ => ⟨d, le_rfl, by omega, hroot⟩, fun _ => rfl⟩
      · rw [searchRoots_miss (Nat.mod_lt _ (by decide)) hroot, if_pos hnext]
        refine ⟨false, rfl, fun h => (by cases h), ?_⟩
        rintro ⟨e, he, he', hroot'⟩
        obtain rfl : e = d := by omega
        exact absurd hroot' hroot
  | succ fuel ih =>
      intro d hd
      have hstep : ((c + d) % rootHistorySize + 1) % rootHistorySize =
          (c + (d + 1)) % rootHistorySize := by
        unfold rootHistorySize
        omega
      have hnext : (c + (d + 1)) % rootHistorySize ≠ c := by
        unfold rootHistorySize at *
        omega
      by_cases hroot : s.root ((c + d) % rootHistorySize) = some root
      · exact ⟨true, searchRoots_hit hroot,
          fun _ => ⟨d, le_rfl, by omega, hroot⟩, fun _ => rfl⟩
      · rw [searchRoots_miss (Nat.mod_lt _ (by decide)) hroot, hstep, if_neg hnext]
        obtain ⟨b, hrun, hb⟩ := ih (d := d + 1) (by omega)
        refine ⟨b, hrun, hb.trans ⟨?_, ?_⟩⟩
        · rintro ⟨e, he, he', hroot'⟩
          exact ⟨e, by omega, he', hroot'⟩
        · rintro ⟨e, he, he', hroot'⟩
          rcases Nat.eq_or_lt_of_le he with rfl | hlt
          · exact absurd hroot' hroot
          · exact ⟨e, hlt, he', hroot'⟩

/-- **The known roots** are the nonzero roots after the last insertions, as many as the
buffer has slots. -/
theorem isKnownRoot_of_represents (h : Represents levels leaves s) (root : U256) :
    ∃ b, (isKnownRoot root).run s = .ok b s ∧
      (b = true ↔ root ≠ 0 ∧ ∃ j ≤ leaves.length / 2,
        leaves.length / 2 < j + rootHistorySize ∧
        root = (prefixRoot levels leaves j).toU256) := by
  unfold isKnownRoot
  by_cases hzero : root = 0
  · rw [if_pos hzero]
    exact ⟨false, rfl, fun hf => (by cases hf), fun hf => absurd hzero hf.1⟩
  · rw [if_neg hzero]
    simp only [EStateM.run_bind, EStateM.run_get, EStateM.run_pure, h.currentRootIndex_eq,
      Contract.okOr_some]
    have hc : leaves.length / 2 % rootHistorySize < rootHistorySize :=
      Nat.mod_lt _ (by decide)
    obtain ⟨b, hrun, hb⟩ := searchRoots_run root hc s 89 (d := 0) rfl
    rw [Nat.add_zero (leaves.length / 2 % rootHistorySize), Nat.mod_eq_of_lt hc] at hrun
    refine ⟨b, hrun, hb.trans ⟨?_, ?_⟩⟩
    · rintro ⟨e, -, he, hroot⟩
      obtain ⟨j, hj, hwin, -, rfl⟩ := (h.root_eq _ _).mp hroot
      exact ⟨hzero, j, hj, hwin, rfl⟩
    · rintro ⟨-, j, hj, hwin, rfl⟩
      -- slot `j` comes `j - k` places after slot `k`, around the ring
      refine ⟨(j + rootHistorySize - leaves.length / 2) % rootHistorySize, Nat.zero_le _,
        Nat.mod_lt _ (by decide), ?_⟩
      refine (h.root_eq _ _).mpr ⟨j, hj, hwin, ?_, rfl⟩
      unfold rootHistorySize at *
      omega

/-- A known root is the root of a prefix of the leaves. -/
theorem isKnownRoot_true {root : U256} {s' : MerkleStorage} (h : Represents levels leaves s)
    (hrun : (isKnownRoot root).run s = .ok true s') :
    s' = s ∧ ∃ j ≤ leaves.length / 2, root = (prefixRoot levels leaves j).toU256 := by
  obtain ⟨b, hrun', hb⟩ := isKnownRoot_of_represents h root
  rw [hrun'] at hrun
  cases hrun
  obtain ⟨-, j, hj, -, hroot⟩ := hb.mp rfl
  exact ⟨rfl, j, hj, hroot⟩

/-! ### The window of roots -/

/-- A call of `insert_two_leaves`, without the indices it returns. -/
def insertPair (call : U256 × U256) : MerkleM Unit := do
  let _ ← insertTwoLeaves call.1 call.2
  pure ()

/-- `init`, then a call of `insert_two_leaves` for each pair. -/
def insertAll (levels : Nat) (calls : List (U256 × U256)) : MerkleM Unit := do
  init levels
  forM calls insertPair

/-- The leaves of a sequence of calls. -/
def callLeaves (calls : List (U256 × U256)) : List Fr :=
  calls.flatMap fun call => [call.1.toFr, call.2.toFr]

/-- The roots of a run, from the root of the empty tree on. -/
def rootSequence (levels : Nat) (calls : List (U256 × U256)) : List U256 :=
  (List.range (calls.length + 1)).map fun k =>
    (treeRoot levels (callLeaves (calls.take k))).toU256

theorem callLeaves_length (calls : List (U256 × U256)) :
    (callLeaves calls).length = 2 * calls.length := by
  induction calls with
  | nil => rfl
  | cons call calls ih =>
      rw [callLeaves, List.flatMap_cons, List.length_append]
      rw [callLeaves] at ih
      simp only [ih, List.length_cons, List.length_nil]
      omega

theorem callLeaves_take (calls : List (U256 × U256)) (k : Nat) :
    (callLeaves calls).take (2 * k) = callLeaves (calls.take k) := by
  induction calls generalizing k with
  | nil => simp [callLeaves]
  | cons call calls ih =>
      cases k with
      | zero => simp [callLeaves]
      | succ k =>
          have ih := ih k
          simp only [callLeaves] at ih
          simp [callLeaves, Nat.mul_succ, ih]

/-- Calls that succeed leave a storage that represents their leaves. -/
theorem insertLoop_represents {calls : List (U256 × U256)} :
    ∀ {leaves : List Fr} {s s' : MerkleStorage}, Represents levels leaves s →
      (forM calls insertPair : MerkleM PUnit).run s = .ok () s' →
      Represents levels (leaves ++ callLeaves calls) s' := by
  induction calls with
  | nil =>
      intro leaves s s' h hrun
      cases hrun
      simpa [callLeaves] using h
  | cons call calls ih =>
      intro leaves s s' h hrun
      rw [List.forM_cons] at hrun
      obtain ⟨_, s₁, hcall, hrest⟩ := Contract.bind_ok hrun
      obtain ⟨idx, s₂, hinsert, hpure⟩ := Contract.bind_ok hcall
      cases hpure
      have hall := ih (insertTwoLeaves_ok h hinsert) hrest
      simpa [callLeaves] using hall

theorem insertAll_represents {levels : Nat} (hpos : 1 ≤ levels) (hle : levels ≤ 32)
    {calls : List (U256 × U256)} {s : MerkleStorage}
    (hrun : (insertAll levels calls).run {} = .ok () s) :
    Represents levels (callLeaves calls) s := by
  unfold insertAll at hrun
  rw [Contract.run_bind_of_ok (init_apply hpos hle)] at hrun
  simpa using insertLoop_represents (init_represents hpos hle) hrun

/-- The last elements of a sequence of values. -/
theorem mem_drop_range_map {α : Type} (f : Nat → α) (n m : Nat) (a : α) :
    a ∈ ((List.range n).map f).drop m ↔ ∃ j, m ≤ j ∧ j < n ∧ f j = a := by
  rw [← List.map_drop, List.mem_map]
  constructor
  · rintro ⟨j, hj, rfl⟩
    rw [List.range_eq_range', List.drop_range', List.mem_range'_1] at hj
    exact ⟨j, by omega, by omega, rfl⟩
  · rintro ⟨j, hm, hn, rfl⟩
    refine ⟨j, ?_, rfl⟩
    rw [List.range_eq_range', List.drop_range', List.mem_range'_1]
    omega

/-- **The root history is a sliding window.** After `init` and any number of successful
insertions, the known roots are the nonzero ones among the last `rootHistorySize` roots of the
run, and the last root is the newest. -/
theorem knownRoots_window {levels : Nat} (hpos : 1 ≤ levels) (hle : levels ≤ 32)
    {calls : List (U256 × U256)} {s : MerkleStorage}
    (hrun : (insertAll levels calls).run {} = .ok () s) :
    (∀ root, ∃ known, (isKnownRoot root).run s = .ok known s ∧
      (known = true ↔ root ≠ 0 ∧ root ∈ (rootSequence levels calls).drop
        (calls.length + 1 - min (calls.length + 1) rootHistorySize))) ∧
    ∃ newest, getLastRoot.run s = .ok newest s ∧
      (rootSequence levels calls).getLast? = some newest := by
  have hrep := insertAll_represents hpos hle hrun
  have hhalf : (callLeaves calls).length / 2 = calls.length := by
    rw [callLeaves_length]
    omega
  constructor
  · intro root
    obtain ⟨known, hknown, hiff⟩ := isKnownRoot_of_represents hrep root
    refine ⟨known, hknown, hiff.trans (and_congr_right fun _ => ?_)⟩
    rw [rootSequence, mem_drop_range_map, hhalf]
    have hwin : ∀ j, calls.length + 1 - min (calls.length + 1) rootHistorySize ≤ j ↔
        calls.length < j + rootHistorySize := by
      unfold rootHistorySize
      omega
    constructor
    · rintro ⟨j, hj, hlast, rfl⟩
      exact ⟨j, (hwin j).mpr hlast, by omega, by rw [prefixRoot, callLeaves_take]⟩
    · rintro ⟨j, hlast, hj, rfl⟩
      exact ⟨j, by omega, (hwin j).mp hlast, by rw [prefixRoot, callLeaves_take]⟩
  · refine ⟨_, getLastRoot_of_represents hrep, ?_⟩
    rw [rootSequence, List.range_succ, List.map_append, List.map_singleton,
      List.getLast?_concat, List.take_length]

/-- A tree of one level that was filled by one call. -/
theorem knownRoots_window_oneCall :
    ∃ s newest, (insertAll 1 [((7 : Fr).toU256, (9 : Fr).toU256)]).run {} = .ok () s ∧
      getLastRoot.run s = .ok newest s ∧
      (rootSequence 1 [((7 : Fr).toU256, (9 : Fr).toU256)]).getLast? = some newest := by
  obtain ⟨s, hinsert, -⟩ :=
    insertTwoLeaves_room (init_represents (le_refl 1) (by decide)) (by decide) 7 9
  have hpair : (insertPair ((7 : Fr).toU256, (9 : Fr).toU256)).run (initialStorage 1) =
      .ok () s := by
    unfold insertPair
    rw [Contract.run_bind_of_ok hinsert]
    rfl
  have hrun : (insertAll 1 [((7 : Fr).toU256, (9 : Fr).toU256)]).run {} = .ok () s := by
    unfold insertAll
    rw [Contract.run_bind_of_ok (init_apply (le_refl 1) (by decide)), List.forM_cons,
      Contract.run_bind_of_ok hpair]
    rfl
  obtain ⟨-, newest, hlast, hget⟩ := knownRoots_window (le_refl 1) (by decide) hrun
  exact ⟨s, newest, hrun, hlast, hget⟩

end PrivatePayments.MerkleWithHistory
