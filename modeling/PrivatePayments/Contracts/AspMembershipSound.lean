import PrivatePayments.Contracts.AspMembership
import PrivatePayments.Prover.Merkle

/-!
# PrivatePayments.Contracts.AspMembershipSound

The membership tree is the plain one. `Represents levels leaves s` says what the storage
holds after the leaves have been inserted; the constructor establishes it and `insert_leaf`
maintains it, whatever stale entries the filled subtrees hold. So the root on chain is the
root of the tree that a client rebuilds from the leaves.
-/

namespace PrivatePayments.AspMembership

open PerfectTree
open MerkleWithHistory (zeroLeaf zeroNode_eq_constNode treeRoot checkedAdd_of_lt
  checkedShl64_of_le)

/-- The events after some insertions: each has its index and the root of its prefix. -/
def leafEvents (levels : Nat) (leaves : List Fr) : List LeafAddedEvent :=
  leaves.mapIdx fun k leaf =>
    ⟨leaf.toU256, k, (treeRoot levels (leaves.take (k + 1))).toU256⟩

/-- The storage after `leaves` have been inserted into a tree of `levels` levels. -/
structure Represents (levels : Nat) (leaves : List Fr) (s : MembershipStorage) : Prop where
  levels_pos : 1 ≤ levels
  levels_le : levels ≤ 32
  fits : leaves.length ≤ 2 ^ levels
  admin_isSome : s.admin.isSome
  levels_eq : s.levels = some levels
  nextIndex_eq : s.nextIndex = some leaves.length
  zeroes_eq : ∀ l ≤ levels, s.zeroes l = some (zeroNode l).toU256
  filled_eq : ∃ filled : Nat → Fr,
    (∀ l ≤ levels, s.filledSubtrees l = some (filled l).toU256) ∧
    Frontier poseidon2Compress (padded zeroLeaf leaves) levels 0 leaves.length filled
  root_eq : s.root = some (treeRoot levels leaves).toU256
  events_eq : s.events = leafEvents levels leaves

theorem leafEvents_append (levels : Nat) (leaves : List Fr) (leaf : Fr) :
    leafEvents levels (leaves ++ [leaf]) = leafEvents levels leaves ++
      [⟨leaf.toU256, leaves.length, (treeRoot levels (leaves ++ [leaf])).toU256⟩] := by
  unfold leafEvents
  rw [List.mapIdx_append]
  congr 1
  · refine List.mapIdx_eq_mapIdx_iff.mpr fun k hk => ?_
    rw [List.take_append_of_le_length (by omega)]
  · rw [List.mapIdx_singleton, Nat.zero_add, List.take_of_length_le (by simp)]

/-! ### The constructor -/

/-- The levels that the loop of the constructor has written. -/
theorem initLevels_apply (n : Nat) : ∀ (l : Nat) (s : MembershipStorage), l + n ≤ 33 →
    (forM (List.range' l n) initLevel : MembershipM PUnit).run s = .ok () { s with
      filledSubtrees := fun i => if l ≤ i ∧ i < l + n then some (zeroNode i).toU256
        else s.filledSubtrees i
      zeroes := fun i => if l ≤ i ∧ i < l + n then some (zeroNode i).toU256
        else s.zeroes i } := by
  induction n with
  | zero =>
      intro l s _
      have hnone : ∀ i, ¬ (l ≤ i ∧ i < l + 0) := fun i hi => by omega
      simp only [hnone, if_false]
      rfl
  | succ n ih =>
      intro l s hl
      have hhead : (initLevel l).run s = .ok () { s with
          filledSubtrees := Function.update s.filledSubtrees l (some (zeroNode l).toU256)
          zeroes := Function.update s.zeroes l (some (zeroNode l).toU256) } := by
        unfold initLevel
        rw [getZeroes_getElem? (i := l) (by omega), Contract.okOr_some]
        rfl
      rw [List.range'_succ, List.forM_cons, Contract.run_bind_of_ok hhead, ih (l + 1) _ (by omega)]
      simp only [MerkleWithHistory.zeroes_update]

/-- The storage that the constructor leaves behind. -/
def deployed (admin : Address) (levels : Nat) : MembershipStorage where
  admin := some admin
  filledSubtrees := fun i => if i < levels + 1 then some (zeroNode i).toU256 else none
  zeroes := fun i => if i < levels + 1 then some (zeroNode i).toU256 else none
  levels := some levels
  nextIndex := some 0
  root := some (zeroNode levels).toU256
  adminInsertOnly := some true

theorem constructor_apply {levels : Nat} (hpos : 1 ≤ levels) (hle : levels ≤ 32)
    (admin : Address) : (constructor admin levels).run {} = .ok () (deployed admin levels) := by
  unfold constructor
  rw [Contract.failIf_neg (by omega), getZeroes_getElem? hle]
  simp only [Contract.okOr_some, EStateM.run_bind, EStateM.run_pure, EStateM.run_modify,
    List.range_eq_range', List.forM_eq_forM]
  rw [initLevels_apply (levels + 1) 0 _ (by omega)]
  simp only [Nat.zero_le, true_and, Nat.zero_add]
  rfl

theorem deployed_represents {levels : Nat} (hpos : 1 ≤ levels) (hle : levels ≤ 32)
    (admin : Address) : Represents levels [] (deployed admin levels) where
  levels_pos := hpos
  levels_le := hle
  fits := Nat.zero_le _
  admin_isSome := rfl
  levels_eq := rfl
  nextIndex_eq := rfl
  zeroes_eq := fun l hl => if_pos (by omega)
  filled_eq := ⟨zeroNode, fun l hl => if_pos (by omega), fun k _ hk => by simp at hk⟩
  root_eq := by
    have hempty : treeRoot levels [] = zeroNode levels := by
      rw [treeRoot, root, zeroNode_eq_constNode]
      exact node_padded_of_le _ (Nat.zero_le _)
    rw [hempty]
    rfl
  events_eq := rfl

/-! ### `insert_leaf` -/

/-- The loop computes `carry`. Below `bound`, the filled subtrees before and after it are
the siblings that `carry` is given and returns; the other entries stay. -/
theorem updatePath_carry (bound n : Nat) : ∀ (l i : Nat) (cur : Fr) (filled : Nat → Fr)
    (s : MembershipStorage), l + n ≤ bound →
    (∀ k < bound, s.filledSubtrees k = some (filled k).toU256) →
    (∀ k < bound, s.zeroes k = some (zeroNode k).toU256) →
    ∃ fs, (updatePath (List.range' l n) i cur.toU256).run s =
        .ok (carry poseidon2Compress zeroNode n l i cur filled).1.toU256
          { s with filledSubtrees := fs } ∧
      ∀ k < bound,
        fs k = some ((carry poseidon2Compress zeroNode n l i cur filled).2 k).toU256 := by
  induction n with
  | zero =>
      intro l i cur filled s _ hf _
      exact ⟨s.filledSubtrees, rfl, hf⟩
  | succ n ih =>
      intro l i cur filled s hl hf hz
      rw [List.range'_succ]
      unfold updatePath carry
      rw [Nat.and_one_is_mod, Nat.shiftRight_one]
      simp only [EStateM.run_bind, EStateM.run_get]
      by_cases hi : i % 2 = 1
      · rw [if_pos hi, if_pos hi, hf l (by omega), Contract.okOr_some]
        simp only [EStateM.run_bind, EStateM.run_pure, contractCompress_toU256]
        exact ih _ _ _ _ _ (by omega) hf hz
      · rw [if_neg hi, if_neg hi, hz l (by omega), Contract.okOr_some]
        simp only [EStateM.run_bind, EStateM.run_pure, EStateM.run_modify,
          contractCompress_toU256]
        refine ih _ _ _ _ { s with filledSubtrees := _ } (by omega) ?_ hz
        intro k hk
        by_cases hkl : k = l
        · subst hkl
          simp
        · simpa [Function.update_of_ne hkl] using hf k hk

variable {levels : Nat} {leaves : List Fr} {s : MembershipStorage}

theorem Represents.length_le (h : Represents levels leaves s) : leaves.length ≤ 2 ^ 32 :=
  le_trans h.fits (Nat.pow_le_pow_right (by omega) h.levels_le)

/-- Whether the admin has signed where the mode asks for it. -/
def Permits (s : MembershipStorage) (authorised : Bool) : Prop :=
  s.adminInsertOnly.getD true = true → authorised = true

theorem checkInsertAuth_run (h : Represents levels leaves s) {authorised : Bool}
    (hauth : Permits s authorised) : (checkInsertAuth authorised).run s = .ok () s := by
  obtain ⟨admin, hadmin⟩ := Option.isSome_iff_exists.mp h.admin_isSome
  unfold checkInsertAuth
  by_cases hmode : s.adminInsertOnly.getD true = true
  · simp only [EStateM.run_bind, EStateM.run_get, hmode, if_true, hadmin, Contract.okOr_some,
      EStateM.run_pure, hauth hmode, Contract.requireAuth_true]
  · simp only [EStateM.run_bind, EStateM.run_get, hmode]
    rfl

/-- What `insert_leaf` does once it is permitted. -/
theorem insertLeaf_run (h : Represents levels leaves s) {authorised : Bool}
    (hauth : Permits s authorised) (leaf : U256) :
    (insertLeaf authorised leaf).run s =
      ((do
        Contract.failIf (leaves.length ≥ 2 ^ levels) .merkleTreeFull
        let currentHash ← updatePath (List.range levels) leaves.length leaf
        modify fun s => { s with root := some currentHash }
        modify fun s =>
          { s with events := s.events ++ [⟨leaf, leaves.length, currentHash⟩] }
        modify fun s => { s with nextIndex := some (leaves.length + 1) } :
        MembershipM Unit).run s) := by
  have hlen := h.length_le
  unfold insertLeaf
  rw [Contract.run_bind_of_ok (checkInsertAuth_run h hauth)]
  simp only [EStateM.run_bind, EStateM.run_get, h.levels_eq, h.nextIndex_eq,
    checkedShl64_of_le h.levels_le, Contract.okOr_some, EStateM.run_pure,
    checkedAdd_of_lt 64 leaves.length 1 (by omega)]

/-- A full tree refuses every leaf, before it has written anything. -/
theorem insertLeaf_full (h : Represents levels leaves s) {authorised : Bool}
    (hauth : Permits s authorised) (hfull : 2 ^ levels ≤ leaves.length) (leaf : U256) :
    (insertLeaf authorised leaf).run s = .error (.error .merkleTreeFull) s := by
  rw [insertLeaf_run h hauth, Contract.failIf_pos hfull]
  rfl

/-- **One insertion.** While there is room, a leaf is appended and announced with its index
and the new root. -/
theorem insertLeaf_room (h : Represents levels leaves s) {authorised : Bool}
    (hauth : Permits s authorised) (hroom : leaves.length < 2 ^ levels) (leaf : Fr) :
    ∃ s', (insertLeaf authorised leaf.toU256).run s = .ok () s' ∧
      Represents levels (leaves ++ [leaf]) s' := by
  obtain ⟨filled, hfilled, hfrontier⟩ := h.filled_eq
  have hnode : leaf = node poseidon2Compress (padded zeroLeaf (leaves ++ [leaf])) 0
      leaves.length := by
    simp [padded]
  have hfrontier' : Frontier poseidon2Compress (padded zeroLeaf (leaves ++ [leaf])) levels 0
      leaves.length filled := hfrontier.append (by omega)
  have hright : EmptyRight poseidon2Compress zeroNode (padded zeroLeaf (leaves ++ [leaf])) levels
      0 leaves.length := by
    rw [show zeroNode = constNode poseidon2Compress zeroLeaf from funext zeroNode_eq_constNode]
    exact emptyRight_padded (by simp)
  obtain ⟨fs, hpath, hfs⟩ := updatePath_carry (levels + 1) levels 0 leaves.length leaf filled s
    (by omega) (fun k hk => hfilled k (by omega)) (fun k hk => h.zeroes_eq k (by omega))
  have hroot : (carry poseidon2Compress zeroNode levels 0 leaves.length leaf filled).1 =
      treeRoot levels (leaves ++ [leaf]) := by
    have hfst := carry_fst levels hfrontier' hright
    rw [← hnode, Nat.div_eq_of_lt hroom, Nat.zero_add] at hfst
    exact hfst
  have hcarry := carry_frontier hfrontier' hright
  rw [← hnode] at hcarry
  refine ⟨{ s with
    filledSubtrees := fs
    root := some (treeRoot levels (leaves ++ [leaf])).toU256
    events := s.events ++
      [⟨leaf.toU256, leaves.length, (treeRoot levels (leaves ++ [leaf])).toU256⟩]
    nextIndex := some (leaves.length + 1) }, ?_, ?_⟩
  · rw [insertLeaf_run h hauth, Contract.failIf_neg (by omega), List.range_eq_range']
    simp only [EStateM.run_bind, EStateM.run_pure, EStateM.run_modify, hpath, hroot]
  · refine ⟨h.levels_pos, h.levels_le, by simpa using Nat.succ_le_of_lt hroom, h.admin_isSome,
      h.levels_eq, by simp, h.zeroes_eq, ⟨_, fun l hl => hfs l (by omega), ?_⟩, rfl, ?_⟩
    · rw [List.length_append, List.length_singleton]
      exact hcarry
    · rw [leafEvents_append, ← h.events_eq]

theorem updatePath_notCanonical {leaf : U256} (hleaf : bn256Modulus ≤ leaf.val)
    {filled zero : Fr} (hfilled : s.filledSubtrees 0 = some filled.toU256)
    (hzero : s.zeroes 0 = some zero.toU256) (lvls : List Nat) (i : Nat) :
    ∃ s', (updatePath (0 :: lvls) i leaf).run s = .error .trap s' := by
  unfold updatePath
  by_cases hi : i &&& 1 = 1
  · simp only [EStateM.run_bind, EStateM.run_get, if_pos hi, hfilled, Contract.okOr_some,
      EStateM.run_pure, contractCompress_trap (Or.inr hleaf), Contract.run_throw]
    exact ⟨s, rfl⟩
  · simp only [EStateM.run_bind, EStateM.run_get, if_neg hi, hzero, Contract.okOr_some,
      EStateM.run_pure, EStateM.run_modify, contractCompress_trap (Or.inl hleaf),
      Contract.run_throw]
    exact ⟨_, rfl⟩

/-- A leaf that is not canonical makes the first compression panic. -/
theorem insertLeaf_notCanonical (h : Represents levels leaves s) {authorised : Bool}
    (hauth : Permits s authorised) (hroom : leaves.length < 2 ^ levels) {leaf : U256}
    (hleaf : bn256Modulus ≤ leaf.val) :
    ∃ s', (insertLeaf authorised leaf).run s = .error .trap s' := by
  obtain ⟨filled, hfilled, -⟩ := h.filled_eq
  obtain ⟨n, rfl⟩ : ∃ n, levels = n + 1 := ⟨levels - 1, by have := h.levels_pos; omega⟩
  obtain ⟨s', hpath⟩ := updatePath_notCanonical hleaf (hfilled 0 (by omega))
    (h.zeroes_eq 0 (by omega)) (List.range' 1 n) leaves.length
  rw [insertLeaf_run h hauth, Contract.failIf_neg (by omega), pure_bind, List.range_eq_range',
    List.range'_succ, Contract.run_bind_of_error hpath]
  exact ⟨s', rfl⟩

/-! ### Runs -/

/-- The storages that calls lead to, with the leaves that `insert_leaf` was called with. A
call that fails leaves the storage as it was; every `insert_leaf` is permitted. -/
inductive Reaches (admin : Address) (levels : Nat) : List U256 → MembershipStorage → Prop
  | deploy {s : MembershipStorage} (h : (constructor admin levels).run {} = .ok () s) :
      Reaches admin levels [] s
  | insertLeaf {calls : List U256} {s : MembershipStorage} (h : Reaches admin levels calls s)
      {authorised : Bool} (hauth : Permits s authorised) (leaf : U256) :
      Reaches admin levels (calls ++ [leaf])
        (Contract.invoke (AspMembership.insertLeaf authorised leaf) s).2
  | setAdminInsertOnly {calls : List U256} {s : MembershipStorage}
      (h : Reaches admin levels calls s) (authorised adminOnly : Bool) :
      Reaches admin levels calls
        (Contract.invoke (AspMembership.setAdminInsertOnly authorised adminOnly) s).2
  | updateAdmin {calls : List U256} {s : MembershipStorage} (h : Reaches admin levels calls s)
      (authorised : Bool) (newAdmin : Address) :
      Reaches admin levels calls
        (Contract.invoke (AspMembership.updateAdmin authorised newAdmin) s).2

/-- The leaves that calls insert: the canonical ones, while there is room. -/
def insertedLeaves (levels : Nat) (calls : List U256) : List Fr :=
  ((calls.filter fun leaf => leaf.val < bn256Modulus).map U256.toFr).take (2 ^ levels)

theorem insertedLeaves_append_of_le {calls : List U256} {leaf : U256}
    (hleaf : bn256Modulus ≤ leaf.val) :
    insertedLeaves levels (calls ++ [leaf]) = insertedLeaves levels calls := by
  unfold insertedLeaves
  rw [List.filter_append, List.filter_singleton, decide_eq_false (by omega)]
  simp

theorem insertedLeaves_append_of_full {calls : List U256} (leaf : U256)
    (hfull : 2 ^ levels ≤ (insertedLeaves levels calls).length) :
    insertedLeaves levels (calls ++ [leaf]) = insertedLeaves levels calls := by
  unfold insertedLeaves at hfull ⊢
  rw [List.length_take] at hfull
  rw [List.filter_append, List.map_append, List.take_append_of_le_length (by omega)]

theorem insertedLeaves_append_of_room {calls : List U256} {leaf : U256}
    (hleaf : leaf.val < bn256Modulus)
    (hroom : (insertedLeaves levels calls).length < 2 ^ levels) :
    insertedLeaves levels (calls ++ [leaf]) = insertedLeaves levels calls ++ [leaf.toFr] := by
  unfold insertedLeaves at hroom ⊢
  rw [List.length_take, List.length_map] at hroom
  rw [List.filter_append, List.filter_singleton, decide_eq_true hleaf, List.map_append,
    List.take_of_length_le (by simp; omega),
    List.take_of_length_le (by rw [List.length_map]; omega)]
  rfl

/-- A change of the admin or of the mode keeps the tree. -/
theorem Represents.settings (h : Represents levels leaves s) {admin : Option Address}
    (hadmin : admin.isSome) (mode : Option Bool) :
    Represents levels leaves { s with admin := admin, adminInsertOnly := mode } :=
  ⟨h.levels_pos, h.levels_le, h.fits, hadmin, h.levels_eq, h.nextIndex_eq, h.zeroes_eq,
    h.filled_eq, h.root_eq, h.events_eq⟩

theorem setAdminInsertOnly_represents (h : Represents levels leaves s)
    (authorised adminOnly : Bool) :
    Represents levels leaves
      (Contract.invoke (setAdminInsertOnly authorised adminOnly) s).2 := by
  obtain ⟨admin, hadmin⟩ := Option.isSome_iff_exists.mp h.admin_isSome
  unfold setAdminInsertOnly Contract.invoke
  simp only [EStateM.run_bind, EStateM.run_get, hadmin, Contract.okOr_some, EStateM.run_pure]
  cases authorised with
  | false => exact h
  | true => exact h.settings h.admin_isSome _

theorem updateAdmin_represents (h : Represents levels leaves s) (authorised : Bool)
    (newAdmin : Address) :
    Represents levels leaves (Contract.invoke (updateAdmin authorised newAdmin) s).2 := by
  have hadmin : ¬ s.admin.isNone := by simpa [Option.isSome_iff_ne_none] using h.admin_isSome
  unfold updateAdmin Contract.invoke
  rw [EStateM.run_bind]
  simp only [EStateM.run_get]
  rw [Contract.failIf_neg hadmin]
  cases authorised with
  | false => exact h
  | true => exact h.settings rfl _

/-- What a run has inserted. -/
theorem Reaches.represents (hpos : 1 ≤ levels) (hle : levels ≤ 32) {admin : Address}
    {calls : List U256} (h : Reaches admin levels calls s) :
    Represents levels (insertedLeaves levels calls) s := by
  induction h with
  | deploy h =>
      rw [constructor_apply hpos hle] at h
      cases h
      simpa [insertedLeaves] using deployed_represents hpos hle admin
  | @insertLeaf calls s _ authorised hauth leaf ih =>
      by_cases hfull : 2 ^ levels ≤ (insertedLeaves levels calls).length
      · rw [insertedLeaves_append_of_full leaf hfull,
          Contract.invoke_of_error (insertLeaf_full ih hauth hfull leaf)]
        exact ih
      · have hroom := not_le.mp hfull
        by_cases hleaf : leaf.val < bn256Modulus
        · obtain ⟨s', hrun, hrep⟩ := insertLeaf_room ih hauth hroom leaf.toFr
          rw [U256.toU256_toFr hleaf] at hrun
          rw [insertedLeaves_append_of_room hleaf hroom, Contract.invoke_of_ok hrun]
          exact hrep
        · obtain ⟨s', hrun⟩ := insertLeaf_notCanonical ih hauth hroom (not_lt.mp hleaf)
          rw [insertedLeaves_append_of_le (not_lt.mp hleaf), Contract.invoke_of_error hrun]
          exact ih
  | setAdminInsertOnly _ authorised adminOnly ih =>
      exact setAdminInsertOnly_represents ih authorised adminOnly
  | updateAdmin _ authorised newAdmin ih => exact updateAdmin_represents ih authorised newAdmin

theorem insertedLeaves_length (levels : Nat) (calls : List U256) :
    (insertedLeaves levels calls).length =
      min (2 ^ levels) (calls.countP fun leaf => leaf.val < bn256Modulus) := by
  rw [insertedLeaves, List.length_take, List.length_map, List.countP_eq_length_filter]

/-- **The membership tree agrees with its reconstruction.** In every run of permitted calls,
the root on chain is the root of the plain tree over the inserted leaves and the root of the
client's tree over them, and event number `k` has the index `k` and the root after it. A call
with a canonical leaf succeeds if fewer than `2 ^ levels` such calls came before it; a call
with another leaf panics; and a full tree answers `MerkleTreeFull` with the storage
unchanged. -/
theorem insertLeaf_agrees (hpos : 1 ≤ levels) (hle : levels ≤ 32) {admin : Address}
    {calls : List U256} (h : Reaches admin levels calls s) :
    getRoot.run s = .ok (root poseidon2Compress
      (padded (zeroNode 0) (insertedLeaves levels calls)) levels).toU256 s ∧
    (∃ t, Prover.MerklePrefixTree.new levels (insertedLeaves levels calls) = .ok t ∧
      t.root = .ok (root poseidon2Compress
        (padded (zeroNode 0) (insertedLeaves levels calls)) levels)) ∧
    s.nextIndex = some (insertedLeaves levels calls).length ∧
    s.events = leafEvents levels (insertedLeaves levels calls) ∧
    ∀ authorised leaf, Permits s authorised →
      ((calls.countP fun leaf => leaf.val < bn256Modulus) < 2 ^ levels →
        (leaf.val < bn256Modulus → ∃ s', (insertLeaf authorised leaf).run s = .ok () s') ∧
        (bn256Modulus ≤ leaf.val →
          Contract.invoke (insertLeaf authorised leaf) s = (.error .trap, s))) ∧
      (2 ^ levels ≤ (calls.countP fun leaf => leaf.val < bn256Modulus) →
        (insertLeaf authorised leaf).run s = .error (.error .merkleTreeFull) s) := by
  have hrep := h.represents hpos hle
  have hlen := insertedLeaves_length levels calls
  refine ⟨?_, ?_, hrep.nextIndex_eq, hrep.events_eq, ?_⟩
  · unfold getRoot
    simp only [EStateM.run_bind, EStateM.run_get, hrep.root_eq, Contract.okOr_some]
    rfl
  · obtain ⟨t, hnew, hdepth, hleaves, hempty⟩ :=
      Prover.MerklePrefixTree.new_ok hpos hle (insertedLeaves levels calls)
    rw [← hdepth] at hempty
    refine ⟨t, hnew, ?_⟩
    rw [Prover.MerklePrefixTree.root_eq hempty, hdepth, hleaves]
    rfl
  · intro authorised leaf hauth
    refine ⟨fun hroom => ⟨fun hleaf => ?_, fun hleaf => ?_⟩, fun hfull => ?_⟩
    · obtain ⟨s', hrun, -⟩ := insertLeaf_room hrep hauth (by omega) leaf.toFr
      rw [U256.toU256_toFr hleaf] at hrun
      exact ⟨s', hrun⟩
    · obtain ⟨s', hrun⟩ := insertLeaf_notCanonical hrep hauth (by omega) hleaf
      exact Contract.invoke_of_error hrun
    · exact insertLeaf_full hrep hauth (by omega) leaf

/-- The first insertion into a tree of one level. -/
theorem insertLeaf_agrees_first :
    ∃ s', (insertLeaf true (Fr.toU256 7)).run (deployed 0 1) = .ok () s' := by
  have hdeploy : Reaches 0 1 [] (deployed 0 1) :=
    .deploy (constructor_apply (le_refl 1) (by decide) 0)
  exact (((insertLeaf_agrees (le_refl 1) (by decide) hdeploy).2.2.2.2 true (Fr.toU256 7)
    (fun _ => rfl)).1 (by decide)).1 (by decide)

/-- The number `p` is a leaf that the first call of a run refuses. -/
theorem insertLeaf_refuses_modulus :
    ¬ ∀ {admin : Address} {levels : Nat} {calls : List U256} {s : MembershipStorage},
      1 ≤ levels → levels ≤ 32 → Reaches admin levels calls s → calls.length < 2 ^ levels →
      ∀ authorised leaf, Permits s authorised →
        ∃ s', (insertLeaf authorised leaf).run s = .ok () s' := by
  intro hall
  have hrep := deployed_represents (le_refl 1) (by decide) 0
  obtain ⟨s', hok⟩ := hall (le_refl 1) (by decide)
    (.deploy (constructor_apply (le_refl 1) (by decide) 0)) (by decide) true
    ⟨bn256Modulus, by decide⟩ (fun _ => rfl)
  have hpermits : Permits (deployed 0 1) true := fun _ => rfl
  have hleaf : bn256Modulus ≤ (⟨bn256Modulus, by decide⟩ : U256).val := le_refl _
  obtain ⟨s'', htrap⟩ := insertLeaf_notCanonical hrep hpermits (by decide) hleaf
  rw [htrap] at hok
  cases hok

end PrivatePayments.AspMembership
