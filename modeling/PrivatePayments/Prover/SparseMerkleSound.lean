import PrivatePayments.Prover.SparseMerkle
import PrivatePayments.Contracts.AspNonMembershipMap

/-!
# PrivatePayments.Prover.SparseMerkleSound

The tree of the client follows the tree of the contract. Both keep the nodes of one canonical
tree; the client never removes a node, so that its database may hold more.
-/

namespace PrivatePayments.Prover.SparseMerkle

open SparseTree
open SparseTree.Tree (plug walk Follows spine subtrees fork)
open AspNonMembership (Address Agrees AspStorage Call KeyMap KeyTree deployed entriesAfter keyBit treeRoot canonicalTree Tracked commonPrefix commonBits
  insertPath insertTree siblingRoots slotResult)

/-! ## Bits and bytes -/

theorem fieldToKey_inj {x y : Fr} : fieldToKey x = fieldToKey y ↔ x = y := by
  refine ⟨fun h => ?_, congrArg fieldToKey⟩
  have hscalar := congrArg scalarOf h
  rwa [fieldToKey, fieldToKey, scalarOf_scalarToBytes, scalarOf_scalarToBytes] at hscalar

theorem map_testBit_limb (v i : ℕ) :
    (List.range 64).map (v / 2 ^ (64 * i) % 2 ^ 64).testBit =
      (List.range 64).map fun j => v.testBit (64 * i + j) := by
  refine List.map_congr_left fun j hj => ?_
  rw [Nat.testBit_mod_two_pow, decide_eq_true (List.mem_range.mp hj), Bool.true_and,
    Nat.testBit_div_two_pow, Nat.add_comm]

/-- The bits of the limbs one after the other are the bits of the number. -/
theorem fieldToBits_eq (field : Fr) :
    fieldToBits field = (List.range 256).map fun i => keyBit field i := by
  have hrange : List.range 256 = (List.range 4).flatMap fun i =>
      (List.range 64).map fun j => 64 * i + j := by decide +kernel
  have hlimbs : ((limbs field.val).flatMap fun limb => (List.range 64).map limb.testBit) =
      (List.range 256).map fun i => keyBit field i := by
    unfold limbs
    rw [List.flatMap_map, hrange, List.map_flatMap]
    simp only [map_testBit_limb, List.map_map]
    rfl
  unfold fieldToBits
  rw [hlimbs, List.take_of_length_le]
  rw [List.length_map, List.length_range]

theorem fieldToBits_getElem? (field : Fr) {i : ℕ} (h : i < 256) :
    (fieldToBits field)[i]? = some (keyBit field i) := by
  rw [fieldToBits_eq, List.getElem?_map, List.getElem?_range h]
  rfl

theorem fieldToBits_drop (field : Fr) {i : ℕ} (h : i < 256) :
    (fieldToBits field).drop i = keyBit field i :: (fieldToBits field).drop (i + 1) := by
  have hlen : i < (fieldToBits field).length := by simpa [fieldToBits_eq] using h
  rw [List.drop_eq_getElem_cons hlen]
  congr 1
  have hget := fieldToBits_getElem? field h
  rw [List.getElem?_eq_getElem hlen, Option.some.injEq] at hget
  exact hget

theorem fieldToBits_splitBits (field : Fr) :
    fieldToBits field = AspNonMembership.splitBits field.toU256 := by
  rw [fieldToBits_eq, AspNonMembership.splitBits_eq]
  rfl

/-! ## Nodes -/

/-- The node of a tree. -/
def nodeOf : KeyTree → Node
  | .empty => .empty
  | .leaf key value => .leaf key value
  | .node l r => .internal (treeRoot l) (treeRoot r)

/-- The database holds the node of a tree. -/
def Stored (db : NodeDb) (t : KeyTree) : Prop := db (fieldToKey (treeRoot t)) = some (nodeOf t)

/-- The tree of the client is a given one: it has the root, and all nodes are there. -/
structure Holds (tree : SparseMerkleTree) (t : KeyTree) : Prop where
  root : tree.root = treeRoot t
  stored : ∀ w ∈ t.subtrees, w ≠ .empty → Stored tree.db w

/-- The roots beside a path. -/
def pathRoots (p : Path Fr Fr) : List Fr := p.map fun c => treeRoot c.2

/-- What a search that ends in a slot returns. -/
def slotAnswer (key : Fr) (siblings : List Fr) : KeyTree → FindResult
  | .leaf leafKey leafValue =>
      if leafKey = key then
        { found := true, siblings, foundValue := leafValue, notFoundKey := 0, notFoundValue := 0,
          isOld0 := false }
      else
        { found := false, siblings, foundValue := 0, notFoundKey := leafKey,
          notFoundValue := leafValue, isOld0 := false }
  | _ => { emptyResult key with siblings }

/-- An answer in the numbers of the contract. -/
def FindResult.toContract (r : FindResult) : AspNonMembership.FindResult where
  found := r.found
  siblings := r.siblings.map Fr.toU256
  foundValue := r.foundValue.toU256
  notFoundKey := r.notFoundKey.toU256
  notFoundValue := r.notFoundValue.toU256
  isOld0 := r.isOld0

theorem slotAnswer_with_siblings (key : Fr) (siblings siblings' : List Fr) (slot : KeyTree) :
    { slotAnswer key siblings slot with siblings := siblings' } = slotAnswer key siblings' slot := by
  cases slot with
  | leaf leafKey leafValue => by_cases h : leafKey = key <;> simp [slotAnswer, h]
  | empty => rfl
  | node l r => rfl

@[simp] theorem slotAnswer_siblings (key : Fr) (siblings : List Fr) (slot : KeyTree) :
    (slotAnswer key siblings slot).siblings = siblings := by
  cases slot with
  | leaf leafKey leafValue => by_cases h : leafKey = key <;> simp [slotAnswer, h]
  | empty => rfl
  | node l r => rfl

theorem toContract_slotAnswer (key : Fr) (siblings : List Fr) (slot : KeyTree) :
    (slotAnswer key siblings slot).toContract =
      slotResult key.toU256 (siblings.map Fr.toU256) slot := by
  cases slot with
  | leaf leafKey leafValue =>
      by_cases h : leafKey = key
      · simp [slotAnswer, slotResult, FindResult.toContract, h]
        rfl
      · have hu : leafKey.toU256 ≠ key.toU256 := mt Fr.toU256_inj.mp h
        simp [slotAnswer, slotResult, FindResult.toContract, h, hu]
        rfl
  | empty => rfl
  | node l r => rfl

section Nodes

variable {S : Set Query} (hS : Set.InjOn Query.eval S) (h0 : ∀ q ∈ S, q.eval ≠ 0)
  {db : NodeDb} {t w : KeyTree}

include h0

theorem getNode_eq (ht : Tracked S t) (hne : t ≠ .empty) (h : Stored db t) :
    getNode db (treeRoot t) = some (nodeOf t) := by
  rw [getNode, if_neg (mt (AspNonMembership.treeRoot_eq_zero h0 ht).mp hne)]
  exact h

theorem stored_putNode_self (ht : Tracked S t) (hne : t ≠ .empty) :
    Stored (putNode db (treeRoot t) (nodeOf t)) t := by
  rw [Stored, putNode, if_pos (mt (AspNonMembership.treeRoot_eq_zero h0 ht).mp hne),
    Function.update_self]

include hS in
/-- Writing a node does not change the others. -/
theorem Stored.put (h : Stored db w) (hw : Tracked S w) (ht : Tracked S t) (hne : t ≠ .empty) :
    Stored (putNode db (treeRoot t) (nodeOf t)) w := by
  by_cases he : treeRoot w = treeRoot t
  · rw [AspNonMembership.treeRoot_inj hS h0 hw ht he]
    exact stored_putNode_self h0 ht hne
  · rw [Stored, putNode, if_pos (mt (AspNonMembership.treeRoot_eq_zero h0 ht).mp hne),
      Function.update_of_ne (mt fieldToKey_inj.mp he)]
    exact h

/-- `find_internal` walks the tree. -/
theorem findInternal_eq (key : Fr) {t : KeyTree} :
    ∀ {n : ℕ}, Tracked S t → (∀ w ∈ t.subtrees, w ≠ .empty → Stored db w) →
      n + (walk (keyBit key) n t).1.length < 256 →
      findInternal db key ((fieldToBits key).drop n) (treeRoot t) =
        .ok (slotAnswer key (pathRoots (walk (keyBit key) n t).1).reverse
          (walk (keyBit key) n t).2) := by
  induction t with
  | empty =>
      intro n _ _ hlen
      rw [fieldToBits_drop key (Nat.lt_of_le_of_lt (Nat.le_add_right _ _) hlen)]
      rfl
  | leaf leafKey leafValue =>
      intro n ht hst hlen
      have hne := mt (AspNonMembership.treeRoot_eq_zero h0 ht).mp (by simp)
      have hnode := getNode_eq h0 ht (by simp) (hst _ (Tree.mem_subtrees_self _) (by simp))
      rw [fieldToBits_drop key (Nat.lt_of_le_of_lt (Nat.le_add_right _ _) hlen), findInternal,
        if_neg hne, hnode]
      by_cases h : leafKey = key <;> simp [nodeOf, walk, slotAnswer, pathRoots, h]
  | node l r ihl ihr =>
      intro n ht hst hlen
      have hne := mt (AspNonMembership.treeRoot_eq_zero h0 ht).mp (by simp)
      have hnode := getNode_eq h0 ht (by simp) (hst _ (Tree.mem_subtrees_self _) (by simp))
      have hstl : ∀ w ∈ l.subtrees, w ≠ .empty → Stored db w :=
        fun w hw => hst w (by simp [subtrees, hw])
      have hstr : ∀ w ∈ r.subtrees, w ≠ .empty → Stored db w :=
        fun w hw => hst w (by simp [subtrees, hw])
      have htl := ht.of_mem_subtrees (w := l) (by simp [subtrees, Tree.mem_subtrees_self])
      have htr := ht.of_mem_subtrees (w := r) (by simp [subtrees, Tree.mem_subtrees_self])
      rw [fieldToBits_drop key (Nat.lt_of_le_of_lt (Nat.le_add_right _ _) hlen), findInternal,
        if_neg hne, hnode]
      unfold walk at hlen ⊢
      cases hb : keyBit key n with
      | true =>
          simp only [hb, if_true, List.length_cons] at hlen
          simp only [nodeOf, if_true]
          rw [ihr htr hstr (by omega), ok_bind, slotAnswer_with_siblings]
          simp [pathRoots]
      | false =>
          simp only [hb, Bool.false_eq_true, if_false, List.length_cons] at hlen
          simp only [nodeOf, Bool.false_eq_true, if_false]
          rw [ihl htl hstl (by omega), ok_bind, slotAnswer_with_siblings]
          simp [pathRoots]

/-- `find` in a tree that the client holds. -/
theorem Holds.find {tree : SparseMerkleTree} (h : Holds tree t) (hcan : t.Canonical keyBit 0)
    (ht : Tracked S t) (key : Fr) :
    tree.find key = .ok (slotAnswer key (pathRoots (walk (keyBit key) 0 t).1)
      (walk (keyBit key) 0 t).2) := by
  have hlen := AspNonMembership.walk_length_le hcan (keyBit key)
  have hfind := findInternal_eq h0 key (n := 0) ht h.stored (by omega)
  rw [List.drop_zero] at hfind
  unfold SparseMerkleTree.find
  rw [h.root, hfind, ok_bind, slotAnswer_siblings, List.reverse_reverse, slotAnswer_with_siblings]

end Nodes

/-! ## The insertion -/

theorem extendSiblings_eq : ∀ (oldKeyBits keyBits : List Bool) (siblings : List Fr),
    extendSiblings oldKeyBits keyBits siblings =
      siblings ++ List.replicate (commonPrefix oldKeyBits keyBits) 0
  | [], _, siblings => by simp [extendSiblings, commonPrefix]
  | _ :: _, [], siblings => by simp [extendSiblings, commonPrefix]
  | oldBit :: oldKeyBits, bit :: keyBits, siblings => by
      unfold extendSiblings commonPrefix
      by_cases h : oldBit = bit
      · rw [if_pos h, if_pos h, extendSiblings_eq oldKeyBits keyBits, List.append_assoc,
          List.replicate_succ]
        rfl
      · rw [if_neg h, if_neg h, List.replicate_zero, List.append_nil]

theorem pathRoots_append (p q : Path Fr Fr) : pathRoots (p ++ q) = pathRoots p ++ pathRoots q :=
  List.map_append

@[simp] theorem pathRoots_length (p : Path Fr Fr) : (pathRoots p).length = p.length :=
  List.length_map _

theorem pathRoots_fork (b : ℕ → Bool) (old : KeyTree) : ∀ n m,
    pathRoots (fork b old n m) = List.replicate m 0 ++ [treeRoot old]
  | _, 0 => rfl
  | n, m + 1 => by
      have ih := pathRoots_fork b old (n + 1) m
      rw [fork, List.replicate_succ, List.cons_append, ← ih]
      rfl

section Insert

variable {S : Set Query} (hS : Set.InjOn Query.eval S) (h0 : ∀ q ∈ S, q.eval ≠ 0)
  {db : NodeDb} {t slot : KeyTree} {p : Path Fr Fr} {key value : Fr}

/-- The siblings of the new leaf are those that the contract computes. -/
theorem insertSiblings_eq (hw : walk (keyBit key) 0 t = (p, slot)) (habsent : key ∉ t.keys) :
    insertSiblings (fieldToBits key) (slotAnswer key (pathRoots p) slot) =
      pathRoots (insertPath t key) := by
  unfold insertPath
  rw [hw]
  cases slot with
  | node l r => exact absurd hw Tree.walk_ne_node
  | empty => rfl
  | leaf oldKey oldValue =>
      have hne : oldKey ≠ key := Tree.ne_of_walk_leaf hw habsent
      dsimp only
      rw [slotAnswer, if_neg hne, insertSiblings, pathRoots_append, pathRoots_fork]
      simp only [Bool.false_eq_true, if_false, pathRoots_length, extendSiblings_eq,
        fieldToBits_splitBits, List.append_assoc]
      rfl

theorem follows_insertPath (t : KeyTree) (key : Fr) :
    Follows (keyBit key) 0 (insertPath t key) := by
  have hf := Tree.follows_walk (keyBit key) 0 t
  unfold insertPath
  rcases hw : walk (keyBit key) 0 t with ⟨p, slot⟩
  rw [hw] at hf
  cases slot with
  | leaf oldKey oldValue =>
      refine Tree.follows_append.mpr ⟨hf, ?_⟩
      rw [Nat.zero_add]
      exact Tree.follows_fork _ _ _ _
  | empty => exact hf
  | node l r => exact hf

theorem insertPath_length_le (hcan : t.Canonical keyBit 0) (habsent : key ∉ t.keys) :
    (insertPath t key).length ≤ 256 := by
  have hplug := Tree.plug_walk (keyBit key) 0 t
  have hf := Tree.follows_walk (keyBit key) 0 t
  have hlen := AspNonMembership.walk_length_le hcan (keyBit key)
  unfold insertPath
  rcases hw : walk (keyBit key) 0 t with ⟨p, slot⟩
  rw [hw] at hplug hf hlen
  dsimp only at hplug hf hlen ⊢
  cases slot with
  | empty => exact le_trans hlen (by decide)
  | node l r => exact le_trans hlen (by decide)
  | leaf oldKey oldValue =>
      have hne : oldKey ≠ key := Tree.ne_of_walk_leaf hw habsent
      rw [← hplug] at hcan
      have hlt := AspNonMembership.commonBits_lt hne fun i (hi : i < p.length) => by
        have := hcan.along hf oldKey (by simp) i hi
        rwa [Nat.zero_add] at this
      rw [List.length_append, Tree.length_fork]
      omega

/-- What the insertion of an absent key returns. -/
def insertResult (t : KeyTree) (key value : Fr) : SMTResult :=
  let find := slotAnswer key (pathRoots (walk (keyBit key) 0 t).1) (walk (keyBit key) 0 t).2
  { oldRoot := treeRoot t, newRoot := treeRoot (insertTree t key value),
    siblings := trimSiblings find.isOld0 (pathRoots (insertPath t key)),
    oldKey := find.notFoundKey, oldValue := find.notFoundValue, newKey := key,
    newValue := value, isOld0 := find.isOld0 }

/-- `insert`, from what its search and its loop return. -/
theorem insert_eq {tree : SparseMerkleTree} {find : FindResult} {root : Fr}
    (hfind : tree.find key = .ok find) (hfound : find.found = false)
    (hrun : (insertSiblings (fieldToBits key) find).zipIdx.foldrM (buildStep (fieldToBits key))
      (poseidon2HashLeaf key value,
        putNode tree.db (poseidon2HashLeaf key value) (.leaf key value)) = .ok (root, db)) :
    tree.insert key value = .ok
      ({ oldRoot := tree.root, newRoot := root,
         siblings := trimSiblings find.isOld0 (insertSiblings (fieldToBits key) find),
         oldKey := find.notFoundKey, oldValue := find.notFoundValue, newKey := key,
         newValue := value, isOld0 := find.isOld0 }, { db, root }) := by
  unfold SparseMerkleTree.insert
  rw [hfind, ok_bind, if_neg (by rw [hfound]; decide)]
  dsimp only
  rw [hrun, ok_bind]

include hS h0

/-- The loop that builds the path writes the nodes on it, and the others stay. -/
theorem buildPath_eq (db : NodeDb) (new : KeyTree) : ∀ {p : Path Fr Fr} {n : ℕ}, Follows (keyBit key) n p →
    n + p.length ≤ 256 → (∀ w ∈ spine p new, Tracked S w) →
    ∃ db', ((pathRoots p).zipIdx n).foldrM (buildStep (fieldToBits key)) (treeRoot new, db) =
        .ok (treeRoot (plug p new), db') ∧
      ∀ w, Tracked S w → w ∈ spine p new ∨ Stored db w → Stored db' w
  | [], n, _, _, _ => ⟨db, rfl, fun w _ hw => hw.resolve_left (by simp [spine])⟩
  | (c, x) :: p, n, hf, hlen, htr => by
      obtain ⟨rfl, hf⟩ := hf
      rw [List.length_cons] at hlen
      obtain ⟨db', hrun, hdb⟩ := buildPath_eq db new hf (by omega)
        fun w hw => htr w (List.mem_cons_of_mem _ hw)
      have htop := htr _ List.mem_cons_self
      have hne : plug ((keyBit key n, x) :: p) new ≠ .empty := fun he => by
        have hnode := Tree.isNode_graft (keyBit key n) (plug p new) x
        rw [Tree.plug_cons] at he
        rw [he] at hnode
        cases hnode
      refine ⟨putNode db' (treeRoot (plug ((keyBit key n, x) :: p) new))
        (nodeOf (plug ((keyBit key n, x) :: p) new)), ?_, ?_⟩
      · have hcons : (pathRoots ((keyBit key n, x) :: p)).zipIdx n =
            (treeRoot x, n) :: (pathRoots p).zipIdx (n + 1) := rfl
        rw [hcons, List.foldrM_cons, hrun, ok_bind, buildStep]
        dsimp only
        rw [fieldToBits_getElem? key (by omega), Tree.plug_cons]
        cases keyBit key n with
        | true => rfl
        | false => rfl
      · intro w hw hmem
        rcases hmem with hsp | hst
        · rcases List.mem_cons.mp hsp with rfl | hsp
          · exact stored_putNode_self h0 htop hne
          · exact (hdb w hw (Or.inl hsp)).put hS h0 hw htop hne
        · exact (hdb w hw (Or.inr hst)).put hS h0 hw htop hne

/-- `insert` of an absent key: the tree of the client is then the tree with the key. -/
theorem Holds.insert {tree : SparseMerkleTree} (h : Holds tree t) (hcan : t.Canonical keyBit 0)
    (ht : Tracked S t) (habsent : key ∉ t.keys) (htr : Tracked S (insertTree t key value)) :
    ∃ tree', tree.insert key value = .ok (insertResult t key value, tree') ∧
      Holds tree' (insertTree t key value) := by
  have hfind := h.find h0 hcan ht key
  rcases hw : walk (keyBit key) 0 t with ⟨p, slot⟩
  rw [hw] at hfind
  dsimp only at hfind
  have hfound : (slotAnswer key (pathRoots p) slot).found = false := by
    cases slot with
    | empty => rfl
    | node l r => rfl
    | leaf oldKey oldValue =>
        have hne : oldKey ≠ key := Tree.ne_of_walk_leaf hw habsent
        rw [slotAnswer, if_neg hne]
  have hleaf : Tracked S (.leaf key value) :=
    htr.of_mem_subtrees (Tree.mem_subtrees_plug.mpr (Or.inr (Or.inl (by simp [subtrees]))))
  have hlen := insertPath_length_le hcan habsent
  obtain ⟨db, hrun, hdb⟩ := buildPath_eq hS h0
    (putNode tree.db (treeRoot (.leaf key value)) (nodeOf (.leaf key value))) (.leaf key value)
    (follows_insertPath t key) (by omega)
    fun w hwp => htr.of_mem_subtrees (Tree.mem_subtrees_of_mem_spine hwp)
  rw [← insertSiblings_eq hw habsent] at hrun
  have hinsert := insert_eq hfind hfound hrun
  rw [insertSiblings_eq hw habsent, h.root] at hinsert
  unfold insertResult
  rw [hw]
  refine ⟨_, hinsert, rfl, ?_⟩
  intro w hwt hne
  have htw := htr.of_mem_subtrees hwt
  refine hdb w htw ?_
  rcases AspNonMembership.mem_subtrees_insertTree hw hcan hne hwt with hmem | ⟨hmem, -⟩
  · rcases List.mem_append.mp hmem with hsp | hself
    · exact Or.inl hsp
    · rw [List.mem_singleton.mp hself]
      exact Or.inr (stored_putNode_self h0 hleaf (by simp))
  · exact Or.inr ((h.stored w hmem hne).put hS h0 htw hleaf (by simp))

omit hS in
/-- `insert` of a key that is there. -/
theorem Holds.insert_present {tree : SparseMerkleTree} (h : Holds tree t)
    (hcan : t.Canonical keyBit 0) (ht : Tracked S t) (hmem : key ∈ t.keys) (value : Fr) :
    tree.insert key value = .error "Key already exists" := by
  obtain ⟨p, oldValue, hw, -⟩ := AspNonMembership.walk_of_mem hcan hmem
  have hfind := h.find h0 hcan ht key
  rw [hw, slotAnswer, if_pos rfl] at hfind
  unfold SparseMerkleTree.insert
  rw [hfind, ok_bind, if_pos rfl]

end Insert

/-! ## The simulation -/

/-- An insertion as a call of the contract by its administrator. -/
def insertCall (entry : Fr × Fr) : Call := .insertLeaf true entry.1.toU256 entry.2.toU256

theorem insertCall_canonical (entry : Fr × Fr) : (insertCall entry).Canonical :=
  ⟨entry.1.isLt, entry.2.isLt⟩

section Step

variable {S : Set Query} (hS : Set.InjOn Query.eval S) (h0 : ∀ q ∈ S, q.eval ≠ 0)
  {s : AspStorage} {es : List (Fr × Fr)} {m : KeyMap} {tree : SparseMerkleTree}

include h0

/-- The two searches give one answer. -/
theorem find_agrees (h : Agrees S s es m) (hh : Holds tree (canonicalTree es)) (key : Fr) :
    ∃ r, tree.find key = .ok r ∧
      (AspNonMembership.findKey key.toU256).run s = .ok r.toContract s := by
  refine ⟨_, hh.find h0 h.keeps.canonical h.keeps.tracked key, ?_⟩
  rw [h.keeps.findKey h0, toContract_slotAnswer, pathRoots, List.map_map]
  rfl

omit h0 in
/-- The tree after a call that inserts: the key was there, or it is there now. -/
theorem insertCall_cases (h : Agrees S s es m) {entry : Fr × Fr}
    (hq : ∀ q ∈ (insertCall entry).queries es, q ∈ S) :
    (entry.1 ∈ (canonicalTree es).keys ∧ (insertCall entry).entries es = es ∧
        (insertCall entry).succeeds m = false) ∨
      (entry.1 ∉ (canonicalTree es).keys ∧
        Tracked S (insertTree (canonicalTree es) entry.1 entry.2) ∧
        canonicalTree ((insertCall entry).entries es) =
          insertTree (canonicalTree es) entry.1 entry.2 ∧
        (insertCall entry).succeeds m = true) := by
  obtain ⟨key, value⟩ := entry
  have hcall := insertCall_canonical (key, value)
  have hchanges := h.enumerates.changes_eq hcall
  have hmem := h.enumerates.mem_keys hcall.1
  rw [U256.toFr_toU256, ← (h.perm.map Prod.fst).mem_iff] at hmem
  unfold Call.queries at hq
  unfold Call.entries
  rw [hchanges] at hq ⊢
  cases hs : (insertCall (key, value)).succeeds m with
  | true =>
      rw [hs, if_pos rfl] at hq
      have htr : Tracked S (canonicalTree ((insertCall (key, value)).entries es)) :=
        fun q hqm => hq q (List.mem_append_left _ hqm)
      have habsent : m key.toU256 = none := by
        rw [insertCall, Call.succeeds, Bool.true_and, Option.isNone_iff_eq_none] at hs
        exact hs
      have hnot := h.not_mem_keys hcall.1 habsent
      unfold Call.entries at htr
      rw [hchanges, hs] at htr
      simp only [insertCall, if_true, U256.toFr_toU256] at htr hnot ⊢
      have htree := h.canonicalTree_cons hnot value
      rw [htree] at htr
      exact Or.inr ⟨hnot, htr, htree, trivial⟩
  | false =>
      rw [insertCall, Call.succeeds, Bool.true_and, Option.isNone_eq_false_iff] at hs
      exact Or.inl ⟨hmem.mpr hs, rfl, rfl⟩

include hS in
/-- One insertion on each side: the client's succeeds exactly when the map changes, and then
its tree is the contract's. -/
theorem step_agrees (h : Agrees S s es m) (hh : Holds tree (canonicalTree es)) {entry : Fr × Fr}
    (hq : ∀ q ∈ (insertCall entry).queries es, q ∈ S) :
    Holds (tree.step entry) (canonicalTree ((insertCall entry).entries es)) ∧
      ((∃ result, tree.insert entry.1 entry.2 = .ok result) ↔
        (insertCall entry).succeeds m = true) := by
  unfold SparseMerkleTree.step
  rcases insertCall_cases h hq with ⟨hmem, hentries, hs⟩ | ⟨hnot, htr, htree, hs⟩
  · rw [hh.insert_present h0 h.keeps.canonical h.keeps.tracked hmem, hentries, hs]
    exact ⟨hh, iff_of_false (fun ⟨_, he⟩ => by cases he) (by decide)⟩
  · obtain ⟨tree', hrun, hholds⟩ :=
      hh.insert hS h0 h.keeps.canonical h.keeps.tracked hnot htr
    rw [hrun, htree, hs]
    exact ⟨hholds, iff_of_true ⟨_, rfl⟩ rfl⟩

include hS in
/-- A run of insertions on each side. -/
theorem run_agrees (entries : List (Fr × Fr)) : ∀ {s : AspStorage} {es : List (Fr × Fr)}
    {m : KeyMap} {tree : SparseMerkleTree}, Agrees S s es m → Holds tree (canonicalTree es) →
    (∀ q ∈ AspNonMembership.runQueries es (entries.map insertCall), q ∈ S) →
      Agrees S (AspNonMembership.run (entries.map insertCall) s)
        (entriesAfter (entries.map insertCall) es) ((entries.map insertCall).foldl Call.apply m) ∧
      Holds (tree.run entries) (canonicalTree (entriesAfter (entries.map insertCall) es)) := by
  induction entries with
  | nil => exact fun h hh _ => ⟨h, hh⟩
  | cons entry entries ih =>
      intro s es m tree h hh hq
      rw [List.map_cons, AspNonMembership.runQueries] at hq
      have hq' := fun q hqm => hq q (List.mem_append_left _ hqm)
      have hstep := (h.step hS h0 (insertCall_canonical entry) hq').1
      have hholds := (step_agrees hS h0 h hh hq').1
      exact ih hstep hholds fun q hqm => hq q (List.mem_append_right _ hqm)

end Step

theorem new_holds : Holds .new (canonicalTree []) where
  root := rfl
  stored _ hw hne := absurd (List.mem_singleton.mp hw) hne

/-- **The two trees agree.** After every part of a sequence of insertions the roots and all
answers to searches are the same, and the next insertion succeeds on both sides or on none. -/
theorem sparseMerkle_agrees {S : Set Query} (hinj : Set.InjOn Query.eval S)
    (hzero : ∀ q ∈ S, q.eval ≠ 0) (admin : Address) (entries : List (Fr × Fr))
    (hrun : ∀ q ∈ AspNonMembership.runQueries [] (entries.map insertCall), q ∈ S) :
    ∀ before after, entries = before ++ after →
      let tree := SparseMerkleTree.new.run before
      let s := AspNonMembership.run (before.map insertCall) (deployed admin)
      s.root = some tree.root.toU256 ∧
      (∀ key, ∃ r, tree.find key = .ok r ∧
        (AspNonMembership.findKey key.toU256).run s = .ok r.toContract s) ∧
      ∀ entry, after.head? = some entry →
        ((∃ result, tree.insert entry.1 entry.2 = .ok result) ↔
          (Contract.invoke (insertCall entry).body s).1 = .ok ()) := by
  intro before after hentries
  rw [hentries, List.map_append, AspNonMembership.runQueries_append] at hrun
  obtain ⟨h, hh⟩ := run_agrees hinj hzero before
    (AspNonMembership.deployed_agrees S admin) new_holds
    fun q hq => hrun q (List.mem_append_left _ hq)
  refine ⟨by rw [h.keeps.root, hh.root], fun key => find_agrees hzero h hh key, ?_⟩
  intro entry hentry
  obtain ⟨rest, rfl⟩ : ∃ rest, after = entry :: rest := by
    cases after with
    | nil => cases hentry
    | cons e rest => exact ⟨rest, by cases hentry; rfl⟩
  have hq : ∀ q ∈ (insertCall entry).queries
      (entriesAfter (before.map insertCall) []), q ∈ S := fun q hqm =>
    hrun q (List.mem_append_right _ (List.mem_append_left _ hqm))
  rw [(step_agrees hinj hzero h hh hq).2, (h.step hinj hzero (insertCall_canonical entry) hq).2]

/-- Two keys that part at the third bit, and the first of them again. -/
def collidingEntries : List (Fr × Fr) := [(1, 9), (5, 7), (1, 3)]

theorem sparseMerkle_agrees_colliding :
    let tree := SparseMerkleTree.new.run [(1, 9), (5, 7)]
    let s := AspNonMembership.run ([(1, 9), (5, 7)].map insertCall) (deployed 0)
    s.root = some tree.root.toU256 ∧
      ((∃ result, tree.insert 1 3 = .ok result) ↔
        (Contract.invoke (insertCall (1, 3)).body s).1 = .ok ()) := by
  have hinj : ∀ q ∈ AspNonMembership.runQueries [] (collidingEntries.map insertCall),
      ∀ q' ∈ AspNonMembership.runQueries [] (collidingEntries.map insertCall),
      q.eval = q'.eval → q = q' := by decide +kernel
  have hzero : ∀ q ∈ AspNonMembership.runQueries [] (collidingEntries.map insertCall),
      q.eval ≠ 0 := by decide +kernel
  obtain ⟨hroot, -, hnext⟩ := sparseMerkle_agrees (fun q hq q' hq' h => hinj q hq q' hq' h) hzero
    0 collidingEntries (fun q hq => hq) [(1, 9), (5, 7)] [(1, 3)] rfl
  exact ⟨hroot, hnext (1, 3) rfl⟩

end PrivatePayments.Prover.SparseMerkle
