import PrivatePayments.Contracts.AspNonMembership
import PrivatePayments.Lib.SparseTree

/-!
# PrivatePayments.Contracts.AspNonMembershipSound

The nodes in the storage of the contract are the nodes of a canonical sparse Merkle
tree. `Keeps` is the invariant: the root entry is the digest of a canonical tree, and
every subtree of it is stored under its digest. Nodes of older trees may be left in the
storage; they do no harm, since a node is addressed by its content.

`delete_leaf` leaves such nodes when it promotes a leaf: it recomputes the way up with
the sibling taken out, and removes what it finds there instead of the old nodes.
-/

namespace PrivatePayments.AspNonMembership

open SparseTree
open SparseTree.Tree (plug walk Follows subtrees)

/-- The sparse trees of the contract. -/
abbrev KeyTree := Tree Fr Fr

/-- The bits that lead to a key. -/
def keyBit (key : Fr) (i : ℕ) : Bool := key.val.testBit i

/-- The hash call behind a node. -/
def toQuery : Tree.Call Fr Fr Fr → Query
  | .leaf key value => .hash2 key value 1
  | .node left right => .compress left right

/-- The hash of a node. -/
def nodeHash (c : Tree.Call Fr Fr Fr) : Fr := (toQuery c).eval

/-- The root of a tree. -/
def treeRoot (t : KeyTree) : Fr := t.digest nodeHash 0

/-- The hash calls behind a root. -/
def queries (t : KeyTree) : List Query := (t.calls nodeHash 0).map toQuery

/-- The compressed sparse Merkle tree of some entries. -/
def canonicalTree (es : List (Fr × Fr)) : KeyTree := Tree.build keyBit 254 0 es

/-- What is stored for a node. -/
def nodeData : KeyTree → List U256
  | .empty => []
  | .leaf key value => [1, key.toU256, value.toU256]
  | .node left right => [(treeRoot left).toU256, (treeRoot right).toU256]

/-- The tree is stored under its root. -/
def Stored (node : U256 → Option (List U256)) (t : KeyTree) : Prop :=
  node (treeRoot t).toU256 = some (nodeData t)

/-! ## Digests -/

theorem toQuery_injective : Function.Injective toQuery := by
  intro c c' h
  cases c <;> cases c' <;> cases h <;> rfl

theorem keyBit_ext (key key' : Fr) (h : ∀ i < 254, keyBit key i = keyBit key' i) :
    key = key' := by
  refine Fin.ext (Nat.eq_of_testBit_eq fun i => ?_)
  by_cases hi : i < 254
  · exact h i hi
  · have hlt : bn256Modulus ≤ 2 ^ i :=
      le_trans (by decide) (Nat.pow_le_pow_right (by decide) (not_lt.mp hi))
    rw [Nat.testBit_lt_two_pow (lt_of_lt_of_le key.isLt hlt),
      Nat.testBit_lt_two_pow (lt_of_lt_of_le key'.isLt hlt)]

@[simp] theorem treeRoot_empty : treeRoot .empty = 0 := rfl

@[simp] theorem treeRoot_leaf (key value : Fr) :
    treeRoot (.leaf key value) = poseidon2Hash2 key value 1 := rfl

@[simp] theorem treeRoot_node (l r : KeyTree) :
    treeRoot (.node l r) = poseidon2Compress (treeRoot l) (treeRoot r) := rfl

@[simp] theorem queries_empty : queries .empty = [] := rfl

theorem queries_subset_of_mem_subtrees {t w : KeyTree} (h : w ∈ t.subtrees) :
    queries w ⊆ queries t :=
  List.map_subset _ (Tree.calls_subset_of_mem_subtrees h)

section Tracked

variable {S : Set Query} (hS : Set.InjOn Query.eval S) (h0 : ∀ q ∈ S, q.eval ≠ 0)

/-- All the hash calls behind a root are in `S`. -/
def Tracked (S : Set Query) (t : KeyTree) : Prop := ∀ q ∈ queries t, q ∈ S

include hS in
theorem nodeHash_injOn : Set.InjOn nodeHash (Set.preimage toQuery S) :=
  hS.comp toQuery_injective.injOn fun _ h => h

theorem Tracked.calls {t : KeyTree} (h : Tracked S t) :
    ∀ c ∈ t.calls nodeHash 0, c ∈ Set.preimage toQuery S :=
  fun _ hc => h _ (List.mem_map_of_mem hc)

theorem Tracked.of_mem_subtrees {t w : KeyTree} (h : Tracked S t) (hw : w ∈ t.subtrees) :
    Tracked S w := fun q hq => h q (queries_subset_of_mem_subtrees hw hq)

include h0 in
theorem treeRoot_eq_zero {t : KeyTree} (ht : Tracked S t) : treeRoot t = 0 ↔ t = .empty :=
  Tree.digest_eq_zero (S := Set.preimage toQuery S) (fun _ hc => h0 _ hc) ht.calls

include hS h0 in
theorem treeRoot_inj {t u : KeyTree} (ht : Tracked S t) (hu : Tracked S u)
    (h : treeRoot t = treeRoot u) : t = u :=
  Tree.digest_inj (nodeHash_injOn hS) (fun _ hc => h0 _ hc) ht.calls hu.calls h

end Tracked

/-! ## Finding a key -/

theorem splitBitsLoop_eq : ∀ (n k : ℕ),
    splitBitsLoop n k = (List.range n).map fun i => k.testBit i
  | 0, _ => rfl
  | n + 1, k => by
      rw [splitBitsLoop, splitBitsLoop_eq n, List.range_succ_eq_map, List.map_cons, List.map_map]
      refine congrArg₂ List.cons (Nat.testBit_zero k).symm (List.map_congr_left fun i _ => ?_)
      exact (Nat.testBit_succ k i).symm

theorem splitBits_eq (key : U256) : splitBits key = (List.range 256).map fun i => key.val.testBit i :=
  splitBitsLoop_eq 256 key.val

theorem splitBits_getElem? (key : U256) {i : ℕ} (h : i < 256) :
    (splitBits key)[i]? = some (key.val.testBit i) := by
  rw [splitBits_eq, List.getElem?_map, List.getElem?_range h]
  rfl

theorem splitBits_drop {key : U256} {i : ℕ} (h : i < 256) :
    (splitBits key).drop i = key.val.testBit i :: (splitBits key).drop (i + 1) := by
  obtain ⟨hlt, hget⟩ := List.getElem?_eq_some_iff.mp (splitBits_getElem? key h)
  rw [List.drop_eq_getElem_cons hlt, hget]

/-- The siblings of a path. -/
def siblingRoots (p : Path Fr Fr) : List U256 := p.map fun c => (treeRoot c.2).toU256

@[simp] theorem siblingRoots_nil : siblingRoots [] = [] := rfl

@[simp] theorem siblingRoots_cons (b : Bool) (x : KeyTree) (p : Path Fr Fr) :
    siblingRoots ((b, x) :: p) = (treeRoot x).toU256 :: siblingRoots p := rfl

@[simp] theorem siblingRoots_append (p q : Path Fr Fr) :
    siblingRoots (p ++ q) = siblingRoots p ++ siblingRoots q := List.map_append

@[simp] theorem siblingRoots_length (p : Path Fr Fr) : (siblingRoots p).length = p.length :=
  List.length_map _

/-- What a search that ends in a slot returns. -/
def slotResult (key : U256) (siblings : List U256) : KeyTree → FindResult
  | .leaf storedKey storedValue =>
      if storedKey.toU256 = key then
        { found := true, siblings, foundValue := storedValue.toU256, notFoundKey := 0,
          notFoundValue := 0, isOld0 := false }
      else
        { found := false, siblings, foundValue := 0, notFoundKey := storedKey.toU256,
          notFoundValue := storedValue.toU256, isOld0 := false }
  | _ =>
      { found := false, siblings, foundValue := 0, notFoundKey := key, notFoundValue := 0,
        isOld0 := true }

/-- What a search in a tree returns. -/
def findResult (t : KeyTree) (key : U256) : FindResult :=
  slotResult key (siblingRoots (walk key.val.testBit 0 t).1) (walk key.val.testBit 0 t).2

theorem slotResult_cons (key s : U256) (siblings : List U256) (t : KeyTree) :
    { slotResult key siblings t with siblings := s :: (slotResult key siblings t).siblings } =
      slotResult key (s :: siblings) t := by
  cases t with
  | leaf storedKey storedValue =>
    by_cases h : storedKey.toU256 = key <;> simp [slotResult, h]
  | _ => rfl

@[simp] theorem slotResult_siblings (key : U256) (siblings : List U256) (t : KeyTree) :
    (slotResult key siblings t).siblings = siblings := by
  cases t with
  | leaf storedKey storedValue =>
    by_cases h : storedKey.toU256 = key <;> simp [slotResult, h]
  | _ => rfl

section Find

variable {S : Set Query} (hS : Set.InjOn Query.eval S) (h0 : ∀ q ∈ S, q.eval ≠ 0)

theorem Fr.toU256_eq_zero {x : Fr} : x.toU256 = 0 ↔ x = 0 :=
  Fr.toU256_inj (y := 0)

include h0 in
/-- `find_key_internal` walks the tree. -/
theorem findKeyInternal_eq {node : U256 → Option (List U256)} (key : U256) {t : KeyTree} :
    ∀ {n : ℕ}, Tracked S t → (∀ w ∈ t.subtrees, w ≠ .empty → Stored node w) →
      n + (walk key.val.testBit n t).1.length ≤ 256 →
      findKeyInternal node key ((splitBits key).drop n) (treeRoot t).toU256 =
        .ok (slotResult key (siblingRoots (walk key.val.testBit n t).1)
          (walk key.val.testBit n t).2) := by
  induction t with
  | empty =>
    intro n _ _ _
    unfold findKeyInternal
    rfl
  | leaf storedKey storedValue =>
    intro n ht hst _
    have hne := mt (treeRoot_eq_zero h0 ht).mp (by simp)
    have hnode := hst _ (Tree.mem_subtrees_self _) (by simp)
    unfold findKeyInternal
    rw [if_neg (mt Fr.toU256_eq_zero.mp hne), hnode]
    by_cases h : storedKey.toU256 = key
    · simp [nodeData, h, walk, siblingRoots, slotResult]
    · simp [nodeData, h, walk, siblingRoots, slotResult]
  | node l r ihl ihr =>
    intro n ht hst hlen
    have hne := mt (treeRoot_eq_zero h0 ht).mp (by simp)
    have hnode := hst _ (Tree.mem_subtrees_self _) (by simp)
    have hn : n < 256 := by
      unfold walk at hlen
      split at hlen <;> simp only [List.length_cons] at hlen <;> omega
    have hstl : ∀ w ∈ l.subtrees, w ≠ .empty → Stored node w :=
      fun w hw => hst w (by simp [subtrees, hw])
    have hstr : ∀ w ∈ r.subtrees, w ≠ .empty → Stored node w :=
      fun w hw => hst w (by simp [subtrees, hw])
    have htl := ht.of_mem_subtrees (w := l) (by simp [subtrees, Tree.mem_subtrees_self])
    have htr := ht.of_mem_subtrees (w := r) (by simp [subtrees, Tree.mem_subtrees_self])
    unfold findKeyInternal
    rw [if_neg (mt Fr.toU256_eq_zero.mp hne), hnode, splitBits_drop hn]
    unfold walk at hlen ⊢
    cases hb : key.val.testBit n with
    | true =>
      simp only [hb, if_true, List.length_cons] at hlen
      simp only [nodeData, if_true]
      rw [ihr htr hstr (by omega)]
      exact congrArg Except.ok (slotResult_cons key _ _ _)
    | false =>
      simp only [hb, Bool.false_eq_true, if_false, List.length_cons] at hlen
      simp only [nodeData, Bool.false_eq_true, if_false]
      rw [ihl htl hstl (by omega)]
      exact congrArg Except.ok (slotResult_cons key _ _ _)

end Find

/-! ## Writing nodes -/

/-- The storage after a node is set. -/
def putNode (t : KeyTree) (node : U256 → Option (List U256)) : U256 → Option (List U256) :=
  Function.update node (treeRoot t).toU256 (some (nodeData t))

/-- The storage after a node is removed. -/
def dropNode (t : KeyTree) (node : U256 → Option (List U256)) : U256 → Option (List U256) :=
  Function.update node (treeRoot t).toU256 none

theorem stored_putNode_self (t : KeyTree) (node : U256 → Option (List U256)) :
    Stored (putNode t node) t := by
  simp [Stored, putNode]

section Store

variable {S : Set Query} (hS : Set.InjOn Query.eval S) (h0 : ∀ q ∈ S, q.eval ≠ 0)
  {node : U256 → Option (List U256)} {t w : KeyTree}

include hS h0

/-- A node that is set is the only one that changes. -/
theorem stored_putNode (hw : Tracked S w) (ht : Tracked S t) :
    Stored (putNode t node) w ↔ w = t ∨ Stored node w := by
  by_cases he : treeRoot w = treeRoot t
  · have hwt := treeRoot_inj hS h0 hw ht he
    rw [hwt]
    exact iff_of_true (stored_putNode_self t node) (Or.inl rfl)
  · have hne : w ≠ t := fun hwt => he (by rw [hwt])
    rw [Stored, putNode, Function.update_of_ne (mt Fr.toU256_inj.mp he), or_iff_right hne]
    rfl

/-- A node that is removed is the only one that is gone. -/
theorem stored_dropNode (hw : Tracked S w) (ht : Tracked S t) :
    Stored (dropNode t node) w ↔ Stored node w ∧ w ≠ t := by
  by_cases he : treeRoot w = treeRoot t
  · have hwt := treeRoot_inj hS h0 hw ht he
    rw [hwt, Stored, dropNode, Function.update_self]
    simp
  · have hne : w ≠ t := fun hwt => he (by rw [hwt])
    rw [Stored, dropNode, Function.update_of_ne (mt Fr.toU256_inj.mp he), and_iff_left hne]
    rfl

end Store

/-- Every entry is a node under its hash. -/
def Clean (S : Set Query) (node : U256 → Option (List U256)) : Prop :=
  ∀ ⦃hash data⦄, node hash = some data →
    ∃ w, Tracked S w ∧ w ≠ .empty ∧ hash = (treeRoot w).toU256 ∧ data = nodeData w

/-- What a part of a call does to the nodes. -/
structure Rewrites (S : Set Query) (added removed : List KeyTree)
    (node node' : U256 → Option (List U256)) : Prop where
  stored : ∀ w, Tracked S w → (Stored node' w ↔ w ∈ added ∨ Stored node w ∧ w ∉ removed)
  clean : Clean S node → Clean S node'

section Rewrites

variable {S : Set Query} (hS : Set.InjOn Query.eval S) (h0 : ∀ q ∈ S, q.eval ≠ 0)
  {added removed added' removed' : List KeyTree} {node node' node'' : U256 → Option (List U256)}
  {t : KeyTree}

theorem Rewrites.refl (node : U256 → Option (List U256)) : Rewrites S [] [] node node where
  stored w _ := by simp
  clean h := h

include hS h0 in
theorem Rewrites.put (h : Rewrites S added removed node node') (ht : Tracked S t)
    (hne : t ≠ .empty) : Rewrites S (t :: added) removed node (putNode t node') where
  stored w hw := by rw [stored_putNode hS h0 hw ht, h.stored w hw, List.mem_cons, or_assoc]
  clean hclean := by
    intro hash data hdata
    by_cases he : hash = (treeRoot t).toU256
    · rw [he, putNode, Function.update_self] at hdata
      exact ⟨t, ht, hne, he, (Option.some.inj hdata).symm⟩
    · rw [putNode, Function.update_of_ne he] at hdata
      exact h.clean hclean hdata

include hS h0 in
theorem Rewrites.drop (h : Rewrites S added removed node node') (ht : Tracked S t)
    (hnot : t ∉ added) : Rewrites S added (t :: removed) node (dropNode t node') where
  stored w hw := by
    have hkept : w ∈ added → w ≠ t := fun hmem he => hnot (he ▸ hmem)
    rw [stored_dropNode hS h0 hw ht, h.stored w hw, List.mem_cons, not_or]
    tauto
  clean hclean := by
    intro hash data hdata
    by_cases he : hash = (treeRoot t).toU256
    · rw [he, dropNode, Function.update_self] at hdata
      cases hdata
    · rw [dropNode, Function.update_of_ne he] at hdata
      exact h.clean hclean hdata

/-- Two parts after each other, when the second does not remove what the first has added. -/
theorem Rewrites.trans (h : Rewrites S added removed node node')
    (h' : Rewrites S added' removed' node' node'') (hkept : ∀ w ∈ added, w ∉ removed') :
    Rewrites S (added' ++ added) (removed' ++ removed) node node'' where
  stored w hw := by
    have hw' := hkept w
    rw [h'.stored w hw, h.stored w hw, List.mem_append, List.mem_append, not_or]
    tauto
  clean hclean := h'.clean (h.clean hclean)

end Rewrites

theorem treeRoot_graft (b : Bool) (c x : KeyTree) :
    treeRoot (Tree.graft b c x) =
      if b then poseidon2Compress (treeRoot x) (treeRoot c)
      else poseidon2Compress (treeRoot c) (treeRoot x) := by
  cases b
  · exact treeRoot_node c x
  · exact treeRoot_node x c

theorem hashInternal_toU256 (l r : Fr) :
    hashInternal l.toU256 r.toU256 = pure (poseidon2Compress l r).toU256 :=
  contractCompress_toU256 l r

theorem hashInternal_old (b : Bool) (c x : KeyTree) :
    (if b then hashInternal (treeRoot x).toU256 (treeRoot c).toU256
      else hashInternal (treeRoot c).toU256 (treeRoot x).toU256) =
      pure (treeRoot (Tree.graft b c x)).toU256 := by
  rw [treeRoot_graft, hashInternal_toU256, hashInternal_toU256]
  cases b
  · rw [if_neg Bool.false_ne_true, if_neg Bool.false_ne_true]
  · rw [if_pos rfl, if_pos rfl]

theorem hashInternal_new (b : Bool) (c x : KeyTree) :
    hashInternal (if b then (treeRoot x).toU256 else (treeRoot c).toU256)
      (if b then (treeRoot c).toU256 else (treeRoot x).toU256) =
      pure (treeRoot (Tree.graft b c x)).toU256 := by
  rw [← hashInternal_old]
  cases b
  · rw [if_neg Bool.false_ne_true, if_neg Bool.false_ne_true, if_neg Bool.false_ne_true]
  · rw [if_pos rfl, if_pos rfl, if_pos rfl]

theorem nodeData_graft (b : Bool) (c x : KeyTree) :
    nodeData (Tree.graft b c x) =
      [if b then (treeRoot x).toU256 else (treeRoot c).toU256,
        if b then (treeRoot c).toU256 else (treeRoot x).toU256] := by
  cases b <;> rfl

theorem setNode_run (t : KeyTree) (s : AspStorage) :
    (setNode (treeRoot t).toU256 (nodeData t)).run s =
      .ok () { s with node := putNode t s.node } := rfl

theorem removeNode_run (t : KeyTree) (s : AspStorage) :
    (removeNode (treeRoot t).toU256).run s = .ok () { s with node := dropNode t s.node } := rfl

/-! ## The path of a key -/

section Walk

variable {t : KeyTree} {key value : Fr}

theorem walk_length_le (h : t.Canonical keyBit 0) (b : ℕ → Bool) : (walk b 0 t).1.length ≤ 254 :=
  Tree.Canonical.length_le keyBit_ext ((Tree.plug_walk b 0 t).symm ▸ h) (Tree.follows_walk b 0 t)

/-- A key is in the tree exactly when its path ends in its leaf. -/
theorem mem_entries_iff_slot (h : t.Canonical keyBit 0) :
    (key, value) ∈ t.entries ↔ (walk (keyBit key) 0 t).2 = .leaf key value := by
  have hplug := Tree.plug_walk (keyBit key) 0 t
  have hmem := Tree.Canonical.mem_slot (v := value) (fun _ => rfl)
    (hplug.symm ▸ h : (plug (walk (keyBit key) 0 t).1 (walk (keyBit key) 0 t).2).Canonical keyBit 0)
    (Tree.follows_walk (keyBit key) 0 t)
  rw [hplug] at hmem
  rw [hmem]
  cases hslot : (walk (keyBit key) 0 t).2 with
  | node l r => exact absurd hslot Tree.slot_ne_node
  | empty => simp
  | leaf k v => simp [eq_comm]

/-- The path of a key in the tree ends in its leaf. -/
theorem walk_of_mem (h : t.Canonical keyBit 0) (hmem : key ∈ t.keys) :
    ∃ p value, walk (keyBit key) 0 t = (p, .leaf key value) ∧ plug p (.leaf key value) = t ∧
      Follows (keyBit key) 0 p ∧ p.length ≤ 254 := by
  obtain ⟨value, hentry⟩ := Tree.mem_keys.mp hmem
  have hslot := (mem_entries_iff_slot h).mp hentry
  have hplug := Tree.plug_walk (keyBit key) 0 t
  have hf := Tree.follows_walk (keyBit key) 0 t
  have hlen := walk_length_le h (keyBit key)
  rw [hslot] at hplug
  exact ⟨_, value, Prod.ext rfl hslot, hplug, hf, hlen⟩

end Walk

/-- The deepest sibling on the path of a key is never zero. -/
theorem last_root_ne_zero {S : Set Query} (h0 : ∀ q ∈ S, q.eval ≠ 0) {t : KeyTree}
    (hcan : t.Canonical keyBit 0) (ht : Tracked S t) (key : Fr) :
    ∀ c, (walk (keyBit key) 0 t).1.getLast? = some c → treeRoot c.2 ≠ 0 := by
  have hplug := Tree.plug_walk (keyBit key) 0 t
  rcases hw : walk (keyBit key) 0 t with ⟨p, slot⟩
  rw [hw] at hplug
  dsimp only at hplug ⊢
  intro c hc he
  have hmem : c.2 ∈ t.subtrees := hplug ▸ Tree.mem_subtrees_plug.mpr
    (Or.inr (Or.inr ⟨c, List.mem_of_getLast? hc, Tree.mem_subtrees_self c.2⟩))
  have hempty := (treeRoot_eq_zero h0 (ht.of_mem_subtrees hmem)).mp he
  rw [← hplug, ← List.dropLast_append_getLast? c hc] at hcan
  have h2 := hcan.last_sibling
  rw [hempty] at h2
  cases slot with
  | node l r => exact absurd hw Tree.walk_ne_node
  | _ => simp at h2

/-! ## The invariant -/

/-- The storage holds a canonical tree. -/
structure Keeps (S : Set Query) (s : AspStorage) (t : KeyTree) : Prop where
  admin : ∃ admin, s.admin = some admin
  root : s.root = some (treeRoot t).toU256
  canonical : t.Canonical keyBit 0
  tracked : Tracked S t
  stored : ∀ w ∈ t.subtrees, w ≠ .empty → Stored s.node w

section Keeps

variable {S : Set Query} (hS : Set.InjOn Query.eval S) (h0 : ∀ q ∈ S, q.eval ≠ 0)
  {s : AspStorage} {t : KeyTree} {key value : Fr}

include h0 in
theorem Keeps.find (h : Keeps S s t) (key : U256) :
    findKeyInternal s.node key (splitBits key) (s.root.getD 0) = .ok (findResult t key) := by
  have hlen := walk_length_le h.canonical key.val.testBit
  have hfind := findKeyInternal_eq h0 key (n := 0) h.tracked h.stored (by omega)
  rw [List.drop_zero] at hfind
  rw [h.root]
  exact hfind

include h0 in
/-- `find_key` succeeds for every key. -/
theorem Keeps.findKey (h : Keeps S s t) (key : U256) :
    (AspNonMembership.findKey key).run s = .ok (findResult t key) s := by
  unfold AspNonMembership.findKey
  rw [EStateM.run_bind, EStateM.run_get]
  dsimp only
  rw [h.find h0 key]
  rfl

end Keeps

theorem hashLeaf_toU256 (key value : Fr) :
    hashLeaf key.toU256 value.toU256 = pure (treeRoot (.leaf key value)).toU256 :=
  contractHash2_toU256 key value 1

end PrivatePayments.AspNonMembership
