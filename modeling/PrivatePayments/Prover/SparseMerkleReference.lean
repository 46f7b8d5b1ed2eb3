import PrivatePayments.Prover.SparseMerkleSound
import PrivatePayments.Circuits.SparseMerkleTree

/-!
# PrivatePayments.Prover.SparseMerkleReference

What an insertion returns, in the client and in the tree of the circuit tests
(`insert_results_agree_iff`).

Both extend the siblings by a zero for each bit that the two keys have in common and by the leaf
in the way. The tests take that leaf off again and then the zeros; the client tries the zeros
first, which the leaf hides from it, and returns them.
-/

namespace PrivatePayments.SmtReference

open SparseTree
open SparseTree.Tree (plug walk Follows spine subtrees fork)
open AspNonMembership (Address Agrees AspStorage KeyMap KeyTree deployed entriesAfter keyBit treeRoot
  canonicalTree Tracked commonPrefix commonBits insertPath insertTree)
open Prover.SparseMerkle (pathRoots slotAnswer fieldToBits insertCall insertResult)

/-! ## Numbers -/

@[simp] theorem bigIntToFp_val (x : Fr) : bigIntToFp x.val = x :=
  Fin.ext (Nat.mod_eq_of_lt x.isLt)

theorem splitBitsLoop_eq : ∀ n key, splitBitsLoop n key = AspNonMembership.splitBitsLoop n key
  | 0, _ => rfl
  | n + 1, key => by
      rw [splitBitsLoop, AspNonMembership.splitBitsLoop, splitBitsLoop_eq n]

theorem splitBits_val (key : Fr) : splitBits key.val = fieldToBits key := by
  rw [Prover.SparseMerkle.fieldToBits_splitBits]
  exact splitBitsLoop_eq 256 key.val

/-- The root of a tree as a number. -/
def rootNat (t : KeyTree) : ℕ := (treeRoot t).val

/-- What is stored for a node. -/
def record : KeyTree → List ℕ
  | .empty => []
  | .leaf key value => [1, key.val, value.val]
  | .node l r => [rootNat l, rootNat r]

theorem hash3_leaf (key value : Fr) :
    poseidon2Hash3Sparse key.val value.val = rootNat (.leaf key value) := by
  simp [poseidon2Hash3Sparse, rootNat]

theorem compression_graft (b : Bool) (c x : KeyTree) :
    (if b then poseidon2CompressionSparse (rootNat x) (rootNat c)
      else poseidon2CompressionSparse (rootNat c) (rootNat x)) = rootNat (Tree.graft b c x) := by
  cases b <;> simp [poseidon2CompressionSparse, rootNat, Tree.graft]

theorem record_graft (b : Bool) (c x : KeyTree) :
    (if b then [rootNat x, rootNat c] else [rootNat c, rootNat x]) =
      record (Tree.graft b c x) := by
  cases b <;> rfl

/-! ## The database -/

/-- The database holds the record of a tree. -/
def Stored (data : ℕ → Option (List ℕ)) (t : KeyTree) : Prop := data (rootNat t) = some (record t)

/-- The tree of the tests is a given one. -/
structure Holds (tree : SparseMerkleTree) (t : KeyTree) : Prop where
  root : tree.root = rootNat t
  stored : ∀ w ∈ t.subtrees, w ≠ .empty → Stored tree.db.data w

/-- The entry of a tree in `inserts`. -/
def entryOf (t : KeyTree) : ℕ × List ℕ := (rootNat t, record t)

section Database

variable {S : Set Query} (hS : Set.InjOn Query.eval S) (h0 : ∀ q ∈ S, q.eval ≠ 0)

include hS h0

theorem rootNat_inj {t w : KeyTree} (ht : Tracked S t) (hw : Tracked S w) :
    rootNat w = rootNat t ↔ w = t :=
  ⟨fun h => AspNonMembership.treeRoot_inj hS h0 hw ht (Fin.ext h), congrArg rootNat⟩

/-- What is stored after some insertions. -/
theorem stored_multiIns {w : KeyTree} (hw : Tracked S w) (added : List KeyTree) :
    ∀ (db : SMTMemDB), (∀ t ∈ added, Tracked S t) →
      (Stored (db.multiIns (added.map entryOf)).data w ↔ w ∈ added ∨ Stored db.data w) := by
  induction added with
  | nil =>
      intro db _
      simp [SMTMemDB.multiIns]
  | cons t added ih =>
      intro db htr
      obtain ⟨ht, htr⟩ := List.forall_mem_cons.mp htr
      have hrest := ih { db with data := Function.update db.data (rootNat t) (some (record t)) } htr
      have hhead : Stored (Function.update db.data (rootNat t) (some (record t))) w ↔
          w = t ∨ Stored db.data w := by
        by_cases he : w = t
        · rw [he, Stored, Function.update_self]
          simp
        · rw [Stored, Function.update_of_ne (mt (rootNat_inj hS h0 ht hw).mp he), or_iff_right he]
          rfl
      rw [List.mem_cons, or_assoc, or_left_comm, ← hhead]
      exact hrest

/-- What is stored after some deletions. -/
theorem stored_multiDel {w : KeyTree} (hw : Tracked S w) (removed : List KeyTree) :
    ∀ (db : SMTMemDB), (∀ t ∈ removed, Tracked S t) →
      (Stored (db.multiDel (removed.map rootNat)).data w ↔ Stored db.data w ∧ w ∉ removed) := by
  induction removed with
  | nil =>
      intro db _
      simp [SMTMemDB.multiDel]
  | cons t removed ih =>
      intro db htr
      obtain ⟨ht, htr⟩ := List.forall_mem_cons.mp htr
      have hrest := ih { db with data := Function.update db.data (rootNat t) none } htr
      have hhead : Stored (Function.update db.data (rootNat t) none) w ↔
          Stored db.data w ∧ w ≠ t := by
        by_cases he : w = t
        · rw [he, Stored, Function.update_self]
          simp
        · rw [Stored, Function.update_of_ne (mt (rootNat_inj hS h0 ht hw).mp he),
            and_iff_left he]
          rfl
      rw [List.mem_cons, not_or, ← and_assoc, ← hhead]
      exact hrest

end Database

/-! ## The search -/

/-- An answer of the client in the numbers of the tests. -/
def FindResult.ofClient (r : Prover.SparseMerkle.FindResult) : FindResult where
  found := r.found
  siblings := r.siblings.map Fin.val
  foundValue := r.foundValue.val
  notFoundKey := r.notFoundKey.val
  notFoundValue := r.notFoundValue.val
  isOld0 := r.isOld0

/-- A result of the client in the numbers of the tests. -/
def SMTResult.ofClient (r : Prover.SparseMerkle.SMTResult) : SMTResult where
  oldRoot := r.oldRoot.val
  newRoot := r.newRoot.val
  siblings := r.siblings.map Fin.val
  oldKey := r.oldKey.val
  oldValue := r.oldValue.val
  newKey := r.newKey.val
  newValue := r.newValue.val
  isOld0 := r.isOld0

theorem ofClient_cons (key x : Fr) (siblings : List Fr) (slot : KeyTree) :
    { FindResult.ofClient (slotAnswer key siblings slot) with
      siblings := x.val :: (FindResult.ofClient (slotAnswer key siblings slot)).siblings } =
      FindResult.ofClient (slotAnswer key (x :: siblings) slot) := by
  cases slot with
  | leaf leafKey leafValue => by_cases h : leafKey = key <;> simp [FindResult.ofClient, slotAnswer, h]
  | _ => rfl

section Find

variable {S : Set Query} (h0 : ∀ q ∈ S, q.eval ≠ 0)

include h0

theorem rootNat_ne_zero {t : KeyTree} (ht : Tracked S t) (hne : t ≠ .empty) : rootNat t ≠ 0 :=
  fun h => hne ((AspNonMembership.treeRoot_eq_zero h0 ht).mp (Fin.ext h))

/-- `_find` walks the tree. -/
theorem findAt_eq {data : ℕ → Option (List ℕ)} (key : Fr) {t : KeyTree} :
    ∀ {n : ℕ}, Tracked S t → (∀ w ∈ t.subtrees, w ≠ .empty → Stored data w) →
      n + (walk (keyBit key) n t).1.length ≤ 256 →
      findAt data key.val ((fieldToBits key).drop n) (rootNat t) =
        .ok (.ofClient (slotAnswer key (pathRoots (walk (keyBit key) n t).1)
          (walk (keyBit key) n t).2)) := by
  induction t with
  | empty =>
      intro n _ _ _
      unfold findAt
      rfl
  | leaf leafKey leafValue =>
      intro n ht hst _
      have hnode := hst _ (Tree.mem_subtrees_self _) (by simp)
      unfold findAt
      rw [if_neg (rootNat_ne_zero h0 ht (by simp)), hnode]
      by_cases h : leafKey = key
      · simp [record, h, walk, slotAnswer, FindResult.ofClient, pathRoots]
      · have hval : leafKey.val ≠ key.val := mt Fin.ext h
        simp [record, h, hval, walk, slotAnswer, FindResult.ofClient, pathRoots]
  | node l r ihl ihr =>
      intro n ht hst hlen
      have hnode := hst _ (Tree.mem_subtrees_self _) (by simp)
      have hn : n < 256 := by
        unfold walk at hlen
        split at hlen <;> simp only [List.length_cons] at hlen <;> omega
      have hstl : ∀ w ∈ l.subtrees, w ≠ .empty → Stored data w :=
        fun w hw => hst w (by simp [subtrees, hw])
      have hstr : ∀ w ∈ r.subtrees, w ≠ .empty → Stored data w :=
        fun w hw => hst w (by simp [subtrees, hw])
      have htl : Tracked S l := ht.of_mem_subtrees (by simp [subtrees, Tree.mem_subtrees_self])
      have htr : Tracked S r := ht.of_mem_subtrees (by simp [subtrees, Tree.mem_subtrees_self])
      unfold findAt
      rw [if_neg (rootNat_ne_zero h0 ht (by simp)), hnode,
        Prover.SparseMerkle.fieldToBits_drop key hn]
      unfold walk at hlen ⊢
      cases hb : keyBit key n with
      | true =>
          simp only [hb, if_true, List.length_cons] at hlen
          simp only [record, Bool.not_true, Bool.false_eq_true, if_false, if_true]
          rw [ihr htr hstr (by omega)]
          exact congrArg Except.ok (ofClient_cons key (treeRoot l) _ _)
      | false =>
          simp only [hb, Bool.false_eq_true, if_false, List.length_cons] at hlen
          simp only [record, Bool.not_false, Bool.false_eq_true, if_false, if_true]
          rw [ihl htl hstl (by omega)]
          exact congrArg Except.ok (ofClient_cons key (treeRoot r) _ _)

/-- `find` in a tree that the tests hold. -/
theorem Holds.find {tree : SparseMerkleTree} {t : KeyTree} (h : Holds tree t)
    (hcan : t.Canonical keyBit 0) (ht : Tracked S t) (key : Fr) :
    tree.find key.val = .ok (.ofClient (slotAnswer key (pathRoots (walk (keyBit key) 0 t).1)
      (walk (keyBit key) 0 t).2)) := by
  have hlen := AspNonMembership.walk_length_le hcan (keyBit key)
  have hfind := findAt_eq h0 key (n := 0) ht h.stored (by omega)
  rw [List.drop_zero] at hfind
  unfold SparseMerkleTree.find
  rw [h.root, splitBits_val, hfind]

end Find

/-! ## The loop -/

/-- The siblings of a path as numbers. -/
def rootNats (p : Path Fr Fr) : List ℕ := p.map fun c => rootNat c.2

theorem index_eq {α : Type} {list : List α} {i : ℕ} {a : α} (h : list[i]? = some a) :
    index list i = .ok a := by
  rw [index, h]

section Loop

variable {newKeyBits : List Bool} (findSiblings : List ℕ) {len : ℕ} {b : ℕ → Bool}

/-- A round that only builds a new node. -/
theorem insertStep_put {i : ℕ} {d : Bool} (c x : KeyTree) (rtOld : ℕ)
    (inserts : List (ℕ × List ℕ)) (deletes : List ℕ) (hbit : newKeyBits[i]? = some d)
    (hskip : ¬i < len - 1 ∨ x = .empty) :
    insertStep newKeyBits findSiblings len (rootNat x, i)
        ⟨rootNat c, rtOld, false, inserts, deletes⟩ =
      .ok ⟨rootNat (Tree.graft d c x), rtOld, false, inserts ++ [entryOf (Tree.graft d c x)],
        deletes⟩ := by
  have hmixed : (false || (decide (i < len - 1) && rootNat x != 0)) = false := by
    rcases hskip with h | rfl
    · simp [h]
    · simp [rootNat]
  unfold insertStep
  simp only [hmixed, index_eq hbit, Bool.false_eq_true, if_false, bind, Except.bind,
    compression_graft, record_graft, entryOf]

/-- A round that builds a new node and deletes the old one. -/
theorem insertStep_replace {i : ℕ} {d mixed : Bool} (c cOld : KeyTree) {x : KeyTree}
    (inserts : List (ℕ × List ℕ)) (deletes : List ℕ) (hbit : newKeyBits[i]? = some d)
    (hold : findSiblings[i]? = some (rootNat x))
    (hmixed : mixed = true ∨ i < len - 1 ∧ rootNat x ≠ 0) :
    insertStep newKeyBits findSiblings len (rootNat x, i)
        ⟨rootNat c, rootNat cOld, mixed, inserts, deletes⟩ =
      .ok ⟨rootNat (Tree.graft d c x), rootNat (Tree.graft d cOld x), true,
        inserts ++ [entryOf (Tree.graft d c x)],
        deletes ++ [rootNat (Tree.graft d cOld x)]⟩ := by
  have hmixed : (mixed || (decide (i < len - 1) && rootNat x != 0)) = true := by
    rcases hmixed with h | ⟨hi, hx⟩
    · simp [h]
    · simp [hi, hx]
  unfold insertStep deleteOld
  simp only [hmixed, index_eq hbit, index_eq hold, if_true, bind, Except.bind,
    compression_graft, record_graft, entryOf]

/-- The levels below the old path: they only get new nodes. -/
theorem insertLoop_fork (old new : KeyTree) (rtOld : ℕ) (inserts : List (ℕ × List ℕ))
    (deletes : List ℕ) (hbits : ∀ i < len, newKeyBits[i]? = some (b i)) :
    ∀ {m n : ℕ}, n + m + 1 = len →
      ((rootNats (fork b old n m)).zipIdx n).foldrM (insertStep newKeyBits findSiblings len)
          ⟨rootNat new, rtOld, false, inserts, deletes⟩ =
        .ok ⟨rootNat (plug (fork b old n m) new), rtOld, false,
          inserts ++ (spine (fork b old n m) new).reverse.map entryOf, deletes⟩
  | 0, n, hlen => by
      have hone : (rootNats (fork b old n 0)).zipIdx n = [(rootNat old, n)] := rfl
      rw [hone, List.foldrM_cons, List.foldrM_nil, pure_bind]
      exact insertStep_put findSiblings new old rtOld inserts deletes (hbits n (by omega)) (Or.inl (by omega))
  | m + 1, n, hlen => by
      have ih := insertLoop_fork old new rtOld inserts deletes hbits (m := m) (n := n + 1)
        (by omega)
      have hcons : (rootNats (fork b old n (m + 1))).zipIdx n =
          (rootNat .empty, n) :: (rootNats (fork b old (n + 1) m)).zipIdx (n + 1) := rfl
      rw [hcons, List.foldrM_cons, ih]
      simp only [bind, Except.bind]
      rw [insertStep_put _ _ .empty _ _ _ (hbits n (by omega)) (Or.inr rfl)]
      simp [fork, spine]

/-- The levels of the old path: the old node of each level makes way for a new one. -/
theorem insertLoop_path (old new : KeyTree) (mixed : Bool) (inserts : List (ℕ × List ℕ))
    (deletes : List ℕ) (hbits : ∀ i < len, newKeyBits[i]? = some (b i)) :
    ∀ {p : Path Fr Fr} {n : ℕ}, Follows b n p → n + p.length ≤ len →
      (∀ i c, p[i]? = some c → findSiblings[n + i]? = some (rootNat c.2)) →
      (p ≠ [] → mixed = true ∨
        n + p.length < len ∧ ∀ c, p.getLast? = some c → rootNat c.2 ≠ 0) →
      ((rootNats p).zipIdx n).foldrM (insertStep newKeyBits findSiblings len)
          ⟨rootNat new, rootNat old, mixed, inserts, deletes⟩ =
        .ok ⟨rootNat (plug p new), rootNat (plug p old), mixed || !p.isEmpty,
          inserts ++ (spine p new).reverse.map entryOf,
          deletes ++ (spine p old).reverse.map rootNat⟩
  | [], n, _, _, _, _ => by simp [rootNats, spine, pure, Except.pure]
  | (c, x) :: p, n, hf, hlen, hsib, hmix => by
      obtain ⟨rfl, hf⟩ := hf
      have hmix := hmix (List.cons_ne_nil _ _)
      rw [List.length_cons] at hlen hmix
      have ih := insertLoop_path old new mixed inserts deletes hbits hf (by omega)
        (fun i c hi => by
          have := hsib (i + 1) c (by rwa [List.getElem?_cons_succ])
          rwa [← Nat.add_assoc, Nat.add_right_comm] at this)
        (fun _ => hmix.imp_right fun h =>
          ⟨by omega, fun c hc => h.2 c (by rw [List.getLast?_cons, hc]; rfl)⟩)
      have hcons : (rootNats ((b n, x) :: p)).zipIdx n =
          (rootNat x, n) :: (rootNats p).zipIdx (n + 1) := rfl
      have hmixed : (mixed || !p.isEmpty) = true ∨ n < len - 1 ∧ rootNat x ≠ 0 := by
        rcases hmix with h | ⟨hlt, hne⟩
        · exact Or.inl (by rw [h]; rfl)
        · cases p with
          | nil => exact Or.inr ⟨by simp at hlt; omega, hne (b n, x) rfl⟩
          | cons c p => exact Or.inl (by simp)
      rw [hcons, List.foldrM_cons, ih]
      simp only [bind, Except.bind]
      rw [insertStep_replace _ _ _ _ _ (hbits n (by omega)) (hsib 0 (b n, x) rfl) hmixed]
      simp [spine]

end Loop

/-! ## The siblings of a result -/

theorem rootNats_eq (p : Path Fr Fr) : (pathRoots p).map Fin.val = rootNats p := by
  simp [pathRoots, rootNats, rootNat]

theorem rootNats_append (p q : Path Fr Fr) : rootNats (p ++ q) = rootNats p ++ rootNats q :=
  List.map_append

theorem rootNats_fork (b : ℕ → Bool) (old : KeyTree) : ∀ n m,
    rootNats (fork b old n m) = List.replicate m 0 ++ [rootNat old]
  | _, 0 => rfl
  | n, m + 1 => by
      rw [List.replicate_succ, List.cons_append, ← rootNats_fork b old (n + 1) m]
      rfl

theorem extendSiblings_eq : ∀ (oldKeyBits newKeyBits : List Bool) (siblings : List ℕ),
    extendSiblings oldKeyBits newKeyBits siblings =
      siblings ++ List.replicate (commonPrefix oldKeyBits newKeyBits) 0
  | [], _, siblings => by simp [extendSiblings, commonPrefix]
  | _ :: _, [], siblings => by simp [extendSiblings, commonPrefix]
  | oldBit :: oldKeyBits, newBit :: newKeyBits, siblings => by
      unfold extendSiblings commonPrefix
      by_cases h : oldBit = newBit
      · rw [if_pos h, if_pos h, extendSiblings_eq oldKeyBits newKeyBits, List.append_assoc,
          List.replicate_succ]
        rfl
      · rw [if_neg h, if_neg h, List.replicate_zero, List.append_nil]

/-- Zeros at the end of a list that does not end in a zero are taken off. -/
theorem rdropWhile_append_zeros {α : Type} [Zero α] [DecidableEq α] {l : List α}
    (hlast : ∀ x, l.getLast? = some x → x ≠ 0) (m : ℕ) :
    (l ++ List.replicate m 0).rdropWhile (· = 0) = l := by
  induction m with
  | zero =>
      rw [List.replicate_zero, List.append_nil, List.rdropWhile_eq_self_iff]
      intro hl
      simpa using hlast _ (List.getLast?_eq_some_getLast hl)
  | succ m ih =>
      rw [List.replicate_succ', ← List.append_assoc, List.rdropWhile_concat_pos _ _ _ (by simp)]
      exact ih

section Siblings

variable {S : Set Query} (h0 : ∀ q ∈ S, q.eval ≠ 0) {t slot : KeyTree} {key : Fr}
  {p : Path Fr Fr}

/-- How many bits the key has in common with the leaf in the way, from the end of the search
on. -/
def sharedBits (t : KeyTree) (key : Fr) : ℕ :=
  match walk (keyBit key) 0 t with
  | (p, .leaf oldKey _) => commonBits oldKey key p.length
  | _ => 0

/-- What the loop of `insert` starts with. -/
theorem startInsert_eq (hw : walk (keyBit key) 0 t = (p, slot)) (habsent : key ∉ t.keys) :
    startInsert (fieldToBits key) (.ofClient (slotAnswer key (pathRoots p) slot)) =
      (rootNats (insertPath t key), rootNat slot, decide (slot = .empty) && !p.isEmpty) := by
  unfold insertPath
  rw [hw]
  cases slot with
  | node l r => exact absurd hw Tree.walk_ne_node
  | empty =>
      have hempty : ((pathRoots p).map Fin.val).isEmpty = p.isEmpty := by cases p <;> rfl
      simp [startInsert, FindResult.ofClient, slotAnswer, Prover.SparseMerkle.emptyResult,
        rootNats_eq, rootNat, ← hempty]
  | leaf oldKey oldValue =>
      have hne : oldKey ≠ key := Tree.ne_of_walk_leaf hw habsent
      simp only [startInsert, FindResult.ofClient, slotAnswer, if_neg hne, Bool.false_eq_true,
        if_false, rootNats_eq, splitBits_val, hash3_leaf, extendSiblings_eq, rootNats_append,
        rootNats_fork, List.append_assoc]
      simp [rootNats, commonBits, Prover.SparseMerkle.fieldToBits_splitBits]

include h0 in
/-- The tests return the siblings of the search. -/
theorem trimSiblings_eq (hw : walk (keyBit key) 0 t = (p, slot)) (habsent : key ∉ t.keys)
    (hcan : t.Canonical keyBit 0) (ht : Tracked S t) :
    trimSiblings (slotAnswer key (pathRoots p) slot).isOld0 (rootNats (insertPath t key)) =
      rootNats p := by
  have hroot := AspNonMembership.last_root_ne_zero h0 hcan ht key
  rw [hw] at hroot
  have hlast : ∀ x, (rootNats p).getLast? = some x → x ≠ 0 := by
    intro x hx
    rw [rootNats, List.getLast?_map, Option.map_eq_some_iff] at hx
    obtain ⟨c, hc, rfl⟩ := hx
    exact fun he => hroot c hc (Fin.ext he)
  unfold insertPath
  rw [hw]
  cases slot with
  | node l r => exact absurd hw Tree.walk_ne_node
  | empty =>
      have htrim := rdropWhile_append_zeros hlast 0
      rw [List.replicate_zero, List.append_nil] at htrim
      exact htrim
  | leaf oldKey oldValue =>
      have hne : oldKey ≠ key := Tree.ne_of_walk_leaf hw habsent
      rw [slotAnswer, if_neg hne, trimSiblings]
      simp only [Bool.false_eq_true, if_false]
      rw [rootNats_append, rootNats_fork, ← List.append_assoc, List.dropLast_concat]
      exact rdropWhile_append_zeros hlast _

include h0 in
/-- The client returns a zero more for each bit that the two keys share. -/
theorem insertResult_siblings (value : Fr) (hw : walk (keyBit key) 0 t = (p, slot))
    (habsent : key ∉ t.keys) (hcan : t.Canonical keyBit 0) (ht : Tracked S t) :
    (insertResult t key value).siblings = pathRoots p ++ List.replicate (sharedBits t key) 0 := by
  have hplug := Tree.plug_walk (keyBit key) 0 t
  have hroot := AspNonMembership.last_root_ne_zero h0 hcan ht key
  rw [hw] at hplug hroot
  have hlast : ∀ x, (pathRoots p).getLast? = some x → x ≠ 0 := by
    intro x hx
    rw [pathRoots, List.getLast?_map, Option.map_eq_some_iff] at hx
    obtain ⟨c, hc, rfl⟩ := hx
    exact hroot c hc
  unfold insertResult sharedBits insertPath
  rw [hw]
  cases slot with
  | node l r => exact absurd hw Tree.walk_ne_node
  | empty =>
      have htrim := rdropWhile_append_zeros hlast 0
      rw [List.replicate_zero, List.append_nil] at htrim ⊢
      exact htrim
  | leaf oldKey oldValue =>
      have hne : oldKey ≠ key := Tree.ne_of_walk_leaf hw habsent
      have hleaf : treeRoot (.leaf oldKey oldValue) ≠ 0 := by
        refine mt (AspNonMembership.treeRoot_eq_zero h0 (ht.of_mem_subtrees ?_)).mp (by simp)
        exact hplug ▸ Tree.mem_subtrees_plug.mpr (Or.inr (Or.inl (Tree.mem_subtrees_self _)))
      -- the last of the siblings is the leaf, so no zero is taken off
      have hkeep : (pathRoots p ++ List.replicate (commonBits oldKey key p.length) 0 ++
            [treeRoot (.leaf oldKey oldValue)]).rdropWhile (· = 0) =
          pathRoots p ++ List.replicate (commonBits oldKey key p.length) 0 ++
            [treeRoot (.leaf oldKey oldValue)] :=
        List.rdropWhile_concat_neg _ _ _ (by simpa only [decide_eq_true_eq] using hleaf)
      simp only [slotAnswer, if_neg hne, Prover.SparseMerkle.pathRoots_append,
        Prover.SparseMerkle.pathRoots_fork, ← List.append_assoc, Prover.SparseMerkle.trimSiblings,
        hkeep]
      simp

end Siblings

/-! ## The insertion -/

section Insert

variable {S : Set Query} (hS : Set.InjOn Query.eval S) (h0 : ∀ q ∈ S, q.eval ≠ 0)
  {tree : SparseMerkleTree} {t : KeyTree} {key value : Fr}

/-- The result of the client, with the siblings of the search. -/
def expectedResult (t : KeyTree) (key value : Fr) : SMTResult :=
  { SMTResult.ofClient (insertResult t key value) with
    siblings := rootNats (walk (keyBit key) 0 t).1 }

include h0 in
/-- The loop of `insert` along the path to the new leaf. -/
theorem insertLoop_insertPath (value : Fr) {p : Path Fr Fr} {slot : KeyTree}
    (hw : walk (keyBit key) 0 t = (p, slot)) (hcan : t.Canonical keyBit 0) (ht : Tracked S t)
    (habsent : key ∉ t.keys) (inserts : List (ℕ × List ℕ)) :
    ∃ rtOld mixed, (rootNats (insertPath t key)).zipIdx.foldrM
        (insertStep (fieldToBits key) (rootNats p) (rootNats (insertPath t key)).length)
        ⟨rootNat (.leaf key value), rootNat slot, decide (slot = .empty) && !p.isEmpty, inserts, []⟩ =
      .ok ⟨rootNat (insertTree t key value), rtOld, mixed,
        inserts ++ (spine (insertPath t key) (.leaf key value)).reverse.map entryOf,
        (spine p slot).reverse.map rootNat⟩ := by
  have hf := Tree.follows_walk (keyBit key) 0 t
  have hroot := AspNonMembership.last_root_ne_zero h0 hcan ht key
  have hlen := Prover.SparseMerkle.insertPath_length_le hcan habsent
  rw [hw] at hf hroot
  dsimp only at hf hroot
  have hsib : ∀ i c, p[i]? = some c → (rootNats p)[0 + i]? = some (rootNat c.2) := by
    intro i c hi
    rw [Nat.zero_add, rootNats, List.getElem?_map, hi]
    rfl
  have hlast : ∀ c, p.getLast? = some c → rootNat c.2 ≠ 0 := fun c hc he =>
    hroot c hc (Fin.ext he)
  have hlength : (rootNats (insertPath t key)).length = (insertPath t key).length :=
    List.length_map _
  have hbits : ∀ i < (insertPath t key).length, (fieldToBits key)[i]? = some (keyBit key i) :=
    fun i hi => Prover.SparseMerkle.fieldToBits_getElem? key (by omega)
  unfold insertTree
  rw [hlength]
  generalize hpath : insertPath t key = path at hbits ⊢
  unfold insertPath at hpath
  rw [hw] at hpath
  cases slot with
  | node l r => exact absurd hw Tree.walk_ne_node
  | empty =>
      obtain rfl : p = path := hpath
      have hmixed : p ≠ [] → (decide ((.empty : KeyTree) = .empty) && !p.isEmpty) = true ∨
          0 + p.length < p.length ∧ ∀ c, p.getLast? = some c → rootNat c.2 ≠ 0 :=
        fun hp => Or.inl (by simpa using hp)
      exact ⟨_, _, insertLoop_path _ .empty (.leaf key value) _ inserts [] hbits hf (by omega) hsib
        hmixed⟩
  | leaf oldKey oldValue =>
      dsimp only at hpath
      generalize commonBits oldKey key p.length = m at hpath
      obtain rfl := hpath
      rw [List.length_append, Tree.length_fork] at hbits ⊢
      have hfork := insertLoop_fork (rootNats p) (.leaf oldKey oldValue)
        (.leaf key value) (rootNat (.leaf oldKey oldValue)) inserts [] hbits (m := m)
        (n := p.length) rfl
      have hloop := insertLoop_path (rootNats p) (.leaf oldKey oldValue)
        (plug (fork (keyBit key) (.leaf oldKey oldValue) p.length m) (.leaf key value)) false
        (inserts ++ (spine (fork (keyBit key) (.leaf oldKey oldValue) p.length m)
          (.leaf key value)).reverse.map entryOf) [] hbits hf (by omega) hsib
        (fun _ => Or.inr ⟨by omega, hlast⟩)
      refine ⟨rootNat (plug p (.leaf oldKey oldValue)), false || !p.isEmpty, ?_⟩
      rw [rootNats_append, List.zipIdx_append, List.foldrM_append]
      have hstart : (decide ((.leaf oldKey oldValue : KeyTree) = .empty) && !p.isEmpty) = false := by
        simp
      have hzip : 0 + (rootNats p).length = p.length := by simp [rootNats]
      rw [hstart, hzip, hfork]
      simp only [bind, Except.bind]
      rw [hloop, Tree.spine_append, Tree.plug_append]
      simp

/-- `insert`, from what its search and its loop return. -/
theorem insert_eq {key value : ℕ} {find : FindResult} {siblings : List ℕ} {rtOld : ℕ} {mixed : Bool}
    {st : InsertState} (hfind : tree.find key = .ok find) (hfound : find.found = false)
    (hstart : startInsert (splitBits key) find = (siblings, rtOld, mixed))
    (hloop : siblings.zipIdx.foldrM (insertStep (splitBits key) find.siblings siblings.length)
      ⟨poseidon2Hash3Sparse key value, rtOld, mixed,
        [(poseidon2Hash3Sparse key value, [1, key, value])], []⟩ = .ok st) :
    tree.insert key value = .ok
      ({ oldRoot := tree.root, newRoot := st.rt, siblings := trimSiblings find.isOld0 siblings,
         oldKey := find.notFoundKey, oldValue := find.notFoundValue, newKey := key,
         newValue := value, isOld0 := find.isOld0 },
        { db := ((tree.db.multiIns st.inserts).setRoot st.rt).multiDel st.deletes,
          root := st.rt }) := by
  unfold SparseMerkleTree.insert
  simp only [hfind, hfound, hstart, hloop, bind, Except.bind, Bool.false_eq_true, if_false]

include hS h0 in
/-- `insert` of an absent key: the tree of the tests is then the tree with the key. -/
theorem Holds.insert (h : Holds tree t) (hcan : t.Canonical keyBit 0) (ht : Tracked S t)
    (habsent : key ∉ t.keys) (htr : Tracked S (insertTree t key value)) :
    ∃ tree', tree.insert key.val value.val = .ok (expectedResult t key value, tree') ∧
      Holds tree' (insertTree t key value) := by
  have hplug := Tree.plug_walk (keyBit key) 0 t
  have hfind := h.find h0 hcan ht key
  rcases hw : walk (keyBit key) 0 t with ⟨p, slot⟩
  rw [hw] at hplug hfind
  dsimp only at hplug hfind
  have hfound : (FindResult.ofClient (slotAnswer key (pathRoots p) slot)).found = false := by
    cases slot with
    | empty => rfl
    | node l r => rfl
    | leaf oldKey oldValue =>
        have hne : oldKey ≠ key := Tree.ne_of_walk_leaf hw habsent
        rw [slotAnswer, if_neg hne]
        rfl
  have hleaf : Tracked S (.leaf key value) :=
    htr.of_mem_subtrees (Tree.mem_subtrees_plug.mpr (Or.inr (Or.inl (by simp [subtrees]))))
  have hstart := startInsert_eq hw habsent
  have hsiblings : (FindResult.ofClient (slotAnswer key (pathRoots p) slot)).siblings =
      rootNats p := by
    rw [FindResult.ofClient, Prover.SparseMerkle.slotAnswer_siblings, rootNats_eq]
  have hentry : (poseidon2Hash3Sparse key.val value.val, [1, key.val, value.val]) =
      entryOf (.leaf key value) := by
    rw [entryOf, hash3_leaf]
    rfl
  obtain ⟨rtOld, mixed, hloop⟩ := insertLoop_insertPath h0 value hw hcan ht habsent
    [(poseidon2Hash3Sparse key.val value.val, [1, key.val, value.val])]
  rw [← hsiblings, ← splitBits_val, ← hash3_leaf] at hloop
  rw [← splitBits_val] at hstart
  have hinsert := insert_eq hfind hfound hstart hloop
  rw [hentry] at hinsert
  have hresult : expectedResult t key value =
      { oldRoot := rootNat t, newRoot := rootNat (insertTree t key value),
        siblings := rootNats p,
        oldKey := (FindResult.ofClient (slotAnswer key (pathRoots p) slot)).notFoundKey,
        oldValue := (FindResult.ofClient (slotAnswer key (pathRoots p) slot)).notFoundValue,
        newKey := key.val, newValue := value.val,
        isOld0 := (FindResult.ofClient (slotAnswer key (pathRoots p) slot)).isOld0 } := by
    unfold expectedResult SMTResult.ofClient insertResult
    rw [hw]
    rfl
  have htrim : trimSiblings (FindResult.ofClient (slotAnswer key (pathRoots p) slot)).isOld0
      (rootNats (insertPath t key)) = rootNats p := trimSiblings_eq h0 hw habsent hcan ht
  rw [htrim, h.root, ← hresult] at hinsert
  refine ⟨_, hinsert, rfl, ?_⟩
  intro w hwt hne
  have htw := htr.of_mem_subtrees hwt
  have hnew : ∀ u ∈ .leaf key value :: (spine (insertPath t key) (.leaf key value)).reverse,
      Tracked S u ∧ key ∈ u.keys := by
    intro u hu
    rcases List.mem_cons.mp hu with rfl | hu
    · exact ⟨hleaf, by simp⟩
    · have hsp := List.mem_reverse.mp hu
      exact ⟨htr.of_mem_subtrees (Tree.mem_subtrees_of_mem_spine hsp),
        Tree.keys_subset_of_mem_spine hsp (by simp)⟩
  have hold : ∀ u ∈ (spine p slot).reverse, Tracked S u := fun u hu =>
    ht.of_mem_subtrees (hplug ▸ Tree.mem_subtrees_of_mem_spine (List.mem_reverse.mp hu))
  have hadded := stored_multiIns hS h0 htw
    (.leaf key value :: (spine (insertPath t key) (.leaf key value)).reverse) tree.db
    fun u hu => (hnew u hu).1
  refine (stored_multiDel hS h0 htw (spine p slot).reverse _ hold).mpr ?_
  rcases AspNonMembership.mem_subtrees_insertTree hw hcan hne hwt with hmem | ⟨hmem, hns⟩
  · have hin : w ∈ .leaf key value :: (spine (insertPath t key) (.leaf key value)).reverse := by
      simpa [or_comm] using hmem
    refine ⟨hadded.mpr (Or.inl hin), fun hsp => ?_⟩
    exact AspNonMembership.not_mem_spine_of_absent hplug habsent (hnew w hin).2
      (List.mem_reverse.mp hsp)
  · exact ⟨hadded.mpr (Or.inr (h.stored w hmem hne)), fun hsp => hns (List.mem_reverse.mp hsp)⟩

include h0 in
/-- `insert` of a key that is there. -/
theorem Holds.insert_present (h : Holds tree t) (hcan : t.Canonical keyBit 0) (ht : Tracked S t)
    (hmem : key ∈ t.keys) (value : Fr) :
    tree.insert key.val value.val = .error "Key already exists" := by
  obtain ⟨p, oldValue, hw, -⟩ := AspNonMembership.walk_of_mem hcan hmem
  have hfind := h.find h0 hcan ht key
  rw [hw, slotAnswer, if_pos rfl] at hfind
  unfold SparseMerkleTree.insert
  rw [hfind]
  rfl

end Insert

/-! ## Both trees -/

/-- An entry in the numbers of the tests. -/
def natEntry (entry : Fr × Fr) : ℕ × ℕ := (entry.1.val, entry.2.val)

/-- The root of a leaf that has some siblings on the path of a key. -/
def rootAlong (key : Fr) (siblings : List Fr) (leaf : Fr) : Fr :=
  Tree.climb AspNonMembership.nodeHash (keyBit key) 0 siblings leaf

/-- The old leaf of a result, or the empty slot. -/
def oldLeaf (result : Prover.SparseMerkle.SMTResult) : Fr :=
  if result.isOld0 then 0
  else Prover.SparseMerkle.poseidon2HashLeaf result.oldKey result.oldValue

/-- The search for a key ends in an empty slot, or in a leaf whose key differs from it in the very
next bit. -/
def PartsAtEnd (tree : Prover.SparseMerkle.SparseMerkleTree) (key : Fr) : Prop :=
  ∀ find, tree.find key = .ok find → find.isOld0 = true ∨
    keyBit find.notFoundKey find.siblings.length ≠ keyBit key find.siblings.length

section Agree

variable {S : Set Query} (hS : Set.InjOn Query.eval S) (h0 : ∀ q ∈ S, q.eval ≠ 0)
  {s : AspStorage} {es : List (Fr × Fr)} {m : KeyMap} {tree : SparseMerkleTree}
  {client : Prover.SparseMerkle.SparseMerkleTree} {t : KeyTree} {key value : Fr}

include hS h0 in
/-- One insertion into the tree of the tests. -/
theorem step_holds (h : Agrees S s es m) (hh : Holds tree (canonicalTree es)) {entry : Fr × Fr}
    (hq : ∀ q ∈ (insertCall entry).queries es, q ∈ S) :
    Holds (tree.step (natEntry entry)) (canonicalTree ((insertCall entry).entries es)) := by
  unfold SparseMerkleTree.step natEntry
  rcases Prover.SparseMerkle.insertCall_cases h hq with
    ⟨hmem, hentries, -⟩ | ⟨hnot, htr, htree, -⟩
  · rw [hh.insert_present h0 h.keeps.canonical h.keeps.tracked hmem, hentries]
    exact hh
  · obtain ⟨tree', hrun, hholds⟩ :=
      hh.insert hS h0 h.keeps.canonical h.keeps.tracked hnot htr
    rw [hrun, htree]
    exact hholds

include hS h0 in
/-- A run of insertions into the tree of the tests. -/
theorem run_holds (entries : List (Fr × Fr)) : ∀ {s : AspStorage} {es : List (Fr × Fr)}
    {m : KeyMap} {tree : SparseMerkleTree}, Agrees S s es m → Holds tree (canonicalTree es) →
    (∀ q ∈ AspNonMembership.runQueries es (entries.map insertCall), q ∈ S) →
      Holds (tree.run (entries.map natEntry))
        (canonicalTree (entriesAfter (entries.map insertCall) es)) := by
  induction entries with
  | nil => exact fun _ hh _ => hh
  | cons entry entries ih =>
      intro s es m tree h hh hq
      rw [List.map_cons, AspNonMembership.runQueries] at hq
      have hq' := fun q hqm => hq q (List.mem_append_left _ hqm)
      have hstep := (h.step hS h0 (Prover.SparseMerkle.insertCall_canonical entry) hq').1
      exact ih hstep (step_holds hS h0 h hh hq') fun q hqm => hq q (List.mem_append_right _ hqm)

theorem new_holds : Holds .new (canonicalTree []) where
  root := rfl
  stored _ hw hne := absurd (List.mem_singleton.mp hw) hne

/-- Two keys with different next bits share none. -/
theorem commonBits_eq_zero_iff {old key : Fr} {n : ℕ} (h : n < 256) :
    commonBits old key n = 0 ↔ keyBit old n ≠ keyBit key n := by
  have hold := @AspNonMembership.splitBits_drop old.toU256 n h
  have hkey := @AspNonMembership.splitBits_drop key.toU256 n h
  rw [commonBits, hold, hkey, commonPrefix]
  by_cases hbit : old.toU256.val.testBit n = key.toU256.val.testBit n
  · rw [if_pos hbit]
    exact iff_of_false (by omega) (fun hne => hne hbit)
  · rw [if_neg hbit]
    exact iff_of_true rfl hbit

include h0 in
/-- The keys share no bit beyond the search exactly when the search tells them apart. -/
theorem sharedBits_eq_zero_iff (hh : Prover.SparseMerkle.Holds client t)
    (hcan : t.Canonical keyBit 0) (ht : Tracked S t) (habsent : key ∉ t.keys) :
    sharedBits t key = 0 ↔ PartsAtEnd client key := by
  have hfind := hh.find h0 hcan ht key
  have hlen := AspNonMembership.walk_length_le hcan (keyBit key)
  unfold sharedBits
  rcases hw : walk (keyBit key) 0 t with ⟨p, slot⟩
  rw [hw] at hfind hlen
  have hparts : PartsAtEnd client key ↔ (slotAnswer key (pathRoots p) slot).isOld0 = true ∨
      keyBit (slotAnswer key (pathRoots p) slot).notFoundKey p.length ≠ keyBit key p.length := by
    have hlength : (slotAnswer key (pathRoots p) slot).siblings.length = p.length := by
      rw [Prover.SparseMerkle.slotAnswer_siblings, Prover.SparseMerkle.pathRoots_length]
    constructor
    · intro h
      have hfound := h _ hfind
      rwa [hlength] at hfound
    · intro h find hrun
      obtain rfl := Except.ok.inj (hfind.symm.trans hrun)
      rw [hlength]
      exact h
  rw [hparts]
  cases slot with
  | node l r => exact absurd hw Tree.walk_ne_node
  | empty => exact iff_of_true rfl (Or.inl rfl)
  | leaf oldKey oldValue =>
      have hne : oldKey ≠ key := Tree.ne_of_walk_leaf hw habsent
      dsimp only at hlen ⊢
      rw [slotAnswer, if_neg hne, commonBits_eq_zero_iff (by omega)]
      simp

include h0 in
/-- What the two insertions of an absent key return, compared. -/
theorem insertResult_agrees_iff (hcan : t.Canonical keyBit 0) (ht : Tracked S t)
    (habsent : key ∉ t.keys) :
    (SMTResult.ofClient (insertResult t key value) = expectedResult t key value ∧
      rootAlong key (insertResult t key value).siblings (oldLeaf (insertResult t key value)) =
        (insertResult t key value).oldRoot) ↔ sharedBits t key = 0 := by
  have hplug := Tree.plug_walk (keyBit key) 0 t
  have hf := Tree.follows_walk (keyBit key) 0 t
  rcases hw : walk (keyBit key) 0 t with ⟨p, slot⟩
  rw [hw] at hplug hf
  have hsiblings := insertResult_siblings h0 value hw habsent hcan ht
  have hexpected : (expectedResult t key value).siblings = rootNats p := by
    rw [expectedResult, hw]
  constructor
  · rintro ⟨hsame, -⟩
    have hlist := congrArg (fun r => r.siblings.length) hsame
    rw [hexpected, SMTResult.ofClient, hsiblings] at hlist
    simpa [rootNats, pathRoots] using hlist
  · intro hzero
    rw [hzero, List.replicate_zero, List.append_nil] at hsiblings
    constructor
    · have hrest : expectedResult t key value =
          { SMTResult.ofClient (insertResult t key value) with siblings := rootNats p } := by
        rw [expectedResult, hw]
      rw [hrest, ← rootNats_eq, ← hsiblings]
      rfl
    · have hold : oldLeaf (insertResult t key value) = treeRoot slot := by
        unfold oldLeaf insertResult
        rw [hw]
        cases slot with
        | node l r => exact absurd hw Tree.walk_ne_node
        | empty => rfl
        | leaf oldKey oldValue =>
            have hne : oldKey ≠ key := Tree.ne_of_walk_leaf hw habsent
            simp only [slotAnswer, if_neg hne, Bool.false_eq_true, if_false]
            rfl
      have hroot : (insertResult t key value).oldRoot = treeRoot t := rfl
      rw [hsiblings, hold, hroot, ← hplug]
      exact (Tree.digest_plug hf).symm

end Agree

/-- **When the results agree.** After every part of a sequence of insertions the next one succeeds
on both sides or on none. If it succeeds, the results are the same and their siblings lead from
the old leaf to the old root exactly when the search for the key parts it from the leaf in the
way. -/
theorem insert_results_agree_iff {S : Set Query} (hinj : Set.InjOn Query.eval S)
    (hzero : ∀ q ∈ S, q.eval ≠ 0) (entries : List (Fr × Fr))
    (hrun : ∀ q ∈ AspNonMembership.runQueries [] (entries.map insertCall), q ∈ S) :
    ∀ before entry after, entries = before ++ entry :: after →
      let client := Prover.SparseMerkle.SparseMerkleTree.new.run before
      let tests := SparseMerkleTree.new.run (before.map natEntry)
      ((∃ result, client.insert entry.1 entry.2 = .ok result) ↔
        ∃ result, tests.insert entry.1.val entry.2.val = .ok result) ∧
      ∀ result client' result' tests', client.insert entry.1 entry.2 = .ok (result, client') →
        tests.insert entry.1.val entry.2.val = .ok (result', tests') →
        ((SMTResult.ofClient result = result' ∧
            rootAlong entry.1 result.siblings (oldLeaf result) = result.oldRoot) ↔
          PartsAtEnd client entry.1) := by
  intro before entry after hentries
  rw [hentries, List.map_append, AspNonMembership.runQueries_append] at hrun
  have hbefore := fun q hq => hrun q (List.mem_append_left _ hq)
  have hagrees := AspNonMembership.deployed_agrees S 0
  obtain ⟨h, hclient⟩ := Prover.SparseMerkle.run_agrees hinj hzero before hagrees
    Prover.SparseMerkle.new_holds hbefore
  have htests := run_holds hinj hzero before hagrees new_holds hbefore
  have hq : ∀ q ∈ (insertCall entry).queries (entriesAfter (before.map insertCall) []), q ∈ S :=
    fun q hqm => hrun q (List.mem_append_right _ (List.mem_append_left _ hqm))
  have hcan := h.keeps.canonical
  have ht := h.keeps.tracked
  rcases Prover.SparseMerkle.insertCall_cases h hq with ⟨hmem, -, -⟩ | ⟨hnot, htr, -, -⟩
  · have hfails := hclient.insert_present hzero hcan ht hmem entry.2
    have hfails' := htests.insert_present hzero hcan ht hmem entry.2
    refine ⟨iff_of_false (fun ⟨_, he⟩ => ?_) (fun ⟨_, he⟩ => ?_), ?_⟩
    · cases hfails.symm.trans he
    · cases hfails'.symm.trans he
    · intro result client' result' tests' he
      cases hfails.symm.trans he
  · obtain ⟨client', hinsert, -⟩ := hclient.insert hinj hzero hcan ht hnot htr
    obtain ⟨tests', hinsert', -⟩ := htests.insert hinj hzero hcan ht hnot htr
    refine ⟨iff_of_true ⟨_, hinsert⟩ ⟨_, hinsert'⟩, ?_⟩
    intro result client₁ result' tests₁ he he'
    cases hinsert.symm.trans he
    cases hinsert'.symm.trans he'
    rw [← sharedBits_eq_zero_iff hzero hclient hcan ht hnot]
    exact insertResult_agrees_iff hzero hcan ht hnot

/-- Two keys that differ in the lowest bit. -/
def partingEntries : List (Fr × Fr) := [(1, 9), (2, 7)]

theorem insert_results_agree_iff_parting :
    ∃ result client' result' tests',
      (Prover.SparseMerkle.SparseMerkleTree.new.run [(1, 9)]).insert 2 7 = .ok (result, client') ∧
      (SparseMerkleTree.new.run [(1, 9)]).insert 2 7 = .ok (result', tests') ∧
      SMTResult.ofClient result = result' := by
  have hinj : ∀ q ∈ AspNonMembership.runQueries [] (partingEntries.map insertCall),
      ∀ q' ∈ AspNonMembership.runQueries [] (partingEntries.map insertCall),
      q.eval = q'.eval → q = q' := by decide +kernel
  have hzero : ∀ q ∈ AspNonMembership.runQueries [] (partingEntries.map insertCall),
      q.eval ≠ 0 := by decide +kernel
  have hfind : (Prover.SparseMerkle.SparseMerkleTree.new.run [(1, 9)]).find 2 =
      .ok { found := false, siblings := [], foundValue := 0, notFoundKey := 1, notFoundValue := 9,
            isOld0 := false } := by decide +kernel
  have hsome : ((Prover.SparseMerkle.SparseMerkleTree.new.run [(1, 9)]).insert 2 7).toOption.isSome
      := by decide +kernel
  obtain ⟨hboth, hresults⟩ := insert_results_agree_iff
    (fun q hq q' hq' h => hinj q hq q' hq' h) hzero partingEntries (fun q hq => hq) [(1, 9)] (2, 7)
    [] rfl
  obtain ⟨⟨result, client'⟩, hclient⟩ : ∃ result,
      (Prover.SparseMerkle.SparseMerkleTree.new.run [(1, 9)]).insert 2 7 = .ok result := by
    cases hrun : (Prover.SparseMerkle.SparseMerkleTree.new.run [(1, 9)]).insert 2 7 with
    | ok result => exact ⟨result, rfl⟩
    | error e =>
        rw [hrun] at hsome
        cases hsome
  obtain ⟨⟨result', tests'⟩, htests⟩ := hboth.mp ⟨_, hclient⟩
  refine ⟨result, client', result', tests', hclient, htests, ?_⟩
  refine ((hresults _ _ _ _ hclient htests).mpr ?_).1
  intro find hrun
  cases hfind.symm.trans hrun
  exact Or.inr (by decide)

/-- Two keys that differ in the third bit. -/
def sharingEntries : List (Fr × Fr) := [(1, 9), (5, 7)]

/-- The client returns two zeros for the bits that the keys have in common, and these do not lead
from the old leaf to the old root. -/
theorem shared_bits_returned :
    Set.InjOn Query.eval {q | q ∈ AspNonMembership.runQueries [] (sharingEntries.map insertCall)} ∧
      (∀ q ∈ AspNonMembership.runQueries [] (sharingEntries.map insertCall), q.eval ≠ 0) ∧
      ((Prover.SparseMerkle.SparseMerkleTree.new.run [(1, 9)]).insert 5 7).toOption.map
          (fun r => (r.1.siblings, decide (rootAlong 5 r.1.siblings (oldLeaf r.1) = r.1.oldRoot))) =
        some ([0, 0], false) ∧
      ((SparseMerkleTree.new.run [(1, 9)]).insert 5 7).toOption.map (fun r => r.1.siblings) =
        some [] := by
  have hinj : ∀ q ∈ AspNonMembership.runQueries [] (sharingEntries.map insertCall),
      ∀ q' ∈ AspNonMembership.runQueries [] (sharingEntries.map insertCall),
      q.eval = q'.eval → q = q' := by decide +kernel
  exact ⟨fun q hq q' hq' h => hinj q hq q' hq' h, by decide +kernel, by decide +kernel,
    by decide +kernel⟩

end PrivatePayments.SmtReference
