import PrivatePayments.Contracts.AspNonMembershipSound

/-!
# PrivatePayments.Contracts.AspNonMembershipInsert

`insert_leaf` keeps the invariant. The loop goes up from the new leaf; below the deepest
old sibling it only builds nodes, and from there on it replaces the node of the old path
at each level.
-/

namespace PrivatePayments.AspNonMembership

open SparseTree
open SparseTree.Tree (plug walk Follows spine subtrees prune fork)

/-! ## The loop -/

/-- A round of `insert_leaf` that only builds a new node. -/
theorem insertStep_put {keyBits : List Bool} (findSiblings : List U256) {len i : ℕ}
    {addedOne b : Bool} {c x : KeyTree} (rtOld : U256) {s : AspStorage}
    (hbit : keyBits[i]? = some b)
    (hskip : (addedOne && i == len - 1) = true ∨ x = .empty) :
    (insertStep keyBits findSiblings len addedOne ((treeRoot x).toU256, i)
      { rt := (treeRoot c).toU256, rtOld, mixed := false }).run s =
      .ok { rt := (treeRoot (Tree.graft b c x)).toU256, rtOld, mixed := false }
        { s with node := putNode (Tree.graft b c x) s.node } := by
  have hmixed : (false || (!(addedOne && i == len - 1) && decide (i < len - 1) &&
      (treeRoot x).toU256 != 0)) = false := by
    rcases hskip with h | rfl
    · rw [h]
      rfl
    · rw [treeRoot_empty, Fr.toU256_eq_zero.mpr rfl]
      simp
  unfold insertStep
  simp only [hmixed, hbit, Contract.okOr_some, pure_bind, Bool.false_and, Bool.false_eq_true,
    if_false, hashInternal_new, ← nodeData_graft]
  rw [EStateM.run_bind, setNode_run]
  rfl

/-- A round of `insert_leaf` that replaces a node of the old path. -/
theorem insertStep_replace {keyBits : List Bool} {findSiblings : List U256} {len i : ℕ}
    {addedOne mixed b : Bool} (c cOld : KeyTree) {x : KeyTree} {s : AspStorage}
    (hbit : keyBits[i]? = some b) (hold : findSiblings.getD i 0 = (treeRoot x).toU256)
    (hlast : (addedOne && i == len - 1) = false)
    (hmixed : mixed = true ∨ i < len - 1 ∧ treeRoot x ≠ 0) :
    (insertStep keyBits findSiblings len addedOne ((treeRoot x).toU256, i)
      { rt := (treeRoot c).toU256, rtOld := (treeRoot cOld).toU256, mixed }).run s =
      .ok { rt := (treeRoot (Tree.graft b c x)).toU256,
            rtOld := (treeRoot (Tree.graft b cOld x)).toU256, mixed := true }
        { s with node := putNode (Tree.graft b c x) (dropNode (Tree.graft b cOld x) s.node) } := by
  have hmixed : (mixed || (!(addedOne && i == len - 1) && decide (i < len - 1) &&
      (treeRoot x).toU256 != 0)) = true := by
    rcases hmixed with h | ⟨hi, hx⟩
    · rw [h]
      rfl
    · rw [hlast, decide_eq_true hi, bne_iff_ne.mpr (mt Fr.toU256_eq_zero.mp hx)]
      simp
  unfold insertStep
  simp only [hmixed, hbit, hold, Contract.okOr_some, pure_bind]
  simp only [hlast, Bool.not_false, Bool.and_true, if_true, hashInternal_new, ← nodeData_graft,
    pure_bind]
  have hrun := hashInternal_old b cOld x
  cases b <;> simp only [Bool.false_eq_true, if_false, if_true] at hrun ⊢ <;> rw [hrun, pure_bind]
  all_goals
    rw [EStateM.run_bind, removeNode_run]
    dsimp only
    rw [EStateM.run_bind, setNode_run]
    rfl

section InsertLoop

variable {S : Set Query} (hS : Set.InjOn Query.eval S) (h0 : ∀ q ∈ S, q.eval ≠ 0)
  {keyBits : List Bool} {findSiblings : List U256} {len : ℕ} {b : ℕ → Bool}

include hS h0

/-- The levels below the old path: they only get new nodes. -/
theorem insertLoop_fork (old new : KeyTree) (rtOld : U256) (hbits : ∀ i < len, keyBits[i]? = some (b i)) :
    ∀ {m n : ℕ} {s : AspStorage}, n + m + 1 = len →
      (∀ w ∈ spine (fork b old n m) new, Tracked S w) →
      ∃ node, (((siblingRoots (fork b old n m)).zipIdx n).foldrM
          (insertStep keyBits findSiblings len true)
          { rt := (treeRoot new).toU256, rtOld, mixed := false }).run s =
          .ok { rt := (treeRoot (plug (fork b old n m) new)).toU256, rtOld, mixed := false }
            { s with node } ∧
        Rewrites S (spine (fork b old n m) new) [] s.node node
  | 0, n, s, hlen, htr => by
      have hadded : (true && n == len - 1) = true := by simp [← hlen]
      have hstep := insertStep_put findSiblings (c := new) (x := old) rtOld (s := s)
        (hbits n (by omega)) (Or.inl hadded)
      refine ⟨putNode (Tree.graft (b n) new old) s.node, ?_, ?_⟩
      · rw [fork, siblingRoots_cons, siblingRoots_nil, List.zipIdx_singleton, List.foldrM_cons]
        exact hstep
      · exact (Rewrites.refl s.node).put hS h0 (htr _ List.mem_cons_self) (Tree.graft_ne_empty _ _ _)
  | m + 1, n, s, hlen, htr => by
      obtain ⟨node, hrun, hnode⟩ := insertLoop_fork old new rtOld hbits (m := m) (n := n + 1)
        (s := s) (by omega) fun w hw => htr w (List.mem_cons_of_mem _ hw)
      refine ⟨putNode (plug (fork b old n (m + 1)) new) node, ?_, ?_⟩
      · rw [fork, siblingRoots_cons, List.zipIdx_cons, List.foldrM_cons,
          Contract.run_bind_of_ok hrun]
        exact insertStep_put _ rtOld (hbits n (by omega)) (Or.inr rfl)
      · exact hnode.put hS h0 (htr _ List.mem_cons_self) (Tree.graft_ne_empty _ _ _)

/-- The levels of the old path: the old node of each level makes way for a new one. -/
theorem insertLoop_path (old new : KeyTree) (addedOne mixed : Bool) (hbits : ∀ i < len, keyBits[i]? = some (b i)) :
    ∀ {p : Path Fr Fr} {n : ℕ} {s : AspStorage}, Follows b n p → n + p.length ≤ len →
      (∀ i c, p[i]? = some c → findSiblings.getD (n + i) 0 = (treeRoot c.2).toU256) →
      (addedOne = true → n + p.length < len) →
      (p ≠ [] → mixed = true ∨
        n + p.length < len ∧ ∀ c, p.getLast? = some c → treeRoot c.2 ≠ 0) →
      (∀ w ∈ spine p new, Tracked S w ∧ w ∉ spine p old) → (∀ w ∈ spine p old, Tracked S w) →
      ∃ node, (((siblingRoots p).zipIdx n).foldrM
          (insertStep keyBits findSiblings len addedOne)
          { rt := (treeRoot new).toU256, rtOld := (treeRoot old).toU256, mixed }).run s =
          .ok { rt := (treeRoot (plug p new)).toU256, rtOld := (treeRoot (plug p old)).toU256,
                mixed := mixed || !p.isEmpty }
            { s with node } ∧
        Rewrites S (spine p new) (spine p old) s.node node
  | [], n, s, _, _, _, _, _, _, _ => by
      refine ⟨s.node, ?_, .refl s.node⟩
      simp [siblingRoots]
  | (c, x) :: p, n, s, hf, hlen, hsib, hadd, hmix, hnew, hold => by
      obtain ⟨rfl, hf⟩ := hf
      have hmix := hmix (List.cons_ne_nil _ _)
      rw [List.length_cons] at hlen hadd hmix
      obtain ⟨node, hrun, hnode⟩ := insertLoop_path old new addedOne mixed hbits
        (p := p) (n := n + 1) (s := s) hf (by omega)
        (fun i c hi => by
          have := hsib (i + 1) c (by rwa [List.getElem?_cons_succ])
          rwa [← Nat.add_assoc, Nat.add_right_comm] at this)
        (fun h => by have := hadd h; omega)
        (fun _ => hmix.imp_right fun h =>
          ⟨by omega, fun c hc => h.2 c (by rw [List.getLast?_cons, hc]; rfl)⟩)
        (fun w hw => ⟨(hnew w (List.mem_cons_of_mem _ hw)).1,
          fun h => (hnew w (List.mem_cons_of_mem _ hw)).2 (List.mem_cons_of_mem _ h)⟩)
        (fun w hw => hold w (List.mem_cons_of_mem _ hw))
      refine ⟨putNode (plug ((b n, x) :: p) new) (dropNode (plug ((b n, x) :: p) old) node), ?_, ?_⟩
      · rw [siblingRoots_cons, List.zipIdx_cons, List.foldrM_cons, Contract.run_bind_of_ok hrun]
        have hfind := hsib 0 (b n, x) rfl
        have hlast : (addedOne && n == len - 1) = false := by
          cases addedOne with
          | false => rfl
          | true =>
            have := hadd rfl
            simp
            omega
        have hmixed : (mixed || !p.isEmpty) = true ∨ n < len - 1 ∧ treeRoot x ≠ 0 := by
          rcases hmix with h | ⟨hlt, hne⟩
          · exact Or.inl (by rw [h]; rfl)
          · cases p with
            | nil => exact Or.inr ⟨by simp at hlt; omega, hne (b n, x) rfl⟩
            | cons c p => exact Or.inl (by simp)
        have hstep := insertStep_replace (plug p new) (plug p old) (s := { s with node })
          (hbits n (by omega)) hfind hlast hmixed
        rw [List.isEmpty_cons, Bool.not_false, Bool.or_true]
        exact hstep
      · have hkept : plug ((b n, x) :: p) old ∉ spine p new := fun hmem =>
          (hnew _ (List.mem_cons_of_mem _ hmem)).2 List.mem_cons_self
        exact (hnode.drop hS h0 (hold _ List.mem_cons_self) hkept).put hS h0
          (hnew _ List.mem_cons_self).1 (Tree.graft_ne_empty _ _ _)

end InsertLoop

/-! ## The common bits of two keys -/

theorem commonPrefix_eq : ∀ {as bs : List Bool} {i : ℕ}, i < commonPrefix as bs → as[i]? = bs[i]?
  | [], _, _, h => by simp [commonPrefix] at h
  | _ :: _, [], _, h => by simp [commonPrefix] at h
  | a :: as, b :: bs, i, h => by
      rw [commonPrefix] at h
      by_cases hab : a = b
      · rw [if_pos hab] at h
        cases i with
        | zero => simp [hab]
        | succ i =>
          rw [List.getElem?_cons_succ, List.getElem?_cons_succ]
          exact commonPrefix_eq (Nat.succ_lt_succ_iff.mp h)
      · rw [if_neg hab] at h
        exact absurd h (Nat.not_lt_zero i)

theorem commonPrefix_ne : ∀ {as bs : List Bool} {a b : Bool},
    as[commonPrefix as bs]? = some a → bs[commonPrefix as bs]? = some b → a ≠ b
  | [], _, _, _, h, _ => by simp at h
  | _ :: _, [], _, _, _, h => by simp at h
  | a :: as, b :: bs, _, _, ha, hb => by
      rw [commonPrefix] at ha hb
      by_cases hab : a = b
      · rw [if_pos hab] at ha hb
        exact commonPrefix_ne ha hb
      · rw [if_neg hab] at ha hb
        simp only [List.getElem?_cons_zero, Option.some.injEq] at ha hb
        rwa [← ha, ← hb]

theorem commonPrefix_le : ∀ (as bs : List Bool), commonPrefix as bs ≤ as.length
  | [], _ => by simp [commonPrefix]
  | _ :: _, [] => by simp [commonPrefix]
  | a :: as, b :: bs => by
      rw [commonPrefix]
      split
      · have := commonPrefix_le as bs
        simpa using this
      · exact Nat.zero_le _

/-- How many bits two keys have in common from level `n` on. -/
def commonBits (old key : Fr) (n : ℕ) : ℕ :=
  commonPrefix ((splitBits old.toU256).drop n) ((splitBits key.toU256).drop n)

theorem splitBits_drop_getElem? (key : Fr) {n i : ℕ} (h : n + i < 256) :
    ((splitBits key.toU256).drop n)[i]? = some (keyBit key (n + i)) := by
  rw [List.getElem?_drop]
  exact splitBits_getElem? key.toU256 h

theorem splitBits_length (key : U256) : (splitBits key).length = 256 := by
  rw [splitBits_eq, List.length_map, List.length_range]

section CommonBits

variable {old key : Fr} {n : ℕ}

theorem commonBits_le (old key : Fr) (n : ℕ) : commonBits old key n ≤ 256 - n := by
  have h := commonPrefix_le ((splitBits old.toU256).drop n) ((splitBits key.toU256).drop n)
  rwa [List.length_drop, splitBits_length] at h

theorem commonBits_eq {i : ℕ} (h : i < commonBits old key n) :
    keyBit old (n + i) = keyBit key (n + i) := by
  have hle := commonBits_le old key n
  have heq := commonPrefix_eq h
  rw [splitBits_drop_getElem? old (by omega), splitBits_drop_getElem? key (by omega)] at heq
  exact Option.some.inj heq

/-- Two keys that agree up to level `n` and are not the same differ after their common bits. -/
theorem commonBits_lt (hne : old ≠ key)
    (hsame : ∀ i < n, keyBit old i = keyBit key i) : n + commonBits old key n < 256 := by
  have hle := commonBits_le old key n
  by_contra hge
  refine hne (keyBit_ext old key fun i hi => ?_)
  rcases Nat.lt_or_ge i n with hin | hin
  · exact hsame i hin
  · have hlt : i - n < commonBits old key n := by omega
    have heq := commonBits_eq hlt
    rwa [Nat.add_sub_cancel' hin] at heq

theorem commonBits_ne (h : n + commonBits old key n < 256) :
    keyBit old (n + commonBits old key n) ≠ keyBit key (n + commonBits old key n) :=
  commonPrefix_ne (splitBits_drop_getElem? old h) (splitBits_drop_getElem? key h)

end CommonBits

/-! ## The tree after an insertion -/

/-- The path to the new leaf of a key: the path of the key, and when it ends in another
leaf, what tells the two keys apart. -/
def insertPath (t : KeyTree) (key : Fr) : Path Fr Fr :=
  match walk (keyBit key) 0 t with
  | (p, .leaf oldKey oldValue) =>
      p ++ fork (keyBit key) (.leaf oldKey oldValue) p.length (commonBits oldKey key p.length)
  | (p, _) => p

/-- The siblings of the new leaf: those of the path, empty slots, and the other leaf. -/
theorem mem_insertPath {t : KeyTree} {key : Fr} {p : Path Fr Fr} {slot : KeyTree}
    {c : Bool × KeyTree} (hw : walk (keyBit key) 0 t = (p, slot)) (hc : c ∈ insertPath t key) :
    c ∈ p ∨ c.2 = .empty ∨ c.2 = slot := by
  unfold insertPath at hc
  rw [hw] at hc
  cases slot with
  | leaf oldKey oldValue => exact (List.mem_append.mp hc).imp_right Tree.mem_fork
  | _ => exact Or.inl hc

/-- The path to the new leaf has all that the path of the key has, and the other leaf. -/
theorem insertPath_covers {t : KeyTree} {key : Fr} {p : Path Fr Fr} {slot w : KeyTree}
    (hw : walk (keyBit key) 0 t = (p, slot)) (hne : w ≠ .empty)
    (hmem : w ∈ slot.subtrees ∨ ∃ c ∈ p, w ∈ c.2.subtrees) :
    ∃ c ∈ insertPath t key, w ∈ c.2.subtrees := by
  unfold insertPath
  rw [hw]
  cases slot with
  | node l r => exact absurd hw Tree.walk_ne_node
  | empty => exact hmem.resolve_left fun h => hne (List.mem_singleton.mp h)
  | leaf oldKey oldValue =>
    rcases hmem with hself | ⟨c, hc, hwc⟩
    · obtain ⟨c, hc, hold⟩ := Tree.exists_mem_fork (keyBit key)
        (.leaf oldKey oldValue : KeyTree) p.length (commonBits oldKey key p.length)
      exact ⟨c, List.mem_append_right _ hc, hold ▸ hself⟩
    · exact ⟨c, List.mem_append_left _ hc, hwc⟩

/-- The tree after `insert_leaf`. -/
def insertTree (t : KeyTree) (key value : Fr) : KeyTree :=
  plug (insertPath t key) (.leaf key value)

section InsertTree

variable {t : KeyTree} {key value : Fr}

theorem entries_insertTree : (insertTree t key value).entries.Perm ((key, value) :: t.entries) := by
  have hplug := Tree.plug_walk (keyBit key) 0 t
  have hold := Tree.entries_plug (walk (keyBit key) 0 t).1 (walk (keyBit key) 0 t).2
  rw [hplug] at hold
  refine (Tree.entries_plug _ _).trans ?_
  refine List.Perm.trans ?_ (hold.symm.cons _)
  unfold insertPath
  rcases hw : walk (keyBit key) 0 t with ⟨p, slot⟩
  cases slot with
  | empty => exact List.Perm.refl _
  | node l r => exact absurd hw Tree.walk_ne_node
  | leaf oldKey oldValue =>
    rw [List.flatMap_append, Tree.flatMap_fork, Tree.entries_leaf, List.singleton_append]
    exact List.perm_append_comm.cons _

theorem canonical_insertTree (h : t.Canonical keyBit 0) (habsent : key ∉ t.keys) :
    (insertTree t key value).Canonical keyBit 0 := by
  have hplug := Tree.plug_walk (keyBit key) 0 t
  have hf := Tree.follows_walk (keyBit key) 0 t
  unfold insertTree insertPath
  rcases hw : walk (keyBit key) 0 t with ⟨p, slot⟩
  rw [hw] at hplug hf
  dsimp only at hplug hf
  rw [← hplug] at h
  have hself : Tree.Along keyBit (keyBit key) 0 p.length (.leaf key value : KeyTree) := by
    intro k hk i _
    rw [Tree.keys_leaf, List.mem_singleton] at hk
    rw [hk]
  cases slot with
  | empty => exact h.replace hf trivial hself (Nat.zero_le _)
  | node l r => exact absurd hw Tree.walk_ne_node
  | leaf oldKey oldValue =>
    have halong := h.along hf
    have hne : oldKey ≠ key := Tree.ne_of_walk_leaf hw habsent
    have hsame : ∀ i < p.length, keyBit oldKey i = keyBit key i := fun i hi => by
      have := halong oldKey (by simp) i hi
      rwa [Nat.zero_add] at this
    have hlt := commonBits_lt hne hsame
    dsimp only
    rw [Tree.plug_append]
    refine h.replace hf ?_ ?_ ?_
    · rw [Nat.zero_add]
      exact Tree.canonical_fork (fun i hi => commonBits_eq hi) (commonBits_ne hlt)
    · intro k hk i hi
      rcases Tree.mem_keys_fork.mp hk with rfl | rfl
      · rfl
      · exact halong _ (by simp) i hi
    · rw [(Tree.entries_plug _ _).length_eq, Tree.entries_leaf, List.length_append]
      simp

/-- The nodes of the tree with the key: those of the new path, the new leaf, and those of the old
tree that are not on the old path. -/
theorem mem_subtrees_insertTree {p : Path Fr Fr} {slot w : KeyTree}
    (hw : walk (keyBit key) 0 t = (p, slot)) (hcan : t.Canonical keyBit 0) (hne : w ≠ .empty)
    (hwt : w ∈ (insertTree t key value).subtrees) :
    w ∈ spine (insertPath t key) (.leaf key value) ++ [.leaf key value] ∨
      w ∈ t.subtrees ∧ w ∉ spine p slot := by
  have hplug := Tree.plug_walk (keyBit key) 0 t
  have hnode := Tree.isNode_walk (keyBit key) 0 t
  rw [hw] at hplug hnode
  dsimp only at hplug hnode
  rcases Tree.mem_subtrees_plug.mp hwt with hsp | hself | ⟨c, hc, hwc⟩
  · exact Or.inl (List.mem_append_left _ hsp)
  · exact Or.inl (List.mem_append_right _ hself)
  · rw [← hplug] at hcan ⊢
    rcases mem_insertPath hw hc with hcp | he | he
    · exact Or.inr ⟨Tree.mem_subtrees_plug.mpr (Or.inr (Or.inr ⟨c, hcp, hwc⟩)),
        hcan.not_mem_spine hne ⟨c, hcp, hwc⟩⟩
    · rw [he] at hwc
      exact absurd (List.mem_singleton.mp hwc) hne
    · rw [he] at hwc
      refine Or.inr ⟨Tree.mem_subtrees_plug.mpr (Or.inr (Or.inl hwc)), fun hsp => ?_⟩
      have hslot : w = slot := by
        cases slot with
        | node l r => cases hnode
        | _ => exact List.mem_singleton.mp hwc
      rw [← hslot, Tree.isNode_of_mem_spine hsp] at hnode
      cases hnode

/-- What holds a new key is not on the old path. -/
theorem not_mem_spine_of_absent {p : Path Fr Fr} {slot w : KeyTree} (hplug : plug p slot = t)
    (habsent : key ∉ t.keys) (hk : key ∈ w.keys) : w ∉ spine p slot := by
  intro hold
  have hsub := Tree.keys_subset_of_mem_subtrees (Tree.mem_subtrees_of_mem_spine hold)
  rw [hplug] at hsub
  exact habsent (hsub hk)

end InsertTree

/-! ## The call -/

section Keeps

variable {S : Set Query} (hS : Set.InjOn Query.eval S) (h0 : ∀ q ∈ S, q.eval ≠ 0)
  {s : AspStorage} {t : KeyTree} {key value : Fr}

theorem setNode_leaf_run (key value : Fr) (s : AspStorage) :
    (setNode (treeRoot (.leaf key value)).toU256 [1, key.toU256, value.toU256]).run s =
      .ok () { s with node := putNode (.leaf key value) s.node } := rfl

/-- `insert_leaf`, from what its search and its loop return. -/
theorem insertLeaf_run {node : U256 → Option (List U256)} {find : FindResult}
    {siblings : List U256} {rtOld : U256} {mixed : Bool} {st : InsertState}
    (hadmin : ∃ admin, s.admin = some admin)
    (hfind : findKeyInternal s.node key.toU256 (splitBits key.toU256) (s.root.getD 0) = .ok find)
    (hfound : find.found = false)
    (hstart : startInsert (splitBits key.toU256) find = pure (siblings, rtOld, mixed))
    (hloop : (siblings.zipIdx.foldrM
        (insertStep (splitBits key.toU256) find.siblings siblings.length (!find.isOld0))
        { rt := (treeRoot (.leaf key value)).toU256, rtOld, mixed }).run
        { s with node := putNode (.leaf key value) s.node } = .ok st { s with node }) :
    (insertLeaf true key.toU256 value.toU256).run s = .ok ()
      { s with
        node
        root := some st.rt
        events := s.events ++ [.leafInserted key.toU256 value.toU256 st.rt] } := by
  obtain ⟨admin, hadmin⟩ := hadmin
  have hok : (Contract.okOr s.admin .notInitialized : AspM Address) = pure admin := by
    rw [hadmin]
    rfl
  have hfail : (Contract.failIf (find.found = true) .keyAlreadyExists : AspM Unit) = pure () :=
    Contract.failIf_neg (by simp [hfound])
  unfold insertLeaf
  rw [EStateM.run_bind, EStateM.run_get]
  simp only [hok, Contract.requireAuth_true, pure_bind, hfind, liftResult, hfail, hstart,
    hashLeaf_toU256]
  rw [Contract.run_bind_of_ok (setNode_leaf_run key value s), Contract.run_bind_of_ok hloop]
  rfl

theorem siblingRoots_fork (b : ℕ → Bool) (old : KeyTree) : ∀ n m,
    siblingRoots (fork b old n m) = List.replicate m 0 ++ [(treeRoot old).toU256]
  | _, 0 => rfl
  | n, m + 1 => by
      rw [fork, siblingRoots_cons, siblingRoots_fork b old (n + 1) m, List.replicate_succ]
      rfl

theorem siblingRoots_getD {p : Path Fr Fr} {i : ℕ} {c : Bool × KeyTree} (h : p[i]? = some c) :
    (siblingRoots p).getD i 0 = (treeRoot c.2).toU256 := by
  rw [siblingRoots, List.getD_eq_getElem?_getD, List.getElem?_map, h]
  rfl

/-- `startInsert` extends the siblings to those of the path to the new leaf. -/
theorem startInsert_eq {p : Path Fr Fr} {slot : KeyTree} (hw : walk (keyBit key) 0 t = (p, slot))
    (habsent : key ∉ t.keys) :
    startInsert (splitBits key.toU256) (slotResult key.toU256 (siblingRoots p) slot) =
      pure (siblingRoots (insertPath t key), (treeRoot slot).toU256,
        decide (slot = .empty) && !p.isEmpty) := by
  unfold insertPath
  rw [hw]
  cases slot with
  | node l r => exact absurd hw Tree.walk_ne_node
  | empty =>
    cases p <;> rfl
  | leaf oldKey oldValue =>
    have hne : oldKey.toU256 ≠ key.toU256 :=
      mt Fr.toU256_inj.mp (Tree.ne_of_walk_leaf hw habsent)
    unfold startInsert
    rw [slotResult, if_neg hne]
    simp only [Bool.false_eq_true, if_false, hashLeaf_toU256, pure_bind, siblingRoots_length,
      siblingRoots_append, siblingRoots_fork, List.append_assoc, commonBits]
    rfl

include hS h0 in
/-- The loop of `insert_leaf`: the nodes of the new path are stored, and of the old ones
only those of the old path are gone. -/
theorem insertLoop_insertPath {p : Path Fr Fr} {slot : KeyTree}
    (hw : walk (keyBit key) 0 t = (p, slot)) (hcan : t.Canonical keyBit 0) (ht : Tracked S t)
    (htr : Tracked S (insertTree t key value)) (habsent : key ∉ t.keys) :
    ∃ node st, ((siblingRoots (insertPath t key)).zipIdx.foldrM
        (insertStep (splitBits key.toU256) (siblingRoots p)
          (siblingRoots (insertPath t key)).length (decide (slot ≠ .empty)))
        { rt := (treeRoot (.leaf key value)).toU256, rtOld := (treeRoot slot).toU256,
          mixed := decide (slot = .empty) && !p.isEmpty }).run s = .ok st { s with node } ∧
      st.rt = (treeRoot (insertTree t key value)).toU256 ∧
      Rewrites S (spine (insertPath t key) (.leaf key value)) (spine p slot) s.node node := by
  have hplug := Tree.plug_walk (keyBit key) 0 t
  have hf := Tree.follows_walk (keyBit key) 0 t
  have hlen := walk_length_le hcan (keyBit key)
  have hbits : ∀ i < 256, (splitBits key.toU256)[i]? = some (keyBit key i) :=
    fun i hi => splitBits_getElem? key.toU256 hi
  have hlast := last_root_ne_zero h0 hcan ht key
  rw [hw] at hplug hf hlen hlast
  dsimp only at hplug hf hlen hlast
  -- the new nodes hold the key, the old ones do not
  have hself : key ∈ (Tree.leaf key value : KeyTree).keys := by simp
  have hsep {q : Path Fr Fr} {u w : KeyTree} (hu : key ∈ u.keys) (hwq : w ∈ spine q u) :
      w ∉ spine p slot :=
    not_mem_spine_of_absent hplug habsent (Tree.keys_subset_of_mem_spine hwq hu)
  have hold : ∀ w ∈ spine p slot, Tracked S w := fun w hwp =>
    ht.of_mem_subtrees (hplug ▸ Tree.mem_subtrees_of_mem_spine hwp)
  have hnew : ∀ w ∈ spine (insertPath t key) (.leaf key value), Tracked S w := fun w hwp =>
    htr.of_mem_subtrees (Tree.mem_subtrees_of_mem_spine hwp)
  have hget : ∀ i c, p[i]? = some c → (siblingRoots p).getD (0 + i) 0 = (treeRoot c.2).toU256 :=
    fun i c hi => by
      rw [Nat.zero_add]
      exact siblingRoots_getD hi
  unfold insertTree
  unfold insertPath at hnew ⊢
  rw [hw] at hnew ⊢
  cases slot with
  | node l r => exact absurd hw Tree.walk_ne_node
  | empty =>
    dsimp only at hnew ⊢
    have hbits : ∀ i < p.length, (splitBits key.toU256)[i]? = some (keyBit key i) :=
      fun i hi => hbits i (by omega)
    obtain ⟨node, hrun, hstored⟩ := insertLoop_path hS h0 .empty (.leaf key value) (s := s)
      false (!p.isEmpty) hbits hf (Nat.zero_add _).le hget (by simp)
      (fun hp => Or.inl (by simpa using hp)) (fun w hwp => ⟨hnew w hwp, hsep hself hwp⟩) hold
    rw [siblingRoots_length]
    exact ⟨node, _, hrun, rfl, hstored⟩
  | leaf oldKey oldValue =>
    dsimp only at hnew ⊢
    have hne : oldKey ≠ key := Tree.ne_of_walk_leaf hw habsent
    rw [← hplug] at hcan
    have hsame : ∀ i < p.length, keyBit oldKey i = keyBit key i := fun i hi => by
      have := hcan.along hf oldKey (by simp) i hi
      rwa [Nat.zero_add] at this
    have hlt := commonBits_lt hne hsame
    generalize commonBits oldKey key p.length = m at hlt hnew ⊢
    have hbits : ∀ i < p.length + m + 1, (splitBits key.toU256)[i]? = some (keyBit key i) :=
      fun i hi => hbits i (by omega)
    rw [Tree.spine_append] at hnew ⊢
    obtain ⟨node₁, hrun₁, hstored₁⟩ := insertLoop_fork hS h0 (.leaf oldKey oldValue)
      (.leaf key value) (treeRoot (.leaf oldKey oldValue)).toU256 (s := s) hbits (m := m)
      (n := p.length) rfl (fun w hwp => hnew w (List.mem_append_right _ hwp))
    obtain ⟨node₂, hrun₂, hstored₂⟩ := insertLoop_path hS h0 (.leaf oldKey oldValue)
      (plug (fork (keyBit key) (.leaf oldKey oldValue) p.length m) (.leaf key value))
      (s := { s with node := node₁ }) true false hbits hf (by omega) hget (by omega)
      (fun _ => Or.inr ⟨by omega, hlast⟩)
      (fun w hwp => ⟨hnew w (List.mem_append_left _ hwp),
        hsep (Tree.mem_keys_plug.mpr (Or.inl hself)) hwp⟩) hold
    have hlen : (siblingRoots (p ++ fork (keyBit key) (.leaf oldKey oldValue) p.length m)).length =
        p.length + m + 1 := by simp; omega
    rw [hlen, siblingRoots_append, List.zipIdx_append, List.foldrM_append, siblingRoots_length,
      Nat.zero_add, Tree.plug_append]
    refine ⟨node₂, _, (Contract.run_bind_of_ok hrun₁).trans hrun₂, rfl, ?_⟩
    have hboth := hstored₁.trans hstored₂ fun w hwf => hsep hself hwf
    rwa [List.append_nil] at hboth

include hS h0 in
/-- `insert_leaf` of an absent key succeeds, and the storage then holds the tree with the key:
the nodes of its path come in the place of those of the old path. -/
theorem Keeps.insertLeaf (h : Keeps S s t) (habsent : key ∉ t.keys)
    (htr : Tracked S (insertTree t key value)) :
    ∃ s', (insertLeaf true key.toU256 value.toU256).run s = .ok () s' ∧
      Keeps S s' (insertTree t key value) ∧
      Rewrites S (spine (insertPath t key) (.leaf key value) ++ [.leaf key value])
        (spine (walk (keyBit key) 0 t).1 (walk (keyBit key) 0 t).2) s.node s'.node := by
  have hfind := h.find h0 key.toU256
  unfold findResult at hfind
  rcases hw : walk (keyBit key) 0 t with ⟨p, slot⟩
  have hw' : walk key.toU256.val.testBit 0 t = (p, slot) := hw
  rw [hw'] at hfind
  dsimp only at hfind
  have hleaf : Tracked S (.leaf key value) :=
    htr.of_mem_subtrees (Tree.mem_subtrees_plug.mpr (Or.inr (Or.inl (by simp [subtrees]))))
  obtain ⟨node, st, hrun, hst, hloop⟩ := insertLoop_insertPath hS h0
    (s := { s with node := putNode (.leaf key value) s.node }) hw h.canonical h.tracked htr habsent
  have hrewrites := ((Rewrites.refl s.node).put hS h0 hleaf (by simp)).trans hloop
    fun w hwl hsp => by
      rw [List.mem_singleton.mp hwl] at hsp
      cases Tree.isNode_of_mem_spine hsp
  rw [List.append_nil] at hrewrites
  have hslot : (slotResult key.toU256 (siblingRoots p) slot).found = false ∧
      (!(slotResult key.toU256 (siblingRoots p) slot).isOld0) = decide (slot ≠ .empty) := by
    cases slot with
    | node l r => exact absurd hw Tree.walk_ne_node
    | empty => exact ⟨rfl, rfl⟩
    | leaf oldKey oldValue =>
      have hne : oldKey.toU256 ≠ key.toU256 :=
        mt Fr.toU256_inj.mp (Tree.ne_of_walk_leaf hw habsent)
      rw [slotResult, if_neg hne]
      exact ⟨rfl, rfl⟩
  have hstart := startInsert_eq hw habsent
  have hsiblings := slotResult_siblings key.toU256 (siblingRoots p) slot
  generalize slotResult key.toU256 (siblingRoots p) slot = find at hfind hslot hstart hsiblings
  rw [← hslot.2, ← hsiblings] at hrun
  refine ⟨_, insertLeaf_run h.admin hfind hslot.1 hstart hrun,
    ⟨h.admin, by rw [hst], canonical_insertTree h.canonical habsent, htr, ?_⟩, hrewrites⟩
  intro w hwt hne
  refine (hrewrites.stored w (htr.of_mem_subtrees hwt)).mpr ?_
  exact (mem_subtrees_insertTree hw h.canonical hne hwt).imp_right
    (And.imp_left fun hmem => h.stored w hmem hne)

end Keeps

end PrivatePayments.AspNonMembership
