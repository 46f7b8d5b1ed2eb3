import PrivatePayments.Contracts.AspNonMembershipSound

/-!
# PrivatePayments.Contracts.AspNonMembershipDelete

`delete_leaf` keeps the invariant. Taking the leaf out of its slot collapses the path: a
leaf that was its sibling moves up past all the empty slots. The nodes that are removed
all hold the deleted key, so none of them is a node of the new tree.
-/

namespace PrivatePayments.AspNonMembership

open SparseTree
open SparseTree.Tree (plug walk Follows spine subtrees prune)

/-! ## The loop -/

/-- A round of `delete_leaf` below the first sibling: nothing is built. -/
theorem deleteStep_skip {keyBits : List Bool} {i : ℕ} {b : Bool} (old : KeyTree) (rtNew : U256)
    {s : AspStorage} (hbit : keyBits[i]? = some b) :
    (deleteStep keyBits ((treeRoot .empty).toU256, i)
      { rtNew, rtOld := (treeRoot old).toU256, mixed := false }).run s =
      .ok { rtNew, rtOld := (treeRoot (Tree.graft b old .empty)).toU256, mixed := false }
        { s with node := dropNode (Tree.graft b old .empty) s.node } := by
  have hmixed : (false || (treeRoot .empty).toU256 != 0) = false := by
    rw [treeRoot_empty, Fr.toU256_eq_zero.mpr rfl]
    rfl
  have hrun := hashInternal_old b old .empty
  unfold deleteStep
  simp only [hmixed, hbit, Contract.okOr_some, pure_bind, Bool.false_eq_true, if_false]
  cases b <;> simp only [Bool.false_eq_true, if_false, if_true] at hrun ⊢ <;>
    rw [hrun, pure_bind, Contract.run_bind_of_ok (removeNode_run _ s)] <;> rfl

/-- A round of `delete_leaf` that builds a new node. -/
theorem deleteStep_build {keyBits : List Bool} {i : ℕ} {b mixed : Bool} (old new : KeyTree)
    {x : KeyTree} {s : AspStorage} (hbit : keyBits[i]? = some b)
    (hmixed : mixed = true ∨ treeRoot x ≠ 0) :
    (deleteStep keyBits ((treeRoot x).toU256, i)
      { rtNew := (treeRoot new).toU256, rtOld := (treeRoot old).toU256, mixed }).run s =
      .ok { rtNew := (treeRoot (Tree.graft b new x)).toU256,
            rtOld := (treeRoot (Tree.graft b old x)).toU256, mixed := true }
        { s with node := putNode (Tree.graft b new x) (dropNode (Tree.graft b old x) s.node) } := by
  have hmixed : (mixed || (treeRoot x).toU256 != 0) = true := by
    rcases hmixed with h | hx
    · rw [h]
      rfl
    · rw [bne_iff_ne.mpr (mt Fr.toU256_eq_zero.mp hx), Bool.or_true]
  have hrun := hashInternal_old b old x
  unfold deleteStep
  simp only [hmixed, hbit, Contract.okOr_some, pure_bind, if_true, hashInternal_new,
    ← nodeData_graft]
  cases b <;> simp only [Bool.false_eq_true, if_false, if_true] at hrun ⊢ <;>
    rw [hrun, pure_bind, Contract.run_bind_of_ok (removeNode_run _ s),
      Contract.run_bind_of_ok (setNode_run _ _)] <;> rfl

section DeleteLoop

variable {S : Set Query} (hS : Set.InjOn Query.eval S) (h0 : ∀ q ∈ S, q.eval ≠ 0)
  {keyBits : List Bool} {b : ℕ → Bool} {key : Fr}

theorem Tracked.of_join {c x : KeyTree} {d : Bool} (h : Tracked S (Tree.join d c x)) :
    Tracked S c :=
  fun q hq => h q (List.map_subset _ (Tree.calls_subset_join d c x) hq)

include hS h0

/-- The loop of `delete_leaf`: it removes the nodes of the path and builds the collapsed path,
whose other nodes are those of the siblings. -/
theorem deleteLoop (old new : KeyTree) (hkey : key ∈ old.keys) (hsmall : new.isNode = false)
    (hbits : ∀ i < 256, keyBits[i]? = some (b i)) :
    ∀ {p : Path Fr Fr} {n : ℕ} {s : AspStorage}, Follows b n p → n + p.length ≤ 256 →
      (∀ w ∈ spine p old, Tracked S w) → (∀ c ∈ p, Tracked S c.2) → Tracked S (prune p new) →
      key ∉ (prune p new).keys →
      (new = .empty → ∀ c, p.getLast? = some c → c.2.isNode = true) →
      ∃ node added, (((siblingRoots p).zipIdx n).foldrM (deleteStep keyBits)
          { rtNew := (treeRoot new).toU256, rtOld := (treeRoot old).toU256, mixed := false }).run s =
          .ok { rtNew := (treeRoot (prune p new)).toU256, rtOld := (treeRoot (plug p old)).toU256,
                mixed := (prune p new).isNode }
            { s with node } ∧
        Rewrites S added (spine p old) s.node node ∧ added ⊆ (prune p new).subtrees ∧
        ∀ w ∈ (prune p new).subtrees, w ∈ added ∨ w ∈ new.subtrees ∨ ∃ c ∈ p, w ∈ c.2.subtrees
  | [], n, s, _, _, _, _, _, _, _ => by
      refine ⟨s.node, [], ?_, .refl s.node, List.nil_subset _, fun w hw => Or.inr (Or.inl hw)⟩
      simp [siblingRoots, hsmall]
  | (c, x) :: p, n, s, hf, hlen, hold, hsib, htr, habsent, hlast => by
      obtain ⟨rfl, hf⟩ := hf
      rw [List.length_cons] at hlen
      have habsent' : key ∉ (prune p new).keys := fun h =>
        habsent (((Tree.entries_join _ _ _).map Prod.fst).mem_iff.mpr (by
          rw [List.map_append]
          exact List.mem_append_left _ h))
      obtain ⟨node, added, hrun, hnode, hsub, hcover⟩ := deleteLoop old new hkey hsmall hbits
        (n := n + 1) (s := s) hf
        (by omega) (fun w hw => hold w (List.mem_cons_of_mem _ hw))
        (fun c hc => hsib c (List.mem_cons_of_mem _ hc)) (Tracked.of_join htr) habsent'
        (fun he c hc => hlast he c (by rw [List.getLast?_cons, hc]; rfl))
      -- the node that is removed holds the key, and those that were built do not
      have hkept : plug ((b n, x) :: p) old ∉ added := fun hmem =>
        habsent' (Tree.keys_subset_of_mem_subtrees (hsub hmem)
          (Tree.mem_keys_plug.mpr (Or.inl hkey)))
      have hdrop := hnode.drop hS h0 (hold _ List.mem_cons_self) hkept
      have hbelow : ∀ w ∈ (prune p new).subtrees,
          w ∈ added ∨ w ∈ new.subtrees ∨ ∃ c ∈ (b n, x) :: p, w ∈ c.2.subtrees := fun w hw =>
        (hcover w hw).imp_right fun h => h.imp_right (Exists.imp fun c hc =>
          hc.imp_left (List.mem_cons_of_mem _))
      rw [siblingRoots_cons, List.zipIdx_cons, List.foldrM_cons, Contract.run_bind_of_ok hrun]
      by_cases hskip : (prune p new).isNode = false ∧ x = .empty
      · obtain ⟨hsm, rfl⟩ := hskip
        have hjoin : prune ((b n, .empty) :: p) new = prune p new := Tree.join_empty_right _ hsm
        rw [hjoin, hsm]
        exact ⟨_, added, deleteStep_skip (plug p old) _ (hbits n (by omega)), hdrop, hsub, hbelow⟩
      · have hmixed : (prune p new).isNode = true ∨ treeRoot x ≠ 0 := by
          rcases Bool.eq_false_or_eq_true (prune p new).isNode with h | h
          · exact Or.inl h
          · exact Or.inr (mt (treeRoot_eq_zero h0 (hsib _ List.mem_cons_self)).mp
              fun hx => hskip ⟨h, hx⟩)
        have hjoin : prune ((b n, x) :: p) new = Tree.graft (b n) (prune p new) x := by
          rw [Tree.prune_cons]
          rcases hmixed with h | hx
          · exact Tree.join_of_isNode_left _ h
          · have hx : x ≠ .empty := mt (treeRoot_eq_zero h0 (hsib _ List.mem_cons_self)).mpr hx
            by_cases hc : prune p new = .empty
            · obtain ⟨he, hall⟩ := Tree.prune_eq_empty hc
              have hl := hlast he
              cases p with
              | nil => exact Tree.join_of_isNode_right _ (hl _ rfl)
              | cons d p =>
                obtain ⟨e, hge⟩ : ∃ e, (d :: p).getLast? = some e :=
                  ⟨_, List.getLast?_eq_some_getLast (List.cons_ne_nil d p)⟩
                have hnode := hl e (by rw [List.getLast?_cons, hge]; rfl)
                rw [hall e (List.mem_of_getLast? hge)] at hnode
                cases hnode
            · exact Tree.join_of_ne_empty _ hc hx
        rw [hjoin] at htr ⊢
        rw [Tree.isNode_graft]
        refine ⟨_, Tree.graft (b n) (prune p new) x :: added,
          deleteStep_build (plug p old) (prune p new) (hbits n (by omega)) hmixed,
          hdrop.put hS h0 htr (Tree.graft_ne_empty _ _ _), ?_, ?_⟩
        · intro w hw
          rcases List.mem_cons.mp hw with rfl | hw
          · exact Tree.mem_subtrees_self _
          · exact Tree.mem_subtrees_graft.mpr (Or.inr (Or.inl (hsub hw)))
        · intro w hw
          rcases Tree.mem_subtrees_graft.mp hw with rfl | hw | hw
          · exact Or.inl List.mem_cons_self
          · exact (hbelow w hw).imp_left fun h => List.mem_cons_of_mem _ h
          · exact Or.inr (Or.inr ⟨_, List.mem_cons_self, hw⟩)

end DeleteLoop

/-! ## The tree after a deletion -/

/-- What is left when a leaf is taken out of the slot of a path: a leaf that is the deepest
sibling moves up. -/
def promotion (p : Path Fr Fr) : Path Fr Fr × KeyTree :=
  match p.getLast? with
  | some (_, .leaf key value) => (p.dropLast, .leaf key value)
  | _ => (p, .empty)

/-- The tree after `delete_leaf`. -/
def deleteTree (t : KeyTree) (key : Fr) : KeyTree := prune (walk (keyBit key) 0 t).1 .empty

/-- The tree whose path `delete_leaf` recomputes to find the nodes to remove. -/
def recomputedTree (t : KeyTree) (key : Fr) : KeyTree :=
  plug (promotion (walk (keyBit key) 0 t).1).1 (walk (keyBit key) 0 t).2

theorem prune_promotion (p : Path Fr Fr) :
    prune (promotion p).1 (promotion p).2 = prune p .empty := by
  unfold promotion
  split
  · rename_i b k v hlast
    conv_rhs => rw [← List.dropLast_append_getLast? _ hlast, Tree.prune_append]
    rfl
  · rfl

theorem promotion_subset (p : Path Fr Fr) : ∀ c ∈ (promotion p).1, c ∈ p := by
  unfold promotion
  split
  · exact fun c hc => List.mem_of_mem_dropLast hc
  · exact fun c hc => hc

theorem promotion_follows {b : ℕ → Bool} {p : Path Fr Fr} (hf : Follows b 0 p) :
    Follows b 0 (promotion p).1 ∧ (promotion p).1.length ≤ p.length := by
  unfold promotion
  split
  · rename_i b k v hlast
    rw [← List.dropLast_append_getLast? _ hlast] at hf
    exact ⟨(Tree.follows_append.mp hf).1, by simp⟩
  · exact ⟨hf, le_refl _⟩

theorem promotion_isNode (p : Path Fr Fr) : (promotion p).2.isNode = false := by
  unfold promotion
  split <;> rfl

theorem promotion_leaf (p : Path Fr Fr) :
    (promotion p).2 = .empty ∨ ∃ c ∈ p, c.2 = (promotion p).2 := by
  unfold promotion
  split
  · rename_i hlast
    exact Or.inr ⟨_, List.mem_of_getLast? hlast, rfl⟩
  · exact Or.inl rfl

section DeleteTree

variable {t : KeyTree} {key value : Fr} {p : Path Fr Fr}

theorem entries_deleteTree (hw : walk (keyBit key) 0 t = (p, .leaf key value)) :
    t.entries.Perm ((key, value) :: (deleteTree t key).entries) := by
  have hplug := Tree.plug_walk (keyBit key) 0 t
  unfold deleteTree
  rw [hw] at hplug ⊢
  rw [← hplug]
  have hprune := (Tree.entries_prune p .empty).trans (Tree.entries_plug p .empty)
  rw [Tree.entries_empty, List.nil_append] at hprune
  exact (Tree.entries_plug p _).trans (hprune.symm.cons _)

theorem canonical_deleteTree (h : t.Canonical keyBit 0) :
    (deleteTree t key).Canonical keyBit 0 := by
  have hcan := Tree.plug_walk (keyBit key) 0 t ▸ h
  exact hcan.prune (Tree.follows_walk _ _ _) trivial (by simp [Tree.Along])

theorem not_mem_deleteTree (h : t.Canonical keyBit 0)
    (hw : walk (keyBit key) 0 t = (p, .leaf key value)) : key ∉ (deleteTree t key).keys := by
  have hnd := (((entries_deleteTree hw).map Prod.fst).nodup_iff).mp h.nodup_keys
  exact (List.nodup_cons.mp hnd).1

/-- The entries that are left are the others. -/
theorem perm_deleteTree {es : List (Fr × Fr)} (h : t.Canonical keyBit 0)
    (hw : walk (keyBit key) 0 t = (p, .leaf key value)) (hes : t.entries.Perm es) :
    (deleteTree t key).entries.Perm (es.filter fun e => e.1 ≠ key) := by
  have hself : ((deleteTree t key).entries.filter fun e => e.1 ≠ key) = (deleteTree t key).entries := by
    refine List.filter_eq_self.mpr fun e he => decide_eq_true ?_
    rintro rfl
    exact not_mem_deleteTree h hw (List.mem_map_of_mem he)
  have hperm := (hes.symm.trans (entries_deleteTree hw)).filter fun e => e.1 ≠ key
  rw [List.filter_cons_of_neg (by simp), hself] at hperm
  exact hperm.symm

/-- The deepest sibling of a leaf is a leaf or an inner node. -/
theorem last_sibling_ne_empty (h : (plug p (.leaf key value)).Canonical keyBit 0)
    {c : Bool × KeyTree} (hc : p.getLast? = some c) : c.2 ≠ .empty := by
  intro he
  rw [← List.dropLast_append_getLast? c hc] at h
  have h2 := h.last_sibling
  rw [he] at h2
  simp at h2

/-- A deepest sibling that does not move up is an inner node. -/
theorem promotion_last (h : (plug p (.leaf key value)).Canonical keyBit 0)
    (he : (promotion p).2 = .empty) :
    ∀ c, (promotion p).1.getLast? = some c → c.2.isNode = true := by
  intro c hc
  unfold promotion at he hc
  split at he
  · cases he
  · rename_i hleaf
    have hp : p.getLast? = some c := by
      split at hc
      · rename_i b k v hk
        exact absurd hk (hleaf b k v)
      · exact hc
    have hne := last_sibling_ne_empty h hp
    obtain ⟨b, x⟩ := c
    cases x with
    | empty => exact absurd rfl hne
    | leaf k v => exact absurd hp (hleaf b k v)
    | node l r => rfl

theorem promote_eq {node : U256 → Option (List U256)}
    (h : (plug p (.leaf key value)).Canonical keyBit 0)
    (hstored : ∀ c ∈ p, c.2 ≠ .empty → Stored node c.2) :
    promote node (siblingRoots p) =
      .ok ((treeRoot (promotion p).2).toU256, siblingRoots (promotion p).1) := by
  unfold promote promotion
  rw [siblingRoots, List.getLast?_map]
  cases hlast : p.getLast? with
  | none => rfl
  | some c =>
    have hne := last_sibling_ne_empty h hlast
    have hst := hstored c (List.mem_of_getLast? hlast) hne
    obtain ⟨b, x⟩ := c
    rw [Option.map_some]
    dsimp only
    rw [show node (treeRoot x).toU256 = some (nodeData x) from hst]
    cases x with
    | empty => exact absurd rfl hne
    | leaf k v =>
      rw [nodeData, ← List.map_dropLast]
      rfl
    | node l r => rfl

end DeleteTree

/-! ## The call -/

section KeepsDelete

variable {S : Set Query} (hS : Set.InjOn Query.eval S) (h0 : ∀ q ∈ S, q.eval ≠ 0)
  {s : AspStorage} {t : KeyTree} {key value : Fr}

/-- `delete_leaf`, from what its search and its loop return. -/
theorem deleteLeaf_run {node : U256 → Option (List U256)} {siblings siblings' : List U256}
    {rtNew : U256} {st : DeleteState} {root : U256}
    (hadmin : ∃ admin, s.admin = some admin) (hroot : s.root = some root)
    (hfind : findKeyInternal s.node key.toU256 (splitBits key.toU256) root =
      .ok (slotResult key.toU256 siblings (.leaf key value)))
    (hpromote : promote (dropNode (.leaf key value) s.node) siblings = .ok (rtNew, siblings'))
    (hloop : (siblings'.zipIdx.foldrM (deleteStep (splitBits key.toU256))
        { rtNew, rtOld := (treeRoot (.leaf key value)).toU256, mixed := false }).run
        { s with node := dropNode (.leaf key value) s.node } = .ok st { s with node }) :
    (deleteLeaf true key.toU256).run s = .ok ()
      { s with
        node
        root := some st.rtNew
        events := s.events ++ [.leafDeleted key.toU256 st.rtNew] } := by
  obtain ⟨admin, hadmin⟩ := hadmin
  have hok : (Contract.okOr s.admin .notInitialized : AspM Address) = pure admin := by
    rw [hadmin]
    rfl
  have hok' : (Contract.okOr s.root .notInitialized : AspM U256) = pure root := by
    rw [hroot]
    rfl
  rw [slotResult, if_pos rfl] at hfind
  have hfail : (Contract.failIf ((!true) = true) .keyNotFound : AspM Unit) = pure () :=
    Contract.failIf_neg (by simp)
  unfold deleteLeaf
  rw [EStateM.run_bind, EStateM.run_get]
  simp only [hok, hok', Contract.requireAuth_true, pure_bind, hfind, liftResult, hfail,
    hashLeaf_toU256]
  rw [Contract.run_bind_of_ok (removeNode_run (.leaf key value) s), EStateM.run_bind,
    EStateM.run_get]
  simp only [hpromote, pure_bind]
  rw [Contract.run_bind_of_ok hloop]
  rfl

include hS h0 in
/-- `delete_leaf` of a key in the tree succeeds, and the storage then holds the tree without
the key. What it removes are the nodes of the path that it recomputes. -/
theorem Keeps.deleteLeaf (h : Keeps S s t) {p : Path Fr Fr}
    (hw : walk (keyBit key) 0 t = (p, .leaf key value)) (htr : Tracked S (deleteTree t key))
    (hrec : Tracked S (recomputedTree t key)) :
    ∃ s' added, (deleteLeaf true key.toU256).run s = .ok () s' ∧ Keeps S s' (deleteTree t key) ∧
      Rewrites S added (spine (promotion p).1 (.leaf key value) ++ [.leaf key value]) s.node s'.node ∧
      added ⊆ (deleteTree t key).subtrees := by
  have hplug := Tree.plug_walk (keyBit key) 0 t
  have hf := Tree.follows_walk (keyBit key) 0 t
  have hlen := walk_length_le h.canonical (keyBit key)
  have hfind := h.find h0 key.toU256
  unfold findResult at hfind
  have hw' : walk key.toU256.val.testBit 0 t = (p, .leaf key value) := hw
  rw [hw', h.root, Option.getD_some] at hfind
  have habsent := not_mem_deleteTree h.canonical hw
  have hdel : (deleteTree t key).Canonical keyBit 0 := canonical_deleteTree h.canonical
  have hcan := h.canonical
  unfold deleteTree at htr habsent hdel ⊢
  unfold recomputedTree at hrec
  rw [hw] at hplug hf hlen htr habsent hdel hrec ⊢
  dsimp only at hplug hf hlen htr habsent hdel hrec ⊢
  rw [← hplug] at hcan
  have hleaf : Tracked S (.leaf key value) := h.tracked.of_mem_subtrees
    (hplug ▸ Tree.mem_subtrees_plug.mpr (Or.inr (Or.inl (Tree.mem_subtrees_self _))))
  have hself : key ∈ (Tree.leaf key value : KeyTree).keys := by simp
  have hdrop := (Rewrites.refl s.node).drop hS h0 hleaf List.not_mem_nil
  -- the siblings are stored, also without the leaf: they do not hold the key
  have hsib : ∀ c ∈ p, ∀ w ∈ c.2.subtrees, Tracked S w ∧ (w ≠ .empty →
      Stored s.node w ∧ Stored (dropNode (.leaf key value) s.node) w) := by
    intro c hc w hwc
    have hwt : w ∈ t.subtrees := hplug ▸ Tree.mem_subtrees_plug.mpr (Or.inr (Or.inr ⟨c, hc, hwc⟩))
    have htw := h.tracked.of_mem_subtrees hwt
    refine ⟨htw, fun hne => ⟨h.stored w hwt hne, (stored_dropNode hS h0 htw hleaf).mpr
      ⟨h.stored w hwt hne, ?_⟩⟩⟩
    rintro rfl
    have hk := Tree.keys_subset_of_mem_subtrees hwc hself
    exact habsent (Tree.mem_keys_prune.mpr (Tree.mem_keys_plug.mpr (Or.inr ⟨c, hc, hk⟩)))
  have hself' : ∀ c ∈ p, c.2 ∈ c.2.subtrees := fun c _ => Tree.mem_subtrees_self c.2
  have hpromote := promote_eq hcan fun c hc hne => ((hsib c hc c.2 (hself' c hc)).2 hne).2
  have hbits : ∀ i < 256, (splitBits key.toU256)[i]? = some (keyBit key i) :=
    fun i hi => splitBits_getElem? key.toU256 hi
  obtain ⟨hf', hlen'⟩ := promotion_follows hf
  have hsub := promotion_subset p
  rw [← prune_promotion p] at htr habsent hdel ⊢
  obtain ⟨node, added, hrun, hloop, hadded, hcover⟩ := deleteLoop hS h0 (.leaf key value)
    (promotion p).2 hself (promotion_isNode p) hbits (n := 0)
    (s := { s with node := dropNode (.leaf key value) s.node })
    hf' (by omega) (fun w hw => hrec.of_mem_subtrees (Tree.mem_subtrees_of_mem_spine hw))
    (fun c hc => (hsib c (hsub c hc) c.2 (hself' c (hsub c hc))).1) htr habsent
    (promotion_last hcan)
  have hrewrites := hdrop.trans hloop fun w hw => absurd hw List.not_mem_nil
  rw [List.append_nil] at hrewrites
  refine ⟨_, added, deleteLeaf_run h.admin h.root hfind hpromote hrun,
    ⟨h.admin, rfl, hdel, htr, ?_⟩, hrewrites, hadded⟩
  intro w hwt hne
  refine (hrewrites.stored w (htr.of_mem_subtrees hwt)).mpr ?_
  rcases hcover w hwt with hwa | hwp
  · exact Or.inl hwa
  · have hwsib : ∃ c ∈ p, w ∈ c.2.subtrees := by
      rcases hwp with hwn | ⟨c, hc, hwc⟩
      · rcases promotion_leaf p with he | ⟨c, hc, he⟩
        · rw [he] at hwn
          exact absurd (List.mem_singleton.mp hwn) hne
        · exact ⟨c, hc, he ▸ hwn⟩
      · exact ⟨c, hsub c hc, hwc⟩
    obtain ⟨c, hc, hwc⟩ := hwsib
    refine Or.inr ⟨((hsib c hc w hwc).2 hne).1, fun hmem => ?_⟩
    -- every node that is removed holds the key
    have hholds : key ∈ w.keys := by
      rcases List.mem_append.mp hmem with hsp | hwl
      · exact Tree.keys_subset_of_mem_spine hsp hself
      · rw [List.mem_singleton.mp hwl]
        exact hself
    exact habsent (Tree.keys_subset_of_mem_subtrees hwt hholds)

end KeepsDelete

end PrivatePayments.AspNonMembership
