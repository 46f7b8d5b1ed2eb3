import PrivatePayments.Contracts.AspNonMembershipMap
import Mathlib.Data.List.Induction

/-!
# PrivatePayments.Contracts.AspNonMembershipNodes

Which nodes the contract keeps in its storage (`noStaleNodes_iff`).

`insert_leaf` removes the nodes of the old path. `delete_leaf` means to do the same, but when the
sibling leaf moves up it recomputes the path without that sibling: what it removes are then not
the nodes of the old path, and these stay.
-/

namespace PrivatePayments.AspNonMembership

open SparseTree
open SparseTree.Tree (plug walk spine subtrees)

/-- The node entries are those that a search from the root can come to. -/
def NoStaleNodes (s : AspStorage) : Prop :=
  ∀ hash, (s.node hash).isSome ↔ Reachable s hash ∧ hash ≠ 0

/-- The call deletes a key whose deepest sibling is a leaf. -/
def Call.Promotes (s : AspStorage) : Call → Prop
  | .insertLeaf _ _ _ => False
  | .deleteLeaf authorised key => authorised = true ∧ ∃ find last k v,
      (findKey key).run s = .ok find s ∧ find.found = true ∧
        find.siblings.getLast? = some last ∧ s.node last = some [1, k, v]

/-! ## Storages without stale nodes -/

/-- The storage holds the nodes of a tree and no others. -/
structure Exact (S : Set Query) (s : AspStorage) (t : KeyTree) : Prop where
  keeps : Keeps S s t
  clean : Clean S s.node
  live : ∀ w, Tracked S w → w ≠ .empty → Stored s.node w → w ∈ t.subtrees

section Exact

variable {S : Set Query} (hS : Set.InjOn Query.eval S) (h0 : ∀ q ∈ S, q.eval ≠ 0)
  {s s' : AspStorage} {t : KeyTree} {key value : Fr} {p : Path Fr Fr}

include h0 in
/-- A search can come to every subtree. -/
theorem Keeps.reachable_subtree (h : Keeps S s t) {u w : KeyTree} (hu : u ∈ t.subtrees)
    (hr : Reachable s (treeRoot u).toU256) (hw : w ∈ u.subtrees) :
    Reachable s (treeRoot w).toU256 := by
  induction u with
  | node l r ihl ihr =>
      have hne : (treeRoot (.node l r)).toU256 ≠ 0 := mt Fr.toU256_eq_zero.mp
        (mt (treeRoot_eq_zero h0 (h.tracked.of_mem_subtrees hu)).mp (by simp))
      have hnode := h.stored _ hu (by simp)
      have hl : l ∈ t.subtrees :=
        Tree.mem_subtrees_trans (by simp [subtrees, Tree.mem_subtrees_self]) hu
      have hr' : r ∈ t.subtrees :=
        Tree.mem_subtrees_trans (by simp [subtrees, Tree.mem_subtrees_self]) hu
      simp only [subtrees, List.mem_cons, List.mem_append] at hw
      rcases hw with rfl | hw | hw
      · exact hr
      · exact ihl hl (.left hr hne hnode) hw
      · exact ihr hr' (.right hr hne hnode) hw
  | _ =>
      rw [List.mem_singleton.mp hw]
      exact hr

include h0 in
theorem Exact.noStaleNodes (h : Exact S s t) : NoStaleNodes s := by
  intro hash
  constructor
  · intro hsome
    obtain ⟨data, hdata⟩ := Option.isSome_iff_exists.mp hsome
    obtain ⟨w, hw, hne, rfl, rfl⟩ := h.clean hdata
    have hmem := h.live w hw hne hdata
    exact ⟨h.keeps.reachable_subtree h0 (Tree.mem_subtrees_self t) (.root h.keeps.root) hmem,
      mt Fr.toU256_eq_zero.mp (mt (treeRoot_eq_zero h0 hw).mp hne)⟩
  · intro ⟨hr, hne⟩
    exact h.keeps.reachable_stored hr hne

/-- `insert_leaf` leaves no node behind. -/
theorem Exact.insertLeaf (h : Exact S s t) (hkeeps : Keeps S s' (insertTree t key value))
    (hrewrites : Rewrites S (spine (insertPath t key) (.leaf key value) ++ [.leaf key value])
      (spine (walk (keyBit key) 0 t).1 (walk (keyBit key) 0 t).2) s.node s'.node) :
    Exact S s' (insertTree t key value) where
  keeps := hkeeps
  clean := hrewrites.clean h.clean
  live w hw hne hst := by
    refine Tree.mem_subtrees_plug.mpr ?_
    rcases (hrewrites.stored w hw).mp hst with hmem | ⟨hst, hns⟩
    · exact (List.mem_append.mp hmem).imp_right Or.inl
    · have hmem := h.live w hw hne hst
      rw [← Tree.plug_walk (keyBit key) 0 t, Tree.mem_subtrees_plug] at hmem
      exact Or.inr (Or.inr (insertPath_covers rfl hne (hmem.resolve_left hns)))

/-- `delete_leaf` leaves no node behind when no leaf moves up. -/
theorem Exact.deleteLeaf (h : Exact S s t) (hw : walk (keyBit key) 0 t = (p, .leaf key value))
    (hstay : (promotion p).1 = p) (hkeeps : Keeps S s' (deleteTree t key)) {added : List KeyTree}
    (hrewrites : Rewrites S added
      (spine (promotion p).1 (.leaf key value) ++ [.leaf key value]) s.node s'.node)
    (hadded : added ⊆ (deleteTree t key).subtrees) : Exact S s' (deleteTree t key) where
  keeps := hkeeps
  clean := hrewrites.clean h.clean
  live w hwt hne hst := by
    rcases (hrewrites.stored w hwt).mp hst with hmem | ⟨hst, hns⟩
    · exact hadded hmem
    · have hmem := h.live w hwt hne hst
      rw [← Tree.plug_walk (keyBit key) 0 t, hw, Tree.mem_subtrees_plug] at hmem
      rw [hstay, List.mem_append, not_or] at hns
      unfold deleteTree
      rw [hw]
      exact Tree.mem_subtrees_prune hne ((hmem.resolve_left hns.1).resolve_left hns.2)

/-- A leaf that moves up is not on the path without it. -/
theorem promotion_last_not_mem {b : Bool} {k v : Fr}
    (hcan : (plug p (.leaf key value : KeyTree)).Canonical keyBit 0)
    (hlast : p.getLast? = some (b, .leaf k v)) :
    k ∉ (plug (promotion p).1 (.leaf key value)).keys := by
  have hpromotion : (promotion p).1 = p.dropLast := by simp [promotion, hlast]
  rw [← List.dropLast_append_getLast? _ hlast] at hcan
  have hnodup := hcan.nodup_keys
  rw [Tree.keys, ((Tree.entries_plug _ _).map Prod.fst).nodup_iff] at hnodup
  rw [hpromotion, Tree.keys, ((Tree.entries_plug _ _).map Prod.fst).mem_iff]
  rw [List.flatMap_append, List.flatMap_singleton, ← List.append_assoc, List.map_append,
    List.nodup_append] at hnodup
  intro hk
  exact hnodup.2.2 k hk k (by simp) rfl

include hS h0 in
/-- When a leaf moves up, the node that it had in common with the deleted key stays. -/
theorem Keeps.stale (h : Keeps S s t) (hw : walk (keyBit key) 0 t = (p, .leaf key value))
    {b : Bool} {k v : Fr} (hlast : p.getLast? = some (b, .leaf k v))
    (hkeeps : Keeps S s' (deleteTree t key)) {added : List KeyTree}
    (hrewrites : Rewrites S added
      (spine (promotion p).1 (.leaf key value) ++ [.leaf key value]) s.node s'.node) :
    ¬NoStaleNodes s' := by
  have hplug := Tree.plug_walk (keyBit key) 0 t
  rw [hw] at hplug
  dsimp only at hplug
  let pair : KeyTree := plug [(b, .leaf k v)] (.leaf key value)
  have hpair : pair ∈ t.subtrees := by
    rw [← hplug, ← List.dropLast_append_getLast? _ hlast]
    refine Tree.mem_subtrees_of_mem_spine ?_
    rw [Tree.spine_append]
    exact List.mem_append_right _ List.mem_cons_self
  have hkey : key ∈ pair.keys := Tree.mem_keys_plug.mpr (Or.inl (by simp))
  have hk : k ∈ pair.keys :=
    Tree.mem_keys_plug.mpr (Or.inr ⟨_, List.mem_singleton_self _, by simp⟩)
  have hne : pair ≠ .empty := Tree.graft_ne_empty _ _ _
  have htracked := h.tracked.of_mem_subtrees hpair
  have hnot : k ∉ (plug (promotion p).1 (.leaf key value)).keys :=
    promotion_last_not_mem (hplug.symm ▸ h.canonical) hlast
  -- the recomputed path does not have the other leaf's key, so the node is not removed
  have hkept : pair ∉ spine (promotion p).1 (.leaf key value) ++ [.leaf key value] := by
    intro hmem
    refine hnot ?_
    rcases List.mem_append.mp hmem with hsp | hself
    · exact Tree.keys_subset_of_mem_subtrees (Tree.mem_subtrees_of_mem_spine hsp) hk
    · rw [List.mem_singleton.mp hself] at hk
      exact Tree.mem_keys_plug.mpr (Or.inl hk)
  have hstored : Stored s'.node pair :=
    (hrewrites.stored pair htracked).mpr (Or.inr ⟨h.stored pair hpair hne, hkept⟩)
  intro hclean
  obtain ⟨hr, -⟩ := (hclean (treeRoot pair).toU256).mp (by rw [hstored]; rfl)
  obtain ⟨w, hwt, he⟩ := hkeeps.reachable hr
  have hpairw := treeRoot_inj hS h0 htracked (hkeeps.tracked.of_mem_subtrees hwt)
    (Fr.toU256_inj.mp he)
  have hsub := Tree.keys_subset_of_mem_subtrees hwt
  rw [← hpairw] at hsub
  exact not_mem_deleteTree h.canonical hw (hsub hkey)

end Exact

/-! ## One call -/

section OneCall

variable {S : Set Query} (hS : Set.InjOn Query.eval S) (h0 : ∀ q ∈ S, q.eval ≠ 0)
  {s : AspStorage} {es : List (Fr × Fr)} {m : KeyMap} {c : Call}

include h0 in
/-- The sibling that moves up, in the tree. -/
theorem Agrees.promotes_iff (h : Agrees S s es m) {key : Fr} {value : Fr} {p : Path Fr Fr}
    (hw : walk (keyBit key) 0 (canonicalTree es) = (p, .leaf key value)) :
    (Call.deleteLeaf true key.toU256).Promotes s ↔ ∃ b k v, p.getLast? = some (b, .leaf k v) := by
  have hfind := h.keeps.findKey h0 key.toU256
  have hresult : findResult (canonicalTree es) key.toU256 =
      { found := true, siblings := siblingRoots p, foundValue := value.toU256, notFoundKey := 0,
        notFoundValue := 0, isOld0 := false } := by
    have hw' : walk key.toU256.val.testBit 0 (canonicalTree es) = (p, .leaf key value) := hw
    rw [findResult, hw', slotResult, if_pos rfl]
  rw [hresult] at hfind
  -- the deepest sibling is stored
  have hlast : ∀ c, p.getLast? = some c → Stored s.node c.2 := by
    intro c hc
    have hne := last_root_ne_zero h0 h.keeps.canonical h.keeps.tracked key c (by rw [hw]; exact hc)
    refine h.keeps.stored _ ?_ fun he => hne (by rw [he]; rfl)
    rw [← Tree.plug_walk (keyBit key) 0 (canonicalTree es), hw]
    exact Tree.mem_subtrees_plug.mpr
      (Or.inr (Or.inr ⟨c, List.mem_of_getLast? hc, Tree.mem_subtrees_self _⟩))
  constructor
  · rintro ⟨-, find, last, k, v, hrun, -, hget, hnode⟩
    rw [hfind] at hrun
    cases hrun
    rw [siblingRoots, List.getLast?_map, Option.map_eq_some_iff] at hget
    obtain ⟨⟨b, x⟩, hx, rfl⟩ := hget
    have hst := hlast _ hx
    rw [Stored, hnode, Option.some.injEq] at hst
    cases x with
    | empty => cases hst
    | leaf k v => exact ⟨b, k, v, hx⟩
    | node l r => exact absurd (congrArg List.length hst) (by simp [nodeData])
  · rintro ⟨b, k, v, hx⟩
    refine ⟨rfl, _, _, k.toU256, v.toU256, hfind, rfl, ?_, hlast _ hx⟩
    rw [siblingRoots, List.getLast?_map, hx]
    rfl

include h0 in
/-- A call that deletes nothing promotes nothing. -/
theorem Agrees.succeeds_of_promotes (h : Agrees S s es m) (hp : c.Promotes s) :
    c.succeeds m = true := by
  cases c with
  | insertLeaf authorised key value => cases hp
  | deleteLeaf authorised key =>
      obtain ⟨rfl, find, last, k, v, hrun, hfound, -⟩ := hp
      rw [h.keeps.findKey h0 key] at hrun
      cases hrun
      rw [h.found] at hfound
      simpa [Call.succeeds] using hfound

theorem step_of_ok {s' : AspStorage} (h : c.body.run s = .ok () s') :
    AspNonMembership.step s c = s' := by
  rw [AspNonMembership.step, Contract.invoke_of_ok h]

include h0 in
/-- A call that cannot change the map changes nothing. -/
theorem Agrees.step_of_fails (h : Agrees S s es m) (hc : c.Canonical)
    (hs : c.succeeds m = false) : AspNonMembership.step s c = s ∧ c.entries es = es := by
  obtain ⟨e, s', hrun⟩ := h.fails h0 hs
  have hchanges : c.changes es = false := (h.enumerates.changes_eq hc).trans hs
  constructor
  · rw [AspNonMembership.step, Contract.invoke_of_error hrun]
  · unfold Call.entries
    rw [hchanges]
    rfl

/-- The hash calls of a call that changes the map. -/
theorem Agrees.tracked_of_succeeds (h : Agrees S s es m) (hc : c.Canonical)
    (hs : c.succeeds m = true) (hq : ∀ q ∈ c.queries es, q ∈ S) :
    Tracked S (canonicalTree (c.entries es)) ∧
      ∀ authorised key, c = .deleteLeaf authorised key →
        Tracked S (recomputedTree (canonicalTree es) key.toFr) := by
  have hchanges : c.changes es = true := (h.enumerates.changes_eq hc).trans hs
  unfold Call.queries at hq
  rw [if_pos hchanges] at hq
  refine ⟨fun q hqm => hq q (List.mem_append_left _ hqm), ?_⟩
  rintro authorised key rfl
  exact fun q hqm => hq q (List.mem_append_right _ hqm)

include hS h0 in
/-- A call that promotes no leaf leaves no node behind. -/
theorem Exact.step (hexact : Exact S s (canonicalTree es)) (h : Agrees S s es m)
    (hc : c.Canonical) (hq : ∀ q ∈ c.queries es, q ∈ S) (hstay : ¬c.Promotes s) :
    Exact S (AspNonMembership.step s c) (canonicalTree (c.entries es)) := by
  cases hs : c.succeeds m with
  | false =>
      obtain ⟨hstep, hentries⟩ := h.step_of_fails h0 hc hs
      rw [hstep, hentries]
      exact hexact
  | true =>
      obtain ⟨htr, hrec⟩ := h.tracked_of_succeeds hc hs hq
      have hchanges : c.changes es = true := (h.enumerates.changes_eq hc).trans hs
      cases c with
      | insertLeaf authorised key value =>
          have hentries : (Call.insertLeaf authorised key value).entries es =
            (key.toFr, value.toFr) :: es := if_pos hchanges
          rw [hentries] at htr ⊢
          obtain ⟨hkey, hvalue⟩ := hc
          rw [Call.succeeds, Bool.and_eq_true, Option.isNone_iff_eq_none] at hs
          obtain ⟨rfl, habsent⟩ := hs
          obtain ⟨s', hrun, hagrees, hrewrites⟩ := h.insertLeaf hS h0 hkey hvalue habsent htr
          have hkeeps := hagrees.keeps
          have hstep : AspNonMembership.step s (.insertLeaf true key value) = s' := step_of_ok hrun
          rw [hstep]
          rw [h.canonicalTree_cons (h.not_mem_keys hkey habsent)] at hkeeps ⊢
          exact hexact.insertLeaf hkeeps hrewrites
      | deleteLeaf authorised key =>
          have hentries : (Call.deleteLeaf authorised key).entries es =
            es.filter fun e => e.1 ≠ key.toFr := if_pos hchanges
          rw [hentries] at htr ⊢
          rw [Call.succeeds, Bool.and_eq_true] at hs
          obtain ⟨rfl, hpresent⟩ := hs
          obtain ⟨p, value, hw⟩ := h.walk_eq_leaf hc hpresent
          obtain ⟨s', added, hrun, hagrees, hrewrites, hadded⟩ :=
            h.deleteLeaf hS h0 hc hw htr (hrec _ _ rfl)
          have hkeeps := hagrees.keeps
          have hlast : ¬∃ b k v, p.getLast? = some (b, .leaf k v) := by
            rw [← h.promotes_iff h0 hw, U256.toU256_toFr hc]
            exact hstay
          have hpromotion : (promotion p).1 = p := by
            unfold promotion
            split
            · rename_i b k v hleaf
              exact absurd ⟨b, k, v, hleaf⟩ hlast
            · rfl
          have hstep : AspNonMembership.step s (.deleteLeaf true key) = s' := step_of_ok hrun
          rw [hstep]
          rw [canonicalTree_eq (canonical_deleteTree h.keeps.canonical)
            (perm_deleteTree h.keeps.canonical hw h.perm)] at hkeeps ⊢
          exact hexact.deleteLeaf hw hpromotion hkeeps hrewrites hadded

include hS h0 in
/-- A call that promotes a leaf leaves a node behind. -/
theorem Agrees.stale (h : Agrees S s es m) (hc : c.Canonical)
    (hq : ∀ q ∈ c.queries es, q ∈ S) (hp : c.Promotes s) :
    ¬NoStaleNodes (AspNonMembership.step s c) := by
  have hs := h.succeeds_of_promotes h0 hp
  obtain ⟨htr, hrec⟩ := h.tracked_of_succeeds hc hs hq
  have hchanges : c.changes es = true := (h.enumerates.changes_eq hc).trans hs
  cases c with
  | insertLeaf authorised key value => cases hp
  | deleteLeaf authorised key =>
      have hentries : (Call.deleteLeaf authorised key).entries es =
        es.filter fun e => e.1 ≠ key.toFr := if_pos hchanges
      rw [hentries] at htr
      rw [Call.succeeds, Bool.and_eq_true] at hs
      obtain ⟨rfl, hpresent⟩ := hs
      obtain ⟨p, value, hw⟩ := h.walk_eq_leaf hc hpresent
      obtain ⟨s', added, hrun, hagrees, hrewrites, -⟩ :=
        h.deleteLeaf hS h0 hc hw htr (hrec _ _ rfl)
      have hkeeps := hagrees.keeps
      rw [← U256.toU256_toFr hc] at hp
      obtain ⟨b, k, v, hlast⟩ := (h.promotes_iff h0 hw).mp hp
      rw [canonicalTree_eq (canonical_deleteTree h.keeps.canonical)
        (perm_deleteTree h.keeps.canonical hw h.perm)] at hkeeps
      have hstep : AspNonMembership.step s (.deleteLeaf true key) = s' := step_of_ok hrun
      rw [hstep]
      exact h.keeps.stale hS h0 hw hlast hkeeps hrewrites

include h0 in
/-- A call that promotes a leaf has a key below the modulus. -/
theorem Agrees.canonical_of_promotes (h : Agrees S s es m) (hp : c.Promotes s) : c.Canonical := by
  have hs := h.succeeds_of_promotes h0 hp
  cases c with
  | insertLeaf authorised key value => cases hp
  | deleteLeaf authorised key =>
      rw [Call.succeeds, Bool.and_eq_true] at hs
      obtain ⟨value, hm⟩ := Option.isSome_iff_exists.mp hs.2
      obtain ⟨e, -, rfl, -⟩ := (h.enumerates.2 key value).mp hm
      exact e.1.toU256_lt

end OneCall

/-! ## Runs -/

theorem deployed_exact (S : Set Query) (admin : Address) : Exact S (deployed admin) .empty where
  keeps := (deployed_agrees S admin).keeps
  clean _ _ h := by cases h
  live _ _ _ h := by cases h

section Run

variable {calls before after : List Call} {c : Call} (admin : Address)
  (hinj : Set.InjOn Query.eval {q | q ∈ runQueries [] (canonicalCalls calls)})
  (hzero : ∀ q ∈ runQueries [] (canonicalCalls calls), q.eval ≠ 0)

include hinj hzero

/-- The tree that the storage has after the first calls of a run. -/
theorem agrees_before (hcalls : calls = before ++ after) :
    Agrees {q | q ∈ runQueries [] (canonicalCalls calls)} (run before (deployed admin))
      (entriesAfter (canonicalCalls before) []) (mapAfter (canonicalCalls before)) := by
  refine (deployed_agrees _ admin).run_canonicalCalls hinj hzero before fun q hq => ?_
  subst hcalls
  have hall := List.mem_append_left
    (runQueries (entriesAfter (canonicalCalls before) []) (canonicalCalls after)) hq
  rwa [← runQueries_append, ← canonicalCalls_append] at hall

omit hinj hzero in
theorem queries_before (hcalls : calls = before ++ c :: after) (hc : c.Canonical) :
    ∀ q ∈ c.queries (entriesAfter (canonicalCalls before) []),
      q ∈ runQueries [] (canonicalCalls calls) := by
  intro q hq
  rw [hcalls, canonicalCalls_append, canonicalCalls_cons_of_canonical hc, runQueries_append]
  exact List.mem_append_right _ (List.mem_append_left _ hq)

/-- Without promotions the storage holds the nodes of the tree and no others. -/
theorem exact_before
    (hstay : ∀ before c after, calls = before ++ c :: after →
      ¬c.Promotes (run before (deployed admin))) : ∀ {after}, calls = before ++ after →
    Exact {q | q ∈ runQueries [] (canonicalCalls calls)} (run before (deployed admin))
      (canonicalTree (entriesAfter (canonicalCalls before) [])) := by
  induction before using List.reverseRecOn with
  | nil => exact fun _ => deployed_exact _ admin
  | append_singleton before c ih =>
      intro after hcalls
      rw [List.append_assoc, List.singleton_append] at hcalls
      have hexact := ih hcalls
      have hrun : run (before ++ [c]) (deployed admin) = step (run before (deployed admin)) c := by
        simp [run]
      rw [hrun, canonicalCalls_append]
      by_cases hc : c.Canonical
      · have hnext := hexact.step hinj hzero (agrees_before admin hinj hzero hcalls) hc
          (queries_before hcalls hc) (hstay before c after hcalls)
        rw [canonicalCalls_cons_of_canonical hc]
        simpa [entriesAfter, canonicalCalls] using hnext
      · rw [canonicalCalls_cons_of_not hc, step_of_not_canonical hc]
        simpa [canonicalCalls] using hexact

/-- **When no node is left over.** After every call of a run the node entries are those that the
root leads to, exactly when no `delete_leaf` of the run meets a leaf as the deepest sibling of
its key. -/
theorem noStaleNodes_iff :
    (∀ before after, calls = before ++ after → NoStaleNodes (run before (deployed admin))) ↔
      ∀ before c after, calls = before ++ c :: after →
        ¬c.Promotes (run before (deployed admin)) := by
  constructor
  · intro hclean before c after hcalls hp
    have hagrees := agrees_before admin hinj hzero hcalls
    have hc := hagrees.canonical_of_promotes hzero hp
    refine hagrees.stale hinj hzero hc (queries_before hcalls hc) hp ?_
    have hnext := hclean (before ++ [c]) after (by simp [hcalls])
    simpa [run] using hnext
  · intro hstay before after hcalls
    exact (exact_before admin hinj hzero hstay hcalls).noStaleNodes hzero

end Run

/-- Two insertions, the second of them beside the leaf of the first. -/
theorem noStaleNodes_iff_inserts :
    NoStaleNodes (run [.insertLeaf true 1 9, .insertLeaf true 5 7] (deployed 0)) := by
  let calls : List Call := [.insertLeaf true 1 9, .insertLeaf true 5 7]
  have hinj : ∀ q ∈ runQueries [] (canonicalCalls calls),
      ∀ q' ∈ runQueries [] (canonicalCalls calls), q.eval = q'.eval → q = q' := by decide +kernel
  have hzero : ∀ q ∈ runQueries [] (canonicalCalls calls), q.eval ≠ 0 := by decide +kernel
  refine (@noStaleNodes_iff calls 0 (fun q hq q' hq' h => hinj q hq q' hq' h)
    hzero).mpr ?_ calls [] rfl
  intro before c after hcalls hp
  have hmem : c ∈ calls := by simp [hcalls]
  simp only [calls, List.mem_cons, List.not_mem_nil, or_false] at hmem
  rcases hmem with rfl | rfl
  · exact hp
  · exact hp

/-- A deletion after which the leaf of the other key moves up to the root. -/
def promotingCalls : List Call :=
  [.insertLeaf true 1 9, .insertLeaf true 2 7, .deleteLeaf true 1]

/-- The old root node is still stored after the deletion. -/
theorem old_root_stays :
    Set.InjOn Query.eval {q | q ∈ runQueries [] (canonicalCalls promotingCalls)} ∧
      (∀ q ∈ runQueries [] (canonicalCalls promotingCalls), q.eval ≠ 0) ∧
      ¬NoStaleNodes (run promotingCalls (deployed 0)) := by
  have hinj : ∀ q ∈ runQueries [] (canonicalCalls promotingCalls),
      ∀ q' ∈ runQueries [] (canonicalCalls promotingCalls), q.eval = q'.eval → q = q' := by
    decide +kernel
  refine ⟨fun q hq q' hq' h => hinj q hq q' hq' h, by decide +kernel, ?_⟩
  have hroot : (run promotingCalls (deployed 0)).root = some (treeRoot (.leaf 2 7)).toU256 := by
    decide +kernel
  have hleaf : (run promotingCalls (deployed 0)).node (treeRoot (.leaf 2 7)).toU256 =
      some [1, 2, 7] := by decide +kernel
  have hold : ((run promotingCalls (deployed 0)).node
      (treeRoot (.node (.leaf 2 7) (.leaf 1 9))).toU256).isSome := by decide +kernel
  have hne : (treeRoot (.node (.leaf 2 7) (.leaf 1 9))).toU256 ≠ (treeRoot (.leaf 2 7)).toU256 := by
    decide +kernel
  have honly : ∀ hash, Reachable (run promotingCalls (deployed 0)) hash →
      hash = (treeRoot (.leaf 2 7)).toU256 := by
    intro hash hr
    induction hr with
    | root h => exact Option.some.inj (h.symm.trans hroot)
    | left _ _ h ih =>
        rw [ih, hleaf] at h
        cases h
    | right _ _ h ih =>
        rw [ih, hleaf] at h
        cases h
  intro hclean
  exact hne (honly _ ((hclean _).mp hold).1)

end PrivatePayments.AspNonMembership
