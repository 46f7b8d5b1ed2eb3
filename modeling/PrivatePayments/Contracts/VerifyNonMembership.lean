import PrivatePayments.Contracts.NonMembershipProof

/-!
# PrivatePayments.Contracts.VerifyNonMembership

The contract's own check of a proof of absence. `verify_non_membership` compares the arguments
with its own search and then folds them to the root. It takes a leaf with value zero for an
empty slot, so that it refuses its own proof when the search ends in such a leaf.
-/

namespace PrivatePayments.AspNonMembership

open SparseTree
open SparseTree.Tree (plug walk climb climbCalls)

/-- The lowest `d` bits of two keys are the same. -/
def SameBits (d : ℕ) (key key' : U256) : Prop := ∀ i < d, key.val.testBit i = key'.val.testBit i

/-- The search for the key ends in the leaf of a stored key: of all stored keys, it alone has
some of the lowest bits of the key. -/
def EndsIn (m : KeyMap) (key stored : U256) : Prop :=
  ∃ d, ∀ other, (m other).isSome → (SameBits d other key ↔ other = stored)

/-- The search for the key ends in a leaf with value zero. -/
def EndsInZero (m : KeyMap) (key : U256) : Prop :=
  ∃ stored, m stored = some 0 ∧ EndsIn m key stored

/-- The contract accepts for this key exactly the proof that its search returns. -/
structure VerifiesExactly (s : AspStorage) (m : KeyMap) (key : U256) : Prop where
  absent : m key = none → ∃ r, (findKey key).run s = .ok r s ∧
    (verifyNonMembership key r.siblings r.notFoundKey r.notFoundValue).run s = .ok true s
  present : m key ≠ none → ∀ siblings notFoundKey notFoundValue s',
    (verifyNonMembership key siblings notFoundKey notFoundValue).run s ≠ .ok true s'
  other : m key = none → ∀ r, (findKey key).run s = .ok r s →
    ∀ siblings notFoundKey notFoundValue,
      (siblings, notFoundKey, notFoundValue) ≠ (r.siblings, r.notFoundKey, r.notFoundValue) →
      ∃ e s', (verifyNonMembership key siblings notFoundKey notFoundValue).run s = .error e s'

/-- The hash calls of the fold from an empty slot at the end of the search. -/
def emptySlotQueries (es : List (Fr × Fr)) (key : Fr) : List Query :=
  (climbCalls nodeHash (keyBit key) 0
    ((walk (keyBit key) 0 (canonicalTree es)).1.map fun c => treeRoot c.2) 0).map toQuery

/-! ## The fold -/

theorem nodeHash_node (l r : Fr) : nodeHash (.node l r) = poseidon2Compress l r := rfl

theorem verifyStep_run (keyBits : List Bool) (bit : Bool) (sibling computed : Fr) {i : ℕ}
    (h : keyBits[i]? = some bit) : verifyStep keyBits (sibling.toU256, i) computed.toU256 =
      pure (if bit then poseidon2Compress sibling computed
        else poseidon2Compress computed sibling).toU256 := by
  simp only [verifyStep, h, Contract.okOr_some, pure_bind]
  cases bit with
  | true =>
      rw [if_pos rfl, if_pos rfl]
      exact hashInternal_toU256 sibling computed
  | false =>
      rw [if_neg Bool.false_ne_true, if_neg Bool.false_ne_true]
      exact hashInternal_toU256 computed sibling

/-- The fold over the siblings climbs to the root. -/
theorem verifyFold_run (key : Fr) : ∀ (path : List Fr) (n : ℕ) (leaf : Fr),
    n + path.length ≤ 256 →
    ((path.map Fr.toU256).zipIdx n).foldrM (verifyStep (splitBits key.toU256)) leaf.toU256 =
      (pure (climb nodeHash (keyBit key) n path leaf).toU256 : AspM U256)
  | [], n, leaf, _ => by
      rw [List.map_nil, List.zipIdx_nil, List.foldrM_nil, climb]
  | sibling :: path, n, leaf, h => by
      rw [List.length_cons] at h
      have hbit : (splitBits key.toU256)[n]? = some (keyBit key n) :=
        splitBits_getElem? key.toU256 (by omega)
      rw [List.map_cons, List.zipIdx_cons, List.foldrM_cons,
        verifyFold_run key path (n + 1) leaf (by omega), pure_bind,
        verifyStep_run _ (keyBit key n) _ _ hbit, climb, nodeHash_node, nodeHash_node]

/-! ## One verification -/

section Verify

variable {S : Set Query} (hS : Set.InjOn Query.eval S) (h0 : ∀ q ∈ S, q.eval ≠ 0)
  {s : AspStorage} {t : KeyTree} {key : Fr} {siblings : List U256}
  {notFoundKey notFoundValue : U256}

include h0 in
/-- A key that is found is not verified. -/
theorem Keeps.verify_found (h : Keeps S s t) (hfound : (findResult t key.toU256).found = true) :
    (verifyNonMembership key.toU256 siblings notFoundKey notFoundValue).run s = .ok false s := by
  unfold verifyNonMembership
  rw [EStateM.run_bind, EStateM.run_get]
  simp only [h.find h0 key.toU256, liftResult, pure_bind, hfound, if_true]
  rfl

include h0 in
/-- Arguments that are not what the search returns are refused. -/
theorem Keeps.verify_other (h : Keeps S s t) (hfound : (findResult t key.toU256).found = false)
    (hne : (siblings, notFoundKey, notFoundValue) ≠ ((findResult t key.toU256).siblings,
      (findResult t key.toU256).notFoundKey, (findResult t key.toU256).notFoundValue)) :
    (verifyNonMembership key.toU256 siblings notFoundKey notFoundValue).run s =
      .error (.error .invalidProof) s := by
  unfold verifyNonMembership
  rw [EStateM.run_bind, EStateM.run_get]
  simp only [h.find h0 key.toU256, liftResult, pure_bind, hfound, Bool.false_eq_true, if_false]
  by_cases hlen : (findResult t key.toU256).siblings.length ≠ siblings.length
  · rw [Contract.failIf_pos hlen]
    rfl
  · rw [Contract.failIf_neg hlen, pure_bind]
    by_cases hsiblings : siblings ≠ (findResult t key.toU256).siblings
    · rw [Contract.failIf_pos hsiblings]
      rfl
    · have hleaf : (findResult t key.toU256).notFoundKey ≠ notFoundKey ∨
          (findResult t key.toU256).notFoundValue ≠ notFoundValue := by
        by_contra hsame
        obtain ⟨hk, hv⟩ := not_or.mp hsame
        exact hne (by rw [not_not.mp hsiblings, not_not.mp hk, not_not.mp hv])
      rw [Contract.failIf_neg hsiblings, pure_bind, Contract.failIf_pos hleaf]
      rfl

/-- The digest that the fold starts from, for the slot where the search ends. -/
def foldStart : KeyTree → Fr
  | .leaf storedKey storedValue =>
      if storedValue = 0 then 0 else treeRoot (.leaf storedKey storedValue)
  | _ => 0

include h0 in
/-- The own proof is verified exactly when the fold ends in the root. -/
theorem Keeps.verify_own (h : Keeps S s t) (hfound : (findResult t key.toU256).found = false) :
    (verifyNonMembership key.toU256 (findResult t key.toU256).siblings
      (findResult t key.toU256).notFoundKey (findResult t key.toU256).notFoundValue).run s =
      if climb nodeHash (keyBit key) 0 ((walk (keyBit key) 0 t).1.map fun c => treeRoot c.2)
          (foldStart (walk (keyBit key) 0 t).2) = treeRoot t then .ok true s
      else .error (.error .invalidProof) s := by
  have hlen := walk_length_le h.canonical (keyBit key)
  have hroot : s.root.getD 0 = (treeRoot t).toU256 := by rw [h.root]; rfl
  have hwalk : findResult t key.toU256 = slotResult key.toU256
    (siblingRoots (walk (keyBit key) 0 t).1) (walk (keyBit key) 0 t).2 := rfl
  rcases hw : walk (keyBit key) 0 t with ⟨path, slot⟩
  rw [hw] at hwalk hlen
  dsimp only at hwalk hlen ⊢
  have hsiblings : siblingRoots path = (path.map fun c => treeRoot c.2).map Fr.toU256 := by
    rw [siblingRoots, List.map_map]
    rfl
  have hstart : terminalNode key.toU256 (findResult t key.toU256).notFoundKey
      (findResult t key.toU256).notFoundValue = pure (foldStart slot).toU256 := by
    rw [hwalk] at hfound ⊢
    rw [terminalNode]
    cases slot with
    | node l r => exact absurd hw Tree.walk_ne_node
    | empty => exact if_neg fun h => h.1 rfl
    | leaf k v =>
        have hk : k.toU256 ≠ key.toU256 := by
          intro hk
          rw [slotResult, if_pos hk] at hfound
          cases hfound
        rw [slotResult, if_neg hk]
        dsimp only
        by_cases hv : v = 0
        · rw [if_neg fun h => h.2 (Fr.toU256_eq_zero.mpr hv), foldStart, if_pos hv]
          rfl
        · rw [if_pos ⟨hk, mt Fr.toU256_eq_zero.mp hv⟩, foldStart, if_neg hv, hashLeaf_toU256]
  have hfold := verifyFold_run key (path.map fun c => treeRoot c.2) 0 (foldStart slot)
    (by rw [List.length_map]; omega)
  have hown : (findResult t key.toU256).siblings = siblingRoots path := by
    rw [hwalk, slotResult_siblings]
  unfold verifyNonMembership
  rw [EStateM.run_bind, EStateM.run_get]
  simp only [h.find h0 key.toU256, liftResult, pure_bind, hfound, Bool.false_eq_true, if_false]
  rw [Contract.failIf_neg (by simp), pure_bind, Contract.failIf_neg (by simp), pure_bind,
    Contract.failIf_neg (by simp), pure_bind, hstart, pure_bind, hown, hsiblings, hfold, pure_bind,
    hroot]
  by_cases hclimb : climb nodeHash (keyBit key) 0 (path.map fun c => treeRoot c.2)
      (foldStart slot) = treeRoot t
  · rw [if_pos hclimb, hclimb, Contract.failIf_neg fun h => h rfl, pure_bind]
    rfl
  · rw [if_neg hclimb, Contract.failIf_pos (mt Fr.toU256_inj.mp hclimb)]
    rfl

end Verify

/-! ## All verifications -/

section Agrees

variable {S : Set Query} (hS : Set.InjOn Query.eval S) (h0 : ∀ q ∈ S, q.eval ≠ 0)
  {s : AspStorage} {es : List (Fr × Fr)} {m : KeyMap} {key : Fr}

theorem Agrees.mem_keys_iff (h : Agrees S s es m) {k : Fr} :
    k ∈ (canonicalTree es).keys ↔ (m k.toU256).isSome := by
  have hkeys := h.enumerates.mem_keys (Fr.toU256_lt k)
  rw [U256.toFr_toU256] at hkeys
  rw [Tree.keys, (h.perm.map Prod.fst).mem_iff, hkeys]

/-- The search ends in a leaf with value zero, said of the map. -/
theorem Agrees.slot_zero_iff (h : Agrees S s es m) :
    (∃ k, (walk (keyBit key) 0 (canonicalTree es)).2 = .leaf k 0) ↔
      EndsInZero m key.toU256 := by
  have hbits : ∀ (d : ℕ) (k : Fr), (∀ i < d, keyBit k (0 + i) = keyBit key (0 + i)) ↔
      SameBits d k.toU256 key.toU256 := by
    intro d k
    simp only [Nat.zero_add, SameBits, keyBit, Fr.toU256_val]
  constructor
  · rintro ⟨k, hslot⟩
    obtain ⟨hmem, d, hd⟩ := h.keeps.canonical.walk_eq_leaf_iff.mp hslot
    refine ⟨k.toU256, (h.enumerates.2 _ _).mpr ⟨(k, 0), h.perm.mem_iff.mp hmem, rfl, rfl⟩, d, ?_⟩
    intro other hother
    obtain ⟨value, hvalue⟩ := Option.isSome_iff_exists.mp hother
    obtain ⟨e, he, rfl, -⟩ := (h.enumerates.2 _ _).mp hvalue
    rw [← hbits, hd e.1 (h.mem_keys_iff.mpr hother), Fr.toU256_inj]
  · rintro ⟨stored, hstored, d, hd⟩
    obtain ⟨e, he, rfl, hzero⟩ := (h.enumerates.2 _ _).mp hstored
    have hvalue : e.2 = 0 := Fr.toU256_eq_zero.mp hzero
    refine ⟨e.1, h.keeps.canonical.walk_eq_leaf_iff.mpr ⟨?_, d, fun k hk => ?_⟩⟩
    · rw [← hvalue]
      exact h.perm.mem_iff.mpr he
    · rw [hbits, hd k.toU256 (h.mem_keys_iff.mp hk), Fr.toU256_inj]

include hS h0 in
/-- The fold from the end of the search comes to the root unless a leaf with value zero is
there. -/
theorem Agrees.fold_iff (h : Agrees S s es m) (hq : ∀ q ∈ emptySlotQueries es key, q ∈ S) :
    climb nodeHash (keyBit key) 0
        ((walk (keyBit key) 0 (canonicalTree es)).1.map fun c => treeRoot c.2)
        (foldStart (walk (keyBit key) 0 (canonicalTree es)).2) = treeRoot (canonicalTree es) ↔
      ¬ EndsInZero m key.toU256 := by
  have hplug := Tree.plug_walk (keyBit key) 0 (canonicalTree es)
  have hclimb : treeRoot (plug (walk (keyBit key) 0 (canonicalTree es)).1
      (walk (keyBit key) 0 (canonicalTree es)).2) = _ :=
    Tree.digest_plug (Tree.follows_walk (keyBit key) 0 (canonicalTree es))
  rw [hplug] at hclimb
  rw [← h.slot_zero_iff]
  cases hslot : (walk (keyBit key) 0 (canonicalTree es)).2 with
  | node l r => exact absurd hslot Tree.slot_ne_node
  | empty =>
      rw [hslot] at hclimb
      exact iff_of_true hclimb.symm fun ⟨_, hk⟩ => by cases hk
  | leaf k v =>
      rw [hslot] at hclimb
      by_cases hv : v = 0
      · refine iff_of_false (fun hfold => ?_) fun hno => hno ⟨k, by rw [hv]⟩
        -- a fold from an empty slot that comes to the root shows that the slot is empty
        rw [foldStart, if_pos hv] at hfold
        obtain ⟨-, hempty⟩ := Tree.walk_of_climb (nodeHash_injOn hS) (fun _ hc => h0 _ hc)
          (show (Tree.empty : KeyTree).isNode = false from rfl) (fun c hc => by cases hc) h.keeps.tracked.calls
          (fun c hc => hq _ (List.mem_map_of_mem hc)) hfold
        rw [hslot] at hempty
        cases hempty
      · rw [foldStart, if_neg hv]
        refine iff_of_true hclimb.symm fun ⟨_, hk⟩ => hv ?_
        cases hk
        rfl

include hS h0 in
theorem Agrees.verifies_iff (h : Agrees S s es m)
    (hq : ∀ q ∈ emptySlotQueries es key, q ∈ S) :
    VerifiesExactly s m key.toU256 ↔ (m key.toU256 = none → ¬ EndsInZero m key.toU256) := by
  have hfound := h.found key.toU256
  have hfind := h.keeps.findKey h0 key.toU256
  constructor
  · intro hverifies habsent
    rw [habsent] at hfound
    obtain ⟨r, hr, hown⟩ := hverifies.absent habsent
    rw [hfind] at hr
    cases hr
    rw [h.keeps.verify_own h0 hfound] at hown
    rw [← h.fold_iff hS h0 hq]
    by_contra hfold
    rw [if_neg hfold] at hown
    cases hown
  · intro hslot
    refine ⟨fun habsent => ?_, fun hpresent siblings nk nv s' hrun => ?_, fun habsent r hr => ?_⟩
    · rw [habsent] at hfound
      refine ⟨_, hfind, ?_⟩
      rw [h.keeps.verify_own h0 hfound, if_pos ((h.fold_iff hS h0 hq).mpr (hslot habsent))]
    · rw [Option.isSome_iff_ne_none.mpr hpresent] at hfound
      rw [h.keeps.verify_found h0 hfound] at hrun
      cases hrun
    · rw [habsent] at hfound
      rw [hfind] at hr
      cases hr
      exact fun siblings nk nv hne => ⟨_, _, h.keeps.verify_other h0 hfound hne⟩

end Agrees

/-- **When the contract verifies exactly its own proofs.** In every state that a run of calls
reaches, the contract accepts for a key exactly the proof that its search returns, unless the
key is absent and its search ends in the leaf of another key with value zero. -/
theorem verifiesExactly_iff {S : Set Query} (hinj : Set.InjOn Query.eval S)
    (hzero : ∀ q ∈ S, q.eval ≠ 0) (calls : List Call) (admin : Address)
    (hcalls : ∀ c ∈ calls, c.Canonical) (hrun : ∀ q ∈ runQueries [] calls, q ∈ S) (key : Fr)
    (hfold : ∀ q ∈ emptySlotQueries (entriesAfter calls []) key, q ∈ S) :
    VerifiesExactly (run calls (deployed admin)) (mapAfter calls) key.toU256 ↔
      (mapAfter calls key.toU256 = none → ¬ EndsInZero (mapAfter calls) key.toU256) :=
  ((deployed_agrees S admin).run hinj hzero hcalls hrun).verifies_iff hinj hzero hfold

theorem mapAfter_insert (key value : U256) :
    mapAfter [.insertLeaf true key value] = Function.update (fun _ => none) key (some value) := rfl

/-- One leaf with value nine, and a proof of absence for another key. -/
theorem verifiesExactly_iff_oneLeaf :
    VerifiesExactly (run [.insertLeaf true 1 9] (deployed 0)) (mapAfter [.insertLeaf true 1 9])
      (5 : Fr).toU256 := by
  have hcalls : ∀ c ∈ [Call.insertLeaf true 1 9], c.Canonical := by
    intro c hc
    rw [List.mem_singleton.mp hc]
    exact ⟨by decide, by decide⟩
  have hinj : ∀ q ∈ runQueries [] [.insertLeaf true 1 9],
      ∀ q' ∈ runQueries [] [.insertLeaf true 1 9], q.eval = q'.eval → q = q' := by
    decide +kernel
  have hzero : ∀ q ∈ runQueries [] [.insertLeaf true 1 9], q.eval ≠ 0 := by decide +kernel
  have hfold : ∀ q ∈ emptySlotQueries (entriesAfter [.insertLeaf true 1 9] []) 5,
      q ∈ runQueries [] [.insertLeaf true 1 9] := by decide +kernel
  refine (verifiesExactly_iff (S := {q | q ∈ runQueries [] [.insertLeaf true 1 9]})
    (fun q hq q' hq' h => hinj q hq q' hq' h) hzero [.insertLeaf true 1 9] 0 hcalls
    (fun q hq => hq) 5 hfold).mpr ?_
  rintro - ⟨stored, hstored, -⟩
  rw [mapAfter_insert] at hstored
  by_cases h : stored = 1
  · rw [h, Function.update_self] at hstored
    exact absurd hstored (by decide)
  · rw [Function.update_of_ne h] at hstored
    cases hstored

/-- A leaf with value zero: the own proof of absence of another key is refused. -/
theorem zero_leaf_not_verified :
    ¬ VerifiesExactly (run [.insertLeaf true 1 0] (deployed 0)) (mapAfter [.insertLeaf true 1 0])
      (5 : Fr).toU256 := by
  have hcalls : ∀ c ∈ [Call.insertLeaf true 1 0], c.Canonical := by
    intro c hc
    rw [List.mem_singleton.mp hc]
    exact ⟨by decide, by decide⟩
  have hinj : ∀ q ∈ runQueries [] [.insertLeaf true 1 0],
      ∀ q' ∈ runQueries [] [.insertLeaf true 1 0], q.eval = q'.eval → q = q' := by
    decide +kernel
  have hzero : ∀ q ∈ runQueries [] [.insertLeaf true 1 0], q.eval ≠ 0 := by decide +kernel
  have hfold : ∀ q ∈ emptySlotQueries (entriesAfter [.insertLeaf true 1 0] []) 5,
      q ∈ runQueries [] [.insertLeaf true 1 0] := by decide +kernel
  have hagrees := (deployed_agrees {q | q ∈ runQueries [] [.insertLeaf true 1 0]} 0).run
    (fun q hq q' hq' h => hinj q hq q' hq' h) hzero hcalls fun q hq => hq
  have hiff := hagrees.verifies_iff (fun q hq q' hq' h => hinj q hq q' hq' h) hzero hfold
  refine fun hverifies => hiff.mp hverifies (by decide +kernel) ⟨1, by decide +kernel, 0, ?_⟩
  intro other hother
  refine iff_of_true (fun i hi => absurd hi (Nat.not_lt_zero i)) ?_
  by_contra hne
  have hnone : mapAfter [.insertLeaf true 1 0] other = none := by
    rw [mapAfter_insert]
    exact Function.update_of_ne hne _ _
  have hsome : (mapAfter [.insertLeaf true 1 0] other).isSome := hother
  rw [hnone] at hsome
  cases hsome

end PrivatePayments.AspNonMembership
