import PrivatePayments.Contracts.AspNonMembershipMap
import PrivatePayments.Circuits.SmtVerifierSound

/-!
# PrivatePayments.Contracts.NonMembershipProof

The circuit and the contract agree on absence. `SMTVerifier` climbs from an old leaf or an
empty slot to the root, over the siblings above the trailing zeros; in a canonical tree
the deepest sibling is never zero, so that is the path which `find_key` returns.
-/

namespace PrivatePayments.AspNonMembership

open SparseTree
open SparseTree.Tree (plug walk climb climbCalls)
open SmtVerifier

/-- The subtree that a verified proof puts in the slot of the key. -/
def oldSlot (isOld0 : Bool) (oldKey oldValue : Fr) : KeyTree :=
  if isOld0 then .empty else .leaf oldKey oldValue

/-- The hash calls of `SMTVerifier` on the levels that count. -/
def verifierQueries (isOld0 : Bool) (oldKey oldValue key : Fr) (siblings : List Fr) :
    List Query :=
  queries (oldSlot isOld0 oldKey oldValue) ++
    (climbCalls nodeHash (keyBit key) 0 (liveSiblings siblings)
      (treeRoot (oldSlot isOld0 oldKey oldValue))).map toQuery

theorem oldSlot_root (isOld0 : Bool) (oldKey oldValue : Fr) :
    (if isOld0 then 0 else smtHash1 oldKey oldValue) = treeRoot (oldSlot isOld0 oldKey oldValue) := by
  cases isOld0 <;> rfl

/-- The circuit folds a path as the tree does. -/
theorem smtRoot_eq_climb (key leaf : Fr) : ∀ (path : List Fr) (n : ℕ),
    smtRoot leaf (key.val / 2 ^ n) path = climb nodeHash (keyBit key) n path leaf
  | [], _ => rfl
  | s :: path, n => by
      have ih := smtRoot_eq_climb key leaf path (n + 1)
      rw [pow_succ, ← Nat.div_div_eq_div_mul] at ih
      have hbit : keyBit key n = decide (key.val / 2 ^ n % 2 = 1) := by
        rw [keyBit, Nat.testBit_eq_decide_div_mod_eq]
      rw [smtRoot, ih, climb, hbit]
      by_cases h : key.val / 2 ^ n % 2 = 1
      · rw [if_pos h, if_pos (decide_eq_true h)]
        rfl
      · rw [if_neg h, if_neg (by simpa using h)]
        rfl

/-- Trailing zeros below a sibling that is not zero do not count. -/
theorem liveSiblings_append_zeros {path : List Fr} (h : ∀ s, path.getLast? = some s → s ≠ 0)
    (n : ℕ) : liveSiblings (path ++ List.replicate n 0) = path := by
  induction path with
  | nil =>
    cases n with
    | zero => rfl
    | succ n =>
      rw [List.nil_append, List.replicate_succ, liveSiblings, if_pos]
      simp
  | cons s path ih =>
    have hlast : ∀ s, path.getLast? = some s → s ≠ 0 :=
      fun s' hs' => h s' (by rw [List.getLast?_cons, hs']; rfl)
    have hall : ¬ ((s :: (path ++ List.replicate n 0)).all (· = 0)) = true := by
      intro hall
      obtain ⟨l, hl⟩ : ∃ l, (s :: path).getLast? = some l :=
        ⟨_, List.getLast?_eq_some_getLast (List.cons_ne_nil s path)⟩
      have hmem : l ∈ s :: (path ++ List.replicate n 0) := by
        rw [← List.cons_append]
        exact List.mem_append_left _ (List.mem_of_getLast? hl)
      exact h l hl (by simpa using List.all_eq_true.mp hall l hmem)
    rw [List.cons_append, liveSiblings, if_neg hall, ih hlast]

section Proof

variable {S : Set Query} (hS : Set.InjOn Query.eval S) (h0 : ∀ q ∈ S, q.eval ≠ 0)
  {s : AspStorage} {es : List (Fr × Fr)} {m : KeyMap} {lib : Circomlib} {key : Fr}

include hS h0 in
/-- A verified proof puts the old leaf or the empty slot in the place of the key. -/
theorem Agrees.absent_of_verified (h : Agrees S s es m) {siblings : List Fr}
    {oldKey oldValue value : Fr} {isOld0 : Bool}
    (hq : ∀ q ∈ verifierQueries isOld0 oldKey oldValue key siblings, q ∈ S)
    (hv : smtVerifier lib 1 (treeRoot (canonicalTree es)) siblings oldKey oldValue (bit isOld0)
      key value 1) : m key.toU256 = none := by
  obtain ⟨-, hroot, hne⟩ := smtVerifier_iff.mp hv
  have hclimb := smtRoot_eq_climb key (treeRoot (oldSlot isOld0 oldKey oldValue))
    (liveSiblings siblings) 0
  rw [pow_zero, Nat.div_one] at hclimb
  rw [oldSlot_root, hclimb] at hroot
  have hsmall : (oldSlot isOld0 oldKey oldValue).isNode = false := by
    cases isOld0 <;> rfl
  obtain ⟨-, hslot⟩ := Tree.walk_of_climb (nodeHash_injOn hS) (fun _ hc => h0 _ hc) hsmall
    (Tracked.calls fun q hqm => hq q (List.mem_append_left _ hqm)) h.keeps.tracked.calls
    (fun c hc => hq _ (List.mem_append_right _ (List.mem_map_of_mem hc))) hroot.symm
  rw [Option.eq_none_iff_forall_ne_some]
  intro value hm
  obtain ⟨k, v, hleaf, hk, -⟩ := h.slot_iff.mpr hm
  have hleaf : (walk (keyBit key) 0 (canonicalTree es)).2 = .leaf k v := hleaf
  rw [hslot] at hleaf
  cases isOld0 with
  | true => cases hleaf
  | false =>
    have hkey := (Tree.leaf.inj hleaf).1
    exact hne rfl (hkey.trans (Fr.toU256_inj.mp hk))

/-- The slot of an absent key is what the search reports. -/
theorem Agrees.absent_slot (h : Agrees S s es m) (habsent : m key.toU256 = none) :
    let r := findResult (canonicalTree es) key.toU256
    oldSlot r.isOld0 r.notFoundKey.toFr r.notFoundValue.toFr =
      (walk (keyBit key) 0 (canonicalTree es)).2 ∧
      (r.isOld0 = false → r.notFoundKey.toFr ≠ key) := by
  have hwalk : findResult (canonicalTree es) key.toU256 = slotResult key.toU256
    (siblingRoots (walk (keyBit key) 0 (canonicalTree es)).1)
    (walk (keyBit key) 0 (canonicalTree es)).2 := rfl
  rw [hwalk]
  cases hslot : (walk (keyBit key) 0 (canonicalTree es)).2 with
  | node l r => exact absurd hslot Tree.slot_ne_node
  | empty => exact ⟨rfl, fun h => by cases h⟩
  | leaf k v =>
    have hne : k.toU256 ≠ key.toU256 := by
      intro he
      have hm : m key.toU256 = some v.toU256 := h.slot_iff.mp ⟨k, v, hslot, he, rfl⟩
      rw [hm] at habsent
      cases habsent
    rw [slotResult, if_neg hne]
    refine ⟨?_, fun _ => ?_⟩
    · simp only [oldSlot, Bool.false_eq_true, if_false, U256.toFr_toU256]
    · rw [U256.toFr_toU256]
      exact mt (congrArg Fr.toU256) hne

include h0 in
/-- What `find_key` returns for an absent key, padded with zeros, is a proof. -/
theorem Agrees.verified_of_absent (h : Agrees S s es m) (habsent : m key.toU256 = none)
    {nLevels : ℕ} (value : Fr)
    (hlen : (findResult (canonicalTree es) key.toU256).siblings.length + 1 ≤ nLevels) :
    let r := findResult (canonicalTree es) key.toU256
    smtVerifier lib 1 (treeRoot (canonicalTree es))
      (r.siblings.map U256.toFr ++ List.replicate (nLevels - r.siblings.length) 0)
      r.notFoundKey.toFr r.notFoundValue.toFr (bit r.isOld0) key value 1 := by
  have hslot := h.absent_slot habsent
  have hplug := Tree.plug_walk (keyBit key) 0 (canonicalTree es)
  have hf := Tree.follows_walk (keyBit key) 0 (canonicalTree es)
  have hwalk : findResult (canonicalTree es) key.toU256 = slotResult key.toU256
    (siblingRoots (walk (keyBit key) 0 (canonicalTree es)).1)
    (walk (keyBit key) 0 (canonicalTree es)).2 := rfl
  intro r
  have hsiblings : r.siblings = siblingRoots (walk (keyBit key) 0 (canonicalTree es)).1 := by
    rw [show r = _ from hwalk, slotResult_siblings]
  have hlast := last_root_ne_zero h0 h.keeps.canonical h.keeps.tracked key
  rcases hw : walk (keyBit key) 0 (canonicalTree es) with ⟨p, slot⟩
  rw [hw] at hplug hf hsiblings hslot hlast
  dsimp only at hplug hf hsiblings hslot hlast
  obtain ⟨hold, hne⟩ := hslot
  have hmap : (siblingRoots p).map U256.toFr = p.map fun c => treeRoot c.2 := by
    rw [siblingRoots, List.map_map]
    exact List.map_congr_left fun c _ => U256.toFr_toU256 _
  rw [hsiblings, hmap, siblingRoots_length, smtVerifier_iff]
  refine ⟨?_, ?_, hne⟩
  · have hpos : 0 < nLevels - p.length := by
      change r.siblings.length + 1 ≤ nLevels at hlen
      rw [hsiblings, siblingRoots_length] at hlen
      omega
    obtain ⟨n, hn⟩ := Nat.exists_eq_succ_of_ne_zero hpos.ne'
    rw [hn, List.replicate_succ', ← List.append_assoc, List.getLast?_concat]
  · rw [liveSiblings_append_zeros, oldSlot_root, hold]
    · have hclimb := smtRoot_eq_climb key (treeRoot slot) (p.map fun c => treeRoot c.2) 0
      rw [pow_zero, Nat.div_one] at hclimb
      rw [hclimb, ← hplug]
      exact Tree.digest_plug hf
    · intro s hs
      rw [List.getLast?_map, Option.map_eq_some_iff] at hs
      obtain ⟨c, hc, rfl⟩ := hs
      exact hlast c hc

end Proof

/-- **The circuit decides absence in the contract's tree.** In every state that a run of calls
reaches, a proof that the circuit accepts for the root shows that the key is absent, and
for an absent key the answer of `find_key`, padded with zeros, is such a proof. -/
theorem nonMembership_decided (lib : Circomlib) {S : Set Query}
    (hinj : Set.InjOn Query.eval S) (hzero : ∀ q ∈ S, q.eval ≠ 0) (calls : List Call)
    (admin : Address) (hcalls : ∀ c ∈ calls, c.Canonical) (hrun : ∀ q ∈ runQueries [] calls, q ∈ S)
    {root : U256} (hroot : (run calls (deployed admin)).root = some root) (key : Fr) :
    (∀ siblings oldKey oldValue isOld0 value,
      (∀ q ∈ verifierQueries isOld0 oldKey oldValue key siblings, q ∈ S) →
      smtVerifier lib 1 root.toFr siblings oldKey oldValue (bit isOld0) key value 1 →
      mapAfter calls key.toU256 = none) ∧
    ∀ r, mapAfter calls key.toU256 = none →
      (findKey key.toU256).run (run calls (deployed admin)) = .ok r (run calls (deployed admin)) →
      ∀ nLevels value, r.siblings.length ≤ nLevels - 1 → 1 ≤ nLevels →
        smtVerifier lib 1 root.toFr
          (r.siblings.map U256.toFr ++ List.replicate (nLevels - r.siblings.length) 0)
          r.notFoundKey.toFr r.notFoundValue.toFr (bit r.isOld0) key value 1 := by
  have h := (deployed_agrees S admin).run hinj hzero hcalls hrun
  have hr : root.toFr = treeRoot (canonicalTree (entriesAfter calls [])) := by
    rw [h.keeps.root, Option.some.injEq] at hroot
    rw [← hroot, U256.toFr_toU256]
  rw [hr]
  constructor
  · intro siblings oldKey oldValue isOld0 value hq hv
    exact h.absent_of_verified hinj hzero hq hv
  · intro r habsent hfind nLevels value hlen hpos
    rw [h.keeps.findKey hzero] at hfind
    cases hfind
    exact h.verified_of_absent hzero habsent value (by omega)

theorem nonMembership_decided_oneLeaf :
    smtVerifier Circomlib.documented 1 (poseidon2Hash2 1 9 1) [0, 0] 1 9 (bit false) 5 3 1 ∧
      mapAfter [.insertLeaf true 1 9] 5 = none := by
  have hcalls : ∀ c ∈ [Call.insertLeaf true 1 9], c.Canonical := by
    intro c hc
    rw [List.mem_singleton.mp hc]
    exact ⟨by decide, by decide⟩
  have hinj : ∀ q ∈ runQueries [] [.insertLeaf true 1 9], ∀ q' ∈ runQueries [] [.insertLeaf true 1 9],
      q.eval = q'.eval → q = q' := by decide +kernel
  have hzero : ∀ q ∈ runQueries [] [.insertLeaf true 1 9], q.eval ≠ 0 := by decide +kernel
  have hagrees := (deployed_agrees {q | q ∈ runQueries [] [.insertLeaf true 1 9]} 0).run
    (fun q hq q' hq' h => hinj q hq q' hq' h) hzero hcalls fun q hq => hq
  have hmap : mapAfter [.insertLeaf true 1 9] 5 = none := by decide +kernel
  have hfind := hagrees.keeps.findKey hzero (5 : Fr).toU256
  obtain ⟨hsound, hcomplete⟩ := nonMembership_decided Circomlib.documented
    (fun q hq q' hq' h => hinj q hq q' hq' h) hzero [.insertLeaf true 1 9] 0 hcalls
    (fun q hq => hq) hagrees.keeps.root 5
  have hproof := hcomplete _ hmap hfind 2 3 (by decide +kernel) (by decide)
  have hr : findResult (canonicalTree (entriesAfter [.insertLeaf true 1 9] [])) (5 : Fr).toU256 =
      { found := false, siblings := [], foundValue := 0, notFoundKey := 1, notFoundValue := 9,
        isOld0 := false } := by decide +kernel
  rw [hr] at hproof
  have hverified : smtVerifier Circomlib.documented 1
      (treeRoot (canonicalTree (entriesAfter [.insertLeaf true 1 9] []))).toU256.toFr [0, 0] 1 9
      (bit false) 5 3 1 := hproof
  have hqueries : ∀ q ∈ verifierQueries false 1 9 5 [0, 0],
      q ∈ runQueries [] [.insertLeaf true 1 9] := by decide +kernel
  refine ⟨?_, hsound [0, 0] 1 9 false 3 hqueries hverified⟩
  rw [U256.toFr_toU256] at hverified
  exact hverified

end PrivatePayments.AspNonMembership
