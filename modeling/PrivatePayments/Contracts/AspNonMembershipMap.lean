import PrivatePayments.Contracts.AspNonMembershipInsert
import PrivatePayments.Contracts.AspNonMembershipDelete

/-!
# PrivatePayments.Contracts.AspNonMembershipMap

The contract as a map from keys to values. A run of `insert_leaf` and `delete_leaf` calls
keeps the storage at the canonical tree of the map, so the root does not depend on how
the map came about.
-/

namespace PrivatePayments.AspNonMembership

open SparseTree
open SparseTree.Tree (plug walk spine)

/-! ## Runs -/

/-- The calls that change the tree; `authorised` tells whether the admin signed. -/
inductive Call
  | insertLeaf (authorised : Bool) (key value : U256)
  | deleteLeaf (authorised : Bool) (key : U256)

/-- The function that is called. -/
def Call.body : Call → AspM Unit
  | .insertLeaf authorised key value => AspNonMembership.insertLeaf authorised key value
  | .deleteLeaf authorised key => AspNonMembership.deleteLeaf authorised key

/-- Keys and values are below the modulus. -/
def Call.Canonical : Call → Prop
  | .insertLeaf _ key value => key.val < bn256Modulus ∧ value.val < bn256Modulus
  | .deleteLeaf _ key => key.val < bn256Modulus

/-- The storage after a call; a call that fails leaves it as it was. -/
def step (s : AspStorage) (c : Call) : AspStorage := (Contract.invoke c.body s).2

/-- The storage after some calls. -/
def run (calls : List Call) (s : AspStorage) : AspStorage := calls.foldl step s

/-- The storage after deployment. -/
def deployed (admin : Address) : AspStorage := (Contract.invoke (constructor admin) {}).2

/-! ## The map -/

/-- The map from keys to values. -/
abbrev KeyMap := U256 → Option U256

/-- Whether a call changes the map. -/
def Call.succeeds (m : KeyMap) : Call → Bool
  | .insertLeaf authorised key _ => authorised && (m key).isNone
  | .deleteLeaf authorised key => authorised && (m key).isSome

/-- The map after a call. -/
def Call.apply (m : KeyMap) (c : Call) : KeyMap :=
  if c.succeeds m then
    match c with
    | .insertLeaf _ key value => Function.update m key (some value)
    | .deleteLeaf _ key => Function.update m key none
  else m

/-- The map after some calls, from the empty map. -/
def mapAfter (calls : List Call) : KeyMap := calls.foldl Call.apply fun _ => none

/-- The entries are those of the map, each once. -/
def Enumerates (es : List (Fr × Fr)) (m : KeyMap) : Prop :=
  (es.map Prod.fst).Nodup ∧
    ∀ key value, m key = some value ↔ ∃ e ∈ es, e.1.toU256 = key ∧ e.2.toU256 = value

/-! ## The hash calls of a run -/

/-- Whether a call changes the entries. -/
def Call.changes (es : List (Fr × Fr)) : Call → Bool
  | .insertLeaf authorised key _ => authorised && !es.any fun e => e.1 = key.toFr
  | .deleteLeaf authorised key => authorised && es.any fun e => e.1 = key.toFr

/-- The entries after a call. -/
def Call.entries (es : List (Fr × Fr)) (c : Call) : List (Fr × Fr) :=
  if c.changes es then
    match c with
    | .insertLeaf _ key value => (key.toFr, value.toFr) :: es
    | .deleteLeaf _ key => es.filter fun e => e.1 ≠ key.toFr
  else es

/-- The hash calls behind the root after a call, and those that `delete_leaf` makes to find
the nodes it removes. -/
def Call.queries (es : List (Fr × Fr)) (c : Call) : List Query :=
  if c.changes es then
    AspNonMembership.queries (canonicalTree (c.entries es)) ++
      match c with
      | .insertLeaf _ _ _ => []
      | .deleteLeaf _ key =>
          AspNonMembership.queries (recomputedTree (canonicalTree es) key.toFr)
  else []

/-- The hash calls of a run. -/
def runQueries : List (Fr × Fr) → List Call → List Query
  | _, [] => []
  | es, c :: calls => c.queries es ++ runQueries (c.entries es) calls

/-- The hashes that a search from the root can come to. -/
inductive Reachable (s : AspStorage) : U256 → Prop
  | root {root : U256} (h : s.root = some root) : Reachable s root
  | left {hash l r : U256} (hr : Reachable s hash) (h0 : hash ≠ 0)
      (h : s.node hash = some [l, r]) : Reachable s l
  | right {hash l r : U256} (hr : Reachable s hash) (h0 : hash ≠ 0)
      (h : s.node hash = some [l, r]) : Reachable s r

/-! ## Entries and the map -/

theorem canonicalTree_eq {t : KeyTree} {es : List (Fr × Fr)} (h : t.Canonical keyBit 0)
    (hes : t.entries.Perm es) : canonicalTree es = t :=
  h.eq_build keyBit_ext (Nat.zero_add 254) (fun _ _ _ _ _ hi => absurd hi (Nat.not_lt_zero _)) hes

/-- The map has one enumeration, up to the order. -/
theorem Enumerates.perm {es es' : List (Fr × Fr)} {m : KeyMap} (h : Enumerates es m)
    (h' : Enumerates es' m) : es.Perm es' := by
  have hsub {es es' : List (Fr × Fr)} (h : Enumerates es m) (h' : Enumerates es' m)
      {e : Fr × Fr} (he : e ∈ es) : e ∈ es' := by
    obtain ⟨e', he', hk, hv⟩ := (h'.2 _ _).mp ((h.2 _ _).mpr ⟨e, he, rfl, rfl⟩)
    rw [← Prod.ext (Fr.toU256_inj.mp hk) (Fr.toU256_inj.mp hv)]
    exact he'
  exact (List.perm_ext_iff_of_nodup h.1.of_map h'.1.of_map).mpr fun e => ⟨hsub h h', hsub h' h⟩

section Enumerates

variable {es : List (Fr × Fr)} {m : KeyMap} (h : Enumerates es m) {key value : U256}

include h

theorem Enumerates.mem_keys (hkey : key.val < bn256Modulus) :
    key.toFr ∈ es.map Prod.fst ↔ (m key).isSome := by
  rw [Option.isSome_iff_exists]
  constructor
  · intro hmem
    obtain ⟨e, he, hk⟩ := List.mem_map.mp hmem
    exact ⟨e.2.toU256, (h.2 _ _).mpr ⟨e, he, by rw [hk, U256.toU256_toFr hkey], rfl⟩⟩
  · rintro ⟨value, hm⟩
    obtain ⟨e, he, hk, -⟩ := (h.2 _ _).mp hm
    rw [← hk, U256.toFr_toU256]
    exact List.mem_map_of_mem he

theorem Enumerates.changes_eq {c : Call} (hc : c.Canonical) : c.changes es = c.succeeds m := by
  have hany {key : U256} (hkey : key.val < bn256Modulus) :
      (es.any fun e => e.1 = key.toFr) = (m key).isSome := by
    rw [Bool.eq_iff_iff, ← h.mem_keys hkey, List.any_eq_true, List.mem_map]
    simp
  cases c with
  | insertLeaf authorised key value =>
    rw [Call.changes, hany hc.1, Call.succeeds]
    cases m key <;> rfl
  | deleteLeaf authorised key => rw [Call.changes, hany hc, Call.succeeds]

theorem Enumerates.insert (hkey : key.val < bn256Modulus) (hvalue : value.val < bn256Modulus)
    (habsent : m key = none) :
    Enumerates ((key.toFr, value.toFr) :: es) (Function.update m key (some value)) := by
  constructor
  · rw [List.map_cons, List.nodup_cons, h.mem_keys hkey, habsent]
    exact ⟨by simp, h.1⟩
  · intro k v
    rw [List.exists_mem_cons_iff, U256.toU256_toFr hkey, U256.toU256_toFr hvalue]
    by_cases hk : key = k
    · rw [← hk, Function.update_self, Option.some.injEq]
      refine ⟨fun hv => Or.inl ⟨rfl, hv⟩, ?_⟩
      rintro (⟨-, hv⟩ | hv)
      · exact hv
      · rw [(h.2 key v).mpr hv] at habsent
        cases habsent
    · rw [Function.update_of_ne (Ne.symm hk), h.2 k v]
      simp [hk]

theorem Enumerates.delete (hkey : key.val < bn256Modulus) :
    Enumerates (es.filter fun e => e.1 ≠ key.toFr) (Function.update m key none) := by
  constructor
  · exact h.1.sublist (List.filter_sublist.map Prod.fst)
  · intro k v
    by_cases hk : key = k
    · rw [← hk, Function.update_self]
      refine iff_of_false (by simp) ?_
      rintro ⟨e, he, hek, -⟩
      have hne : e.1 ≠ key.toFr := by simpa using (List.mem_filter.mp he).2
      exact hne (by rw [← hek, U256.toFr_toU256])
    · rw [Function.update_of_ne (Ne.symm hk), h.2 k v]
      refine exists_congr fun e => and_congr_left fun hek => ?_
      have hne : e.1 ≠ key.toFr := by
        intro he
        rw [he, U256.toU256_toFr hkey] at hek
        exact hk hek.1
      simp [hne]

end Enumerates

/-! ## One call -/

/-- The storage keeps the canonical tree of some entries, and these are those of the map. -/
structure Agrees (S : Set Query) (s : AspStorage) (es : List (Fr × Fr)) (m : KeyMap) : Prop where
  keeps : Keeps S s (canonicalTree es)
  perm : (canonicalTree es).entries.Perm es
  enumerates : Enumerates es m

/-- A search that finds the key says so. -/
theorem slotResult_found (key : U256) (siblings : List U256) (slot : KeyTree) :
    (slotResult key siblings slot).found = true ↔ ∃ k v, slot = .leaf k v ∧ k.toU256 = key := by
  cases slot with
  | leaf k v =>
    by_cases h : k.toU256 = key
    · rw [slotResult, if_pos h]
      simp [h]
    · rw [slotResult, if_neg h]
      simp [h]
  | _ => simp [slotResult]

section OneCall

variable {S : Set Query} (hS : Set.InjOn Query.eval S) (h0 : ∀ q ∈ S, q.eval ≠ 0)
  {s : AspStorage} {es : List (Fr × Fr)} {m : KeyMap} {c : Call}

/-- The slot of a key holds a leaf with the key exactly when the map has the key. -/
theorem Agrees.slot_iff (h : Agrees S s es m) {key value : U256} :
    (∃ k v, (walk key.val.testBit 0 (canonicalTree es)).2 = .leaf k v ∧ k.toU256 = key ∧
      v.toU256 = value) ↔ m key = some value := by
  rw [h.enumerates.2]
  constructor
  · rintro ⟨k, v, hslot, rfl, rfl⟩
    have hmem := (mem_entries_iff_slot h.keeps.canonical).mpr hslot
    exact ⟨(k, v), h.perm.mem_iff.mp hmem, rfl, rfl⟩
  · rintro ⟨⟨k, v⟩, he, rfl, rfl⟩
    have hmem := h.perm.mem_iff.mpr he
    exact ⟨k, v, (mem_entries_iff_slot h.keeps.canonical).mp hmem, rfl, rfl⟩

/-- The search finds a key exactly when the map has it. -/
theorem Agrees.found (h : Agrees S s es m) (key : U256) :
    (findResult (canonicalTree es) key).found = (m key).isSome := by
  rw [Bool.eq_iff_iff, findResult, slotResult_found, Option.isSome_iff_exists]
  constructor
  · rintro ⟨k, v, hslot, hk⟩
    exact ⟨v.toU256, h.slot_iff.mp ⟨k, v, hslot, hk, rfl⟩⟩
  · rintro ⟨value, hm⟩
    obtain ⟨k, v, hslot, hk, -⟩ := h.slot_iff.mpr hm
    exact ⟨k, v, hslot, hk⟩

theorem Agrees.foundValue (h : Agrees S s es m) {key value : U256} (hm : m key = some value) :
    (findResult (canonicalTree es) key).foundValue = value := by
  obtain ⟨k, v, hslot, hk, hv⟩ := h.slot_iff.mpr hm
  rw [findResult, hslot, slotResult, if_pos hk]
  exact hv

include h0 in
/-- A call that cannot change the map fails. -/
theorem Agrees.fails (h : Agrees S s es m) (hc : c.succeeds m = false) :
    ∃ e s', c.body.run s = .error e s' := by
  obtain ⟨admin, hadmin⟩ := h.keeps.admin
  have hok : (Contract.okOr s.admin .notInitialized : AspM Address) = pure admin := by
    rw [hadmin]
    rfl
  have hok' : (Contract.okOr s.root .notInitialized : AspM U256) =
      pure (treeRoot (canonicalTree es)).toU256 := by
    rw [h.keeps.root]
    rfl
  cases c with
  | insertLeaf authorised key value =>
    have hfind := h.keeps.find h0 key
    unfold Call.body AspNonMembership.insertLeaf
    rw [EStateM.run_bind, EStateM.run_get]
    simp only [hok, pure_bind]
    cases authorised with
    | false => exact ⟨_, _, rfl⟩
    | true =>
      rw [Call.succeeds, Bool.true_and, Option.isNone_eq_false_iff] at hc
      simp only [Contract.requireAuth_true, pure_bind, hfind, liftResult]
      rw [Contract.failIf_pos (by rw [h.found, hc])]
      exact ⟨_, _, rfl⟩
  | deleteLeaf authorised key =>
    have hfind := h.keeps.find h0 key
    rw [h.keeps.root, Option.getD_some] at hfind
    unfold Call.body AspNonMembership.deleteLeaf
    rw [EStateM.run_bind, EStateM.run_get]
    simp only [hok, pure_bind]
    cases authorised with
    | false => exact ⟨_, _, rfl⟩
    | true =>
      rw [Call.succeeds, Bool.true_and] at hc
      simp only [Contract.requireAuth_true, pure_bind, hok', hfind, liftResult]
      rw [Contract.failIf_pos (by rw [h.found, hc]; rfl)]
      exact ⟨_, _, rfl⟩

/-- A key that the map does not have is not in the tree. -/
theorem Agrees.not_mem_keys (h : Agrees S s es m) {key : U256} (hkey : key.val < bn256Modulus)
    (habsent : m key = none) : key.toFr ∉ (canonicalTree es).keys := by
  rw [Tree.keys, (h.perm.map Prod.fst).mem_iff, h.enumerates.mem_keys hkey, habsent]
  simp

/-- The canonical tree with one more entry is the tree after `insert_leaf`. -/
theorem Agrees.canonicalTree_cons (h : Agrees S s es m) {key : Fr}
    (hnot : key ∉ (canonicalTree es).keys) (value : Fr) :
    canonicalTree ((key, value) :: es) = insertTree (canonicalTree es) key value :=
  canonicalTree_eq (canonical_insertTree h.keeps.canonical hnot)
    (entries_insertTree.trans (h.perm.cons _))

include hS h0 in
/-- `insert_leaf` of a key that the map does not have. -/
theorem Agrees.insertLeaf (h : Agrees S s es m) {key value : U256}
    (hkey : key.val < bn256Modulus) (hvalue : value.val < bn256Modulus) (habsent : m key = none)
    (htr : Tracked S (canonicalTree ((key.toFr, value.toFr) :: es))) :
    ∃ s', (AspNonMembership.insertLeaf true key value).run s = .ok () s' ∧
      Agrees S s' ((key.toFr, value.toFr) :: es) (Function.update m key (some value)) ∧
      Rewrites S
        (spine (insertPath (canonicalTree es) key.toFr) (.leaf key.toFr value.toFr) ++
          [.leaf key.toFr value.toFr])
        (spine (walk (keyBit key.toFr) 0 (canonicalTree es)).1
          (walk (keyBit key.toFr) 0 (canonicalTree es)).2) s.node s'.node := by
  have hnot := h.not_mem_keys hkey habsent
  have hperm : (insertTree (canonicalTree es) key.toFr value.toFr).entries.Perm
      ((key.toFr, value.toFr) :: es) := entries_insertTree.trans (h.perm.cons _)
  have htree := h.canonicalTree_cons hnot value.toFr
  rw [htree] at htr
  obtain ⟨s', hrun, hkeeps, hrewrites⟩ := h.keeps.insertLeaf hS h0 hnot htr
  rw [U256.toU256_toFr hkey, U256.toU256_toFr hvalue] at hrun
  rw [← htree] at hkeeps hperm
  exact ⟨s', hrun, ⟨hkeeps, hperm, h.enumerates.insert hkey hvalue habsent⟩, hrewrites⟩

/-- The path of a key that the map has ends in its leaf. -/
theorem Agrees.walk_eq_leaf (h : Agrees S s es m) {key : U256} (hkey : key.val < bn256Modulus)
    (hpresent : (m key).isSome) : ∃ p value,
      walk (keyBit key.toFr) 0 (canonicalTree es) = (p, .leaf key.toFr value) := by
  have hmem : key.toFr ∈ (canonicalTree es).keys := by
    rw [Tree.keys, (h.perm.map Prod.fst).mem_iff, h.enumerates.mem_keys hkey, hpresent]
  obtain ⟨p, value, hw, -⟩ := walk_of_mem h.keeps.canonical hmem
  exact ⟨p, value, hw⟩

include hS h0 in
/-- `delete_leaf` of a key that the map has. -/
theorem Agrees.deleteLeaf (h : Agrees S s es m) {key : U256} {value : Fr} {p : Path Fr Fr}
    (hkey : key.val < bn256Modulus)
    (hw : walk (keyBit key.toFr) 0 (canonicalTree es) = (p, .leaf key.toFr value))
    (htr : Tracked S (canonicalTree (es.filter fun e => e.1 ≠ key.toFr)))
    (hrec : Tracked S (recomputedTree (canonicalTree es) key.toFr)) :
    ∃ s' added, (AspNonMembership.deleteLeaf true key).run s = .ok () s' ∧
      Agrees S s' (es.filter fun e => e.1 ≠ key.toFr) (Function.update m key none) ∧
      Rewrites S added
        (spine (promotion p).1 (.leaf key.toFr value) ++ [.leaf key.toFr value]) s.node s'.node ∧
      added ⊆ (deleteTree (canonicalTree es) key.toFr).subtrees := by
  have hcan : (deleteTree (canonicalTree es) key.toFr).Canonical keyBit 0 :=
    canonical_deleteTree h.keeps.canonical
  have hperm := perm_deleteTree h.keeps.canonical hw h.perm
  have htree := canonicalTree_eq hcan hperm
  rw [htree] at htr
  obtain ⟨s', added, hrun, hkeeps, hrewrites, hadded⟩ := h.keeps.deleteLeaf hS h0 hw htr hrec
  rw [U256.toU256_toFr hkey] at hrun
  rw [← htree] at hkeeps hperm
  exact ⟨s', added, hrun, ⟨hkeeps, hperm, h.enumerates.delete hkey⟩, hrewrites, hadded⟩

include hS h0 in
/-- A call that can change the map does. -/
theorem Agrees.succeeds (h : Agrees S s es m) (hc : c.Canonical) (hs : c.succeeds m = true)
    (hq : ∀ q ∈ c.queries es, q ∈ S) :
    ∃ s', c.body.run s = .ok () s' ∧ Agrees S s' (c.entries es) (c.apply m) := by
  have hchanges : c.changes es = true := (h.enumerates.changes_eq hc).trans hs
  unfold Call.queries at hq
  rw [if_pos hchanges] at hq
  have htr : Tracked S (canonicalTree (c.entries es)) :=
    fun q hqm => hq q (List.mem_append_left _ hqm)
  unfold Call.entries at htr ⊢
  unfold Call.apply
  rw [if_pos hchanges] at htr ⊢
  rw [if_pos hs]
  cases c with
  | insertLeaf authorised key value =>
    obtain ⟨hkey, hvalue⟩ := hc
    rw [Call.succeeds, Bool.and_eq_true, Option.isNone_iff_eq_none] at hs
    obtain ⟨rfl, habsent⟩ := hs
    obtain ⟨s', hrun, hagrees, -⟩ := h.insertLeaf hS h0 hkey hvalue habsent htr
    exact ⟨s', hrun, hagrees⟩
  | deleteLeaf authorised key =>
    rw [Call.succeeds, Bool.and_eq_true] at hs
    obtain ⟨rfl, hpresent⟩ := hs
    obtain ⟨p, value, hw⟩ := h.walk_eq_leaf hc hpresent
    have hrec : Tracked S (recomputedTree (canonicalTree es) key.toFr) :=
      fun q hqm => hq q (List.mem_append_right _ hqm)
    obtain ⟨s', -, hrun, hagrees, -⟩ := h.deleteLeaf hS h0 hc hw htr hrec
    exact ⟨s', hrun, hagrees⟩

include hS h0 in
/-- One call keeps the storage in agreement with the map, and succeeds exactly when it
changes the map. -/
theorem Agrees.step (h : Agrees S s es m) (hc : c.Canonical) (hq : ∀ q ∈ c.queries es, q ∈ S) :
    Agrees S (step s c) (c.entries es) (c.apply m) ∧
      ((Contract.invoke c.body s).1 = .ok () ↔ c.succeeds m = true) := by
  unfold AspNonMembership.step
  cases hs : c.succeeds m with
  | true =>
    obtain ⟨s', hrun, hagrees⟩ := h.succeeds hS h0 hc hs hq
    rw [Contract.invoke_of_ok hrun]
    exact ⟨hagrees, iff_of_true rfl rfl⟩
  | false =>
    obtain ⟨e, s', hrun⟩ := h.fails h0 hs
    have hchanges : c.changes es = false := (h.enumerates.changes_eq hc).trans hs
    rw [Contract.invoke_of_error hrun]
    unfold Call.entries Call.apply
    rw [hs, hchanges]
    exact ⟨h, iff_of_false (by simp) (by simp)⟩

end OneCall

/-! ## A run -/

section Run

variable {S : Set Query} (hS : Set.InjOn Query.eval S) (h0 : ∀ q ∈ S, q.eval ≠ 0)

/-- The entries after some calls. -/
def entriesAfter (calls : List Call) (es : List (Fr × Fr)) : List (Fr × Fr) :=
  calls.foldl Call.entries es

theorem runQueries_append : ∀ (calls calls' : List Call) (es : List (Fr × Fr)),
    runQueries es (calls ++ calls') =
      runQueries es calls ++ runQueries (entriesAfter calls es) calls'
  | [], _, _ => rfl
  | c :: calls, calls', es => by
      rw [List.cons_append, runQueries, runQueries, runQueries_append calls calls', List.append_assoc]
      rfl

include hS h0 in
/-- A run keeps the storage in agreement with the map. -/
theorem Agrees.run {calls : List Call} : ∀ {s : AspStorage} {es : List (Fr × Fr)} {m : KeyMap},
    Agrees S s es m → (∀ c ∈ calls, c.Canonical) → (∀ q ∈ runQueries es calls, q ∈ S) →
      Agrees S (run calls s) (entriesAfter calls es) (calls.foldl Call.apply m) := by
  induction calls with
  | nil => exact fun h _ _ => h
  | cons c calls ih =>
    intro s es m h hc hq
    rw [runQueries] at hq
    have hstep := (h.step hS h0 (hc c List.mem_cons_self)
      fun q hqm => hq q (List.mem_append_left _ hqm)).1
    exact ih hstep (fun c hcm => hc c (List.mem_cons_of_mem _ hcm))
      fun q hqm => hq q (List.mem_append_right _ hqm)

/-- The storage after deployment agrees with the empty map. -/
theorem deployed_agrees (S : Set Query) (admin : Address) :
    Agrees S (deployed admin) [] fun _ => none where
  keeps := {
    admin := ⟨admin, rfl⟩
    root := rfl
    canonical := trivial
    tracked := fun q hq => by cases hq
    stored := fun w hw hne => absurd (List.mem_singleton.mp hw) hne }
  perm := List.Perm.refl _
  enumerates := ⟨List.nodup_nil, fun key value => by simp⟩

/-- What a search can come to are the roots of subtrees. -/
theorem Keeps.reachable {s : AspStorage} {t : KeyTree} (h : Keeps S s t) {hash : U256}
    (hr : Reachable s hash) : ∃ w ∈ t.subtrees, hash = (treeRoot w).toU256 := by
  have children {hash l r : U256} (hw : ∃ w ∈ t.subtrees, hash = (treeRoot w).toU256)
      (hne : hash ≠ 0) (hnode : s.node hash = some [l, r]) :
      ∃ wl wr, SparseTree.Tree.node wl wr ∈ t.subtrees ∧ l = (treeRoot wl).toU256 ∧
        r = (treeRoot wr).toU256 := by
    obtain ⟨w, hwt, rfl⟩ := hw
    have hst := h.stored w hwt (by rintro rfl; exact hne (Fr.toU256_eq_zero.mpr rfl))
    rw [Stored, hnode, Option.some.injEq] at hst
    cases w with
    | empty => cases hst
    | leaf k v => cases hst
    | node wl wr =>
      rw [nodeData, List.cons.injEq, List.cons.injEq] at hst
      exact ⟨wl, wr, hwt, hst.1, hst.2.1⟩
  induction hr with
  | root hroot =>
    rw [h.root, Option.some.injEq] at hroot
    exact ⟨t, Tree.mem_subtrees_self t, hroot.symm⟩
  | left hr hne hnode ih =>
    obtain ⟨wl, wr, hmem, hl, -⟩ := children ih hne hnode
    exact ⟨wl, Tree.mem_subtrees_trans (by simp [Tree.subtrees, Tree.mem_subtrees_self]) hmem, hl⟩
  | right hr hne hnode ih =>
    obtain ⟨wl, wr, hmem, -, hr⟩ := children ih hne hnode
    exact ⟨wr, Tree.mem_subtrees_trans (by simp [Tree.subtrees, Tree.mem_subtrees_self]) hmem, hr⟩

/-- Every node that a search can come to is stored. -/
theorem Keeps.reachable_stored {s : AspStorage} {t : KeyTree} (h : Keeps S s t) {hash : U256}
    (hr : Reachable s hash) (hne : hash ≠ 0) : (s.node hash).isSome := by
  obtain ⟨w, hwt, rfl⟩ := h.reachable hr
  rw [h.stored w hwt (by rintro rfl; exact hne (Fr.toU256_eq_zero.mpr rfl))]
  rfl

end Run

/-! ## Calls with numbers that are not canonical -/

instance (c : Call) : Decidable c.Canonical :=
  match c with
  | .insertLeaf _ key value =>
      inferInstanceAs (Decidable (key.val < bn256Modulus ∧ value.val < bn256Modulus))
  | .deleteLeaf _ key => inferInstanceAs (Decidable (key.val < bn256Modulus))

/-- The calls whose keys and values are below the modulus. -/
def canonicalCalls (calls : List Call) : List Call := calls.filter fun c => c.Canonical

theorem canonicalCalls_append (calls calls' : List Call) :
    canonicalCalls (calls ++ calls') = canonicalCalls calls ++ canonicalCalls calls' :=
  List.filter_append ..

theorem canonicalCalls_cons_of_canonical {c : Call} (hc : c.Canonical) (calls : List Call) :
    canonicalCalls (c :: calls) = c :: canonicalCalls calls :=
  List.filter_cons_of_pos (by simpa using hc)

theorem canonicalCalls_cons_of_not {c : Call} (hc : ¬c.Canonical) (calls : List Call) :
    canonicalCalls (c :: calls) = canonicalCalls calls :=
  List.filter_cons_of_neg (by simpa using hc)

/-- A call that succeeds has hashed its key and its value, so these are canonical. -/
theorem Call.canonical_of_ok {c : Call} {s s' : AspStorage} (h : c.body.run s = .ok () s') :
    c.Canonical := by
  cases c with
  | insertLeaf authorised key value =>
      have h := Contract.get_bind_ok h
      obtain ⟨_, -, h⟩ := Contract.okOr_bind_ok h
      obtain ⟨-, h⟩ := Contract.requireAuth_bind_ok h
      obtain ⟨find, _, -, h⟩ := Contract.bind_ok h
      obtain ⟨-, h⟩ := Contract.failIf_bind_ok h
      obtain ⟨start, _, -, h⟩ := Contract.bind_ok h
      obtain ⟨rt, _, hleaf, -⟩ := Contract.bind_ok h
      exact contractHash2_ok hleaf
  | deleteLeaf authorised key =>
      have h := Contract.get_bind_ok h
      obtain ⟨_, -, h⟩ := Contract.okOr_bind_ok h
      obtain ⟨-, h⟩ := Contract.requireAuth_bind_ok h
      obtain ⟨root, -, h⟩ := Contract.okOr_bind_ok h
      obtain ⟨find, _, -, h⟩ := Contract.bind_ok h
      obtain ⟨-, h⟩ := Contract.failIf_bind_ok h
      obtain ⟨rtOld, _, hleaf, -⟩ := Contract.bind_ok h
      exact (contractHash2_ok hleaf).1

/-- The other calls do nothing. -/
theorem step_of_not_canonical {c : Call} (hc : ¬c.Canonical) (s : AspStorage) : step s c = s := by
  unfold step
  cases hrun : c.body.run s with
  | ok u s' => exact absurd (Call.canonical_of_ok hrun) hc
  | error e s' => rw [Contract.invoke_of_error hrun]

section CanonicalRun

variable {S : Set Query} (hS : Set.InjOn Query.eval S) (h0 : ∀ q ∈ S, q.eval ≠ 0)

include hS h0

/-- A run keeps the storage in agreement with the map of its canonical calls. -/
theorem Agrees.run_canonicalCalls (calls : List Call) :
    ∀ {s : AspStorage} {es : List (Fr × Fr)} {m : KeyMap}, Agrees S s es m →
      (∀ q ∈ runQueries es (canonicalCalls calls), q ∈ S) →
      Agrees S (AspNonMembership.run calls s) (entriesAfter (canonicalCalls calls) es)
        ((canonicalCalls calls).foldl Call.apply m) := by
  induction calls with
  | nil => exact fun h _ => h
  | cons c calls ih =>
      intro s es m h hq
      by_cases hc : c.Canonical
      · rw [canonicalCalls_cons_of_canonical hc] at hq ⊢
        rw [runQueries] at hq
        have hstep := (h.step hS h0 hc fun q hqm => hq q (List.mem_append_left _ hqm)).1
        exact ih hstep fun q hqm => hq q (List.mem_append_right _ hqm)
      · rw [canonicalCalls_cons_of_not hc] at hq ⊢
        rw [AspNonMembership.run, List.foldl_cons, step_of_not_canonical hc]
        exact ih h hq

end CanonicalRun

/-- **The contract is a canonical sparse Merkle map.** After any sequence of calls the root is
that of the compressed tree of the map, whatever list of its entries that tree is built from;
each call of the sequence succeeds exactly when it inserts an absent key or deletes a present
one; `find_key` answers as the map for every key; and no node below the root is missing. -/
theorem canonical_map (calls : List Call) (admin : Address) (hcalls : ∀ c ∈ calls, c.Canonical)
    (hinj : Set.InjOn Query.eval {q | q ∈ runQueries [] calls})
    (hzero : ∀ q ∈ runQueries [] calls, q.eval ≠ 0) :
    (∃ es, Enumerates es (mapAfter calls)) ∧
    (∀ es, Enumerates es (mapAfter calls) →
      (run calls (deployed admin)).root = some (treeRoot (canonicalTree es)).toU256) ∧
    (∀ before c after, calls = before ++ c :: after →
      ((Contract.invoke c.body (run before (deployed admin))).1 = .ok () ↔
        c.succeeds (mapAfter before) = true)) ∧
    (∀ key, ∃ r, (findKey key).run (run calls (deployed admin)) =
        .ok r (run calls (deployed admin)) ∧
      r.found = (mapAfter calls key).isSome ∧
      ∀ value, mapAfter calls key = some value → r.foundValue = value) ∧
    ∀ hash, Reachable (run calls (deployed admin)) hash → hash ≠ 0 →
      ((run calls (deployed admin)).node hash).isSome := by
  have h := (deployed_agrees {q | q ∈ runQueries [] calls} admin).run hinj hzero hcalls
    fun q hq => hq
  refine ⟨⟨_, h.enumerates⟩, ?_, ?_, ?_, ?_⟩
  · intro es hes
    have hperm := h.perm.trans (h.enumerates.perm hes)
    rw [canonicalTree_eq h.keeps.canonical hperm]
    exact h.keeps.root
  · rintro before c after rfl
    have hq : ∀ q ∈ runQueries [] before ++ runQueries (entriesAfter before []) (c :: after),
        q ∈ runQueries [] (before ++ c :: after) := fun q hq => by rwa [runQueries_append]
    have hbefore := (deployed_agrees {q | q ∈ runQueries [] (before ++ c :: after)} admin).run hinj
      hzero (fun c hc => hcalls c (List.mem_append_left _ hc))
      fun q hqm => hq q (List.mem_append_left _ hqm)
    refine (hbefore.step hinj hzero (hcalls c (by simp)) fun q hqm => hq q ?_).2
    exact List.mem_append_right _ (List.mem_append_left _ hqm)
  · intro key
    exact ⟨_, h.keeps.findKey hzero key, h.found key, fun value hm => h.foundValue hm⟩
  · exact fun hash hr hne => h.keeps.reachable_stored hr hne

/-- Two keys whose lowest two bits are the same, and a deletion that moves a leaf up. -/
def collidingCalls : List Call :=
  [.insertLeaf true 1 9, .insertLeaf true 5 7, .deleteLeaf true 1]

theorem canonical_map_colliding :
    (Contract.invoke (insertLeaf true 5 7) (run [.insertLeaf true 1 9] (deployed 0))).1 = .ok () ∧
      ((run collidingCalls (deployed 0)).root = some (treeRoot (canonicalTree [(5, 7)])).toU256) := by
  have hcalls : ∀ c ∈ collidingCalls, c.Canonical := by
    intro c hc
    simp only [collidingCalls, List.mem_cons, List.not_mem_nil, or_false] at hc
    rcases hc with rfl | rfl | rfl
    · exact ⟨by decide, by decide⟩
    · exact ⟨by decide, by decide⟩
    · exact (by decide : (1 : U256).val < bn256Modulus)
  have hinj : ∀ q ∈ runQueries [] collidingCalls, ∀ q' ∈ runQueries [] collidingCalls,
      q.eval = q'.eval → q = q' := by decide +kernel
  have hzero : ∀ q ∈ runQueries [] collidingCalls, q.eval ≠ 0 := by decide +kernel
  obtain ⟨-, hroot, houtcome, -⟩ := canonical_map collidingCalls 0 hcalls
    (fun q hq q' hq' h => hinj q hq q' hq' h) hzero
  refine ⟨(houtcome [.insertLeaf true 1 9] _ [.deleteLeaf true 1] rfl).mpr (by decide +kernel),
    hroot _ ⟨by simp, ?_⟩⟩
  intro key value
  have hmap : mapAfter collidingCalls = Function.update (Function.update (Function.update
      (fun _ => none) 1 (some 9)) 5 (some 7)) 1 none := rfl
  have hentry : (∃ e ∈ [((5, 7) : Fr × Fr)], e.1.toU256 = key ∧ e.2.toU256 = value) ↔
      5 = key ∧ 7 = value := by
    rw [List.exists_mem_cons_iff]
    exact or_iff_left fun ⟨e, he, _⟩ => by cases he
  rw [hmap, hentry]
  by_cases h1 : key = 1
  · rw [h1, Function.update_self]
    exact iff_of_false (by simp) fun h => absurd h.1 (by decide)
  · rw [Function.update_of_ne h1]
    by_cases h5 : key = 5
    · rw [h5, Function.update_self, Option.some.injEq]
      exact ⟨fun h => ⟨rfl, h⟩, fun h => h.2⟩
    · rw [Function.update_of_ne h5, Function.update_of_ne h1]
      exact iff_of_false (by simp) fun h => h5 h.1.symm

end PrivatePayments.AspNonMembership
