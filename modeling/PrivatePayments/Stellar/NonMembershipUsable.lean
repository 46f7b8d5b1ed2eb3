import PrivatePayments.Stellar.Conversions
import PrivatePayments.Contracts.NonMembershipProof
import PrivatePayments.Prover.Crypto

/-!
# PrivatePayments.Stellar.NonMembershipUsable

When the proof of `get_nonmembership_proof` is one that the circuit accepts. The root is read
before the siblings, and the siblings are cut to a fixed depth, so this asks that the answers
of `find_key` at the two times lead to one path that is short enough.
-/

namespace PrivatePayments.AspNonMembership

open SparseTree
open SparseTree.Tree (walk climb)
open SmtVerifier

/-! ## Siblings and their trailing zeros -/

theorem liveSiblings_length_lt {siblings : List Fr} (h : siblings.getLast? = some 0) :
    (liveSiblings siblings).length < siblings.length := by
  induction siblings with
  | nil => cases h
  | cons s siblings ih =>
      unfold liveSiblings
      by_cases hall : (s :: siblings).all (· = 0) = true
      · rw [if_pos hall]
        simp
      · rw [if_neg hall]
        cases siblings with
        | nil =>
            obtain rfl : s = 0 := by simpa using h
            exact absurd rfl hall
        | cons s' siblings =>
            rw [List.getLast?_cons_cons] at h
            simpa using ih h

/-- What the live siblings leave out are zeros. -/
theorem liveSiblings_append (siblings : List Fr) :
    liveSiblings siblings ++ List.replicate (siblings.length - (liveSiblings siblings).length) 0 =
      siblings := by
  induction siblings with
  | nil => rfl
  | cons s siblings ih =>
      unfold liveSiblings
      by_cases hall : (s :: siblings).all (· = 0) = true
      · rw [if_pos hall, List.nil_append, List.length_nil, Nat.sub_zero]
        exact (List.eq_replicate_of_mem fun x hx => by
          simpa using List.all_eq_true.mp hall x hx).symm
      · rw [if_neg hall, List.cons_append, List.length_cons, List.length_cons,
          Nat.add_sub_add_right, ih]

theorem liveSiblings_replicate_zero (n : ℕ) : liveSiblings (List.replicate n (0 : Fr)) = [] := by
  have h : liveSiblings ([] ++ List.replicate n (0 : Fr)) = [] :=
    liveSiblings_append_zeros (fun s hs => by cases hs) n
  simpa using h

end PrivatePayments.AspNonMembership

namespace PrivatePayments.Stellar

open AspNonMembership SparseTree SmtVerifier
open SparseTree.Tree (walk climb)

/-! ## Parsing the answer -/

theorem fieldTryFromU256_val (x : Fr) : fieldTryFromU256 x.val = .ok x := dif_pos x.isLt

/-- The fields of an answer in the order of their names. -/
theorem findResultToScval_eq (r : FindResult) : findResultToScval r = .map
    [(.symbol "found", .bool r.found), (.symbol "found_value", .u256 r.foundValue.toParts),
     (.symbol "is_old0", .bool r.isOld0), (.symbol "not_found_key", .u256 r.notFoundKey.toParts),
     (.symbol "not_found_value", .u256 r.notFoundValue.toParts),
     (.symbol "siblings", .vec (r.siblings.map fun s => .u256 s.toParts))] := by
  have h1 : "not_found_value" ≤ "is_old0" ↔ False := by decide +kernel
  have h2 : "not_found_key" ≤ "not_found_value" := by decide +kernel
  have h3 : "not_found_key" ≤ "is_old0" ↔ False := by decide +kernel
  have h4 : "found_value" ≤ "is_old0" := by decide +kernel
  have h5 : "siblings" ≤ "found_value" ↔ False := by decide +kernel
  have h6 : "siblings" ≤ "is_old0" ↔ False := by decide +kernel
  have h7 : "siblings" ≤ "not_found_key" ↔ False := by decide +kernel
  have h8 : "siblings" ≤ "not_found_value" ↔ False := by decide +kernel
  have h9 : "found" ≤ "found_value" := by decide +kernel
  simp [findResultToScval, structScval, List.insertionSort, List.orderedInsert, h1, h2, h3, h4, h5,
    h6, h7, h8, h9]

/-- Numbers below the modulus are read back. -/
theorem parseSiblings_eq (siblings : List Fr) :
    parseSiblings (some (.vec (siblings.map fun s => .u256 s.toU256.toParts))) = .ok siblings := by
  unfold parseSiblings
  induction siblings with
  | nil => rfl
  | cons x siblings ih =>
      dsimp only at ih ⊢
      rw [List.map_cons, List.mapM_cons, ih, scvalToU256_toParts, Fr.toU256_val, Prover.ok_bind,
        fieldTryFromU256_val]
      rfl

theorem fieldOr_toParts (x absent : Fr) :
    fieldOr (some (.u256 x.toU256.toParts)) absent = .ok x := by
  unfold fieldOr
  dsimp only
  rw [scvalToU256_toParts, Prover.ok_bind, Fr.toU256_val, fieldTryFromU256_val]

/-- The client reads back the answer of the contract. -/
theorem parseFindResult_eq {r : FindResult} {siblings : List Fr} {oldKey oldValue : Fr}
    (hsiblings : r.siblings = siblings.map Fr.toU256) (hkey : r.notFoundKey = oldKey.toU256)
    (hvalue : r.notFoundValue = oldValue.toU256) :
    parseFindResult (findResultToScval r) =
      .ok { found := r.found, siblings, notFoundKey := oldKey, notFoundValue := oldValue,
            isOld0 := r.isOld0 } := by
  have hitems : (r.siblings.map fun s => ScVal.u256 s.toParts) =
      siblings.map fun s => .u256 s.toU256.toParts := by
    rw [hsiblings, List.map_map]
    rfl
  rw [findResultToScval_eq, hitems, hkey, hvalue]
  simp [parseFindResult, fieldNames, fieldGet, Prover.ok_bind, scvalToBool, parseSiblings_eq,
    fieldOr_toParts, flagOr]

/-! ## The answers -/

/-- The siblings of a search as field elements. -/
def answerSiblings (r : FindResult) : List Fr := r.siblings.map U256.toFr

variable {S : Set Query} {s : AspStorage} {es : List (Fr × Fr)} {m : KeyMap} {key : Fr}

/-- The numbers of an answer are canonical. -/
theorem findResult_canonical (t : KeyTree) (key : Fr) :
    (findResult t key.toU256).siblings =
        (answerSiblings (findResult t key.toU256)).map Fr.toU256 ∧
      (findResult t key.toU256).notFoundKey = (findResult t key.toU256).notFoundKey.toFr.toU256 ∧
      (findResult t key.toU256).notFoundValue =
        (findResult t key.toU256).notFoundValue.toFr.toU256 := by
  refine ⟨?_, ?_⟩
  · rw [answerSiblings, findResult, slotResult_siblings, siblingRoots, List.map_map, List.map_map]
    exact List.map_congr_left fun c _ => by simp
  · unfold findResult
    cases (walk key.toU256.val.testBit 0 t).2 with
    | leaf k v =>
        by_cases hk : k.toU256 = key.toU256
        · rw [slotResult, if_pos hk]
          exact ⟨rfl, rfl⟩
        · simp [slotResult, if_neg hk]
    | empty => exact ⟨by simp [slotResult], rfl⟩
    | node l r => exact ⟨by simp [slotResult], rfl⟩

/-- The siblings of an answer are the roots beside the path of the key. -/
theorem answerSiblings_findResult (t : KeyTree) (key : Fr) :
    answerSiblings (findResult t key.toU256) =
      (walk (keyBit key) 0 t).1.map fun c => treeRoot c.2 := by
  rw [answerSiblings, findResult, slotResult_siblings, siblingRoots, List.map_map]
  exact List.map_congr_left fun c _ => U256.toFr_toU256 _

theorem answerSiblings_length (r : FindResult) : (answerSiblings r).length = r.siblings.length :=
  List.length_map _

/-! ## Fitting the siblings -/

theorem fitSiblings_length (siblings : List Fr) (smtDepth : ℕ) :
    (fitSiblings siblings smtDepth).length = smtDepth := by
  unfold fitSiblings
  by_cases hlt : siblings.length < smtDepth
  · rw [if_pos hlt, List.length_append, List.length_replicate]
    omega
  · rw [if_neg hlt]
    by_cases hgt : siblings.length > smtDepth
    · rw [if_pos hgt, List.length_take]
      omega
    · rw [if_neg hgt]
      omega

theorem fitSiblings_of_lt {siblings : List Fr} {smtDepth : ℕ} (h : siblings.length < smtDepth) :
    fitSiblings siblings smtDepth =
      siblings ++ List.replicate (smtDepth - siblings.length) 0 := if_pos h

/-- Fitted siblings that end in a zero are their live part, padded. -/
theorem fitSiblings_liveSiblings {siblings : List Fr} {smtDepth : ℕ}
    (h : (fitSiblings siblings smtDepth).getLast? = some 0) :
    (liveSiblings (fitSiblings siblings smtDepth)).length < smtDepth ∧
      fitSiblings (liveSiblings (fitSiblings siblings smtDepth)) smtDepth =
        fitSiblings siblings smtDepth := by
  have hlt := liveSiblings_length_lt h
  have happend := liveSiblings_append (fitSiblings siblings smtDepth)
  rw [fitSiblings_length] at hlt happend
  exact ⟨hlt, by rw [fitSiblings_of_lt hlt, happend]⟩

/-! ## Two answers -/

/-- The answer of `find_key` when the root was read and the one when the siblings were read
lead to the same proof, and that proof leaves the last level free. -/
structure SameAnswer (smtDepth : ℕ) (atRoot atSiblings : FindResult) : Prop where
  absent : atRoot.found = false
  short : atRoot.siblings.length < smtDepth
  siblings : fitSiblings (answerSiblings atRoot) smtDepth =
    fitSiblings (answerSiblings atSiblings) smtDepth
  notFoundKey : atRoot.notFoundKey = atSiblings.notFoundKey
  notFoundValue : atRoot.notFoundValue = atSiblings.notFoundValue
  isOld0 : atRoot.isOld0 = atSiblings.isOld0

/-- Two searches that end in one slot differ in their siblings only. -/
theorem findResult_of_slot {t t' : KeyTree}
    (h : (walk (keyBit key) 0 t).2 = (walk (keyBit key) 0 t').2) :
    findResult t key.toU256 =
      { findResult t' key.toU256 with siblings := (findResult t key.toU256).siblings } := by
  have h : (walk key.toU256.val.testBit 0 t).2 = (walk key.toU256.val.testBit 0 t').2 := h
  unfold findResult
  rw [h]
  cases (walk key.toU256.val.testBit 0 t').2 with
  | leaf k v => by_cases hk : k.toU256 = key.toU256 <;> simp [slotResult, hk]
  | empty => rfl
  | node l r => rfl

/-- The relation of the circuit as a climb from the old slot. -/
theorem verified_iff_climb {lib : Circomlib} {root oldKey oldValue value : Fr} {isOld0 : Bool}
    {siblings : List Fr} :
    smtVerifier lib 1 root siblings oldKey oldValue (bit isOld0) key value 1 ↔
      siblings.getLast? = some 0 ∧
      root = climb nodeHash (keyBit key) 0 (liveSiblings siblings)
        (treeRoot (oldSlot isOld0 oldKey oldValue)) ∧
      (isOld0 = false → oldKey ≠ key) := by
  have hclimb := smtRoot_eq_climb key (treeRoot (oldSlot isOld0 oldKey oldValue))
    (liveSiblings siblings) 0
  rw [pow_zero, Nat.div_one] at hclimb
  rw [smtVerifier_iff, oldSlot_root, hclimb]

section TwoStates

variable (hS : Set.InjOn Query.eval S) (h0 : ∀ q ∈ S, q.eval ≠ 0) {s' : AspStorage}
  {es' : List (Fr × Fr)} {m' : KeyMap} {lib : Circomlib} {smtDepth : ℕ}

include h0 in
/-- Where the answers are the same, the later one is a proof for the earlier root. -/
theorem SameAnswer.verified (h : Agrees S s es m)
    (hsame : SameAnswer smtDepth (findResult (canonicalTree es) key.toU256)
      (findResult (canonicalTree es') key.toU256)) (value : Fr) :
    let r := findResult (canonicalTree es') key.toU256
    smtVerifier lib 1 (treeRoot (canonicalTree es)) (fitSiblings (answerSiblings r) smtDepth)
      r.notFoundKey.toFr r.notFoundValue.toFr (bit r.isOld0) key value 1 := by
  have habsent : m key.toU256 = none := by
    have hfound := h.found key.toU256
    rw [hsame.absent] at hfound
    simpa using hfound.symm
  have hshort : (answerSiblings (findResult (canonicalTree es) key.toU256)).length < smtDepth := by
    rw [answerSiblings_length]
    exact hsame.short
  have hfit := fitSiblings_of_lt hshort
  rw [answerSiblings_length] at hfit
  intro r
  rw [← hsame.siblings, ← hsame.notFoundKey, ← hsame.notFoundValue, ← hsame.isOld0, hfit]
  exact h.verified_of_absent h0 habsent value hsame.short

include hS h0 in
/-- A proof for the earlier root that is made of the later answer says that the two answers
are the same. -/
theorem SameAnswer.of_verified (h : Agrees S s es m) (h' : Agrees S s' es' m')
    (habsent : (findResult (canonicalTree es') key.toU256).found = false) {value : Fr}
    (hq : let r := findResult (canonicalTree es') key.toU256
      ∀ q ∈ verifierQueries r.isOld0 r.notFoundKey.toFr r.notFoundValue.toFr key
        (fitSiblings (answerSiblings r) smtDepth), q ∈ S)
    (hv : let r := findResult (canonicalTree es') key.toU256
      smtVerifier lib 1 (treeRoot (canonicalTree es)) (fitSiblings (answerSiblings r) smtDepth)
        r.notFoundKey.toFr r.notFoundValue.toFr (bit r.isOld0) key value 1) :
    SameAnswer smtDepth (findResult (canonicalTree es) key.toU256)
      (findResult (canonicalTree es') key.toU256) := by
  have hnone : m' key.toU256 = none := by
    have hfound := h'.found key.toU256
    rw [habsent] at hfound
    simpa using hfound.symm
  obtain ⟨hold, -⟩ := h'.absent_slot hnone
  dsimp only at hq hv
  obtain ⟨hlast, hroot, -⟩ := verified_iff_climb.mp hv
  obtain ⟨hshort, hfit⟩ := fitSiblings_liveSiblings hlast
  have hsmall : ((walk (keyBit key) 0 (canonicalTree es')).2).isNode = false :=
    Tree.isNode_walk (keyBit key) 0 (canonicalTree es')
  unfold verifierQueries at hq
  rw [hold] at hq hroot
  obtain ⟨hpath, hslot⟩ := Tree.walk_of_climb (nodeHash_injOn hS) (fun _ hc => h0 _ hc) hsmall
    (Tracked.calls fun q hqm => hq q (List.mem_append_left _ hqm)) h.keeps.tracked.calls
    (fun c hc => hq _ (List.mem_append_right _ (List.mem_map_of_mem hc))) hroot.symm
  have hsiblings : answerSiblings (findResult (canonicalTree es) key.toU256) =
      liveSiblings (fitSiblings (answerSiblings (findResult (canonicalTree es') key.toU256))
        smtDepth) := by
    rw [answerSiblings_findResult]
    exact hpath
  have hanswer := findResult_of_slot hslot
  exact {
    absent := by rw [hanswer]; exact habsent
    short := by rw [← answerSiblings_length, hsiblings]; exact hshort
    siblings := by rw [hsiblings, hfit]
    notFoundKey := by rw [hanswer]
    notFoundValue := by rw [hanswer]
    isOld0 := by rw [hanswer] }

end TwoStates

/-! ## The proof -/

/-- A proof for the root and the key that the circuit accepts. -/
structure Usable (lib : Circomlib) (root key : Fr) (smtDepth : ℕ)
    (proof : AspNonMembershipProof) : Prop where
  key_eq : proof.key = key
  root_eq : proof.root = root
  siblings_length : proof.siblings.length = smtDepth
  verified : ∀ value, smtVerifier lib 1 proof.root proof.siblings proof.oldKey proof.oldValue
    (bit proof.isOld0) key value 1

section GetProof

variable {notePubkey : Bytes32} {smtDepth : ℕ} {simulate : Fr → Except String ScVal}
  (hkey : Prover.fieldTryFromLeBytes notePubkey.val = .ok key) (hdepth : 1 ≤ smtDepth)

include hkey hdepth

/-- The proof over an empty tree, for which the node is not asked. -/
theorem getNonmembershipProof_zero :
    getNonmembershipProof simulate notePubkey 0 smtDepth = .ok
      { key, oldKey := 0, oldValue := 0, isOld0 := true,
        siblings := List.replicate smtDepth 0, root := 0 } := by
  unfold getNonmembershipProof
  rw [if_neg (by omega), hkey, Prover.ok_bind, if_pos rfl]

/-- The proof over another tree is made of the answer of the state that is simulated on. -/
theorem getNonmembershipProof_of_ne_zero (h0 : ∀ q ∈ S, q.eval ≠ 0) (h : Agrees S s es m)
    {root : Fr} (hroot : root ≠ 0) {r : FindResult}
    (hr : findResult (canonicalTree es) key.toU256 = r) :
    getNonmembershipProof (simulateFindKey s) notePubkey root smtDepth =
      if r.found then .error "Key exists in non-membership tree (user is sanctioned)"
      else .ok { key, oldKey := r.notFoundKey.toFr, oldValue := r.notFoundValue.toFr,
                 isOld0 := r.isOld0, siblings := fitSiblings (answerSiblings r) smtDepth,
                 root } := by
  obtain ⟨hsiblings, hnotKey, hnotValue⟩ := findResult_canonical (canonicalTree es) key
  rw [hr] at hsiblings hnotKey hnotValue
  have hsimulate : simulateFindKey s key = .ok (findResultToScval r) := by
    unfold simulateFindKey
    rw [h.keeps.findKey h0, hr]
  unfold getNonmembershipProof
  rw [if_neg (by omega), hkey, Prover.ok_bind, if_neg hroot, hsimulate, Prover.ok_bind,
    parseFindResult_eq hsiblings hnotKey hnotValue, Prover.ok_bind]

end GetProof

/-- The proof over an empty tree is always accepted. -/
theorem usable_zero (lib : Circomlib) (key : Fr) {smtDepth : ℕ} (hdepth : 1 ≤ smtDepth) :
    Usable lib 0 key smtDepth
      { key, oldKey := 0, oldValue := 0, isOld0 := true,
        siblings := List.replicate smtDepth 0, root := 0 } where
  key_eq := rfl
  root_eq := rfl
  siblings_length := List.length_replicate
  verified value := by
    refine verified_iff_climb.mpr ⟨?_, ?_, fun h => by cases h⟩
    · obtain ⟨n, rfl⟩ := Nat.exists_eq_add_of_le' hdepth
      rw [List.replicate_succ', List.getLast?_concat]
    · rw [liveSiblings_replicate_zero]
      rfl

/-- **When a returned proof is usable.** The root is read after some calls and `find_key` is
simulated after more of them. Whatever proof is returned is accepted for that root exactly
when the tree was empty, or the key is found, or the two answers of `find_key` are the same
at this depth. -/
theorem nonmembershipProof_usable_iff (lib : Circomlib) {S : Set Query}
    (hinj : Set.InjOn Query.eval S) (hzero : ∀ q ∈ S, q.eval ≠ 0) (before between : List Call)
    (admin : Address) (hrun : ∀ q ∈ runQueries [] (canonicalCalls (before ++ between)), q ∈ S)
    {root : U256} (hroot : (run before (deployed admin)).root = some root)
    {notePubkey : Bytes32} {key : Fr}
    (hkey : Prover.fieldTryFromLeBytes notePubkey.val = .ok key) {smtDepth : ℕ}
    (hdepth : 1 ≤ smtDepth)
    (hproof : ∀ proof,
      getNonmembershipProof (simulateFindKey (run between (run before (deployed admin)))) notePubkey
        root.toFr smtDepth = .ok proof →
      ∀ q ∈ verifierQueries proof.isOld0 proof.oldKey proof.oldValue key proof.siblings, q ∈ S) :
    ∃ r r', (findKey key.toU256).run (run before (deployed admin)) =
        .ok r (run before (deployed admin)) ∧
      (findKey key.toU256).run (run between (run before (deployed admin))) =
        .ok r' (run between (run before (deployed admin))) ∧
      ((∀ proof, getNonmembershipProof
          (simulateFindKey (run between (run before (deployed admin)))) notePubkey root.toFr
          smtDepth = .ok proof → Usable lib root.toFr key smtDepth proof) ↔
        root = 0 ∨ r'.found = true ∨ SameAnswer smtDepth r r') := by
  rw [canonicalCalls_append, runQueries_append] at hrun
  have h := (deployed_agrees S admin).run_canonicalCalls hinj hzero before
    fun q hq => hrun q (List.mem_append_left _ hq)
  have h' := h.run_canonicalCalls hinj hzero between
    fun q hq => hrun q (List.mem_append_right _ hq)
  have hfind := h.keeps.findKey hzero key.toU256
  have hfind' := h'.keeps.findKey hzero key.toU256
  refine ⟨_, _, hfind, hfind', ?_⟩
  rw [h.keeps.root, Option.some.injEq] at hroot
  subst hroot
  rw [U256.toFr_toU256] at hproof
  rw [U256.toFr_toU256, Fr.toU256_eq_zero]
  by_cases hempty : treeRoot (canonicalTree (entriesAfter (canonicalCalls before) [])) = 0
  · rw [hempty, getNonmembershipProof_zero hkey hdepth]
    refine iff_of_true (fun proof hp => ?_) (Or.inl rfl)
    cases hp
    exact usable_zero lib key hdepth
  · rw [getNonmembershipProof_of_ne_zero hkey hdepth hzero h' hempty rfl] at hproof ⊢
    by_cases hfound : (findResult (canonicalTree (entriesAfter (canonicalCalls between)
        (entriesAfter (canonicalCalls before) []))) key.toU256).found = true
    · rw [if_pos hfound]
      exact iff_of_true (fun proof hp => by cases hp) (Or.inr (Or.inl hfound))
    · rw [if_neg hfound] at hproof ⊢
      have hq := hproof _ rfl
      constructor
      · intro husable
        exact Or.inr (Or.inr (SameAnswer.of_verified hinj hzero h h' (by simpa using hfound) hq
          ((husable _ rfl).verified 0)))
      · rintro (hz | hf | hsame) proof hp
        · exact absurd hz hempty
        · exact absurd hf hfound
        · cases hp
          exact { key_eq := rfl, root_eq := rfl, siblings_length := fitSiblings_length _ _
                  verified := fun value => hsame.verified hzero h value }

/-! ### Runs -/

/-- The bytes of the key 5. -/
def notePubkeyFive : Bytes32 := ⟨5 :: List.replicate 31 0, rfl⟩

theorem notePubkeyFive_key : Prover.fieldTryFromLeBytes notePubkeyFive.val = .ok 5 := rfl

/-- Two keys that part at the first bit; 5 goes on with the first of them. -/
def twoInserts : List Call := [.insertLeaf true 1 9, .insertLeaf true 2 7]

theorem twoInserts_hashes :
    Set.InjOn Query.eval {q | q ∈ runQueries [] twoInserts} ∧
      ∀ q ∈ {q | q ∈ runQueries [] twoInserts}, q.eval ≠ 0 := by
  have hinj : ∀ q ∈ runQueries [] twoInserts, ∀ q' ∈ runQueries [] twoInserts,
      q.eval = q'.eval → q = q' := by decide +kernel
  have hzero : ∀ q ∈ runQueries [] twoInserts, q.eval ≠ 0 := by decide +kernel
  exact ⟨fun q hq q' hq' h => hinj q hq q' hq' h, hzero⟩

/-- What a search for 5 finds where only the first key is in the tree. -/
def oneLeafAnswer : FindResult :=
  { found := false, siblings := [], foundValue := 0, notFoundKey := 1, notFoundValue := 9
    isOld0 := false }

/-- What it finds where both keys are. -/
def twoLeavesAnswer : FindResult :=
  { oneLeafAnswer with siblings := [(treeRoot (.leaf 2 7)).toU256] }

theorem oneLeaf_agrees : Agrees {q | q ∈ runQueries [] twoInserts}
    (run [.insertLeaf true 1 9] (deployed 0)) [(1, 9)] (mapAfter [.insertLeaf true 1 9]) := by
  obtain ⟨hinj, hzero⟩ := twoInserts_hashes
  exact (deployed_agrees _ 0).run_canonicalCalls hinj hzero [.insertLeaf true 1 9]
    (by decide +kernel)

theorem twoLeaves_agrees : Agrees {q | q ∈ runQueries [] twoInserts}
    (run twoInserts (deployed 0)) [(2, 7), (1, 9)] (mapAfter twoInserts) := by
  obtain ⟨hinj, hzero⟩ := twoInserts_hashes
  exact (deployed_agrees _ 0).run_canonicalCalls hinj hzero twoInserts
    (by decide +kernel)

theorem findResult_oneLeaf :
    findResult (canonicalTree [(1, 9)]) (5 : Fr).toU256 = oneLeafAnswer := by decide +kernel

theorem findResult_twoLeaves :
    findResult (canonicalTree [(2, 7), (1, 9)]) (5 : Fr).toU256 = twoLeavesAnswer := by
  decide +kernel

theorem nonmembershipProof_usable_oneLeaf : ∃ root proof,
    (run [.insertLeaf true 1 9] (deployed 0)).root = some root ∧
      getNonmembershipProof (simulateFindKey (run [.insertLeaf true 1 9] (deployed 0)))
        notePubkeyFive root.toFr 10 = .ok proof ∧
      Usable Circomlib.documented root.toFr 5 10 proof := by
  obtain ⟨hinj, hzero⟩ := twoInserts_hashes
  have hroot := oneLeaf_agrees.keeps.root
  have hne : (treeRoot (canonicalTree [(1, 9)])).toU256.toFr ≠ 0 := by decide +kernel
  have hproof := getNonmembershipProof_of_ne_zero notePubkeyFive_key (show 1 ≤ 10 by decide) hzero
    oneLeaf_agrees hne findResult_oneLeaf
  obtain ⟨r, r', hr, hr', hiff⟩ := nonmembershipProof_usable_iff Circomlib.documented hinj hzero
    [.insertLeaf true 1 9] [] 0 (by decide +kernel) hroot notePubkeyFive_key
    (show 1 ≤ 10 by decide) fun proof hp => by
      obtain rfl := Except.ok.inj (hproof.symm.trans hp)
      decide +kernel
  have hsame : r' = r := by
    have hr' : (findKey (5 : Fr).toU256).run (run [.insertLeaf true 1 9] (deployed 0)) =
      .ok r' (run [.insertLeaf true 1 9] (deployed 0)) := hr'
    rw [hr] at hr'
    cases hr'
    rfl
  have hanswer : r = oneLeafAnswer := by
    rw [oneLeaf_agrees.keeps.findKey hzero, findResult_oneLeaf] at hr
    cases hr
    rfl
  refine ⟨_, _, hroot, hproof, hiff.mpr (Or.inr (Or.inr ?_)) _ hproof⟩
  rw [hsame, hanswer]
  exact { absent := rfl, short := by decide, siblings := rfl, notFoundKey := rfl,
          notFoundValue := rfl, isOld0 := rfl }

/-- An insertion between the two reads, or one sibling where there is one level, gives a proof
that the circuit refuses. -/
theorem nonmembershipProof_not_usable :
    (∃ root proof, (run [.insertLeaf true 1 9] (deployed 0)).root = some root ∧
      getNonmembershipProof (simulateFindKey (run [.insertLeaf true 2 7]
        (run [.insertLeaf true 1 9] (deployed 0)))) notePubkeyFive root.toFr 10 = .ok proof ∧
      ¬ Usable Circomlib.documented root.toFr 5 10 proof) ∧
    ∃ root proof, (run twoInserts (deployed 0)).root = some root ∧
      getNonmembershipProof (simulateFindKey (run twoInserts (deployed 0))) notePubkeyFive
        root.toFr 1 = .ok proof ∧
      ¬ Usable Circomlib.documented root.toFr 5 1 proof := by
  obtain ⟨-, hzero⟩ := twoInserts_hashes
  constructor
  · have hne : (treeRoot (canonicalTree [(1, 9)])).toU256.toFr ≠ 0 := by decide +kernel
    have hproof := getNonmembershipProof_of_ne_zero notePubkeyFive_key (show 1 ≤ 10 by decide)
      hzero twoLeaves_agrees hne findResult_twoLeaves
    refine ⟨_, _, oneLeaf_agrees.keeps.root, hproof, fun h => ?_⟩
    exact absurd (verified_iff_climb.mp (h.verified 0)).2.1 (by decide +kernel)
  · have hne : (treeRoot (canonicalTree [(2, 7), (1, 9)])).toU256.toFr ≠ 0 := by decide +kernel
    have hproof := getNonmembershipProof_of_ne_zero notePubkeyFive_key (show 1 ≤ 1 by decide)
      hzero twoLeaves_agrees hne findResult_twoLeaves
    refine ⟨_, _, twoLeaves_agrees.keeps.root, hproof, fun h => ?_⟩
    exact absurd (verified_iff_climb.mp (h.verified 0)).1 (by decide +kernel)

end PrivatePayments.Stellar
