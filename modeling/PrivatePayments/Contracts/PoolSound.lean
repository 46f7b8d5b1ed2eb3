import PrivatePayments.Contracts.Pool
import PrivatePayments.Contracts.MerkleWithHistorySound

/-!
# PrivatePayments.Contracts.PoolSound

What an accepted transaction has passed and what it has done (`Accepts`), and from it an
invariant of every run: the storage is determined by the list of the accepted
transactions (`Reflects`), and each of them was admitted by the list before it
(`AdmittedRun`). The results about the pool are then statements about such lists.
-/

namespace PrivatePayments

namespace Contract

variable {σ ε α β : Type}

/-- A loop over functions that only check. -/
theorem forM_check_ok {f : α → Contract σ ε PUnit} {P : α → Prop} {s : σ}
    (hf : ∀ a s', (f a).run s = .ok () s' → s' = s ∧ P a) (l : List α) :
    ∀ {s'}, (forM l f : Contract σ ε PUnit).run s = .ok () s' → s' = s ∧ ∀ a ∈ l, P a := by
  induction l with
  | nil =>
      intro s' h
      cases h
      exact ⟨rfl, fun a ha => by cases ha⟩
  | cons x l ih =>
      intro s' h
      rw [List.forM_cons] at h
      obtain ⟨_, s₁, hx, hl⟩ := bind_ok h
      obtain ⟨rfl, hPx⟩ := hf x s₁ hx
      obtain ⟨rfl, hPl⟩ := ih hl
      refine ⟨rfl, fun a ha => ?_⟩
      rcases List.mem_cons.mp ha with rfl | ha
      · exact hPx
      · exact hPl a ha

end Contract

namespace Pool

open Contract

/-- The number a public amount stands for: a withdrawal is its negative modulo `p`. -/
def encodeAmount (v : Int) : Int := if 0 ≤ v then v else bn256Modulus + v

/-! ### One lemma for each function -/

section Functions

variable {s s' : PoolStorage}

theorem liftTree_run {α : Type} (f : MerkleWithHistory.MerkleM α) (s : PoolStorage) :
    (liftTree f).run s = match f.run s.tree with
      | .ok a tree => .ok a { s with tree }
      | .error .trap tree => .error .trap { s with tree }
      | .error (.error e) tree => .error (.error (.ofMerkle e)) { s with tree } := rfl

theorem liftTree_ok {α : Type} {f : MerkleWithHistory.MerkleM α} {a : α}
    (h : (liftTree f).run s = .ok a s') :
    ∃ tree, f.run s.tree = .ok a tree ∧ s' = { s with tree } := by
  rw [liftTree_run] at h
  cases hf : f.run s.tree with
  | ok b tree =>
      rw [hf] at h
      cases h
      exact ⟨tree, rfl, rfl⟩
  | error e tree =>
      rw [hf] at h
      cases e with
      | trap => cases h
      | error e => cases h

theorem i256Sub_zero {v w : I256} (h : I256.zero.sub v = some w) : w.val = -v.val := by
  unfold I256.sub at h
  split at h
  · cases h
    simp [I256.zero]
  · cases h

theorem toU256Bits_val {v : I256} (h : 0 ≤ v.val) : (v.toU256Bits.val : Int) = v.val := by
  have hlt := v.property.2
  unfold I256.toU256Bits
  rw [Int.emod_eq_of_lt h (by unfold u256Size; omega)]
  have hnat : v.val.toNat < u256Size := by
    unfold u256Size
    omega
  change ((v.val.toNat % u256Size : Nat) : Int) = v.val
  rw [Nat.mod_eq_of_lt hnat]
  omega

theorem maxExtAmount_val : U256.maxExtAmount.val = 2 ^ 248 := by decide

theorem checkedSub_modulus {a b : U256} {v : Int}
    (h : U256.checkedSub (Fin.ofNat u256Size bn256Modulus) b = some a) (hb : (b.val : Int) = -v)
    (hneg : v < 0) (hlt : -v < 2 ^ 248) : (a.val : Int) = bn256Modulus + v := by
  have hp : (Fin.ofNat u256Size bn256Modulus).val = bn256Modulus := by decide
  have hle : b.val ≤ bn256Modulus := by
    unfold bn256Modulus
    omega
  unfold U256.checkedSub at h
  rw [hp, if_pos hle] at h
  rw [← Option.some.inj h, Fin.sub_val_of_le (by rw [Fin.le_def, hp]; exact hle), hp]
  omega

theorem i256AbsToU256_ok {v : I256} {a : U256} (h : (i256AbsToU256 v).run s = .ok a s') :
    s' = s ∧ (a.val : Int) = |v.val| := by
  unfold i256AbsToU256 at h
  by_cases hv : v.val ≥ 0
  · rw [if_pos hv] at h
    cases h
    exact ⟨rfl, by rw [toU256Bits_val hv, abs_of_nonneg hv]⟩
  · rw [if_neg hv] at h
    obtain ⟨w, hsub, h⟩ := hostCall_bind_ok h
    cases h
    have hneg := i256Sub_zero hsub
    exact ⟨rfl, by rw [toU256Bits_val (by omega), hneg, abs_of_neg (by omega)]⟩

/-- `calculate_public_amount`: the amount is below `2 ^ 248` and is encoded modulo `p`. -/
theorem calculatePublicAmount_ok {extAmount : I256} {a : U256}
    (h : (calculatePublicAmount extAmount).run s = .ok a s') :
    s' = s ∧ |extAmount.val| < 2 ^ 248 ∧ (a.val : Int) = encodeAmount extAmount.val := by
  unfold calculatePublicAmount at h
  obtain ⟨absExt, habs, h⟩ := reads_bind_ok i256AbsToU256_ok h
  obtain ⟨hmax, h⟩ := failIf_bind_ok h
  rw [maxExtAmount_val] at hmax
  have hlt : |extAmount.val| < 2 ^ 248 := by omega
  unfold encodeAmount
  by_cases hv : extAmount.val ≥ 0
  · rw [if_pos hv] at h
    cases h
    exact ⟨rfl, hlt, by rw [toU256Bits_val hv, if_pos hv]⟩
  · rw [if_neg hv] at h
    obtain ⟨neg, hsub, h⟩ := hostCall_bind_ok h
    obtain ⟨hchecked, hs'⟩ := hostCall_ok h
    have hneg := i256Sub_zero hsub
    have hbits := toU256Bits_val (v := neg) (by omega)
    rw [hneg] at hbits
    refine ⟨hs', hlt, ?_⟩
    rw [if_neg hv]
    rw [abs_of_neg (by omega)] at hlt
    exact checkedSub_modulus hchecked hbits (by omega) (by omega)

theorem validateBn256PublicInput_ok {v : U256} {u : Unit}
    (h : (validateBn256PublicInput v).run s = .ok u s') : s' = s ∧ v.val < bn256Modulus := by
  obtain ⟨hlt, hs⟩ := failIf_ok h
  exact ⟨hs, not_le.mp hlt⟩

/-- The numbers of a proof are canonical. -/
structure Canonical (proof : Proof) : Prop where
  root : proof.root.val < bn256Modulus
  inputNullifiers : ∀ n ∈ proof.inputNullifiers, n.val < bn256Modulus
  outputCommitment0 : proof.outputCommitment0.val < bn256Modulus
  outputCommitment1 : proof.outputCommitment1.val < bn256Modulus

/-- All the numbers that are checked are canonical; `ext_data_hash` is not among them. -/
structure CanonicalInputs (proof : Proof) : Prop extends Canonical proof where
  publicAmount : proof.publicAmount.val < bn256Modulus
  aspMembershipRoot : proof.aspMembershipRoot.val < bn256Modulus
  aspNonMembershipRoot : proof.aspNonMembershipRoot.val < bn256Modulus

theorem validateBn256PublicInputs_ok {proof : Proof} {u : Unit}
    (h : (validateBn256PublicInputs proof).run s = .ok u s') :
    s' = s ∧ CanonicalInputs proof := by
  unfold validateBn256PublicInputs at h
  obtain ⟨_, hroot, h⟩ := reads_bind_ok validateBn256PublicInput_ok h
  obtain ⟨_, hamount, h⟩ := reads_bind_ok validateBn256PublicInput_ok h
  obtain ⟨_, hnulls, h⟩ :=
    reads_bind_ok (forM_check_ok (fun _ _ => validateBn256PublicInput_ok) _) h
  obtain ⟨_, hc0, h⟩ := reads_bind_ok validateBn256PublicInput_ok h
  obtain ⟨_, hc1, h⟩ := reads_bind_ok validateBn256PublicInput_ok h
  obtain ⟨_, hmember, h⟩ := reads_bind_ok validateBn256PublicInput_ok h
  obtain ⟨hs, hnonMember⟩ := validateBn256PublicInput_ok h
  exact ⟨hs, ⟨hroot, hnulls, hc0, hc1⟩, hamount, hmember, hnonMember⟩

theorem getNullifiers_ok {nulls : U256 → Option Bool}
    (h : getNullifiers.run s = .ok nulls s') : s' = s ∧ s.nullifiers = some nulls := by
  have hread := get_bind_ok h
  obtain ⟨hnulls, hs⟩ := okOr_ok hread
  exact ⟨hs, hnulls⟩

theorem isSpent_ok {n : U256} {spent : Bool} (h : (isSpent n).run s = .ok spent s') :
    s' = s ∧ ∃ nulls, s.nullifiers = some nulls ∧ (nulls n).getD false = spent := by
  unfold isSpent at h
  obtain ⟨nulls, hnulls, h⟩ := reads_bind_ok getNullifiers_ok h
  cases h
  exact ⟨rfl, nulls, hnulls, rfl⟩

theorem checkNullifier_ok {n : U256} {u : PUnit} (h : (checkNullifier n).run s = .ok u s') :
    s' = s ∧ ∃ nulls, s.nullifiers = some nulls ∧ (nulls n).getD false = false := by
  unfold checkNullifier at h
  obtain ⟨spent, ⟨nulls, hnulls, hget⟩, h⟩ := reads_bind_ok isSpent_ok h
  obtain ⟨hfree, hs⟩ := failIf_ok h
  exact ⟨hs, nulls, hnulls, by rw [hget]; simpa using hfree⟩

/-- The map of nullifiers after the loop that marks them. -/
def markAll (nulls : U256 → Option Bool) (ns : List U256) : U256 → Option Bool :=
  fun n => if n ∈ ns then some true else nulls n

theorem spendNullifier_run {nulls : U256 → Option Bool} (hnulls : s.nullifiers = some nulls)
    (n : U256) : (spendNullifier n).run s = .ok () { s with
      nullifiers := some (Function.update nulls n (some true))
      events := s.events ++ [.newNullifier n] } := by
  have hmark : (markSpent n).run s =
      .ok () { s with nullifiers := some (Function.update nulls n (some true)) } := by
    unfold markSpent getNullifiers
    simp only [EStateM.run_bind, EStateM.run_get, hnulls, okOr_some, EStateM.run_pure,
      EStateM.run_modify]
  have hignore : (ignoreErr (markSpent n)).run s =
      .ok () { s with nullifiers := some (Function.update nulls n (some true)) } := by
    simp only [ignoreErr, EStateM.run] at hmark ⊢
    rw [hmark]
  unfold spendNullifier publish
  simp only [EStateM.run_bind, hignore, EStateM.run_modify]

/-- Step 6 marks every nullifier and publishes it. -/
theorem spendNullifiers_run (ns : List U256) : ∀ {s : PoolStorage} {nulls : U256 → Option Bool},
    s.nullifiers = some nulls →
    (forM ns spendNullifier : PoolM PUnit).run s = .ok () { s with
      nullifiers := some (markAll nulls ns)
      events := s.events ++ ns.map .newNullifier } := by
  induction ns with
  | nil =>
      intro s nulls hnulls
      have hnil : markAll nulls [] = nulls := by
        funext n
        simp [markAll]
      rw [hnil, ← hnulls, List.map_nil, List.append_nil]
      rfl
  | cons n ns ih =>
      intro s nulls hnulls
      have hcons : markAll (Function.update nulls n (some true)) ns = markAll nulls (n :: ns) := by
        funext m
        unfold markAll
        by_cases hm : m = n
        · subst hm
          simp
        · rw [Function.update_of_ne hm]
          simp [hm]
      rw [List.forM_cons, EStateM.run_bind, spendNullifier_run hnulls n]
      simp only
      rw [ih rfl, hcons]
      simp only [List.map_cons, List.append_assoc, List.singleton_append]

variable {host : Host} {env : CallEnv}

theorem i256ToI128Nonneg_ok {v : I256} {a : Int} (h : (i256ToI128Nonneg v).run s = .ok a s') :
    s' = s ∧ a = v.val := by
  unfold i256ToI128Nonneg at h
  obtain ⟨-, h⟩ := failIf_bind_ok h
  obtain ⟨ha, hs⟩ := okOr_ok h
  unfold I256.toI128 at ha
  split at ha
  · cases ha
    exact ⟨hs, rfl⟩
  · cases ha

theorem processWithdrawal_ok {extData : ExtData} {u : Unit}
    (h : (processWithdrawal env extData).run s = .ok u s') : s' = s := by
  unfold processWithdrawal at h
  obtain ⟨token, -, h⟩ := okOr_bind_ok (get_bind_ok h)
  by_cases hneg : extData.extAmount.val < 0
  · rw [if_pos hneg] at h
    obtain ⟨abs, -, h⟩ := hostCall_bind_ok h
    obtain ⟨amount, -, h⟩ := reads_bind_ok i256ToI128Nonneg_ok h
    exact (hostCall_ok h).2
  · rw [if_neg hneg] at h
    cases h
    rfl

theorem processDeposit_ok {extData : ExtData} {sender : Address} {u : Unit}
    (h : (processDeposit env extData sender).run s = .ok u s') : s' = s := by
  unfold processDeposit at h
  obtain ⟨token, -, h⟩ := okOr_bind_ok (get_bind_ok h)
  by_cases hpos : extData.extAmount.val > 0
  · rw [if_pos hpos] at h
    obtain ⟨amount, -, h⟩ := reads_bind_ok i256ToI128Nonneg_ok h
    exact (hostCall_ok h).2
  · rw [if_neg hpos] at h
    cases h
    rfl

theorem verifyProof_ok {proof : Proof} (h : (verifyProof host proof).run s = .ok true s') :
    s' = s ∧ CanonicalInputs proof ∧ ∃ verifier, s.verifier = some verifier ∧
      host.verify verifier proof.proof proof.publicInputs = some true := by
  unfold verifyProof at h
  obtain ⟨-, h⟩ := failIf_bind_ok h
  obtain ⟨verifier, hverifier, h⟩ := okOr_bind_ok (get_bind_ok h)
  obtain ⟨_, hcanonical, h⟩ := reads_bind_ok validateBn256PublicInputs_ok h
  obtain ⟨haccept, hs⟩ := hostCall_ok h
  exact ⟨hs, hcanonical, verifier, hverifier, haccept⟩

theorem getAspMembershipRoot_ok {root : U256}
    (h : (getAspMembershipRoot env).run s = .ok root s') : s' = s := by
  unfold getAspMembershipRoot at h
  obtain ⟨asp, -, h⟩ := okOr_bind_ok (get_bind_ok h)
  exact (hostCall_ok h).2

theorem getAspNonMembershipRoot_ok {root : U256}
    (h : (getAspNonMembershipRoot env).run s = .ok root s') : s' = s := by
  unfold getAspNonMembershipRoot at h
  obtain ⟨asp, -, h⟩ := okOr_bind_ok (get_bind_ok h)
  exact (hostCall_ok h).2

end Functions

/-! ### One accepted transaction -/

variable (host : Host)

/-- What a transaction has passed when it is accepted, and what it has written. -/
structure Accepts (tx : Transaction) (s s' : PoolStorage) : Prop where
  known : ∃ tree, (MerkleWithHistory.isKnownRoot tx.proof.root).run s.tree = .ok true tree
  fresh : ∀ n ∈ tx.proof.inputNullifiers, ∀ nulls, s.nullifiers = some nulls →
    (nulls n).getD false = false
  extDataHash : hashExtData host tx.extData = tx.proof.extDataHash
  amount_lt : |tx.extData.extAmount.val| < 2 ^ 248
  publicAmount : (tx.proof.publicAmount.val : Int) = encodeAmount tx.extData.extAmount.val
  canonical : Canonical tx.proof
  verified : ∃ verifier, s.verifier = some verifier ∧
    host.verify verifier tx.proof.proof tx.proof.publicInputs = some true
  written : ∃ nulls tree idx, s.nullifiers = some nulls ∧
    (MerkleWithHistory.insertTwoLeaves tx.proof.outputCommitment0
      tx.proof.outputCommitment1).run s.tree = .ok idx tree ∧
    s' = { s with
      nullifiers := some (markAll nulls tx.proof.inputNullifiers)
      tree := tree
      events := s.events ++ tx.proof.inputNullifiers.map .newNullifier ++
        [.newCommitment tx.proof.outputCommitment0 idx.1 tx.extData.encryptedOutput0,
         .newCommitment tx.proof.outputCommitment1 idx.2 tx.extData.encryptedOutput1] }

variable {host}

theorem internalTransact_accepts {env : CallEnv} {tx : Transaction} {s s' : PoolStorage}
    {levels : Nat} {leaves : List Fr} (htree : MerkleWithHistory.Represents levels leaves s.tree)
    (hnulls : s.nullifiers.isSome)
    (h : (internalTransact host env tx.proof tx.extData).run s = .ok () s') :
    Accepts host tx s s' := by
  obtain ⟨nulls, hnulls⟩ := Option.isSome_iff_exists.mp hnulls
  unfold internalTransact at h
  obtain ⟨known, s₁, hknown, h⟩ := bind_ok h
  obtain ⟨tree, hknown, hs₁⟩ := liftTree_ok hknown
  obtain ⟨hk, h⟩ := failIf_bind_ok h
  rw [show known = true by simpa using hk] at hknown
  -- the search only reads
  obtain ⟨htree', -⟩ := MerkleWithHistory.isKnownRoot_true htree hknown
  have hsame : s₁ = s := by rw [hs₁, htree']
  rw [hsame] at h
  obtain ⟨_, hfresh, h⟩ := reads_bind_ok (forM_check_ok (fun _ _ => checkNullifier_ok) _) h
  obtain ⟨hhash, h⟩ := failIf_bind_ok h
  obtain ⟨expected, ⟨hlt, hamount⟩, h⟩ := reads_bind_ok calculatePublicAmount_ok h
  obtain ⟨hpublic, h⟩ := failIf_bind_ok h
  obtain ⟨_, -, h⟩ := reads_bind_ok (fun h => ⟨getAspMembershipRoot_ok h, trivial⟩) h
  obtain ⟨_, -, h⟩ := reads_bind_ok (fun h => ⟨getAspNonMembershipRoot_ok h, trivial⟩) h
  obtain ⟨-, h⟩ := failIf_bind_ok h
  obtain ⟨valid, s₂, hverify, h⟩ := bind_ok h
  obtain ⟨hv, h⟩ := failIf_bind_ok h
  rw [show valid = true by simpa using hv] at hverify
  obtain ⟨hs₂, hcanonical, hverified⟩ := verifyProof_ok hverify
  rw [hs₂] at h
  obtain ⟨_, s₃, hspend, h⟩ := bind_ok h
  rw [spendNullifiers_run _ hnulls] at hspend
  cases hspend
  obtain ⟨_, -, h⟩ := reads_bind_ok (fun h => ⟨processWithdrawal_ok h, trivial⟩) h
  obtain ⟨idx, s₄, hinsert, h⟩ := bind_ok h
  obtain ⟨tree', hinsert, hs₄⟩ := liftTree_ok hinsert
  refine ⟨⟨tree, hknown⟩, ?_, not_not.mp hhash, hlt, ?_, hcanonical.toCanonical, hverified,
    nulls, tree', idx, hnulls, hinsert, ?_⟩
  · intro n hn nulls' hnulls'
    obtain ⟨nulls'', hnulls'', hget⟩ := hfresh n hn
    rw [hnulls''] at hnulls'
    cases hnulls'
    exact hget
  · rw [not_not.mp hpublic, hamount]
  · have hevents := modify_bind_ok h
    cases hevents
    rw [hs₄]
    simp only [List.append_assoc, List.cons_append, List.nil_append]

theorem transact_accepts {env : CallEnv} {tx : Transaction} {s s' : PoolStorage}
    {levels : Nat} {leaves : List Fr} (htree : MerkleWithHistory.Represents levels leaves s.tree)
    (hnulls : s.nullifiers.isSome)
    (h : (transact host env tx.proof tx.extData tx.sender).run s = .ok () s') :
    Accepts host tx s s' := by
  unfold transact at h
  obtain ⟨-, h⟩ := requireAuth_bind_ok h
  obtain ⟨_, -, h⟩ := reads_bind_ok (fun h => ⟨processDeposit_ok h, trivial⟩) h
  exact internalTransact_accepts htree hnulls h

/-! ### Runs -/

/-- The leaves that accepted transactions insert. -/
def outputs (txs : List Transaction) : List Fr :=
  txs.flatMap fun tx => [tx.proof.outputCommitment0.toFr, tx.proof.outputCommitment1.toFr]

/-- The nullifiers of accepted transactions, with repetitions. -/
def nullifiers (txs : List Transaction) : List U256 :=
  txs.flatMap fun tx => tx.proof.inputNullifiers

/-- The commitments and indices that the events announce. -/
def announced : List PoolEvent → List (U256 × Nat)
  | [] => []
  | .newCommitment commitment index _ :: events => (commitment, index) :: announced events
  | .newNullifier _ :: events => announced events

@[simp] theorem outputs_nil : outputs [] = [] := rfl

theorem outputs_append (txs txs' : List Transaction) :
    outputs (txs ++ txs') = outputs txs ++ outputs txs' := List.flatMap_append

@[simp] theorem outputs_singleton (tx : Transaction) : outputs [tx] =
    [tx.proof.outputCommitment0.toFr, tx.proof.outputCommitment1.toFr] := by
  simp [outputs]

@[simp] theorem outputs_length (txs : List Transaction) :
    (outputs txs).length = 2 * txs.length := by
  induction txs with
  | nil => rfl
  | cons tx txs ih =>
      rw [← List.singleton_append, outputs_append, List.length_append, ih, outputs_singleton,
        List.length_append]
      simp only [List.length_cons, List.length_nil]
      omega

theorem outputs_take (txs : List Transaction) (j : Nat) :
    (outputs txs).take (2 * j) = outputs (txs.take j) := by
  rcases Nat.lt_or_ge txs.length j with hj | hj
  · rw [List.take_of_length_le (by rw [outputs_length]; omega), List.take_of_length_le hj.le]
  · have hlen : (outputs (txs.take j)).length = 2 * j := by
      rw [outputs_length, List.length_take, Nat.min_eq_left hj]
    have hsplit := outputs_append (txs.take j) (txs.drop j)
    rw [List.take_append_drop] at hsplit
    rw [hsplit, ← hlen, List.take_left']
    rfl

@[simp] theorem nullifiers_nil : nullifiers [] = [] := rfl

theorem nullifiers_append (txs txs' : List Transaction) :
    nullifiers (txs ++ txs') = nullifiers txs ++ nullifiers txs' := List.flatMap_append

@[simp] theorem nullifiers_singleton (tx : Transaction) :
    nullifiers [tx] = tx.proof.inputNullifiers := by
  simp [nullifiers]

theorem announced_append (events events' : List PoolEvent) :
    announced (events ++ events') = announced events ++ announced events' := by
  induction events with
  | nil => rfl
  | cons e events ih =>
      cases e with
      | newCommitment commitment index out => exact congrArg _ ih
      | newNullifier n => exact ih

theorem announced_newNullifier (ns : List U256) : announced (ns.map .newNullifier) = [] := by
  induction ns with
  | nil => rfl
  | cons n ns ih => exact ih

/-- The storage after the transactions `txs`. -/
structure Reflects (levels : Nat) (verifier : Address) (txs : List Transaction)
    (s : PoolStorage) : Prop where
  tree : MerkleWithHistory.Represents levels (outputs txs) s.tree
  nullifiers : ∃ nulls, s.nullifiers = some nulls ∧
    ∀ n, (nulls n).getD false = true ↔ n ∈ nullifiers txs
  verifier_eq : s.verifier = some verifier
  events : announced s.events = ((outputs txs).map Fr.toU256).zipIdx

/-- What lets `tx` be accepted after the transactions `before`. -/
structure Admitted (host : Host) (levels : Nat) (verifier : Address)
    (before : List Transaction) (tx : Transaction) : Prop where
  room : 2 * before.length + 2 ≤ 2 ^ levels
  known : ∃ j ≤ before.length, tx.proof.root =
    (MerkleWithHistory.treeRoot levels (outputs (before.take j))).toU256
  fresh : ∀ n ∈ tx.proof.inputNullifiers, n ∉ Pool.nullifiers before
  amount_lt : |tx.extData.extAmount.val| < 2 ^ 248
  publicAmount : (tx.proof.publicAmount.val : Int) = encodeAmount tx.extData.extAmount.val
  canonical : Canonical tx.proof
  verified : host.verify verifier tx.proof.proof tx.proof.publicInputs = some true

/-- A sequence of transactions each of which the ones before it admit. -/
inductive AdmittedRun (host : Host) (levels : Nat) (verifier : Address) :
    List Transaction → Prop
  | nil : AdmittedRun host levels verifier []
  | snoc {before : List Transaction} {tx : Transaction} :
      AdmittedRun host levels verifier before → Admitted host levels verifier before tx →
      AdmittedRun host levels verifier (before ++ [tx])

section Runs

variable {host : Host} {levels : Nat} {verifier : Address} {txs : List Transaction}
variable {s s' : PoolStorage}

/-- The step of an accepted transaction. -/
theorem Reflects.accept {tx : Transaction} (h : Reflects levels verifier txs s)
    (ha : Accepts host tx s s') :
    Reflects levels verifier (txs ++ [tx]) s' ∧ Admitted host levels verifier txs tx := by
  obtain ⟨nulls, hnulls, hmem⟩ := h.nullifiers
  obtain ⟨nulls', tree, idx, hnulls', hinsert, hs'⟩ := ha.written
  obtain rfl : nulls' = nulls := Option.some.inj (hnulls'.symm.trans hnulls)
  have hlen := outputs_length txs
  -- a full tree would have refused the commitments
  have hroom : 2 * txs.length + 2 ≤ 2 ^ levels := by
    by_contra hfull
    rw [MerkleWithHistory.insertTwoLeaves_full h.tree (by omega)] at hinsert
    cases hinsert
  have hc0 := U256.toU256_toFr ha.canonical.outputCommitment0
  have hc1 := U256.toU256_toFr ha.canonical.outputCommitment1
  obtain ⟨tree', hrun, hrep⟩ := MerkleWithHistory.insertTwoLeaves_room h.tree (by omega)
    tx.proof.outputCommitment0.toFr tx.proof.outputCommitment1.toFr
  rw [hc0, hc1, hinsert] at hrun
  cases hrun
  constructor
  · constructor
    · rw [hs', outputs_append, outputs_singleton]
      exact hrep
    · refine ⟨markAll nulls' tx.proof.inputNullifiers, by rw [hs'], fun n => ?_⟩
      rw [nullifiers_append, nullifiers_singleton, List.mem_append, ← hmem n]
      unfold markAll
      by_cases hn : n ∈ tx.proof.inputNullifiers
      · simp [hn]
      · simp [hn]
    · rw [hs']
      exact h.verifier_eq
    · rw [hs', outputs_append, outputs_singleton, List.map_append, List.zipIdx_append,
        ← h.events]
      simp only [announced_append, announced_newNullifier, List.append_nil, announced, List.map_cons,
        List.map_nil, List.length_map, hc0, hc1, Nat.zero_add, List.zipIdx_cons, List.zipIdx_nil]
  · obtain ⟨_, hknown⟩ := ha.known
    obtain ⟨-, j, hj, hroot⟩ := MerkleWithHistory.isKnownRoot_true h.tree hknown
    obtain ⟨verifier', hverifier, hverified⟩ := ha.verified
    rw [h.verifier_eq] at hverifier
    cases hverifier
    refine ⟨hroom, ⟨j, by omega, ?_⟩, ?_, ha.amount_lt, ha.publicAmount, ha.canonical, hverified⟩
    · rw [hroot, MerkleWithHistory.prefixRoot, outputs_take]
    · intro n hn hspent
      have hfree := ha.fresh n hn _ hnulls
      rw [(hmem n).mpr hspent] at hfree
      cases hfree

/-- The calls of the administrator touch neither the tree nor the nullifiers. -/
theorem Reflects.of_eq (h : Reflects levels verifier txs s) (htree : s'.tree = s.tree)
    (hnulls : s'.nullifiers = s.nullifiers) (hverifier : s'.verifier = s.verifier)
    (hevents : s'.events = s.events) : Reflects levels verifier txs s' where
  tree := by rw [htree]; exact h.tree
  nullifiers := by rw [hnulls]; exact h.nullifiers
  verifier_eq := by rw [hverifier]; exact h.verifier_eq
  events := by rw [hevents]; exact h.events

/-- The transaction of a call, if it is one. -/
def Call.transaction : Call → List Transaction
  | .transact _ tx => [tx]
  | .updateAdmin _ _ => []
  | .updateAspMembership _ _ => []
  | .updateAspNonMembership _ _ => []

/-- **One call.** An accepted call extends the list by its transaction, which is
admitted. -/
theorem Reflects.step (h : Reflects levels verifier txs s) {call : Call}
    (hrun : (call.function host).run s = .ok () s') :
    Reflects levels verifier (txs ++ call.transaction) s' ∧
      ∀ tx ∈ call.transaction, Admitted host levels verifier txs tx := by
  have hnulls : s.nullifiers.isSome := by
    obtain ⟨nulls, hnulls, -⟩ := h.nullifiers
    rw [hnulls]
    rfl
  cases call with
  | transact env tx =>
      obtain ⟨hs', hadmitted⟩ := h.accept (transact_accepts h.tree hnulls hrun)
      refine ⟨hs', fun tx' htx' => ?_⟩
      rw [List.mem_singleton.mp htx']
      exact hadmitted
  | updateAdmin env newAdmin =>
      unfold Call.function updateAdmin at hrun
      obtain ⟨-, hrun⟩ := failIf_bind_ok (get_bind_ok hrun)
      obtain ⟨-, hrun⟩ := requireAuth_bind_ok hrun
      cases hrun
      refine ⟨?_, fun tx htx => by cases htx⟩
      rw [Call.transaction, List.append_nil]
      exact h.of_eq rfl rfl rfl rfl
  | updateAspMembership env asp =>
      unfold Call.function updateAspMembership at hrun
      obtain ⟨_, -, hrun⟩ := okOr_bind_ok (get_bind_ok hrun)
      obtain ⟨-, hrun⟩ := requireAuth_bind_ok hrun
      cases hrun
      refine ⟨?_, fun tx htx => by cases htx⟩
      rw [Call.transaction, List.append_nil]
      exact h.of_eq rfl rfl rfl rfl
  | updateAspNonMembership env asp =>
      unfold Call.function updateAspNonMembership at hrun
      obtain ⟨_, -, hrun⟩ := okOr_bind_ok (get_bind_ok hrun)
      obtain ⟨-, hrun⟩ := requireAuth_bind_ok hrun
      cases hrun
      refine ⟨?_, fun tx htx => by cases htx⟩
      rw [Call.transaction, List.append_nil]
      exact h.of_eq rfl rfl rfl rfl

/-- The run after its first call: a rejected call changes nothing. -/
theorem run_cons (s : PoolStorage) (call : Call) (calls : List Call) :
    run host s (call :: calls) = match (call.function host).run s with
      | .ok _ s' => (call.transaction ++ (run host s' calls).1, (run host s' calls).2)
      | .error _ _ => run host s calls := by
  rw [run]
  unfold invoke
  cases hrun : (call.function host).run s with
  | ok u s' =>
      simp only
      cases call <;> rfl
  | error e s' => simp only

/-- **Every run.** The storage reflects the accepted transactions, and these are an
admitted run. -/
theorem run_reflects (calls : List Call) : ∀ {txs : List Transaction} {s : PoolStorage},
    Reflects levels verifier txs s → AdmittedRun host levels verifier txs →
    Reflects levels verifier (txs ++ (run host s calls).1) (run host s calls).2 ∧
      AdmittedRun host levels verifier (txs ++ (run host s calls).1) := by
  induction calls with
  | nil =>
      intro txs s h hadm
      rw [run, List.append_nil]
      exact ⟨h, hadm⟩
  | cons call calls ih =>
      intro txs s h hadm
      rw [run_cons]
      cases hrun : (call.function host).run s with
      | error e s' => exact ih h hadm
      | ok u s' =>
          simp only
          obtain ⟨hs', hnew⟩ := h.step hrun
          rw [← List.append_assoc]
          refine ih hs' ?_
          cases call with
          | transact env tx => exact .snoc hadm (hnew tx (List.mem_singleton.mpr rfl))
          | updateAdmin env newAdmin => rwa [Call.transaction, List.append_nil]
          | updateAspMembership env asp => rwa [Call.transaction, List.append_nil]
          | updateAspNonMembership env asp => rwa [Call.transaction, List.append_nil]

/-- The constructor accepts the depths from 1 to 32 and starts with an empty pool. -/
theorem constructor_reflects {admin token asp aspNon : Address}
    (h : (constructor admin token verifier asp aspNon levels).run {} = .ok () s) :
    1 ≤ levels ∧ levels ≤ 32 ∧ Reflects levels verifier [] s := by
  unfold constructor at h
  obtain ⟨tree, hinit, hs⟩ := liftTree_ok (modify_bind_ok h)
  have hlevels : 1 ≤ levels ∧ levels ≤ 32 := by
    have hinit' := hinit
    unfold MerkleWithHistory.init at hinit'
    obtain ⟨hbounds, -⟩ := failIf_bind_ok hinit'
    omega
  obtain ⟨hpos, hle⟩ := hlevels
  have hrun : (MerkleWithHistory.init levels).run {} = .ok () tree := hinit
  rw [MerkleWithHistory.init_apply hpos hle] at hrun
  cases hrun
  refine ⟨hpos, hle, ?_, ?_, ?_, ?_⟩
  · rw [hs]
    exact MerkleWithHistory.init_represents hpos hle
  · exact ⟨fun _ => none, by rw [hs], by simp⟩
  · rw [hs]
  · rw [hs]
    rfl

/-- The two together: any run from the constructor. -/
theorem run_admitted (host : Host) {admin token asp aspNon : Address}
    (h : (constructor admin token verifier asp aspNon levels).run {} = .ok () s)
    (calls : List Call) :
    Reflects levels verifier (run host s calls).1 (run host s calls).2 ∧
      AdmittedRun host levels verifier (run host s calls).1 := by
  obtain ⟨-, -, hs⟩ := constructor_reflects h
  exact run_reflects calls hs .nil

end Runs

end Pool

end PrivatePayments
