import PrivatePayments.Contracts.PoolSafety
import PrivatePayments.SorobanRules

/-!
# PrivatePayments.Contracts.PoolAcceptance

Exactly which transactions the pool accepts. `PoolSound` reads off what an accepted
transaction has passed; here every check is also shown to be the only way to fail, so that
`transact_ok_iff` decides a call from the transactions before it and what the call finds on
the ledger.
-/

namespace PrivatePayments

namespace Pool

open Contract

/-! ### One lemma for each function -/

section Functions

variable {s s' : PoolStorage} {host : Host} {env : CallEnv}

theorem liftTree_ok_iff {α : Type} {f : MerkleWithHistory.MerkleM α} {a : α} :
    (liftTree f).run s = .ok a s' ↔ ∃ tree, f.run s.tree = .ok a tree ∧ s' = { s with tree } := by
  constructor
  · exact liftTree_ok
  · rintro ⟨tree, hf, rfl⟩
    rw [liftTree_run, hf]

theorem i256Sub_zero_iff {v w : I256} : I256.zero.sub v = some w ↔ w.val = -v.val := by
  constructor
  · exact i256Sub_zero
  · intro hw
    have hv : -2 ^ 255 ≤ I256.zero.val - v.val ∧ I256.zero.val - v.val < 2 ^ 255 := by
      rw [show I256.zero.val - v.val = w.val by rw [hw]; simp [I256.zero]]
      exact w.property
    unfold I256.sub
    rw [dif_pos hv]
    exact congrArg some (Subtype.ext (by rw [hw]; simp [I256.zero]))

/-- The negative of a small amount. -/
theorem exists_neg {v : I256} (hv : -2 ^ 255 < v.val) :
    ∃ w : I256, I256.zero.sub v = some w ∧ w.val = -v.val := by
  have hub := v.property.2
  exact ⟨⟨-v.val, by omega, by omega⟩, i256Sub_zero_iff.mpr rfl, rfl⟩

theorem checkedSub_modulus_some {b : U256} {v : Int} (hb : (b.val : Int) = -v)
    (hlt : -v < 2 ^ 248) : ∃ a, U256.checkedSub (Fin.ofNat u256Size bn256Modulus) b = some a := by
  have hp : (Fin.ofNat u256Size bn256Modulus).val = bn256Modulus := by decide
  have hle : b.val ≤ bn256Modulus := by
    unfold bn256Modulus
    omega
  unfold U256.checkedSub
  rw [hp, if_pos hle]
  exact ⟨_, rfl⟩

theorem i256AbsToU256_run {v : I256} (hv : -2 ^ 255 < v.val) :
    ∃ a, (i256AbsToU256 v).run s = .ok a s := by
  unfold i256AbsToU256
  by_cases hneg : v.val ≥ 0
  · rw [if_pos hneg]
    exact ⟨_, rfl⟩
  · obtain ⟨w, hw, -⟩ := exists_neg hv
    rw [if_neg hneg, hw]
    exact ⟨_, rfl⟩

/-- `calculate_public_amount` succeeds exactly on amounts below `2 ^ 248`. -/
theorem calculatePublicAmount_ok_iff {extAmount : I256} {a : U256} :
    (calculatePublicAmount extAmount).run s = .ok a s' ↔
      s' = s ∧ |extAmount.val| < 2 ^ 248 ∧ (a.val : Int) = encodeAmount extAmount.val := by
  constructor
  · exact calculatePublicAmount_ok
  · rintro ⟨rfl, hlt, ha⟩
    -- some value is returned, and it encodes the amount
    suffices hrun : ∃ b, (calculatePublicAmount extAmount).run s' = .ok b s' by
      obtain ⟨b, hb⟩ := hrun
      have heq := (calculatePublicAmount_ok hb).2.2
      rw [hb, show b = a from Fin.ext (by omega)]
    have hbounds := abs_lt.mp hlt
    obtain ⟨absExt, habs⟩ := i256AbsToU256_run (v := extAmount) (s := s') (by omega)
    have habsVal := (i256AbsToU256_ok habs).2
    have hmax : ¬ absExt.val ≥ U256.maxExtAmount.val := by
      rw [maxExtAmount_val]
      omega
    unfold calculatePublicAmount
    rw [run_bind_of_ok habs, failIf_neg hmax, run_bind_of_ok (EStateM.run_pure () s')]
    by_cases hv : extAmount.val ≥ 0
    · rw [if_pos hv]
      exact ⟨_, rfl⟩
    · obtain ⟨neg, hsub, hneg⟩ := exists_neg (v := extAmount) (by omega)
      have hbits := toU256Bits_val (v := neg) (by omega)
      obtain ⟨b, hb⟩ := checkedSub_modulus_some (b := neg.toU256Bits) (v := extAmount.val)
        (by omega) (by omega)
      rw [if_neg hv, hsub, hostCall_some, run_bind_of_ok (EStateM.run_pure neg s'), hb]
      exact ⟨b, rfl⟩

theorem validateBn256PublicInput_ok_iff {v : U256} {u : Unit} :
    (validateBn256PublicInput v).run s = .ok u s' ↔ s' = s ∧ v.val < bn256Modulus :=
  failIf_ok_iff.trans (and_congr_right fun _ => not_le)

theorem validateBn256PublicInputs_ok_iff {proof : Proof} {u : Unit} :
    (validateBn256PublicInputs proof).run s = .ok u s' ↔ s' = s ∧ CanonicalInputs proof := by
  constructor
  · exact validateBn256PublicInputs_ok
  · rintro ⟨rfl, h⟩
    unfold validateBn256PublicInputs
    simp only [checks_bind_ok_iff (fun {_} => validateBn256PublicInput_ok_iff),
      checks_bind_ok_iff (fun {_} => forM_check_ok_iff
        (fun {_ _} => validateBn256PublicInput_ok_iff) proof.inputNullifiers),
      validateBn256PublicInput_ok_iff]
    exact ⟨h.root, h.publicAmount, h.inputNullifiers, h.outputCommitment0, h.outputCommitment1,
      h.aspMembershipRoot, trivial, h.aspNonMembershipRoot⟩

theorem checkNullifier_ok_iff {nulls : U256 → Option Bool} (hnulls : s.nullifiers = some nulls)
    {n : U256} {u : PUnit} :
    (checkNullifier n).run s = .ok u s' ↔ s' = s ∧ (nulls n).getD false = false := by
  have hspent : (isSpent n).run s = .ok ((nulls n).getD false) s := by
    unfold isSpent getNullifiers
    simp only [EStateM.run_bind, EStateM.run_get, hnulls, okOr_some, EStateM.run_pure]
  unfold checkNullifier
  rw [run_bind_of_ok hspent, failIf_ok_iff, Bool.not_eq_true]

theorem i256ToI128Nonneg_ok_iff {v : I256} {a : Int} :
    (i256ToI128Nonneg v).run s = .ok a s' ↔ s' = s ∧ (0 ≤ v.val ∧ v.val < 2 ^ 127) ∧ a = v.val := by
  unfold i256ToI128Nonneg I256.toI128
  rw [checks_bind_ok_iff (fun {_} => failIf_ok_iff), okOr_ok_iff, not_lt,
    Option.ite_none_right_eq_some, Option.some.injEq, @eq_comm _ v.val]
  constructor
  · rintro ⟨hv, hs, hlt, ha⟩
    exact ⟨hs, ⟨hv, hlt.2⟩, ha⟩
  · rintro ⟨hs, ⟨hv, hlt⟩, ha⟩
    exact ⟨hv, hs, ⟨by omega, hlt⟩, ha⟩

/-- The transfer of a deposit, for an amount that fits an `i128`. -/
theorem processDeposit_ok_iff {token : Address} (htoken : s.token = some token)
    {extData : ExtData} {sender : Address} {u : Unit} :
    (processDeposit env extData sender).run s = .ok u s' ↔ s' = s ∧
      (0 < extData.extAmount.val → extData.extAmount.val < 2 ^ 127 ∧
        env.transfer token sender env.this extData.extAmount.val = some ()) := by
  unfold processDeposit
  rw [get_bind_ok_iff, htoken, okOr_some, run_bind_of_ok (EStateM.run_pure token s)]
  by_cases hpos : extData.extAmount.val > 0
  · rw [if_pos hpos, reads_bind_ok_iff (fun {_ _} => i256ToI128Nonneg_ok_iff)]
    simp only [hostCall_ok_iff, forall_const, gt_iff_lt.mp hpos]
    constructor
    · rintro ⟨a, ⟨hbounds, rfl⟩, hs, hcall⟩
      exact ⟨hs, hbounds.2, hcall⟩
    · rintro ⟨hs, hlt, hcall⟩
      exact ⟨_, ⟨⟨hpos.le, hlt⟩, rfl⟩, hs, hcall⟩
  · rw [if_neg hpos, pure_ok_iff]
    exact and_congr_right fun _ => iff_of_true rfl fun h => absurd h hpos

/-- The transfer of a withdrawal, for an amount that fits an `i128` after the change of sign. -/
theorem processWithdrawal_ok_iff {token : Address} (htoken : s.token = some token)
    {extData : ExtData} {u : Unit} :
    (processWithdrawal env extData).run s = .ok u s' ↔ s' = s ∧
      (extData.extAmount.val < 0 → -extData.extAmount.val < 2 ^ 127 ∧
        env.transfer token env.this extData.recipient (-extData.extAmount.val) = some ()) := by
  unfold processWithdrawal
  rw [get_bind_ok_iff, htoken, okOr_some, run_bind_of_ok (EStateM.run_pure token s)]
  by_cases hneg : extData.extAmount.val < 0
  · rw [if_pos hneg, reads_bind_ok_iff (fun {_ _} => hostCall_ok_iff)]
    simp only [reads_bind_ok_iff (fun {_ _} => i256ToI128Nonneg_ok_iff), hostCall_ok_iff,
      forall_const, hneg]
    constructor
    · rintro ⟨abs, hsub, a, ⟨hbounds, rfl⟩, hs, hcall⟩
      rw [i256Sub_zero hsub] at hbounds hcall
      exact ⟨hs, hbounds.2, hcall⟩
    · rintro ⟨hs, hlt, hcall⟩
      obtain ⟨abs, hsub, habs⟩ := exists_neg (v := extData.extAmount) (by omega)
      refine ⟨abs, hsub, _, ⟨⟨by omega, by omega⟩, rfl⟩, hs, ?_⟩
      rw [habs]
      exact hcall
  · rw [if_neg hneg, pure_ok_iff]
    exact and_congr_right fun _ => iff_of_true rfl fun h => absurd h hneg

theorem verifyProof_ok_iff {verifier : Address} (hverifier : s.verifier = some verifier)
    {proof : Proof} {valid : Bool} :
    (verifyProof host proof).run s = .ok valid s' ↔ s' = s ∧ proof.proof.isEmpty = false ∧
      CanonicalInputs proof ∧
      host.verify verifier proof.proof proof.publicInputs = some valid := by
  unfold verifyProof
  rw [checks_bind_ok_iff (fun {_} => failIf_ok_iff), get_bind_ok_iff, hverifier, okOr_some,
    run_bind_of_ok (EStateM.run_pure verifier s),
    checks_bind_ok_iff (fun {_} => validateBn256PublicInputs_ok_iff), hostCall_ok_iff,
    Bool.not_eq_true]
  tauto

theorem getAspMembershipRoot_ok_iff {root : U256} :
    (getAspMembershipRoot env).run s = .ok root s' ↔ s' = s ∧
      ∃ asp, s.aspMembership = some asp ∧ env.aspMembershipRoot asp = some root := by
  unfold getAspMembershipRoot
  rw [get_bind_ok_iff, reads_bind_ok_iff (fun {_ _} => okOr_ok_iff)]
  simp only [hostCall_ok_iff]
  tauto

theorem getAspNonMembershipRoot_ok_iff {root : U256} :
    (getAspNonMembershipRoot env).run s = .ok root s' ↔ s' = s ∧
      ∃ asp, s.aspNonMembership = some asp ∧ env.aspNonMembershipRoot asp = some root := by
  unfold getAspNonMembershipRoot
  rw [get_bind_ok_iff, reads_bind_ok_iff (fun {_ _} => okOr_ok_iff)]
  simp only [hostCall_ok_iff]
  tauto

end Functions

/-! ### Acceptance -/

/-- The transfer of a transaction, out of the sender's account or out of the pool's. -/
structure Payable (env : CallEnv) (token : Address) (tx : Transaction) : Prop where
  fits : |tx.extData.extAmount.val| < 2 ^ 127
  deposit : 0 < tx.extData.extAmount.val →
    env.transfer token tx.sender env.this tx.extData.extAmount.val = some ()
  withdrawal : tx.extData.extAmount.val < 0 →
    env.transfer token env.this tx.extData.recipient (-tx.extData.extAmount.val) = some ()

/-- A root is one of the last `ROOT_HISTORY_SIZE` ones. -/
def RecentRoot (levels : Nat) (before : List Transaction) (root : U256) : Prop :=
  root ≠ 0 ∧ ∃ j ≤ before.length, before.length < j + MerkleWithHistory.rootHistorySize ∧
    root = (MerkleWithHistory.treeRoot levels (outputs (before.take j))).toU256

/-- Everything that a transaction needs after the transactions `before`: the checks of
`transact`, read off the storage `s` and the ledger. -/
structure Acceptable (host : Host) (levels : Nat) (verifier : Address)
    (before : List Transaction) (s : PoolStorage) (env : CallEnv) (tx : Transaction) : Prop where
  authorised : env.authorised = true
  payable : ∃ token, s.token = some token ∧ Payable env token tx
  known : RecentRoot levels before tx.proof.root
  fresh : ∀ n ∈ tx.proof.inputNullifiers, n ∉ nullifiers before
  extDataHash : hashExtData host tx.extData = tx.proof.extDataHash
  publicAmount : (tx.proof.publicAmount.val : Int) = encodeAmount tx.extData.extAmount.val
  membership : ∃ asp, s.aspMembership = some asp ∧
    env.aspMembershipRoot asp = some tx.proof.aspMembershipRoot
  nonMembership : ∃ asp, s.aspNonMembership = some asp ∧
    env.aspNonMembershipRoot asp = some tx.proof.aspNonMembershipRoot
  nonempty : tx.proof.proof.isEmpty = false
  canonical : CanonicalInputs tx.proof
  verified : host.verify verifier tx.proof.proof tx.proof.publicInputs = some true
  room : 2 * before.length + 2 ≤ 2 ^ levels

section Accept

variable {host : Host} {env : CallEnv} {levels : Nat} {verifier : Address}
variable {before : List Transaction} {s : PoolStorage} {tx : Transaction}

theorem isKnownRoot_run (h : Reflects levels verifier before s) (root : U256) :
    ∃ known, (liftTree (MerkleWithHistory.isKnownRoot root)).run s = .ok known s ∧
      (known = true ↔ RecentRoot levels before root) := by
  obtain ⟨known, hrun, hiff⟩ := MerkleWithHistory.isKnownRoot_of_represents h.tree root
  refine ⟨known, liftTree_ok_iff.mpr ⟨s.tree, hrun, rfl⟩, hiff.trans ?_⟩
  unfold RecentRoot MerkleWithHistory.prefixRoot
  simp only [outputs_length, Nat.mul_div_cancel_left _ Nat.two_pos, outputs_take]

theorem insert_ok_iff (h : MerkleWithHistory.Represents levels (outputs before) s.tree)
    (hcanonical : Canonical tx.proof) : (∃ idx s', (liftTree (MerkleWithHistory.insertTwoLeaves tx.proof.outputCommitment0
      tx.proof.outputCommitment1)).run s = .ok idx s') ↔ 2 * before.length + 2 ≤ 2 ^ levels := by
  constructor
  · rintro ⟨idx, s', hrun⟩
    by_contra hfull
    obtain ⟨tree, htree, -⟩ := liftTree_ok hrun
    rw [MerkleWithHistory.insertTwoLeaves_full h (by rw [outputs_length]; omega)] at htree
    cases htree
  · intro hroom
    obtain ⟨tree, hrun, -⟩ := MerkleWithHistory.insertTwoLeaves_room h
      (by rw [outputs_length]; exact hroom) tx.proof.outputCommitment0.toFr
      tx.proof.outputCommitment1.toFr
    rw [U256.toU256_toFr hcanonical.outputCommitment0,
      U256.toU256_toFr hcanonical.outputCommitment1] at hrun
    exact ⟨_, _, liftTree_ok_iff.mpr ⟨tree, hrun, rfl⟩⟩

/-- No nullifier of the transaction is marked. -/
theorem Reflects.fresh_iff {nulls : U256 → Option Bool} (hnulls : s.nullifiers = some nulls)
    (h : Reflects levels verifier before s) {ns : List U256} :
    (∀ n ∈ ns, (nulls n).getD false = false) ↔ ∀ n ∈ ns, n ∉ Pool.nullifiers before := by
  obtain ⟨nulls', hnulls', hspent⟩ := h.nullifiers
  rw [hnulls] at hnulls'
  cases hnulls'
  refine forall₂_congr fun n _ => ?_
  rw [← hspent n, Bool.not_eq_true]

section Checks

variable (host env tx)

/-- Steps 7 to 10 of `internal_transact`: the withdrawal is paid and the leaves fit. -/
theorem settle_ok_iff {token : Address}
    (h : MerkleWithHistory.Represents levels (outputs before) s.tree)
    (htoken : s.token = some token) (hcanonical : Canonical tx.proof) :
    (∃ s', (do
      processWithdrawal env tx.extData
      let (idx0, idx1) ← liftTree (MerkleWithHistory.insertTwoLeaves
        tx.proof.outputCommitment0 tx.proof.outputCommitment1)
      publish (.newCommitment tx.proof.outputCommitment0 idx0 tx.extData.encryptedOutput0)
      publish (.newCommitment tx.proof.outputCommitment1 idx1 tx.extData.encryptedOutput1)
        : PoolM Unit).run s = .ok () s') ↔
      (tx.extData.extAmount.val < 0 → -tx.extData.extAmount.val < 2 ^ 127 ∧
        env.transfer token env.this tx.extData.recipient (-tx.extData.extAmount.val) =
          some ()) ∧ 2 * before.length + 2 ≤ 2 ^ levels := by
  simp only [checks_bind_ok_iff (fun {_} => processWithdrawal_ok_iff htoken), exists_and_left]
  refine and_congr_right fun _ => ?_
  rw [← insert_ok_iff h hcanonical]
  constructor
  · rintro ⟨s', hrun⟩
    obtain ⟨idx, s₁, hinsert, -⟩ := bind_ok hrun
    exact ⟨idx, s₁, hinsert⟩
  · rintro ⟨idx, s₁, hinsert⟩
    rw [run_bind_of_ok hinsert]
    exact ⟨_, rfl⟩

/-- The checks of `internal_transact`, from a storage with a token. -/
theorem internalTransact_ok_iff {token : Address} (h : Reflects levels verifier before s)
    (htoken : s.token = some token) :
    (∃ s', (internalTransact host env tx.proof tx.extData).run s = .ok () s') ↔
      RecentRoot levels before tx.proof.root ∧
      (∀ n ∈ tx.proof.inputNullifiers, n ∉ nullifiers before) ∧
      hashExtData host tx.extData = tx.proof.extDataHash ∧
      |tx.extData.extAmount.val| < 2 ^ 248 ∧
      (tx.proof.publicAmount.val : Int) = encodeAmount tx.extData.extAmount.val ∧
      (∃ asp, s.aspMembership = some asp ∧
        env.aspMembershipRoot asp = some tx.proof.aspMembershipRoot) ∧
      (∃ asp, s.aspNonMembership = some asp ∧
        env.aspNonMembershipRoot asp = some tx.proof.aspNonMembershipRoot) ∧
      tx.proof.proof.isEmpty = false ∧ CanonicalInputs tx.proof ∧
      host.verify verifier tx.proof.proof tx.proof.publicInputs = some true ∧
      (tx.extData.extAmount.val < 0 → -tx.extData.extAmount.val < 2 ^ 127 ∧
        env.transfer token env.this tx.extData.recipient (-tx.extData.extAmount.val) =
          some ()) ∧
      2 * before.length + 2 ≤ 2 ^ levels := by
  obtain ⟨nulls, hnulls, -⟩ := h.nullifiers
  obtain ⟨known, hknown, hrecent⟩ := isKnownRoot_run h tx.proof.root
  unfold internalTransact
  simp only [run_bind_of_ok hknown, checks_bind_ok_iff (fun {_} => failIf_ok_iff),
    checks_bind_ok_iff (fun {_} => forM_check_ok_iff
      (fun {_ _} => checkNullifier_ok_iff hnulls) _), h.fresh_iff hnulls,
    reads_bind_ok_iff (fun {_ _} => calculatePublicAmount_ok_iff),
    reads_bind_ok_iff (fun {_ _} => getAspMembershipRoot_ok_iff),
    reads_bind_ok_iff (fun {_ _} => getAspNonMembershipRoot_ok_iff),
    reads_bind_ok_iff (fun {_ _} => verifyProof_ok_iff h.verifier_eq),
    run_bind_of_ok (spendNullifiers_run _ hnulls), not_or, not_not, Bool.not_eq_true',
    Bool.not_eq_false]
  have hsettle := settle_ok_iff env tx (s := { s with
    nullifiers := some (markAll nulls tx.proof.inputNullifiers)
    events := s.events ++ tx.proof.inputNullifiers.map .newNullifier }) h.tree htoken
  constructor
  · rintro ⟨s', hk, hfresh, hhash, a, ⟨hlt, ha⟩, hpublic, r, hmember, r', hnonMember,
      ⟨rfl, rfl⟩, valid, ⟨hnonempty, hcanonical, hverified⟩, rfl, hrun⟩
    obtain ⟨hpaid, hroom⟩ := (hsettle hcanonical.toCanonical).mp ⟨s', hrun⟩
    exact ⟨hrecent.mp hk, hfresh, hhash, hlt, by rw [hpublic, ha], hmember, hnonMember, hnonempty,
      hcanonical, hverified, hpaid, hroom⟩
  · rintro ⟨hk, hfresh, hhash, hlt, ha, hmember, hnonMember, hnonempty, hcanonical, hverified,
      hpaid, hroom⟩
    obtain ⟨s', hrun⟩ := (hsettle hcanonical.toCanonical).mpr ⟨hpaid, hroom⟩
    exact ⟨s', hrecent.mpr hk, hfresh, hhash, _, ⟨hlt, ha⟩, rfl, _, hmember, _, hnonMember,
      ⟨rfl, rfl⟩, true, ⟨hnonempty, hcanonical, hverified⟩, rfl, hrun⟩

end Checks

/-- The contract accepts a transaction exactly if it is acceptable. -/
theorem transact_ok_iff (h : Reflects levels verifier before s) :
    (∃ s', (transact host env tx.proof tx.extData tx.sender).run s = .ok () s') ↔
      Acceptable host levels verifier before s env tx := by
  have hinternal := fun token (htoken : s.token = some token) =>
    internalTransact_ok_iff host env tx h htoken
  unfold transact
  simp only [checks_bind_ok_iff (fun {_} => requireAuth_ok_iff)]
  constructor
  · rintro ⟨s', hauth, hrun⟩
    obtain ⟨_, s₁, hdeposit, hrest⟩ := bind_ok hrun
    obtain ⟨token, htoken, -⟩ := okOr_bind_ok (get_bind_ok hdeposit)
    obtain ⟨hs₁, hpaid⟩ := (processDeposit_ok_iff htoken).mp hdeposit
    rw [hs₁] at hrest
    obtain ⟨hk, hfresh, hhash, hlt, ha, hmember, hnonMember, hnonempty, hcanonical, hverified,
      hwithdrawn, hroom⟩ := (hinternal token htoken).mp ⟨s', hrest⟩
    have hfits : |tx.extData.extAmount.val| < 2 ^ 127 := by
      rcases lt_trichotomy tx.extData.extAmount.val 0 with hv | hv | hv
      · rw [abs_of_neg hv]
        exact (hwithdrawn hv).1
      · rw [hv]
        decide
      · rw [abs_of_pos hv]
        exact (hpaid hv).1
    exact ⟨hauth, ⟨token, htoken, hfits, fun hv => (hpaid hv).2, fun hv => (hwithdrawn hv).2⟩,
      hk, hfresh, hhash, ha, hmember, hnonMember, hnonempty, hcanonical, hverified, hroom⟩
  · intro ha
    obtain ⟨token, htoken, hpay⟩ := ha.payable
    have hfits := abs_lt.mp hpay.fits
    have hdeposit : (processDeposit env tx.extData tx.sender).run s = .ok () s :=
      (processDeposit_ok_iff htoken).mpr ⟨rfl, fun hv => ⟨hfits.2, hpay.deposit hv⟩⟩
    obtain ⟨s', hrun⟩ := (hinternal token htoken).mpr ⟨ha.known, ha.fresh, ha.extDataHash,
      abs_lt.mpr ⟨by omega, by omega⟩, ha.publicAmount, ha.membership, ha.nonMembership,
      ha.nonempty, ha.canonical, ha.verified,
      fun hv => ⟨by omega, hpay.withdrawal hv⟩, ha.room⟩
    exact ⟨s', ha.authorised, (run_bind_of_ok hdeposit).trans hrun⟩

end Accept

/-- **Acceptance.** After any calls to a constructed pool, a transaction is accepted exactly
if it is acceptable: no other condition can refuse it. -/
theorem accepts_exactly {host : Host} {levels : Nat}
    {admin token verifier aspMembership aspNonMembership : Address} {s₀ : PoolStorage}
    (hinit : (constructor admin token verifier aspMembership aspNonMembership levels).run {} =
      .ok () s₀) (calls : List Call) (env : CallEnv) (tx : Transaction) :
    (∃ s', (transact host env tx.proof tx.extData tx.sender).run (run host s₀ calls).2 =
      .ok () s') ↔
      Acceptable host levels verifier (run host s₀ calls).1 (run host s₀ calls).2 env tx :=
  transact_ok_iff (run_admitted host hinit calls).1

theorem ok_of_isOk {τ ε α : Type} {r : EStateM.Result ε τ α} (h : isOk r = true) :
    ∃ a s', r = .ok a s' := by
  cases r with
  | ok a s' => exact ⟨a, s', rfl⟩
  | error e s' => cases h

/-- The deposit into the empty pool. -/
theorem accepts_exactly_deposit :
    Acceptable depositHost 1 12 [] (initialPool 1) depositEnv depositTx := by
  obtain ⟨_, s', hrun⟩ := ok_of_isOk deposit_ok
  exact (accepts_exactly (constructor_run (le_refl 1) (by decide)) [] depositEnv depositTx).mp
    ⟨s', hrun⟩

/-! ### The calls of the administrator -/

section Admin

variable {host : Host} {env : CallEnv} {s s' : PoolStorage} {a : Address}

theorem updateAdmin_ok (h : (updateAdmin env a).run s = .ok () s') :
    env.authorised = true ∧ s' = { s with admin := some a } := by
  obtain ⟨-, h⟩ := failIf_bind_ok (get_bind_ok h)
  obtain ⟨hauth, h⟩ := requireAuth_bind_ok h
  cases h
  exact ⟨hauth, rfl⟩

theorem updateAspMembership_ok (h : (updateAspMembership env a).run s = .ok () s') :
    env.authorised = true ∧ s' = { s with aspMembership := some a } := by
  obtain ⟨_, -, h⟩ := okOr_bind_ok (get_bind_ok h)
  obtain ⟨hauth, h⟩ := requireAuth_bind_ok h
  cases h
  exact ⟨hauth, rfl⟩

theorem updateAspNonMembership_ok (h : (updateAspNonMembership env a).run s = .ok () s') :
    env.authorised = true ∧ s' = { s with aspNonMembership := some a } := by
  obtain ⟨_, -, h⟩ := okOr_bind_ok (get_bind_ok h)
  obtain ⟨hauth, h⟩ := requireAuth_bind_ok h
  cases h
  exact ⟨hauth, rfl⟩

/-- Everything an accepted call can do. -/
theorem Call.ok_cases {levels : Nat} {verifier : Address} {before : List Transaction}
    (hs : Reflects levels verifier before s) {call : Call}
    (h : (call.function host).run s = .ok () s') :
    (∃ env tx, call = .transact env tx ∧ Acceptable host levels verifier before s env tx ∧
      Accepts host tx s s') ∨
    (∃ env a, call = .updateAdmin env a ∧ env.authorised = true ∧
      s' = { s with admin := some a }) ∨
    (∃ env a, call = .updateAspMembership env a ∧ env.authorised = true ∧
      s' = { s with aspMembership := some a }) ∨
    (∃ env a, call = .updateAspNonMembership env a ∧ env.authorised = true ∧
      s' = { s with aspNonMembership := some a }) := by
  cases call with
  | transact env tx =>
      obtain ⟨nulls, hnulls, -⟩ := hs.nullifiers
      exact .inl ⟨env, tx, rfl, (transact_ok_iff hs).mp ⟨s', h⟩,
        transact_accepts hs.tree (by rw [hnulls]; rfl) h⟩
  | updateAdmin env a => exact .inr (.inl ⟨env, a, rfl, updateAdmin_ok h⟩)
  | updateAspMembership env a => exact .inr (.inr (.inl ⟨env, a, rfl, updateAspMembership_ok h⟩))
  | updateAspNonMembership env a =>
      exact .inr (.inr (.inr ⟨env, a, rfl, updateAspNonMembership_ok h⟩))

end Admin

end Pool

end PrivatePayments
