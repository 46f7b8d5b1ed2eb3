import PrivatePayments.Contracts.PoolLedger
import PrivatePayments.Circuits.SmtVerifierSound
import Mathlib.Algebra.Order.BigOperators.Group.Finset

/-!
# PrivatePayments.Contracts.PoolSafety

The two safety properties of the pool: value is conserved, and no note is spent twice.
The accepted transactions of a run are turned into a note ledger, whose conservation law
then speaks about the storage of the contract.
-/

namespace PrivatePayments.Pool

open PerfectTree MerkleWithHistory

variable {levels smtLevels : Nat}

/-- The nullifier is marked in the storage. -/
def IsSpent (s : PoolStorage) (n : U256) : Prop :=
  ∃ nulls, s.nullifiers = some nulls ∧ (nulls n).getD false = true

/-- The leaf is a commitment to the amount. -/
def Opens (S : Set Query) (leaf amount : Fr) : Prop :=
  ∃ publicKey blinding, .hash3 amount publicKey blinding 1 ∈ S ∧
    leaf = noteCommitment amount publicKey blinding

/-- The nullifier of the leaf at index `i` is in the nullifier set: it is the one that the
owner's private key gives. -/
def LeafSpent (S : Set Query) (s : PoolStorage) (leaf : Fr) (i : Nat) : Prop :=
  ∃ privateKey amount blinding, ∃ index : Fr, index.val = i ∧
    .hash2 privateKey 0 3 ∈ S ∧ .hash3 amount (keypair privateKey) blinding 1 ∈ S ∧
    .hash3 privateKey leaf index 4 ∈ S ∧
    .hash3 leaf index (signature privateKey leaf index) 2 ∈ S ∧
    leaf = noteCommitment amount (keypair privateKey) blinding ∧
    IsSpent s (noteNullifier leaf index (signature privateKey leaf index)).toU256

/-- An input spends a leaf: its path index is the leaf's, and it is worth something or
opens the leaf. -/
def Uses (w : Signals levels smtLevels) (k : Fin 2) (leaf : Fr) (i : Nat) : Prop :=
  (w.inPathIndices k).val = i ∧ (w.inAmount k ≠ 0 ∨ w.inCommitment k = leaf)

/-! ### The ledger of a run -/

/-- A transaction as a ledger entry. -/
def ledgerTx (w : List Fr → Signals levels smtLevels) (tx : Transaction) : NoteLedger.Tx Int where
  ext := tx.extData.extAmount.val
  spends := ((inputs w [tx]).filter fun q => q.1.inAmount q.2 ≠ 0).map
    fun q => ((q.1.inPathIndices q.2).val, ((q.1.inAmount q.2).val : Int))
  outs := (openings w [tx]).map fun o => (o.1.val : Int)

theorem created_ledger (w : List Fr → Signals levels smtLevels) (txs : List Transaction) :
    NoteLedger.created (txs.map (ledgerTx w)) = (openings w txs).map fun o => (o.1.val : Int) := by
  induction txs with
  | nil => rfl
  | cons tx txs ih =>
      have hsplit : openings w (tx :: txs) = openings w [tx] ++ openings w txs :=
        openings_append [tx] txs
      rw [hsplit, List.map_append, ← ih]
      rfl

theorem spent_ledger (w : List Fr → Signals levels smtLevels) (txs : List Transaction) :
    NoteLedger.spent (txs.map (ledgerTx w)) =
      ((inputs w txs).filter fun q => q.1.inAmount q.2 ≠ 0).map
        fun q => ((q.1.inPathIndices q.2).val, ((q.1.inAmount q.2).val : Int)) := by
  induction txs with
  | nil => rfl
  | cons tx txs ih =>
      have hsplit : inputs w (tx :: txs) = inputs w [tx] ++ inputs w txs :=
        inputs_append [tx] txs
      rw [hsplit, List.filter_append, List.map_append, ← ih]
      rfl

/-- Inputs that are worth nothing do not count. -/
theorem sum_filter_nonzero {α : Type} (f : α → Fr) (l : List α) :
    ((l.filter fun a => f a ≠ 0).map fun a => ((f a).val : Int)).sum =
      (l.map fun a => ((f a).val : Int)).sum := by
  induction l with
  | nil => rfl
  | cons a l ih =>
      by_cases ha : f a = 0
      · rw [List.filter_cons_of_neg (by simpa using ha), ih, List.map_cons, List.sum_cons, ha]
        simp
      · rw [List.filter_cons_of_pos (by simpa using ha), List.map_cons, List.map_cons,
          List.sum_cons, List.sum_cons, ih]

/-- The equation of the circuit over the field is one over the integers, when inputs and
outputs have 248 bits and the public amount encodes an amount of 248 bits. -/
theorem amounts_integer {a₀ a₁ o₀ o₁ pub : Fr} {v : Int} (ha₀ : a₀.val < 2 ^ 248)
    (ha₁ : a₁.val < 2 ^ 248) (ho₀ : o₀.val < 2 ^ 248) (ho₁ : o₁.val < 2 ^ 248)
    (hv : |v| < 2 ^ 248) (hpub : (pub.val : Int) = encodeAmount v)
    (h : a₀ + a₁ + pub = o₀ + o₁) : (a₀.val : Int) + a₁.val + v = o₀.val + o₁.val := by
  have hval := congrArg Fin.val h
  rw [Fin.val_add, Fin.val_add, Fin.val_add] at hval
  have habs := abs_lt.mp hv
  unfold encodeAmount at hpub
  unfold bn256Modulus at *
  split at hpub
  · omega
  · omega

section Run

variable {lib : Circomlib} {host : Host} {verifier : Address}
variable {w : List Fr → Signals levels smtLevels} {S : Set Query} {txs : List Transaction}

theorem AdmittedRun.of_append {before after : List Transaction}
    (h : AdmittedRun host levels verifier (before ++ after)) :
    AdmittedRun host levels verifier before := by
  induction after using List.reverseRecOn with
  | nil => rwa [List.append_nil] at h
  | append_singleton after tx ih =>
      rw [← List.append_assoc] at h
      generalize hl : before ++ after ++ [tx] = l at h
      cases h with
      | nil => simp at hl
      | snoc hbefore _ =>
          obtain ⟨heq, -⟩ := List.append_inj' hl rfl
          rw [← heq] at hbefore
          exact ih hbefore

variable (hsound : VerifierSound lib host verifier w) (hlevels : levels ≤ 32)
variable (hS : Set.InjOn Query.eval S) (hrun : AdmittedRun host levels verifier txs)
variable (hq : runQueries w txs ⊆ S)

include hsound hlevels hS hrun hq

/-- Inputs have 248 bits, although the circuit does not check it: they are zero or
amounts of earlier outputs. -/
theorem input_amount_lt {q : Signals levels smtLevels × Fin 2} (hin : q ∈ inputs w txs) :
    (q.1.inAmount q.2).val < 2 ^ 248 := by
  by_cases hk : q.1.inAmount q.2 = 0
  · rw [hk]
    decide
  · have hget := input_created hsound hlevels hS hrun hq hin hk
    exact opening_amount_lt hsound hrun (List.mem_of_getElem? hget)

/-- **No wrap.** The amounts of an accepted transaction balance over the integers. -/
theorem tx_balanced {tx : Transaction} (htx : tx ∈ txs) :
    (((signals w tx).inAmount 0).val : Int) + ((signals w tx).inAmount 1).val +
        tx.extData.extAmount.val =
      ((signals w tx).outAmount 0).val + ((signals w tx).outAmount 1).val := by
  obtain ⟨before, after, -, -, hadm⟩ := hrun.split htx
  obtain ⟨hrel, -, hpub, -⟩ := verified_signals hsound hadm.verified
  have hin : ∀ k, ((signals w tx).inAmount k).val < 2 ^ 248 := fun k =>
    input_amount_lt hsound hlevels hS hrun hq (q := (signals w tx, k))
      (mem_inputs.mpr ⟨tx, htx, rfl⟩)
  have hfield := hrel.amounts
  rw [Fin.sum_univ_two, Fin.sum_univ_two] at hfield
  refine amounts_integer (hin 0) (hin 1) (hrel.outputs 0).amount_lt (hrel.outputs 1).amount_lt
    hadm.amount_lt ?_ hfield
  have hcanonical : tx.proof.publicAmount.val < bn256Modulus := by
    have hencode := hadm.publicAmount
    have habs := abs_lt.mp hadm.amount_lt
    unfold encodeAmount at hencode
    unfold bn256Modulus at *
    split at hencode
    · omega
    · omega
  rw [hpub, U256.toFr_val_of_lt hcanonical]
  exact hadm.publicAmount

theorem ledger_balanced : ∀ t ∈ txs.map (ledgerTx w), t.Balanced := by
  intro t ht
  obtain ⟨tx, htx, rfl⟩ := List.mem_map.mp ht
  have hbal := tx_balanced hsound hlevels hS hrun hq htx
  unfold NoteLedger.Tx.Balanced ledgerTx
  rw [List.map_map]
  have hspends := sum_filter_nonzero (fun q => q.1.inAmount q.2) (inputs w [tx])
  simp only [Function.comp_def] at hspends ⊢
  rw [hspends]
  simp only [inputs, openings, List.flatMap_cons, List.flatMap_nil, List.append_nil,
    List.map_cons, List.map_nil, List.sum_cons, List.sum_nil, add_zero]
  exact hbal

theorem ledger_nodup : ((NoteLedger.spent (txs.map (ledgerTx w))).map Prod.fst).Nodup := by
  rw [spent_ledger, List.map_map]
  exact spend_nodup hsound hlevels hS hrun hq

theorem ledger_created : ∀ q ∈ NoteLedger.spent (txs.map (ledgerTx w)),
    (NoteLedger.created (txs.map (ledgerTx w)))[q.1]? = some q.2 := by
  rw [spent_ledger, created_ledger]
  intro q hmem
  obtain ⟨p, hp, rfl⟩ := List.mem_map.mp hmem
  obtain ⟨hin, hk⟩ := List.mem_filter.mp hp
  rw [List.getElem?_map, input_created hsound hlevels hS hrun hq hin (of_decide_eq_true hk)]
  rfl

/-- Withdrawals never exceed deposits. -/
theorem ext_nonneg : 0 ≤ (txs.map fun tx => tx.extData.extAmount.val).sum := by
  classical
  have hsum := NoteLedger.conservation (ledger_balanced hsound hlevels hS hrun hq)
    (ledger_nodup hsound hlevels hS hrun hq) (ledger_created hsound hlevels hS hrun hq)
    (fun i => i ∈ (NoteLedger.spent (txs.map (ledgerTx w))).map Prod.fst)
    (fun _ _ => Iff.rfl)
  rw [List.map_map] at hsum
  change (txs.map fun tx => tx.extData.extAmount.val).sum = _ at hsum
  rw [hsum, created_ledger]
  refine Finset.sum_nonneg fun i _ => ?_
  split
  · exact le_rfl
  · rw [List.getD_eq_getElem?_getD, List.getElem?_map]
    cases (openings w txs)[i]? with
    | none => exact le_rfl
    | some o => exact Int.natCast_nonneg _

/-- **Stored nullifiers mark the spends.** For a leaf that is worth something, its nullifier
is stored exactly when an input has spent it. -/
theorem leafSpent_iff {s : PoolStorage} (hs : Reflects levels verifier txs s) {i : Nat}
    {o : Fr × Fr × Fr} (ho : (openings w txs)[i]? = some o) (hworth : o.1 ≠ 0) :
    LeafSpent S s (noteCommitment o.1 o.2.1 o.2.2) i ↔
      ∃ q ∈ inputs w txs, q.1.inAmount q.2 ≠ 0 ∧ (q.1.inPathIndices q.2).val = i := by
  obtain ⟨nulls, hnulls, hmem⟩ := hs.nullifiers
  have hopening := hq (opening_query_mem (List.mem_of_getElem? ho))
  constructor
  · rintro ⟨sk, amount, blinding, index, hidx, -, hcommit, -, hnull, hleaf, nulls', hnulls', hspent⟩
    obtain rfl : nulls' = nulls := Option.some.inj (hnulls'.symm.trans hnulls)
    have hstored := List.mem_map_of_mem (f := U256.toFr) ((hmem _).mp hspent)
    rw [nullifiers_eq_map hsound hrun, U256.toFr_toU256] at hstored
    obtain ⟨q, hin, hnf⟩ := List.mem_map.mp hstored
    obtain ⟨tx, htx, hsig⟩ := mem_inputs.mp hin
    obtain ⟨hrel, -⟩ := verified_signals hsound (hrun.verified htx)
    obtain ⟨sig, k⟩ := q
    simp only at hsig hnf
    subst hsig
    rw [← (hrel.inputs k).nullifier] at hnf
    have hquery : ∀ {q}, q ∈ inputQueries (signals w tx) k → q ∈ S :=
      fun h => hq (input_query_mem htx k h)
    obtain ⟨h₁, h₂, -, -⟩ := hash3_inj hS
      (hquery (List.mem_append_left _ (by simp))) hnull hnf
    -- the input opens the leaf, so it has the leaf's amount
    obtain ⟨hamount, -⟩ := hash3_inj hS (hquery (List.mem_append_left _ (by simp))) hopening h₁
    refine ⟨(signals w tx, k), hin, ?_, ?_⟩
    · rw [hamount]
      exact hworth
    · rw [h₂]
      exact hidx
  · rintro ⟨q, hin, hk, rfl⟩
    have hget := input_created hsound hlevels hS hrun hq hin hk
    rw [ho, Option.some.injEq] at hget
    obtain ⟨tx, htx, hsig⟩ := mem_inputs.mp hin
    obtain ⟨hrel, -⟩ := verified_signals hsound (hrun.verified htx)
    obtain ⟨sig, k⟩ := q
    simp only at hsig hget ⊢
    subst hsig
    have hquery : ∀ {q}, q ∈ inputQueries (signals w tx) k → q ∈ S :=
      fun h => hq (input_query_mem htx k h)
    have hstored : (signals w tx).inputNullifier k ∈ (nullifiers txs).map U256.toFr := by
      rw [nullifiers_eq_map hsound hrun]
      exact List.mem_map.mpr ⟨_, hin, rfl⟩
    obtain ⟨n, hn, hnf⟩ := List.mem_map.mp hstored
    rw [hget]
    refine ⟨(signals w tx).inPrivateKey k, (signals w tx).inAmount k, (signals w tx).inBlinding k,
      (signals w tx).inPathIndices k, rfl, hquery (List.mem_append_left _ (by simp)),
      hquery (List.mem_append_left _ (by simp [PolicySignals.inPublicKey])),
      hquery (List.mem_append_left _ (by simp [PolicySignals.inCommitment])),
      hquery (List.mem_append_left _
        (by simp [PolicySignals.inCommitment, PolicySignals.inSignature])), rfl,
      nulls, hnulls, ?_⟩
    have heq : noteNullifier ((signals w tx).inCommitment k) ((signals w tx).inPathIndices k)
        ((signals w tx).inSignature k) = n.toFr := by
      rw [(hrel.inputs k).nullifier, hnf]
    change (nulls (noteNullifier ((signals w tx).inCommitment k)
      ((signals w tx).inPathIndices k) ((signals w tx).inSignature k)).toU256).getD false = true
    rw [heq, U256.toU256_toFr (hrun.canonical hn)]
    exact (hmem n).mpr hn

end Run

/-! ### A deposit

A run with one accepted transaction, with the real hashes. -/

/-- Signals of a deposit of 5 into an empty pool of one level: two inputs worth nothing,
owned by the private key 11, and a policy tree with this owner only. -/
def depositSignals : Signals 1 1 :=
  let publicKey := keypair 11
  let inCommitment := fun tx : Fin 2 => noteCommitment 0 publicKey (Fin.ofNat _ tx.val)
  let outAmount := ![(5 : Fr), 0]
  { root := zeroNode 1
    publicAmount := 5
    extDataHash := 0
    inputNullifier := fun tx => noteNullifier (inCommitment tx) 0 (signature 11 (inCommitment tx) 0)
    outputCommitment := fun tx => noteCommitment (outAmount tx) publicKey 7
    membershipRoots := fun _ _ => poseidon2Compress (membershipLeaf publicKey 0) 0
    nonMembershipRoots := fun _ _ => 0
    membershipProofs := fun _ _ => {
      leaf := membershipLeaf publicKey 0, blinding := 0, pathElements := fun _ => 0, pathIndices := 0 }
    nonMembershipProofs := fun _ _ => {
      key := publicKey, siblings := fun _ => 0, oldKey := 0, oldValue := 0, isOld0 := 1 }
    inAmount := fun _ => 0
    inPrivateKey := fun _ => 11
    inBlinding := fun tx => Fin.ofNat _ tx.val
    inPathIndices := fun _ => 0
    inPathElements := fun _ _ => 0
    outAmount := outAmount
    outPubkey := fun _ => publicKey
    outBlinding := fun _ => 7 }

theorem depositSignals_satisfied : PolicyTransaction Circomlib.documented depositSignals where
  inputs tx := {
    nullifier := rfl
    tree := ⟨_, (merkleProof_iff (by simp)).mpr ⟨by simp [depositSignals], rfl⟩,
      Circomlib.documented.forceEqualIfEnabled_iff.mpr fun h => absurd rfl h⟩
    membership := fun _ => ⟨rfl, (merkleProof_iff (by simp)).mpr ⟨by simp [depositSignals], rfl⟩⟩
    nonMembership := fun _ => ⟨rfl, bits 1 1,
      (Circomlib.documented.num2Bits_iff (by decide)).mpr ⟨show (1 : Fr).val < 2 ^ 1 by decide, rfl⟩,
      (@smtVerifier_iff _ _ _ _ _ _ true _).mpr ⟨rfl, rfl, fun h => by cases h⟩⟩ }
  outputs tx := {
    commitment := rfl
    range := by
      fin_cases tx
      · exact ⟨_, (Circomlib.documented.num2Bits_iff (by decide)).mpr ⟨by decide, rfl⟩⟩
      · exact ⟨_, (Circomlib.documented.num2Bits_iff (by decide)).mpr ⟨by decide, rfl⟩⟩ }
  sameNullifiers := by
    have hne : depositSignals.inputNullifier 0 ≠ depositSignals.inputNullifier 1 := by
      decide +kernel
    intro i j hij
    obtain ⟨rfl, rfl⟩ : i = 0 ∧ j = 1 := by omega
    rw [Circomlib.documented.isEqual_iff, decide_eq_false hne]
    rfl
  amounts := by decide
  extDataSquare := ⟨_, rfl⟩

/-- The transaction with these signals. -/
def depositTx : Transaction where
  proof := {
    proof := ⟨[1], [1], [1]⟩
    root := depositSignals.root.toU256
    inputNullifiers := [(depositSignals.inputNullifier slot0).toU256,
      (depositSignals.inputNullifier slot1).toU256]
    outputCommitment0 := (depositSignals.outputCommitment slot0).toU256
    outputCommitment1 := (depositSignals.outputCommitment slot1).toU256
    publicAmount := 5
    extDataHash := 0
    aspMembershipRoot := (depositSignals.membershipRoots slot0 (Fin.last 0)).toU256
    aspNonMembershipRoot := 0 }
  extData := {
    recipient := 0
    extAmount := ⟨5, by decide⟩
    encryptedOutput0 := []
    encryptedOutput1 := [] }
  sender := 1

/-- A verifier that accepts this transaction only. -/
def depositHost : Host where
  toXdr _ := []
  keccak256 _ := 0
  verify _ _ inputs := some (inputs = depositSignals.publicInputs)

def depositEnv : CallEnv where
  this := 2
  authorised := true
  transfer _ _ _ _ := some ()
  aspMembershipRoot _ := some (depositSignals.membershipRoots slot0 (Fin.last 0)).toU256
  aspNonMembershipRoot _ := some 0

/-- The pool that the constructor leaves behind. -/
def initialPool (levels : Nat) : PoolStorage where
  admin := some 10
  token := some 11
  verifier := some 12
  nullifiers := some fun _ => none
  aspMembership := some 13
  aspNonMembership := some 14
  tree := initialStorage levels

theorem constructor_run {levels : Nat} (hpos : 1 ≤ levels) (hle : levels ≤ 32) :
    (constructor 10 11 12 13 14 levels).run {} = .ok () (initialPool levels) := by
  unfold constructor
  rw [EStateM.run_bind, EStateM.run_modify]
  simp only
  rw [liftTree_run, init_apply hpos hle]
  rfl

theorem depositHost_sound :
    VerifierSound Circomlib.documented depositHost 12 fun _ => depositSignals := by
  intro proof inputs h
  have heq : inputs = depositSignals.publicInputs := by simpa [depositHost] using h
  exact ⟨heq.symm, depositSignals_satisfied⟩

def isOk {σ ε α : Type} : EStateM.Result ε σ α → Bool
  | .ok _ _ => true
  | .error _ _ => false

theorem deposit_ok : isOk ((Call.function depositHost (.transact depositEnv depositTx)).run
    (initialPool 1)) = true := by
  decide +kernel

/-- The deposit is accepted. -/
theorem deposit_accepted :
    (run depositHost (initialPool 1) [.transact depositEnv depositTx]).1 = [depositTx] := by
  have hok := deposit_ok
  rw [run_cons]
  cases hrun : (Call.function depositHost (.transact depositEnv depositTx)).run
      (initialPool 1) with
  | ok u s => rfl
  | error e s =>
      rw [hrun] at hok
      cases hok

/-- The hashes of the deposit. -/
def depositQueries : List Query :=
  [zeroLeafQuery, .compress zeroLeaf zeroLeaf,
   .compress (depositSignals.outputCommitment slot0) (depositSignals.outputCommitment slot1)] ++
    (txQueries depositSignals).dedup

theorem depositQueries_injOn : Set.InjOn Query.eval { q | q ∈ depositQueries } := by
  have hnodup : (depositQueries.map Query.eval).Nodup := by decide +kernel
  exact fun q hq q' hq' heq => List.inj_on_of_nodup_map hnodup hq hq' heq

theorem depositQueries_cover :
    runQueries (fun _ => depositSignals) [depositTx] ⊆ { q | q ∈ depositQueries } := by
  rintro q (rfl | ⟨j, hj, p, ⟨l, i, hl, hi, rfl⟩, rfl⟩ | ⟨tx, -, hq⟩)
  · exact List.mem_append_left _ (by simp)
  · obtain rfl : l = 0 := by omega
    obtain rfl : i = 0 := by simpa using hi
    refine List.mem_append_left _ ?_
    have hj' : j = 0 ∨ j = 1 := by
      rw [List.length_singleton] at hj
      omega
    rcases hj' with rfl | rfl
    · exact List.mem_cons_of_mem _ List.mem_cons_self
    · refine List.mem_cons_of_mem _ (List.mem_cons_of_mem _ (List.mem_singleton.mpr ?_))
      simp [padded, outputs, depositTx]
  · exact List.mem_append_right _ (List.mem_dedup.mpr hq)

/-! ### Value conservation -/

/-- The openings of the leaves, as the statement reads them. -/
theorem opens_openings {lib : Circomlib} {host : Host} {verifier : Address}
    {w : List Fr → Signals levels smtLevels} {S : Set Query} {txs : List Transaction}
    (hsound : VerifierSound lib host verifier w) (hrun : AdmittedRun host levels verifier txs)
    (hq : runQueries w txs ⊆ S) :
    List.Forall₂ (Opens S) (outputs txs) ((openings w txs).map Prod.fst) := by
  rw [outputs_eq_map hsound hrun, List.forall₂_map_left_iff, List.forall₂_map_right_iff,
    List.forall₂_same]
  intro o ho
  exact ⟨o.2.1, o.2.2, hq (opening_query_mem ho), rfl⟩

theorem getD_map_val (l : List (Fr × Fr × Fr)) (i : Nat) :
    (l.map fun o => (o.1.val : Int)).getD i 0 = (((l.map Prod.fst).getD i 0).val : Int) := by
  rw [List.getD_eq_getElem?_getD, List.getD_eq_getElem?_getD, List.getElem?_map,
    List.getElem?_map]
  cases l[i]? with
  | none => rfl
  | some o => rfl

open Classical in
/-- **Value conservation.** In every run from the constructor, the accepted external amounts
sum up to the amounts of the inserted commitments whose nullifier is not stored; no prefix
of the accepted transactions has withdrawn more than was deposited; and the amounts of
every accepted transaction balance over the integers. -/
theorem value_conserved {lib : Circomlib} {host : Host}
    {admin token verifier aspMembership aspNonMembership : Address}
    {w : List Fr → Signals levels smtLevels} {S : Set Query} {s₀ : PoolStorage}
    (hinit : (constructor admin token verifier aspMembership aspNonMembership levels).run {} =
      .ok () s₀)
    (hsound : VerifierSound lib host verifier w) (calls : List Call)
    (hS : Set.InjOn Query.eval S) (hq : runQueries w (run host s₀ calls).1 ⊆ S) :
    let txs := (run host s₀ calls).1
    let s := (run host s₀ calls).2
    (∃ amounts, List.Forall₂ (Opens S) (outputs txs) amounts ∧
      (txs.map fun tx => tx.extData.extAmount.val).sum =
        ∑ i ∈ Finset.range (outputs txs).length,
          if LeafSpent S s ((outputs txs).getD i 0) i then 0 else ((amounts.getD i 0).val : Int)) ∧
    (∀ before after, txs = before ++ after →
      0 ≤ (before.map fun tx => tx.extData.extAmount.val).sum) ∧
    ∀ tx ∈ txs, (∑ k, ((signals w tx).inAmount k).val : Int) + tx.extData.extAmount.val =
      (∑ k, ((signals w tx).outAmount k).val : Int) := by
  intro txs s
  obtain ⟨-, hlevels, -⟩ := constructor_reflects hinit
  obtain ⟨hs, hrun⟩ := run_admitted host hinit calls
  have hlen : (outputs txs).length = (NoteLedger.created (txs.map (ledgerTx w))).length := by
    rw [created_ledger, outputs_eq_map hsound hrun, List.length_map, List.length_map]
  refine ⟨⟨_, opens_openings hsound hrun hq, ?_⟩, ?_, ?_⟩
  · have hcons := NoteLedger.conservation (ledger_balanced hsound hlevels hS hrun hq)
      (ledger_nodup hsound hlevels hS hrun hq) (ledger_created hsound hlevels hS hrun hq)
      (fun i => LeafSpent S s ((outputs txs).getD i 0) i) ?_
    · rw [List.map_map] at hcons
      refine hcons.trans ?_
      rw [hlen]
      refine Finset.sum_congr rfl fun i _ => ?_
      rw [created_ledger, getD_map_val]
    · intro i hworth
      rw [created_ledger, List.getD_eq_getElem?_getD, List.getElem?_map] at hworth
      cases ho : (openings w txs)[i]? with
      | none =>
          rw [ho] at hworth
          exact absurd rfl hworth
      | some o =>
          rw [ho] at hworth
          have hleaf : (outputs txs).getD i 0 = noteCommitment o.1 o.2.1 o.2.2 := by
            rw [outputs_eq_map hsound hrun, List.getD_eq_getElem?_getD, List.getElem?_map, ho]
            rfl
          have hne : o.1 ≠ 0 := by
            rintro hzero
            exact hworth (by simp [hzero])
          rw [hleaf, leafSpent_iff hsound hlevels hS hrun hq hs ho hne, spent_ledger, List.map_map,
            List.mem_map]
          constructor
          · rintro ⟨q, hin, hk, hidx⟩
            exact ⟨q, List.mem_filter.mpr ⟨hin, decide_eq_true hk⟩, hidx⟩
          · rintro ⟨q, hmem, hidx⟩
            obtain ⟨hin, hk⟩ := List.mem_filter.mp hmem
            exact ⟨q, hin, of_decide_eq_true hk, hidx⟩
  · intro before after heq
    have hrun' : AdmittedRun host levels verifier (before ++ after) := by
      rw [← heq]
      exact hrun
    have hq' : runQueries w before ⊆ S := by
      refine subset_trans (runQueries_mono w before after) ?_
      rw [← heq]
      exact hq
    exact ext_nonneg hsound hlevels hS hrun'.of_append hq'
  · intro tx htx
    rw [Fin.sum_univ_two, Fin.sum_univ_two]
    exact tx_balanced hsound hlevels hS hrun hq htx

/-- After the deposit. -/
theorem value_conserved_deposit :
    0 ≤ ([depositTx].map fun tx => tx.extData.extAmount.val).sum ∧
      ∃ amounts, List.Forall₂ (Opens { q | q ∈ depositQueries }) (outputs [depositTx]) amounts := by
  have h := value_conserved (constructor_run (le_refl 1) (by decide)) depositHost_sound
    [.transact depositEnv depositTx] depositQueries_injOn
    (by rw [deposit_accepted]; exact depositQueries_cover)
  simp only [deposit_accepted] at h
  obtain ⟨⟨amounts, hopens, -⟩, hfirst, -⟩ := h
  exact ⟨hfirst [depositTx] [] rfl, amounts, hopens⟩

/-! ### No double spend -/

/-- In a flattened list without repetitions, an element comes from one position. -/
theorem position_unique {α β : Type} {f : α → List β} {l : List α} (h : (l.flatMap f).Nodup)
    {a b : Nat} {x y : α} (ha : l[a]? = some x) (hb : l[b]? = some y) {z : β} (hx : z ∈ f x)
    (hy : z ∈ f y) : a = b := by
  have hpair := List.pairwise_iff_getElem.mp (List.nodup_flatMap.mp h).2
  obtain ⟨hla, hgeta⟩ := List.getElem?_eq_some_iff.mp ha
  obtain ⟨hlb, hgetb⟩ := List.getElem?_eq_some_iff.mp hb
  rcases lt_trichotomy a b with hlt | heq | hlt
  · have hdis := hpair a b hla hlb hlt
    rw [Function.onFun, hgeta, hgetb] at hdis
    exact absurd hy (hdis hx)
  · exact heq
  · have hdis := hpair b a hlb hla hlt
    rw [Function.onFun, hgeta, hgetb] at hdis
    exact absurd hx (hdis hy)

section Leaf

variable {lib : Circomlib} {host : Host} {verifier : Address}
variable {w : List Fr → Signals levels smtLevels} {S : Set Query} {txs : List Transaction}
variable {leaf amount : Fr} {i : Nat}

/-- An input that uses a leaf of some worth is worth something: if it opens the leaf, it has
the leaf's amount. -/
theorem Uses.worth (hS : Set.InjOn Query.eval S) (hq : runQueries w txs ⊆ S)
    (hopens : Opens S leaf amount) (hworth : amount ≠ 0) {tx : Transaction} (htx : tx ∈ txs)
    {k : Fin 2} (h : Uses (signals w tx) k leaf i) : (signals w tx).inAmount k ≠ 0 := by
  obtain ⟨pk, blinding, hcommit, hleaf⟩ := hopens
  rcases h.2 with hne | hopen
  · exact hne
  · rw [hleaf] at hopen
    have hmem := hq (input_query_mem htx k (List.mem_append_left _
      (List.mem_cons_of_mem _ List.mem_cons_self)))
    obtain ⟨heq, -⟩ := hash3_inj hS hmem hcommit hopen
    rw [heq]
    exact hworth

/-- A leaf of some worth is used by one input only. -/
theorem uses_unique (hsound : VerifierSound lib host verifier w) (hlevels : levels ≤ 32)
    (hS : Set.InjOn Query.eval S) (hrun : AdmittedRun host levels verifier txs)
    (hq : runQueries w txs ⊆ S) (hopens : Opens S leaf amount) (hworth : amount ≠ 0)
    {a b : Nat} {tx tx' : Transaction} {k k' : Fin 2} (ha : txs[a]? = some tx)
    (hb : txs[b]? = some tx') (hu : Uses (signals w tx) k leaf i)
    (hu' : Uses (signals w tx') k' leaf i) : a = b ∧ k = k' := by
  have htx := List.mem_of_getElem? ha
  have htx' := List.mem_of_getElem? hb
  have hsame := nullifier_of_index hsound hlevels hS hrun hq
    (mem_inputs (q := (signals w tx, k)).mpr ⟨tx, htx, rfl⟩)
    (mem_inputs (q := (signals w tx', k')).mpr ⟨tx', htx', rfl⟩)
    (hu.worth hS hq hopens hworth htx) (hu'.worth hS hq hopens hworth htx')
    (hu.1.trans hu'.1.symm)
  have hnodup := inputNullifier_nodup hsound hrun
  unfold inputs at hnodup
  rw [List.map_flatMap] at hnodup
  have hmem : ∀ (t : Transaction) (l : Fin 2), (signals w t).inputNullifier l ∈
      [(signals w t, (0 : Fin 2)), (signals w t, 1)].map fun q => q.1.inputNullifier q.2 := by
    intro t l
    fin_cases l
    · exact List.mem_cons_self
    · exact List.mem_cons_of_mem _ List.mem_cons_self
  have hab := position_unique hnodup ha hb (hmem tx k) (by rw [hsame]; exact hmem tx' k')
  subst hab
  rw [ha] at hb
  obtain rfl := Option.some.inj hb
  obtain ⟨hrel, -⟩ := verified_signals hsound (hrun.verified htx)
  exact ⟨rfl, hrel.nullifier_injective hsame⟩

end Leaf

/-- **No note is spent twice.** In every run from the constructor, no nullifier is accepted
twice, neither across transactions nor inside one; and a leaf that is worth something is
used by one input of one accepted transaction at most. -/
theorem notes_spent_once {lib : Circomlib} {host : Host}
    {admin token verifier aspMembership aspNonMembership : Address}
    {w : List Fr → Signals levels smtLevels} {s₀ : PoolStorage}
    (hinit : (constructor admin token verifier aspMembership aspNonMembership levels).run {} =
      .ok () s₀)
    (hsound : VerifierSound lib host verifier w) (calls : List Call) :
    let txs := (run host s₀ calls).1
    (nullifiers txs).Nodup ∧
    ∀ S, Set.InjOn Query.eval S → runQueries w txs ⊆ S →
      ∀ (i : Nat) (leaf amount : Fr), (outputs txs)[i]? = some leaf → Opens S leaf amount →
        amount ≠ 0 → ∀ (a b : Nat) (tx tx' : Transaction) (k k' : Fin 2),
        txs[a]? = some tx → txs[b]? = some tx' →
        Uses (signals w tx) k leaf i → Uses (signals w tx') k' leaf i → a = b ∧ k = k' := by
  intro txs
  obtain ⟨-, hlevels, -⟩ := constructor_reflects hinit
  obtain ⟨-, hrun⟩ := run_admitted host hinit calls
  refine ⟨nullifiers_nodup hsound hrun, ?_⟩
  intro S hS hq i leaf amount _ hopens hworth a b tx tx' k k' ha hb hu hu'
  exact uses_unique hsound hlevels hS hrun hq hopens hworth ha hb hu hu'

/-- After the deposit. -/
theorem notes_spent_once_deposit : (nullifiers [depositTx]).Nodup := by
  have h := notes_spent_once (constructor_run (le_refl 1) (by decide)) depositHost_sound
    [.transact depositEnv depositTx]
  simp only [deposit_accepted] at h
  exact h.1

end PrivatePayments.Pool
