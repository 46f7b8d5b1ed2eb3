import PrivatePayments.Contracts.PoolSound
import PrivatePayments.Circuits.PolicyTransaction
import PrivatePayments.Lib.NoteLedger
import Mathlib.Tactic.FinCases

/-!
# PrivatePayments.Contracts.PoolLedger

What the contract and the circuit guarantee together, for every run of the pool.

The verifier is assumed sound: whenever it accepts public inputs, an extractor `w` returns
signals with these public inputs that satisfy the constraints. The hashes are assumed
free of collisions on a set `S` that contains the queries of the run (`runQueries`); the
statements hold for every such set. Under these assumptions a run is a note ledger:
the inputs that are worth something are the spends, the outputs are the created notes.
-/

namespace PrivatePayments.Pool

open PerfectTree MerkleWithHistory

/-- The signals of the circuit for two inputs and two outputs, with one proof of each
kind for an input. -/
abbrev Signals (levels smtLevels : Nat) := PolicySignals 2 2 1 1 levels smtLevels

variable {levels smtLevels : Nat}

/-! ### Queries -/

/-- The query for the leaf of an empty slot. -/
def zeroLeafQuery : Query := .hash3 88 76 77 0

/-- The pairs of a tree as queries. -/
def treeQueries (levels : Nat) (leaves : List Fr) : Set Query :=
  { q | ∃ p ∈ treePairs poseidon2Compress (padded zeroLeaf leaves) levels, q = .compress p.1 p.2 }

/-- The first slot of a transaction. -/
abbrev slot0 : Fin 2 := 0

/-- The second slot. -/
abbrev slot1 : Fin 2 := 1

/-- The hashes of input `tx` in the circuit: keys, commitment, signature, nullifier, path. -/
def inputQueries (w : Signals levels smtLevels) (tx : Fin 2) : List Query :=
  [.hash2 (w.inPrivateKey tx) 0 3,
   .hash3 (w.inAmount tx) (w.inPublicKey tx) (w.inBlinding tx) 1,
   .hash3 (w.inPrivateKey tx) (w.inCommitment tx) (w.inPathIndices tx) 4,
   .hash3 (w.inCommitment tx) (w.inPathIndices tx) (w.inSignature tx) 2] ++
  (pathPairs poseidon2Compress (w.inCommitment tx) (List.ofFn (w.inPathElements tx))
    (w.inPathIndices tx).val).map fun p => .compress p.1 p.2

/-- The hash of output `tx` in the circuit. -/
def outputQuery (w : Signals levels smtLevels) (tx : Fin 2) : Query :=
  .hash3 (w.outAmount tx) (w.outPubkey tx) (w.outBlinding tx) 1

/-- The queries of the circuit for one transaction. -/
def txQueries (w : Signals levels smtLevels) : List Query :=
  inputQueries w slot0 ++ inputQueries w slot1 ++ [outputQuery w slot0, outputQuery w slot1]

/-- The queries of a run: the zero leaf, the trees of all prefixes, the circuits. -/
def runQueries (w : List Fr → Signals levels smtLevels) (txs : List Transaction) : Set Query :=
  { q | q = zeroLeafQuery ∨ (∃ j ≤ txs.length, q ∈ treeQueries levels (outputs (txs.take j))) ∨
    ∃ tx ∈ txs, q ∈ txQueries (w tx.proof.publicInputs) }

/-- The verifier accepts only public inputs for which `w` returns satisfying signals. -/
def VerifierSound (lib : Circomlib) (host : Host) (verifier : Address)
    (w : List Fr → Signals levels smtLevels) : Prop :=
  ∀ proof inputs, host.verify verifier proof inputs = some true →
    (w inputs).publicInputs = inputs ∧ PolicyTransaction lib (w inputs)

/-! ### The public inputs of an accepted transaction -/

/-- The vectors of the contract and of the circuit have the same parts. -/
theorem publicInputs_eq {w : Signals levels smtLevels} {proof : Proof}
    (h : w.publicInputs = proof.publicInputs) :
    w.root = proof.root.toFr ∧ w.publicAmount = proof.publicAmount.toFr ∧
      proof.inputNullifiers.map U256.toFr = [w.inputNullifier 0, w.inputNullifier 1] ∧
      w.outputCommitment 0 = proof.outputCommitment0.toFr ∧
      w.outputCommitment 1 = proof.outputCommitment1.toFr := by
  -- the lengths agree only for two nullifiers
  have hlen := congrArg List.length h
  unfold PolicySignals.publicInputs Proof.publicInputs at h hlen
  simp only [List.length_append, List.length_cons, List.length_nil, List.length_ofFn,
    List.length_flatten, List.map_ofFn, List.length_map, List.length_replicate,
    Function.comp_def, List.ofFn_const, List.sum_replicate] at hlen
  have htwo : proof.inputNullifiers.length = 2 := by
    simp only [smul_eq_mul] at hlen
    omega
  obtain ⟨n0, n1, hns⟩ := List.length_eq_two.mp htwo
  rw [hns] at h ⊢
  simp only [List.ofFn_succ, List.ofFn_zero, List.flatten_cons, List.flatten_nil,
    List.map_cons, List.map_nil, List.length_cons, List.length_nil, List.cons_append,
    List.nil_append, List.cons.injEq, Fin.succ_zero_eq_one] at h ⊢
  obtain ⟨hroot, hamount, -, hn0, hn1, hc0, hc1, -⟩ := h
  exact ⟨hroot, hamount, ⟨hn0.symm, hn1.symm, trivial⟩, hc0, hc1⟩

/-! ### Members of an admitted run -/

section Members

variable {host : Host} {verifier : Address} {txs : List Transaction}

/-- Every transaction of an admitted run was admitted by the ones before it. -/
theorem AdmittedRun.split (h : AdmittedRun host levels verifier txs) {tx : Transaction}
    (htx : tx ∈ txs) : ∃ before after, txs = before ++ tx :: after ∧
      AdmittedRun host levels verifier before ∧ Admitted host levels verifier before tx := by
  induction h with
  | nil => cases htx
  | snoc hrun hadm ih =>
      rename_i before last
      rcases List.mem_append.mp htx with hmem | hmem
      · obtain ⟨pre, post, heq, hpre, hadm'⟩ := ih hmem
        exact ⟨pre, post ++ [last], by rw [heq, List.append_assoc]; rfl, hpre, hadm'⟩
      · rw [List.mem_singleton.mp hmem]
        exact ⟨before, [], rfl, hrun, hadm⟩

theorem AdmittedRun.verified (h : AdmittedRun host levels verifier txs) {tx : Transaction}
    (htx : tx ∈ txs) :
    host.verify verifier tx.proof.proof tx.proof.publicInputs = some true := by
  obtain ⟨_, _, -, -, hadm⟩ := h.split htx
  exact hadm.verified

/-- The nullifiers of an admitted run are canonical. -/
theorem AdmittedRun.canonical (h : AdmittedRun host levels verifier txs) {n : U256}
    (hn : n ∈ nullifiers txs) : n.val < bn256Modulus := by
  obtain ⟨tx, htx, hn⟩ := List.mem_flatMap.mp hn
  obtain ⟨_, _, -, -, hadm⟩ := h.split htx
  exact hadm.canonical.inputNullifiers n hn

/-- A prefix of a run makes fewer queries. -/
theorem runQueries_mono (w : List Fr → Signals levels smtLevels)
    (txs more : List Transaction) : runQueries w txs ⊆ runQueries w (txs ++ more) := by
  rintro q (hq | ⟨j, hj, hq⟩ | ⟨tx, htx, hq⟩)
  · exact .inl hq
  · refine .inr (.inl ⟨j, by rw [List.length_append]; omega, ?_⟩)
    rwa [List.take_append_of_le_length hj]
  · exact .inr (.inr ⟨tx, List.mem_append_left _ htx, hq⟩)

end Members

/-! ### The signals of accepted transactions -/

section Sound

variable {lib : Circomlib} {host : Host} {verifier : Address}
variable {w : List Fr → Signals levels smtLevels}

/-- The signals that the extractor returns for a transaction. -/
def signals (w : List Fr → Signals levels smtLevels) (tx : Transaction) :
    Signals levels smtLevels := w tx.proof.publicInputs

/-- The openings of the commitments that transactions insert: amount, public key, blinding. -/
def openings (w : List Fr → Signals levels smtLevels) (txs : List Transaction) :
    List (Fr × Fr × Fr) :=
  txs.flatMap fun tx => [
    ((signals w tx).outAmount 0, (signals w tx).outPubkey 0, (signals w tx).outBlinding 0),
    ((signals w tx).outAmount 1, (signals w tx).outPubkey 1, (signals w tx).outBlinding 1)]

/-- The inputs of transactions, as signals and slot. -/
def inputs (w : List Fr → Signals levels smtLevels) (txs : List Transaction) :
    List (Signals levels smtLevels × Fin 2) :=
  txs.flatMap fun tx => [(signals w tx, 0), (signals w tx, 1)]

theorem inputs_append (txs more : List Transaction) :
    inputs w (txs ++ more) = inputs w txs ++ inputs w more := List.flatMap_append

theorem mem_inputs {txs : List Transaction} {q : Signals levels smtLevels × Fin 2} :
    q ∈ inputs w txs ↔ ∃ tx ∈ txs, q.1 = signals w tx := by
  unfold inputs
  rw [List.mem_flatMap]
  refine exists_congr fun tx => and_congr_right fun _ => ?_
  obtain ⟨sig, k⟩ := q
  fin_cases k
  · simp
  · simp

variable (hsound : VerifierSound lib host verifier w)

include hsound

/-- The parts of a verified transaction, and its constraints. -/
theorem verified_signals {tx : Transaction}
    (h : host.verify verifier tx.proof.proof tx.proof.publicInputs = some true) :
    PolicyTransaction lib (signals w tx) ∧ (signals w tx).root = tx.proof.root.toFr ∧
      (signals w tx).publicAmount = tx.proof.publicAmount.toFr ∧
      tx.proof.inputNullifiers.map U256.toFr =
        [(signals w tx).inputNullifier 0, (signals w tx).inputNullifier 1] ∧
      (signals w tx).outputCommitment 0 = tx.proof.outputCommitment0.toFr ∧
      (signals w tx).outputCommitment 1 = tx.proof.outputCommitment1.toFr := by
  obtain ⟨heq, hrel⟩ := hsound _ _ h
  exact ⟨hrel, publicInputs_eq heq⟩

variable {txs : List Transaction} (hrun : AdmittedRun host levels verifier txs)

include hrun

/-- The inserted leaves are the commitments to the openings. -/
theorem outputs_eq_map : outputs txs =
    (openings w txs).map fun o => noteCommitment o.1 o.2.1 o.2.2 := by
  have hall := fun (tx : Transaction) (htx : tx ∈ txs) =>
    verified_signals hsound (hrun.verified htx)
  unfold outputs openings
  rw [List.map_flatMap]
  refine List.flatMap_congr fun tx htx => ?_
  obtain ⟨hrel, -, -, -, hc0, hc1⟩ := hall tx htx
  rw [← hc0, ← hc1, ← (hrel.outputs 0).commitment, ← (hrel.outputs 1).commitment]
  rfl

/-- Created amounts have 248 bits. -/
theorem opening_amount_lt {o : Fr × Fr × Fr} (ho : o ∈ openings w txs) :
    o.1.val < 2 ^ 248 := by
  obtain ⟨tx, htx, ho⟩ := List.mem_flatMap.mp ho
  obtain ⟨hrel, -⟩ := verified_signals hsound (hrun.verified htx)
  rcases List.mem_cons.mp ho with rfl | ho
  · exact (hrel.outputs 0).amount_lt
  · rw [List.mem_singleton.mp ho]
    exact (hrel.outputs 1).amount_lt

/-- The circuit recomputes the nullifiers that the contract stores. -/
theorem nullifiers_eq_map : (nullifiers txs).map U256.toFr =
    (inputs w txs).map fun q => q.1.inputNullifier q.2 := by
  unfold nullifiers inputs
  rw [List.map_flatMap, List.map_flatMap]
  refine List.flatMap_congr fun tx htx => ?_
  obtain ⟨-, -, -, hns, -⟩ := verified_signals hsound (hrun.verified htx)
  exact hns

/-- **No repetition.** Across transactions the contract refuses a stored nullifier, inside
one transaction the circuit compares them; the stored numbers are canonical, so equal
signals are equal numbers. -/
theorem nullifiers_nodup : (nullifiers txs).Nodup := by
  induction hrun with
  | nil => exact List.nodup_nil
  | snoc hbefore hadm ih =>
      rename_i before tx
      rw [nullifiers_append, nullifiers_singleton]
      obtain ⟨hrel, -, -, hns, -⟩ := verified_signals hsound hadm.verified
      have hown : tx.proof.inputNullifiers.Nodup := by
        refine List.Nodup.of_map U256.toFr ?_
        rw [hns, List.nodup_cons, List.mem_singleton]
        refine ⟨fun heq => ?_, List.nodup_singleton _⟩
        exact absurd (hrel.nullifier_injective heq) (by decide)
      refine List.Nodup.append ih hown fun n hn hn' => ?_
      exact hadm.fresh n hn' hn

/-- The nullifier signals of a run do not repeat either. -/
theorem inputNullifier_nodup :
    ((inputs w txs).map fun q => q.1.inputNullifier q.2).Nodup := by
  rw [← nullifiers_eq_map hsound hrun]
  refine List.Nodup.map_on (fun n hn m hm heq => ?_) (nullifiers_nodup hsound hrun)
  exact (U256.toFr_inj (hrun.canonical hn) (hrun.canonical hm)).mp heq

end Sound

/-! ### Spends are created notes -/

section Spends

variable {lib : Circomlib} {host : Host} {verifier : Address}
variable {w : List Fr → Signals levels smtLevels} {S : Set Query}

theorem compress_injOn (hS : Set.InjOn Query.eval S) :
    Set.InjOn (fun p : Fr × Fr => poseidon2Compress p.1 p.2)
      { p | Query.compress p.1 p.2 ∈ S } := by
  intro p hp p' hp' heq
  obtain ⟨h₁, h₂⟩ := compress_inj hS hp hp' heq
  exact Prod.ext h₁ h₂

theorem openings_append (txs more : List Transaction) :
    openings w (txs ++ more) = openings w txs ++ openings w more := List.flatMap_append

theorem opening_query_mem {txs : List Transaction} {o : Fr × Fr × Fr}
    (ho : o ∈ openings w txs) : .hash3 o.1 o.2.1 o.2.2 1 ∈ runQueries w txs := by
  obtain ⟨tx, htx, ho⟩ := List.mem_flatMap.mp ho
  refine .inr (.inr ⟨tx, htx, List.mem_append_right _ ?_⟩)
  rcases List.mem_cons.mp ho with rfl | ho
  · exact List.mem_cons_self
  · rw [List.mem_singleton.mp ho]
    exact List.mem_cons_of_mem _ (List.mem_singleton.mpr rfl)

theorem input_query_mem {txs : List Transaction} {tx : Transaction} (htx : tx ∈ txs)
    (k : Fin 2) {q : Query} (hq : q ∈ inputQueries (signals w tx) k) : q ∈ runQueries w txs := by
  refine .inr (.inr ⟨tx, htx, List.mem_append_left _ ?_⟩)
  fin_cases k
  · exact List.mem_append_left _ hq
  · exact List.mem_append_right _ hq

variable (hsound : VerifierSound lib host verifier w) (hlevels : levels ≤ 32)
variable (hS : Set.InjOn Query.eval S)

include hsound hlevels hS

/-- **Binding.** An input that is worth something is the opening of a leaf that an earlier
transaction has inserted, at the index of its path. -/
theorem spend_created {before : List Transaction} {tx : Transaction}
    (hrun : AdmittedRun host levels verifier before)
    (hadm : Admitted host levels verifier before tx)
    (hq : runQueries w (before ++ [tx]) ⊆ S) (k : Fin 2)
    (hk : (signals w tx).inAmount k ≠ 0) :
    (openings w before)[((signals w tx).inPathIndices k).val]? =
      some ((signals w tx).inAmount k, (signals w tx).inPublicKey k,
        (signals w tx).inBlinding k) := by
  obtain ⟨hrel, hroot, -⟩ := verified_signals hsound hadm.verified
  obtain ⟨hlt, hpath⟩ := (hrel.inputs k).path (by omega)
  obtain ⟨j, hj, hknown⟩ := hadm.known
  have htx : tx ∈ before ++ [tx] := List.mem_append_right _ (List.mem_singleton.mpr rfl)
  have hmem : ∀ {q}, q ∈ inputQueries (signals w tx) k → q ∈ S :=
    fun h => hq (input_query_mem htx k h)
  -- the public root is the root of the tree over a prefix of the leaves
  have hfold : foldPath poseidon2Compress ((signals w tx).inCommitment k)
      (List.ofFn ((signals w tx).inPathElements k)) ((signals w tx).inPathIndices k).val =
      root poseidon2Compress (padded zeroLeaf (outputs (before.take j))) levels := by
    rw [hpath hk, hroot, hknown, U256.toFr_toU256]
    rfl
  have hleaf := foldPath_binding (compress_injOn hS) (by simp) hlt
    (fun p hp => hmem (List.mem_append_right _ (List.mem_map_of_mem hp)))
    (fun p hp => hq (.inr (.inl ⟨j, by rw [List.length_append]; omega, p,
      by rw [List.take_append_of_le_length hj]; exact hp, rfl⟩))) hfold
  have hcommit : .hash3 ((signals w tx).inAmount k) ((signals w tx).inPublicKey k)
      ((signals w tx).inBlinding k) 1 ∈ S :=
    hmem (List.mem_append_left _ (List.mem_cons_of_mem _ List.mem_cons_self))
  by_cases hi : ((signals w tx).inPathIndices k).val < (outputs (before.take j)).length
  · have hget : (outputs before)[((signals w tx).inPathIndices k).val]? =
        some ((signals w tx).inCommitment k) := by
      have hlt : ((signals w tx).inPathIndices k).val < 2 * j := by
        rw [outputs_length, List.length_take] at hi
        omega
      rw [← List.getElem?_take_of_lt hlt, outputs_take, List.getElem?_eq_getElem hi, hleaf]
      unfold padded
      rw [List.getD_eq_getElem _ _ hi]
    rw [outputs_eq_map hsound hrun, List.getElem?_map] at hget
    obtain ⟨o, ho, heq⟩ := Option.map_eq_some_iff.mp hget
    -- two openings of one commitment
    obtain ⟨h₁, h₂, h₃, -⟩ := hash3_inj hS
      (hq (runQueries_mono w before [tx] (opening_query_mem (List.mem_of_getElem? ho))))
      hcommit heq
    rw [ho, ← h₁, ← h₂, ← h₃]
  · -- an empty slot holds the zero leaf, whose domain is not the one of commitments
    exfalso
    unfold padded at hleaf
    rw [List.getD_eq_default _ _ (not_lt.mp hi)] at hleaf
    obtain ⟨-, -, -, hdomain⟩ := hash3_inj hS hcommit (hq (.inl rfl)) hleaf
    exact absurd hdomain (by decide)

variable {txs : List Transaction} (hrun : AdmittedRun host levels verifier txs)
variable (hq : runQueries w txs ⊆ S)

include hrun hq

/-- The same for all inputs of a run. -/
theorem input_created {q : Signals levels smtLevels × Fin 2} (hin : q ∈ inputs w txs)
    (hk : q.1.inAmount q.2 ≠ 0) :
    (openings w txs)[(q.1.inPathIndices q.2).val]? =
      some (q.1.inAmount q.2, q.1.inPublicKey q.2, q.1.inBlinding q.2) := by
  obtain ⟨tx, htx, hsig⟩ := mem_inputs.mp hin
  obtain ⟨before, after, heq, hbefore, hadm⟩ := hrun.split htx
  have hsplit : txs = before ++ [tx] ++ after := by rw [heq, List.append_assoc]; rfl
  have hq' : runQueries w (before ++ [tx]) ⊆ S := by
    refine subset_trans (runQueries_mono w _ after) ?_
    rw [← hsplit]
    exact hq
  rw [hsig] at hk ⊢
  have hget := spend_created hsound hlevels hS hbefore hadm hq' q.2 hk
  have hlt := (List.getElem?_eq_some_iff.mp hget).1
  rw [heq, openings_append, List.getElem?_append_left hlt]
  exact hget

/-- Inputs with one leaf index have one nullifier: the leaf binds the public key, the
public key binds the private key, and these determine the signature. -/
theorem nullifier_of_index {q q' : Signals levels smtLevels × Fin 2} (hin : q ∈ inputs w txs)
    (hin' : q' ∈ inputs w txs) (hk : q.1.inAmount q.2 ≠ 0) (hk' : q'.1.inAmount q'.2 ≠ 0)
    (hidx : (q.1.inPathIndices q.2).val = (q'.1.inPathIndices q'.2).val) :
    q.1.inputNullifier q.2 = q'.1.inputNullifier q'.2 := by
  have hget := input_created hsound hlevels hS hrun hq hin hk
  have hget' := input_created hsound hlevels hS hrun hq hin' hk'
  rw [hidx, hget', Option.some.injEq, Prod.mk.injEq, Prod.mk.injEq] at hget
  obtain ⟨hamount, hpk, hblinding⟩ := hget
  obtain ⟨tx, htx, hsig⟩ := mem_inputs.mp hin
  obtain ⟨tx', htx', hsig'⟩ := mem_inputs.mp hin'
  obtain ⟨hrel, -⟩ := verified_signals hsound (hrun.verified htx)
  obtain ⟨hrel', -⟩ := verified_signals hsound (hrun.verified htx')
  obtain ⟨sig, k⟩ := q
  obtain ⟨sig', k'⟩ := q'
  simp only at hsig hsig' hidx hamount hpk hblinding ⊢
  subst hsig hsig'
  have hsk : (signals w tx').inPrivateKey k' = (signals w tx).inPrivateKey k :=
    (hash2_inj hS (hq (input_query_mem htx' k' List.mem_cons_self))
      (hq (input_query_mem htx k List.mem_cons_self)) hpk).1
  have hcommit : (signals w tx').inCommitment k' = (signals w tx).inCommitment k := by
    unfold PolicySignals.inCommitment
    rw [hamount, hpk, hblinding]
  rw [← (hrel.inputs k).nullifier, ← (hrel'.inputs k').nullifier]
  unfold PolicySignals.inSignature
  rw [hcommit, hsk, Fin.ext hidx]

/-- No leaf index is spent twice. -/
theorem spend_nodup : (((inputs w txs).filter fun q => q.1.inAmount q.2 ≠ 0).map
    fun q => (q.1.inPathIndices q.2).val).Nodup := by
  have hns := List.pairwise_map.mp (inputNullifier_nodup hsound hrun)
  refine List.pairwise_map.mpr ((hns.filter _).imp_of_mem ?_)
  intro q q' hq₁ hq₂ hne hidx
  obtain ⟨hin, hk⟩ := List.mem_filter.mp hq₁
  obtain ⟨hin', hk'⟩ := List.mem_filter.mp hq₂
  exact hne (nullifier_of_index hsound hlevels hS hrun hq hin hin' (of_decide_eq_true hk)
    (of_decide_eq_true hk') hidx)

end Spends

end PrivatePayments.Pool
