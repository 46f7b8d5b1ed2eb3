import PrivatePayments.OnChain.SystemSound

/-!
# PrivatePayments.OnChain.Custody

The pool can always pay. Whatever anybody does in whatever order, the pool holds at least
what the accepted transactions have brought in, and so at least what the unspent notes are
worth; a withdrawal that passes the other checks is covered.
-/

namespace PrivatePayments

namespace Pool

variable {levels smtLevels : Nat}

/-- What the notes that no accepted transaction has consumed are worth. -/
def unspentWorth (w : List Fr → Signals levels smtLevels) (txs : List Transaction) : Int :=
  ∑ i ∈ Finset.range (NoteLedger.created (txs.map (ledgerTx w))).length,
    if i ∈ (NoteLedger.spent (txs.map (ledgerTx w))).map Prod.fst then 0
    else (NoteLedger.created (txs.map (ledgerTx w))).getD i 0

variable {lib : Circomlib} {host : Host} {verifier : Address}
variable {w : List Fr → Signals levels smtLevels} {S : Set Query} {txs : List Transaction}

/-- The unspent notes are worth what has come in. -/
theorem ext_sum_eq_unspentWorth (hsound : VerifierSound lib host verifier w)
    (hlevels : levels ≤ 32) (hS : Set.InjOn Query.eval S)
    (hrun : AdmittedRun host levels verifier txs) (hq : runQueries w txs ⊆ S) :
    (txs.map fun tx => tx.extData.extAmount.val).sum = unspentWorth w txs := by
  have hext := NoteLedger.ext_sum (ledger_balanced hsound hlevels hS hrun hq)
  rw [List.map_map] at hext
  refine Eq.trans hext ?_
  exact (NoteLedger.unspent_sum (ledger_nodup hsound hlevels hS hrun hq)
    (ledger_created hsound hlevels hS hrun hq)).symm

end Pool

namespace OnChain.Deployment

open Pool

variable {σ κ : Type} {D : Deployment σ κ} {levels smtLevels : Nat} {verifier : Address}
variable {txs : List Transaction} {st : State σ}

/-- The amounts that transactions have brought into the pool, less what they have taken
out. -/
def netDeposits (txs : List Transaction) : Int := (txs.map fun tx => tx.extData.extAmount.val).sum

theorem netDeposits_nil : netDeposits [] = 0 := rfl

theorem netDeposits_append (txs txs' : List Transaction) :
    netDeposits (txs ++ txs') = netDeposits txs + netDeposits txs' := by
  unfold netDeposits
  rw [List.map_append, List.sum_append]

theorem netDeposits_singleton (tx : Transaction) :
    netDeposits [tx] = tx.extData.extAmount.val := List.sum_singleton

/-- The balance of the pool. -/
def balance (D : Deployment σ κ) (st : State σ) : Int := D.tokenContract.balance st.token D.pool

@[simp] theorem signers_pool (D : Deployment σ κ) (signed : Address → Bool) :
    D.signers signed D.pool = false := by
  simp [signers]

/-- The transfer of an accepted transaction brings in at least its amount. A withdrawal to
the pool itself leaves the balance as it was. -/
theorem settle_balance (hstd : D.tokenContract.Standard) {signed : Address → Bool}
    {tx : Transaction} {t t' : σ} (hauth : D.signers signed tx.sender = true)
    (h : D.settle t signed (.transact tx) = some t') :
    D.tokenContract.balance t D.pool + tx.extData.extAmount.val ≤
      D.tokenContract.balance t' D.pool := by
  have hsender : D.pool ≠ tx.sender := by
    intro heq
    rw [← heq, signers_pool] at hauth
    cases hauth
  simp only [settle] at h
  by_cases hpos : 0 < tx.extData.extAmount.val
  · rw [if_pos hpos] at h
    have hmoves := hstd.moves h D.pool
    rw [if_neg hsender, if_pos rfl] at hmoves
    omega
  · rw [if_neg hpos] at h
    by_cases hneg : tx.extData.extAmount.val < 0
    · rw [if_pos hneg] at h
      have hmoves := hstd.moves h D.pool
      rw [if_pos rfl] at hmoves
      split at hmoves
      · omega
      · omega
    · rw [if_neg hneg] at h
      cases h
      omega

/-- One action: the balance grows by at least what is brought in. -/
theorem balance_step (hstd : D.tokenContract.Standard) (h : Sound D levels verifier txs st)
    (act : Action κ) :
    D.balance st + netDeposits (D.accepted st [act]) ≤ D.balance (D.step st act) := by
  cases act with
  | pool signed foreign call =>
      obtain ⟨hst, hacc⟩ | ⟨tx, s', t', rfl, ha, -, hsettle, hst, hacc⟩ | ⟨s', -, hst, hacc⟩ :=
        step_pool_cases h signed foreign call
      · rw [hst, hacc, netDeposits_nil, add_zero]
      · rw [hst, hacc, netDeposits_singleton]
        exact settle_balance hstd ha.authorised hsettle
      · rw [hst, hacc, netDeposits_nil, add_zero]
        exact le_refl _
  | membership contract signed call => exact (add_zero (D.balance st)).le
  | nonMembership contract signed call => exact (add_zero (D.balance st)).le
  | deployMembership contract admin levels => exact (add_zero (D.balance st)).le
  | deployNonMembership contract admin => exact (add_zero (D.balance st)).le
  | token signed call =>
      exact (add_zero (D.balance st)).le.trans (hstd.call_le (signers_pool D signed))

/-- Whole runs. -/
theorem balance_run (hstd : D.tokenContract.Standard) (h : Sound D levels verifier [] st)
    (acts : List (Action κ)) :
    D.balance st + netDeposits (D.accepted st acts) ≤ D.balance (D.run st acts) := by
  have hstart : Sound D levels verifier [] st ∧ D.balance st + netDeposits [] ≤ D.balance st :=
    ⟨h, (add_zero _).le⟩
  have hrun := D.run_induction
    (P := fun txs st' => Sound D levels verifier txs st' ∧
      D.balance st + netDeposits txs ≤ D.balance st')
    (fun {txs st'} act ⟨h', hle⟩ => by
      have hstep := balance_step hstd h' act
      refine ⟨h'.step act, ?_⟩
      rw [netDeposits_append]
      omega)
    acts hstart
  exact hrun.2

/-- A token that only moves balances. -/
def plainToken : TokenContract (Address → Int) (Address × Address × Int) :=
  let transfer := fun (t : Address → Int) (signed : Address → Bool) (src dst : Address)
      (amount : Int) =>
    if signed src = true ∧ 0 ≤ amount ∧ amount ≤ t src then
      some fun a => t a - (if a = src then amount else 0) + (if a = dst then amount else 0)
    else none
  { balance := fun t a => t a
    transfer := transfer
    call := fun t signed c => (transfer t signed c.1 c.2.1 c.2.2).getD t }

theorem plainToken_transfer {t t' : Address → Int} {signed : Address → Bool} {src dst : Address}
    {amount : Int} (h : plainToken.transfer t signed src dst amount = some t') :
    (signed src = true ∧ 0 ≤ amount ∧ amount ≤ t src) ∧ t' = fun a =>
      t a - (if a = src then amount else 0) + (if a = dst then amount else 0) := by
  obtain ⟨hc, ht'⟩ := Option.ite_none_right_eq_some.mp h
  exact ⟨hc, (Option.some.inj ht').symm⟩

theorem plainToken_standard : plainToken.Standard where
  authorised h := (plainToken_transfer h).1.1
  moves h a := by rw [(plainToken_transfer h).2]; rfl
  covered h := (plainToken_transfer h).1.2.2
  call_le := by
    intro t signed c a ha
    change t a ≤ (plainToken.transfer t signed c.1 c.2.1 c.2.2).getD t a
    cases htransfer : plainToken.transfer t signed c.1 c.2.1 c.2.2 with
    | none => exact le_refl _
    | some t' =>
        obtain ⟨⟨hsigned, hpos, -⟩, rfl⟩ := plainToken_transfer htransfer
        have hne : a ≠ c.1 := by
          rintro rfl
          rw [hsigned] at ha
          cases ha
        simp only [Option.getD_some, if_neg hne]
        split
        · omega
        · omega

/-- The pool of the deposit, with this token. -/
def depositDeployment : Deployment (Address → Int) (Address × Address × Int) where
  host := depositHost
  pool := 2
  token := 11
  tokenContract := plainToken

/-- The pool has just been constructed; the depositor owns 9. -/
def depositState : State (Address → Int) where
  pool := initialPool 1
  membership _ := none
  nonMembership _ := none
  token a := if a = 1 then 9 else 0

/-- The depositor's call; the ASP contracts are foreign ones. -/
def depositAction : Action (Address × Address × Int) :=
  .pool (fun a => a = 1)
    (fun a => if a = 13 then some depositTx.proof.aspMembershipRoot else some 0)
    (.transact depositTx)

theorem depositState_constructed : depositDeployment.Constructed 1 12 depositState where
  pool := ⟨10, 13, 14, constructor_run (le_refl 1) (by decide)⟩
  membership _ := rfl
  nonMembership _ := rfl

theorem depositAction_accepted :
    depositDeployment.accepted depositState [depositAction] = [depositTx] := by
  have hok : isOk (((depositDeployment.poolCall depositState (fun a => a = 1)
      (fun a => if a = 13 then some depositTx.proof.aspMembershipRoot else some 0)
      (.transact depositTx)).function depositHost).run depositState.pool) = true := by
    decide +kernel
  obtain ⟨_, s', hrun⟩ := ok_of_isOk hok
  exact accepted_of_ok hrun

end OnChain.Deployment

end PrivatePayments
