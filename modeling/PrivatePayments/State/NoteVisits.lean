import PrivatePayments.Lib.Recording
import PrivatePayments.State.Writes

/-!
# PrivatePayments.State.NoteVisits

The scan for user notes with a record of its calls of `derive` (`state/src/storage.rs`).

`derive` is a `&mut` closure, so what it returns may depend on the calls it had before
(`DeriveNoteFnMut`). The functions of the scan are written again with the calls beside the
tables; a call stays recorded when the transaction around it is rolled back. For a `derive`
that ignores the earlier calls, dropping the record gives the scan
(`scanCommitmentsForUserNotesRecorded_forgets`).
-/

namespace PrivatePayments.State

/-- One call of `derive`, and the pool whose scan made it. -/
structure DeriveCall where
  poolContractId : Nat
  account : AccountKeys
  row : PoolCommitmentRow
  deriving DecidableEq, Repr

/-- `&mut DeriveNoteFn`: the result may depend on the calls before. -/
abbrev DeriveNoteFnMut := List DeriveCall → DeriveNoteFn

/-- A method of the scan, with the calls of `derive` so far. -/
abbrev ScanDb := Recording String Storage DeriveCall

/-- The commitments of a pool that were passed to `derive` for an account, in order. -/
def visited (calls : List DeriveCall) (poolContractId accountId : Nat) :
    List PoolCommitmentRow :=
  (calls.filter fun c => c.poolContractId = poolContractId ∧ c.account.accountId = accountId).map
    DeriveCall.row

/-- A transaction: its writes are rolled back when it fails, the calls it made are not. -/
def transactionRecorded {α : Type} (body : ScanDb α) : ScanDb α := fun t =>
  match body t with
  | .ok a t' => .ok a t'
  | .error e t' => .error e (t.1, t'.2)

/-- `derive(account, &row)?` -/
def callDerive (derive : DeriveNoteFnMut) (poolContractId : Nat) (account : AccountKeys)
    (row : PoolCommitmentRow) : ScanDb (Option DerivedUserNoteRow) := do
  let calls ← Recording.entries
  Recording.record ⟨poolContractId, account, row⟩
  match derive calls account row with
  | .error e => throw e
  | .ok derived => pure derived

/-- `scanRow`: what follows the call of `derive` is the loop body for the value it returned. -/
def scanRowRecorded (derive : DeriveNoteFnMut) (poolContractId : Nat) (account : AccountKeys)
    (row : PoolCommitmentRow) : ScanDb Unit := do
  let derived ← callDerive derive poolContractId account row
  Recording.onState (scanRow (fun _ _ => .ok derived) poolContractId account row)

/-- `scanAccount` -/
def scanAccountRecorded (derive : DeriveNoteFnMut) (poolContractId : Nat) (account : AccountKeys)
    (poolQuota : Nat) : ScanDb Nat := do
  let last ← Recording.onState (lastCommitmentId poolContractId account)
  let s ← Recording.onState get
  let commitments := (s.commitmentsAfter poolContractId last).take (min poolQuota accountChunk)
  if commitments.isEmpty then pure 0
  else do
    forM commitments (scanRowRecorded derive poolContractId account)
    Recording.onState (setScanMark poolContractId account
      (commitments.foldl (fun m row => max m row.commitmentId) last))
    pure commitments.length

/-- `scanCycle` -/
def scanCycleRecorded (derive : DeriveNoteFnMut) (poolContractId : Nat) :
    List AccountKeys → Nat → ScanDb (Nat × Bool)
  | [], poolQuota => pure (poolQuota, false)
  | account :: accounts, poolQuota =>
      if poolQuota = 0 then pure (poolQuota, false)
      else do
        let scanned ← scanAccountRecorded derive poolContractId account poolQuota
        let (left, progressed) ←
          scanCycleRecorded derive poolContractId accounts (poolQuota - scanned)
        pure (left, decide (scanned ≠ 0) || progressed)

/-- `scanLoop` -/
def scanLoopRecorded (derive : DeriveNoteFnMut) (poolContractId : Nat)
    (accounts : List AccountKeys) : Nat → Nat → ScanDb Bool
  | 0, _ => pure false
  | rounds + 1, poolQuota =>
      if poolQuota = 0 then pure false
      else do
        let (left, progressed) ← scanCycleRecorded derive poolContractId accounts poolQuota
        if progressed then do
          let _ ← scanLoopRecorded derive poolContractId accounts rounds left
          pure true
        else pure false

/-- `scanPool` -/
def scanPoolRecorded (derive : DeriveNoteFnMut) (accounts : List AccountKeys)
    (poolContractId : Nat) (poolQuota : Nat) : ScanDb Bool :=
  if poolQuota = 0 then pure false
  else transactionRecorded do
    Recording.onState (forM accounts (insertScanRow poolContractId))
    scanLoopRecorded derive poolContractId accounts poolQuota poolQuota

/-- `scanPools` -/
def scanPoolsRecorded (derive : DeriveNoteFnMut) (accounts : List AccountKeys) :
    List (Nat × Nat) → ScanDb Bool
  | [] => pure false
  | (poolContractId, poolQuota) :: pools => do
      let progressed ← scanPoolRecorded derive accounts poolContractId poolQuota
      let rest ← scanPoolsRecorded derive accounts pools
      pure (progressed || rest)

/-- `scan_commitments_for_user_notes` with the calls of `derive` it makes -/
def scanCommitmentsForUserNotesRecorded (totalLimit : UInt32) (derive : DeriveNoteFnMut) :
    ScanDb Bool := do
  let s ← Recording.onState get
  let accounts := getAccountsWithLatestKeypairs s
  if accounts.isEmpty ∨ totalLimit = 0 then pure false
  else
    let poolIds := s.poolIds ((Table.columns s.poolCommitments).map NewCommitmentEvent.id)
    if poolIds.isEmpty then pure false
    else if ¬ poolIds.length < UInt32.size then throw "pool count exceeds u32"
    else
      scanPoolsRecorded derive accounts
        (poolIds.zip (poolQuotas totalLimit.toNat poolIds.length))

/-! ## Dropping the record -/

section Forgets

open Recording

variable (derive : DeriveNoteFn) (poolContractId : Nat)

theorem transactionRecorded_forgets {α : Type} {x : ScanDb α} {y : Db α} (h : Forgets x y) :
    Forgets (transactionRecorded x) (transaction y) := by
  intro s calls
  obtain ⟨calls', hrun⟩ := h s calls
  refine ⟨calls', ?_⟩
  show (match x.run (s, calls) with
    | .ok a t' => EStateM.Result.ok a t'
    | .error e t' => .error e (s, t'.2)) = _
  rw [hrun]
  cases hy : y.run s with
  | ok a s' =>
      rw [transaction_of_ok hy]
      rfl
  | error e s' =>
      rw [transaction_of_error hy]
      rfl

/-- The call of `derive` and what follows it. -/
theorem scanRowRecorded_forgets (account : AccountKeys) (row : PoolCommitmentRow) :
    Forgets (scanRowRecorded (fun _ => derive) poolContractId account row)
      (scanRow derive poolContractId account row) := by
  unfold scanRowRecorded callDerive
  rw [bind_assoc]
  refine .entries_bind fun calls => ?_
  rw [bind_assoc]
  refine .record_bind _ ?_
  cases hderive : derive account row with
  | error e =>
      have hthrow : scanRow derive poolContractId account row = throw e := by
        unfold scanRow
        rw [hderive]
      simp only [hderive, hthrow]
      exact .throw e
  | ok derived =>
      have hsame : scanRow derive poolContractId account row =
          scanRow (fun _ _ => .ok derived) poolContractId account row := by
        unfold scanRow
        rw [hderive]
      simp only [hderive, pure_bind, hsame]
      exact .onState _

theorem scanAccountRecorded_forgets (account : AccountKeys) (poolQuota : Nat) :
    Forgets (scanAccountRecorded (fun _ => derive) poolContractId account poolQuota)
      (scanAccount derive poolContractId account poolQuota) := by
  unfold scanAccountRecorded scanAccount
  refine .bind (.onState _) fun last => .bind (.onState _) fun s => ?_
  refine .ite (fun _ => .pure 0) fun _ => ?_
  refine .bind (.forM (scanRowRecorded_forgets derive poolContractId account) _) fun _ => ?_
  exact .bind (.onState _) fun _ => .pure _

theorem scanCycleRecorded_forgets (accounts : List AccountKeys) (poolQuota : Nat) :
    Forgets (scanCycleRecorded (fun _ => derive) poolContractId accounts poolQuota)
      (scanCycle derive poolContractId accounts poolQuota) := by
  induction accounts generalizing poolQuota with
  | nil => exact .pure _
  | cons account accounts ih =>
      refine .ite (fun _ => .pure _) fun _ => ?_
      refine .bind (scanAccountRecorded_forgets derive poolContractId account poolQuota) ?_
      exact fun scanned => .bind (ih _) fun _ => .pure _

theorem scanLoopRecorded_forgets (accounts : List AccountKeys) (rounds poolQuota : Nat) :
    Forgets (scanLoopRecorded (fun _ => derive) poolContractId accounts rounds poolQuota)
      (scanLoop derive poolContractId accounts rounds poolQuota) := by
  induction rounds generalizing poolQuota with
  | zero => exact .pure _
  | succ rounds ih =>
      refine .ite (fun _ => .pure _) fun _ => ?_
      refine .bind (scanCycleRecorded_forgets derive poolContractId accounts poolQuota) ?_
      exact fun result => .ite (fun _ => .bind (ih _) fun _ => .pure _) fun _ => .pure _

theorem scanPoolRecorded_forgets (accounts : List AccountKeys) (poolQuota : Nat) :
    Forgets (scanPoolRecorded (fun _ => derive) accounts poolContractId poolQuota)
      (scanPool derive accounts poolContractId poolQuota) := by
  refine .ite (fun _ => .pure _) fun _ => transactionRecorded_forgets ?_
  refine .bind (.onState _) fun _ => ?_
  exact scanLoopRecorded_forgets derive poolContractId accounts poolQuota poolQuota

theorem scanPoolsRecorded_forgets (accounts : List AccountKeys) (pools : List (Nat × Nat)) :
    Forgets (scanPoolsRecorded (fun _ => derive) accounts pools)
      (scanPools derive accounts pools) := by
  induction pools with
  | nil => exact .pure _
  | cons pool pools ih =>
      refine .bind (scanPoolRecorded_forgets derive pool.1 accounts pool.2) fun progressed => ?_
      exact .bind ih fun rest => .pure _

/-- For a `derive` that ignores the calls before, the record is all that is added. -/
theorem scanCommitmentsForUserNotesRecorded_forgets (totalLimit : UInt32) :
    Forgets (scanCommitmentsForUserNotesRecorded totalLimit fun _ => derive)
      (scanCommitmentsForUserNotes totalLimit derive) := by
  refine .bind (.onState _) fun s => .ite (fun _ => .pure _) fun _ => ?_
  refine .ite (fun _ => .pure _) fun _ => .ite (fun _ => .throw _) fun _ => ?_
  exact scanPoolsRecorded_forgets derive _ _

end Forgets

end PrivatePayments.State
