import PrivatePayments.State.Storage

/-!
# PrivatePayments.State.NoteScan

The scan for user notes and the reconciliation of nullifiers (`state/src/storage.rs`).

`scan_commitments_for_user_notes` keeps a high-water mark for each pool and account, the
number of the last commitment that was offered to `derive`. A call gives every pool a quota;
within the quota the accounts take turns, four commitments at a time, all in one transaction
for the pool. `reconcile_nullifiers` keeps a high-water mark for each pool over the
nullifiers and marks the notes they spend.
-/

namespace PrivatePayments.State

/-- `AccountKeys` -/
structure AccountKeys where
  accountId : Nat
  noteKeypair : NoteKeyPair
  encryptionKeypair : EncryptionKeyPair
  membershipBlinding : Fr
  deriving DecidableEq, Repr

/-- `PoolCommitmentRow` -/
structure PoolCommitmentRow where
  commitmentId : Nat
  commitment : Fr
  leafIndex : UInt32
  encryptedOutput : List UInt8
  deriving DecidableEq, Repr

/-- `DerivedUserNoteRow` -/
structure DerivedUserNoteRow where
  amount : NoteAmount
  blinding : Fr
  expectedNullifier : Fr
  deriving DecidableEq, Repr

/-- `DeriveNoteFn` -/
abbrev DeriveNoteFn := AccountKeys → PoolCommitmentRow → Except String (Option DerivedUserNoteRow)

/-! ## Reads -/

/-- `r.contract_id` of the raw event of a row. -/
def Storage.eventContract? (s : Storage) (eventId : String) : Option Nat :=
  (s.rawEvent? eventId).map RawContractEvent.contractId

/-- The keys of a key row. -/
def KeypairColumns.toAccountKeys (k : KeypairColumns) : AccountKeys :=
  { accountId := k.accountId
    noteKeypair := ⟨k.notePrivateKey, k.notePublicKey⟩
    encryptionKeypair := ⟨k.encryptionPrivateKey, k.encryptionPublicKey⟩
    membershipBlinding := k.membershipBlinding }

/-- The key row with the largest number of an account. -/
def Storage.latestKeypair? (s : Storage) (accountId : Nat) : Option KeypairColumns :=
  (Table.latest (s.keypairs.filter fun k => k.columns.accountId = accountId)).map
    Table.Row.columns

/-- `get_accounts_with_latest_keypairs` -/
def getAccountsWithLatestKeypairs (s : Storage) : List AccountKeys :=
  (Table.orderBy Table.Row.rowid s.accounts).filterMap fun a =>
    (s.latestKeypair? a.rowid).map KeypairColumns.toAccountKeys

/-- `SELECT DISTINCT r.contract_id … ORDER BY r.contract_id` over the rows of a table. -/
def Storage.poolIds (s : Storage) (eventIds : List String) : List Nat :=
  Table.orderBy id (eventIds.filterMap s.eventContract?).dedup

/-- The commitments of a pool, by number. -/
def Storage.poolRows (s : Storage) (poolContractId : Nat) : List PoolCommitmentRow :=
  Table.orderBy PoolCommitmentRow.commitmentId
    ((s.poolCommitments.filter fun c => s.eventContract? c.columns.id = some poolContractId).map
      fun c =>
        { commitmentId := c.rowid
          commitment := c.columns.commitment
          leafIndex := c.columns.index
          encryptedOutput := c.columns.encryptedOutput })

/-- The commitments of a pool after a number. -/
def Storage.commitmentsAfter (s : Storage) (poolContractId last : Nat) : List PoolCommitmentRow :=
  (s.poolRows poolContractId).filter fun c => last < c.commitmentId

/-- The high-water mark of an account in a pool, if it has one. -/
def Storage.scanMark? (s : Storage) (poolContractId accountId : Nat) : Option Nat :=
  ((Table.columns s.accountCommitmentScan).find? fun m =>
    m.poolContractId = poolContractId ∧ m.accountId = accountId).map
      AccountCommitmentScan.lastCommitmentId

/-- The number of a nullifier of a pool. -/
def Storage.nullifierId? (s : Storage) (poolContractId : Nat) (nullifier : Fr) : Option Nat :=
  (s.poolNullifiers.find? fun n =>
    s.eventContract? n.columns.id = some poolContractId ∧ n.columns.nullifier = nullifier).map
      Table.Row.rowid

/-! ## Scan -/

/-- `INSERT OR IGNORE INTO account_commitment_scan … VALUES (.., .., 0)` -/
def insertScanRow (poolContractId : Nat) (account : AccountKeys) : Db Unit := do
  let s ← get
  if (s.scanMark? poolContractId account.accountId).isSome then pure ()
  else if ¬ (s.contracts.any fun c => c.rowid = poolContractId) ∨
      ¬ (s.accounts.any fun a => a.rowid = account.accountId) then
    throw "FOREIGN KEY constraint failed"
  else set { s with
    accountCommitmentScan :=
      Table.insert s.accountCommitmentScan ⟨poolContractId, account.accountId, 0⟩ }

/-- `SELECT last_commitment_id …` -/
def lastCommitmentId (poolContractId : Nat) (account : AccountKeys) : Db Nat := do
  let s ← get
  match s.scanMark? poolContractId account.accountId with
  | some last => pure last
  | none => throw "Query returned no rows"

/-- `INSERT OR IGNORE INTO user_notes`: a row whose commitment or nullifier is taken is
dropped. -/
def insertUserNote (note : UserNote) : Db Unit := do
  let s ← get
  if (Table.columns s.userNotes).any fun n =>
      n.id = note.id ∨ n.commitmentId = note.commitmentId ∨
        (n.nullifierId.isSome ∧ n.nullifierId = note.nullifierId) then pure ()
  else if ¬ (s.accounts.any fun a => a.rowid = note.accountId) ∨
      ¬ (s.poolCommitments.any fun c => c.rowid = note.commitmentId) ∨
      ¬ (note.nullifierId.all fun id => s.poolNullifiers.any fun n => n.rowid = id) then
    throw "FOREIGN KEY constraint failed"
  else set { s with userNotes := Table.insert s.userNotes note }

/-- The loop body over the commitments of one turn. -/
def scanRow (derive : DeriveNoteFn) (poolContractId : Nat) (account : AccountKeys)
    (row : PoolCommitmentRow) : Db Unit := do
  match derive account row with
  | .error e => throw e
  | .ok none => pure ()
  | .ok (some derived) => do
      let s ← get
      insertUserNote
        { id := row.commitment
          accountId := account.accountId
          commitmentId := row.commitmentId
          nullifierId := s.nullifierId? poolContractId derived.expectedNullifier
          expectedNullifier := derived.expectedNullifier
          blinding := derived.blinding
          amount := toString derived.amount.val }

/-- `UPDATE account_commitment_scan SET last_commitment_id = …` -/
def setScanMark (poolContractId : Nat) (account : AccountKeys) (last : Nat) : Db Unit :=
  modify fun s =>
    { s with
      accountCommitmentScan := Table.update
        (fun m => m.poolContractId = poolContractId ∧ m.accountId = account.accountId)
        (fun m => { m with lastCommitmentId := last }) s.accountCommitmentScan }

/-- `ACCOUNT_CHUNK` -/
def accountChunk : Nat := 4

/-- One turn of an account: how many commitments were scanned. -/
def scanAccount (derive : DeriveNoteFn) (poolContractId : Nat) (account : AccountKeys)
    (poolQuota : Nat) : Db Nat := do
  let last ← lastCommitmentId poolContractId account
  let s ← get
  let commitments := (s.commitmentsAfter poolContractId last).take (min poolQuota accountChunk)
  if commitments.isEmpty then pure 0
  else do
    forM commitments (scanRow derive poolContractId account)
    setScanMark poolContractId account
      (commitments.foldl (fun m row => max m row.commitmentId) last)
    pure commitments.length

/-- One cycle over the accounts: the quota that is left, and whether there was progress. -/
def scanCycle (derive : DeriveNoteFn) (poolContractId : Nat) :
    List AccountKeys → Nat → Db (Nat × Bool)
  | [], poolQuota => pure (poolQuota, false)
  | account :: accounts, poolQuota =>
      if poolQuota = 0 then pure (poolQuota, false)
      else do
        let scanned ← scanAccount derive poolContractId account poolQuota
        let (left, progressed) ← scanCycle derive poolContractId accounts (poolQuota - scanned)
        pure (left, decide (scanned ≠ 0) || progressed)

/-- `while pool_quota > 0`: every cycle with progress lowers the quota, so as many rounds as
the quota are enough (`scanLoop_fuel`). -/
def scanLoop (derive : DeriveNoteFn) (poolContractId : Nat) (accounts : List AccountKeys) :
    Nat → Nat → Db Bool
  | 0, _ => pure false
  | rounds + 1, poolQuota =>
      if poolQuota = 0 then pure false
      else do
        let (left, progressed) ← scanCycle derive poolContractId accounts poolQuota
        if progressed then do
          let _ ← scanLoop derive poolContractId accounts rounds left
          pure true
        else pure false

/-- The scan of one pool. -/
def scanPool (derive : DeriveNoteFn) (accounts : List AccountKeys) (poolContractId : Nat)
    (poolQuota : Nat) : Db Bool :=
  if poolQuota = 0 then pure false
  else transaction do
    forM accounts (insertScanRow poolContractId)
    scanLoop derive poolContractId accounts poolQuota poolQuota

/-- The pools in turn. -/
def scanPools (derive : DeriveNoteFn) (accounts : List AccountKeys) :
    List (Nat × Nat) → Db Bool
  | [] => pure false
  | (poolContractId, poolQuota) :: pools => do
      let progressed ← scanPool derive accounts poolContractId poolQuota
      let rest ← scanPools derive accounts pools
      pure (progressed || rest)

/-- The loop that hands out the remainder, one by one. -/
def distribute : Nat → Nat → List Nat → List Nat
  | 0, _, quotas => quotas
  | remainder + 1, nextPool, quotas =>
      distribute remainder ((nextPool + 1) % quotas.length) (quotas.modify nextPool (· + 1))

/-- The quotas of the pools; with more pools than the limit each gets 1. -/
def poolQuotas (totalLimit poolCount : Nat) : List Nat :=
  let baseQuota := if totalLimit ≥ poolCount then totalLimit / poolCount else 1
  distribute (totalLimit - baseQuota * poolCount) 0 (List.replicate poolCount baseQuota)

/-- `scan_commitments_for_user_notes` -/
def scanCommitmentsForUserNotes (totalLimit : UInt32) (derive : DeriveNoteFn) : Db Bool := do
  let s ← get
  let accounts := getAccountsWithLatestKeypairs s
  if accounts.isEmpty ∨ totalLimit = 0 then pure false
  else
    let poolIds := s.poolIds ((Table.columns s.poolCommitments).map NewCommitmentEvent.id)
    if poolIds.isEmpty then pure false
    else if ¬ poolIds.length < UInt32.size then throw "pool count exceeds u32"
    else scanPools derive accounts (poolIds.zip (poolQuotas totalLimit.toNat poolIds.length))

/-! ## Reconciliation -/

/-- `INSERT OR IGNORE INTO nullifier_scan_state … VALUES (.., 0)` -/
def insertNullifierScanRow (poolContractId : Nat) : Db Unit := do
  let s ← get
  if (Table.columns s.nullifierScanState).any fun m => m.poolContractId = poolContractId then
    pure ()
  else if ¬ (s.contracts.any fun c => c.rowid = poolContractId) then
    throw "FOREIGN KEY constraint failed"
  else set { s with
    nullifierScanState := Table.insert s.nullifierScanState ⟨poolContractId, 0⟩ }

/-- The high-water mark of a pool over its nullifiers, if it has one. -/
def Storage.nullifierMark? (s : Storage) (poolContractId : Nat) : Option Nat :=
  ((Table.columns s.nullifierScanState).find? fun m => m.poolContractId = poolContractId).map
    NullifierScanState.lastNullifierId

/-- The nullifiers of a pool after a number, by number. -/
def Storage.nullifiersAfter (s : Storage) (poolContractId last : Nat) : List (Nat × Fr) :=
  Table.orderBy Prod.fst
    ((s.poolNullifiers.filter fun n =>
        s.eventContract? n.columns.id = some poolContractId ∧ last < n.rowid).map
      fun n => (n.rowid, n.columns.nullifier))

/-- `WHERE nullifier_id IS NULL AND expected_nullifier = .. AND EXISTS (..)` -/
def Storage.spentBy (s : Storage) (poolContractId : Nat) (nullifier : Fr) (n : UserNote) : Bool :=
  n.nullifierId.isNone && decide (n.expectedNullifier = nullifier) &&
    s.poolCommitments.any fun c =>
      c.rowid = n.commitmentId ∧ s.eventContract? c.columns.id = some poolContractId

/-- `UPDATE user_notes SET nullifier_id = ..`: `nullifier_id` is unique, so it is an error to
give one to two notes, or one that another note has. -/
def markSpent (poolContractId : Nat) (nullifier : Nat × Fr) : Db Unit := do
  let s ← get
  let hits := (Table.columns s.userNotes).filter (s.spentBy poolContractId nullifier.2)
  if 1 < hits.length ∨
      (hits ≠ [] ∧
        (Table.columns s.userNotes).any fun n => n.nullifierId = some nullifier.1) then
    throw "UNIQUE constraint failed: user_notes.nullifier_id"
  else set { s with
    userNotes := Table.update (s.spentBy poolContractId nullifier.2)
      (fun n => { n with nullifierId := some nullifier.1 }) s.userNotes }

/-- The reconciliation of one pool: whether there were nullifiers. -/
def reconcilePool (limit : Nat) (poolContractId : Nat) : Db Bool := transaction do
  insertNullifierScanRow poolContractId
  let s ← get
  match s.nullifierMark? poolContractId with
  | none => throw "Query returned no rows"
  | some last => do
      let nullifiers := (s.nullifiersAfter poolContractId last).take limit
      forM nullifiers (markSpent poolContractId)
      let maxId := nullifiers.foldl (fun m n => max m n.1) last
      if maxId > last then
        modify fun s =>
          { s with
            nullifierScanState := Table.update (fun m => m.poolContractId = poolContractId)
              (fun m => { m with lastNullifierId := maxId }) s.nullifierScanState }
      else pure ()
      pure (!nullifiers.isEmpty)

/-- The pools in turn. -/
def reconcilePools (limit : Nat) : List Nat → Db Bool
  | [] => pure false
  | poolContractId :: pools => do
      let didAny ← reconcilePool limit poolContractId
      let rest ← reconcilePools limit pools
      pure (didAny || rest)

/-- `reconcile_nullifiers` -/
def reconcileNullifiers (limit : UInt32) : Db Bool := do
  let s ← get
  if limit = 0 then pure false
  else
    reconcilePools limit.toNat
      (s.poolIds ((Table.columns s.poolNullifiers).map NewNullifierEvent.id))

/-! ## Keys -/

/-- `get_or_create_account` -/
def getOrCreateAccount (address : String) : Db Nat := do
  modify fun s => { s with accounts := Table.insertNew id s.accounts address }
  let s ← get
  match s.accounts.find? (fun a => a.columns = address) with
  | some a => pure a.rowid
  | none => throw "failed to fetch account id"

/-- `save_encryption_and_note_keypairs` -/
def saveEncryptionAndNoteKeypairs (accountAddress : String) (noteKeypair : NoteKeyPair)
    (encryptionKeypair : EncryptionKeyPair) (membershipBlinding : Fr) : Db Unit := transaction do
  let accountId ← getOrCreateAccount accountAddress
  modify fun s =>
    { s with
      keypairs := Table.insert s.keypairs
        { encryptionPrivateKey := encryptionKeypair.privateKey
          encryptionPublicKey := encryptionKeypair.publicKey
          notePrivateKey := noteKeypair.privateKey
          notePublicKey := noteKeypair.publicKey
          membershipBlinding
          accountId } }

end PrivatePayments.State
