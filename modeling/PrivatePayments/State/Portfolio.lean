import PrivatePayments.Prover.Flows
import PrivatePayments.State.WitnessReads

/-!
# PrivatePayments.State.Portfolio

The user's notes and balances as they are shown (`list_user_notes`,
`list_unspent_user_notes` and `list_portfolio_balances` of `state/src/storage.rs`).

The three queries join a note with its account, its commitment, the raw event and the
contract. `ORDER BY` leaves the order of equal keys open; here it is that of insertion. An
amount is stored as text and parsed when its row is read.
-/

namespace PrivatePayments.State

/-! ## The rows of the queries -/

/-- A note with the columns that are joined to it. -/
structure NoteRow where
  note : UserNote
  commitment : Table.Row NewCommitmentEvent
  ledger : UInt32
  poolAddress : String

/-- `JOIN raw_contract_events r … JOIN contracts pool …` for a note and its commitment. -/
def Storage.joinPool (s : Storage) (note : UserNote) (commitment : Table.Row NewCommitmentEvent) :
    Option NoteRow := do
  let raw ← s.rawEvent? commitment.columns.id
  let poolAddress ← s.contractAddress? raw.contractId
  some ⟨note, commitment, raw.ledger, poolAddress⟩

/-- The joined rows with `a.address = address`. -/
def Storage.noteRows (s : Storage) (address : String) : List NoteRow :=
  ((Table.columns s.userNotes).filter fun n =>
      s.accounts.any fun a => a.rowid = n.accountId ∧ a.columns = address).flatMap fun n =>
    (s.poolCommitments.filter fun c => c.rowid = n.commitmentId).filterMap (s.joinPool n)

/-- `ORDER BY r.ledger DESC` -/
def newestFirst (rows : List NoteRow) : List NoteRow :=
  Table.orderBy (fun r => OrderDual.toDual r.ledger.toNat) rows

/-- `NoteAmount::column_result` for the column `amount` at a place of the row. -/
def NoteRow.amountAt (row : NoteRow) (index : Nat) : Except String NoteAmount :=
  match parseU128 row.note.amount with
  | some amount => .ok amount
  | none => .error s!"Invalid column type Text at index: {index}, name: amount"

/-! ## Notes -/

/-- `UserNoteSummary` -/
structure UserNoteSummary where
  id : Fr
  poolContractId : String
  amount : NoteAmount
  leafIndex : UInt32
  createdAtLedger : UInt32
  spent : Bool
  deriving DecidableEq, Repr

/-- The row as it is returned. -/
def NoteRow.summary (row : NoteRow) : Except String UserNoteSummary := do
  let amount ← row.amountAt 2
  .ok
    { id := row.note.id
      poolContractId := row.poolAddress
      amount
      leafIndex := row.commitment.columns.index
      createdAtLedger := row.ledger
      spent := row.note.nullifierId.isSome }

/-- `list_user_notes` -/
def listUserNotes (s : Storage) (address : String) (limit : UInt32) :
    Except String (List UserNoteSummary) :=
  ((newestFirst (s.noteRows address)).take limit.toNat).mapM NoteRow.summary

/-- `WHERE n.nullifier_id IS NULL` -/
def Storage.unspentRows (s : Storage) (address : String) : List NoteRow :=
  (s.noteRows address).filter fun r => r.note.nullifierId = none

/-- `list_unspent_user_notes` -/
def listUnspentUserNotes (s : Storage) (poolContractId address : String) :
    Except String (List UserNoteSummary) :=
  (newestFirst ((s.unspentRows address).filter fun r => r.poolAddress = poolContractId)).mapM
    NoteRow.summary

/-! ## Balances -/

/-- `AssetDescriptor` -/
inductive AssetDescriptor
  | native
  | classic (code issuer : String)
  | contract (contractId symbol : String)
  deriving DecidableEq, Repr

/-- `PoolConfigEntry` with its token and its asset -/
structure PoolTokenEntry extends PoolConfigEntry where
  tokenContractId : String
  asset : AssetDescriptor
  deriving DecidableEq

/-- `PortfolioBalance` -/
structure PortfolioBalance where
  poolContractId : String
  tokenContractId : String
  tokenLabel : String
  amount : NoteAmount
  noteCount : UInt32
  deriving DecidableEq, Repr

/-- `token_label` -/
def tokenLabel (pool : PoolTokenEntry) : String :=
  match pool.asset with
  | .native => "XLM"
  | .classic code _ => code
  | .contract _ symbol => symbol

/-- `u32::saturating_add` -/
def saturatingAdd (a b : UInt32) : UInt32 := (checkedAdd a b).getD 0xFFFFFFFF

/-- `aggregated`: by pool, the number of notes and the sum of their amounts. -/
abbrev Aggregated := String → Option (UInt32 × NoteAmount)

/-- The entry of a pool, or the default. -/
def Aggregated.entry (aggregated : Aggregated) (pool : String) : UInt32 × NoteAmount :=
  (aggregated pool).getD (0, 0)

/-- The loop over the rows. -/
def aggregate : List NoteRow → Aggregated → Except String Aggregated
  | [], aggregated => .ok aggregated
  | row :: rows, aggregated => do
      let amount ← row.amountAt 1
      let entry := aggregated.entry row.poolAddress
      match Prover.checkedAdd entry.2 amount with
      | none => .error "overflow computing total balance"
      | some total =>
          aggregate rows
            (Function.update aggregated row.poolAddress (some (saturatingAdd entry.1 1, total)))

/-- The loop over the enabled pools; an entry is removed when it is taken. -/
def balancesOf : List PoolTokenEntry → Aggregated → List PortfolioBalance
  | [], _ => []
  | pool :: pools, aggregated =>
      let entry := aggregated.entry pool.poolContractId
      { poolContractId := pool.poolContractId
        tokenContractId := pool.tokenContractId
        tokenLabel := tokenLabel pool
        amount := entry.2
        noteCount := entry.1 } ::
        balancesOf pools (Function.update aggregated pool.poolContractId none)

/-- `list_portfolio_balances` -/
def listPortfolioBalances (s : Storage) (address : String) (pools : List PoolTokenEntry) :
    Except String (List PortfolioBalance) := do
  let rows := Table.orderBy NoteRow.poolAddress (s.unspentRows address)
  let aggregated ← aggregate rows fun _ => none
  .ok (balancesOf (pools.filter fun pool => pool.enabled) aggregated)

end PrivatePayments.State
