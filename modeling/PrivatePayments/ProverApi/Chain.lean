import PrivatePayments.State.EventsParsers
import PrivatePayments.State.WitnessReads
import PrivatePayments.Stellar.Indexer
import Mathlib.Data.List.DropRight

/-!
# PrivatePayments.ProverApi.Chain

The chain helpers of the prover service (`prover-api/src/chain.rs`): the commitments of the
pool and the leaves of the membership contract, read from the events of the node page by page.

The two fetches differ in the events they keep and in the text of their error; `Fetch` is
what they share. The log lines are left out.
-/

namespace PrivatePayments.ProverApi

open PrivatePayments.State PrivatePayments.Stellar

/-- `PAGE_SIZE` -/
def pageSize : Nat := 300

/-- `MAX_PAGES` -/
def maxPages : Nat := 2048

/-! ## Cursors -/

/-- `char::is_whitespace` -/
def isWhitespace (c : Char) : Bool :=
  (0x9 ≤ c.toNat && c.toNat ≤ 0xd) || (0x2000 ≤ c.toNat && c.toNat ≤ 0x200a) ||
    c.toNat ∈ [0x20, 0x85, 0xa0, 0x1680, 0x2028, 0x2029, 0x202f, 0x205f, 0x3000]

/-- `str::trim` -/
def trim (text : List Char) : List Char := (text.dropWhile isWhitespace).rdropWhile isWhitespace

/-- `str::parse::<u64>`: decimal digits, after a plus sign or not. -/
def parseU64 (text : List Char) : Option Nat :=
  let digits := stripPlus text
  if digits ≠ [] ∧ digits.all Char.isDigit ∧ Nat.ofDigitChars 10 digits 0 < 2 ^ 64 then
    some (Nat.ofDigitChars 10 digits 0)
  else none

/-- `cursor_ledger` -/
def cursorLedger (cursor : String) : Option Nat := do
  let toid ← parseU64 (trim (cursor.toList.takeWhile (· ≠ '-')))
  return toid >>> 32

/-! ## Pages -/

/-- The text of an error of the client. -/
def errorMessage : RpcError → String
  | .rpcAhead newest =>
      s!"local sync is ahead of the RPC events tip - the newest queryable ledger is: {newest}"
  | .other message => message

/-- The debug form of a cursor. -/
def cursorDebug : Option String → String
  | some cursor => s!"Some({cursor.quote})"
  | none => "None"

/-- The two fetches. -/
inductive Fetch where
  | pool
  | aspMembership
  deriving DecidableEq, Repr

namespace Fetch

variable (fetch : Fetch) (xdr : Xdr) (client : Client) (contractId : String) (fromLedger : UInt32)

/-- How the error names the contract. -/
def label : Fetch → String
  | pool => "pool"
  | aspMembership => "asp_membership"

/-- What is kept of an event: an index and a leaf. -/
def select : Fetch → ProcessedEvent → Option (UInt32 × Fr)
  | pool, .commitment c => some (c.index, c.commitment)
  | aspMembership, .leafAdded l => some (l.index, l.leaf)
  | _, _ => none

/-- The row of a raw event; one that is not parsed has none. -/
def row (event : ContractEvent) : Option (UInt32 × Fr) :=
  match parseEvent xdr event with
  | .ok parsed => fetch.select parsed
  | .error _ => none

/-- The error of a request. -/
def requestError (pages : Nat) (cursor : Option String) (e : RpcError) : String :=
  s!"get_contract_events({fetch.label}) page={pages} cursor={cursorDebug cursor}: " ++
    errorMessage e

/-- The cursor to go on with while the events tip is not reached. -/
def nextRequest (nextCursor : Option String) (latest : UInt32) : Option String :=
  match nextCursor, nextCursor.bind cursorLedger with
  | some c, some cl => if c ≠ "" ∧ cl < latest.toNat then some c else none
  | _, _ => none

/-- The loop; `left` pages are left until `MAX_PAGES`. -/
def pages : (left : Nat) → Option String → List (UInt32 × Fr) →
    Except String (List (UInt32 × Fr))
  | 0, _, all => .ok all
  | left + 1, cursor, all =>
      match client.getContractEvents [contractId] fromLedger pageSize cursor with
      | .error e => .error (fetch.requestError (maxPages - (left + 1)) cursor e)
      | .ok (nextCursor, events, latest) =>
          let all := all ++ events.filterMap (fetch.row xdr)
          match nextRequest nextCursor latest with
          | some c => pages left (some c) all
          | none => .ok all

/-- The rows of all pages, sorted by index. -/
def rows : Except String (List (UInt32 × Fr)) := do
  let all ← fetch.pages xdr client contractId fromLedger maxPages none []
  return Table.orderBy (fun row => row.1.toNat) all

end Fetch

/-- `fetch_pool_commitments` -/
def fetchPoolCommitments (xdr : Xdr) (client : Client) (poolId : String) (fromLedger : UInt32) :
    Except String (List (UInt32 × Fr)) :=
  Fetch.pool.rows xdr client poolId fromLedger

/-- `fetch_asp_membership_leaves` -/
def fetchAspMembershipLeaves (xdr : Xdr) (client : Client) (aspMembershipId : String)
    (fromLedger : UInt32) : Except String (List Fr) := do
  let all ← Fetch.aspMembership.rows xdr client aspMembershipId fromLedger
  return all.map Prod.snd

end PrivatePayments.ProverApi
