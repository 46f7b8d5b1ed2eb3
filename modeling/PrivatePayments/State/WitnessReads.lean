import PrivatePayments.State.NoteScan
import PrivatePayments.Stellar.Indexer

/-!
# PrivatePayments.State.WitnessReads

The reads of the local database that a witness is built from (`state/src/storage.rs`): the
keys of an account, an unspent note by its commitment, and the leaves of the association set
with the check that they are up to date.

The sync metadata is what `get_sync_metadata` reads of the table that the indexer keeps; it
is an argument here. Where a query names no order and takes one row, the first row is taken.
-/

namespace PrivatePayments.State

/-! ## Keys -/

/-- `StoredUserKeys` -/
structure StoredUserKeys where
  noteKeypair : NoteKeyPair
  encryptionKeypair : EncryptionKeyPair
  membershipBlinding : Fr
  deriving DecidableEq, Repr

/-- `get_user_keys` -/
def getUserKeys (s : Storage) (address : String) : Option StoredUserKeys :=
  (Table.latest (s.keypairs.filter fun k =>
      s.accounts.any fun a => a.rowid = k.columns.accountId ∧ a.columns = address)).map fun k =>
    { noteKeypair := ⟨k.columns.notePrivateKey, k.columns.notePublicKey⟩
      encryptionKeypair := ⟨k.columns.encryptionPrivateKey, k.columns.encryptionPublicKey⟩
      membershipBlinding := k.columns.membershipBlinding }

/-! ## Notes -/

/-- The digits after a plus sign, if there is one. -/
def stripPlus : List Char → List Char
  | '+' :: digits => digits
  | digits => digits

/-- `str::parse::<u128>`: decimal digits, after a plus sign or not. -/
def parseU128 (text : String) : Option NoteAmount :=
  let digits := stripPlus text.toList
  if digits ≠ [] ∧ digits.all Char.isDigit then
    if h : Nat.ofDigitChars 10 digits 0 < u128Size then some ⟨_, h⟩ else none
  else none

/-- The rows of `get_unspent_user_note_by_commitment`: a note and its commitment. -/
def Storage.unspentNotes (s : Storage) (poolContractId accountAddress : String)
    (commitment : Fr) : List (UserNote × NewCommitmentEvent) :=
  (Table.columns s.userNotes).flatMap fun n =>
    (s.poolCommitments.filter fun pc =>
      pc.rowid = n.commitmentId ∧
        (s.accounts.any fun a => a.rowid = n.accountId ∧ a.columns = accountAddress) ∧
        s.eventAddress? pc.columns.id = some poolContractId ∧
        pc.columns.commitment = commitment ∧ n.nullifierId = none).map
      fun pc => (n, pc.columns)

/-- `get_unspent_user_note_by_commitment`: the amount is stored as text. -/
def getUnspentUserNoteByCommitment (s : Storage) (poolContractId accountAddress : String)
    (commitment : Fr) : Except String (Option (NoteAmount × Fr × UInt32)) :=
  match (s.unspentNotes poolContractId accountAddress commitment).head? with
  | none => .ok none
  | some (n, pc) =>
      match parseU128 n.amount with
      | none => .error "Failed to query unspent user note by commitment"
      | some amount => .ok (some (amount, n.blinding, pc.index))

/-! ## Association set -/

/-- `AspMembershipSync` -/
inductive AspMembershipSync
  | syncRequired (gap : Option UInt32)
  | registerAtASP
  | userIndex (index : UInt32)
  deriving DecidableEq, Repr

/-- The membership leaves of a contract, by index. -/
def Storage.aspLeaves (s : Storage) (contractId : String) : List LeafAddedEvent :=
  Table.orderBy (fun l => l.index.toNat)
    ((Table.columns s.aspMembershipLeaves).filter fun l => s.eventAddress? l.id = some contractId)

/-- `u32::saturating_sub` -/
def saturatingSub (a b : UInt32) : UInt32 := if b ≤ a then a - b else 0

/-- `check_asp_membership_precondition` -/
def checkAspMembershipPrecondition (s : Storage) (syncMetadata : List SyncMetadata)
    (aspMembershipContractId : String) (userLeaf currentRoot : Fr) (currentLedger : UInt32) :
    Except String AspMembershipSync :=
  match syncMetadata.find? fun m => m.contractId = aspMembershipContractId with
  | none => .ok (.syncRequired (some currentLedger))
  | some syncMeta =>
      if currentLedger > syncMeta.lastFullyIndexedLedger then
        .ok (.syncRequired (some (saturatingSub currentLedger syncMeta.lastFullyIndexedLedger)))
      else
        let leaves := s.aspLeaves aspMembershipContractId
        let last := leaves.getLast?.bind fun l => (s.rawEvent? l.id).map fun r => (l.root, r.ledger)
        match last with
        | none => .ok .registerAtASP
        | some (lastRoot, lastLeafLedger) =>
            if currentRoot ≠ lastRoot then
              if lastLeafLedger < currentLedger then
                .ok (.syncRequired (some (saturatingSub currentLedger lastLeafLedger)))
              else .error s!"asp membership root mismatch at ledger {currentLedger}"
            else
              match leaves.find? fun l => l.leaf = userLeaf with
              | some l => .ok (.userIndex l.index)
              | none => .ok .registerAtASP

/-- The loop over rows of an index and a leaf, sorted by the index. -/
def collectIndexed (table : String) : List (UInt32 × Fr) → UInt32 → List Fr →
    Except String (List Fr)
  | [], _, leaves => .ok leaves
  | (idx, leaf) :: rows, expectedIndex, leaves =>
      if idx ≠ expectedIndex then
        .error s!"{table} gap/out-of-order: expected index {expectedIndex}, got {idx}"
      else
        match checkedAdd expectedIndex 1 with
        | none => .error s!"{table} index overflow"
        | some next => collectIndexed table rows next (leaves ++ [leaf])

/-- `get_all_asp_membership_leaves_ordered` -/
def getAllAspMembershipLeavesOrdered (s : Storage) (aspMembershipContractId : String) :
    Except String (List Fr) :=
  collectIndexed "asp_membership_leaves"
    ((s.aspLeaves aspMembershipContractId).map fun l => (l.index, l.leaf)) 0 []

end PrivatePayments.State
