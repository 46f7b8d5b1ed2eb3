import PrivatePayments.Prover.Notes
import PrivatePayments.State.SpentStatus
import Mathlib.Algebra.Order.BigOperators.Group.List
import Mathlib.Data.List.ProdSigma

/-!
# PrivatePayments.State.NoteDiscovery

Repeated scans with the decryption of the client.

`derive` decrypts the bytes that are stored with a commitment, and anyone can store any
bytes there. Bytes that fail authentication are skipped, but fewer than 120 bytes, more than
120 bytes that authenticate, and a blinding at or above the modulus are errors; and an error
rolls the marks of its pool back, so the next scan meets it again. The scans come to an end
with every commitment offered to every account exactly when no stored bytes are an error
(`discovers_iff`).
-/

namespace PrivatePayments.State

open Prover

/-- The closure `derive` of `process_until_empty`. -/
def deriveUserNote (box : NoteBox) : DeriveNoteFn := fun account row => do
  let opt ← tryDecryptAndDeriveUserNote box account.noteKeypair account.encryptionKeypair.privateKey
    row.commitment row.leafIndex row.encryptedOutput
  return opt.map fun d => ⟨d.amount, d.blinding, d.expectedNullifier⟩

/-- `derive` returns exactly on well-formed bytes. -/
theorem deriveUserNote_isOk {box : NoteBox} {account : AccountKeys} {row : PoolCommitmentRow} :
    (∃ derived, deriveUserNote box account row = .ok derived) ↔
      WellFormed box account.encryptionKeypair.privateKey row.encryptedOutput := by
  have hnote : (∃ note, tryDecryptAndDeriveUserNote box account.noteKeypair
      account.encryptionKeypair.privateKey row.commitment row.leafIndex row.encryptedOutput =
        .ok note) ↔ _ := tryDecryptAndDeriveUserNote_isOk
  rw [← hnote]
  unfold deriveUserNote
  cases h : tryDecryptAndDeriveUserNote box account.noteKeypair
      account.encryptionKeypair.privateKey row.commitment row.leafIndex row.encryptedOutput with
  | error e =>
      refine iff_of_false (fun hex => ?_) fun hex => ?_
      · obtain ⟨derived, hderived⟩ := hex
        cases hderived
      · obtain ⟨note, hnote⟩ := hex
        cases hnote
  | ok note => exact iff_of_true ⟨_, rfl⟩ ⟨note, rfl⟩

/-! ## References -/

/-- The accounts are numbered, and every raw event has its contract. -/
structure Referenced (s : Storage) : Prop where
  linked : s.Linked
  accounts : Table.Ordered s.accounts

theorem Referenced.write {derive : DeriveNoteFn} {s s' : Storage} (hs : Referenced s)
    (h : Write derive s s') : Referenced s' := by
  obtain ⟨⟨hcontracts, hids, haddresses⟩, haccounts⟩ := hs
  cases h with
  | event event =>
      refine ⟨Storage.Linked.addEvent ⟨hcontracts, hids, haddresses⟩ event, ?_⟩
      unfold Storage.addEvent Storage.withContract
      split <;> exact haccounts
  | account address => exact ⟨⟨hcontracts, hids, haddresses⟩, haccounts.insertNew⟩
  | settle p limit last h =>
      obtain ⟨marks, hframe⟩ := settle_frame s p limit last
      obtain ⟨notes, hfold⟩ := foldl_spend_frame p ((s.nullifiersAfter p last).take limit) s
      rw [hframe, hfold]
      exact ⟨⟨hcontracts, hids, haddresses⟩, haccounts⟩
  | _ => exact ⟨⟨hcontracts, hids, haddresses⟩, haccounts⟩

theorem Referenced.run (derive : DeriveNoteFn) (ops : List NoteOp) :
    Referenced (noteRun derive ops) :=
  (noteRun_writes derive ops).keeps (fun _ _ hs hwrite => hs.write hwrite)
    ⟨Storage.linked_empty, Table.ordered_nil⟩

/-- The pool of a stored commitment has a contract row. -/
theorem Referenced.contract {s : Storage} (hs : Referenced s) {p : Nat}
    (hp : p ∈ s.commitmentPools) : s.contracts.any fun c => c.rowid = p := by
  obtain ⟨id, -, hcontract⟩ := mem_poolIds.mp hp
  obtain ⟨raw, hraw, rfl⟩ := Option.map_eq_some_iff.mp hcontract
  obtain ⟨address, haddress⟩ := hs.linked.addresses raw (List.mem_of_find?_eq_some hraw)
  obtain ⟨c, hc, -⟩ := Option.map_eq_some_iff.mp haddress
  have hid : c.rowid = raw.contractId := by simpa using List.find?_some hc
  exact List.any_eq_true.mpr ⟨c, List.mem_of_find?_eq_some hc, decide_eq_true hid⟩

/-! ## Repeated scans -/

/-- Scans until one returns `false`; none fails. -/
inductive Discovers (derive : DeriveNoteFn) (totalLimit : UInt32) : Storage → Storage → Prop
  | last {s s' : Storage}
      (h : (scanCommitmentsForUserNotes totalLimit derive).run s = .ok false s') :
      Discovers derive totalLimit s s'
  | step {s s₁ s' : Storage}
      (h : (scanCommitmentsForUserNotes totalLimit derive).run s = .ok true s₁)
      (hrest : Discovers derive totalLimit s₁ s') : Discovers derive totalLimit s s'

/-- Every commitment of every pool has been offered to every account. -/
def AllScanned (s : Storage) : Prop :=
  ∀ p, ∀ account ∈ getAccountsWithLatestKeypairs s, s.unscanned p account.accountId = []

/-- What a scan must be able to deal with: the pools can be counted, and `derive` returns on
every commitment that an account was not offered yet. -/
def Scannable (derive : DeriveNoteFn) (s : Storage) : Prop :=
  getAccountsWithLatestKeypairs s = [] ∨ (s.commitmentPools.length < UInt32.size ∧
    ∀ p, ∀ account ∈ getAccountsWithLatestKeypairs s, ∀ row ∈ s.unscanned p account.accountId,
      ∃ derived, derive account row = .ok derived)

/-- The number of commitments that are left for the accounts. -/
def Storage.remaining (s : Storage) : Nat :=
  ((s.commitmentPools.product (getAccountsWithLatestKeypairs s)).map fun x =>
    (s.unscanned x.1 x.2.accountId).length).sum

section Discovers

variable {derive : DeriveNoteFn} {s s' : Storage} {totalLimit : UInt32}

theorem ScanRun.commitmentPools (h : ScanRun derive s s') :
    s'.commitmentPools = s.commitmentPools := by
  obtain ⟨notes, marks, rfl⟩ := h.frame
  rfl

theorem ScanRun.scannable (h : ScanRun derive s s') (hs : Scannable derive s) :
    Scannable derive s' := by
  unfold Scannable
  rw [h.accountKeys, h.commitmentPools]
  refine hs.imp id fun hrows => ⟨hrows.1, fun p account haccount row hrow => ?_⟩
  exact hrows.2 p account haccount row (h.unscanned_subset p _ hrow)

/-- A scan that progresses leaves less to do. -/
theorem ScanRun.remaining_lt (h : ScanRun derive s s')
    (hprogress : ∃ p ∈ s.commitmentPools,
      Progressed s s' (getAccountsWithLatestKeypairs s) p) : s'.remaining < s.remaining := by
  unfold Storage.remaining
  rw [h.commitmentPools, h.accountKeys]
  refine List.sum_lt_sum _ _ (fun x _ => h.length_unscanned_le _ _) ?_
  obtain ⟨p, hp, account, haccount, hlt⟩ := hprogress
  exact ⟨(p, account), List.pair_mem_product.mpr ⟨hp, haccount⟩, hlt⟩

/-- Without a failing commitment a scan does not fail. -/
theorem Scannable.scan_ok (hs : Scannable derive s) (hreferenced : Referenced s)
    (hordered : Table.Ordered s.poolCommitments) (totalLimit : UInt32) :
    ∃ progressed s', (scanCommitmentsForUserNotes totalLimit derive).run s =
      .ok progressed s' := by
  cases hrun : (scanCommitmentsForUserNotes totalLimit derive).run s with
  | ok progressed s' => exact ⟨progressed, s', rfl⟩
  | error e s' =>
      obtain ⟨-, hfails, haccounts⟩ := (Outcome.of_error hrun).mp (scan_outcome hordered totalLimit)
      obtain ⟨hfew, hrows⟩ := hs.resolve_left haccounts
      rcases hfails with hmany | ⟨p, hp, hmissing | ⟨account, haccount, row, hrow, herror⟩⟩
      · exact absurd hfew (Nat.not_lt.mpr hmany)
      · exact absurd (hreferenced.contract hp) hmissing
      · obtain ⟨derived, hok⟩ := hrows p account haccount row hrow
        rw [herror] at hok
        cases hok

/-- Without a failing commitment the scans come to an end, and nothing is left. -/
theorem Scannable.discovers (hs : Scannable derive s) (hwrites : Writes derive Storage.empty s)
    (hlimit : totalLimit ≠ 0) : ∃ s', Discovers derive totalLimit s s' ∧ AllScanned s' := by
  induction hn : s.remaining using Nat.strong_induction_on generalizing s with
  | _ n ih =>
      have hordered := (SpentOk.writes hwrites).commitments.ordered
      have hreferenced : Referenced s := hwrites.keeps (fun _ _ hs hwrite => hs.write hwrite)
        ⟨Storage.linked_empty, Table.ordered_nil⟩
      obtain ⟨progressed, s₁, hrun⟩ := hs.scan_ok hreferenced hordered totalLimit
      obtain ⟨hscan, hprogress, hidle, -⟩ := (scan_outcome hordered totalLimit).ok hrun
      cases progressed with
      | false =>
          obtain ⟨hsame, hnone⟩ := hidle rfl hlimit
          refine ⟨s₁, .last hrun, fun p account haccount => ?_⟩
          rw [hscan.accountKeys] at haccount
          rw [hsame]
          exact hnone p account haccount
      | true =>
          have hless := hscan.remaining_lt (hprogress rfl)
          obtain ⟨s', hrest, hall⟩ := ih _ (hn ▸ hless) (hscan.scannable hs)
            (hwrites.trans hscan.writes) rfl
          exact ⟨s', .step hrun hrest, hall⟩

/-- The scans move marks forward only, and find the number of pools countable. -/
theorem Discovers.scanRun (h : Discovers derive totalLimit s s')
    (hordered : Table.Ordered s.poolCommitments) (hlimit : totalLimit ≠ 0) :
    ScanRun derive s s' ∧ (getAccountsWithLatestKeypairs s ≠ [] →
      s.commitmentPools.length < UInt32.size) := by
  induction h with
  | last hrun =>
      obtain ⟨hscan, -, -, hfew⟩ := (scan_outcome hordered totalLimit).ok hrun
      exact ⟨hscan, fun haccounts => hfew haccounts hlimit⟩
  | step hrun _ ih =>
      obtain ⟨hscan, -, -, hfew⟩ := (scan_outcome hordered totalLimit).ok hrun
      exact ⟨hscan.trans (ih (hscan.poolCommitments ▸ hordered)).1,
        fun haccounts => hfew haccounts hlimit⟩

/-- Scans that leave nothing had no failing commitment. -/
theorem Discovers.scannable (h : Discovers derive totalLimit s s') (hall : AllScanned s')
    (hwrites : Writes derive Storage.empty s) (hlimit : totalLimit ≠ 0) :
    Scannable derive s := by
  have hordered := (SpentOk.writes hwrites).commitments.ordered
  have hreferenced : Referenced s := hwrites.keeps (fun _ _ hs hwrite => hs.write hwrite)
    ⟨Storage.linked_empty, Table.ordered_nil⟩
  obtain ⟨hscan, hfew⟩ := h.scanRun hordered hlimit
  refine or_iff_not_imp_left.mpr fun haccounts => ⟨hfew haccounts, ?_⟩
  intro p account haccount row hrow
  obtain ⟨n, hdrop, hread⟩ := hscan.advance p account.accountId
  rw [hall p account (hscan.accountKeys.symm ▸ haccount)] at hdrop
  have htake : row ∈ (s.unscanned p account.accountId).take n := by
    rw [List.take_of_length_le (List.drop_eq_nil_iff.mp hdrop.symm)]
    exact hrow
  obtain ⟨account', haccount', hid, derived, hok⟩ := hread row htake
  obtain rfl : account' = account :=
    List.inj_on_of_nodup_map (accounts_nodup hreferenced.accounts) haccount' haccount hid
  exact ⟨derived, hok⟩

end Discovers

/-- The bytes of every commitment that an account was not offered yet are well formed for
that account, and the pools can be counted; without accounts nothing is asked. -/
def Readable (box : NoteBox) (s : Storage) : Prop :=
  getAccountsWithLatestKeypairs s = [] ∨ (s.commitmentPools.length < UInt32.size ∧
    ∀ p, ∀ account ∈ getAccountsWithLatestKeypairs s, ∀ row ∈ s.unscanned p account.accountId,
      WellFormed box account.encryptionKeypair.privateKey row.encryptedOutput)

/-- From every reachable state the scans come to an end, without an error and with every
commitment offered to every account, exactly when the bytes of every commitment are well
formed. -/
theorem discovers_iff (box : NoteBox) (ops : List NoteOp) (totalLimit : UInt32)
    (hlimit : totalLimit ≠ 0) :
    (∃ s', Discovers (deriveUserNote box) totalLimit (noteRun (deriveUserNote box) ops) s' ∧
      AllScanned s') ↔ Readable box (noteRun (deriveUserNote box) ops) := by
  have hwrites := noteRun_writes (deriveUserNote box) ops
  generalize noteRun (deriveUserNote box) ops = s at hwrites
  have hscannable : Readable box s ↔ Scannable (deriveUserNote box) s := by
    unfold Readable Scannable
    simp only [deriveUserNote_isOk]
  rw [hscannable]
  constructor
  · intro h
    obtain ⟨s', hdiscovers, hall⟩ := h
    exact hdiscovers.scannable hall hwrites hlimit
  · exact fun h => h.discovers hwrites hlimit

/-- A box that authenticates nothing. -/
def closedBox : NoteBox where
  publicKey key := key
  diffieHellman key _ := key
  encrypt _ _ _ := none
  decrypt _ _ _ := none
  decrypt_length := by simp

/-- One account, and one output with the given bytes. -/
def oneOutputOf (encryptedOutput : List UInt8) : List NoteOp :=
  let zero := Bytes32.zero
  [ .saveEvents [⟨"1", 1, "pool", [], ""⟩],
    .saveCommitments [⟨"1", 7, 0, encryptedOutput⟩],
    .saveKeys "account" ⟨zero, zero⟩ ⟨zero, zero⟩ 0 ]

theorem discovers_iff_oneOutput :
    ((1 : UInt32) ≠ 0) ∧
    ((∃ s', Discovers (deriveUserNote closedBox) 1
        (noteRun (deriveUserNote closedBox) (oneOutputOf (List.replicate 120 0))) s' ∧
      AllScanned s') ↔
    Readable closedBox
      (noteRun (deriveUserNote closedBox) (oneOutputOf (List.replicate 120 0)))) :=
  ⟨by decide, discovers_iff closedBox (oneOutputOf (List.replicate 120 0)) 1 (by decide)⟩

/-- Empty bytes stop the discovery: the scan fails, rolled back to where it started. -/
theorem empty_output_stops_discovery :
    (scanCommitmentsForUserNotes 1 (deriveUserNote closedBox)).run
        (noteRun (deriveUserNote closedBox) (oneOutputOf [])) =
      .error "Encrypted data too short"
        (noteRun (deriveUserNote closedBox) (oneOutputOf [])) ∧
    ¬ ∃ s', Discovers (deriveUserNote closedBox) 1
      (noteRun (deriveUserNote closedBox) (oneOutputOf [])) s' := by
  have hfails : (scanCommitmentsForUserNotes 1 (deriveUserNote closedBox)).run
      (noteRun (deriveUserNote closedBox) (oneOutputOf [])) =
        .error "Encrypted data too short"
          (noteRun (deriveUserNote closedBox) (oneOutputOf [])) := by rfl
  refine ⟨hfails, fun h => ?_⟩
  obtain ⟨s', hdiscovers⟩ := h
  cases hdiscovers with
  | last hrun =>
      rw [hfails] at hrun
      cases hrun
  | step hrun hrest =>
      rw [hfails] at hrun
      cases hrun

end PrivatePayments.State
