import PrivatePayments.State.Drain
import PrivatePayments.State.NoteDiscovery

/-!
# PrivatePayments.State.ClientRun

The local database over whole runs: batches of the chain's events are saved and processed,
keys are saved, commitments are scanned and nullifiers reconciled, in any order and with any
limits, and each call leaves what it leaves when it fails.

Three facts hold of every database that is reached (`ClientOk.run`): its events are events of
the chain, its derived rows were parsed from them, and it was filled by writes. The last one
carries the facts about the tables that only `Write` can change: of each note the keys and
the commitment that it was derived from are still there (`Sourced`).
-/

namespace PrivatePayments.State

open Prover

/-! ## Where notes come from -/

/-- A commitment row as the scan reads it. -/
def commitmentRow (c : Table.Row NewCommitmentEvent) : PoolCommitmentRow :=
  ⟨c.rowid, c.columns.commitment, c.columns.index, c.columns.encryptedOutput⟩

/-- A note is what `derive` returned for a key row of its account and for its commitment. -/
def Storage.Derived (derive : DeriveNoteFn) (s : Storage) (note : UserNote) : Prop :=
  ∃ k ∈ Table.columns s.keypairs, k.accountId = note.accountId ∧
    ∃ c ∈ s.poolCommitments, c.rowid = note.commitmentId ∧
      ∃ derived, derive k.toAccountKeys (commitmentRow c) = .ok (some derived) ∧
        note.expectedNullifier = derived.expectedNullifier ∧ note.blinding = derived.blinding ∧
        note.amount = toString derived.amount.val

/-- Every address has one row, and every note was derived. -/
structure Sourced (derive : DeriveNoteFn) (s : Storage) : Prop where
  accounts : (Table.columns s.accounts).Nodup
  contracts : (Table.columns s.contracts).Nodup
  notes : ∀ note ∈ Table.columns s.userNotes, s.Derived derive note

section Sourced

variable {derive : DeriveNoteFn} {s s' : Storage}

theorem Storage.Derived.mono {note : UserNote} (h : s.Derived derive note)
    (hkeys : Table.columns s.keypairs ⊆ Table.columns s'.keypairs)
    (hcommitments : s.poolCommitments ⊆ s'.poolCommitments) : s'.Derived derive note := by
  obtain ⟨k, hk, haccount, c, hc, hrest⟩ := h
  exact ⟨k, hkeys hk, haccount, c, hcommitments hc, hrest⟩

theorem Sourced.empty : Sourced derive Storage.empty :=
  ⟨.nil, .nil, fun _ hnote => by cases hnote⟩

/-- The notes and accounts stay, and the keys and commitments grow. -/
theorem Sourced.grows (hs : Sourced derive s) (haccounts : s'.accounts = s.accounts)
    (hcontracts : s'.contracts = s.contracts) (hnotes : s'.userNotes = s.userNotes)
    (hkeys : Table.columns s.keypairs ⊆ Table.columns s'.keypairs)
    (hcommitments : s.poolCommitments ⊆ s'.poolCommitments) : Sourced derive s' := by
  refine ⟨haccounts ▸ hs.accounts, hcontracts ▸ hs.contracts, fun note hnote => ?_⟩
  rw [hnotes] at hnote
  exact (hs.notes note hnote).mono hkeys hcommitments

theorem Sourced.event (hs : Sourced derive s) (event : ContractEvent) :
    Sourced derive (s.addEvent event) := by
  cases hfind : s.contracts.find? (fun c => c.columns = event.contractId) with
  | some c =>
      have hsame : s.withContract event.contractId = s := by simp [Storage.withContract, hfind]
      unfold Storage.addEvent
      rw [hsame]
      exact hs.grows rfl rfl rfl (List.Subset.refl _) (List.Subset.refl _)
  | none =>
      have hnew : s.withContract event.contractId =
          { s with contracts := Table.insert s.contracts event.contractId } := by
        simp [Storage.withContract, hfind]
      have hfresh : event.contractId ∉ Table.columns s.contracts := by
        intro hmem
        obtain ⟨c, hc, heq⟩ := List.mem_map.mp hmem
        simpa [heq] using List.find?_eq_none.mp hfind c hc
      have hcontracts : (Table.columns (Table.insert s.contracts event.contractId)).Nodup := by
        rw [Table.columns_insert, ← List.concat_eq_append]
        exact hs.contracts.concat hfresh
      unfold Storage.addEvent
      rw [hnew]
      exact ⟨hs.accounts, hcontracts, hs.notes⟩

/-- Matching nullifiers against the notes changes their nullifiers only. -/
theorem mem_foldl_spend (poolContractId : Nat) (nullifiers : List (Nat × Fr)) {note : UserNote}
    (h : note ∈ Table.columns
      (nullifiers.foldl (Storage.spend poolContractId) s).userNotes) :
    ∃ old ∈ Table.columns s.userNotes, ∃ id, note = { old with nullifierId := id } := by
  induction nullifiers generalizing s with
  | nil => exact ⟨note, h, note.nullifierId, rfl⟩
  | cons nullifier nullifiers ih =>
      obtain ⟨mid, hmid, id, rfl⟩ := ih (s := s.spend poolContractId nullifier) h
      obtain ⟨r, hr, rfl⟩ := List.mem_map.mp hmid
      obtain ⟨r₀, hr₀, rfl⟩ := List.mem_map.mp hr
      refine ⟨r₀.columns, Table.mem_columns hr₀, id, ?_⟩
      split <;> rfl

theorem Sourced.settle (hs : Sourced derive s) (poolContractId limit last : Nat) :
    Sourced derive (s.settle poolContractId limit last) := by
  obtain ⟨marks, hframe⟩ := settle_frame s poolContractId limit last
  obtain ⟨notes, hfold⟩ :=
    foldl_spend_frame poolContractId ((s.nullifiersAfter poolContractId last).take limit) s
  have hnotes := fun note => @mem_foldl_spend s poolContractId
    ((s.nullifiersAfter poolContractId last).take limit) note
  rw [hframe]
  rw [hfold] at hnotes ⊢
  refine ⟨hs.accounts, hs.contracts, fun note hnote => ?_⟩
  obtain ⟨old, hold, id, rfl⟩ := hnotes note hnote
  exact hs.notes old hold

/-- Every write keeps the sources. -/
theorem Sourced.write (hs : Sourced derive s) (h : Write derive s s') : Sourced derive s' := by
  cases h with
  | event event => exact hs.event event
  | commitment event h =>
      exact hs.grows rfl rfl rfl (List.Subset.refl _) (List.subset_append_left _ _)
  | account address =>
      refine ⟨?_, hs.contracts, hs.notes⟩
      have haccounts : ((Table.columns s.accounts).map id).Nodup := by simpa using hs.accounts
      show (Table.columns (Table.insertNew id s.accounts address)).Nodup
      rw [Table.columns_insertNew]
      simpa using Table.nodup_addNew (c := address) haccounts
  | keypair keys =>
      refine hs.grows rfl rfl rfl ?_ (List.Subset.refl _)
      show _ ⊆ Table.columns (Table.insert s.keypairs keys)
      rw [Table.columns_insert]
      exact List.subset_append_left _ _
  | note p account row derived haccount hrow hderive =>
      refine ⟨hs.accounts, hs.contracts, fun note hnote => ?_⟩
      have hcases : note ∈ Table.columns s.userNotes ∨
          note = s.scannedNote p account row derived := by simpa using hnote
      rcases hcases with hold | rfl
      · exact (hs.notes note hold).mono (List.Subset.refl _) (List.Subset.refl _)
      · obtain ⟨a, -, hkeys⟩ := mem_accounts.mp haccount
        obtain ⟨k, hk, rfl⟩ := Option.map_eq_some_iff.mp hkeys
        obtain ⟨c, hc, -, rfl⟩ := mem_poolRows.mp hrow
        exact ⟨k, (latestKeypair?_some hk).1, rfl, c, hc, rfl, derived, hderive, rfl, rfl, rfl⟩
  | settle p limit last h => exact hs.settle p limit last
  | _ => exact hs.grows rfl rfl rfl (List.Subset.refl _) (List.Subset.refl _)

theorem Sourced.writes (h : Writes derive Storage.empty s) : Sourced derive s :=
  h.keeps (fun _ _ hs hwrite => hs.write hwrite) Sourced.empty

end Sourced

/-- What a derived note says about its commitment. -/
theorem deriveUserNote_some {box : NoteBox} {account : AccountKeys} {row : PoolCommitmentRow}
    {derived : DerivedUserNoteRow} (h : deriveUserNote box account row = .ok (some derived)) :
    Prover.noteCommitment derived.amount account.noteKeypair.publicKey derived.blinding =
        row.commitment ∧
      derived.expectedNullifier = Prover.noteNullifier account.noteKeypair.privateKey row.commitment
        (indexFr row.leafIndex) := by
  unfold deriveUserNote at h
  obtain ⟨opt, hopt, h⟩ := exists_of_bind_ok h
  cases hnote : decryptOutputNote box account.encryptionKeypair.privateKey row.encryptedOutput with
  | error e =>
      rw [tryDecryptAndDeriveUserNote_error hnote] at hopt
      cases hopt
  | ok note =>
      obtain ⟨found, hfound, hderives⟩ := @tryDecryptAndDeriveUserNote_ok box account.noteKeypair
        account.encryptionKeypair.privateKey row.commitment row.leafIndex row.encryptedOutput note
        hnote
      rw [hfound] at hopt
      cases hopt
      cases hderives with
      | notAddressed => cases h
      | skipped note hopens => cases h
      | found note hopens =>
          cases h
          exact ⟨hopens.2, rfl⟩

/-! ## Runs -/

/-- A call of the client on its database. -/
inductive ClientOp
  | save (events : List ContractEvent)
  | process (limit : UInt32)
  | saveKeys (accountAddress : String) (noteKeypair : NoteKeyPair)
      (encryptionKeypair : EncryptionKeyPair) (membershipBlinding : Fr)
  | scan (totalLimit : UInt32)
  | reconcile (limit : UInt32)

namespace ClientOp

/-- The tables that a call leaves, also when it fails. -/
def after (xdr : Xdr) (box : NoteBox) (s : Storage) : ClientOp → Storage
  | save events => leaves (saveEventsBatch events) s
  | process limit => leaves (processEvents xdr limit) s
  | saveKeys address note encryption blinding =>
      leaves (saveEncryptionAndNoteKeypairs address note encryption blinding) s
  | scan totalLimit => leaves (scanCommitmentsForUserNotes totalLimit (deriveUserNote box)) s
  | reconcile limit => leaves (reconcileNullifiers limit) s

/-- The raw events of the batch. -/
def saved : ClientOp → List ContractEvent
  | save events => events
  | _ => []

end ClientOp

/-- The database after a sequence of calls. -/
def clientRun (xdr : Xdr) (box : NoteBox) (ops : List ClientOp) : Storage :=
  ops.foldl (ClientOp.after xdr box) Storage.empty

/-- A database that was filled from the chain. -/
structure ClientOk (xdr : Xdr) (box : NoteBox) (chain : List ContractEvent) (s : Storage) :
    Prop where
  pipeline : Pipeline xdr s
  stored : s.storedEvents ⊆ chain.map ContractEvent.asRead
  writes : Writes (deriveUserNote box) Storage.empty s

section Run

variable {xdr : Xdr} {box : NoteBox} {chain : List ContractEvent} {s s' : Storage}

/-- Processing is four batches of writes. -/
theorem processEvents_writes (derive : DeriveNoteFn) (xdr : Xdr) (limit : UInt32) (s : Storage) :
    Outcome (processEvents xdr limit) s (fun _ => Writes derive s) (fun _ => Writes derive s) := by
  have hbatch {ε κ : Type} [DecidableEq κ] (T : EventTable ε κ) (events : List ε)
      (hadd : ∀ s event, T.Accepts s event → Write derive s (T.add s event)) {s₁ : Storage}
      (hs₁ : Writes derive s s₁) :
      Outcome (T.saveBatch events) s₁ (fun _ => Writes derive s) (fun _ => Writes derive s) :=
    (T.saveBatch_writes hadd events).imp (fun _ _ h => hs₁.trans h) fun _ _ h => hs₁.trans h
  unfold processEvents
  refine Outcome.get_bind (Outcome.ite (fun _ => .pure .refl) fun _ => ?_)
  refine Outcome.bind (hbatch poolNullifiersTable _ (fun _ e h => .nullifier e h) .refl)
    fun _ s₁ hs₁ => ?_
  refine Outcome.bind (hbatch poolCommitmentsTable _ (fun _ e h => .commitment e h) hs₁)
    fun _ s₂ hs₂ => ?_
  refine Outcome.bind (hbatch publicKeysTable _ (fun _ e h => .publicKey e h) hs₂)
    fun _ s₃ hs₃ => ?_
  refine Outcome.bind (hbatch aspMembershipLeavesTable _ (fun _ e h => .leaf e h) hs₃)
    fun _ s₄ hs₄ => ?_
  exact .pure hs₄

theorem leaves_of_ok {α : Type} {x : Db α} {a : α} (h : x.run s = .ok a s') : leaves x s = s' := by
  unfold leaves
  rw [h]

theorem ClientOk.empty : ClientOk xdr box chain Storage.empty :=
  ⟨.empty xdr, (fun _ he => by cases he), .refl⟩

/-- Calls that leave the chain's part of the database as it is. -/
theorem ClientOk.localRun (hs : ClientOk xdr box chain s)
    (h : LocalRun (deriveUserNote box) s s') : ClientOk xdr box chain s' := by
  obtain ⟨hpipeline, hstored, hwrites⟩ := hs
  refine ⟨?_, ?_, hwrites.trans h.writes⟩
  · obtain ⟨hlinked, hnullifiers, hcommitments, hpublicKeys, hleaves⟩ := hpipeline
    obtain ⟨accounts, keypairs, notes, marks, nmarks, rfl⟩ := h.frame
    exact ⟨⟨hlinked.contracts, hlinked.ids, hlinked.addresses⟩,
      ⟨hnullifiers.valid.congr rfl fun _ hid => hid, hnullifiers.sources⟩,
      ⟨hcommitments.valid.congr rfl fun _ hid => hid, hcommitments.sources⟩,
      ⟨hpublicKeys.valid.congr rfl fun _ hid => hid, hpublicKeys.sources⟩,
      ⟨hleaves.valid.congr rfl fun _ hid => hid, hleaves.sources⟩⟩
  · obtain ⟨accounts, keypairs, notes, marks, nmarks, rfl⟩ := h.frame
    exact hstored

/-- Every call that saves events of the chain only keeps the database filled from it. -/
theorem ClientOk.after (hs : ClientOk xdr box chain s) {op : ClientOp} (hop : op.saved ⊆ chain) :
    ClientOk xdr box chain (op.after xdr box s) := by
  cases op with
  | save events =>
      show ClientOk xdr box chain (leaves (saveEventsBatch events) s)
      rw [leaves_of_ok (saveEventsBatch_run events s)]
      refine ⟨hs.pipeline.addEvents events, ?_, hs.writes.trans (addEvents_writes events)⟩
      rw [hs.pipeline.linked.storedEvents_addEvents]
      intro e he
      rcases Table.mem_or_mem_of_mem_addAllNew he with hold | hnew
      · exact hs.stored hold
      · exact List.map_subset _ hop hnew
  | process limit =>
      have hwrites := leaves_of_outcome (processEvents_writes (deriveUserNote box) xdr limit s)
      show ClientOk xdr box chain (leaves (processEvents xdr limit) s)
      by_cases hnil : getUnprocessedEvents s limit = []
      · rw [leaves_of_ok (processEvents_run_nil hnil)]
        exact hs
      · rw [leaves_of_ok (hs.pipeline.processEvents_run hnil)] at hwrites ⊢
        exact ⟨hs.pipeline.record limit, hs.stored, hs.writes.trans hwrites⟩
  | saveKeys address note encryption blinding =>
      exact hs.localRun (leaves_of_outcome (saveKeys_outcome _ s address note encryption blinding))
  | scan totalLimit =>
      have hordered := (SpentOk.writes hs.writes).commitments.ordered
      have hlocal : ∀ s', ScanRun (deriveUserNote box) s s' → LocalRun (deriveUserNote box) s s' := by
        intro s' hscan
        refine ⟨hscan.writes, ?_⟩
        obtain ⟨notes, marks, rfl⟩ := hscan.frame
        exact ⟨_, _, notes, marks, _, rfl⟩
      exact hs.localRun (leaves_of_outcome ((scan_outcome hordered totalLimit).imp
        (fun _ s' h => hlocal s' h.1) fun _ s' h => hlocal s' h.1))
  | reconcile limit =>
      exact hs.localRun (leaves_of_outcome ((reconcile_outcome _ s limit).imp
        (fun _ _ h => h.1) fun _ _ h => h))

/-- Every run over the chain's events. -/
theorem ClientOk.run {ops : List ClientOp} (hops : ∀ op ∈ ops, op.saved ⊆ chain) :
    ClientOk xdr box chain (clientRun xdr box ops) := by
  have hfold : ∀ s, ClientOk xdr box chain s →
      ClientOk xdr box chain (ops.foldl (ClientOp.after xdr box) s) := by
    induction ops with
    | nil => exact fun s hs => hs
    | cons op ops ih =>
        intro s hs
        exact ih (fun op' hop' => hops op' (List.mem_cons_of_mem op hop')) _
          (hs.after (hops op List.mem_cons_self))
  exact hfold _ .empty

end Run

end PrivatePayments.State
