import PrivatePayments.Lib.Outcome
import PrivatePayments.State.NoteScan
import PrivatePayments.State.StorageSound
import Mathlib.Logic.Relation

/-!
# PrivatePayments.State.Writes

The methods of the local database as sequences of writes.

A method is a few kinds of writes in some order, cut short where it fails. `Write` says once
what each kind may do to the tables and under which checks, and every state a method leaves,
on success and on failure, is reached by writes (`saveBatch_writes` and `saveKeys_outcome` here,
the scan and the reconciliation in their own modules). An invariant of the database is then
one case for each kind.
-/

namespace PrivatePayments.State

/-! ## Rules -/

/-- The tables that a method leaves, also when it fails. -/
def leaves {α : Type} (x : Db α) (s : Storage) : Storage :=
  match x.run s with
  | .ok _ s' => s'
  | .error _ s' => s'

theorem leaves_of_outcome {α : Type} {x : Db α} {s : Storage} {P : Storage → Prop}
    (h : Outcome x s (fun _ => P) (fun _ => P)) : P (leaves x s) := by
  unfold Outcome at h
  unfold leaves
  cases hrun : x.run s with
  | ok a s' =>
      rw [hrun] at h
      exact h
  | error e s' =>
      rw [hrun] at h
      exact h

/-- A transaction needs nothing of the state its body fails in. -/
theorem outcome_transaction {α : Type} {x : Db α} {s : Storage} {Q : α → Storage → Prop}
    {E : String → Storage → Prop} (h : Outcome x s Q fun e _ => E e s) :
    Outcome (transaction x) s Q E := by
  unfold Outcome at h
  cases hrun : x.run s with
  | ok a s' =>
      rw [hrun] at h
      exact (Outcome.of_ok (transaction_of_ok hrun)).mpr h
  | error e s' =>
      rw [hrun] at h
      exact (Outcome.of_error (transaction_of_error hrun)).mpr h

/-! ## Writes -/

/-- The pools behind the rows of a table. -/
theorem mem_poolIds {s : Storage} {poolContractId : Nat} {eventIds : List String} :
    poolContractId ∈ s.poolIds eventIds ↔
      ∃ eventId ∈ eventIds, s.eventContract? eventId = some poolContractId := by
  unfold Storage.poolIds
  rw [Table.orderBy_perm.mem_iff, List.mem_dedup, List.mem_filterMap]

namespace EventTable

variable {ε κ : Type} (T : EventTable ε κ) (s : Storage) (event : ε)

/-- The insert of a derived row meets no constraint. -/
structure Accepts : Prop where
  key : T.key event ∉ (Table.columns (T.rows s)).map T.key
  id : T.eventId event ∉ (Table.columns (T.rows s)).map T.eventId
  raw : T.eventId event ∈ s.rawIds

/-- The tables after the insert of a derived row. -/
def add : Storage := T.put (Table.insert (T.rows s) event) s

end EventTable

/-- A pool that a note's commitment belongs to. -/
def Storage.InPool (s : Storage) (poolContractId : Nat) (note : UserNote) : Prop :=
  ∃ c ∈ s.poolCommitments, c.rowid = note.commitmentId ∧
    s.eventContract? c.columns.id = some poolContractId

/-- The note that the scan stores for a derived commitment. -/
def Storage.scannedNote (s : Storage) (poolContractId : Nat) (account : AccountKeys)
    (row : PoolCommitmentRow) (derived : DerivedUserNoteRow) : UserNote :=
  { id := row.commitment
    accountId := account.accountId
    commitmentId := row.commitmentId
    nullifierId := s.nullifierId? poolContractId derived.expectedNullifier
    expectedNullifier := derived.expectedNullifier
    blinding := derived.blinding
    amount := toString derived.amount.val }

/-- The tables after one nullifier has been matched against the notes. -/
def Storage.spend (poolContractId : Nat) (s : Storage) (nullifier : Nat × Fr) : Storage :=
  { s with
    userNotes := Table.update (s.spentBy poolContractId nullifier.2)
      (fun n => { n with nullifierId := some nullifier.1 }) s.userNotes }

/-- The tables after the reconciliation of a pool whose high-water mark is `last`. -/
def Storage.settle (s : Storage) (poolContractId limit last : Nat) : Storage :=
  let nullifiers := (s.nullifiersAfter poolContractId last).take limit
  let maxId := Table.highWater Prod.fst last nullifiers
  let s' := nullifiers.foldl (Storage.spend poolContractId) s
  if maxId > last then
    { s' with
      nullifierScanState := Table.update (fun m => m.poolContractId = poolContractId)
        (fun m => { m with lastNullifierId := maxId }) s'.nullifierScanState }
  else s'

/-- One write to the tables. -/
inductive Write (derive : DeriveNoteFn) (s : Storage) : Storage → Prop
  | event (event : ContractEvent) : Write derive s (s.addEvent event)
  | commitment (event : NewCommitmentEvent) (h : poolCommitmentsTable.Accepts s event) :
      Write derive s (poolCommitmentsTable.add s event)
  | nullifier (event : NewNullifierEvent) (h : poolNullifiersTable.Accepts s event) :
      Write derive s (poolNullifiersTable.add s event)
  | publicKey (event : PublicKeyEvent) (h : publicKeysTable.Accepts s event) :
      Write derive s (publicKeysTable.add s event)
  | leaf (event : LeafAddedEvent) (h : aspMembershipLeavesTable.Accepts s event) :
      Write derive s (aspMembershipLeavesTable.add s event)
  | account (address : String) :
      Write derive s { s with accounts := Table.insertNew id s.accounts address }
  | keypair (keys : KeypairColumns) :
      Write derive s { s with keypairs := Table.insert s.keypairs keys }
  | scanMarks (marks : Table AccountCommitmentScan) :
      Write derive s { s with accountCommitmentScan := marks }
  | note (poolContractId : Nat) (account : AccountKeys) (row : PoolCommitmentRow)
      (derived : DerivedUserNoteRow) (haccount : account ∈ getAccountsWithLatestKeypairs s)
      (hrow : row ∈ s.poolRows poolContractId) (hderive : derive account row = .ok (some derived)) :
      Write derive s
        { s with
          userNotes := Table.insert s.userNotes (s.scannedNote poolContractId account row derived) }
  | nullifierScanRow (poolContractId : Nat) (h : s.nullifierMark? poolContractId = none) :
      Write derive s
        { s with nullifierScanState := Table.insert s.nullifierScanState ⟨poolContractId, 0⟩ }
  | settle (poolContractId limit last : Nat) (h : s.nullifierMark? poolContractId = some last) :
      Write derive s (s.settle poolContractId limit last)

/-- Any number of writes. -/
abbrev Writes (derive : DeriveNoteFn) : Storage → Storage → Prop :=
  Relation.ReflTransGen (Write derive)

/-- An invariant of every write is one of every sequence of writes. -/
theorem Writes.keeps {derive : DeriveNoteFn} {P : Storage → Prop}
    (hwrite : ∀ s s', P s → Write derive s s' → P s') {s s' : Storage}
    (h : Writes derive s s') (hs : P s) : P s' := by
  induction h with
  | refl => exact hs
  | tail _ hlast ih => exact hwrite _ _ ih hlast

/-- Writes that leave what comes from the chain as it is. -/
structure LocalRun (derive : DeriveNoteFn) (s s' : Storage) : Prop where
  writes : Writes derive s s'
  frame : ∃ accounts keypairs notes scanMarks nullifierMarks,
    s' = { s with
      accounts := accounts, keypairs := keypairs, userNotes := notes,
      accountCommitmentScan := scanMarks, nullifierScanState := nullifierMarks }

section LocalRun

variable {derive : DeriveNoteFn} {s s' s'' : Storage}

theorem LocalRun.refl (derive : DeriveNoteFn) (s : Storage) : LocalRun derive s s :=
  ⟨.refl, _, _, _, _, _, rfl⟩

theorem LocalRun.trans (h : LocalRun derive s s') (h' : LocalRun derive s' s'') :
    LocalRun derive s s'' := by
  refine ⟨h.writes.trans h'.writes, ?_⟩
  obtain ⟨accounts, keypairs, notes, marks, nmarks, rfl⟩ := h.frame
  obtain ⟨accounts', keypairs', notes', marks', nmarks', rfl⟩ := h'.frame
  exact ⟨accounts', keypairs', notes', marks', nmarks', rfl⟩

end LocalRun

section Saves

variable {derive : DeriveNoteFn} {s : Storage}

theorem addEvents_writes (events : List ContractEvent) : Writes derive s (s.addEvents events) := by
  induction events generalizing s with
  | nil => exact .refl
  | cons e events ih => exact .head (.event e) ih

/-- A batch of raw events. -/
theorem saveEvents_writes (events : List ContractEvent) :
    Outcome (saveEventsBatch events) s (fun _ => Writes derive s) (fun _ => Writes derive s) :=
  (Outcome.of_ok (saveEventsBatch_run events s)).mpr (addEvents_writes events)

namespace EventTable

variable {ε κ : Type} [DecidableEq κ] {T : EventTable ε κ}

/-- An insert fails, does nothing, or adds an accepted row. -/
theorem insertRow_outcome (event : ε) (s : Storage) :
    Outcome (T.insertRow event) s
      (fun _ s' => s' = s ∨ (T.Accepts s event ∧ s' = T.add s event)) (fun _ _ => True) := by
  unfold insertRow
  refine Outcome.get_bind ?_
  refine Outcome.ite (fun _ => .pure (.inl rfl)) fun hkey => ?_
  refine Outcome.ite (fun _ => .throw trivial) fun hid => ?_
  refine Outcome.ite (fun _ => .throw trivial) fun hraw => ?_
  exact .set (.inr ⟨⟨hkey, hid, not_not.mp hraw⟩, rfl⟩)

/-- A batch keeps what every accepted row keeps. -/
theorem saveBatch_keeps {P : Storage → Prop}
    (hadd : ∀ s event, P s → T.Accepts s event → P (T.add s event)) (events : List ε)
    (hs : P s) : Outcome (T.saveBatch events) s (fun _ => P) (fun _ => P) := by
  refine outcome_transaction (Outcome.imp (Q := fun _ => P) (E := fun _ _ => True) ?_
    (fun _ _ h => h) fun _ _ _ => hs)
  refine Outcome.forM (I := fun _ => P) ?_ events s hs
  intro event _ s₁ hs₁
  refine (insertRow_outcome event s₁).imp (fun _ s₂ hs₂ => ?_) fun _ _ _ => trivial
  rcases hs₂ with rfl | ⟨haccepts, rfl⟩
  · exact hs₁
  · exact hadd s₁ event hs₁ haccepts

/-- A batch of derived rows, of a table whose rows are written one by one. -/
theorem saveBatch_writes
    (hadd : ∀ s event, T.Accepts s event → Write derive s (T.add s event)) (events : List ε) :
    Outcome (T.saveBatch events) s (fun _ => Writes derive s) (fun _ => Writes derive s) :=
  T.saveBatch_keeps (fun s₁ event hs₁ haccepts => hs₁.tail (hadd s₁ event haccepts)) events .refl

end EventTable

end Saves

/-! ## Keys -/

/-- Saving the keys of an account. -/
theorem saveKeys_outcome (derive : DeriveNoteFn) (s : Storage) (accountAddress : String)
    (noteKeypair : NoteKeyPair) (encryptionKeypair : EncryptionKeyPair) (membershipBlinding : Fr) :
    Outcome (saveEncryptionAndNoteKeypairs accountAddress noteKeypair encryptionKeypair
      membershipBlinding) s (fun _ => LocalRun derive s) (fun _ => LocalRun derive s) := by
  refine outcome_transaction (E := fun _ => LocalRun derive s) ?_
  have haccount : Outcome (getOrCreateAccount accountAddress) s
      (fun _ s' => LocalRun derive s s') (fun _ _ => LocalRun derive s s) := by
    unfold getOrCreateAccount
    refine Outcome.bind (.modify (Q := fun _ => LocalRun derive s)
      ⟨.single (.account _), _, _, _, _, _, rfl⟩) fun _ s₁ hs₁ => Outcome.get_bind ?_
    split
    · exact .pure hs₁
    · exact .throw (.refl derive s)
  refine Outcome.bind haccount fun _ s₁ hs₁ => .modify (hs₁.trans ?_)
  exact ⟨.single (.keypair _), _, _, _, _, _, rfl⟩

end PrivatePayments.State
