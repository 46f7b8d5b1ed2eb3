import PrivatePayments.State.EventsParsers
import PrivatePayments.State.StorageSound

/-!
# PrivatePayments.State.Processor

One call of `process_events` (`state/src/processor.rs`): fetch raw events that no derived
table refers to, parse them from the last to the first, and save what was parsed in four
batches. An event that does not parse, or that no table is for, is logged and skipped.

The four kinds of stored events are treated alike through `EventKind`.
-/

namespace PrivatePayments.State

/-- What was parsed of one fetch. -/
structure ParsedBatch where
  nullifiers : List NewNullifierEvent
  commitments : List NewCommitmentEvent
  pubkeys : List PublicKeyEvent
  leaves : List LeafAddedEvent

/-- The `match` on a parsed event. -/
def ParsedBatch.push (batch : ParsedBatch) : ProcessedEvent → ParsedBatch
  | .nullifier ev => { batch with nullifiers := batch.nullifiers ++ [ev] }
  | .commitment ev => { batch with commitments := batch.commitments ++ [ev] }
  | .publicKey ev => { batch with pubkeys := batch.pubkeys ++ [ev] }
  | .leafAdded ev => { batch with leaves := batch.leaves ++ [ev] }
  | _ => batch

/-- The loop body: a parse error is logged. -/
def ParsedBatch.add (xdr : Xdr) (batch : ParsedBatch) (event : ContractEvent) : ParsedBatch :=
  match parseEvent xdr event with
  | .ok parsed => batch.push parsed
  | .error _ => batch

/-- `while let Some(event) = unprocessed.pop()` -/
def parseUnprocessed (xdr : Xdr) (unprocessed : List ContractEvent) : ParsedBatch :=
  unprocessed.reverse.foldl (ParsedBatch.add xdr) ⟨[], [], [], []⟩

/-- `process_events` -/
def processEvents (xdr : Xdr) (limit : UInt32) : Db Bool := do
  let s ← get
  let unprocessed := getUnprocessedEvents s limit
  if unprocessed.isEmpty then pure false
  else do
    let batch := parseUnprocessed xdr unprocessed
    saveNullifierEventsBatch batch.nullifiers
    saveCommitmentEventsBatch batch.commitments
    savePublicKeyEventsBatch batch.pubkeys
    saveLeafAddedEventsBatch batch.leaves
    pure true

/-! ## Kinds of events -/

/-- The kinds that have a table. -/
def ProcessedEvent.Stored : ProcessedEvent → Prop
  | nullifier _ | commitment _ | publicKey _ | leafAdded _ => True
  | leafInserted _ | leafUpdated _ | leafDeleted _ => False

/-- A parsed event is in its table. -/
def Recorded (s : Storage) : ProcessedEvent → Prop
  | .nullifier ev => ev ∈ Table.columns s.poolNullifiers
  | .commitment ev => ev ∈ Table.columns s.poolCommitments
  | .publicKey ev => ev ∈ Table.columns s.publicKeys
  | .leafAdded ev => ev ∈ Table.columns s.aspMembershipLeaves
  | _ => False

/-- A kind of stored event: its table, and its part of a parsed batch. -/
structure EventKind (ε κ : Type) extends EventTable ε κ where
  select : ProcessedEvent → Option ε
  batch : ParsedBatch → List ε
  select_id : ∀ p ev, select p = some ev → eventId ev = p.id
  batch_nil : batch ⟨[], [], [], []⟩ = []
  batch_push : ∀ b p, batch (b.push p) = batch b ++ (select p).toList
  recorded_iff : ∀ s p ev, select p = some ev → (Recorded s p ↔ ev ∈ Table.columns (rows s))

/-- Spent nullifiers. -/
def nullifierKind : EventKind NewNullifierEvent Fr where
  toEventTable := poolNullifiersTable
  select
    | .nullifier ev => some ev
    | _ => none
  batch := ParsedBatch.nullifiers
  select_id p ev h := by cases p <;> cases h; rfl
  batch_nil := rfl
  batch_push b p := by cases p <;> simp [ParsedBatch.push]
  recorded_iff s p ev h := by cases p <;> cases h; exact Iff.rfl

/-- Commitments. -/
def commitmentKind : EventKind NewCommitmentEvent Fr where
  toEventTable := poolCommitmentsTable
  select
    | .commitment ev => some ev
    | _ => none
  batch := ParsedBatch.commitments
  select_id p ev h := by cases p <;> cases h; rfl
  batch_nil := rfl
  batch_push b p := by cases p <;> simp [ParsedBatch.push]
  recorded_iff s p ev h := by cases p <;> cases h; exact Iff.rfl

/-- Registered public keys. -/
def publicKeyKind : EventKind PublicKeyEvent String where
  toEventTable := publicKeysTable
  select
    | .publicKey ev => some ev
    | _ => none
  batch := ParsedBatch.pubkeys
  select_id p ev h := by cases p <;> cases h; rfl
  batch_nil := rfl
  batch_push b p := by cases p <;> simp [ParsedBatch.push]
  recorded_iff s p ev h := by cases p <;> cases h; exact Iff.rfl

/-- Leaves of the membership tree. -/
def leafKind : EventKind LeafAddedEvent UInt32 where
  toEventTable := aspMembershipLeavesTable
  select
    | .leafAdded ev => some ev
    | _ => none
  batch := ParsedBatch.leaves
  select_id p ev h := by cases p <;> cases h; rfl
  batch_nil := rfl
  batch_push b p := by cases p <;> simp [ParsedBatch.push]
  recorded_iff s p ev h := by cases p <;> cases h; exact Iff.rfl

/-- Every stored event is of one of the four kinds. -/
theorem ProcessedEvent.Stored.kind {p : ProcessedEvent} (h : p.Stored) :
    (∃ ev, nullifierKind.select p = some ev) ∨ (∃ ev, commitmentKind.select p = some ev) ∨
      (∃ ev, publicKeyKind.select p = some ev) ∨ ∃ ev, leafKind.select p = some ev := by
  cases p with
  | nullifier ev => exact .inl ⟨ev, rfl⟩
  | commitment ev => exact .inr (.inl ⟨ev, rfl⟩)
  | publicKey ev => exact .inr (.inr (.inl ⟨ev, rfl⟩))
  | leafAdded ev => exact .inr (.inr (.inr ⟨ev, rfl⟩))
  | leafInserted ev | leafUpdated ev | leafDeleted ev => exact h.elim

theorem Recorded.stored {s : Storage} {p : ProcessedEvent} (h : Recorded s p) : p.Stored := by
  cases p <;> trivial

namespace EventKind

variable {ε κ : Type} (K : EventKind ε κ)

/-- The row that a raw event parses to, if it is of this kind. -/
def parse (xdr : Xdr) (event : ContractEvent) : Option ε :=
  match parseEvent xdr event with
  | .ok parsed => K.select parsed
  | .error _ => none

/-- The ids that the table refers to. -/
def ids (s : Storage) : List String := (Table.columns (K.rows s)).map K.eventId

variable {K} {xdr : Xdr} {event : ContractEvent} {row : ε}

theorem parse_eq_some : K.parse xdr event = some row ↔
    ∃ p, parseEvent xdr event = .ok p ∧ K.select p = some row := by
  unfold parse
  cases parseEvent xdr event with
  | error e => simp
  | ok p => simp

theorem eventId_of_parse (h : K.parse xdr event = some row) : K.eventId row = event.id := by
  obtain ⟨p, hp, hrow⟩ := parse_eq_some.mp h
  rw [K.select_id p row hrow, parseEvent_id hp]

/-- The part of a parsed fetch that is of this kind. -/
theorem batch_parseUnprocessed (unprocessed : List ContractEvent) :
    K.batch (parseUnprocessed xdr unprocessed) =
      unprocessed.reverse.filterMap (K.parse xdr) := by
  have hloop : ∀ (events : List ContractEvent) (batch : ParsedBatch),
      K.batch (events.foldl (ParsedBatch.add xdr) batch) =
        K.batch batch ++ events.filterMap (K.parse xdr) := by
    intro events
    induction events with
    | nil => intro batch; simp
    | cons e events ih =>
        intro batch
        rw [List.foldl_cons, ih, List.filterMap_cons, ParsedBatch.add, parse]
        cases parseEvent xdr e with
        | error _ => rfl
        | ok p =>
            rw [K.batch_push]
            cases hp : K.select p <;> simp [hp]
  rw [parseUnprocessed, hloop, K.batch_nil, List.nil_append]

/-- The ids of the rows are ids of the events, in their order. -/
theorem ids_sublist (K : EventKind ε κ) (xdr : Xdr) (events : List ContractEvent) :
    ((events.filterMap (K.parse xdr)).map K.eventId).Sublist (events.map ContractEvent.id) := by
  induction events with
  | nil => exact List.Sublist.refl _
  | cons e events ih =>
      cases h : K.parse xdr e with
      | none =>
          rw [List.filterMap_cons_none h, List.map_cons]
          exact ih.cons _
      | some row =>
          rw [List.filterMap_cons_some h, List.map_cons, List.map_cons, eventId_of_parse h]
          exact ih.cons_cons _

end EventKind

end PrivatePayments.State
