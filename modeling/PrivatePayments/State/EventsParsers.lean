import PrivatePayments.State.Storage

/-!
# PrivatePayments.State.EventsParsers

Contract events from the wire (`stellar/src/conversions.rs`, `state/src/events_parsers.rs`):
the topics and the value are decoded from base64 XDR, the first topic names the event, and
each kind of event reads its own fields.

The XDR library decodes base64 and symbols and prints addresses; it is the parameter `Xdr`.
Only the variants of an `ScVal` that a parser tells apart are kept. A message that quotes
the debug form of a value leaves the value out.
-/

namespace PrivatePayments.State

/-- `UInt256Parts`: four limbs, the most significant first. -/
structure UInt256Parts where
  hiHi : UInt64
  hiLo : UInt64
  loHi : UInt64
  loLo : UInt64
  deriving DecidableEq, Repr

/-- `ScAddress`; the unsupported kinds are one. -/
inductive ScAddress
  | account (publicKey : Bytes32)
  | contract (id : Bytes32)
  | other

/-- `ScVal`; the variants that no parser accepts are one. A symbol is its bytes. -/
inductive ScVal
  | void
  | u32 (n : UInt32)
  | u64 (n : UInt64)
  | u256 (parts : UInt256Parts)
  | bytes (content : List UInt8)
  | symbol (content : List UInt8)
  | map (entries : Option (List (ScVal × ScVal)))
  | address (a : ScAddress)
  | other

/-- What is used of the XDR and key-encoding libraries. -/
structure Xdr where
  /-- `ScVal::from_xdr_base64` -/
  fromXdrBase64 : String → Except String ScVal
  /-- `ScSymbol::to_utf8_string` -/
  toUtf8String : List UInt8 → Except String String
  /-- `ed25519::PublicKey::to_string` -/
  publicKeyString : Bytes32 → String
  /-- `stellar_strkey::Contract::to_string` -/
  contractString : Bytes32 → String

/-! ## Conversions -/

/-- `scval_to_address_string` -/
def scvalToAddressString (xdr : Xdr) : ScVal → Except String String
  | .address (.account publicKey) => .ok (xdr.publicKeyString publicKey)
  | .address (.contract id) => .ok (xdr.contractString id)
  | .address .other => .error "Unsupported Address type"
  | _ => .error "unexpected ScVal"

/-- `scval_to_bytes` -/
def scvalToBytes : ScVal → Except String (List UInt8)
  | .bytes content => .ok content
  | _ => .error "Expected ScVal::Bytes"

/-- `U256::checked_add` -/
def U256.checkedAdd (a b : U256) : Option U256 :=
  if a.val + b.val < u256Size then some (a + b) else none

/-- `Shl::shl` of a limb. -/
def U256.shl (limb : UInt64) (bits : Nat) : U256 := Fin.ofNat u256Size (limb.toNat <<< bits)

/-- `ok_or_else` -/
def okOrElse {α : Type} (o : Option α) (message : String) : Except String α :=
  match o with
  | some a => .ok a
  | none => .error message

/-- `scval_to_u256` -/
def scvalToU256 : ScVal → Except String U256
  | .u256 parts => do
      let out := U256.shl parts.hiHi 192
      let out ← okOrElse (U256.checkedAdd out (U256.shl parts.hiLo 128)) "U256 overflow (hi_lo)"
      let out ← okOrElse (U256.checkedAdd out (U256.shl parts.loHi 64)) "U256 overflow (lo_hi)"
      okOrElse (U256.checkedAdd out (U256.shl parts.loLo 0)) "U256 overflow (lo_lo)"
  | _ => .error "unexpected ScVal"

/-- `scval_to_u32` -/
def scvalToU32 : ScVal → Except String UInt32
  | .u32 n => .ok n
  | _ => .error "unexpected ScVal"

/-- `scval_to_u64` -/
def scvalToU64 : ScVal → Except String UInt64
  | .u64 n => .ok n
  | _ => .error "unexpected ScVal"

/-- `Field::try_from_u256` -/
def fieldTryFromU256 (v : U256) : Except String Fr :=
  if h : v.val < bn256Modulus then .ok ⟨v.val, h⟩ else .error "field element out of range"

/-- `u32::try_from` of a `u64`. -/
def u32TryFromU64 (n : UInt64) : Except String UInt32 :=
  if n.toNat < UInt32.size then .ok (UInt32.ofNat n.toNat)
  else .error "out of range integral type conversion attempted"

/-- `TryFrom<Vec<u8>>` of a key type. -/
def keyTryFrom (name : String) (bytes : List UInt8) : Except String Bytes32 :=
  if h : bytes.length = 32 then .ok ⟨bytes, h⟩
  else .error s!"{name}: Invalid length. Expected 32, got {bytes.length}"

/-! ## Metadata -/

/-- `ParsedContractEvent`; of the values with one name the first in the list counts. -/
structure ParsedContractEvent where
  id : String
  ledger : UInt32
  contractId : String
  name : String
  topics : List ScVal
  values : List (String × ScVal)

/-- The loop over the entries of an event's data; a name that comes again replaces the
value. -/
def collectValues (xdr : Xdr) :
    List (ScVal × ScVal) → List (String × ScVal) → Except String (List (String × ScVal))
  | [], values => .ok values
  | (.symbol content, val) :: entries, values => do
      let fieldName ← xdr.toUtf8String content
      collectValues xdr entries ((fieldName, val) :: values)
  | _ :: _, _ => .error "event data field name should be a symbol"

/-- The name of an event: its first topic, a symbol. -/
def eventName (xdr : Xdr) (first : String) : Except String String := do
  let scval ← xdr.fromXdrBase64 first
  match scval with
  | .symbol content => xdr.toUtf8String content
  | _ => .error "the first topic of an event should be a symbol"

/-- The data of an event: a map from field names, or nothing. -/
def eventValues (xdr : Xdr) (value : String) : Except String (List (String × ScVal)) := do
  let data ← xdr.fromXdrBase64 value
  match data with
  | .map (some entries) => collectValues xdr entries []
  | .void => .ok []
  | _ => .error "an event data format should be a map"

/-- `parse_event_metadata` -/
def parseEventMetadata (xdr : Xdr) (event : ContractEvent) :
    Except String ParsedContractEvent := do
  let first ← okOrElse event.topics.head? "xdr value invalid"
  let topics ← event.topics.tail.mapM xdr.fromXdrBase64
  let name ← eventName xdr first
  let values ← eventValues xdr event.value
  return { id := event.id, ledger := event.ledger, contractId := event.contractId,
           name, topics, values }

namespace ParsedContractEvent

/-- The first topic after the name. -/
def topic (parsed : ParsedContractEvent) (what : String) : Except String ScVal :=
  okOrElse parsed.topics.head?
    s!"event `{parsed.name}` id {parsed.id} should have a {what} topic value"

/-- A field of the event data. -/
def value (parsed : ParsedContractEvent) (field : String) : Except String ScVal :=
  okOrElse (parsed.values.lookup field)
    s!"event `{parsed.name}` id {parsed.id} should have an {field} value"

/-- A field of the event data that is a canonical field element. -/
def fieldValue (parsed : ParsedContractEvent) (field : String) : Except String Fr := do
  let scval ← parsed.value field
  fieldTryFromU256 (← scvalToU256 scval)

end ParsedContractEvent

/-! ## Events -/

/-- `LeafInsertedEvent` -/
structure LeafInsertedEvent where
  id : String
  key : Fr
  value : Fr
  root : Fr
  deriving DecidableEq, Repr

/-- `LeafUpdatedEvent` -/
structure LeafUpdatedEvent where
  id : String
  key : Fr
  oldValue : Fr
  newValue : Fr
  root : Fr
  deriving DecidableEq, Repr

/-- `LeafDeletedEvent` -/
structure LeafDeletedEvent where
  id : String
  key : Fr
  root : Fr
  deriving DecidableEq, Repr

/-- `ProcessedEvent` -/
inductive ProcessedEvent
  | nullifier (ev : NewNullifierEvent)
  | commitment (ev : NewCommitmentEvent)
  | publicKey (ev : PublicKeyEvent)
  | leafAdded (ev : LeafAddedEvent)
  | leafInserted (ev : LeafInsertedEvent)
  | leafUpdated (ev : LeafUpdatedEvent)
  | leafDeleted (ev : LeafDeletedEvent)
  deriving DecidableEq, Repr

/-- `parse_new_nullifier_event` -/
def parseNewNullifierEvent (parsed : ParsedContractEvent) : Except String NewNullifierEvent := do
  let nullifierScval ← parsed.topic "nullifier"
  let nullifier ← fieldTryFromU256 (← scvalToU256 nullifierScval)
  return { id := parsed.id, nullifier }

/-- `parse_new_commitment_event` -/
def parseNewCommitmentEvent (parsed : ParsedContractEvent) :
    Except String NewCommitmentEvent := do
  let commitmentScval ← parsed.topic "commitment"
  let commitment ← fieldTryFromU256 (← scvalToU256 commitmentScval)
  let indexScval ← parsed.value "index"
  let index ← scvalToU32 indexScval
  let encryptedOutputScval ← parsed.value "encrypted_output"
  let encryptedOutput ← scvalToBytes encryptedOutputScval
  return { id := parsed.id, commitment, index, encryptedOutput }

/-- `parse_public_key_event` -/
def parsePublicKeyEvent (xdr : Xdr) (parsed : ParsedContractEvent) :
    Except String PublicKeyEvent := do
  let ownerScval ← parsed.topic "owner"
  let owner ← scvalToAddressString xdr ownerScval
  let encryptionKeyScval ← parsed.value "encryption_key"
  let encryptionKey ← keyTryFrom "EncryptionPublicKey" (← scvalToBytes encryptionKeyScval)
  let noteKeyScval ← parsed.value "note_key"
  let noteKey ← keyTryFrom "NotePublicKey" (← scvalToBytes noteKeyScval)
  return { id := parsed.id, owner, encryptionKey, noteKey }

/-- `parse_leaf_added` -/
def parseLeafAdded (parsed : ParsedContractEvent) : Except String LeafAddedEvent := do
  let leaf ← parsed.fieldValue "leaf"
  let indexScval ← parsed.value "index"
  let index ← u32TryFromU64 (← scvalToU64 indexScval)
  let root ← parsed.fieldValue "root"
  return { id := parsed.id, leaf, index, root }

/-- `parse_leaf_inserted` -/
def parseLeafInserted (parsed : ParsedContractEvent) : Except String LeafInsertedEvent := do
  let key ← parsed.fieldValue "key"
  let value ← parsed.fieldValue "value"
  let root ← parsed.fieldValue "root"
  return { id := parsed.id, key, value, root }

/-- `parse_leaf_updated` -/
def parseLeafUpdated (parsed : ParsedContractEvent) : Except String LeafUpdatedEvent := do
  let key ← parsed.fieldValue "key"
  let oldValue ← parsed.fieldValue "old_value"
  let newValue ← parsed.fieldValue "new_value"
  let root ← parsed.fieldValue "root"
  return { id := parsed.id, key, oldValue, newValue, root }

/-- `parse_leaf_deleted` -/
def parseLeafDeleted (parsed : ParsedContractEvent) : Except String LeafDeletedEvent := do
  let key ← parsed.fieldValue "key"
  let root ← parsed.fieldValue "root"
  return { id := parsed.id, key, root }

/-- The parser that an event name selects, snake case or camel case. -/
def parseNamed (xdr : Xdr) (parsed : ParsedContractEvent) : Except String ProcessedEvent :=
  if parsed.name ∈ ["new_nullifier_event", "NewNullifierEvent"] then
    .nullifier <$> parseNewNullifierEvent parsed
  else if parsed.name ∈ ["new_commitment_event", "NewCommitmentEvent"] then
    .commitment <$> parseNewCommitmentEvent parsed
  else if parsed.name ∈ ["public_key_event", "PublicKeyEvent"] then
    .publicKey <$> parsePublicKeyEvent xdr parsed
  else if parsed.name ∈ ["leaf_added", "LeafAdded"] then
    .leafAdded <$> parseLeafAdded parsed
  else if parsed.name ∈ ["leaf_inserted", "LeafInserted"] then
    .leafInserted <$> parseLeafInserted parsed
  else if parsed.name ∈ ["leaf_updated", "LeafUpdated"] then
    .leafUpdated <$> parseLeafUpdated parsed
  else if parsed.name ∈ ["leaf_deleted", "LeafDeleted"] then
    .leafDeleted <$> parseLeafDeleted parsed
  else .error s!"unhandled event {parsed.name}"

/-- `parse_event` -/
def parseEvent (xdr : Xdr) (event : ContractEvent) : Except String ProcessedEvent := do
  let parsed ← parseEventMetadata xdr event
  parseNamed xdr parsed

/-- The id of the event that was parsed. -/
def ProcessedEvent.id : ProcessedEvent → String
  | nullifier ev => ev.id
  | commitment ev => ev.id
  | publicKey ev => ev.id
  | leafAdded ev => ev.id
  | leafInserted ev => ev.id
  | leafUpdated ev => ev.id
  | leafDeleted ev => ev.id

/-! ## Parsing keeps the event id -/

/-- What `x` returns, if it returns, has the property. -/
def Yields {α : Type} (x : Except String α) (P : α → Prop) : Prop := ∀ a, x = .ok a → P a

namespace Yields

variable {α β : Type} {x : Except String α} {f : α → Except String β} {P : β → Prop}

theorem bind (h : ∀ a, Yields (f a) P) : Yields (x >>= f) P := by
  intro b hb
  cases x with
  | error e => cases hb
  | ok a => exact h a b hb

theorem pure {b : β} (h : P b) : Yields (Pure.pure b) P := by
  intro b' hb
  cases hb
  exact h

theorem map {g : α → β} (h : Yields x fun a => P (g a)) : Yields (g <$> x) P := by
  intro b hb
  cases x with
  | error e => cases hb
  | ok a =>
      cases hb
      exact h a rfl

theorem error {e : String} : Yields (.error e : Except String β) P := fun _ h => by cases h

end Yields

theorem parseEventMetadata_id (xdr : Xdr) (event : ContractEvent) :
    Yields (parseEventMetadata xdr event) fun parsed => parsed.id = event.id :=
  .bind fun _ => .bind fun _ => .bind fun _ => .bind fun _ => .pure rfl

theorem parseNewNullifierEvent_id (parsed : ParsedContractEvent) :
    Yields (parseNewNullifierEvent parsed) fun ev => ev.id = parsed.id :=
  .bind fun _ => .bind fun _ => .bind fun _ => .pure rfl

theorem parseNewCommitmentEvent_id (parsed : ParsedContractEvent) :
    Yields (parseNewCommitmentEvent parsed) fun ev => ev.id = parsed.id :=
  .bind fun _ => .bind fun _ => .bind fun _ => .bind fun _ => .bind fun _ => .bind fun _ =>
    .bind fun _ => .pure rfl

theorem parsePublicKeyEvent_id (xdr : Xdr) (parsed : ParsedContractEvent) :
    Yields (parsePublicKeyEvent xdr parsed) fun ev => ev.id = parsed.id :=
  .bind fun _ => .bind fun _ => .bind fun _ => .bind fun _ => .bind fun _ => .bind fun _ =>
    .bind fun _ => .bind fun _ => .pure rfl

theorem parseLeafAdded_id (parsed : ParsedContractEvent) :
    Yields (parseLeafAdded parsed) fun ev => ev.id = parsed.id :=
  .bind fun _ => .bind fun _ => .bind fun _ => .bind fun _ => .bind fun _ => .pure rfl

theorem parseLeafInserted_id (parsed : ParsedContractEvent) :
    Yields (parseLeafInserted parsed) fun ev => ev.id = parsed.id :=
  .bind fun _ => .bind fun _ => .bind fun _ => .pure rfl

theorem parseLeafUpdated_id (parsed : ParsedContractEvent) :
    Yields (parseLeafUpdated parsed) fun ev => ev.id = parsed.id :=
  .bind fun _ => .bind fun _ => .bind fun _ => .bind fun _ => .pure rfl

theorem parseLeafDeleted_id (parsed : ParsedContractEvent) :
    Yields (parseLeafDeleted parsed) fun ev => ev.id = parsed.id :=
  .bind fun _ => .bind fun _ => .pure rfl

theorem parseNamed_id (xdr : Xdr) (parsed : ParsedContractEvent) :
    Yields (parseNamed xdr parsed) fun p => p.id = parsed.id := by
  unfold parseNamed
  split_ifs
  · exact .map (parseNewNullifierEvent_id parsed)
  · exact .map (parseNewCommitmentEvent_id parsed)
  · exact .map (parsePublicKeyEvent_id xdr parsed)
  · exact .map (parseLeafAdded_id parsed)
  · exact .map (parseLeafInserted_id parsed)
  · exact .map (parseLeafUpdated_id parsed)
  · exact .map (parseLeafDeleted_id parsed)
  · exact .error

/-- What is parsed carries the id of its raw event. -/
theorem parseEvent_id {xdr : Xdr} {event : ContractEvent} {p : ProcessedEvent}
    (h : parseEvent xdr event = .ok p) : p.id = event.id := by
  cases hmeta : parseEventMetadata xdr event with
  | error e =>
      rw [parseEvent, hmeta] at h
      cases h
  | ok parsed =>
      rw [parseEvent, hmeta] at h
      rw [parseNamed_id xdr parsed p h, parseEventMetadata_id xdr event parsed hmeta]

end PrivatePayments.State
