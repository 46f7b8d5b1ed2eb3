import PrivatePayments.Prover.Groth16
import PrivatePayments.Prover.CircuitInputs

/-!
# PrivatePayments.Disclosure.Receipt

The disclosure receipt and its schema (`types/src/disclosure.rs`), with the hexadecimal strings
and field elements it is made of (`types/src/lib.rs`, `types/src/amounts.rs`).

A receipt arrives as JSON, where a field element is a string. `DisclosureReceipt String` is
such a document and `DisclosureReceipt U256` is the receipt that it is read as: `Field` is a
`U256`, and only its parser rejects numbers from the modulus on.
-/

namespace PrivatePayments.Disclosure

open Prover (hexByte fieldTryFromLeBytes)

/-! ## Strings -/

/-- A `String`; its bytes fit in memory, so their number is below `isize::MAX`. -/
abbrev RustString := { s : String // s.utf8ByteSize < 2 ^ 63 }

/-- `as_bytes` -/
def asBytes (s : String) : List UInt8 := s.toByteArray.data.toList

theorem asBytes_ofList (l : List Char) :
    asBytes (String.ofList l) = l.flatMap String.utf8EncodeChar := by
  simp [asBytes, List.utf8Encode]

/-- `strip_prefix("0x")` -/
def stripPrefix0x (s : String) : Option String :=
  match s.toList with
  | '0' :: 'x' :: rest => some (String.ofList rest)
  | _ => none

/-- `hex::encode` -/
def hexEncode (bytes : List UInt8) : String := String.ofList (bytes.flatMap hexByte)

/-- `FromHexError` -/
inductive FromHexError
  | invalidHexCharacter (c : UInt8) (index : Nat)
  | oddLength
  | invalidStringLength
  deriving DecidableEq

/-- A byte as a character, the way `Debug` writes it. -/
def debugChar (c : UInt8) : String :=
  let text :=
    if c = 0 then "\\0"
    else if c = 9 then "\\t"
    else if c = 10 then "\\n"
    else if c = 13 then "\\r"
    else if c = 39 ∨ c = 92 then String.ofList ['\\', Char.ofNat c.toNat]
    else if c < 32 ∨ (127 ≤ c ∧ c ≤ 160) ∨ c = 173 then
      String.ofList ("\\u".toList ++ [Char.ofNat 123] ++ Nat.toDigits 16 c.toNat ++ [Char.ofNat 125])
    else String.ofList [Char.ofNat c.toNat]
  "'" ++ text ++ "'"

/-- `FromHexError` as text -/
def FromHexError.text : FromHexError → String
  | .invalidHexCharacter c index => s!"Invalid character {debugChar c} at position {index}"
  | .oddLength => "Odd number of digits"
  | .invalidStringLength => "Invalid string length"

/-- `hex::val` -/
def hexVal (c : UInt8) (index : Nat) : Except FromHexError UInt8 :=
  if 65 ≤ c ∧ c ≤ 70 then .ok (c - 65 + 10)
  else if 97 ≤ c ∧ c ≤ 102 then .ok (c - 97 + 10)
  else if 48 ≤ c ∧ c ≤ 57 then .ok (c - 48)
  else .error (.invalidHexCharacter c index)

/-- The loop over the pairs of digits, from position `index` on. -/
def hexPairs : Nat → List UInt8 → Except FromHexError (List UInt8)
  | index, hi :: lo :: rest => do
      let hi ← hexVal hi index
      let lo ← hexVal lo (index + 1)
      let bytes ← hexPairs (index + 2) rest
      .ok ((hi <<< 4 ||| lo) :: bytes)
  | _, _ => .ok []

/-- `hex::decode` -/
def hexDecode (data : List UInt8) : Except FromHexError (List UInt8) :=
  if data.length % 2 ≠ 0 then .error .oddLength else hexPairs 0 data

/-- `hex::decode_to_slice` -/
def hexDecodeToSlice (size : Nat) (data : List UInt8) : Except FromHexError (List UInt8) :=
  if data.length % 2 ≠ 0 then .error .oddLength
  else if data.length / 2 ≠ size then .error .invalidStringLength
  else hexPairs 0 data

/-- `parse_0x_hex_32` -/
def parse0xHex32 (s : String) : Except String (List UInt8) :=
  let s := (stripPrefix0x s).getD s
  if s.utf8ByteSize ≠ 64 then
    .error s!"expected 64 hex chars, got {s.utf8ByteSize}"
  else
    (hexDecodeToSlice 32 (asBytes s)).mapError fun e =>
      s!"cannot decode hex `{s}` to 32 bytes: {e.text}"

/-- `Field::from_str` -/
def fieldFromStr (s : String) : Except String U256 := do
  let be ← parse0xHex32 s
  let x ← fieldTryFromLeBytes be.reverse
  .ok x.toU256

/-- `parse_0x_hex` -/
def parse0xHex (name value : String) : Except String (List UInt8) :=
  match stripPrefix0x value with
  | none => .error s!"{name}: expected 0x prefix"
  | some hexValue =>
      if hexValue = "" then .error s!"{name}: hex payload cannot be empty"
      else if hexValue.utf8ByteSize % 2 ≠ 0 then
        .error s!"{name}: hex payload must have even length"
      else if (asBytes hexValue).any (fun b => 65 ≤ b ∧ b ≤ 90) then
        .error s!"{name}: expected lowercase hex"
      else (hexDecode (asBytes hexValue)).mapError fun e => s!"{name}: invalid hex: {e.text}"

/-- `parse_0x_hex_exact` -/
def parse0xHexExact (name value : String) (expectedBytes : Nat) : Except String (List UInt8) := do
  let bytes ← parse0xHex name value
  if bytes.length ≠ expectedBytes then
    .error s!"{name}: expected {expectedBytes} bytes, got {bytes.length}"
  else .ok bytes

/-! ## The receipt -/

/-- `DISCLOSURE_RECEIPT_VERSION` -/
def disclosureReceiptVersion : UInt32 := 1

/-- `SELECTIVE_DISCLOSURE_1_CIRCUIT` -/
def selectiveDisclosure1Circuit : String := "selectiveDisclosure_1"

/-- `SELECTIVE_DISCLOSURE_1_LEVELS` -/
def selectiveDisclosure1Levels : UInt32 := 10

/-- `SELECTIVE_DISCLOSURE_1_N_NOTES` -/
def selectiveDisclosure1NNotes : UInt32 := 1

/-- `COMPRESSED_GROTH16_PROOF_BYTES` -/
def compressedGroth16ProofBytes : Nat := 128

/-- `DisclosureCircuitMetadata` -/
structure DisclosureCircuitMetadata where
  name : String
  levels : UInt32
  nNotes : UInt32
  vkHash : String
  deriving DecidableEq

/-- `DisclosureContext`, with the representation of its field element. -/
structure DisclosureContext (F : Type) where
  network : RustString
  poolAddress : RustString
  authorityLabel : RustString
  authorityIdentityPayloadHex : RustString
  purpose : RustString
  contextNonce : F
  deriving DecidableEq

/-- `DisclosurePublicInputs` -/
structure DisclosurePublicInputs (F : Type) where
  roots : List F
  noteCommitments : List F
  extContextHash : F
  deriving DecidableEq

/-- `DisclosureReceipt` -/
structure DisclosureReceipt (F : Type) where
  version : UInt32
  circuit : DisclosureCircuitMetadata
  context : DisclosureContext F
  publicInputs : DisclosurePublicInputs F
  proofCompressedHex : String
  issuedAt : String
  deriving DecidableEq

/-- `serde_json::from_str` on a document of this shape: every field element is read with
`Field::from_str`. -/
def DisclosureReceipt.fromJson (json : DisclosureReceipt String) :
    Except String (DisclosureReceipt U256) := do
  let contextNonce ← fieldFromStr json.context.contextNonce
  let roots ← json.publicInputs.roots.mapM fieldFromStr
  let noteCommitments ← json.publicInputs.noteCommitments.mapM fieldFromStr
  let extContextHash ← fieldFromStr json.publicInputs.extContextHash
  .ok { version := json.version
        circuit := json.circuit
        context := { json.context with contextNonce }
        publicInputs := { roots, noteCommitments, extContextHash }
        proofCompressedHex := json.proofCompressedHex
        issuedAt := json.issuedAt }

/-- `DisclosureCircuitMetadata::validate` -/
def DisclosureCircuitMetadata.validate (circuit : DisclosureCircuitMetadata) :
    Except String Unit :=
  if circuit.name = "" then .error "Circuit name cannot be empty"
  else if circuit.levels = 0 then .error "Circuit levels cannot be zero"
  else if circuit.nNotes = 0 then .error "Circuit n_notes cannot be zero"
  else do
    let _ ← parse0xHexExact "vk_hash" circuit.vkHash 32
    .ok ()

/-- `DisclosureContext::validate` -/
def DisclosureContext.validate (context : DisclosureContext U256) : Except String Unit :=
  if context.network.val = "" then .error "Network cannot be empty"
  else if context.poolAddress.val = "" then .error "pool_address cannot be empty"
  else if context.authorityLabel.val = "" then .error "authority_label cannot be empty"
  else do
    let _ ← parse0xHex "authority_identity_payload_hex" context.authorityIdentityPayloadHex.val
    if context.purpose.val = "" then .error "Purpose cannot be empty" else .ok ()

/-- `DisclosurePublicInputs::validate` -/
def DisclosurePublicInputs.validate (inputs : DisclosurePublicInputs U256) (nNotes : UInt32) :
    Except String Unit :=
  if inputs.roots.length ≠ nNotes.toNat then .error "Roots length does not match n_notes"
  else if inputs.noteCommitments.length ≠ nNotes.toNat then
    .error "note_commitments length does not match n_notes"
  else .ok ()

namespace DisclosureReceipt

variable (receipt : DisclosureReceipt U256)

/-- `proof_compressed_bytes` -/
def proofCompressedBytes : Except String (List UInt8) :=
  parse0xHexExact "proof_compressed_hex" receipt.proofCompressedHex compressedGroth16ProofBytes

/-- `DisclosureReceipt::validate` -/
def validate : Except String Unit :=
  if receipt.version ≠ disclosureReceiptVersion then
    .error "Unsupported disclosure receipt version"
  else do
    receipt.circuit.validate
    receipt.context.validate
    receipt.publicInputs.validate receipt.circuit.nNotes
    let _ ← receipt.proofCompressedBytes
    if receipt.issuedAt = "" then .error "issued_at cannot be empty" else .ok ()

end DisclosureReceipt

end PrivatePayments.Disclosure
