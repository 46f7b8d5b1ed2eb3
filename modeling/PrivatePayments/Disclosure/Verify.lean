import PrivatePayments.Disclosure.Receipt
import PrivatePayments.Lib.PrefixCode

/-!
# PrivatePayments.Disclosure.Verify

Verification of a disclosure receipt (`disclosure/src/lib.rs`): the hash of its context, its
circuit metadata, its Groth16 proof and its roots. SHA-256 and the Groth16 verifier are
parameters.
-/

namespace PrivatePayments.Disclosure

open Prover (Groth16 toLeBytes scalarOf exists_of_bind_ok)

/-! ## The context hash -/

section Context

variable (sha256 : List UInt8 → Bytes32)

/-- `CONTEXT_HASH_DOMAIN` -/
def contextHashDomain : List UInt8 := asBytes "disclosure-context-v1"

/-- `feed_str`: a string after its length, a `u64`. -/
def feedStr (s : RustString) : List UInt8 := toLeBytes 8 s.val.utf8ByteSize ++ asBytes s.val

/-- The bytes that are hashed for a context. -/
def contextBytes (context : DisclosureContext U256) : List UInt8 :=
  contextHashDomain ++ (feedStr context.network ++ (feedStr context.poolAddress ++
    (feedStr context.authorityLabel ++ (feedStr context.authorityIdentityPayloadHex ++
      (feedStr context.purpose ++ context.contextNonce.toLeBytes)))))

/-- `Field::from_le_bytes_mod_order` -/
def fieldFromLeBytesModOrder (bytes : Bytes32) : U256 := (scalarOf bytes.val).toU256

/-- `derive_ext_context_hash` -/
def deriveExtContextHash (context : DisclosureContext U256) : Except String U256 := do
  context.validate
  .ok (fieldFromLeBytesModOrder (sha256 (contextBytes context)))

/-- `verify_receipt_context` -/
def verifyReceiptContext (receipt : DisclosureReceipt U256) : Except String Bool := do
  let expected ← deriveExtContextHash sha256 receipt.context
  .ok (expected = receipt.publicInputs.extContextHash)

end Context

/-! ## Circuits -/

/-- `RegisteredCircuit`, without the names of its files -/
structure RegisteredCircuit where
  name : String
  levels : UInt32
  nNotes : UInt32
  publicInputsOrder : List String
  deriving DecidableEq

namespace RegisteredCircuit

variable (circuit : RegisteredCircuit)

/-- `receipt_metadata` -/
def receiptMetadata (vkHash : String) : DisclosureCircuitMetadata where
  name := circuit.name
  levels := circuit.levels
  nNotes := circuit.nNotes
  vkHash := vkHash

/-- `validate_receipt` -/
def validateReceipt (receipt : DisclosureReceipt U256) (expectedVkHash : String) :
    Except String Unit := do
  receipt.validate
  (circuit.receiptMetadata expectedVkHash).validate
  if receipt.circuit ≠ circuit.receiptMetadata expectedVkHash then
    .error "Disclosure receipt circuit metadata mismatch"
  else .ok ()

/-- The bytes of one entry of `public_inputs_order`. -/
def entryBytes (inputs : DisclosurePublicInputs U256) (name : String) :
    Except String (List UInt8) :=
  if name = "roots" then .ok (inputs.roots.flatMap U256.toLeBytes)
  else if name = "noteCommitments" then .ok (inputs.noteCommitments.flatMap U256.toLeBytes)
  else if name = "extContextHash" then .ok inputs.extContextHash.toLeBytes
  else .error s!"Unknown public input `{name}` in circuit `{circuit.name}` order"

/-- `public_inputs_bytes`; the capacity is a `usize` of 32 bits. -/
def publicInputsBytes (receipt : DisclosureReceipt U256) : Except String (List UInt8) :=
  if (circuit.nNotes.toNat * 2 + 1) * 32 ≥ 2 ^ 32 then
    .error "Public input byte capacity overflow"
  else do
    let parts ← circuit.publicInputsOrder.mapM (circuit.entryBytes receipt.publicInputs)
    .ok parts.flatten

end RegisteredCircuit

/-- `SELECTIVE_DISCLOSURE_1_PUBLIC_INPUTS_ORDER` -/
def selectiveDisclosure1PublicInputsOrder : List String :=
  ["roots", "noteCommitments", "extContextHash"]

/-- `SELECTIVE_DISCLOSURE_1` -/
def selectiveDisclosure1 : RegisteredCircuit where
  name := selectiveDisclosure1Circuit
  levels := selectiveDisclosure1Levels
  nNotes := selectiveDisclosure1NNotes
  publicInputsOrder := selectiveDisclosure1PublicInputsOrder

/-- `find_circuit` -/
def findCircuit (name : String) : Option RegisteredCircuit :=
  if name = selectiveDisclosure1Circuit then some selectiveDisclosure1 else none

/-- `validate_registered_receipt` -/
def validateRegisteredReceipt (receipt : DisclosureReceipt U256) (expectedVkHash : String) :
    Except String RegisteredCircuit :=
  match findCircuit receipt.circuit.name with
  | none => .error s!"Unknown disclosure circuit: {receipt.circuit.name}"
  | some circuit => do
      circuit.validateReceipt receipt expectedVkHash
      .ok circuit

/-! ## The three checks -/

section Checks

variable (sha256 : List UInt8 → Bytes32) (g : Groth16)

/-- `verifying_key_hash` -/
def verifyingKeyHash (vkBytes : List UInt8) : String := "0x" ++ hexEncode (sha256 vkBytes).val

/-- `validate_verifying_key_hash` -/
def validateVerifyingKeyHash (vkBytes : List UInt8) (expectedVkHash : String) :
    Except String Bool :=
  if verifyingKeyHash sha256 vkBytes ≠ expectedVkHash then .error "Verifying key hash mismatch"
  else .ok true

/-- `verify_receipt_proof` -/
def verifyReceiptProof (receipt : DisclosureReceipt U256) (vkBytes : List UInt8)
    (expectedVkHash : String) : Except String Bool := do
  let _ ← validateVerifyingKeyHash sha256 vkBytes expectedVkHash
  let circuit ← validateRegisteredReceipt receipt expectedVkHash
  let proofBytes ← receipt.proofCompressedBytes
  let publicInputs ← circuit.publicInputsBytes receipt
  Prover.verifyProof g vkBytes proofBytes publicInputs

/-- The loop of `verify_receipt_known_roots_with`. -/
def allKnown (isKnownRoot : U256 → Except String Bool) : List U256 → Except String Bool
  | [] => .ok true
  | root :: roots => do
      let known ← isKnownRoot root
      if known then allKnown isKnownRoot roots else .ok false

/-- `verify_receipt_known_roots_with` -/
def verifyReceiptKnownRootsWith (receipt : DisclosureReceipt U256) (expectedVkHash : String)
    (isKnownRoot : U256 → Except String Bool) : Except String Bool := do
  let _ ← validateRegisteredReceipt receipt expectedVkHash
  allKnown isKnownRoot receipt.publicInputs.roots

end Checks

/-! ## The encoding of a context -/

theorem length_asBytes (s : String) : (asBytes s).length = s.utf8ByteSize := rfl

theorem asBytes_injective : Function.Injective asBytes := by
  intro s t h
  exact String.toByteArray_inj.mp (ByteArray.ext (Array.toList_inj.mp h))

theorem toLeBytes_isPrefixCode (width : Nat) :
    PrefixCode.IsPrefixCode fun n : { n : Nat // n < 256 ^ width } => toLeBytes width n.val := by
  refine PrefixCode.isPrefixCode_of_length (fun n => Prover.length_toLeBytes width n.val) ?_
  intro n m h
  apply Subtype.ext
  rw [← Prover.leValue_toLeBytes n.property, ← Prover.leValue_toLeBytes m.property]
  exact congrArg Prover.leValue h

/-- The bytes of a string, whose length eight bytes can tell. -/
def framed (s : RustString) : { l : List UInt8 // l.length < 256 ^ 8 } :=
  ⟨asBytes s.val, lt_trans s.property (by decide)⟩

theorem framed_injective : Function.Injective framed := by
  intro s t h
  exact Subtype.ext (asBytes_injective (congrArg Subtype.val h))

/-- A string after its length can be read off. -/
theorem feedStr_isPrefixCode : PrefixCode.IsPrefixCode feedStr :=
  (PrefixCode.isPrefixCode_lengthPrefixed (toLeBytes_isPrefixCode 8)).comp framed_injective

/-- **The encoding of contexts is injective.** -/
theorem contextBytes_injective : Function.Injective contextBytes := by
  intro a b h
  obtain ⟨hnetwork, h⟩ := feedStr_isPrefixCode (List.append_cancel_left h)
  obtain ⟨hpool, h⟩ := feedStr_isPrefixCode h
  obtain ⟨hlabel, h⟩ := feedStr_isPrefixCode h
  obtain ⟨hidentity, h⟩ := feedStr_isPrefixCode h
  obtain ⟨hpurpose, h⟩ := feedStr_isPrefixCode h
  have hnonce := U256.toLeBytes_injective h
  cases a
  cases b
  simp only [DisclosureContext.mk.injEq]
  exact ⟨hnetwork, hpool, hlabel, hidentity, hpurpose, hnonce⟩

/-! ## What a verified receipt has passed -/

section Verified

variable {sha256 : List UInt8 → Bytes32} {g : Groth16} {receipt : DisclosureReceipt U256}
  {vkBytes : List UInt8} {vkHash : String}

/-- The hash of a context, a number below the modulus. -/
def contextHash (sha256 : List UInt8 → Bytes32) (context : DisclosureContext U256) : U256 :=
  fieldFromLeBytesModOrder (sha256 (contextBytes context))

theorem verifyReceiptContext_true (h : verifyReceiptContext sha256 receipt = .ok true) :
    receipt.publicInputs.extContextHash = contextHash sha256 receipt.context := by
  obtain ⟨expected, hexpected, h⟩ := exists_of_bind_ok h
  obtain ⟨_, -, hhash⟩ := exists_of_bind_ok hexpected
  cases hhash
  simp only [Except.ok.injEq, decide_eq_true_eq] at h
  exact h.symm

/-- Two contexts are a collision: different bytes with one hash. -/
def ContextCollision (sha256 : List UInt8 → Bytes32) (a b : DisclosureContext U256) : Prop :=
  contextBytes a ≠ contextBytes b ∧ contextHash sha256 a = contextHash sha256 b

/-- Contexts with one hash are one context, up to collisions. -/
theorem context_eq_or_collision {a b : DisclosureContext U256}
    (h : contextHash sha256 a = contextHash sha256 b) : a = b ∨ ContextCollision sha256 a b := by
  by_cases hbytes : contextBytes a = contextBytes b
  · exact .inl (contextBytes_injective hbytes)
  · exact .inr ⟨hbytes, h⟩

theorem findCircuit_some {name : String} {circuit : RegisteredCircuit}
    (h : findCircuit name = some circuit) : circuit = selectiveDisclosure1 := by
  unfold findCircuit at h
  split at h
  · exact (Option.some.inj h).symm
  · cases h

theorem publicInputs_validate_ok {inputs : DisclosurePublicInputs U256} {nNotes : UInt32}
    (h : inputs.validate nNotes = .ok ()) :
    inputs.roots.length = nNotes.toNat ∧ inputs.noteCommitments.length = nNotes.toNat := by
  unfold DisclosurePublicInputs.validate at h
  by_cases hroots : inputs.roots.length = nNotes.toNat
  · rw [if_neg (not_not.mpr hroots)] at h
    by_cases hcommitments : inputs.noteCommitments.length = nNotes.toNat
    · exact ⟨hroots, hcommitments⟩
    · rw [if_pos hcommitments] at h
      cases h
  · rw [if_pos hroots] at h
    cases h

theorem receipt_validate_ok (h : receipt.validate = .ok ()) :
    receipt.publicInputs.validate receipt.circuit.nNotes = .ok () := by
  unfold DisclosureReceipt.validate at h
  by_cases hversion : receipt.version = disclosureReceiptVersion
  · rw [if_neg (not_not.mpr hversion)] at h
    obtain ⟨_, -, h⟩ := exists_of_bind_ok h
    obtain ⟨_, -, h⟩ := exists_of_bind_ok h
    obtain ⟨_, hinputs, -⟩ := exists_of_bind_ok h
    exact hinputs
  · rw [if_pos hversion] at h
    cases h

theorem validateReceipt_ok {circuit : RegisteredCircuit}
    (h : circuit.validateReceipt receipt vkHash = .ok ()) :
    receipt.circuit = circuit.receiptMetadata vkHash ∧
      receipt.publicInputs.roots.length = circuit.nNotes.toNat ∧
      receipt.publicInputs.noteCommitments.length = circuit.nNotes.toNat := by
  obtain ⟨_, hschema, h⟩ := exists_of_bind_ok h
  obtain ⟨_, -, h⟩ := exists_of_bind_ok h
  by_cases hcircuit : receipt.circuit = circuit.receiptMetadata vkHash
  · have hinputs := receipt_validate_ok hschema
    rw [hcircuit] at hinputs
    exact ⟨hcircuit, publicInputs_validate_ok hinputs⟩
  · rw [if_pos hcircuit] at h
    cases h

/-- A validated receipt is one of `selectiveDisclosure_1`: it shows one note under one root. -/
theorem validateRegisteredReceipt_ok {circuit : RegisteredCircuit}
    (h : validateRegisteredReceipt receipt vkHash = .ok circuit) :
    circuit = selectiveDisclosure1 ∧ ∃ root commitment,
      receipt.publicInputs.roots = [root] ∧ receipt.publicInputs.noteCommitments = [commitment] := by
  unfold validateRegisteredReceipt at h
  cases hfind : findCircuit receipt.circuit.name with
  | none =>
      rw [hfind] at h
      cases h
  | some found =>
      rw [hfind] at h
      obtain ⟨_, hvalid, hfound⟩ := exists_of_bind_ok h
      cases hfound
      obtain rfl := findCircuit_some hfind
      obtain ⟨-, hroots, hcommitments⟩ := validateReceipt_ok hvalid
      obtain ⟨root, hroot⟩ := List.length_eq_one_iff.mp hroots
      obtain ⟨commitment, hcommitment⟩ := List.length_eq_one_iff.mp hcommitments
      exact ⟨rfl, root, commitment, hroot, hcommitment⟩

/-- The public inputs are written in the order of the circuit. -/
theorem publicInputsBytes_selectiveDisclosure1 (receipt : DisclosureReceipt U256) :
    selectiveDisclosure1.publicInputsBytes receipt =
      .ok ((receipt.publicInputs.roots ++ receipt.publicInputs.noteCommitments ++
        [receipt.publicInputs.extContextHash]).flatMap U256.toLeBytes) := by
  have horder : selectiveDisclosure1PublicInputsOrder.mapM
      (selectiveDisclosure1.entryBytes receipt.publicInputs) =
        .ok [receipt.publicInputs.roots.flatMap U256.toLeBytes,
          receipt.publicInputs.noteCommitments.flatMap U256.toLeBytes,
          receipt.publicInputs.extContextHash.toLeBytes] := rfl
  unfold RegisteredCircuit.publicInputsBytes
  rw [if_neg (by decide)]
  refine (congrArg (· >>= _) horder).trans ?_
  simp only [List.flatMap_append, List.flatMap_cons, List.flatMap_nil, List.append_nil]
  simp [bind, Except.bind]

/-- **An accepted proof.** The receipt shows one root and one note, and the verifier has accepted
exactly the numbers it shows, modulo the field order. -/
theorem verifyReceiptProof_true (h : verifyReceiptProof sha256 g receipt vkBytes vkHash = .ok true) :
    ∃ root commitment proofBytes, receipt.publicInputs.roots = [root] ∧
      receipt.publicInputs.noteCommitments = [commitment] ∧
      g.Accepts vkBytes proofBytes
        [root.toFr, commitment.toFr, receipt.publicInputs.extContextHash.toFr] := by
  obtain ⟨_, -, h⟩ := exists_of_bind_ok h
  obtain ⟨circuit, hcircuit, h⟩ := exists_of_bind_ok h
  obtain ⟨proofBytes, -, h⟩ := exists_of_bind_ok h
  obtain ⟨inputs, hinputs, h⟩ := exists_of_bind_ok h
  obtain ⟨rfl, root, commitment, hroot, hcommitment⟩ := validateRegisteredReceipt_ok hcircuit
  rw [publicInputsBytes_selectiveDisclosure1, hroot, hcommitment] at hinputs
  cases hinputs
  exact ⟨root, commitment, proofBytes, hroot, hcommitment, Prover.verifyProof_true h⟩

/-- The loop over the roots asks about every one of them. -/
theorem allKnown_true_iff {isKnownRoot : U256 → Except String Bool} {roots : List U256} :
    allKnown isKnownRoot roots = .ok true ↔ ∀ root ∈ roots, isKnownRoot root = .ok true := by
  induction roots with
  | nil => simp [allKnown]
  | cons root roots ih =>
      rw [List.forall_mem_cons, ← ih, allKnown]
      cases hknown : isKnownRoot root with
      | error e => simp [bind, Except.bind]
      | ok known => cases known <;> simp [bind, Except.bind]

/-- The check of the roots passes exactly when the schema is valid and every root is known. -/
theorem verifyReceiptKnownRootsWith_true_iff {isKnownRoot : U256 → Except String Bool} :
    verifyReceiptKnownRootsWith receipt vkHash isKnownRoot = .ok true ↔
      (∃ circuit, validateRegisteredReceipt receipt vkHash = .ok circuit) ∧
        ∀ root ∈ receipt.publicInputs.roots, isKnownRoot root = .ok true := by
  rw [← allKnown_true_iff]
  unfold verifyReceiptKnownRootsWith
  cases validateRegisteredReceipt receipt vkHash with
  | error e => simp [bind, Except.bind]
  | ok circuit => simp [bind, Except.bind]

/-! ### Canonical numbers -/

theorem fieldFromStr_lt {s : String} {v : U256} (h : fieldFromStr s = .ok v) :
    v.val < bn256Modulus := by
  obtain ⟨be, -, h⟩ := exists_of_bind_ok h
  obtain ⟨x, -, h⟩ := exists_of_bind_ok h
  cases h
  exact x.isLt

theorem mapM_fieldFromStr_lt {l : List String} : ∀ {vs : List U256},
    l.mapM fieldFromStr = .ok vs → ∀ v ∈ vs, v.val < bn256Modulus := by
  induction l with
  | nil =>
      intro vs h v hv
      cases h
      cases hv
  | cons s l ih =>
      intro vs h v hv
      rw [List.mapM_cons] at h
      obtain ⟨first, hfirst, h⟩ := exists_of_bind_ok h
      obtain ⟨rest, hrest, h⟩ := exists_of_bind_ok h
      cases h
      rcases List.mem_cons.mp hv with rfl | hv
      · exact fieldFromStr_lt hfirst
      · exact ih hrest v hv

/-- The numbers of a receipt that was parsed are canonical. -/
theorem fromJson_canonical {json : DisclosureReceipt String} (h : json.fromJson = .ok receipt) :
    (∀ root ∈ receipt.publicInputs.roots, root.val < bn256Modulus) ∧
      ∀ commitment ∈ receipt.publicInputs.noteCommitments, commitment.val < bn256Modulus := by
  obtain ⟨nonce, -, h⟩ := exists_of_bind_ok h
  obtain ⟨roots, hroots, h⟩ := exists_of_bind_ok h
  obtain ⟨commitments, hcommitments, h⟩ := exists_of_bind_ok h
  obtain ⟨ext, -, h⟩ := exists_of_bind_ok h
  cases h
  exact ⟨mapM_fieldFromStr_lt hroots, mapM_fieldFromStr_lt hcommitments⟩

end Verified

end PrivatePayments.Disclosure
