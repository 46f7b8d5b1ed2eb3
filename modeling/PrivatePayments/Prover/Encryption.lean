import PrivatePayments.Prover.Crypto
import PrivatePayments.Types

/-!
# PrivatePayments.Prover.Encryption

The encrypted outputs (`prover/src/encryption.rs`): 48 bytes, the amount and the blinding,
in a box for the recipient's X25519 key. Packed as ephemeral public key (32 bytes), nonce
(24 bytes), ciphertext with its tag.

X25519 and XSalsa20-Poly1305 are the parameter `NoteBox`. A key is 32 bytes by its type, so
the length checks on keys are left out; the random bytes are arguments.
-/

namespace PrivatePayments.Prover

/-- X25519 and XSalsa20-Poly1305: `decrypt` either fails authentication or returns the
ciphertext's length less the 16 bytes of the tag. -/
structure NoteBox where
  /-- `PublicKey::from(&StaticSecret)` -/
  publicKey : Bytes32 → Bytes32
  /-- `StaticSecret::diffie_hellman` -/
  diffieHellman : Bytes32 → Bytes32 → Bytes32
  /-- `XSalsa20Poly1305::encrypt` under a shared secret and a nonce. -/
  encrypt : Bytes32 → List UInt8 → List UInt8 → Option (List UInt8)
  /-- `XSalsa20Poly1305::decrypt` -/
  decrypt : Bytes32 → List UInt8 → List UInt8 → Option (List UInt8)
  decrypt_length : ∀ secret nonce ciphertext plaintext,
    decrypt secret nonce ciphertext = some plaintext → plaintext.length + 16 = ciphertext.length

/-- A slice of 32 bytes as a key. -/
def keyOf (bytes : List UInt8) (h : 32 ≤ bytes.length) : Bytes32 :=
  ⟨bytes.take 32, by simpa using h⟩

/-- The random bytes of one encryption. -/
structure BoxRandomness where
  ephemeralSecret : Bytes32
  nonce : { bytes : List UInt8 // bytes.length = 24 }

/-- `encrypt_note_data` -/
def encryptNoteData (box : NoteBox) (random : BoxRandomness) (recipientPubkey : Bytes32)
    (plaintext : List UInt8) : Except String (List UInt8) :=
  if plaintext.length ≠ 48 then
    .error "Plaintext must be 48 bytes (16 amount + 32 blinding)"
  else
    let sharedSecret := box.diffieHellman random.ephemeralSecret recipientPubkey
    match box.encrypt sharedSecret random.nonce.val plaintext with
    | none => .error "Encryption failed"
    | some ciphertext =>
        .ok ((box.publicKey random.ephemeralSecret).val ++ random.nonce.val ++ ciphertext)

/-- `encrypt_output_note` -/
def encryptOutputNote (box : NoteBox) (random : BoxRandomness) (recipientPubkey : Bytes32)
    (amount : NoteAmount) (blinding : Fr) : Except String (List UInt8) :=
  encryptNoteData box random recipientPubkey (toLeBytes 16 amount.val ++ scalarToBytes blinding)

/-- The box of an encrypted output: what the recipient's key and the packed public key and
nonce decrypt the rest to. -/
def openBox (box : NoteBox) (privateKey : Bytes32) (encryptedData : List UInt8)
    (h : 32 ≤ encryptedData.length) : Option (List UInt8) :=
  let sharedSecret := box.diffieHellman privateKey (keyOf encryptedData h)
  box.decrypt sharedSecret ((encryptedData.drop 32).take 24) (encryptedData.drop 56)

/-- `decrypt_note_data`: an output that is not for this key gives no bytes. -/
def decryptNoteData (box : NoteBox) (privateKey : Bytes32) (encryptedData : List UInt8) :
    Except String (List UInt8) :=
  if h : encryptedData.length < 120 then .error "Encrypted data too short"
  else
    match openBox box privateKey encryptedData (by omega) with
    | some plaintext => .ok plaintext
    | none => .ok []

/-- `NoteAmount::from(u128::from_le_bytes(..))` of 16 bytes. -/
def amountOf (bytes : List UInt8) : NoteAmount := Fin.ofNat u128Size (leValue bytes)

/-- `decrypt_output_note` -/
def decryptOutputNote (box : NoteBox) (privateKey : Bytes32) (encryptedOutput : List UInt8) :
    Except String (Option (NoteAmount × Fr)) := do
  let plaintext ← decryptNoteData box privateKey encryptedOutput
  if plaintext.isEmpty then .ok none
  else if plaintext.length ≠ 48 then
    .error s!"Decrypted plaintext must be 48 bytes, got {plaintext.length}"
  else do
    let blinding ← fieldTryFromLeBytes (plaintext.drop 16)
    return some (amountOf (plaintext.take 16), blinding)

/-! ## When decryption is an error -/

/-- An encrypted output that an account can read or skip: it is long enough, and if it
authenticates then it is exactly one note with a canonical blinding. -/
def WellFormed (box : NoteBox) (privateKey : Bytes32) (encryptedOutput : List UInt8) : Prop :=
  ∃ h : 120 ≤ encryptedOutput.length,
    ∀ plaintext, openBox box privateKey encryptedOutput (by omega) = some plaintext →
      encryptedOutput.length = 120 ∧ leValue (plaintext.drop 16) < bn256Modulus

theorem openBox_length {box : NoteBox} {privateKey : Bytes32} {encryptedData plaintext : List UInt8}
    {h : 32 ≤ encryptedData.length}
    (hopen : openBox box privateKey encryptedData h = some plaintext) :
    plaintext.length + 16 = encryptedData.length - 56 := by
  have := box.decrypt_length _ _ _ _ hopen
  rwa [List.length_drop] at this

theorem decryptNoteData_short {box : NoteBox} {privateKey : Bytes32} {encryptedData : List UInt8}
    (h : encryptedData.length < 120) :
    decryptNoteData box privateKey encryptedData = .error "Encrypted data too short" :=
  dif_pos h

theorem decryptNoteData_long {box : NoteBox} {privateKey : Bytes32} {encryptedData : List UInt8}
    (h : 120 ≤ encryptedData.length) :
    decryptNoteData box privateKey encryptedData =
      .ok ((openBox box privateKey encryptedData (by omega)).getD []) := by
  unfold decryptNoteData
  rw [dif_neg (by omega)]
  cases openBox box privateKey encryptedData (by omega) <;> rfl

/-- An output that fails authentication is not for this key. -/
theorem decryptOutputNote_none {box : NoteBox} {privateKey : Bytes32}
    {encryptedOutput : List UInt8} (h : 120 ≤ encryptedOutput.length)
    (hopen : openBox box privateKey encryptedOutput (by omega) = none) :
    decryptOutputNote box privateKey encryptedOutput = .ok none := by
  unfold decryptOutputNote
  rw [decryptNoteData_long h, hopen]
  rfl

/-- An output that authenticates. -/
theorem decryptOutputNote_some {box : NoteBox} {privateKey : Bytes32}
    {encryptedOutput plaintext : List UInt8} (h : 120 ≤ encryptedOutput.length)
    (hopen : openBox box privateKey encryptedOutput (by omega) = some plaintext) :
    decryptOutputNote box privateKey encryptedOutput =
      if plaintext.length ≠ 48 then
        .error s!"Decrypted plaintext must be 48 bytes, got {plaintext.length}"
      else (fieldTryFromLeBytes (plaintext.drop 16)).map fun blinding =>
        some (amountOf (plaintext.take 16), blinding) := by
  have hlen := openBox_length hopen
  have hempty : plaintext.isEmpty = false := by
    cases plaintext with
    | nil =>
        simp only [List.length_nil] at hlen
        omega
    | cons b bytes => rfl
  have hdata : decryptNoteData box privateKey encryptedOutput = .ok plaintext := by
    rw [decryptNoteData_long h, hopen]
    rfl
  unfold decryptOutputNote
  rw [hdata]
  show (if plaintext.isEmpty then _ else _) = _
  rw [hempty]
  rfl

/-- Decryption returns, rather than fails, exactly on well-formed outputs. -/
theorem decryptOutputNote_isOk {box : NoteBox} {privateKey : Bytes32}
    {encryptedOutput : List UInt8} :
    (∃ note, decryptOutputNote box privateKey encryptedOutput = .ok note) ↔
      WellFormed box privateKey encryptedOutput := by
  by_cases h : 120 ≤ encryptedOutput.length
  · cases hopen : openBox box privateKey encryptedOutput (by omega) with
    | none =>
        rw [decryptOutputNote_none h hopen]
        refine iff_of_true ⟨none, rfl⟩ ⟨h, fun plaintext hsome => ?_⟩
        rw [hopen] at hsome
        cases hsome
    | some plaintext =>
        have hlen := openBox_length hopen
        have hwell : WellFormed box privateKey encryptedOutput ↔
            plaintext.length = 48 ∧ leValue (plaintext.drop 16) < bn256Modulus := by
          constructor
          · intro hwf
            obtain ⟨_, hall⟩ := hwf
            obtain ⟨hsize, hlt⟩ := hall plaintext hopen
            exact ⟨by omega, hlt⟩
          · intro hgood
            refine ⟨h, fun plaintext' hsome => ?_⟩
            rw [hopen] at hsome
            cases hsome
            exact ⟨by omega, hgood.2⟩
        rw [decryptOutputNote_some h hopen, hwell]
        by_cases hsize : plaintext.length = 48
        · rw [if_neg (not_not_intro hsize)]
          by_cases hlt : leValue (plaintext.drop 16) < bn256Modulus
          · rw [fieldTryFromLeBytes_of_lt hlt]
            exact iff_of_true ⟨_, rfl⟩ ⟨hsize, hlt⟩
          · rw [fieldTryFromLeBytes_of_not_lt hlt]
            refine iff_of_false (fun hex => ?_) fun hgood => hlt hgood.2
            obtain ⟨note, hnote⟩ := hex
            cases hnote
        · rw [if_pos hsize]
          refine iff_of_false (fun hex => ?_) fun hgood => hsize hgood.1
          obtain ⟨note, hnote⟩ := hex
          cases hnote
  · have hshort : decryptOutputNote box privateKey encryptedOutput =
        .error "Encrypted data too short" := by
      unfold decryptOutputNote
      rw [decryptNoteData_short (by omega)]
      rfl
    rw [hshort]
    refine iff_of_false (fun hex => ?_) fun hwf => h hwf.1
    obtain ⟨note, hnote⟩ := hex
    cases hnote

/-! ## What is sent is received -/

/-- Decryption inverts encryption for a matching key pair. -/
def NoteBox.Inverts (box : NoteBox) : Prop :=
  ∀ ephemeralSecret privateKey nonce plaintext ciphertext,
    box.encrypt (box.diffieHellman ephemeralSecret (box.publicKey privateKey)) nonce plaintext =
      some ciphertext →
    box.decrypt (box.diffieHellman privateKey (box.publicKey ephemeralSecret)) nonce ciphertext =
      some plaintext

/-- The packed form of a box, taken apart again. -/
theorem openBox_packed (box : NoteBox) (privateKey ephemeral : Bytes32) {nonce : List UInt8}
    (hnonce : nonce.length = 24) (ciphertext : List UInt8)
    (h : 32 ≤ (ephemeral.val ++ nonce ++ ciphertext).length) :
    openBox box privateKey (ephemeral.val ++ nonce ++ ciphertext) h =
      box.decrypt (box.diffieHellman privateKey ephemeral) nonce ciphertext := by
  have hkey : keyOf (ephemeral.val ++ nonce ++ ciphertext) h = ephemeral := by
    apply Subtype.ext
    show (ephemeral.val ++ nonce ++ ciphertext).take 32 = ephemeral.val
    rw [List.append_assoc, List.take_left' ephemeral.property]
  have hmid : ((ephemeral.val ++ nonce ++ ciphertext).drop 32).take 24 = nonce := by
    rw [List.append_assoc, List.drop_left' ephemeral.property,
      List.take_left' hnonce]
  have hrest : (ephemeral.val ++ nonce ++ ciphertext).drop 56 = ciphertext :=
    List.drop_left' (by rw [List.length_append, ephemeral.property, hnonce])
  unfold openBox
  rw [hkey, hmid, hrest]

theorem amountOf_toLeBytes (amount : NoteAmount) : amountOf (toLeBytes 16 amount.val) = amount := by
  have hlt : amount.val < 256 ^ 16 := amount.isLt.trans_le (by decide)
  refine Fin.ext ?_
  show leValue (toLeBytes 16 amount.val) % u128Size = amount.val
  rw [leValue_toLeBytes hlt]
  exact Nat.mod_eq_of_lt amount.isLt

/-- The recipient reads the amount and the blinding that the sender has encrypted. -/
theorem decryptOutputNote_encryptOutputNote {box : NoteBox} (hbox : box.Inverts)
    {random : BoxRandomness} {privateKey : Bytes32} {amount : NoteAmount} {blinding : Fr}
    {encrypted : List UInt8}
    (h : encryptOutputNote box random (box.publicKey privateKey) amount blinding =
      .ok encrypted) :
    decryptOutputNote box privateKey encrypted = .ok (some (amount, blinding)) := by
  have hplain : (toLeBytes 16 amount.val ++ scalarToBytes blinding).length = 48 := by simp
  unfold encryptOutputNote encryptNoteData at h
  rw [if_neg (not_not_intro hplain)] at h
  dsimp only at h
  cases hct : box.encrypt (box.diffieHellman random.ephemeralSecret (box.publicKey privateKey))
      random.nonce.val (toLeBytes 16 amount.val ++ scalarToBytes blinding) with
  | none =>
      rw [hct] at h
      cases h
  | some ciphertext =>
      rw [hct] at h
      cases h
      have hdecrypt := hbox _ _ _ _ _ hct
      have hct_length := box.decrypt_length _ _ _ _ hdecrypt
      have hkey := (box.publicKey random.ephemeralSecret).property
      have hnonce := random.nonce.property
      have hlong : 120 ≤ ((box.publicKey random.ephemeralSecret).val ++ random.nonce.val ++
          ciphertext).length := by
        simp only [List.length_append]
        omega
      have hopen : openBox box privateKey ((box.publicKey random.ephemeralSecret).val ++
          random.nonce.val ++ ciphertext) (by omega) =
            some (toLeBytes 16 amount.val ++ scalarToBytes blinding) := by
        rw [openBox_packed box privateKey _ hnonce, hdecrypt]
      have htake : (toLeBytes 16 amount.val ++ scalarToBytes blinding).take 16 =
          toLeBytes 16 amount.val := List.take_left' (length_toLeBytes 16 _)
      have hdrop : (toLeBytes 16 amount.val ++ scalarToBytes blinding).drop 16 =
          scalarToBytes blinding := List.drop_left' (length_toLeBytes 16 _)
      rw [decryptOutputNote_some hlong hopen, if_neg (not_not_intro hplain), htake, hdrop,
        fieldTryFromLeBytes_scalarToBytes, amountOf_toLeBytes]
      rfl

end PrivatePayments.Prover
