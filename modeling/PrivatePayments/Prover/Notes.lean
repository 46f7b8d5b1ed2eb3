import PrivatePayments.Prover.Encryption

/-!
# PrivatePayments.Prover.Notes

Note discovery (`prover/src/notes.rs`): decrypt an output, check it against the commitment
on chain, and derive the nullifier that will be seen when the note is spent.
-/

namespace PrivatePayments.Prover

/-- `DerivedUserNote` -/
structure DerivedUserNote where
  amount : NoteAmount
  blinding : Fr
  expectedNullifier : Fr
  deriving DecidableEq, Repr

/-- The leaf index as field bytes: `u64` little-endian, padded with zeros. -/
def pathIndicesLe (leafIndex : UInt32) : List UInt8 :=
  toLeBytes 8 leafIndex.toNat ++ List.replicate 24 0

/-- The nullifier of a commitment at a leaf index, as the circuits derive it. -/
def expectedNullifier (privateKey : Bytes32) (commitment : Fr) (leafIndex : UInt32) :
    Except String Fr := do
  let signature ← computeSignature privateKey.val (scalarToBytes commitment)
    (pathIndicesLe leafIndex)
  let nullifier ← computeNullifier (scalarToBytes commitment) (pathIndicesLe leafIndex) signature
  fieldTryFromLeBytes nullifier

/-- `try_decrypt_and_derive_user_note` -/
def tryDecryptAndDeriveUserNote (box : NoteBox) (noteKeypair : NoteKeyPair)
    (encryptionPrivateKey : Bytes32) (commitment : Fr) (leafIndex : UInt32)
    (encryptedOutput : List UInt8) : Except String (Option DerivedUserNote) := do
  let note ← decryptOutputNote box encryptionPrivateKey encryptedOutput
  match note with
  | none => .ok none
  | some (amount, blinding) =>
      if amount = 0 then .ok none
      else do
        let computed ← computeCommitment (toLeBytes 32 amount.val) noteKeypair.publicKey.val
          (scalarToBytes blinding)
        if computed ≠ scalarToBytes commitment then .ok none
        else do
          let expectedNullifier ← expectedNullifier noteKeypair.privateKey commitment leafIndex
          return some { amount, blinding, expectedNullifier }

/-! ## The result as field elements -/

/-- An amount as a field element. -/
def amountFr (amount : NoteAmount) : Fr :=
  ⟨amount.val, lt_trans amount.isLt (by decide)⟩

/-- A leaf index as a field element. -/
def indexFr (leafIndex : UInt32) : Fr :=
  ⟨leafIndex.toNat, lt_trans leafIndex.toNat_lt (by decide)⟩

/-- The commitment of a note. -/
def noteCommitment (amount : NoteAmount) (publicKey : Bytes32) (blinding : Fr) : Fr :=
  poseidon2Hash3 (amountFr amount) (scalarOf publicKey.val) blinding 1

/-- The nullifier of a commitment at an index, for the owner of the private key. -/
def noteNullifier (privateKey : Bytes32) (commitment : Fr) (leafIndex : Fr) : Fr :=
  poseidon2Hash3 commitment leafIndex
    (poseidon2Hash3 (scalarOf privateKey.val) commitment leafIndex 4) 2

/-- A number below the modulus, written in 32 bytes. -/
theorem scalarOf_toLeBytes {n : Nat} (h : n < bn256Modulus) : scalarOf (toLeBytes 32 n) = ⟨n, h⟩ := by
  refine Fin.ext ?_
  show leValue (toLeBytes 32 n) % bn256Modulus = n
  have hvalue : leValue (toLeBytes 32 n) = n := leValue_toLeBytes (h.trans modulus_lt_bytes)
  rw [hvalue, Nat.mod_eq_of_lt h]

@[simp] theorem length_pathIndicesLe (leafIndex : UInt32) : (pathIndicesLe leafIndex).length = 32 := by
  simp [pathIndicesLe]

theorem scalarOf_pathIndicesLe (leafIndex : UInt32) :
    scalarOf (pathIndicesLe leafIndex) = indexFr leafIndex := by
  have hindex : leafIndex.toNat < 256 ^ 8 := leafIndex.toNat_lt.trans (by decide)
  refine Fin.ext ?_
  show leValue (pathIndicesLe leafIndex) % bn256Modulus = leafIndex.toNat
  rw [pathIndicesLe, leValue_append, leValue_toLeBytes hindex, leValue_replicate_zero, mul_zero,
    add_zero]
  exact Nat.mod_eq_of_lt (indexFr leafIndex).isLt

theorem computeCommitment_eq (amount : NoteAmount) (publicKey : Bytes32) (blinding : Fr) :
    computeCommitment (toLeBytes 32 amount.val) publicKey.val (scalarToBytes blinding) =
      .ok (scalarToBytes (noteCommitment amount publicKey blinding)) := by
  unfold computeCommitment noteCommitment amountFr
  rw [hash3Bytes_eq (length_toLeBytes _ _) publicKey.property (length_scalarToBytes _),
    scalarOf_toLeBytes, scalarOf_scalarToBytes]

theorem computeSignature_eq (privateKey : Bytes32) (commitment : Fr) (leafIndex : UInt32) :
    computeSignature privateKey.val (scalarToBytes commitment) (pathIndicesLe leafIndex) =
      .ok (scalarToBytes (poseidon2Hash3 (scalarOf privateKey.val) commitment
        (indexFr leafIndex) 4)) := by
  unfold computeSignature
  rw [hash3Bytes_eq privateKey.property (length_scalarToBytes _) (length_pathIndicesLe _),
    scalarOf_scalarToBytes, scalarOf_pathIndicesLe]

theorem computeNullifier_eq (commitment signature : Fr) (leafIndex : UInt32) :
    computeNullifier (scalarToBytes commitment) (pathIndicesLe leafIndex)
        (scalarToBytes signature) =
      .ok (scalarToBytes (poseidon2Hash3 commitment (indexFr leafIndex) signature 2)) := by
  unfold computeNullifier
  rw [hash3Bytes_eq (length_scalarToBytes _) (length_pathIndicesLe _) (length_scalarToBytes _),
    scalarOf_scalarToBytes, scalarOf_scalarToBytes, scalarOf_pathIndicesLe]

theorem expectedNullifier_eq (privateKey : Bytes32) (commitment : Fr) (leafIndex : UInt32) :
    expectedNullifier privateKey commitment leafIndex =
      .ok (noteNullifier privateKey commitment (indexFr leafIndex)) := by
  unfold expectedNullifier noteNullifier
  rw [computeSignature_eq, ok_bind, computeNullifier_eq, ok_bind,
    fieldTryFromLeBytes_scalarToBytes]

/-- A decrypted note belongs to a commitment on chain: it is no dummy, and it hashes to the
commitment. -/
def Opens (publicKey : Bytes32) (commitment : Fr) (note : NoteAmount × Fr) : Prop :=
  note.1 ≠ 0 ∧ noteCommitment note.1 publicKey note.2 = commitment

section Derive

variable (box : NoteBox) (noteKeypair : NoteKeyPair) (encryptionPrivateKey : Bytes32)
  (commitment : Fr) (leafIndex : UInt32) (encryptedOutput : List UInt8)

/-- What discovery returns for a decrypted output. -/
inductive Derives : Option (NoteAmount × Fr) → Option DerivedUserNote → Prop
  | notAddressed : Derives none none
  | skipped (note : NoteAmount × Fr) (h : ¬ Opens noteKeypair.publicKey commitment note) :
      Derives (some note) none
  | found (note : NoteAmount × Fr) (h : Opens noteKeypair.publicKey commitment note) :
      Derives (some note) (some
        { amount := note.1, blinding := note.2,
          expectedNullifier :=
            noteNullifier noteKeypair.privateKey commitment (indexFr leafIndex) })

variable {box noteKeypair encryptionPrivateKey commitment leafIndex encryptedOutput}

theorem tryDecryptAndDeriveUserNote_error {e : String}
    (h : decryptOutputNote box encryptionPrivateKey encryptedOutput = .error e) :
    tryDecryptAndDeriveUserNote box noteKeypair encryptionPrivateKey commitment leafIndex
      encryptedOutput = .error e := by
  unfold tryDecryptAndDeriveUserNote
  rw [h]
  rfl

/-- After decryption nothing fails. -/
theorem tryDecryptAndDeriveUserNote_ok {note : Option (NoteAmount × Fr)}
    (h : decryptOutputNote box encryptionPrivateKey encryptedOutput = .ok note) :
    ∃ derived, tryDecryptAndDeriveUserNote box noteKeypair encryptionPrivateKey commitment
        leafIndex encryptedOutput = .ok derived ∧
      Derives noteKeypair commitment leafIndex note derived := by
  unfold tryDecryptAndDeriveUserNote
  rw [h, ok_bind]
  cases note with
  | none => exact ⟨none, rfl, .notAddressed⟩
  | some note =>
      obtain ⟨amount, blinding⟩ := note
      simp only
      by_cases hzero : amount = 0
      · exact ⟨none, if_pos hzero, .skipped _ fun hopens => hopens.1 hzero⟩
      · rw [if_neg hzero, computeCommitment_eq, ok_bind]
        by_cases hcommitment : noteCommitment amount noteKeypair.publicKey blinding = commitment
        · refine ⟨_, ?_, .found _ ⟨hzero, hcommitment⟩⟩
          rw [if_neg (not_not_intro (scalarToBytes_inj.mpr hcommitment)), expectedNullifier_eq,
            ok_bind]
          rfl
        · refine ⟨none, ?_, .skipped _ fun hopens => hcommitment hopens.2⟩
          rw [if_pos (mt scalarToBytes_inj.mp hcommitment)]

/-- Discovery returns, rather than fails, exactly on well-formed outputs. -/
theorem tryDecryptAndDeriveUserNote_isOk :
    (∃ note, tryDecryptAndDeriveUserNote box noteKeypair encryptionPrivateKey commitment leafIndex
        encryptedOutput = .ok note) ↔
      WellFormed box encryptionPrivateKey encryptedOutput := by
  rw [← decryptOutputNote_isOk]
  cases h : decryptOutputNote box encryptionPrivateKey encryptedOutput with
  | error e =>
      rw [tryDecryptAndDeriveUserNote_error h]
      exact iff_of_false (fun hex => by cases hex.choose_spec) (fun hex => by cases hex.choose_spec)
  | ok note =>
      obtain ⟨derived, hok, -⟩ := tryDecryptAndDeriveUserNote_ok h
      exact iff_of_true ⟨derived, hok⟩ ⟨note, rfl⟩

end Derive

end PrivatePayments.Prover
