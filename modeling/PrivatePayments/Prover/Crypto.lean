import PrivatePayments.Prover.Serialization

/-!
# PrivatePayments.Prover.Crypto

The hashes of the client (`prover/src/crypto.rs`), on byte strings.

Each function reads its arguments with `bytesToScalar` and writes its result with
`scalarToBytes`, so on arguments of 32 bytes it succeeds and is the hash of the numbers they
stand for modulo the field order.
-/

namespace PrivatePayments.Prover

/-- `poseidon2_hash2` -/
def poseidon2Hash2Bytes (input0 input1 : List UInt8) (domainSeparation : Fr) :
    Except String (List UInt8) := do
  let a ← bytesToScalar input0
  let b ← bytesToScalar input1
  return scalarToBytes (poseidon2Hash2 a b domainSeparation)

/-- A hash of three byte strings under a domain. -/
def hash3Bytes (input0 input1 input2 : List UInt8) (domain : Fr) : Except String (List UInt8) := do
  let a ← bytesToScalar input0
  let b ← bytesToScalar input1
  let c ← bytesToScalar input2
  return scalarToBytes (poseidon2Hash3 a b c domain)

/-- `derive_public_key` -/
def derivePublicKey (privateKey : List UInt8) : Except String (List UInt8) := do
  let sk ← bytesToScalar privateKey
  return scalarToBytes (poseidon2Hash2 sk 0 3)

/-- `compute_commitment` -/
def computeCommitment (amount publicKey blinding : List UInt8) : Except String (List UInt8) :=
  hash3Bytes amount publicKey blinding 1

/-- `compute_signature` -/
def computeSignature (privateKey commitment merklePath : List UInt8) :
    Except String (List UInt8) :=
  hash3Bytes privateKey commitment merklePath 4

/-- `compute_nullifier` -/
def computeNullifier (commitment pathIndices signature : List UInt8) :
    Except String (List UInt8) :=
  hash3Bytes commitment pathIndices signature 2

/-- `asp_membership_leaf` -/
def aspMembershipLeaf (notePubkey : List UInt8) (membershipBlinding : Fr) : Except String Fr := do
  let leafLe ← poseidon2Hash2Bytes notePubkey (scalarToBytes membershipBlinding) 1
  fieldTryFromLeBytes leafLe

/-- The number that a byte string stands for modulo the field order. -/
def scalarOf (bytes : List UInt8) : Fr := Fin.ofNat bn256Modulus (leValue bytes)

@[simp] theorem scalarOf_scalarToBytes (x : Fr) : scalarOf (scalarToBytes x) = x := by
  rw [scalarOf, leValue_scalarToBytes]
  exact Fin.ext (Nat.mod_eq_of_lt x.isLt)

theorem bytesToScalar_eq {bytes : List UInt8} (h : bytes.length = 32) :
    bytesToScalar bytes = .ok (scalarOf bytes) := bytesToScalar_of_length h

theorem ok_bind {α β : Type} (a : α) (f : α → Except String β) : (Except.ok a >>= f) = f a := rfl

theorem exists_of_bind_ok {ε α β : Type} {x : Except ε α} {f : α → Except ε β} {b : β}
    (h : (x >>= f) = .ok b) : ∃ a, x = .ok a ∧ f a = .ok b := by
  cases x with
  | error e => cases h
  | ok a => exact ⟨a, rfl, h⟩

section

variable {a b c : List UInt8} (ha : a.length = 32) (hb : b.length = 32) (hc : c.length = 32)

include ha hb in
theorem poseidon2Hash2Bytes_eq (domain : Fr) : poseidon2Hash2Bytes a b domain =
    .ok (scalarToBytes (poseidon2Hash2 (scalarOf a) (scalarOf b) domain)) := by
  unfold poseidon2Hash2Bytes
  rw [bytesToScalar_eq ha, bytesToScalar_eq hb]
  rfl

include ha hb hc in
theorem hash3Bytes_eq (domain : Fr) : hash3Bytes a b c domain =
    .ok (scalarToBytes (poseidon2Hash3 (scalarOf a) (scalarOf b) (scalarOf c) domain)) := by
  unfold hash3Bytes
  rw [bytesToScalar_eq ha, bytesToScalar_eq hb, bytesToScalar_eq hc]
  rfl

include ha in
theorem derivePublicKey_eq :
    derivePublicKey a = .ok (scalarToBytes (poseidon2Hash2 (scalarOf a) 0 3)) := by
  unfold derivePublicKey
  rw [bytesToScalar_eq ha]
  rfl

include ha in
theorem aspMembershipLeaf_eq (blinding : Fr) :
    aspMembershipLeaf a blinding = .ok (poseidon2Hash2 (scalarOf a) blinding 1) := by
  unfold aspMembershipLeaf
  rw [poseidon2Hash2Bytes_eq ha (length_scalarToBytes blinding), scalarOf_scalarToBytes, ok_bind,
    fieldTryFromLeBytes_scalarToBytes]

end

end PrivatePayments.Prover
