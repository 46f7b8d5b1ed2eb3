import PrivatePayments.Prover.Crypto

/-!
# PrivatePayments.Prover.Groth16

Proof verification off the chain (`verify_proof` of `prover/src/prover.rs`). The curve
arithmetic and its encodings are `ark_groth16`'s and stand in `Groth16`.
-/

namespace PrivatePayments

namespace U256

/-- `Field::to_le_bytes`, also of a number that is not canonical. -/
def toLeBytes (v : U256) : List UInt8 := Prover.toLeBytes Prover.fieldSize v.val

@[simp] theorem length_toLeBytes (v : U256) : v.toLeBytes.length = 32 :=
  Prover.length_toLeBytes _ _

@[simp] theorem leValue_toLeBytes (v : U256) : Prover.leValue v.toLeBytes = v.val :=
  Prover.leValue_toLeBytes v.isLt

theorem toLeBytes_injective : Function.Injective toLeBytes := by
  intro v w h
  apply Fin.ext
  rw [← leValue_toLeBytes v, h, leValue_toLeBytes]

end U256

namespace Prover

/-- The parts of `ark_groth16` and `ark_serialize` that the verifier calls, with the texts of
their errors. -/
structure Groth16 where
  VerifyingKey : Type
  PreparedVerifyingKey : Type
  Proof : Type
  /-- `VerifyingKey::deserialize_compressed` -/
  deserializeVk : List UInt8 → Except String VerifyingKey
  /-- `Proof::deserialize_compressed` -/
  deserializeProof : List UInt8 → Except String Proof
  /-- `process_vk` -/
  processVk : VerifyingKey → Except String PreparedVerifyingKey
  /-- `gamma_abc_g1.len()` -/
  gammaAbcLength : VerifyingKey → Nat
  /-- `verify_with_processed_vk` -/
  verifyWithProcessedVk : PreparedVerifyingKey → List Fr → Proof → Except String Bool

/-- `bytes_to_fr`, the same function as `bytes_to_scalar` -/
def bytesToFr (bytes : List UInt8) : Except String Fr := bytesToScalar bytes

/-- `chunks_exact(FIELD_SIZE)` -/
def chunksExact (bytes : List UInt8) : List (List UInt8) :=
  (List.range (bytes.length / fieldSize)).map fun i => (bytes.drop (fieldSize * i)).take fieldSize

variable (g : Groth16)

/-- `verify_proof_with_processed_vk` -/
def verifyProofWithProcessedVk (pvk : g.PreparedVerifyingKey) (expectedInputs : Nat)
    (proof : g.Proof) (publicInputsBytes : List UInt8) : Except String Bool :=
  let numInputs := publicInputsBytes.length / fieldSize
  if publicInputsBytes.length % fieldSize ≠ 0 then
    .error "Invalid public inputs size"
  else if numInputs ≠ expectedInputs then
    .error s!"Public input count mismatch: got {numInputs}, expected {expectedInputs}"
  else do
    let publicInputs ← (chunksExact publicInputsBytes).mapM bytesToFr
    (g.verifyWithProcessedVk pvk publicInputs proof).mapError ("Verification error: " ++ ·)

/-- `verify_proof` -/
def verifyProof (vkBytes proofBytes publicInputsBytes : List UInt8) : Except String Bool := do
  let vk ← (g.deserializeVk vkBytes).mapError ("Failed to load VK: " ++ ·)
  let pvk ← (g.processVk vk).mapError ("Failed to process VK: " ++ ·)
  let proof ← (g.deserializeProof proofBytes).mapError ("Failed to load proof: " ++ ·)
  if g.gammaAbcLength vk = 0 then
    .error "Invalid verifying key"
  else verifyProofWithProcessedVk g pvk (g.gammaAbcLength vk - 1) proof publicInputsBytes

/-! ### What an accepted proof has passed -/

/-- The verifier accepts a proof for public inputs. -/
def Groth16.Accepts (vkBytes proofBytes : List UInt8) (publicInputs : List Fr) : Prop :=
  ∃ vk pvk proof, g.deserializeVk vkBytes = .ok vk ∧ g.processVk vk = .ok pvk ∧
    g.deserializeProof proofBytes = .ok proof ∧ publicInputs.length + 1 = g.gammaAbcLength vk ∧
    g.verifyWithProcessedVk pvk publicInputs proof = .ok true

theorem length_flatMap_toLeBytes (inputs : List U256) :
    (inputs.flatMap U256.toLeBytes).length = fieldSize * inputs.length := by
  induction inputs with
  | nil => rfl
  | cons v inputs ih =>
      rw [List.flatMap_cons, List.length_append, ih, U256.length_toLeBytes, List.length_cons,
        Nat.mul_succ, Nat.add_comm]
      rfl

/-- The chunks of numbers of 32 bytes, one after the other, are the numbers. -/
theorem chunksExact_flatMap (inputs : List U256) :
    chunksExact (inputs.flatMap U256.toLeBytes) = inputs.map U256.toLeBytes := by
  unfold chunksExact
  rw [length_flatMap_toLeBytes, Nat.mul_div_cancel_left _ (by decide)]
  refine List.ext_getElem (by simp) fun i h₁ h₂ => ?_
  rw [List.getElem_map, List.getElem_range, List.getElem_map]
  rw [List.length_map] at h₂
  -- the numbers before the one at `i` are dropped together
  have hsplit : inputs = inputs.take i ++ inputs[i] :: inputs.drop (i + 1) := by
    rw [List.getElem_cons_drop, List.take_append_drop]
  have hbefore : ((inputs.take i).flatMap U256.toLeBytes).length = fieldSize * i := by
    rw [length_flatMap_toLeBytes, List.length_take, Nat.min_eq_left h₂.le]
  calc ((inputs.flatMap U256.toLeBytes).drop (fieldSize * i)).take fieldSize
      = ((((inputs.take i).flatMap U256.toLeBytes) ++
          (inputs[i].toLeBytes ++ (inputs.drop (i + 1)).flatMap U256.toLeBytes)).drop
            (fieldSize * i)).take fieldSize := by
        rw [← List.flatMap_cons, ← List.flatMap_append, ← hsplit]
    _ = (inputs[i].toLeBytes ++ (inputs.drop (i + 1)).flatMap U256.toLeBytes).take fieldSize := by
        rw [← hbefore, List.drop_left]
    _ = inputs[i].toLeBytes := List.take_left' (U256.length_toLeBytes _)

theorem mapM_bytesToFr (inputs : List U256) :
    (inputs.map U256.toLeBytes).mapM bytesToFr = .ok (inputs.map U256.toFr) := by
  induction inputs with
  | nil => rfl
  | cons v inputs ih =>
      have hv : bytesToFr v.toLeBytes = .ok v.toFr := by
        rw [bytesToFr, bytesToScalar_of_length v.length_toLeBytes, U256.leValue_toLeBytes]
        rfl
      rw [List.map_cons, List.mapM_cons, hv, ih]
      rfl

theorem mapError_ok {α ε δ : Type} {x : Except ε α} {f : ε → δ} {a : α}
    (h : x.mapError f = .ok a) : x = .ok a := by
  cases x with
  | error e => cases h
  | ok b =>
      cases h
      rfl

variable {g} {vkBytes proofBytes : List UInt8}

/-- The verifier is asked about the numbers that were written, modulo the field order. -/
theorem verifyProof_true {inputs : List U256}
    (h : verifyProof g vkBytes proofBytes (inputs.flatMap U256.toLeBytes) = .ok true) :
    g.Accepts vkBytes proofBytes (inputs.map U256.toFr) := by
  obtain ⟨vk, hvk, h⟩ := exists_of_bind_ok h
  obtain ⟨pvk, hpvk, h⟩ := exists_of_bind_ok h
  obtain ⟨proof, hproof, h⟩ := exists_of_bind_ok h
  by_cases hkey : g.gammaAbcLength vk = 0
  · rw [if_pos hkey] at h
    cases h
  · rw [if_neg hkey] at h
    unfold verifyProofWithProcessedVk at h
    rw [chunksExact_flatMap, mapM_bytesToFr, length_flatMap_toLeBytes] at h
    simp only [Nat.mul_mod_right, ne_eq, not_true_eq_false, if_false] at h
    rw [Nat.mul_div_cancel_left _ (by decide)] at h
    by_cases hcount : inputs.length = g.gammaAbcLength vk - 1
    · rw [if_neg (not_not.mpr hcount)] at h
      refine ⟨vk, pvk, proof, mapError_ok hvk, mapError_ok hpvk, mapError_ok hproof, ?_,
        mapError_ok h⟩
      rw [List.length_map]
      omega
    · rw [if_pos hcount] at h
      cases h

end Prover

end PrivatePayments
