import PrivatePayments.Contracts.Pool

/-!
# PrivatePayments.Contracts.Groth16Verifier

The verifier contract (`circom-groth16-verifier/src/lib.rs`). The curve arithmetic is the
host's and stands in `Bn254`; an operation on bytes that are no point traps.
-/

namespace PrivatePayments.Groth16Verifier

open MerkleWithHistory (checkedAdd)
open Pool (Bytes Groth16Proof)

/-- `env.crypto().bn254()` -/
structure Bn254 where
  G1 : Type
  G2 : Type
  /-- `G1Affine::from_bytes` -/
  g1 : Bytes → G1
  /-- `G2Affine::from_bytes` -/
  g2 : Bytes → G2
  neg : G1 → G1
  g1Add : G1 → G1 → Option G1
  g1Mul : G1 → Fr → Option G1
  pairingCheck : List G1 → List G2 → Option Bool

/-- `Groth16Error` -/
inductive Groth16Error
  | invalidProof
  | malformedPublicInputs
  | malformedProof
  deriving DecidableEq, Repr

/-- `VerificationKey` -/
structure VerificationKey (bn : Bn254) where
  alpha : bn.G1
  beta : bn.G2
  gamma : bn.G2
  delta : bn.G2
  ic : List bn.G1

/-- The monad of the contract, which has no storage. -/
abbrev VerifierM := Contract Unit Groth16Error

variable {bn : Bn254}

/-- The loop of `verify_with_vk` over the public inputs. -/
def accumulate (vk : VerificationKey bn) (pubInputs : List Fr) :
    List Nat → bn.G1 → VerifierM bn.G1
  | [], vkX => pure vkX
  | i :: rest, vkX => do
      let s ← Contract.okOr pubInputs[i]? .malformedPublicInputs
      let icIdx ← Contract.okOr (checkedAdd 32 i 1) .malformedPublicInputs
      let v ← Contract.okOr vk.ic[icIdx]? .malformedPublicInputs
      let prod ← Contract.hostCall (bn.g1Mul v s)
      let vkX ← Contract.hostCall (bn.g1Add vkX prod)
      accumulate vk pubInputs rest vkX

/-- `verify_with_vk` -/
def verifyWithVk (vk : VerificationKey bn) (proof : Groth16Proof) (pubInputs : List Fr) :
    VerifierM Bool := do
  Contract.failIf (checkedAdd 32 pubInputs.length 1 ≠ some vk.ic.length) .malformedPublicInputs
  let vkX ← Contract.okOr vk.ic[0]? .malformedPublicInputs
  let vkX ← accumulate vk pubInputs (List.range pubInputs.length) vkX
  let negA := bn.neg (bn.g1 proof.a)
  let valid ← Contract.hostCall (bn.pairingCheck [negA, vk.alpha, vkX, bn.g1 proof.c]
    [bn.g2 proof.b, vk.beta, vk.gamma, vk.delta])
  if valid then return true else throw (.error .invalidProof)

/-- `CircomGroth16VerifierClient::verify`: an error of the contract traps its caller. -/
def clientVerify (vk : VerificationKey bn) (proof : Groth16Proof) (pubInputs : List Fr) :
    Option Bool :=
  match (verifyWithVk vk proof pubInputs).run () with
  | .ok valid _ => some valid
  | .error _ _ => none

/-- **The length check.** Accepted inputs are as many as the key was made for. -/
theorem clientVerify_length {vk : VerificationKey bn} {proof : Groth16Proof}
    {pubInputs : List Fr} {valid : Bool} (h : clientVerify vk proof pubInputs = some valid) :
    pubInputs.length + 1 = vk.ic.length := by
  unfold clientVerify at h
  cases hrun : (verifyWithVk vk proof pubInputs).run () with
  | error e s =>
      rw [hrun] at h
      cases h
  | ok b s =>
      obtain ⟨hlen, -⟩ := Contract.failIf_bind_ok hrun
      have hlen := not_not.mp hlen
      unfold checkedAdd at hlen
      split at hlen
      · exact Option.some.inj hlen
      · cases hlen

end PrivatePayments.Groth16Verifier
