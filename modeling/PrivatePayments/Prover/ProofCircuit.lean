import PrivatePayments.Prover.Groth16
import PrivatePayments.Prover.R1cs
import Mathlib.Algebra.BigOperators.Group.List.Basic
import Mathlib.Algebra.Group.Fin.Basic

/-!
# PrivatePayments.Prover.ProofCircuit

The circuit that replays a constraint system (`R1CSCircuit` of `prover/src/prover.rs`) and the
prover over it.

`generate_constraints` builds a constraint system of `ark_relations`, which numbers public and
private variables apart and keeps the one in front of the public ones. Its linear combinations
are sums of terms. The proofs and keys of `ark_groth16` stand in `Groth16Prover`.
-/

namespace PrivatePayments.Prover

open R1cs (Term LinearCombination Constraint R1CS Slice Target)

/-! ## Constraint systems of `ark_relations` -/

/-- `Variable` -/
inductive Variable
  | one
  | instanceVar (index : Nat)
  | witnessVar (index : Nat)
  deriving DecidableEq, Repr

/-- `lc!()` and what is added to it. -/
abbrev Combination := List (Fr × Variable)

/-- `ConstraintSystem` -/
structure ConstraintSystem where
  instanceAssignment : List Fr
  witnessAssignment : List Fr
  constraints : List (Combination × Combination × Combination)
  deriving DecidableEq

/-- `ConstraintSystem::new` -/
def ConstraintSystem.new : ConstraintSystem := ⟨[1], [], []⟩

/-- How `generate_constraints` ends without a system. -/
inductive SynthesisError
  | unsatisfiable
  | panicked (message : String)
  deriving DecidableEq, Repr

/-- A function that builds a constraint system. -/
abbrev Synthesis (α : Type) := EStateM SynthesisError ConstraintSystem α

/-- `new_input_variable` -/
def newInputVariable (value : Fr) : Synthesis Variable := do
  let cs ← get
  set { cs with instanceAssignment := cs.instanceAssignment ++ [value] }
  pure (.instanceVar cs.instanceAssignment.length)

/-- `new_witness_variable` -/
def newWitnessVariable (value : Fr) : Synthesis Variable := do
  let cs ← get
  set { cs with witnessAssignment := cs.witnessAssignment ++ [value] }
  pure (.witnessVar cs.witnessAssignment.length)

/-- `enforce_r1cs_constraint` -/
def enforceR1csConstraint (a b c : Combination) : Synthesis Unit :=
  modify fun cs => { cs with constraints := cs.constraints ++ [(a, b, c)] }

/-! ## The circuit -/

/-- `R1CSCircuit` -/
structure R1CSCircuit where
  r1cs : R1CS
  witness : List Fr

namespace R1CSCircuit

variable (circuit : R1CSCircuit)

/-- The terms of a constraint, in the order in which their wires are checked. -/
def terms (constraint : Constraint) : List Term :=
  constraint.a.terms ++ constraint.b.terms ++ constraint.c.terms

/-- The variable of a public wire. -/
def publicVariable (wire : Nat) : Synthesis Variable :=
  match circuit.witness[wire]? with
  | some value => newInputVariable value
  | none => throw .unsatisfiable

/-- The variable of a private wire. -/
def privateVariable (wire : Nat) : Synthesis Variable :=
  newWitnessVariable (circuit.witness[wire]?.getD 0)

/-- A linear combination over the variables. -/
def combination (vars : List Variable) (lc : LinearCombination) : Synthesis Combination :=
  lc.terms.mapM fun t =>
    match vars[t.wireId.toNat]? with
    | some v => pure (t.coefficient, v)
    | none => throw (.panicked "index out of bounds")

/-- One constraint. -/
def enforce (vars : List Variable) (constraint : Constraint) : Synthesis Unit := do
  let a ← combination vars constraint.a
  let b ← combination vars constraint.b
  let c ← combination vars constraint.c
  enforceR1csConstraint a b c

/-- `generate_constraints` -/
def generateConstraints : Synthesis Unit := do
  if circuit.witness.head? ≠ some 1 then throw .unsatisfiable
  else if ¬ circuit.r1cs.numPublic.toNat + 1 < 2 ^ 32 then
    throw (.panicked "R1CS num of public inputs addition failed")
  else if circuit.r1cs.numPublic.toNat + 1 > circuit.r1cs.numWires.toNat then throw .unsatisfiable
  else if circuit.witness.length < circuit.r1cs.numWires.toNat then throw .unsatisfiable
  else
    let numPublic := circuit.r1cs.numPublic.toNat
    let numWires := circuit.r1cs.numWires.toNat
    let publics ← (List.range' 1 numPublic).mapM circuit.publicVariable
    let privates ← (List.range' (numPublic + 1) (numWires - (numPublic + 1))).mapM
      circuit.privateVariable
    let vars := Variable.one :: (publics ++ privates)
    if circuit.r1cs.constraints.any fun k => (terms k).any fun t => t.wireId.toNat ≥ numWires then
      throw .unsatisfiable
    else forM circuit.r1cs.constraints (enforce vars)

end R1CSCircuit

/-! ## Meaning -/

/-- The value of a variable. -/
def Variable.value (cs : ConstraintSystem) : Variable → Fr
  | .one => 1
  | .instanceVar index => cs.instanceAssignment.getD index 0
  | .witnessVar index => cs.witnessAssignment.getD index 0

/-- The value of a combination. -/
def combinationValue (cs : ConstraintSystem) (terms : Combination) : Fr :=
  (terms.map fun t => t.1 * t.2.value cs).sum

/-- The assignment satisfies the constraints. -/
def ConstraintSystem.Satisfied (cs : ConstraintSystem) : Prop :=
  ∀ k ∈ cs.constraints,
    combinationValue cs k.1 * combinationValue cs k.2.1 = combinationValue cs k.2.2

/-- What a key is made for: the numbers of variables, and the constraints. -/
structure Shape where
  instances : Nat
  witnesses : Nat
  constraints : List (Combination × Combination × Combination)

/-- The shape of a system. -/
def ConstraintSystem.shape (cs : ConstraintSystem) : Shape where
  instances := cs.instanceAssignment.length
  witnesses := cs.witnessAssignment.length
  constraints := cs.constraints

/-- The value of a linear combination of a file. -/
def R1cs.LinearCombination.value (witness : List Fr) (lc : LinearCombination) : Fr :=
  (lc.terms.map fun t => t.coefficient * witness.getD t.wireId.toNat 0).sum

/-- A witness satisfies the constraints of a file. -/
def R1cs.R1CS.Satisfied (r1cs : R1CS) (witness : List Fr) : Prop :=
  ∀ k ∈ r1cs.constraints, k.a.value witness * k.b.value witness = k.c.value witness

/-! ## The prover -/

/-- What `prover.rs` uses of `ark_groth16` and `ark_serialize` beside the verifier. The points of
a proof are read as the numbers of their coordinates. -/
structure Groth16Prover extends Groth16 where
  ProvingKey : Type
  Rng : Type
  /-- `ProvingKey::deserialize_compressed_unchecked` -/
  deserializePk : List UInt8 → Except String ProvingKey
  /-- `pk.vk` -/
  vk : ProvingKey → VerifyingKey
  /-- The proof of a synthesized system. -/
  createProof : ProvingKey → ConstraintSystem → Rng → Except String Proof
  /-- The text of an error of `generate_constraints`. -/
  synthesisError : SynthesisError → String
  serializeA : Proof → Except String (List UInt8)
  serializeB : Proof → Except String (List UInt8)
  serializeC : Proof → Except String (List UInt8)
  serializeVk : VerifyingKey → Except String (List UInt8)
  /-- `a.x`, `a.y`, `b.x.c0`, `b.x.c1`, `b.y.c0`, `b.y.c1`, `c.x` and `c.y` -/
  coordinates : Proof → Fin 8 → U256

/-- `bigint_to_be_32`, of a number of 32 bytes -/
def bigintToBe32 (value : U256) : List UInt8 := value.toLeBytes.reverse

section Prover

variable (g : Groth16Prover)

/-- `proof_to_uncompressed_bytes`: the imaginary part of a coordinate goes first. -/
def proofToUncompressedBytes (proof : g.Proof) : List UInt8 :=
  [0, 1, 3, 2, 5, 4, 6, 7].flatMap fun i => bigintToBe32 (g.coordinates proof i)

/-- `Prover` -/
structure ProverState where
  pk : g.ProvingKey
  pvk : g.PreparedVerifyingKey
  r1cs : R1CS

/-- `Prover::new` -/
def ProverState.new (t : Target) (pkBytes : List UInt8) (r1csBytes : Slice t) :
    Except R1cs.Failure (ProverState g) := do
  let pk ← (g.deserializePk pkBytes).mapError fun e => .error ("Failed to load proving key: " ++ e)
  let r1cs ← R1cs.parse t r1csBytes
  if g.gammaAbcLength (g.vk pk) - 1 ≠ r1cs.numPublic.toNat then
    .error (.error "VK public input count doesn't match R1CS")
  else do
    let pvk ← (g.processVk (g.vk pk)).mapError fun e => .error ("Failed to process VK: " ++ e)
    .ok ⟨pk, pvk, r1cs⟩

namespace ProverState

variable {g} (self : ProverState g)

/-- `get_verifying_key` -/
def getVerifyingKey : Except String (List UInt8) :=
  (g.serializeVk (g.vk self.pk)).mapError ("Failed to serialize VK: " ++ ·)

/-- The checks and the witness of `prove` and `prove_bytes_uncompressed`. -/
def readWitness (witnessBytes : List UInt8) : Except String (List Fr) :=
  if witnessBytes.length % fieldSize ≠ 0 then
    .error s!"Invalid witness size: {witnessBytes.length} bytes (not multiple of {fieldSize})"
  else if witnessBytes.length / fieldSize < self.r1cs.numWires.toNat then
    .error (s!"Witness too short: {witnessBytes.length / fieldSize} elements, circuit needs " ++
      s!"{self.r1cs.numWires} wires")
  else (chunksExact witnessBytes).mapM bytesToFr

/-- `SNARK::prove`: the circuit is synthesized and proved. -/
def snarkProve (rng : g.Rng) (circuit : R1CSCircuit) : Except String g.Proof :=
  match circuit.generateConstraints.run .new with
  | .ok _ cs => g.createProof self.pk cs rng
  | .error e _ => .error (g.synthesisError e)

/-- The proof that `prove` and `prove_bytes_uncompressed` encode. -/
def proveWitness (rng : g.Rng) (witnessBytes : List UInt8) : Except String g.Proof := do
  let witness ← self.readWitness witnessBytes
  (self.snarkProve rng ⟨self.r1cs, witness⟩).mapError ("Proof generation failed: " ++ ·)

/-- `prove_bytes`: what `prove` returns, one part after the other. -/
def proveBytes (rng : g.Rng) (witnessBytes : List UInt8) : Except String (List UInt8) := do
  let proof ← self.proveWitness rng witnessBytes
  let a ← (g.serializeA proof).mapError ("Failed to serialize A: " ++ ·)
  let b ← (g.serializeB proof).mapError ("Failed to serialize B: " ++ ·)
  let c ← (g.serializeC proof).mapError ("Failed to serialize C: " ++ ·)
  .ok (a ++ b ++ c)

/-- `prove_bytes_uncompressed` -/
def proveBytesUncompressed (rng : g.Rng) (witnessBytes : List UInt8) :
    Except String (List UInt8) := do
  let proof ← self.proveWitness rng witnessBytes
  .ok (proofToUncompressedBytes g proof)

/-- `proof_bytes_to_uncompressed` -/
def proofBytesToUncompressed (proofBytes : List UInt8) : Except String (List UInt8) := do
  let proof ← (g.deserializeProof proofBytes).mapError ("Failed to load proof: " ++ ·)
  .ok (proofToUncompressedBytes g proof)

/-- `extract_public_inputs` -/
def extractPublicInputs (t : Target) (witnessBytes : Slice t) : Except String (List UInt8) :=
  let numPublic := self.r1cs.numPublic.toNat
  let stop := fieldSize + numPublic * fieldSize
  if witnessBytes.val.length % fieldSize ≠ 0 then .error "Invalid witness size"
  else if ¬ numPublic * fieldSize < t.usizeSize then
    .error "Overflow calculating public inputs size"
  else if ¬ stop < t.usizeSize then .error "Overflow calculating end offset"
  else if stop > witnessBytes.val.length then
    .error (s!"Witness too short: expected at least {stop} bytes for {numPublic} public inputs")
  else .ok ((witnessBytes.val.drop fieldSize).take (numPublic * fieldSize))

/-- `verify` -/
def verify (proofBytes publicInputsBytes : List UInt8) : Except String Bool := do
  let proof ← (g.deserializeProof proofBytes).mapError ("Failed to load proof: " ++ ·)
  if g.gammaAbcLength (g.vk self.pk) = 0 then .error "Invalid verifying key"
  else
    verifyProofWithProcessedVk g.toGroth16 self.pvk (g.gammaAbcLength (g.vk self.pk) - 1) proof
      publicInputsBytes

end ProverState

/-- `convert_proof_to_soroban` -/
def convertProofToSoroban (proofBytes : List UInt8) : Except String (List UInt8) := do
  let proof ← (g.deserializeProof proofBytes).mapError ("Failed to deserialize proof: " ++ ·)
  .ok (proofToUncompressedBytes g proof)

end Prover

end PrivatePayments.Prover
