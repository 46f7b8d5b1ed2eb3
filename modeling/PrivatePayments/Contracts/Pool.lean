import PrivatePayments.Contracts.MerkleWithHistory

/-!
# PrivatePayments.Contracts.Pool

The privacy pool contract (`pool.rs`): its storage, the constructor, `transact`, and the
calls of the administrator. The host functions and the other contracts that a call
reaches are in `Host` and `CallEnv`.
-/

namespace PrivatePayments

namespace I256

/-- `I256::sub`, which traps on overflow -/
def sub (a b : I256) : Option I256 :=
  if h : -2 ^ 255 ≤ a.val - b.val ∧ a.val - b.val < 2 ^ 255 then some ⟨a.val - b.val, h⟩ else none

/-- `U256::from_be_bytes(&v.to_be_bytes())`: the two's complement bits -/
def toU256Bits (v : I256) : U256 := Fin.ofNat u256Size (v.val % (u256Size : Int)).toNat

/-- `I256::to_i128` -/
def toI128 (v : I256) : Option Int :=
  if -2 ^ 127 ≤ v.val ∧ v.val < 2 ^ 127 then some v.val else none

/-- `I256::from_i32(env, 0)` -/
def zero : I256 := ⟨0, by decide⟩

end I256

/-- `U256::sub`, which traps on underflow -/
def U256.checkedSub (a b : U256) : Option U256 :=
  if b.val ≤ a.val then some (a - b) else none

/-- `U256::from_parts(0x0100_0000_0000_0000, 0, 0, 0)`, which is `2 ^ 248` -/
def U256.maxExtAmount : U256 := Fin.ofNat u256Size (0x0100000000000000 * 2 ^ 192)

namespace Pool

/-- A contract or account address. -/
abbrev Address := Nat

/-- `Bytes` -/
abbrev Bytes := List UInt8

/-- The errors of the contract. -/
inductive PoolError
  | notAuthorized
  | merkleTreeFull
  | alreadyInitialized
  | wrongLevels
  | nextIndexNotEven
  | wrongExtAmount
  | invalidProof
  | unknownRoot
  | alreadySpentNullifier
  | wrongExtHash
  | notInitialized
  | overflow
  | nonCanonicalPublicInput
  deriving DecidableEq, Repr

/-- `impl From<MerkleError> for Error` -/
def PoolError.ofMerkle : MerkleWithHistory.MerkleError → PoolError
  | .alreadyInitialized => .alreadyInitialized
  | .merkleTreeFull => .merkleTreeFull
  | .wrongLevels => .wrongLevels
  | .nextIndexNotEven => .nextIndexNotEven
  | .notInitialized => .notInitialized
  | .overflow => .overflow

/-- `Groth16Proof`: three points as bytes. -/
structure Groth16Proof where
  a : Bytes
  b : Bytes
  c : Bytes

/-- `Groth16Proof::is_empty` -/
def Groth16Proof.isEmpty (proof : Groth16Proof) : Bool :=
  proof.a.isEmpty || proof.b.isEmpty || proof.c.isEmpty

/-- `Proof`: the proof and its public inputs. -/
structure Proof where
  proof : Groth16Proof
  root : U256
  inputNullifiers : List U256
  outputCommitment0 : U256
  outputCommitment1 : U256
  publicAmount : U256
  extDataHash : U256
  aspMembershipRoot : U256
  aspNonMembershipRoot : U256

/-- `ExtData` -/
structure ExtData where
  recipient : Address
  extAmount : I256
  encryptedOutput0 : Bytes
  encryptedOutput1 : Bytes

/-- The events of the contract. -/
inductive PoolEvent
  /-- `NewCommitmentEvent` -/
  | newCommitment (commitment : U256) (index : Nat) (encryptedOutput : Bytes)
  /-- `NewNullifierEvent` -/
  | newNullifier (nullifier : U256)

/-- The storage entries under `DataKey` and `MerkleDataKey`, and the published events. -/
structure PoolStorage where
  admin : Option Address := none
  token : Option Address := none
  verifier : Option Address := none
  /-- `DataKey::Nullifiers`, a map from nullifiers to flags -/
  nullifiers : Option (U256 → Option Bool) := none
  aspMembership : Option Address := none
  aspNonMembership : Option Address := none
  tree : MerkleWithHistory.MerkleStorage := {}
  events : List PoolEvent := []

/-- The monad of the contract's functions. -/
abbrev PoolM := Contract PoolStorage PoolError

/-- What is the same for every call. -/
structure Host where
  /-- XDR serialisation -/
  toXdr : ExtData → Bytes
  /-- `env.crypto().keccak256`, read as a big-endian number -/
  keccak256 : Bytes → U256
  /-- The verifier contract; a verifier that returns an error traps the caller. -/
  verify : Address → Groth16Proof → List Fr → Option Bool

/-- What a call finds on the ledger. -/
structure CallEnv where
  /-- `current_contract_address` -/
  this : Address
  /-- whether `require_auth` of the sender or the administrator passes -/
  authorised : Bool
  /-- `TokenClient::transfer` of the token from one address to another -/
  transfer : Address → Address → Address → Int → Option Unit
  /-- `get_root` of an ASP membership contract -/
  aspMembershipRoot : Address → Option U256
  /-- `get_root` of an ASP non-membership contract -/
  aspNonMembershipRoot : Address → Option U256

/-- A call into the tree module, with `?` on its result. -/
def liftTree {α : Type} (f : MerkleWithHistory.MerkleM α) : PoolM α := fun s =>
  match f.run s.tree with
  | .ok a tree => .ok a { s with tree }
  | .error .trap tree => .error .trap { s with tree }
  | .error (.error e) tree => .error (.error (.ofMerkle e)) { s with tree }

/-- `let _ = f`: an error is dropped, what was written stays, a trap still traps. -/
def ignoreErr (f : PoolM Unit) : PoolM Unit := fun s =>
  match f.run s with
  | .error (.error _) s' => .ok () s'
  | r => r

/-- `publish` -/
def publish (e : PoolEvent) : PoolM Unit := modify fun s => { s with events := s.events ++ [e] }

/-- `__constructor` -/
def constructor (admin token verifier aspMembership aspNonMembership : Address) (levels : Nat) :
    PoolM Unit := do
  modify fun s => { s with
    admin := some admin
    token := some token
    verifier := some verifier
    aspMembership := some aspMembership
    aspNonMembership := some aspNonMembership
    nullifiers := some fun _ => none }
  liftTree (MerkleWithHistory.init levels)

/-- `i256_to_i128_nonneg` -/
def i256ToI128Nonneg (v : I256) : PoolM Int := do
  Contract.failIf (v.val < 0) .wrongExtAmount
  Contract.okOr v.toI128 .wrongExtAmount

/-- `i256_abs_to_u256` -/
def i256AbsToU256 (v : I256) : PoolM U256 := do
  let abs ← if v.val ≥ 0 then pure v else Contract.hostCall (I256.zero.sub v)
  return abs.toU256Bits

/-- `calculate_public_amount` -/
def calculatePublicAmount (extAmount : I256) : PoolM U256 := do
  let absExt ← i256AbsToU256 extAmount
  Contract.failIf (absExt.val ≥ U256.maxExtAmount.val) .wrongExtAmount
  if extAmount.val ≥ 0 then return extAmount.toU256Bits
  else
    let neg ← Contract.hostCall (I256.zero.sub extAmount)
    Contract.hostCall (U256.checkedSub (Fin.ofNat u256Size bn256Modulus) neg.toU256Bits)

/-- `get_nullifiers` -/
def getNullifiers : PoolM (U256 → Option Bool) := do
  let s ← get
  Contract.okOr s.nullifiers .notInitialized

/-- `is_spent` -/
def isSpent (n : U256) : PoolM Bool := do
  let nulls ← getNullifiers
  return (nulls n).getD false

/-- `mark_spent` -/
def markSpent (n : U256) : PoolM Unit := do
  let nulls ← getNullifiers
  modify fun s => { s with nullifiers := some (Function.update nulls n (some true)) }

/-- `validate_bn256_public_input` -/
def validateBn256PublicInput (value : U256) : PoolM Unit :=
  Contract.failIf (value.val ≥ bn256Modulus) .nonCanonicalPublicInput

/-- `validate_bn256_public_inputs` -/
def validateBn256PublicInputs (proof : Proof) : PoolM Unit := do
  validateBn256PublicInput proof.root
  validateBn256PublicInput proof.publicAmount
  forM proof.inputNullifiers validateBn256PublicInput
  validateBn256PublicInput proof.outputCommitment0
  validateBn256PublicInput proof.outputCommitment1
  validateBn256PublicInput proof.aspMembershipRoot
  validateBn256PublicInput proof.aspNonMembershipRoot

/-- The public inputs in the order of the circuit. -/
def Proof.publicInputs (proof : Proof) : List Fr :=
  [proof.root.toFr, proof.publicAmount.toFr, proof.extDataHash.toFr] ++
    proof.inputNullifiers.map U256.toFr ++
    [proof.outputCommitment0.toFr, proof.outputCommitment1.toFr] ++
    List.replicate proof.inputNullifiers.length proof.aspMembershipRoot.toFr ++
    List.replicate proof.inputNullifiers.length proof.aspNonMembershipRoot.toFr

variable (host : Host) (env : CallEnv)

/-- `verify_proof` -/
def verifyProof (proof : Proof) : PoolM Bool := do
  Contract.failIf proof.proof.isEmpty .invalidProof
  let s ← get
  let verifier ← Contract.okOr s.verifier .notInitialized
  validateBn256PublicInputs proof
  Contract.hostCall (host.verify verifier proof.proof proof.publicInputs)

/-- `hash_ext_data` -/
def hashExtData (ext : ExtData) : U256 := (host.keccak256 (host.toXdr ext)).remEuclidModulus

/-- `get_asp_membership_root` -/
def getAspMembershipRoot : PoolM U256 := do
  let s ← get
  let asp ← Contract.okOr s.aspMembership .notInitialized
  Contract.hostCall (env.aspMembershipRoot asp)

/-- `get_asp_non_membership_root` -/
def getAspNonMembershipRoot : PoolM U256 := do
  let s ← get
  let asp ← Contract.okOr s.aspNonMembership .notInitialized
  Contract.hostCall (env.aspNonMembershipRoot asp)

/-- Step 2 of `internal_transact`: no nullifier is spent. -/
def checkNullifier (n : U256) : PoolM Unit := do
  let spent ← isSpent n
  Contract.failIf spent .alreadySpentNullifier

/-- Step 6 of `internal_transact`. -/
def spendNullifier (n : U256) : PoolM Unit := do
  ignoreErr (markSpent n)
  publish (.newNullifier n)

/-- Step 7 of `internal_transact`: the withdrawal. -/
def processWithdrawal (extData : ExtData) : PoolM Unit := do
  let s ← get
  let token ← Contract.okOr s.token .notInitialized
  if extData.extAmount.val < 0 then
    let abs ← Contract.hostCall (I256.zero.sub extData.extAmount)
    let amount ← i256ToI128Nonneg abs
    Contract.hostCall (env.transfer token env.this extData.recipient amount)

/-- `internal_transact` -/
def internalTransact (proof : Proof) (extData : ExtData) : PoolM Unit := do
  -- 1. Merkle root check
  let known ← liftTree (MerkleWithHistory.isKnownRoot proof.root)
  Contract.failIf (!known) .unknownRoot
  -- 2. nullifier checks
  forM proof.inputNullifiers checkNullifier
  -- 3. external data hash check
  Contract.failIf (hashExtData host extData ≠ proof.extDataHash) .wrongExtHash
  -- 4. public amount check
  let expectedPublicAmount ← calculatePublicAmount extData.extAmount
  Contract.failIf (proof.publicAmount ≠ expectedPublicAmount) .wrongExtAmount
  -- ASP root validation
  let memberRoot ← getAspMembershipRoot env
  let nonMemberRoot ← getAspNonMembershipRoot env
  Contract.failIf (memberRoot ≠ proof.aspMembershipRoot ∨
    nonMemberRoot ≠ proof.aspNonMembershipRoot) .invalidProof
  -- 5. ZK proof verification
  let valid ← verifyProof host proof
  Contract.failIf (!valid) .invalidProof
  -- 6. mark nullifiers as spent
  forM proof.inputNullifiers spendNullifier
  -- 7. process withdrawal
  processWithdrawal env extData
  -- 9. insert new commitments
  let (idx0, idx1) ← liftTree
    (MerkleWithHistory.insertTwoLeaves proof.outputCommitment0 proof.outputCommitment1)
  -- 10. commitment events
  publish (.newCommitment proof.outputCommitment0 idx0 extData.encryptedOutput0)
  publish (.newCommitment proof.outputCommitment1 idx1 extData.encryptedOutput1)

/-- The deposit of `transact`. -/
def processDeposit (extData : ExtData) (sender : Address) : PoolM Unit := do
  let s ← get
  let token ← Contract.okOr s.token .notInitialized
  if extData.extAmount.val > 0 then
    let amount ← i256ToI128Nonneg extData.extAmount
    Contract.hostCall (env.transfer token sender env.this amount)

/-- `transact` -/
def transact (proof : Proof) (extData : ExtData) (sender : Address) : PoolM Unit := do
  Contract.requireAuth env.authorised
  processDeposit env extData sender
  internalTransact host env proof extData

/-- `update_admin` -/
def updateAdmin (newAdmin : Address) : PoolM Unit := do
  let s ← get
  Contract.failIf s.admin.isNone .notInitialized
  Contract.requireAuth env.authorised
  modify fun s => { s with admin := some newAdmin }

/-- `update_asp_membership` -/
def updateAspMembership (newAspMembership : Address) : PoolM Unit := do
  let s ← get
  let _ ← Contract.okOr s.admin .notInitialized
  Contract.requireAuth env.authorised
  modify fun s => { s with aspMembership := some newAspMembership }

/-- `update_asp_non_membership` -/
def updateAspNonMembership (newAspNonMembership : Address) : PoolM Unit := do
  let s ← get
  let _ ← Contract.okOr s.admin .notInitialized
  Contract.requireAuth env.authorised
  modify fun s => { s with aspNonMembership := some newAspNonMembership }

/-! ### Runs -/

/-- One call of `transact`. -/
structure Transaction where
  proof : Proof
  extData : ExtData
  sender : Address

/-- One call of the contract. -/
inductive Call
  | transact (env : CallEnv) (tx : Transaction)
  | updateAdmin (env : CallEnv) (newAdmin : Address)
  | updateAspMembership (env : CallEnv) (newAspMembership : Address)
  | updateAspNonMembership (env : CallEnv) (newAspNonMembership : Address)

/-- The function that a call runs. -/
def Call.function : Call → PoolM Unit
  | .transact env tx => Pool.transact host env tx.proof tx.extData tx.sender
  | .updateAdmin env newAdmin => Pool.updateAdmin env newAdmin
  | .updateAspMembership env asp => Pool.updateAspMembership env asp
  | .updateAspNonMembership env asp => Pool.updateAspNonMembership env asp

/-- The accepted transactions of a run, in order, and the storage at its end; a rejected
call leaves the storage as it was. -/
def run : PoolStorage → List Call → List Transaction × PoolStorage
  | s, [] => ([], s)
  | s, call :: calls =>
      let (result, s') := Contract.invoke (call.function host) s
      let (txs, final) := run s' calls
      match result, call with
      | .ok _, .transact _ tx => (tx :: txs, final)
      | _, _ => (txs, final)

end Pool

end PrivatePayments
