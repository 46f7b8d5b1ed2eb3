import Mathlib.Algebra.Group.Int.Defs
import Mathlib.Algebra.GroupWithZero.Nat
import Mathlib.Data.Fin.Basic

/-!
# PrivatePayments.Types

Keys, amounts, external data and the configured contracts of the client (`types/src/lib.rs`,
`types/src/amounts.rs`, `types/src/ext_data.rs`).
-/

namespace PrivatePayments

/-- A key of 32 bytes. -/
abbrev Bytes32 := { bytes : List UInt8 // bytes.length = 32 }

/-- `[0u8; 32]` -/
def Bytes32.zero : Bytes32 := ⟨List.replicate 32 0, List.length_replicate⟩

/-- `u128` -/
abbrev u128Size : Nat := 340282366920938463463374607431768211456

instance : NeZero u128Size := ⟨Nat.succ_ne_zero _⟩

/-- `NoteAmount` -/
abbrev NoteAmount := Fin u128Size

/-- `ExtAmount`, an `i128` -/
abbrev ExtAmount := { v : Int // -2 ^ 127 ≤ v ∧ v < 2 ^ 127 }

/-- `ExtData` of the client -/
structure ExtData where
  recipient : String
  extAmount : ExtAmount
  encryptedOutput0 : List UInt8
  encryptedOutput1 : List UInt8

/-- `NoteKeyPair` -/
structure NoteKeyPair where
  privateKey : Bytes32
  publicKey : Bytes32
  deriving DecidableEq, Repr

/-- `EncryptionKeyPair` -/
structure EncryptionKeyPair where
  privateKey : Bytes32
  publicKey : Bytes32
  deriving DecidableEq, Repr

/-- `PoolConfigEntry`; its token and its asset play no part here. -/
structure PoolConfigEntry where
  poolContractId : String
  deploymentLedger : UInt32
  enabled : Bool
  deriving DecidableEq

/-- `ContractConfig`: the contracts of a deployment that the client reads. -/
structure ContractConfig where
  aspMembership : String
  aspMembershipDeploymentLedger : Option UInt32
  aspNonMembership : String
  publicKeyRegistry : String
  pools : List PoolConfigEntry

namespace ContractConfig

variable (config : ContractConfig)

/-- `enabled_pools` -/
def enabledPools : List PoolConfigEntry := config.pools.filter PoolConfigEntry.enabled

/-- `all_contract_ids` -/
def allContractIds : List String :=
  config.enabledPools.map PoolConfigEntry.poolContractId ++
    [config.aspMembership, config.publicKeyRegistry]

/-- `min_deployment_ledger` -/
def minDeploymentLedger : Except String UInt32 :=
  match (config.enabledPools.map PoolConfigEntry.deploymentLedger).min? with
  | some ledger => .ok ledger
  | none => .error "at least one pool should be enabled"

end ContractConfig

end PrivatePayments
