import PrivatePayments.Prover.Serialization
import PrivatePayments.Types

/-!
# PrivatePayments.Stellar.ScVal

The values of the contract interface that the client builds and reads
(`stellar/src/conversions.rs`, `stellar/src/soroban_encode.rs`), as far as the external data of
a transaction, the answer of `find_key` and the entries of the contracts need them.
-/

namespace PrivatePayments.Stellar

open Prover (toLeBytes leValue)

/-- `ScAddress` -/
inductive ScAddress
  | account (publicKey : Bytes32)
  | contract (contractId : Bytes32)
  | muxedAccount (id : UInt64) (publicKey : Bytes32)
  | claimableBalance (id : Bytes32)
  | liquidityPool (id : Bytes32)
  deriving DecidableEq

/-- `Int256Parts`: the limbs of a two's complement number, highest first. -/
structure Int256Parts where
  hiHi : Int64
  hiLo : UInt64
  loHi : UInt64
  loLo : UInt64
  deriving DecidableEq

/-- `UInt256Parts`: the limbs of a number, highest first. -/
structure UInt256Parts where
  hiHi : UInt64
  hiLo : UInt64
  loHi : UInt64
  loLo : UInt64
  deriving DecidableEq

/-- `ScVal`; the sequences are shorter than `2 ^ 32`. -/
inductive ScVal
  | bool (b : Bool)
  | bytes (b : List UInt8)
  | symbol (name : String)
  | u256 (parts : UInt256Parts)
  | i256 (parts : Int256Parts)
  | address (a : ScAddress)
  | vec (items : List ScVal)
  | map (entries : List (ScVal × ScVal))
  | u32 (n : UInt32)
  | u64 (n : UInt64)

/-- A `contracttype` struct as a value: a map from its field names, sorted. -/
def structScval (fields : List (String × ScVal)) : ScVal :=
  .map ((fields.insertionSort fun a b => a.1 ≤ b.1).map fun field => (.symbol field.1, field.2))

/-- `i128::to_be_bytes` -/
def i128ToBeBytes (n : ExtAmount) : List UInt8 := (toLeBytes 16 (n.val % 2 ^ 128).toNat).reverse

/-- `u64::from_be_bytes` -/
def u64FromBeBytes (bytes : List UInt8) : UInt64 := UInt64.ofNat (leValue bytes.reverse)

/-- `field_to_scval_u256`; a `Field` wraps any 256-bit number. -/
def fieldToScvalU256 (v : U256) : ScVal :=
  let be := (toLeBytes 32 v.val).reverse
  let hiHi := u64FromBeBytes (be.take 8)
  let hiLo := u64FromBeBytes ((be.drop 8).take 8)
  let loHi := u64FromBeBytes ((be.drop 16).take 8)
  let loLo := u64FromBeBytes (be.drop 24)
  .u256 { hiHi, hiLo, loHi, loLo }

/-- `i128_to_i256_scval` -/
def i128ToI256Scval (n : ExtAmount) : ScVal :=
  let hi : Int64 := if n.val < 0 then -1 else 0
  let hiLo := hi.toUInt64
  let bytes := i128ToBeBytes n
  let loHi := u64FromBeBytes (bytes.take 8)
  let loLo := u64FromBeBytes (bytes.drop 8)
  .i256 { hiHi := hi, hiLo, loHi, loLo }

/-- `checked_add` of `types::U256` -/
def checkedAddU256 (a b : Nat) (message : String) : Except String Nat :=
  if a + b < u256Size then .ok (a + b) else .error message

/-- `scval_to_u256` -/
def scvalToU256 : ScVal → Except String Nat
  | .u256 parts => do
      let out := parts.hiHi.toNat <<< 192
      let out ← checkedAddU256 out (parts.hiLo.toNat <<< 128) "U256 overflow (hi_lo)"
      let out ← checkedAddU256 out (parts.loHi.toNat <<< 64) "U256 overflow (lo_hi)"
      checkedAddU256 out parts.loLo.toNat "U256 overflow (lo_lo)"
  | _ => .error "unexpected ScVal"

/-- `scval_to_bool` -/
def scvalToBool : ScVal → Except String Bool
  | .bool b => .ok b
  | _ => .error "unexpected ScVal"

/-- `scval_to_u32` -/
def scvalToU32 : ScVal → Except String UInt32
  | .u32 n => .ok n
  | _ => .error "unexpected ScVal"

/-- `scval_to_u64` -/
def scvalToU64 : ScVal → Except String UInt64
  | .u64 n => .ok n
  | _ => .error "unexpected ScVal"

/-- `scval_to_address_string`; the key-encoding library prints the two kinds of key. -/
def scvalToAddressString (publicKeyString contractString : Bytes32 → String) :
    ScVal → Except String String
  | .address (.account publicKey) => .ok (publicKeyString publicKey)
  | .address (.contract contractId) => .ok (contractString contractId)
  | .address _ => .error "Unsupported Address type"
  | _ => .error "unexpected ScVal"

/-- `Field::try_from_u256` -/
def fieldTryFromU256 (v : Nat) : Except String Fr :=
  if h : v < bn256Modulus then .ok ⟨v, h⟩ else .error "field element out of range"

/-- `bytes_to_scval`, also `ScVal::Bytes(bytes.try_into()?)` -/
def bytesToScval (bytes : List UInt8) : Except String ScVal :=
  if bytes.length < 2 ^ 32 then .ok (.bytes bytes) else .error "bytes too long for ScVal::Bytes"

/-- A key as `ScSymbol(key.try_into()?)`: at most 32 bytes. -/
def keySymbol (key : String) : Except String ScVal :=
  if key.utf8ByteSize ≤ 32 then .ok (.symbol key) else .error "invalid map key"

/-- `map_entry` -/
def mapEntry (key : String) (val : ScVal) : Except String (ScVal × ScVal) := do
  let sym ← keySymbol key
  .ok (sym, val)

/-- The order of `sorted_map`: keys that are no symbols compare as equal. -/
def keyLe : ScVal → ScVal → Bool
  | .symbol a, .symbol b => decide (a ≤ b)
  | _, _ => true

/-- `sorted_map` -/
def sortedMap (entries : List (ScVal × ScVal)) : Except String ScVal :=
  let entries := entries.insertionSort fun a b => keyLe a.1 b.1
  if entries.length < 2 ^ 32 then .ok (.map entries) else .error "length exceeds max"

variable (parseAddress : String → Option ScAddress)

/-- `recipient.parse::<ScAddress>()?` -/
def addressScval (recipient : String) : Except String ScVal :=
  match parseAddress recipient with
  | some a => .ok (.address a)
  | none => .error "invalid address"

/-- `pool_ext_data_to_scval` -/
def poolExtDataToScval (ext : ExtData) : Except String ScVal := do
  let encryptedOutput0 ← mapEntry "encrypted_output0" (← bytesToScval ext.encryptedOutput0)
  let encryptedOutput1 ← mapEntry "encrypted_output1" (← bytesToScval ext.encryptedOutput1)
  let extAmount ← mapEntry "ext_amount" (i128ToI256Scval ext.extAmount)
  let recipient ← mapEntry "recipient" (← addressScval parseAddress ext.recipient)
  sortedMap [encryptedOutput0, encryptedOutput1, extAmount, recipient]

end PrivatePayments.Stellar
