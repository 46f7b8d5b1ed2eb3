import PrivatePayments.Stellar.ScVal
import PrivatePayments.Contracts.AspNonMembership

/-!
# PrivatePayments.Stellar.ContractState

The client's proof that a note key is not blocked (`stellar/src/contract_state.rs`). The root
is one that the caller has read before; the siblings come from a simulated call of `find_key`.
-/

namespace PrivatePayments

/-! ## The contract's side -/

/-- The limbs of the host's number. -/
def U256.toParts (v : U256) : Stellar.UInt256Parts where
  hiHi := UInt64.ofNat (v.val / 2 ^ 192)
  hiLo := UInt64.ofNat (v.val / 2 ^ 128 % 2 ^ 64)
  loHi := UInt64.ofNat (v.val / 2 ^ 64 % 2 ^ 64)
  loLo := UInt64.ofNat (v.val % 2 ^ 64)

namespace Stellar

open AspNonMembership (FindResult AspStorage findKey)

/-- `FindResult` as a value. -/
def findResultToScval (r : FindResult) : ScVal :=
  structScval
    [("found", .bool r.found),
     ("siblings", .vec (r.siblings.map fun s => .u256 s.toParts)),
     ("found_value", .u256 r.foundValue.toParts),
     ("not_found_key", .u256 r.notFoundKey.toParts),
     ("not_found_value", .u256 r.notFoundValue.toParts),
     ("is_old0", .bool r.isOld0)]

/-- `simulate_single_retval` of a call of `find_key` on the state the node has then. -/
def simulateFindKey (s : AspStorage) (key : Fr) : Except String ScVal :=
  match (findKey key.toU256).run s with
  | .ok r _ => .ok (findResultToScval r)
  | .error _ _ => .error "simulation failed"

/-! ## The client's side -/

/-- `ParsedFindResult` -/
structure ParsedFindResult where
  found : Bool
  siblings : List Fr
  notFoundKey : Fr
  notFoundValue : Fr
  isOld0 : Bool

/-- `AspNonMembershipProof` -/
structure AspNonMembershipProof where
  key : Fr
  oldKey : Fr
  oldValue : Fr
  isOld0 : Bool
  siblings : List Fr
  root : Fr

/-- The field names of a map, which must be symbols. -/
def fieldNames : List (ScVal × ScVal) → Except String (List (String × ScVal))
  | [] => .ok []
  | (.symbol name, val) :: entries => do
      let fields ← fieldNames entries
      .ok ((name, val) :: fields)
  | _ => .error "FindResult: field name should be a symbol"

/-- `fields.get`; a later entry of one name replaces an earlier one. -/
def fieldGet (fields : List (String × ScVal)) (name : String) : Option ScVal :=
  (fields.reverse.find? fun field => field.1 = name).map Prod.snd

/-- A field of numbers, which may be absent. -/
def fieldOr (val : Option ScVal) (absent : Fr) : Except String Fr :=
  match val with
  | none => .ok absent
  | some val => do
      let v ← scvalToU256 val
      fieldTryFromU256 v

/-- A field that is a flag, which may be absent. -/
def flagOr (val : Option ScVal) (absent : Bool) : Except String Bool :=
  match val with
  | none => .ok absent
  | some val => scvalToBool val

/-- The `siblings` of `parse_find_result`. -/
def parseSiblings : Option ScVal → Except String (List Fr)
  | none => .ok []
  | some (.vec items) => items.mapM fun inner => do
      let v ← scvalToU256 inner
      fieldTryFromU256 v
  | some _ => .error "FindResult.siblings: unexpected ScVal"

/-- `parse_find_result` -/
def parseFindResult : ScVal → Except String ParsedFindResult
  | .map entries => do
      let fields ← fieldNames entries
      let found ← match fieldGet fields "found" with
        | some val => scvalToBool val
        | none => .error "FindResult missing field: found"
      let siblings ← parseSiblings (fieldGet fields "siblings")
      let notFoundKey ←
        fieldOr ((fieldGet fields "not_found_key").or (fieldGet fields "notFoundKey")) 0
      let notFoundValue ←
        fieldOr ((fieldGet fields "not_found_value").or (fieldGet fields "notFoundValue")) 0
      let isOld0 ← flagOr ((fieldGet fields "is_old0").or (fieldGet fields "isOld0")) false
      .ok { found, siblings, notFoundKey, notFoundValue, isOld0 }
  | _ => .error "FindResult: expected ScVal::Map"

/-- Siblings padded with zeros, or cut, to the depth of the circuit. -/
def fitSiblings (siblings : List Fr) (smtDepth : Nat) : List Fr :=
  if siblings.length < smtDepth then
    siblings ++ List.replicate (smtDepth - siblings.length) 0
  else if siblings.length > smtDepth then siblings.take smtDepth
  else siblings

/-- `get_nonmembership_proof`; `simulate` is the call of `find_key` that the node simulates. -/
def getNonmembershipProof (simulate : Fr → Except String ScVal) (notePubkey : Bytes32)
    (nonMembershipRoot : Fr) (smtDepth : Nat) : Except String AspNonMembershipProof := do
  if smtDepth = 0 then
    .error "smt_depth must be > 0"
  else
    let key ← Prover.fieldTryFromLeBytes notePubkey.val
    if nonMembershipRoot = 0 then
      .ok { key, oldKey := 0, oldValue := 0, isOld0 := true,
            siblings := List.replicate smtDepth 0, root := 0 }
    else
      let retval ← simulate key
      let parsed ← parseFindResult retval
      if parsed.found then
        .error "Key exists in non-membership tree (user is sanctioned)"
      else
        .ok { key, oldKey := parsed.notFoundKey, oldValue := parsed.notFoundValue,
              isOld0 := parsed.isOld0, siblings := fitSiblings parsed.siblings smtDepth,
              root := nonMembershipRoot }

end Stellar

end PrivatePayments
