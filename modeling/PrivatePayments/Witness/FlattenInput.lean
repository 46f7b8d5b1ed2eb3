import PrivatePayments.Disclosure.Receipt
import PrivatePayments.Lib.AppendMap
import PrivatePayments.Lib.Worklist

/-!
# PrivatePayments.Witness.FlattenInput

The inputs of a circuit from a JSON document (`flatten_input` in `witness/src/lib.rs`): a map from
signal names to lists of field elements.

The three traversals are loops over a stack (`Worklist`); the pushes of a step are listed in the
order of the source. A call that fails leaves no inputs, as its caller gives them up.
`BigInt::parse_bytes` is a parameter. An index into a slice never leaves its machine type, so the
saturation of `next_idx` is left out.
-/

namespace PrivatePayments.Witness

open Disclosure (asBytes stripPrefix0x)

/-! ## Documents -/

/-- `serde_json::Number`: what fits neither 64-bit type is a float `mantissa * 2 ^ exponent`. -/
inductive Number where
  | posInt (n : UInt64)
  | negInt (n : Int64)
  | float (mantissa exponent : Int)

/-- `as_u64` -/
def Number.asU64 : Number → Option Nat
  | .posInt n => some n.toNat
  | .negInt _ => none
  | .float _ _ => none

/-- `as_i64` -/
def Number.asI64 : Number → Option Int
  | .posInt n => if n.toNat < 2 ^ 63 then some n.toNat else none
  | .negInt n => some n.toInt
  | .float _ _ => none

/-- `serde_json::Value`, with the fields of an object in the order of iteration. -/
inductive Value where
  | null
  | bool (b : Bool)
  | number (n : Number)
  | string (s : String)
  | array (items : List Value)
  | object (fields : List (String × Value))

mutual

/-- What a value takes on a stack. -/
def Value.size : Value → Nat
  | .array items => 2 + sizeItems items
  | .object fields => 2 + sizeFields fields
  | _ => 1

/-- The items of an array. -/
def sizeItems : List Value → Nat
  | [] => 0
  | item :: items => item.size + 1 + sizeItems items

/-- The fields of an object. -/
def sizeFields : List (String × Value) → Nat
  | [] => 0
  | (_, value) :: fields => value.size + 1 + sizeFields fields

end

theorem Value.size_pos (value : Value) : 0 < value.size := by
  cases value <;> simp only [Value.size] <;> omega

theorem sum_size_items (items : List Value) : (items.map Value.size).sum ≤ sizeItems items := by
  induction items with
  | nil => exact Nat.le_refl 0
  | cons item items ih =>
      simp only [List.map_cons, List.sum_cons, sizeItems]
      omega

theorem sum_size_fields (fields : List (String × Value)) :
    (fields.map fun field => field.2.size).sum ≤ sizeFields fields := by
  induction fields with
  | nil => exact Nat.le_refl 0
  | cons field fields ih =>
      simp only [List.map_cons, List.sum_cons, sizeFields]
      omega

theorem sizeItems_drop {items : List Value} {idx : Nat} {item : Value}
    (h : items[idx]? = some item) :
    sizeItems (items.drop idx) = item.size + 1 + sizeItems (items.drop (idx + 1)) := by
  obtain ⟨hidx, rfl⟩ := List.getElem?_eq_some_iff.mp h
  rw [List.drop_eq_getElem_cons hidx, sizeItems]

/-- The items of an array under their indexed keys. -/
def indexedItems (key : String) (arr : List Value) : List (String × Value) :=
  arr.zipIdx.map fun entry => (s!"{key}[{entry.2}]", entry.1)

/-- The fields of an object under their nested keys. -/
def nestedFields (key : String) (obj : List (String × Value)) : List (String × Value) :=
  obj.map fun field => (s!"{key}.{field.1}", field.2)

theorem map_snd_indexedItems (key : String) (arr : List Value) :
    (indexedItems key arr).map Prod.snd = arr := by
  rw [indexedItems, List.map_map]
  exact List.zipIdx_map_fst 0 arr

theorem map_snd_nestedFields (key : String) (obj : List (String × Value)) :
    (nestedFields key obj).map Prod.snd = obj.map Prod.snd := by
  rw [nestedFields, List.map_map]
  rfl

theorem sum_size_indexedItems (key : String) (arr : List Value) :
    ((indexedItems key arr).map fun item => item.2.size).sum ≤ sizeItems arr := by
  have hle := sum_size_items arr
  rwa [← map_snd_indexedItems key arr, List.map_map, map_snd_indexedItems] at hle

theorem sum_size_nestedFields (key : String) (obj : List (String × Value)) :
    ((nestedFields key obj).map fun item => item.2.size).sum ≤ sizeFields obj := by
  have hvalues : (nestedFields key obj).map (fun item => item.2.size) =
      obj.map fun field => field.2.size := by
    rw [← Function.comp_def Value.size Prod.snd, ← List.map_map, map_snd_nestedFields,
      List.map_map]
  rw [hvalues]
  exact sum_size_fields obj

/-! ## Field elements -/

/-- How a call ends that does not return: an `Err`, or a panic. -/
inductive Failure where
  | error (message : String)
  | panic (message : String)
  deriving DecidableEq

/-- `to_field_element` -/
def toFieldElement (bi : Int) : Except Failure Int :=
  let modulus : Int := bn256Modulus
  if bi < 0 then
    let absValue := bi * -1
    if absValue < modulus then .ok (modulus - absValue)
    else .error (.panic s!"Negative value {bi} exceeds field modulus")
  else if bi < modulus then .ok bi
  else .error (.panic s!"Value {bi} exceeds field modulus")

section Parser

variable (parseBytes : List UInt8 → Nat → Option Int)

/-- The integer of a number. -/
def Number.bigInt (n : Number) : Option Int :=
  match n.asU64 with
  | some i => some i
  | none => n.asI64

/-- The integer of a string. -/
def bigIntOfString (s : String) : Option Int :=
  match stripPrefix0x s with
  | some hex => parseBytes (asBytes hex) 16
  | none => parseBytes (asBytes s) 10

/-- The inputs of the circuit. -/
abbrev Inputs := AppendMap String Int

/-- The arm of both traversals for a number. -/
def pushNumber (key : String) (n : Number) (inputs : Inputs) : Except Failure Inputs :=
  match n.bigInt with
  | none => .error (.error s!"Invalid number for {key}")
  | some bi => (toFieldElement bi).map fun x => inputs.push key x

/-- The arm of both traversals for a string. -/
def pushString (key : String) (s : String) (inputs : Inputs) : Except Failure Inputs :=
  match bigIntOfString parseBytes s with
  | none => .error (.error s!"Invalid bigint for {key}: {s}")
  | some bi => (toFieldElement bi).map fun x => inputs.push key x

/-- The arm of both traversals for a truth value. -/
def pushBool (key : String) (b : Bool) (inputs : Inputs) : Inputs :=
  inputs.push key (if b then 1 else 0)

/-- A step that pushes nothing. -/
def done {α : Type} (inputs : Inputs) : List α × Inputs := ([], inputs)

theorem exists_of_map_done {α : Type} {x : Except Failure Inputs} {r : List α × Inputs}
    (h : x.map done = .ok r) : ∃ inputs, x = .ok inputs ∧ r = ([], inputs) := by
  cases x with
  | error e => cases h
  | ok inputs => exact ⟨inputs, rfl, (Except.ok.inj h).symm⟩

/-! ## Pure arrays -/

/-- A step of `is_pure_array`; its `return false` is the error. -/
def isPureArrayStep (current : Value) : Except Unit (List Value) :=
  match current with
  | .number _ | .string _ | .bool _ | .null => .ok []
  | .array arr => .ok arr
  | .object _ => .error ()

/-- The loop of `is_pure_array` -/
def isPureArrayLoop : Worklist Value Unit Unit where
  step current _ := (isPureArrayStep current).map fun pushed => (pushed, ())
  weight := Value.size
  decreases := by
    intro current _ r h
    cases current with
    | array arr =>
        cases h
        have hle := sum_size_items arr
        simp only [Value.size]
        omega
    | object fields => cases h
    | _ => cases h; exact Nat.one_pos

/-- `is_pure_array` -/
def isPureArray (value : Value) : Bool := (isPureArrayLoop.run [value] ()).toBool

/-- `WorkItem` -/
inductive WorkItem where
  | value (v : Value)
  | arrayIter (arr : List Value) (idx : Nat)

/-- What an item takes on the stack. -/
def WorkItem.size : WorkItem → Nat
  | .value v => v.size
  | .arrayIter arr idx => 1 + sizeItems (arr.drop idx)

/-- A step of `flatten_pure_array` -/
def flattenPureArrayStep (key : String) (item : WorkItem) (inputs : Inputs) :
    Except Failure (List WorkItem × Inputs) :=
  match item with
  | .value (.number n) => (pushNumber key n inputs).map done
  | .value (.string s) => (pushString parseBytes key s inputs).map done
  | .value (.array arr) => .ok (if arr.isEmpty then [] else [.arrayIter arr 0], inputs)
  | .value (.bool b) => .ok (done (pushBool key b inputs))
  | .value .null => .ok (done (inputs.push key 0))
  | .value (.object _) => .error (.error s!"Unexpected object in pure array: {key}")
  | .arrayIter arr idx =>
      match arr[idx]? with
      | none => .error (.panic "index out of bounds")
      | some v =>
          -- the element comes off the stack before the rest of the array
          let nextIdx := idx + 1
          if nextIdx < arr.length then .ok ([.arrayIter arr nextIdx, .value v], inputs)
          else .ok ([.value v], inputs)

theorem flattenPureArrayStep_decreases {key : String} {item : WorkItem} {inputs : Inputs}
    {r : List WorkItem × Inputs} (h : flattenPureArrayStep parseBytes key item inputs = .ok r) :
    (r.1.map WorkItem.size).sum < item.size := by
  cases item with
  | value v =>
      cases v with
      | number n =>
          obtain ⟨_, -, rfl⟩ := exists_of_map_done h
          exact Value.size_pos _
      | string s =>
          obtain ⟨_, -, rfl⟩ := exists_of_map_done h
          exact Value.size_pos _
      | array arr =>
          cases h
          cases arr <;> simp [WorkItem.size, Value.size]
      | object obj => cases h
      | bool b => cases h; exact Value.size_pos _
      | null => cases h; exact Value.size_pos _
  | arrayIter arr idx =>
      rw [flattenPureArrayStep] at h
      cases hv : arr[idx]? with
      | none => simp [hv] at h
      | some v =>
          simp only [hv] at h
          have hdrop := sizeItems_drop hv
          split at h <;> cases h <;> simp [WorkItem.size, hdrop] <;> omega

/-- The loop of `flatten_pure_array` -/
def flattenPureArrayLoop (key : String) : Worklist WorkItem Inputs Failure where
  step := flattenPureArrayStep parseBytes key
  weight := WorkItem.size
  decreases := flattenPureArrayStep_decreases parseBytes

/-- `flatten_pure_array` -/
def flattenPureArray (key : String) (value : Value) (inputs : Inputs) : Except Failure Inputs :=
  (flattenPureArrayLoop parseBytes key).run [.value value] inputs

/-! ## All inputs -/

/-- A step of `flatten_input` -/
def flattenInputStep (item : String × Value) (inputs : Inputs) :
    Except Failure (List (String × Value) × Inputs) :=
  let (currentKey, currentValue) := item
  match currentValue with
  | .number n => (pushNumber currentKey n inputs).map done
  | .string s => (pushString parseBytes currentKey s inputs).map done
  | .array arr =>
      if isPureArray currentValue then
        (flattenPureArray parseBytes currentKey currentValue inputs).map done
      -- in reverse, so that they come off the stack in order
      else .ok ((indexedItems currentKey arr).reverse, inputs)
  | .object obj => .ok (nestedFields currentKey obj, inputs)
  | .bool b => .ok (done (pushBool currentKey b inputs))
  | .null => .ok (done (inputs.push currentKey 0))

theorem flattenInputStep_decreases {item : String × Value} {inputs : Inputs}
    {r : List (String × Value) × Inputs} (h : flattenInputStep parseBytes item inputs = .ok r) :
    (r.1.map fun item => item.2.size).sum < item.2.size := by
  obtain ⟨key, value⟩ := item
  cases value with
  | number n =>
      obtain ⟨_, -, rfl⟩ := exists_of_map_done h
      exact Value.size_pos _
  | string s =>
      obtain ⟨_, -, rfl⟩ := exists_of_map_done h
      exact Value.size_pos _
  | array arr =>
      rw [flattenInputStep] at h
      split at h
      · obtain ⟨_, -, rfl⟩ := exists_of_map_done h
        exact Value.size_pos _
      · cases h
        have hle := sum_size_indexedItems key arr
        simp only [List.map_reverse, List.sum_reverse, Value.size]
        omega
  | object obj =>
      cases h
      have hle := sum_size_nestedFields key obj
      simp only [Value.size]
      omega
  | bool b => cases h; exact Value.size_pos _
  | null => cases h; exact Value.size_pos _

/-- The loop of `flatten_input` -/
def flattenInputLoop : Worklist (String × Value) Inputs Failure where
  step := flattenInputStep parseBytes
  weight item := item.2.size
  decreases := flattenInputStep_decreases parseBytes

/-- `flatten_input` -/
def flattenInput (key : String) (value : Value) (inputs : Inputs) : Except Failure Inputs :=
  (flattenInputLoop parseBytes).run [(key, value)] inputs

end Parser

end PrivatePayments.Witness
