import PrivatePayments.Prover.CircuitInputs
import PrivatePayments.Witness.FlattenInput
import Mathlib.Data.Rat.Defs
import Mathlib.Tactic.NormNum.Inv
import Mathlib.Tactic.NormNum.Pow

/-!
# PrivatePayments.Witness.FlattenInputSound

The traversals of `flatten_input` compute the recursive reading of a document (`Value.signals`):
an array without objects is one signal with its elements in row-major order, an array with objects
gives each item a signal of its own, and so does an object for each field.

The reading is of integers: a number must fit one of the two 64-bit types, so larger ones only come
as strings.
-/

namespace PrivatePayments.Witness

open AppendMap (DistinctKeys)

/-! ## What a document stands for -/

mutual

/-- Whether there is an object in a value. -/
def Value.hasObject : Value → Bool
  | .array items => itemsHaveObject items
  | .object _ => true
  | _ => false

def itemsHaveObject : List Value → Bool
  | [] => false
  | item :: items => item.hasObject || itemsHaveObject items

end

mutual

/-- The numbers, strings and constants in a value, in row-major order. -/
def Value.leaves : Value → List Value
  | .array items => leavesOfItems items
  | .object fields => leavesOfFields fields
  | leaf => [leaf]

def leavesOfItems : List Value → List Value
  | [] => []
  | item :: items => item.leaves ++ leavesOfItems items

def leavesOfFields : List (String × Value) → List Value
  | [] => []
  | (_, value) :: fields => value.leaves ++ leavesOfFields fields

end

section Parser

variable (parseBytes : List UInt8 → Nat → Option Int)

/-- The integer that a leaf denotes. -/
def Value.integer? : Value → Option Int
  | .null => some 0
  | .bool b => some (if b then 1 else 0)
  | .number n => n.bigInt
  | .string s => bigIntOfString parseBytes s
  | _ => none

/-- Every leaf denotes an integer with absolute value below the modulus. -/
def Value.Readable (value : Value) : Prop :=
  ∀ leaf ∈ value.leaves, (leaf.integer? parseBytes).any fun i => i.natAbs < bn256Modulus

instance (value : Value) : Decidable (value.Readable parseBytes) :=
  inferInstanceAs (Decidable (∀ leaf ∈ value.leaves, _))

/-- The field element of a leaf. -/
def Value.element (leaf : Value) : Int :=
  (leaf.integer? parseBytes).getD 0 % bn256Modulus

mutual

/-- The signals of a value under a key, each with its values. -/
def Value.signals (key : String) : Value → List (String × List Int)
  | .array items =>
      if itemsHaveObject items then signalsOfItems key 0 items
      else [(key, (leavesOfItems items).map (Value.element parseBytes))]
  | .object fields => signalsOfFields key fields
  | leaf => [(key, [leaf.element parseBytes])]

def signalsOfItems (key : String) (idx : Nat) : List Value → List (String × List Int)
  | [] => []
  | item :: items => item.signals s!"{key}[{idx}]" ++ signalsOfItems key (idx + 1) items

def signalsOfFields (key : String) : List (String × Value) → List (String × List Int)
  | [] => []
  | (field, value) :: fields => value.signals s!"{key}.{field}" ++ signalsOfFields key fields

end

end Parser

theorem itemsHaveObject_eq (items : List Value) :
    itemsHaveObject items = items.any Value.hasObject := by
  induction items with
  | nil => rfl
  | cons item items ih => rw [itemsHaveObject, ih, List.any_cons]

theorem leavesOfItems_eq (items : List Value) :
    leavesOfItems items = items.flatMap Value.leaves := by
  induction items with
  | nil => rfl
  | cons item items ih => rw [leavesOfItems, ih, List.flatMap_cons]

theorem leavesOfFields_eq (fields : List (String × Value)) :
    leavesOfFields fields = (fields.map Prod.snd).flatMap Value.leaves := by
  induction fields with
  | nil => rfl
  | cons field fields ih => rw [leavesOfFields, ih, List.map_cons, List.flatMap_cons]

section Parser

variable {parseBytes : List UInt8 → Nat → Option Int}

theorem signalsOfItems_eq (key : String) (items : List Value) :
    signalsOfItems parseBytes key 0 items =
      (indexedItems key items).flatMap fun item => item.2.signals parseBytes item.1 := by
  suffices h : ∀ idx, signalsOfItems parseBytes key idx items =
      ((items.zipIdx idx).map fun entry => (s!"{key}[{entry.2}]", entry.1)).flatMap
        fun item => item.2.signals parseBytes item.1 from h 0
  induction items with
  | nil => exact fun _ => rfl
  | cons item items ih =>
      intro idx
      rw [signalsOfItems, ih, List.zipIdx_cons, List.map_cons, List.flatMap_cons]

theorem signalsOfFields_eq (key : String) (fields : List (String × Value)) :
    signalsOfFields parseBytes key fields =
      (nestedFields key fields).flatMap fun item => item.2.signals parseBytes item.1 := by
  induction fields with
  | nil => rfl
  | cons field fields ih =>
      rw [signalsOfFields, ih, nestedFields, nestedFields, List.map_cons, List.flatMap_cons]

/-! ## Leaves -/

theorem toFieldElement_eq {bi : Int} (h : bi.natAbs < bn256Modulus) :
    toFieldElement bi = .ok (bi % bn256Modulus) := by
  rw [toFieldElement]
  by_cases hneg : bi < 0
  · rw [if_pos hneg, if_pos (by omega), ← Int.add_mul_emod_self_left bi (bn256Modulus : Int) 1,
      Int.emod_eq_of_lt (by omega) (by omega)]
    congr 1
    ring
  · rw [if_neg hneg, if_pos (by omega), Int.emod_eq_of_lt (by omega) (by omega)]

/-- The leaf denotes an integer with absolute value below the modulus. -/
abbrev Value.IsElement (parseBytes : List UInt8 → Nat → Option Int) (leaf : Value) : Prop :=
  (leaf.integer? parseBytes).any fun i => i.natAbs < bn256Modulus

theorem Value.IsElement.exists_integer {leaf : Value} (h : leaf.IsElement parseBytes) :
    ∃ bi, leaf.integer? parseBytes = some bi ∧
      toFieldElement bi = .ok (leaf.element parseBytes) := by
  rw [Value.element]
  cases hbi : leaf.integer? parseBytes with
  | none => simp [Value.IsElement, hbi] at h
  | some bi => exact ⟨bi, rfl, toFieldElement_eq (by simpa [Value.IsElement, hbi] using h)⟩

theorem pushNumber_eq {key : String} {n : Number} {inputs : Inputs}
    (h : (Value.number n).IsElement parseBytes) :
    pushNumber key n inputs = .ok (inputs.push key ((Value.number n).element parseBytes)) := by
  obtain ⟨bi, hbi, helement⟩ := h.exists_integer
  have hbi : n.bigInt = some bi := hbi
  simp only [pushNumber, hbi, helement]
  rfl

theorem pushString_eq {key s : String} {inputs : Inputs}
    (h : (Value.string s).IsElement parseBytes) :
    pushString parseBytes key s inputs =
      .ok (inputs.push key ((Value.string s).element parseBytes)) := by
  obtain ⟨bi, hbi, helement⟩ := h.exists_integer
  have hbi : bigIntOfString parseBytes s = some bi := hbi
  simp only [pushString, hbi, helement]
  rfl

/-- A value that is neither array nor object is a leaf. -/
theorem Value.array_or_object_or_leaf (value : Value) :
    (∃ items, value = .array items) ∨ (∃ fields, value = .object fields) ∨
      value.leaves = [value] := by
  cases value with
  | array items => exact .inl ⟨items, rfl⟩
  | object fields => exact .inr (.inl ⟨fields, rfl⟩)
  | _ => exact .inr (.inr rfl)

theorem Value.Readable.isElement {leaf : Value} (h : leaf.Readable parseBytes)
    (hleaf : leaf.leaves = [leaf]) : leaf.IsElement parseBytes :=
  h leaf (by rw [hleaf]; exact List.mem_singleton_self leaf)

theorem pushBool_eq {key : String} {b : Bool} {inputs : Inputs} :
    pushBool key b inputs = inputs.push key ((Value.bool b).element parseBytes) := by
  cases b <;> rfl

end Parser

/-! ## Pure arrays -/

/-- Fails on a value with an object. -/
def objectFree (value : Value) : Except Unit Unit :=
  if value.hasObject then .error () else .ok ()

theorem isPureArray_eq (value : Value) : isPureArray value = !value.hasObject := by
  have hany (l : List Value) : l.foldlM (fun _ v => objectFree v) () =
      if l.any Value.hasObject then .error () else .ok () := by
    induction l with
    | nil => rfl
    | cons v l ih =>
        rw [List.foldlM_cons, List.any_cons, objectFree]
        cases v.hasObject with
        | true => rfl
        | false => exact ih
  have hrun : isPureArrayLoop.run [value] () = [value].foldlM (fun _ v => objectFree v) () := by
    refine @Worklist.run_eq_foldlM Value Unit Unit _ (fun _ => True) _ ?_ ?_ ?_ _ _ ?_
    · exact fun _ _ _ _ => trivial
    · intro v _ e _ h
      cases v <;> cases h
      rfl
    · intro v _ r _ h
      cases v with
      | array arr =>
          cases h
          rw [hany, List.any_reverse, ← itemsHaveObject_eq]
          rfl
      | object obj => cases h
      | _ => cases h; rfl
    · exact fun _ _ => trivial
  rw [isPureArray, hrun, hany]
  cases h : value.hasObject <;> simp [h, Except.toBool]

section Parser

variable {parseBytes : List UInt8 → Nat → Option Int}

/-- The leaves that an item still contributes. -/
def WorkItem.leaves : WorkItem → List Value
  | .value v => v.leaves
  | .arrayIter arr idx => (arr.drop idx).flatMap Value.leaves

/-- The item stands for values without objects. -/
def WorkItem.IsPure : WorkItem → Prop
  | .value v => v.hasObject = false
  | .arrayIter arr idx => idx < arr.length ∧ ∀ item ∈ arr, item.hasObject = false

/-- The item can be flattened. -/
def WorkItem.Ready (parseBytes : List UInt8 → Nat → Option Int) (item : WorkItem) : Prop :=
  item.IsPure ∧ ∀ leaf ∈ item.leaves, leaf.IsElement parseBytes

/-- What an item contributes to the key. -/
def WorkItem.flatten (parseBytes : List UInt8 → Nat → Option Int) (key : String)
    (inputs : Inputs) (item : WorkItem) : Inputs :=
  inputs.extend [(key, item.leaves.map (Value.element parseBytes))]

theorem flattenPureArrayStep_leaf {key : String} {leaf : Value} {inputs : Inputs}
    (h : leaf.IsElement parseBytes) :
    flattenPureArrayStep parseBytes key (.value leaf) inputs =
      .ok (done (inputs.push key (leaf.element parseBytes))) := by
  cases leaf with
  | number n => rw [flattenPureArrayStep, pushNumber_eq h]; rfl
  | string s => rw [flattenPureArrayStep, pushString_eq h]; rfl
  | bool b => rw [flattenPureArrayStep, pushBool_eq]
  | null => rfl
  | array items => cases h
  | object fields => cases h

/-- The item contributes to the key what it says, and only pushes items that do. -/
theorem flattenPureArrayStep_eq {key : String} (item : WorkItem) (inputs : Inputs)
    (h : item.Ready parseBytes) :
    ∃ r, flattenPureArrayStep parseBytes key item inputs = .ok r ∧
      (∀ c ∈ r.1, c.Ready parseBytes) ∧
      r.1.reverse.foldl (WorkItem.flatten parseBytes key) r.2 =
        item.flatten parseBytes key inputs := by
  obtain ⟨hpure, hleaves⟩ := h
  cases item with
  | value v =>
      rcases v.array_or_object_or_leaf with ⟨arr, rfl⟩ | ⟨obj, rfl⟩ | hleaf
      · have hitems : ∀ item ∈ arr, item.hasObject = false := by
          have hany : arr.any Value.hasObject = false := by
            rw [← itemsHaveObject_eq]
            exact hpure
          simpa using hany
        have hflat : (WorkItem.value (.array arr)).leaves = (WorkItem.arrayIter arr 0).leaves :=
          leavesOfItems_eq arr
        rw [flattenPureArrayStep, WorkItem.flatten, hflat]
        rw [hflat] at hleaves
        cases arr with
        | nil => exact ⟨_, rfl, by simp, by simp [WorkItem.leaves]⟩
        | cons item items =>
            refine ⟨([.arrayIter (item :: items) 0], inputs), rfl, ?_, rfl⟩
            intro c hc
            obtain rfl := List.mem_singleton.mp hc
            exact ⟨⟨Nat.succ_pos _, hitems⟩, hleaves⟩
      · cases hpure
      · have helement := Value.Readable.isElement hleaves hleaf
        refine ⟨_, flattenPureArrayStep_leaf helement, by simp [done], ?_⟩
        rw [WorkItem.flatten, WorkItem.leaves, hleaf]
        exact AppendMap.push_eq_extend
  | arrayIter arr idx =>
      obtain ⟨hidx, hitems⟩ := hpure
      -- the item at the index comes first, then those after it
      have hleaves_eq : (WorkItem.arrayIter arr idx).leaves =
          arr[idx].leaves ++ (WorkItem.arrayIter arr (idx + 1)).leaves := by
        rw [WorkItem.leaves, List.drop_eq_getElem_cons hidx, List.flatMap_cons]
        rfl
      have hvalue : (WorkItem.value arr[idx]).Ready parseBytes :=
        ⟨hitems _ (List.getElem_mem hidx), fun leaf hleaf =>
          hleaves leaf (hleaves_eq ▸ List.mem_append_left _ hleaf)⟩
      simp only [flattenPureArrayStep, List.getElem?_eq_getElem hidx]
      by_cases hnext : idx + 1 < arr.length
      · refine ⟨([.arrayIter arr (idx + 1), .value arr[idx]], inputs), if_pos hnext, ?_, ?_⟩
        · intro c hc
          rcases List.mem_pair.mp hc with rfl | rfl
          · exact ⟨⟨hnext, hitems⟩, fun leaf hleaf =>
              hleaves leaf (hleaves_eq ▸ List.mem_append_right _ hleaf)⟩
          · exact hvalue
        · simp only [List.reverse_cons, List.reverse_nil, List.nil_append, List.cons_append,
            List.foldl_cons, List.foldl_nil, WorkItem.flatten, hleaves_eq, List.map_append]
          exact AppendMap.extend_split.symm
      · refine ⟨([.value arr[idx]], inputs), if_neg hnext, ?_, ?_⟩
        · intro c hc
          obtain rfl := List.mem_singleton.mp hc
          exact hvalue
        · have hlast : (WorkItem.arrayIter arr (idx + 1)).leaves = [] := by
            rw [WorkItem.leaves, List.drop_of_length_le (Nat.not_lt.mp hnext)]
            rfl
          simp only [List.reverse_singleton, List.foldl_cons, List.foldl_nil, WorkItem.flatten,
            hleaves_eq, hlast, List.append_nil]
          rfl

/-- A pure array contributes its leaves to its key. -/
theorem flattenPureArray_eq {key : String} {value : Value} {inputs : Inputs}
    (hpure : value.hasObject = false) (hreadable : value.Readable parseBytes) :
    flattenPureArray parseBytes key value inputs =
      .ok (inputs.extend [(key, value.leaves.map (Value.element parseBytes))]) :=
  @Worklist.run_eq_ok _ _ _ (flattenPureArrayLoop parseBytes key) (WorkItem.Ready parseBytes)
    (WorkItem.flatten parseBytes key) flattenPureArrayStep_eq [.value value] inputs
    (List.forall_mem_singleton.mpr ⟨hpure, hreadable⟩)

/-! ## All inputs -/

theorem signals_leaf {key : String} {leaf : Value} (h : leaf.IsElement parseBytes) :
    leaf.signals parseBytes key = [(key, [leaf.element parseBytes])] := by
  cases leaf with
  | array items => cases h
  | object fields => cases h
  | _ => rfl

theorem flattenInputStep_leaf {key : String} {leaf : Value} {inputs : Inputs}
    (h : leaf.IsElement parseBytes) :
    flattenInputStep parseBytes (key, leaf) inputs =
      .ok (done (inputs.push key (leaf.element parseBytes))) := by
  cases leaf with
  | number n => rw [flattenInputStep, pushNumber_eq h]; rfl
  | string s => rw [flattenInputStep, pushString_eq h]; rfl
  | bool b => rw [flattenInputStep, pushBool_eq]
  | null => rfl
  | array items => cases h
  | object fields => cases h

/-- A value that can be flattened under a key. -/
structure Ready (parseBytes : List UInt8 → Nat → Option Int) (item : String × Value) : Prop where
  readable : item.2.Readable parseBytes
  distinct : DistinctKeys (item.2.signals parseBytes item.1)

/-- What a value contributes to the inputs. -/
def flatten (parseBytes : List UInt8 → Nat → Option Int) (inputs : Inputs)
    (item : String × Value) : Inputs :=
  inputs.extend (item.2.signals parseBytes item.1)

/-- The parts of a value can be flattened with it. -/
theorem Ready.parts {value : Value} {key : String} (h : Ready parseBytes (key, value))
    {parts : List (String × Value)}
    (hleaves : value.leaves = parts.flatMap fun part => part.2.leaves)
    (hsignals : value.signals parseBytes key =
      parts.flatMap fun part => part.2.signals parseBytes part.1) :
    ∀ part ∈ parts, Ready parseBytes part := by
  intro part hpart
  constructor
  · intro leaf hleaf
    exact h.readable leaf (hleaves ▸ List.mem_flatMap.mpr ⟨part, hpart, hleaf⟩)
  · have hdistinct := h.distinct
    rw [hsignals] at hdistinct
    exact hdistinct.sublist (List.sublist_flatten_of_mem (List.mem_map_of_mem hpart))

theorem flattenInputStep_eq (item : String × Value) (inputs : Inputs)
    (h : Ready parseBytes item) :
    ∃ r, flattenInputStep parseBytes item inputs = .ok r ∧ (∀ c ∈ r.1, Ready parseBytes c) ∧
      r.1.reverse.foldl (flatten parseBytes) r.2 = flatten parseBytes inputs item := by
  obtain ⟨key, value⟩ := item
  rcases value.array_or_object_or_leaf with ⟨arr, rfl⟩ | ⟨obj, rfl⟩ | hleaf
  · rw [flattenInputStep, isPureArray_eq]
    cases hobject : itemsHaveObject arr with
    | false =>
        have hpure : (Value.array arr).hasObject = false := hobject
        refine ⟨done (inputs.extend [(key, (leavesOfItems arr).map (Value.element parseBytes))]),
          ?_, by simp [done], ?_⟩
        · rw [hpure, flattenPureArray_eq hpure h.readable]
          rfl
        · rw [flatten, Value.signals, hobject]
          rfl
    | true =>
        have hmixed : (Value.array arr).hasObject = true := hobject
        have hsignals : (Value.array arr).signals parseBytes key =
            (indexedItems key arr).flatMap fun item => item.2.signals parseBytes item.1 := by
          rw [Value.signals, hobject, if_pos rfl, signalsOfItems_eq]
        have hleaves : (Value.array arr).leaves =
            (indexedItems key arr).flatMap fun item => item.2.leaves := by
          rw [Value.leaves, leavesOfItems_eq]
          conv_lhs => rw [← map_snd_indexedItems key arr, List.flatMap_map]
        refine ⟨((indexedItems key arr).reverse, inputs), by rw [hmixed]; rfl, ?_, ?_⟩
        · exact fun item hitem => h.parts hleaves hsignals item (List.mem_reverse.mp hitem)
        · rw [List.reverse_reverse, flatten, hsignals]
          exact AppendMap.foldl_extend _ _
  · -- the fields come back in reverse order, which distinct keys do not show
    have hsignals : (Value.object obj).signals parseBytes key =
        (nestedFields key obj).flatMap fun item => item.2.signals parseBytes item.1 := by
      rw [Value.signals, signalsOfFields_eq]
    have hleaves : (Value.object obj).leaves =
        (nestedFields key obj).flatMap fun item => item.2.leaves := by
      rw [Value.leaves, leavesOfFields_eq, ← map_snd_nestedFields key obj, List.flatMap_map]
    refine ⟨(nestedFields key obj, inputs), rfl, h.parts hleaves hsignals, ?_⟩
    have hdistinct := h.distinct
    rw [hsignals] at hdistinct
    rw [flatten, hsignals, AppendMap.extend_perm hdistinct
      ((List.reverse_perm (nestedFields key obj)).symm.flatMap_right _)]
    exact AppendMap.foldl_extend _ _
  · have helement := Value.Readable.isElement h.readable hleaf
    refine ⟨_, flattenInputStep_leaf helement, by simp [done], ?_⟩
    rw [flatten, signals_leaf helement]
    exact AppendMap.push_eq_extend

end Parser

/-- `BigInt::parse_bytes` on strings without a sign. -/
def parseUnsigned (bytes : List UInt8) (radix : Nat) : Option Int :=
  (Prover.parseBytes radix (bytes.map fun b => Char.ofNat b.toNat)).map Int.ofNat

/-- A document with an uneven array, an empty one, an array with an object, and all kinds of
leaves. -/
def sampleDocument : Value :=
  .object [
    ("path", .array [.array [.number (.posInt 1), .string "0x10"], .array [],
      .array [.array [.number (.negInt (-1))], .string "7"]]),
    ("notes", .array [.object [("amount", .number (.posInt 5)), ("spent", .bool true)], .null])]

/-- The integer that a number denotes. -/
def Number.Denotes (n : Number) (i : Int) : Prop :=
  match n with
  | .posInt n => i = n.toNat
  | .negInt n => i = n.toInt
  | .float mantissa exponent => (mantissa : ℚ) * 2 ^ exponent = i

/-- What the traversals read of a number is what it denotes. -/
theorem Number.denotes_of_bigInt {n : Number} {i : Int} (h : n.bigInt = some i) : n.Denotes i := by
  cases n <;> cases h <;> rfl

/-- A float is never read, also when it denotes an integer. -/
theorem flattenInput_float (parseBytes : List UInt8 → Nat → Option Int) (key : String)
    (mantissa exponent : Int) (inputs : Inputs) :
    flattenInput parseBytes key (.number (.float mantissa exponent)) inputs =
      .error (.error s!"Invalid number for {key}") :=
  Worklist.run_error rfl

end PrivatePayments.Witness
