import PrivatePayments.Circuits.PolicyTransaction
import PrivatePayments.Prover.Crypto
import PrivatePayments.Types
import Mathlib.Logic.Equiv.Fin.Basic

/-!
# PrivatePayments.Prover.CircuitInputs

The inputs of the witness calculator: signal names with hexadecimal numbers
(`CircuitInputs` in `prover/src/types.rs`, `scalar_to_hex` in `prover/src/serialization.rs`),
and how they are read again (`flatten_input` and `to_field_element` in `witness/src/lib.rs`).

The calculator finds a signal by its name; an array of signals is one name with the values
in row-major order, and a field of a bus has a dotted name.
-/

namespace PrivatePayments.Prover

/-! ## Hexadecimal numbers -/

/-- A digit, in lower case. -/
def hexDigit (n : Nat) : Char := if n < 10 then Char.ofNat (48 + n) else Char.ofNat (87 + n)

/-- A byte as two digits. -/
def hexByte (b : UInt8) : List Char := [hexDigit (b.toNat / 16), hexDigit (b.toNat % 16)]

/-- `be32_to_0x_hex` -/
def be32To0xHex (be : List UInt8) : String := String.ofList ('0' :: 'x' :: be.flatMap hexByte)

/-- `scalar_to_hex` -/
def scalarToHex (scalar : Fr) : String := be32To0xHex (scalarToBytes scalar).reverse

/-- `field_bytes_to_hex`: 32 bytes are reduced modulo the field order. -/
def fieldBytesToHex (bytes : Bytes32) : String := scalarToHex (scalarOf bytes.val)

/-- `field_to_circuit_hex` -/
def fieldToCircuitHex (field : Fr) : String :=
  fieldBytesToHex ⟨scalarToBytes field, length_scalarToBytes field⟩

/-- The value of a digit. -/
def digitValue (radix : Nat) (c : Char) : Option Nat :=
  let value :=
    if '0' ≤ c ∧ c ≤ '9' then c.toNat - 48
    else if 'a' ≤ c ∧ c ≤ 'f' then c.toNat - 87
    else if 'A' ≤ c ∧ c ≤ 'F' then c.toNat - 55
    else radix
  if value < radix then some value else none

/-- A number with one digit more. -/
def pushDigit (radix n : Nat) (c : Char) : Option Nat :=
  (digitValue radix c).map fun d => n * radix + d

/-- `BigInt::parse_bytes`, without a sign. -/
def parseBytes (radix : Nat) (digits : List Char) : Option Nat :=
  if digits.isEmpty then none else digits.foldlM (pushDigit radix) 0

/-- `to_field_element` of a number that is not negative; the modulus and larger numbers are a
panic. -/
def toFieldElement (n : Nat) : Option Fr := if h : n < bn256Modulus then some ⟨n, h⟩ else none

/-- A string of the JSON inputs. -/
def signalValue (s : String) : Option Fr := do
  let n ← match s.toList with
    | '0' :: 'x' :: hex => parseBytes 16 hex
    | digits => parseBytes 10 digits
  toFieldElement n

/-! ## Writing and reading a number -/

theorem digitValue_hexDigit {d : Nat} (h : d < 16) : digitValue 16 (hexDigit d) = some d := by
  have hall : ∀ d : Fin 16, digitValue 16 (hexDigit d.val) = some d.val := by decide
  exact hall ⟨d, h⟩

theorem pushDigit_hexDigit {d : Nat} (h : d < 16) (n : Nat) :
    pushDigit 16 n (hexDigit d) = some (n * 16 + d) := by
  rw [pushDigit, digitValue_hexDigit h]
  rfl

theorem foldlM_hexByte (b : UInt8) (digits : List Char) (n : Nat) :
    (hexByte b ++ digits).foldlM (pushDigit 16) n =
      digits.foldlM (pushDigit 16) (n * 256 + b.toNat) := by
  have hb : b.toNat < 256 := b.toNat_lt
  have hsum : (n * 16 + b.toNat / 16) * 16 + b.toNat % 16 = n * 256 + b.toNat := by omega
  simp only [hexByte, List.cons_append, List.nil_append, List.foldlM_cons, Option.bind_eq_bind,
    pushDigit_hexDigit (show b.toNat / 16 < 16 by omega),
    pushDigit_hexDigit (show b.toNat % 16 < 16 by omega), Option.bind_some, hsum]

/-- The digits of a byte string stand for its big-endian number. -/
theorem foldlM_hexBytes (bytes : List UInt8) (n : Nat) :
    (bytes.flatMap hexByte).foldlM (pushDigit 16) n =
      some (n * 256 ^ bytes.length + leValue bytes.reverse) := by
  induction bytes generalizing n with
  | nil => simp [leValue]
  | cons b bytes ih =>
      rw [List.flatMap_cons, foldlM_hexByte, ih, List.reverse_cons, leValue_append,
        List.length_reverse, List.length_cons, pow_succ]
      simp only [leValue]
      congr 1
      ring

theorem signalValue_be32To0xHex {be : List UInt8} (hne : be ≠ []) :
    signalValue (be32To0xHex be) = toFieldElement (leValue be.reverse) := by
  have hdigits : (be.flatMap hexByte).isEmpty = false := by
    cases be with
    | nil => exact absurd rfl hne
    | cons b be => rfl
  have hparse : parseBytes 16 (be.flatMap hexByte) = some (leValue be.reverse) := by
    have hfold := foldlM_hexBytes be 0
    rw [zero_mul, zero_add] at hfold
    unfold parseBytes
    rw [hdigits]
    exact hfold
  unfold signalValue be32To0xHex
  rw [String.toList_ofList]
  simp only [hparse]
  rfl

@[simp] theorem toFieldElement_val (x : Fr) : toFieldElement x.val = some x := dif_pos x.isLt

/-- A number that the client writes is the number that the calculator reads. -/
@[simp] theorem signalValue_scalarToHex (x : Fr) : signalValue (scalarToHex x) = some x := by
  have hne : (scalarToBytes x).reverse ≠ [] := by
    intro h
    have hlen := congrArg List.length h
    simp at hlen
  rw [scalarToHex, signalValue_be32To0xHex hne, List.reverse_reverse, leValue_scalarToBytes,
    toFieldElement_val]

@[simp] theorem signalValue_fieldBytesToHex (bytes : Bytes32) :
    signalValue (fieldBytesToHex bytes) = some (scalarOf bytes.val) :=
  signalValue_scalarToHex _

@[simp] theorem signalValue_fieldToCircuitHex (x : Fr) :
    signalValue (fieldToCircuitHex x) = some x := by
  rw [fieldToCircuitHex, signalValue_fieldBytesToHex, scalarOf_scalarToBytes]

theorem mapM_signalValue (xs : List Fr) :
    (xs.map fieldToCircuitHex).mapM signalValue = some xs := by
  induction xs with
  | nil => rfl
  | cons x xs ih => simp [ih]

/-! ## Inputs -/

/-- `InputValue` -/
inductive InputValue
  | single (value : String)
  | array (values : List String)

/-- `CircuitInputs`: a later entry of a name replaces an earlier one. -/
structure CircuitInputs where
  signals : List (String × InputValue)

namespace CircuitInputs

/-- `CircuitInputs::new` -/
def new : CircuitInputs := ⟨[]⟩

/-- `set_single` -/
def setSingle (c : CircuitInputs) (name value : String) : CircuitInputs :=
  ⟨(name, .single value) :: c.signals⟩

/-- `set_array` -/
def setArray (c : CircuitInputs) (name : String) (values : List String) : CircuitInputs :=
  ⟨(name, .array values) :: c.signals⟩

/-- The values of an entry, in order. -/
def valuesOf : InputValue → Option (List Fr)
  | .single value => (signalValue value).map fun x => [x]
  | .array values => values.mapM signalValue

/-- The values of a signal. -/
def values? (c : CircuitInputs) (name : String) : Option (List Fr) :=
  (c.signals.lookup name).bind valuesOf

/-- An array of `n` signals. -/
def vector? (c : CircuitInputs) (n : Nat) (name : String) : Option (Fin n → Fr) := do
  let values ← c.values? name
  if h : values.length = n then some fun i => values.get (i.cast h.symm) else none

/-- A signal that is not an array. -/
def scalar? (c : CircuitInputs) (name : String) : Option Fr :=
  (c.vector? 1 name).map fun v => v (Fin.last 0)

/-- The name of a field of the one proof of an input slot. -/
def slotName (proofs : String) (slot : Nat) (field : String) : String :=
  s!"{proofs}[{slot}][0].{field}"

/-- The signals of a bus `MembershipProof(levels)`. -/
def membershipProof? (c : CircuitInputs) (levels slot : Nat) :
    Option (MembershipProof levels) := do
  let leaf ← c.scalar? (slotName "membershipProofs" slot "leaf")
  let blinding ← c.scalar? (slotName "membershipProofs" slot "blinding")
  let pathElements ← c.vector? levels (slotName "membershipProofs" slot "pathElements")
  let pathIndices ← c.scalar? (slotName "membershipProofs" slot "pathIndices")
  return { leaf, blinding, pathElements, pathIndices }

/-- The signals of a bus `NonMembershipProof(levels)`. -/
def nonMembershipProof? (c : CircuitInputs) (levels slot : Nat) :
    Option (NonMembershipProof levels) := do
  let key ← c.scalar? (slotName "nonMembershipProofs" slot "key")
  let siblings ← c.vector? levels (slotName "nonMembershipProofs" slot "siblings")
  let oldKey ← c.scalar? (slotName "nonMembershipProofs" slot "oldKey")
  let oldValue ← c.scalar? (slotName "nonMembershipProofs" slot "oldValue")
  let isOld0 ← c.scalar? (slotName "nonMembershipProofs" slot "isOld0")
  return { key, siblings, oldKey, oldValue, isOld0 }

/-- The input signals of `PolicyTransaction(2, 2, 1, 1, levels, smtLevels)`. -/
def policySignals? (c : CircuitInputs) (levels smtLevels : Nat) :
    Option (PolicySignals 2 2 1 1 levels smtLevels) := do
  let root ← c.scalar? "root"
  let publicAmount ← c.scalar? "publicAmount"
  let extDataHash ← c.scalar? "extDataHash"
  let inputNullifier ← c.vector? 2 "inputNullifier"
  let outputCommitment ← c.vector? 2 "outputCommitment"
  let membershipRoots ← c.vector? (2 * 1) "membershipRoots"
  let nonMembershipRoots ← c.vector? (2 * 1) "nonMembershipRoots"
  let membership0 ← c.membershipProof? levels 0
  let membership1 ← c.membershipProof? levels 1
  let nonMembership0 ← c.nonMembershipProof? smtLevels 0
  let nonMembership1 ← c.nonMembershipProof? smtLevels 1
  let inAmount ← c.vector? 2 "inAmount"
  let inPrivateKey ← c.vector? 2 "inPrivateKey"
  let inBlinding ← c.vector? 2 "inBlinding"
  let inPathIndices ← c.vector? 2 "inPathIndices"
  let inPathElements ← c.vector? (2 * levels) "inPathElements"
  let outAmount ← c.vector? 2 "outAmount"
  let outPubkey ← c.vector? 2 "outPubkey"
  let outBlinding ← c.vector? 2 "outBlinding"
  return {
    root, publicAmount, extDataHash, inputNullifier, outputCommitment
    membershipRoots := fun tx i => membershipRoots (finProdFinEquiv (tx, i))
    nonMembershipRoots := fun tx i => nonMembershipRoots (finProdFinEquiv (tx, i))
    membershipProofs := fun tx _ => ![membership0, membership1] tx
    nonMembershipProofs := fun tx _ => ![nonMembership0, nonMembership1] tx
    inAmount, inPrivateKey, inBlinding, inPathIndices
    inPathElements := fun tx i => inPathElements (finProdFinEquiv (tx, i))
    outAmount, outPubkey, outBlinding }

end CircuitInputs

end PrivatePayments.Prover
