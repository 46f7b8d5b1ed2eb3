import PrivatePayments.Prover.Merkle

/-!
# PrivatePayments.Prover.Serialization

Field elements as 32 little-endian bytes (`prover/src/serialization.rs` and `Field` in
`types/src/amounts.rs`).

`bytesToScalar` reduces modulo the field order and only rejects a wrong length, while
`fieldTryFromLeBytes` rejects numbers from the modulus on; on the bytes of a field element
both give the element back.
-/

namespace PrivatePayments.Prover

/-- `width` little-endian bytes of a number. -/
def toLeBytes : Nat → Nat → List UInt8
  | 0, _ => []
  | width + 1, n => UInt8.ofNat n :: toLeBytes width (n / 256)

/-- `FIELD_SIZE` -/
def fieldSize : Nat := 32

/-- `bytes_to_scalar` -/
def bytesToScalar (bytes : List UInt8) : Except String Fr :=
  if bytes.length ≠ fieldSize then
    .error s!"Expected {fieldSize} bytes, got {bytes.length}"
  else .ok (Fin.ofNat bn256Modulus (leValue bytes))

/-- `scalar_to_bytes`, `Field::to_le_bytes` -/
def scalarToBytes (scalar : Fr) : List UInt8 := toLeBytes fieldSize scalar.val

/-- `Field::to_be_bytes` -/
def toBeBytes (scalar : Fr) : List UInt8 := (scalarToBytes scalar).reverse

/-! ## Round trips -/

@[simp] theorem length_toLeBytes (width n : Nat) : (toLeBytes width n).length = width := by
  induction width generalizing n with
  | zero => rfl
  | succ width ih => simp [toLeBytes, ih]

theorem leValue_lt (bytes : List UInt8) : leValue bytes < 256 ^ bytes.length := by
  induction bytes with
  | nil => simp [leValue]
  | cons b bytes ih =>
      have hb : b.toNat < 256 := b.toNat_lt
      calc leValue (b :: bytes) = b.toNat + 256 * leValue bytes := rfl
        _ < 256 * (leValue bytes + 1) := by omega
        _ ≤ 256 * 256 ^ bytes.length := Nat.mul_le_mul_left 256 ih
        _ = 256 ^ (b :: bytes).length := by rw [List.length_cons, pow_succ, mul_comm]

theorem leValue_toLeBytes {width n : Nat} (h : n < 256 ^ width) :
    leValue (toLeBytes width n) = n := by
  induction width generalizing n with
  | zero =>
      have hn : n = 0 := by simpa using h
      simp [hn, toLeBytes, leValue]
  | succ width ih =>
      have hdiv : n / 256 < 256 ^ width := by
        rw [pow_succ] at h
        exact Nat.div_lt_of_lt_mul (by rwa [mul_comm])
      have hlow : (UInt8.ofNat n).toNat = n % 256 := UInt8.toNat_ofNat'
      show (UInt8.ofNat n).toNat + 256 * leValue (toLeBytes width (n / 256)) = n
      rw [ih hdiv, hlow]
      exact Nat.mod_add_div n 256

theorem toLeBytes_add (a b n : Nat) :
    toLeBytes (a + b) n = toLeBytes a n ++ toLeBytes b (n / 256 ^ a) := by
  induction a generalizing n with
  | zero => simp [toLeBytes]
  | succ a ih =>
      rw [Nat.succ_add, toLeBytes, ih, toLeBytes, Nat.div_div_eq_div_mul, ← pow_succ',
        List.cons_append]

theorem toLeBytes_mod (a n : Nat) : toLeBytes a (n % 256 ^ a) = toLeBytes a n := by
  induction a generalizing n with
  | zero => rfl
  | succ a ih =>
      have hhead : UInt8.ofNat (n % 256 ^ (a + 1)) = UInt8.ofNat n := by
        apply UInt8.toNat_inj.mp
        rw [UInt8.toNat_ofNat', UInt8.toNat_ofNat', pow_succ', Nat.mod_mul_right_mod]
      have htail : n % 256 ^ (a + 1) / 256 = n / 256 % 256 ^ a := by
        rw [pow_succ', Nat.mod_mul_right_div_self]
      rw [toLeBytes, toLeBytes, hhead, htail, ih]

theorem toLeBytes_leValue (bytes : List UInt8) : toLeBytes bytes.length (leValue bytes) = bytes := by
  induction bytes with
  | nil => rfl
  | cons b bytes ih =>
      have hb : b.toNat < 256 := b.toNat_lt
      have hdiv : leValue (b :: bytes) / 256 = leValue bytes := by
        simp only [leValue]
        omega
      have hlow : UInt8.ofNat (leValue (b :: bytes)) = b := by
        apply UInt8.toNat_inj.mp
        simp only [leValue, UInt8.toNat_ofNat']
        omega
      show UInt8.ofNat (leValue (b :: bytes)) :: toLeBytes bytes.length
        (leValue (b :: bytes) / 256) = b :: bytes
      rw [hdiv, hlow, ih]

theorem leValue_append (a b : List UInt8) :
    leValue (a ++ b) = leValue a + 256 ^ a.length * leValue b := by
  induction a with
  | nil => simp [leValue]
  | cons x a ih =>
      simp only [List.cons_append, leValue, ih, List.length_cons, pow_succ]
      ring

@[simp] theorem leValue_replicate_zero (n : Nat) : leValue (List.replicate n 0) = 0 := by
  induction n with
  | zero => rfl
  | succ n ih => simp [List.replicate_succ, leValue, ih]

@[simp] theorem length_scalarToBytes (x : Fr) : (scalarToBytes x).length = 32 :=
  length_toLeBytes _ _

theorem modulus_lt_bytes : bn256Modulus < 256 ^ fieldSize := by decide

@[simp] theorem leValue_scalarToBytes (x : Fr) : leValue (scalarToBytes x) = x.val :=
  leValue_toLeBytes (x.isLt.trans modulus_lt_bytes)

theorem scalarToBytes_inj {x y : Fr} : scalarToBytes x = scalarToBytes y ↔ x = y := by
  refine ⟨fun h => Fin.ext ?_, fun h => h ▸ rfl⟩
  rw [← leValue_scalarToBytes x, h, leValue_scalarToBytes]

theorem bytesToScalar_of_length {bytes : List UInt8} (h : bytes.length = 32) :
    bytesToScalar bytes = .ok (Fin.ofNat bn256Modulus (leValue bytes)) :=
  if_neg (not_not_intro h)

@[simp] theorem bytesToScalar_scalarToBytes (x : Fr) : bytesToScalar (scalarToBytes x) = .ok x := by
  rw [bytesToScalar_of_length (length_scalarToBytes x), leValue_scalarToBytes]
  exact congrArg Except.ok (Fin.ext (Nat.mod_eq_of_lt x.isLt))

theorem fieldTryFromLeBytes_of_lt {bytes : List UInt8} (h : leValue bytes < bn256Modulus) :
    fieldTryFromLeBytes bytes = .ok ⟨leValue bytes, h⟩ := dif_pos h

theorem fieldTryFromLeBytes_of_not_lt {bytes : List UInt8} (h : ¬ leValue bytes < bn256Modulus) :
    fieldTryFromLeBytes bytes = .error "field element out of range" := dif_neg h

@[simp] theorem fieldTryFromLeBytes_scalarToBytes (x : Fr) :
    fieldTryFromLeBytes (scalarToBytes x) = .ok x := by
  have h : leValue (scalarToBytes x) < bn256Modulus := leValue_scalarToBytes x ▸ x.isLt
  rw [fieldTryFromLeBytes_of_lt h]
  exact congrArg Except.ok (Fin.ext (leValue_scalarToBytes x))

end PrivatePayments.Prover
