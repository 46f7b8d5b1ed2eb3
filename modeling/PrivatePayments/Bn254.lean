import Mathlib.Data.Fin.Basic
import Mathlib.Data.ZMod.Defs
import Mathlib.Tactic.Ring

/-!
# PrivatePayments.Bn254

The scalar field of BN254 and the fixed-width integers of the contracts.

A circuit signal, a `Scalar` of the prover and a `Bn254Fr` of the host are all an
`Fr`: a natural number below the modulus, so that arithmetic on signals reduces to
`Nat` arithmetic modulo a literal. The contracts store the same values as `U256`,
which also holds numbers that are not canonical field elements; `Fr.toU256` embeds
the canonical ones.
-/

namespace PrivatePayments

/-- The BN254 scalar field modulus (`BN256_MOD_BYTES`). -/
abbrev bn256Modulus : Nat :=
  21888242871839275222246405745257275088548364400416034343698204186575808495617

/-- A scalar field element. -/
abbrev Fr := Fin bn256Modulus

/-- The number of 256-bit values, `2 ^ 256`. -/
abbrev u256Size : Nat :=
  115792089237316195423570985008687907853269984665640564039457584007913129639936

/-- An unsigned 256-bit integer of the host; also the content of a `BytesN<32>`, read
as a big-endian number. -/
abbrev U256 := Fin u256Size

instance : NeZero bn256Modulus := ⟨by decide⟩

instance : NeZero u256Size := ⟨by decide⟩

/-- A signed 256-bit integer of the host. -/
abbrev I256 := { v : Int // -2 ^ 255 ≤ v ∧ v < 2 ^ 255 }

namespace Fr

/-- A field element as the canonical `U256` that encodes it. -/
def toU256 (x : Fr) : U256 := ⟨x.val, lt_trans x.isLt (by decide)⟩

@[simp] theorem toU256_val (x : Fr) : x.toU256.val = x.val := rfl

theorem toU256_inj {x y : Fr} : x.toU256 = y.toU256 ↔ x = y := by
  simp [Fin.ext_iff]

theorem toU256_lt (x : Fr) : x.toU256.val < bn256Modulus := x.isLt

/-- The sum of two canonical values fits in 256 bits. -/
theorem toU256_add_val (x y : Fr) : (x.toU256 + y.toU256).val = x.val + y.val := by
  have hx := x.isLt
  have hy := y.isLt
  rw [Fin.val_add, toU256_val, toU256_val, Nat.mod_eq_of_lt]
  unfold bn256Modulus u256Size at *
  omega

end Fr

namespace U256

/-- `Bn254Fr::from_bytes`: the field element a 256-bit number stands for. -/
def toFr (v : U256) : Fr := Fin.ofNat bn256Modulus v.val

/-- `rem_euclid` by the field modulus. -/
def remEuclidModulus (v : U256) : U256 := v.toFr.toU256

theorem remEuclidModulus_val (v : U256) : v.remEuclidModulus.val = v.val % bn256Modulus := rfl

theorem toFr_val_of_lt {v : U256} (h : v.val < bn256Modulus) : v.toFr.val = v.val :=
  Nat.mod_eq_of_lt h

@[simp] theorem toFr_toU256 (x : Fr) : toFr x.toU256 = x :=
  Fin.ext (Nat.mod_eq_of_lt x.isLt)

theorem toU256_toFr {v : U256} (h : v.val < bn256Modulus) : v.toFr.toU256 = v :=
  Fin.ext (Nat.mod_eq_of_lt h)

/-- Two canonical encodings of one field element are one number. -/
theorem toFr_inj {v w : U256} (hv : v.val < bn256Modulus) (hw : w.val < bn256Modulus) :
    v.toFr = w.toFr ↔ v = w := by
  rw [← Fr.toU256_inj, toU256_toFr hv, toU256_toFr hw]

end U256

end PrivatePayments
