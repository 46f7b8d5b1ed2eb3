import PrivatePayments.Prover.Crypto
import PrivatePayments.State.EventsParsers
import PrivatePayments.Stellar.ContractState

/-!
# PrivatePayments.Stellar.Conversions

Numbers as the limbs of a contract value (`stellar/src/conversions.rs`).

Both sides are compared with the limbs `U256.toParts` of a number: writing a number gives its
limbs (`fieldToScvalU256_eq`), limbs are read as the number they are the limbs of
(`scvalToU256_toParts`, `State.scvalToU256_toParts`), and every four limbs are the limbs of a
number (`exists_toParts`).
-/

namespace PrivatePayments.Stellar

open Prover (toLeBytes leValue length_toLeBytes toLeBytes_add toLeBytes_mod leValue_toLeBytes)

/-! ## Writing a number -/

/-- The limb of a number above its `a` lowest bytes. -/
theorem u64FromBeBytes_slice {a b width : Nat} (hwidth : a + (8 + b) = width) (n : Nat) :
    u64FromBeBytes (((toLeBytes width n).reverse.drop b).take 8) =
      UInt64.ofNat (n / 256 ^ a % 2 ^ 64) := by
  have hlimb : leValue (toLeBytes 8 (n / 256 ^ a)) = n / 256 ^ a % 2 ^ 64 := by
    rw [← toLeBytes_mod]
    exact leValue_toLeBytes (Nat.mod_lt _ (by decide))
  rw [← hwidth, toLeBytes_add, toLeBytes_add, List.reverse_append, List.reverse_append,
    List.append_assoc, List.drop_left' (by simp), List.take_left' (by simp), u64FromBeBytes,
    List.reverse_reverse, hlimb]

/-- A number is written as its limbs. -/
theorem fieldToScvalU256_eq (v : U256) : fieldToScvalU256 v = .u256 v.toParts := by
  have hlt : v.val < 2 ^ 256 := v.isLt
  have hiHi := u64FromBeBytes_slice (show 24 + (8 + 0) = 32 from rfl) v.val
  have hiLo := u64FromBeBytes_slice (show 16 + (8 + 8) = 32 from rfl) v.val
  have loHi := u64FromBeBytes_slice (show 8 + (8 + 16) = 32 from rfl) v.val
  have loLo := u64FromBeBytes_slice (show 0 + (8 + 24) = 32 from rfl) v.val
  rw [List.drop_zero, show 256 ^ 24 = 2 ^ 192 by norm_num, Nat.mod_eq_of_lt (by omega)] at hiHi
  rw [show 256 ^ 16 = 2 ^ 128 by norm_num] at hiLo
  rw [show 256 ^ 8 = 2 ^ 64 by norm_num] at loHi
  rw [Nat.pow_zero, Nat.div_one, List.take_of_length_le (by simp)] at loLo
  unfold fieldToScvalU256 U256.toParts
  dsimp only
  rw [hiHi, hiLo, loHi, loLo]

/-! ## Reading limbs -/

/-- The limbs of a number add up to it. -/
theorem toParts_toNat (v : U256) :
    v.toParts.hiHi.toNat = v.val / 2 ^ 192 ∧ v.toParts.hiLo.toNat = v.val / 2 ^ 128 % 2 ^ 64 ∧
      v.toParts.loHi.toNat = v.val / 2 ^ 64 % 2 ^ 64 ∧ v.toParts.loLo.toNat = v.val % 2 ^ 64 := by
  have hlt : v.val < 2 ^ 256 := v.isLt
  exact ⟨UInt64.toNat_ofNat_of_lt (show v.val / 2 ^ 192 < 2 ^ 64 by omega),
    UInt64.toNat_ofNat_of_lt (Nat.mod_lt _ (by decide)),
    UInt64.toNat_ofNat_of_lt (Nat.mod_lt _ (by decide)),
    UInt64.toNat_ofNat_of_lt (Nat.mod_lt _ (by decide))⟩

/-- No sum on the way is too large. -/
theorem scvalToU256_toParts (v : U256) : scvalToU256 (.u256 v.toParts) = .ok v.val := by
  have hlt : v.val < 2 ^ 256 := v.isLt
  obtain ⟨h1, h2, h3, h4⟩ := toParts_toNat v
  unfold scvalToU256 checkedAddU256
  simp only [h1, h2, h3, h4, Nat.shiftLeft_eq]
  rw [if_pos (by unfold u256Size; omega), Prover.ok_bind,
    if_pos (by unfold u256Size; omega), Prover.ok_bind, if_pos (by unfold u256Size; omega)]
  congr 1
  omega

/-- Every four limbs are the limbs of a number. -/
theorem exists_toParts (parts : UInt256Parts) : ∃ v : U256, v.toParts = parts := by
  obtain ⟨hiHi, hiLo, loHi, loLo⟩ := parts
  have h1 := hiHi.toNat_lt
  have h2 := hiLo.toNat_lt
  have h3 := loHi.toNat_lt
  have h4 := loLo.toNat_lt
  have hlt : hiHi.toNat * 2 ^ 192 + hiLo.toNat * 2 ^ 128 + loHi.toNat * 2 ^ 64 + loLo.toNat <
      u256Size := by
    unfold u256Size
    omega
  refine ⟨⟨_, hlt⟩, ?_⟩
  obtain ⟨hp1, hp2, hp3, hp4⟩ := toParts_toNat ⟨_, hlt⟩
  have e1 : (U256.toParts ⟨_, hlt⟩).hiHi = hiHi := UInt64.toNat_inj.mp (by rw [hp1]; dsimp only; omega)
  have e2 : (U256.toParts ⟨_, hlt⟩).hiLo = hiLo := UInt64.toNat_inj.mp (by rw [hp2]; dsimp only; omega)
  have e3 : (U256.toParts ⟨_, hlt⟩).loHi = loHi := UInt64.toNat_inj.mp (by rw [hp3]; dsimp only; omega)
  have e4 : (U256.toParts ⟨_, hlt⟩).loLo = loLo := UInt64.toNat_inj.mp (by rw [hp4]; dsimp only; omega)
  show UInt256Parts.mk _ _ _ _ = _
  rw [UInt256Parts.mk.injEq]
  exact ⟨e1, e2, e3, e4⟩

/-- **Numbers cross the boundary unchanged.** Every 256-bit number that is written is read
back, and every four limbs are read without an overflow as the number that is written as
them. -/
theorem scvalToU256_fieldToScvalU256 :
    (∀ v : U256, scvalToU256 (fieldToScvalU256 v) = .ok v.val) ∧
    ∀ parts : UInt256Parts, ∃ v : U256,
      scvalToU256 (.u256 parts) = .ok v.val ∧ fieldToScvalU256 v = .u256 parts := by
  refine ⟨fun v => ?_, fun parts => ?_⟩
  · rw [fieldToScvalU256_eq, scvalToU256_toParts]
  · obtain ⟨v, rfl⟩ := exists_toParts parts
    exact ⟨v, scvalToU256_toParts v, fieldToScvalU256_eq v⟩

end PrivatePayments.Stellar

namespace PrivatePayments.State

open Stellar (toParts_toNat)

/-- The limbs of a number in an event. -/
def U256.limbs (v : U256) : UInt256Parts :=
  ⟨v.toParts.hiHi, v.toParts.hiLo, v.toParts.loHi, v.toParts.loLo⟩

/-- The indexer reads the same number. -/
theorem scvalToU256_limbs (v : U256) : scvalToU256 (.u256 (U256.limbs v)) = .ok v := by
  have hlt : v.val < 2 ^ 256 := v.isLt
  obtain ⟨h1, h2, h3, h4⟩ := toParts_toNat v
  have hshl {limb : UInt64} {bits : Nat} (h : limb.toNat * 2 ^ bits < u256Size) :
      (U256.shl limb bits).val = limb.toNat * 2 ^ bits := by
    rw [U256.shl, Nat.shiftLeft_eq]
    exact Nat.mod_eq_of_lt h
  have hadd {a b : U256} {message : String} (h : a.val + b.val < u256Size) :
      okOrElse (U256.checkedAdd a b) message = .ok ⟨a.val + b.val, h⟩ := by
    rw [U256.checkedAdd, if_pos h]
    exact congrArg Except.ok (Fin.ext (Nat.mod_eq_of_lt h))
  have hhiHi : (U256.shl (U256.limbs v).hiHi 192).val = v.val / 2 ^ 192 * 2 ^ 192 := by
    rw [hshl (by rw [U256.limbs, h1]; unfold u256Size; omega), U256.limbs, h1]
  have hhiLo : (U256.shl (U256.limbs v).hiLo 128).val = v.val / 2 ^ 128 % 2 ^ 64 * 2 ^ 128 := by
    rw [hshl (by rw [U256.limbs, h2]; unfold u256Size; omega), U256.limbs, h2]
  have hloHi : (U256.shl (U256.limbs v).loHi 64).val = v.val / 2 ^ 64 % 2 ^ 64 * 2 ^ 64 := by
    rw [hshl (by rw [U256.limbs, h3]; unfold u256Size; omega), U256.limbs, h3]
  have hloLo : (U256.shl (U256.limbs v).loLo 0).val = v.val % 2 ^ 64 * 2 ^ 0 := by
    rw [hshl (by rw [U256.limbs, h4]; unfold u256Size; omega), U256.limbs, h4]
  unfold scvalToU256
  dsimp only
  rw [hadd (by rw [hhiHi, hhiLo]; unfold u256Size; omega), Prover.ok_bind,
    hadd (by dsimp only; rw [hhiHi, hhiLo, hloHi]; unfold u256Size; omega), Prover.ok_bind,
    hadd (by dsimp only; rw [hhiHi, hhiLo, hloHi, hloLo]; unfold u256Size; omega)]
  refine congrArg Except.ok (Fin.ext ?_)
  dsimp only
  rw [hhiHi, hhiLo, hloHi, hloLo]
  omega

end PrivatePayments.State
