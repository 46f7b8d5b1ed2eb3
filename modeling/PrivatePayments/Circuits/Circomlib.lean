import PrivatePayments.Bn254

/-!
# PrivatePayments.Circuits.Circomlib

The circomlib templates that the circuits include. Their sources are fetched by the
build and are not part of the repository, so a `Circomlib` is any family of constraint
systems that does what circomlib documents: each template is a relation between its
inputs and its outputs, and the fields after it say which assignments satisfy it.

`Circomlib.documented` is the family that the documentation itself defines.
-/

namespace PrivatePayments

/-- A Boolean signal. -/
def bit (b : Bool) : Fr := if b then 1 else 0

@[simp] theorem bit_true : bit true = 1 := rfl

@[simp] theorem bit_false : bit false = 0 := rfl

theorem bit_inj {a b : Bool} : bit a = bit b ↔ a = b := by
  cases a <;> cases b <;> decide

/-- The lowest `n` bits of a number, lowest first. -/
def bits (n v : Nat) : List Fr := (List.range n).map fun i => bit (v.testBit i)

@[simp] theorem bits_zero (v : Nat) : bits 0 v = [] := rfl

@[simp] theorem bits_length (n v : Nat) : (bits n v).length = n := by simp [bits]

theorem bits_succ (n v : Nat) : bits (n + 1) v = bit (v.testBit 0) :: bits n (v / 2) := by
  unfold bits
  rw [List.range_succ_eq_map, List.map_cons, List.map_map]
  congr 1
  refine List.map_congr_left fun i _ => ?_
  simp only [Function.comp_apply, Nat.testBit_succ]

/-- The states of `SMTVerifierSM`, one for each level. -/
inductive SMState
  | top
  | i0
  | iold
  | inew
  | na
  deriving DecidableEq, Repr

/-- The state signals of one level. -/
structure SMSignals where
  stTop : Fr
  stI0 : Fr
  stIold : Fr
  stInew : Fr
  stNa : Fr
  deriving DecidableEq

/-- A state as one-hot signals. -/
def SMState.signals : SMState → SMSignals
  | .top => ⟨1, 0, 0, 0, 0⟩
  | .i0 => ⟨0, 1, 0, 0, 0⟩
  | .iold => ⟨0, 0, 1, 0, 0⟩
  | .inew => ⟨0, 0, 0, 1, 0⟩
  | .na => ⟨0, 0, 0, 0, 1⟩

/-- The transition of the state machine when non-inclusion is verified (`fnc = 1`). -/
def SMState.next (is0 levIns : Bool) : SMState → SMState
  | .top => if levIns then (if is0 then .i0 else .iold) else .top
  | .i0 => .na
  | .iold => .na
  | .inew => .na
  | .na => .na

/-- `SMTLevIns`: at level `i` the signal is 1 when the siblings from `i` on are zero and
the sibling above is not; the level above the root counts as not zero. -/
def levInsOf : (aboveNonzero : Bool) → List Fr → List Fr
  | _, [] => []
  | aboveNonzero, s :: siblings =>
      bit (aboveNonzero && (s :: siblings).all (· = 0)) :: levInsOf (s ≠ 0) siblings

/-- The templates of circomlib, with their documented behaviour. -/
structure Circomlib where
  /-- `Num2Bits(n)`: input and output bits. -/
  num2Bits : Nat → Fr → List Fr → Prop
  /-- Below the size of the field the decomposition is unique. -/
  num2Bits_iff : ∀ {n : Nat} {x : Fr} {out : List Fr}, n < 254 →
    (num2Bits n x out ↔ x.val < 2 ^ n ∧ out = bits n x.val)
  /-- `Num2Bits_strict`: the 254 bits of the canonical representative. -/
  num2BitsStrict : Fr → List Fr → Prop
  num2BitsStrict_iff : ∀ {x : Fr} {out : List Fr}, num2BitsStrict x out ↔ out = bits 254 x.val
  /-- `IsEqual`: two inputs and the output. -/
  isEqual : Fr → Fr → Fr → Prop
  isEqual_iff : ∀ {a b out : Fr}, isEqual a b out ↔ out = bit (a = b)
  /-- `ForceEqualIfEnabled`: `enabled` and two inputs. -/
  forceEqualIfEnabled : Fr → Fr → Fr → Prop
  forceEqualIfEnabled_iff : ∀ {enabled a b : Fr},
    forceEqualIfEnabled enabled a b ↔ (enabled ≠ 0 → a = b)
  /-- `Switcher`: `sel`, `L`, `R`, `outL`, `outR`. -/
  switcher : Fr → Fr → Fr → Fr → Fr → Prop
  switcher_iff : ∀ {sel : Bool} {L R outL outR : Fr}, switcher (bit sel) L R outL outR ↔
    if sel then outL = R ∧ outR = L else outL = L ∧ outR = R
  /-- `MultiAND(n)`: inputs and output. -/
  multiAND : List Fr → Fr → Prop
  multiAND_iff : ∀ {ins : List Bool} {out : Fr},
    multiAND (ins.map bit) out ↔ out = bit (ins.all id)
  /-- `SMTLevIns(n)`: `enabled`, `siblings`, `levIns`. -/
  smtLevIns : Fr → List Fr → List Fr → Prop
  /-- The last level must always have a sibling of 0. -/
  smtLevIns_iff : ∀ {siblings levIns : List Fr}, siblings ≠ [] →
    (smtLevIns 1 siblings levIns ↔ siblings.getLast? = some 0 ∧ levIns = levInsOf true siblings)
  /-- `SMTVerifierSM`: the state of the level above, `is0`, `levIns`, `fnc`, the state. -/
  smtVerifierSM : SMSignals → Fr → Fr → Fr → SMSignals → Prop
  smtVerifierSM_iff : ∀ {prev : SMState} {is0 levIns : Bool} {st : SMSignals},
    smtVerifierSM prev.signals (bit is0) (bit levIns) 1 st ↔ st = (prev.next is0 levIns).signals

namespace Circomlib

/-- The family that the documentation defines. -/
def documented : Circomlib where
  num2Bits n x out := x.val < 2 ^ n ∧ out = bits n x.val
  num2Bits_iff _ := Iff.rfl
  num2BitsStrict x out := out = bits 254 x.val
  num2BitsStrict_iff := Iff.rfl
  isEqual a b out := out = bit (a = b)
  isEqual_iff := Iff.rfl
  forceEqualIfEnabled enabled a b := enabled ≠ 0 → a = b
  forceEqualIfEnabled_iff := Iff.rfl
  switcher sel L R outL outR :=
    ∀ b : Bool, sel = bit b → if b then outL = R ∧ outR = L else outL = L ∧ outR = R
  switcher_iff := by
    intro sel L R outL outR
    constructor
    · intro h
      exact h sel rfl
    · intro h b hb
      rw [← bit_inj.mp hb]
      exact h
  multiAND ins out := ∀ bs : List Bool, ins = bs.map bit → out = bit (bs.all id)
  multiAND_iff := by
    intro ins out
    constructor
    · intro h
      exact h ins rfl
    · intro h bs hbs
      have hinj : Function.Injective bit := fun _ _ => bit_inj.mp
      rw [← List.map_injective_iff.mpr hinj hbs]
      exact h
  smtLevIns _ siblings levIns := siblings.getLast? = some 0 ∧ levIns = levInsOf true siblings
  smtLevIns_iff _ := Iff.rfl
  smtVerifierSM prev is0 levIns _ st := ∀ (q : SMState) (a b : Bool),
    prev = q.signals → is0 = bit a → levIns = bit b → st = (q.next a b).signals
  smtVerifierSM_iff := by
    intro prev is0 levIns st
    constructor
    · intro h
      exact h prev is0 levIns rfl rfl rfl
    · intro h q a b hq ha hb
      have hprev : prev = q := by
        cases prev <;> cases q <;> first | rfl | exact absurd hq (by decide)
      rw [← hprev, ← bit_inj.mp ha, ← bit_inj.mp hb]
      exact h

end Circomlib

end PrivatePayments
