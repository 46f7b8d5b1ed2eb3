import PrivatePayments.Circuits.SmtVerifier

/-!
# PrivatePayments.Circuits.SmtVerifierSound

What `SMTVerifier` says when it verifies non-inclusion. The state machine follows the
siblings down to the last one that is not zero, puts the old leaf or an empty slot
there, and ignores the levels below; the constraints are satisfiable exactly when the
root folds from that leaf along the bits of the key, and an old leaf has another key.
-/

namespace PrivatePayments

namespace SmtVerifier

/-- The siblings above the trailing zeros. -/
def liveSiblings : List Fr → List Fr
  | [] => []
  | s :: siblings =>
      if (s :: siblings).all (· = 0) then [] else s :: liveSiblings siblings

/-- The root over a leaf: at each level the lowest bit of the rest of the key says on which
side the path goes on. -/
def smtRoot (leaf : Fr) : Nat → List Fr → Fr
  | _, [] => leaf
  | v, s :: path =>
      if v % 2 = 1 then smtHash2 s (smtRoot leaf (v / 2) path)
      else smtHash2 (smtRoot leaf (v / 2) path) s

/-- The states of the levels. -/
def smStates (isOld0 : Bool) : SMState → (aboveNonzero : Bool) → List Fr → List SMState
  | _, _, [] => []
  | prev, aboveNonzero, s :: siblings =>
      let st := prev.next isOld0 (aboveNonzero && (s :: siblings).all (· = 0))
      st :: smStates isOld0 st (s ≠ 0) siblings

variable {lib : Circomlib}

/-- The state machine is deterministic. -/
theorem smChain_iff {isOld0 : Bool} (siblings : List Fr) :
    ∀ {prev : SMState} {aboveNonzero : Bool} {sm : List SMSignals},
    smChain lib (bit isOld0) 1 prev.signals (levInsOf aboveNonzero siblings) sm ↔
      sm = (smStates isOld0 prev aboveNonzero siblings).map SMState.signals := by
  induction siblings with
  | nil =>
      intro prev aboveNonzero sm
      cases sm with
      | nil => exact iff_of_true trivial rfl
      | cons st sts => exact iff_of_false (fun h => h) (fun h => by cases h)
  | cons s siblings ih =>
      intro prev aboveNonzero sm
      cases sm with
      | nil => exact iff_of_false (fun h => h) (fun h => by cases h)
      | cons st sts =>
          unfold levInsOf smChain smStates
          rw [lib.smtVerifierSM_iff, List.map_cons, List.cons.injEq]
          refine and_congr_right fun hst => ?_
          rw [hst]
          exact ih

/-! ### One level -/

section Level

variable {sibling old1leaf new1leaf child root : Fr} {b : Bool}

theorem level_top : smtVerifierLevel lib SMState.top.signals sibling old1leaf new1leaf (bit b)
    child root ↔ root = if b then smtHash2 sibling child else smtHash2 child sibling := by
  unfold smtVerifierLevel
  simp only [lib.switcher_iff, SMState.signals, Fin.mul_zero, Fin.mul_one, Fin.add_zero]
  cases b with
  | true => simp
  | false => simp

/-- Below the insertion the level's own hash does not count. -/
theorem level_leaf {st : SMState} (hst : st ≠ .top) (hnew : st ≠ .inew) :
    smtVerifierLevel lib st.signals sibling old1leaf new1leaf (bit b) child root ↔
      root = if st = .iold then old1leaf else 0 := by
  have hswitch : ∃ outL outR, lib.switcher (bit b) child sibling outL outR := by
    cases b with
    | true => exact ⟨sibling, child, lib.switcher_iff.mpr ⟨rfl, rfl⟩⟩
    | false => exact ⟨child, sibling, lib.switcher_iff.mpr ⟨rfl, rfl⟩⟩
  obtain ⟨outL, outR, hsw⟩ := hswitch
  have hval : ∀ x : Fr, x * st.signals.stTop + old1leaf * st.signals.stIold +
      new1leaf * st.signals.stInew = if st = .iold then old1leaf else 0 := by
    intro x
    cases st with
    | top => exact absurd rfl hst
    | inew => exact absurd rfl hnew
    | i0 => simp [SMState.signals]
    | iold => simp [SMState.signals]
    | na => simp [SMState.signals]
  unfold smtVerifierLevel
  constructor
  · rintro ⟨_, _, -, hroot⟩
    rw [hroot, hval]
  · intro hroot
    exact ⟨outL, outR, hsw, by rw [hroot, hval]⟩

end Level

/-! ### The levels together -/

/-- The bits of a number: the head is the lowest one, the tail the bits of the half. -/
theorem bits_headD {n v : Nat} (hv : v < 2 ^ n) : (bits n v).headD 0 = bit (v % 2 = 1) := by
  cases n with
  | zero =>
      obtain rfl : v = 0 := by simpa using hv
      rfl
  | succ n =>
      rw [bits_succ, Nat.testBit_zero]
      rfl

theorem bits_tail {n v : Nat} (hv : v < 2 ^ n) :
    ∃ m, (bits n v).tail = bits m (v / 2) ∧ v / 2 < 2 ^ m := by
  cases n with
  | zero =>
      obtain rfl : v = 0 := by simpa using hv
      exact ⟨0, rfl, by decide⟩
  | succ n =>
      rw [bits_succ]
      exact ⟨n, rfl, by rw [pow_succ] at hv; omega⟩

/-- After the insertion every state is `na` and every root is 0. -/
theorem levelChain_na {isOld0 : Bool} {old1leaf new1leaf : Fr} (siblings : List Fr) :
    ∀ {prev : SMState} {aboveNonzero : Bool} {n v : Nat} {root : Fr}, prev ≠ .top →
      v < 2 ^ n → (levelChain lib old1leaf new1leaf
        ((smStates isOld0 prev aboveNonzero siblings).map SMState.signals) siblings (bits n v)
        root ↔ root = 0) := by
  induction siblings with
  | nil => intro prev aboveNonzero n v root _ _; exact Iff.rfl
  | cons s siblings ih =>
      intro prev aboveNonzero n v root hprev hv
      have hna : prev.next isOld0 (aboveNonzero && (s :: siblings).all (· = 0)) = .na := by
        cases prev with
        | top => exact absurd rfl hprev
        | i0 => rfl
        | iold => rfl
        | inew => rfl
        | na => rfl
      obtain ⟨m, htail, hm⟩ := bits_tail hv
      unfold smStates
      rw [hna, List.map_cons]
      unfold levelChain
      rw [htail, bits_headD hv]
      constructor
      · rintro ⟨child, -, hroot⟩
        rw [level_leaf (by decide) (by decide)] at hroot
        rw [hroot]
        rfl
      · intro hroot
        refine ⟨0, (ih (by decide) hm).mpr rfl, ?_⟩
        rw [level_leaf (by decide) (by decide), hroot]
        rfl

/-- The root of the levels is the root over the old leaf, or over an empty slot. -/
theorem levelChain_iff {isOld0 : Bool} {old1leaf new1leaf : Fr} (siblings : List Fr) :
    ∀ {aboveNonzero : Bool} {n v : Nat} {root : Fr}, siblings.getLast? = some 0 →
      (aboveNonzero = true ∨ ¬ siblings.all (· = 0)) → v < 2 ^ n →
      (levelChain lib old1leaf new1leaf
        ((smStates isOld0 .top aboveNonzero siblings).map SMState.signals) siblings (bits n v)
        root ↔ root = smtRoot (if isOld0 then 0 else old1leaf) v (liveSiblings siblings)) := by
  induction siblings with
  | nil => intro aboveNonzero n v root hlast _ _; cases hlast
  | cons s siblings ih =>
      intro aboveNonzero n v root hlast habove hv
      obtain ⟨m, htail, hm⟩ := bits_tail hv
      unfold smStates
      rw [List.map_cons]
      unfold levelChain liveSiblings
      rw [htail, bits_headD hv]
      by_cases hall : (s :: siblings).all (· = 0)
      · -- the insertion level
        have hfirst : aboveNonzero = true := habove.resolve_right (not_not.mpr hall)
        rw [hfirst, Bool.true_and, hall, if_pos rfl]
        unfold smtRoot
        have hst : SMState.top.next isOld0 true ≠ .top ∧ SMState.top.next isOld0 true ≠ .inew ∧
            ((if SMState.top.next isOld0 true = .iold then old1leaf else 0) =
              if isOld0 then 0 else old1leaf) := by
          cases isOld0 with
          | true => exact ⟨by decide, by decide, rfl⟩
          | false => exact ⟨by decide, by decide, rfl⟩
        constructor
        · rintro ⟨child, -, hroot⟩
          rw [level_leaf hst.1 hst.2.1, hst.2.2] at hroot
          exact hroot
        · intro hroot
          refine ⟨0, (levelChain_na siblings hst.1 hm).mpr rfl, ?_⟩
          rw [level_leaf hst.1 hst.2.1, hst.2.2]
          exact hroot
      · -- a level above it
        have hfalse : (s :: siblings).all (· = 0) = false := by simpa using hall
        rw [hfalse, Bool.and_false, if_neg Bool.false_ne_true]
        have hne : siblings ≠ [] := by
          rintro rfl
          obtain rfl : s = 0 := by simpa using hlast
          exact hall rfl
        have hlast' : siblings.getLast? = some 0 := by
          rw [← hlast, List.getLast?_cons, List.getLast?_eq_some_getLast hne]
          rfl
        have habove' : decide (s ≠ 0) = true ∨ ¬ siblings.all (· = 0) := by
          by_cases hs : s = 0
          · refine .inr fun hrest => hall ?_
            rw [List.all_cons, hrest, hs]
            rfl
          · exact .inl (decide_eq_true hs)
        have hnext : SMState.top.next isOld0 false = .top := rfl
        rw [hnext]
        unfold smtRoot
        constructor
        · rintro ⟨child, hchild, hroot⟩
          rw [level_top] at hroot
          rw [ih hlast' habove' hm] at hchild
          rw [hroot, hchild]
          by_cases hv1 : v % 2 = 1
          · simp [hv1]
          · simp [hv1]
        · intro hroot
          refine ⟨_, (ih hlast' habove' hm).mpr rfl, ?_⟩
          rw [level_top, hroot]
          by_cases hv1 : v % 2 = 1
          · simp [hv1]
          · simp [hv1]

/-- The last level is below the insertion. -/
theorem finalState_of_getLast {isOld0 : Bool} (siblings : List Fr) :
    ∀ (prev : SMState) (aboveNonzero : Bool), siblings.getLast? = some 0 → prev ≠ .inew →
      (prev = .top → aboveNonzero = true ∨ ¬ siblings.all (· = 0)) →
      finalState ((smStates isOld0 prev aboveNonzero siblings).map SMState.signals) := by
  induction siblings with
  | nil => intro prev aboveNonzero hlast _ _; cases hlast
  | cons s siblings ih =>
      intro prev aboveNonzero hlast hnew habove
      unfold smStates
      generalize hins : (aboveNonzero && (s :: siblings).all (· = 0)) = ins
      have hnext : prev.next isOld0 ins ≠ .inew := by
        cases prev with
        | top => cases ins <;> cases isOld0 <;> decide
        | i0 => exact SMState.noConfusion
        | iold => exact SMState.noConfusion
        | inew => exact absurd rfl hnew
        | na => exact SMState.noConfusion
      cases siblings with
      | nil =>
          obtain rfl : s = 0 := by simpa using hlast
          refine ⟨(prev.next isOld0 ins).signals, rfl, ?_⟩
          have htop : prev.next isOld0 ins ≠ .top := by
            cases prev with
            | top =>
                have hfirst : aboveNonzero = true := (habove rfl).resolve_right (by simp)
                rw [hfirst] at hins
                rw [← hins]
                cases isOld0 <;> decide
            | i0 => exact SMState.noConfusion
            | iold => exact SMState.noConfusion
            | inew => exact absurd rfl hnew
            | na => exact SMState.noConfusion
          revert hnext htop
          generalize prev.next isOld0 ins = st
          intro hnext htop
          cases st with
          | top => exact absurd rfl htop
          | inew => exact absurd rfl hnext
          | i0 => decide
          | iold => decide
          | na => decide
      | cons s' siblings =>
          have hlast' : (s' :: siblings).getLast? = some 0 := by
            rw [← hlast, List.getLast?_cons_cons]
          have hrest := ih (prev.next isOld0 ins) (decide (s ≠ 0)) hlast' hnext ?_
          · obtain ⟨st, hget, hone⟩ := hrest
            refine ⟨st, ?_, hone⟩
            rw [List.map_cons]
            unfold smStates at hget ⊢
            rw [List.map_cons] at hget ⊢
            rw [List.getLast?_cons_cons]
            exact hget
          · intro htop
            by_cases hs : s = 0
            · refine .inr fun hrest => ?_
              have hall : (s :: s' :: siblings).all (· = 0) = true := by
                rw [List.all_cons, hrest, hs]
                rfl
              -- then the insertion would have been at this level or above
              cases prev with
              | top =>
                  have hfirst : aboveNonzero = true :=
                    (habove rfl).resolve_right (not_not.mpr hall)
                  rw [hfirst, hall] at hins
                  rw [← hins] at htop
                  cases isOld0 <;> exact SMState.noConfusion htop
              | i0 => exact SMState.noConfusion htop
              | iold => exact SMState.noConfusion htop
              | inew => exact SMState.noConfusion htop
              | na => exact SMState.noConfusion htop
            · exact .inl (decide_eq_true hs)

/-! ### The whole verifier -/

theorem one_sub_bit (b : Bool) : 1 - bit b = bit (!b) := by
  cases b with
  | true => decide
  | false => decide

end SmtVerifier

open SmtVerifier

/-- **Non-inclusion.** The constraints hold exactly when the last sibling is zero, the root is
the root over the old leaf or an empty slot along the bits of the key, and an old leaf has
another key. The value does not matter. -/
theorem smtVerifier_iff {lib : Circomlib} {root oldKey oldValue key value : Fr} {isOld0 : Bool}
    {siblings : List Fr} :
    smtVerifier lib 1 root siblings oldKey oldValue (bit isOld0) key value 1 ↔
      siblings.getLast? = some 0 ∧
      root = smtRoot (if isOld0 then 0 else smtHash1 oldKey oldValue) key.val
        (liveSiblings siblings) ∧
      (isOld0 = false → oldKey ≠ key) := by
  have hinit : initialSignals 1 = SMState.top.signals := by
    unfold initialSignals SMState.signals
    rw [show (1 : Fr) - 1 = 0 by decide]
  have hkey : key.val < 2 ^ 254 := lt_trans key.isLt (by decide)
  have hand : ∀ out, lib.multiAND [1, 1 - bit isOld0, bit (oldKey = key), 1] out ↔
      out = bit ([true, !isOld0, decide (oldKey = key), true].all id) := by
    intro out
    rw [← lib.multiAND_iff, one_sub_bit]
    rfl
  have hzero : (bit ([true, !isOld0, decide (oldKey = key), true].all id) = 0) ↔
      (isOld0 = false → oldKey ≠ key) := by
    by_cases heq : oldKey = key
    · cases isOld0 <;> simp [heq]
    · cases isOld0 <;> simp [heq]
  unfold smtVerifier
  constructor
  · rintro ⟨n2bOld, n2bNew, levIns, sm, root0, areKeyEquals, keysOk, -, hnew, hlev, hsm, hfinal,
      hlevels, heq, hkeys, hok, hroot⟩
    have hne : siblings ≠ [] := by
      rintro rfl
      cases sm with
      | nil =>
          obtain ⟨st, hget, -⟩ := hfinal
          cases hget
      | cons st sts => exact hlevels
    obtain ⟨hlast, rfl⟩ := (lib.smtLevIns_iff hne).mp hlev
    rw [hinit, smChain_iff] at hsm
    rw [lib.num2BitsStrict_iff] at hnew
    rw [hsm, hnew, levelChain_iff siblings hlast (.inl rfl) hkey] at hlevels
    rw [lib.isEqual_iff] at heq
    rw [heq, hand] at hkeys
    refine ⟨hlast, ?_, hzero.mp (hkeys ▸ hok)⟩
    rw [← lib.forceEqualIfEnabled_iff.mp hroot (by decide)]
    exact hlevels
  · rintro ⟨hlast, hroot, hkeys⟩
    have hne : siblings ≠ [] := by
      rintro rfl
      cases hlast
    refine ⟨bits 254 oldKey.val, bits 254 key.val, levInsOf true siblings,
      (smStates isOld0 .top true siblings).map SMState.signals, root, bit (oldKey = key), 0,
      lib.num2BitsStrict_iff.mpr rfl, lib.num2BitsStrict_iff.mpr rfl,
      (lib.smtLevIns_iff hne).mpr ⟨hlast, rfl⟩, ?_, ?_, ?_, lib.isEqual_iff.mpr rfl, ?_, rfl,
      lib.forceEqualIfEnabled_iff.mpr fun _ => rfl⟩
    · rw [hinit]
      exact (smChain_iff siblings).mpr rfl
    · exact finalState_of_getLast siblings .top true hlast (by decide) fun _ => .inl rfl
    · exact (levelChain_iff siblings hlast (.inl rfl) hkey).mpr hroot
    · exact (hand 0).mpr (hzero.mpr hkeys).symm

end PrivatePayments
