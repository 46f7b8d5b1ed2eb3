import PrivatePayments.Prover.R1cs

/-!
# PrivatePayments.Prover.R1csCapacity

What the parser of constraint systems does on arbitrary bytes. It never indexes past the data, and
it panics exactly when a count that it reaches asks for more memory than there can be
(`parseCursor_outcome`).

The counts it reaches are those of the linear combinations that stand one after the other from the
start of the constraints on, wherever the bytes say that they do (`CombinationsFit`).
-/

namespace PrivatePayments.Prover.R1cs

open Tape (Takes Keeps)

/-- The failure is an `Err` and not a panic. -/
def Failure.IsError : Failure → Prop
  | .error _ => True
  | _ => False

/-! ## The cursor -/

theorem okOrElse_outcome {α : Type} {message : String} {o : Option α} {s : Cursor} :
    Outcome (okOrElse message o) s (fun a s' => o = some a ∧ s' = s)
      fun e _ => o = none ∧ e.IsError := by
  cases o with
  | none => exact Outcome.throw ⟨rfl, trivial⟩
  | some a => exact Outcome.pure ⟨rfl, rfl⟩

theorem index_eq {bytes : List UInt8} {i : Nat} (h : i < bytes.length) :
    index bytes i = return bytes[i] := by
  rw [index, List.getElem?_eq_getElem h]

theorem mapM_index {bytes : List UInt8} {start n : Nat} (h : start + n ≤ bytes.length) :
    (List.range' start n).mapM (index bytes) = return (bytes.drop start).take n := by
  induction n generalizing start with
  | zero => rfl
  | succ n ih =>
      have hstart : start < bytes.length := by omega
      have hrest : start + 1 + n ≤ bytes.length := by omega
      rw [List.range'_succ, List.mapM_cons, index_eq hstart, pure_bind, ih hrest, pure_bind,
        List.drop_eq_getElem_cons hstart, List.take_succ_cons]

/-- A whole slice, index by index. -/
theorem mapM_index_all {bytes : List UInt8} {n : Nat} (h : bytes.length = n) :
    (List.range' 0 n).mapM (index bytes) = return bytes := by
  rw [mapM_index (by omega), List.drop_zero, List.take_of_length_le h.le]

/-- The end of a read overflows only behind the end of the data. -/
theorem stop_outcome {t : Target} {data : List UInt8} (hdata : data.length ≤ t.isizeMax)
    {message : String} {p n : Nat} {s : Cursor} :
    Outcome (okOrElse message (checkedAddUsize t p n)) s (fun stop s' => stop = p + n ∧ s' = s)
      fun e _ => e.IsError ∧ data.length < p + n := by
  have husize : t.usizeSize = 2 * (t.isizeMax + 1) := rfl
  refine okOrElse_outcome.imp ?_ ?_
  · rintro stop s' ⟨hstop, hs'⟩
    simp only [checkedAddUsize, Option.ite_none_right_eq_some, Option.some.injEq] at hstop
    exact ⟨hstop.2.symm, hs'⟩
  · rintro e _ ⟨hnone, he⟩
    simp only [checkedAddUsize, ite_eq_right_iff, reduceCtorEq, imp_false] at hnone
    exact ⟨he, by omega⟩

theorem readBytes_outcome {t : Target} {data : List UInt8} (hdata : data.length ≤ t.isizeMax)
    (p n : Nat) :
    Outcome (readBytes t n) ⟨data, p⟩
      (fun bytes s => p + n ≤ data.length ∧ bytes = (data.drop p).take n ∧ s = ⟨data, p + n⟩)
      fun e _ => e.IsError ∧ data.length < p + n := by
  refine Outcome.get_bind (Outcome.bind (stop_outcome hdata) ?_)
  rintro stop _ ⟨rfl, rfl⟩
  refine Outcome.ite (fun hend => Outcome.throw ⟨trivial, hend⟩) fun hend => ?_
  have hin : p + n ≤ data.length := Nat.not_lt.mp hend
  have hslice : slice data p (p + n) = return (data.drop p).take n := by
    rw [slice, if_pos ⟨Nat.le_add_right p n, hin⟩, Nat.add_sub_cancel_left]
  rw [hslice, pure_bind]
  exact Outcome.bind (Outcome.set rfl) fun _ s' (hs' : _ = s') =>
    Outcome.pure ⟨hin, rfl, hs'.symm⟩

theorem takes_readBytes {t : Target} {data : List UInt8} (hdata : data.length ≤ t.isizeMax)
    (n : Nat) : Takes Failure.IsError data (readBytes t n) n :=
  fun p => (readBytes_outcome hdata p n).imp (fun _ _ h => h.2.2) fun _ _ he => he

theorem takes_skip {t : Target} {data : List UInt8} (hdata : data.length ≤ t.isizeMax) (n : Nat) :
    Takes Failure.IsError data (skip t n) n := by
  intro p
  refine Outcome.get_bind (Outcome.bind (stop_outcome hdata) ?_)
  rintro stop _ ⟨rfl, rfl⟩
  exact Outcome.ite (fun hend => Outcome.throw ⟨trivial, hend⟩) fun _ => Outcome.set rfl

/-- What a read in range gives has the length that was asked for. -/
theorem length_take_drop {data : List UInt8} {p n : Nat} (h : p + n ≤ data.length) :
    ((data.drop p).take n).length = n := by
  rw [List.length_take, List.length_drop]
  omega

/-- The number that stands at a position. -/
def u32At (data : List UInt8) (p : Nat) : Option UInt32 :=
  if p + 4 ≤ data.length then some (UInt32.ofNat (leValue ((data.drop p).take 4))) else none

theorem readU32Le_outcome {t : Target} {data : List UInt8} (hdata : data.length ≤ t.isizeMax)
    (p : Nat) :
    Outcome (readU32Le t) ⟨data, p⟩ (fun v s => u32At data p = some v ∧ s = ⟨data, p + 4⟩)
      fun e _ => e.IsError ∧ u32At data p = none := by
  refine Outcome.bind ((readBytes_outcome hdata p 4).imp (fun _ _ h => h) ?_) ?_
  · exact fun e _ he => ⟨he.1, if_neg (Nat.not_le.mpr he.2)⟩
  · rintro bytes _ ⟨hin, rfl, rfl⟩
    have hword : [0, 1, 2, 3].mapM (index ((data.drop p).take 4)) =
        return (data.drop p).take 4 := mapM_index_all (length_take_drop hin)
    rw [hword, pure_bind]
    exact Outcome.pure ⟨if_pos hin, rfl⟩

theorem takes_readU32Le {t : Target} {data : List UInt8} (hdata : data.length ≤ t.isizeMax) :
    Takes Failure.IsError data (readU32Le t) 4 := by
  intro p
  refine (readU32Le_outcome hdata p).imp (fun _ _ h => h.2) ?_
  rintro e _ ⟨he, hnone⟩
  simp only [u32At, ite_eq_right_iff, reduceCtorEq, imp_false] at hnone
  exact ⟨he, Nat.not_le.mp hnone⟩

theorem takes_readU64Le {t : Target} {data : List UInt8} (hdata : data.length ≤ t.isizeMax) :
    Takes Failure.IsError data (readU64Le t) 8 := by
  intro p
  refine Outcome.bind (readBytes_outcome hdata p 8) ?_
  rintro bytes _ ⟨hin, rfl, rfl⟩
  have hword : [0, 1, 2, 3, 4, 5, 6, 7].mapM (index ((data.drop p).take 8)) =
      return (data.drop p).take 8 := mapM_index_all (length_take_drop hin)
  rw [hword, pure_bind]
  exact Outcome.pure rfl

/-! ## The first pass -/

section Slice

variable {t : Target} {data : List UInt8} (hdata : data.length ≤ t.isizeMax)

include hdata

theorem keeps_parseHeader :
    Keeps Failure.IsError data (parseHeader t) fun header => header.fieldSize = 32 := by
  have hword := (takes_readU32Le hdata).keeps
  refine hword.bind fun fieldSize _ => Keeps.ite (fun _ => Keeps.throw trivial) fun hsize => ?_
  refine (takes_skip hdata _).keeps.bind fun _ _ => hword.bind fun _ _ => hword.bind fun _ _ => ?_
  refine hword.bind fun _ _ => hword.bind fun _ _ => ?_
  refine (takes_readU64Le hdata).keeps.bind fun _ _ => hword.bind fun _ _ => Keeps.pure ?_
  exact not_not.mp hsize

omit hdata in
theorem keeps_okOrElse {α : Type} {message : String} {o : Option α} :
    Keeps Failure.IsError data (okOrElse message o) fun _ => True :=
  fun _ => okOrElse_outcome.imp (fun _ _ h => ⟨h.2 ▸ rfl, trivial⟩) fun _ _ he => he.2

/-- The header that was found is of a field of 32 bytes. -/
def Found.Sized (found : Found) : Prop := ∀ header ∈ found.header, header.fieldSize = 32

theorem keeps_parseSection {found : Found} (hfound : found.Sized) (sectionType : UInt32)
    (start size : Nat) :
    Keeps Failure.IsError data (parseSection t found sectionType start size) Found.Sized := by
  have hskip := (takes_skip hdata size).keeps
  refine Keeps.ite (fun _ => (keeps_parseHeader hdata).bind fun header hsize => Keeps.pure ?_)
    fun _ => ?_
  · rintro _ ⟨⟩
    exact hsize
  · exact Keeps.ite (fun _ => hskip.bind fun _ _ => Keeps.pure hfound)
      fun _ => hskip.bind fun _ _ => Keeps.pure hfound

theorem keeps_readSection {found : Found} (hfound : found.Sized) :
    Keeps Failure.IsError data (readSection t found) Found.Sized := by
  refine (takes_readU32Le hdata).keeps.bind fun sectionType _ => ?_
  refine (takes_readU64Le hdata).keeps.bind fun sectionSize _ => ?_
  refine Keeps.getPosition.bind fun start _ => keeps_okOrElse.bind fun size _ => ?_
  refine (keeps_parseSection hdata hfound _ _ _).bind fun found hfound => ?_
  refine Keeps.getPosition.bind fun position _ => keeps_okOrElse.bind fun consumed _ => ?_
  refine Keeps.ite (fun _ => keeps_okOrElse.bind fun remaining _ => ?_) fun _ => Keeps.pure hfound
  exact (takes_skip hdata remaining).keeps.bind fun _ _ => Keeps.pure hfound

theorem keeps_readSections (n : Nat) {found : Found} (hfound : found.Sized) :
    Keeps Failure.IsError data (readSections t n found) Found.Sized := by
  induction n generalizing found with
  | zero => exact Keeps.pure hfound
  | succ n ih => exact (keeps_readSection hdata hfound).bind fun found hfound => ih hfound

/-- The first pass never panics. -/
theorem keeps_locateSections :
    Keeps Failure.IsError data (locateSections t) Found.Sized := by
  have hword := (takes_readU32Le hdata).keeps
  refine (takes_readBytes hdata 4).keeps.bind fun magic _ => ?_
  refine Keeps.ite (fun _ => Keeps.throw trivial) fun _ => hword.bind fun version _ => ?_
  refine Keeps.ite (fun _ => Keeps.throw trivial) fun _ => hword.bind fun numSections _ => ?_
  exact keeps_readSections hdata _ (by simp [Found.Sized])

omit hdata

/-! ## Linear combinations -/

/-- The counts of `n` linear combinations fit, as far as the bytes from `p` on hold them. -/
def CombinationsFit (t : Target) (data : List UInt8) : Nat → Nat → Prop
  | 0, _ => True
  | n + 1, p => ∀ count, u32At data p = some count →
      count.toNat * t.sizeOfTerm ≤ t.isizeMax ∧
        CombinationsFit t data n (p + 4 + count.toNat * 36)

/-- Behind the end of the data there are no counts. -/
theorem combinationsFit_end {p : Nat} (h : data.length < p + 4) (n : Nat) :
    CombinationsFit t data n p := by
  cases n with
  | zero => trivial
  | succ n =>
      intro count hcount
      rw [u32At, if_neg (Nat.not_le.mpr h)] at hcount
      cases hcount

/-- `x` reads `k` linear combinations: it panics exactly if the counts of these do not fit. -/
def Guarded {α : Type} (t : Target) (data : List UInt8) (x : Reader α) (k : Nat) : Prop :=
  ∀ p, Outcome x ⟨data, p⟩
    (fun _ s => s.data = data ∧
      ∀ n, CombinationsFit t data (n + k) p ↔ CombinationsFit t data n s.position)
    fun e _ => (e.IsError ∧ ∀ n, CombinationsFit t data (n + k) p) ∨
      (e = .capacityOverflow ∧ ∀ n, ¬ CombinationsFit t data (n + k) p)

theorem Guarded.pure {α : Type} {a : α} : Guarded t data (Pure.pure a) 0 :=
  fun _ => Outcome.pure ⟨rfl, fun _ => Iff.rfl⟩

theorem Guarded.bind {α β : Type} {x : Reader α} {f : α → Reader β} {k l : Nat}
    (hx : Guarded t data x k) (hf : ∀ a, Guarded t data (f a) l) :
    Guarded t data (x >>= f) (l + k) := by
  intro p
  refine Outcome.bind ((hx p).imp (fun _ _ h => h) ?_) ?_
  · rintro e _ (⟨he, hfit⟩ | ⟨he, hfit⟩)
    · exact .inl ⟨he, fun n => Nat.add_assoc n l k ▸ hfit (n + l)⟩
    · exact .inr ⟨he, fun n => Nat.add_assoc n l k ▸ hfit (n + l)⟩
  · rintro a ⟨data', p'⟩ ⟨hdata', hfit⟩
    obtain rfl : data = data' := hdata'.symm
    have hiff (n : Nat) : CombinationsFit t data (n + (l + k)) p ↔
        CombinationsFit t data (n + l) p' := by
      rw [← Nat.add_assoc]
      exact hfit (n + l)
    refine (hf a p').imp ?_ ?_
    · rintro b s ⟨hs, hrest⟩
      exact ⟨hs, fun n => (hiff n).trans (hrest n)⟩
    · rintro e _ (⟨he, hrest⟩ | ⟨he, hrest⟩)
      · exact .inl ⟨he, fun n => (hiff n).mpr (hrest n)⟩
      · exact .inr ⟨he, fun n h => hrest n ((hiff n).mp h)⟩

theorem Guarded.many {α : Type} {x : Reader α} {k : Nat} (hx : Guarded t data x k)
    (count : Nat) : Guarded t data (Tape.readMany x count) (count * k) := by
  induction count with
  | zero =>
      rw [Nat.zero_mul]
      exact Guarded.pure
  | succ count ih =>
      rw [Nat.succ_mul]
      refine hx.bind fun a => ?_
      have hrest := ih.bind fun rest => @Guarded.pure t data _ (a :: rest)
      rwa [Nat.zero_add] at hrest

include hdata

theorem takes_parseTerm : Takes Failure.IsError data (parseTerm t 32) 36 :=
  (takes_readU32Le hdata).bind fun _ => (takes_readBytes hdata 32).bind fun _ => Takes.pure

theorem guarded_parseLinearCombination :
    Guarded t data (parseLinearCombination t 32) 1 := by
  intro p
  refine Outcome.bind ((readU32Le_outcome hdata p).imp (fun _ _ h => h) ?_) ?_
  · rintro e _ ⟨he, hnone⟩
    refine .inl ⟨he, fun n count hcount => ?_⟩
    rw [hnone] at hcount
    cases hcount
  · rintro count _ ⟨hcount, rfl⟩
    have hfit (n : Nat) : CombinationsFit t data (n + 1) p ↔
        count.toNat * t.sizeOfTerm ≤ t.isizeMax ∧
          CombinationsFit t data n (p + 4 + count.toNat * 36) := by
      rw [CombinationsFit]
      refine ⟨fun h => h count hcount, fun h count' hcount' => ?_⟩
      obtain rfl := Option.some.inj (hcount.symm.trans hcount')
      exact h
    rw [withCapacity]
    by_cases hcap : count.toNat * t.sizeOfTerm ≤ t.isizeMax
    · rw [if_pos hcap, pure_bind]
      refine Outcome.bind (((takes_parseTerm hdata).many count.toNat (p + 4)).imp
        (fun _ _ h => h) ?_) ?_
      · rintro e _ ⟨he, hend⟩
        refine .inl ⟨he, fun n => (hfit n).mpr ⟨hcap, combinationsFit_end (by omega) n⟩⟩
      · rintro terms _ rfl
        refine Outcome.pure ⟨rfl, fun n => (hfit n).trans ⟨fun h => h.2, fun h => ⟨hcap, h⟩⟩⟩
    · rw [if_neg hcap]
      exact Outcome.bind (Q := fun _ _ => False)
        (Outcome.throw (.inr ⟨rfl, fun n h => hcap ((hfit n).mp h).1⟩)) fun _ _ h => h.elim

theorem guarded_parseConstraint : Guarded t data (parseConstraint t 32) 3 := by
  have hcombination := guarded_parseLinearCombination hdata
  exact hcombination.bind fun a => hcombination.bind fun b =>
    (hcombination.bind fun c => Guarded.pure)

end Slice

/-! ## The parser -/

/-- The header and the start of the constraints that the first pass finds. -/
def findSections (t : Target) (data : List UInt8) : Option (R1CSHeader × Nat) :=
  match (locateSections t).run ⟨data, 0⟩ with
  | .ok found _ => do
      let header ← found.header
      let (start, _) ← found.constraintsData
      return (header, start)
  | .error _ _ => none

/-- The counts fit: that of the constraints and those of their linear combinations. -/
def CountsFit (t : Target) (data : List UInt8) : Prop :=
  ∀ header start, findSections t data = some (header, start) →
    header.numConstraints.toNat * t.sizeOfConstraint ≤ t.isizeMax ∧
      CombinationsFit t data (header.numConstraints.toNat * 3) start

theorem assemble_outcome {header : R1CSHeader} {constraints : List Constraint} {s : Cursor} :
    Outcome (liftResult (assemble header constraints)) s (fun _ _ => True)
      fun e _ => e.IsError := by
  rw [assemble]
  split
  · exact Outcome.pure trivial
  · exact Outcome.throw trivial

/-- The second pass panics exactly if the counts do not fit. -/
theorem parseConstraints_outcome {t : Target} {data : List UInt8}
    (hdata : data.length ≤ t.isizeMax) {header : R1CSHeader} (hsize : header.fieldSize = 32)
    {start : Nat} {fits : Prop}
    (hfits : fits ↔ header.numConstraints.toNat * t.sizeOfConstraint ≤ t.isizeMax ∧
      CombinationsFit t data (header.numConstraints.toNat * 3) start) :
    Outcome (parseConstraints t header) ⟨data, start⟩ (fun _ _ => fits)
      fun e _ => (e.IsError ∧ fits) ∨ (e = .capacityOverflow ∧ ¬ fits) := by
  have hguarded := (guarded_parseConstraint hdata).many header.numConstraints.toNat start
  rw [parseConstraints, hsize, withCapacity]
  by_cases hcap : header.numConstraints.toNat * t.sizeOfConstraint ≤ t.isizeMax
  · rw [if_pos hcap]
    refine hguarded.imp ?_ ?_
    · rintro _ s ⟨-, hrest⟩
      exact hfits.mpr ⟨hcap, by simpa using (hrest 0).mpr trivial⟩
    · rintro e _ (⟨he, hfit⟩ | ⟨he, hfit⟩)
      · exact .inl ⟨he, hfits.mpr ⟨hcap, by simpa using hfit 0⟩⟩
      · exact .inr ⟨he, fun h => hfit 0 (by simpa using (hfits.mp h).2)⟩
  · rw [if_neg hcap]
    exact Outcome.bind (Q := fun _ _ => False)
      (Outcome.throw (.inr ⟨rfl, fun h => hcap (hfits.mp h).1⟩)) fun _ _ h => h.elim

/-- **Arbitrary bytes.** The parser panics only for the capacity, and exactly if the counts do not
fit. -/
theorem parseCursor_outcome {t : Target} {data : List UInt8} (hdata : data.length ≤ t.isizeMax) :
    Outcome (parseCursor t) ⟨data, 0⟩ (fun _ _ => CountsFit t data)
      fun e _ => (e.IsError ∧ CountsFit t data) ∨
        (e = .capacityOverflow ∧ ¬ CountsFit t data) := by
  have hnothing (h : findSections t data = none) : CountsFit t data := by
    intro header start hfind
    rw [h] at hfind
    cases hfind
  refine Outcome.bind ((keeps_locateSections hdata 0).and_run.imp (fun _ _ h => h) ?_) ?_
  · rintro e s ⟨hrun, he⟩
    exact .inl ⟨he, hnothing (by rw [findSections, hrun])⟩
  · rintro found ⟨data', p⟩ ⟨hrun, hdata', hsized⟩
    obtain rfl : data = data' := hdata'.symm
    cases hheader : found.header with
    | none =>
        have hfit := hnothing (by rw [findSections, hrun]; simp [hheader])
        exact Outcome.bind (Q := fun _ _ => False) (Outcome.throw (.inl ⟨trivial, hfit⟩))
          fun _ _ h => h.elim
    | some header =>
        rw [okOrElse, pure_bind]
        cases hconstraints : found.constraintsData with
        | none =>
            have hfit := hnothing (by rw [findSections, hrun]; simp [hheader, hconstraints])
            rw [constraintsAt, pure_bind]
            exact assemble_outcome.imp (fun _ _ _ => hfit) fun _ _ he => .inl ⟨he, hfit⟩
        | some range =>
            obtain ⟨start, size⟩ := range
            have hfind : findSections t data = some (header, start) := by
              rw [findSections, hrun]
              simp [hheader, hconstraints]
            have hfits : CountsFit t data ↔
                header.numConstraints.toNat * t.sizeOfConstraint ≤ t.isizeMax ∧
                  CombinationsFit t data (header.numConstraints.toNat * 3) start := by
              refine ⟨fun h => h header start hfind, fun h header' start' hfind' => ?_⟩
              obtain ⟨rfl, rfl⟩ := Prod.mk.inj (Option.some.inj (hfind.symm.trans hfind'))
              exact h
            have hsecond := parseConstraints_outcome hdata (hsized header hheader) hfits
            have hat : Outcome (constraintsAt t header (some (start, size))) ⟨data, p⟩
                (fun _ _ => CountsFit t data)
                fun e _ => (e.IsError ∧ CountsFit t data) ∨
                  (e = .capacityOverflow ∧ ¬ CountsFit t data) := by
              refine Outcome.bind (Q := fun _ s => s = ⟨data, start⟩) (Outcome.modify rfl) ?_
              rintro _ s rfl
              exact hsecond
            exact Outcome.bind hat fun constraints s hfit =>
              assemble_outcome.imp (fun _ _ _ => hfit) fun _ _ he => .inl ⟨he, hfit⟩

end PrivatePayments.Prover.R1cs
