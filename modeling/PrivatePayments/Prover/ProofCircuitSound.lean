import PrivatePayments.Lib.Outcome
import PrivatePayments.Prover.ProofCircuit
import PrivatePayments.Prover.R1csSound

/-!
# PrivatePayments.Prover.ProofCircuitSound

What `generate_constraints` builds, and that its proofs verify.

The system that is built is the constraint system of the file over renumbered wires
(`synthesized`): its constraints depend on the file alone, its public part is the witness from
the one to the last public wire, and it is satisfied exactly when the witness satisfies the
file (`synthesis_faithful`). So a proof of it is one for the public inputs that
`extract_public_inputs` cuts out of the same bytes, and `verify` and `verify_proof` accept it
(`proofs_verify`).
-/

namespace PrivatePayments.Prover

open R1cs (Term LinearCombination Constraint R1CS Slice Target)

/-! ## What is synthesized -/

/-- The variable that stands for a wire. -/
def wireVariable (numPublic wire : Nat) : Variable :=
  if wire = 0 then .one
  else if wire ≤ numPublic then .instanceVar wire
  else .witnessVar (wire - (numPublic + 1))

/-- A linear combination over the variables of its wires. -/
def combinationOf (numPublic : Nat) (lc : LinearCombination) : Combination :=
  lc.terms.map fun t => (t.coefficient, wireVariable numPublic t.wireId.toNat)

/-- The constraints of the file. -/
def constraintsOf (r1cs : R1CS) : List (Combination × Combination × Combination) :=
  r1cs.constraints.map fun k => (combinationOf r1cs.numPublic.toNat k.a,
    combinationOf r1cs.numPublic.toNat k.b, combinationOf r1cs.numPublic.toNat k.c)

namespace R1CSCircuit

variable (circuit : R1CSCircuit)

/-- The constraint system of a circuit. -/
def synthesized : ConstraintSystem where
  instanceAssignment := circuit.witness.take (circuit.r1cs.numPublic.toNat + 1)
  witnessAssignment := (circuit.witness.drop (circuit.r1cs.numPublic.toNat + 1)).take
    (circuit.r1cs.numWires.toNat - (circuit.r1cs.numPublic.toNat + 1))
  constraints := constraintsOf circuit.r1cs

/-- The witness starts with one and has a value for every wire, the public wires are wires, and
the constraints use wires only. -/
structure Synthesizable : Prop where
  one : circuit.witness.head? = some 1
  publics : circuit.r1cs.numPublic.toNat + 1 ≤ circuit.r1cs.numWires.toNat
  values : circuit.r1cs.numWires.toNat ≤ circuit.witness.length
  wires : ∀ k ∈ circuit.r1cs.constraints, ∀ t ∈ terms k,
    t.wireId.toNat < circuit.r1cs.numWires.toNat

variable {circuit}

theorem publics_run {start n : Nat} {cs : ConstraintSystem}
    (hstart : cs.instanceAssignment.length = start) (hn : start + n ≤ circuit.witness.length) :
    ((List.range' start n).mapM circuit.publicVariable).run cs =
      .ok ((List.range' start n).map .instanceVar)
        { cs with instanceAssignment :=
            cs.instanceAssignment ++ (circuit.witness.drop start).take n } := by
  induction n generalizing start cs with
  | zero => simp
  | succ n ih =>
      have hlt : start < circuit.witness.length := by omega
      have hvar : (circuit.publicVariable start).run cs = .ok (.instanceVar start)
          { cs with instanceAssignment := cs.instanceAssignment ++ [circuit.witness[start]] } := by
        unfold publicVariable
        rw [List.getElem?_eq_getElem hlt]
        show EStateM.Result.ok (Variable.instanceVar cs.instanceAssignment.length) _ = _
        rw [hstart]
      have hrest := @ih (start + 1)
        { cs with instanceAssignment := cs.instanceAssignment ++ [circuit.witness[start]] }
        (by simp [hstart]) (by omega)
      rw [List.range'_succ, List.mapM_cons, EStateM.run_bind, hvar]
      dsimp only
      rw [EStateM.run_bind, hrest]
      show EStateM.Result.ok _ _ = _
      rw [List.drop_eq_getElem_cons hlt, List.take_succ_cons, List.map_cons, List.append_assoc]
      rfl

theorem privates_run {start n k : Nat} {cs : ConstraintSystem}
    (hk : cs.witnessAssignment.length = k) (hn : start + n ≤ circuit.witness.length) :
    ((List.range' start n).mapM circuit.privateVariable).run cs =
      .ok ((List.range' k n).map .witnessVar)
        { cs with witnessAssignment :=
            cs.witnessAssignment ++ (circuit.witness.drop start).take n } := by
  induction n generalizing start k cs with
  | zero => simp
  | succ n ih =>
      have hlt : start < circuit.witness.length := by omega
      have hvar : (circuit.privateVariable start).run cs = .ok (.witnessVar k)
          { cs with witnessAssignment := cs.witnessAssignment ++ [circuit.witness[start]] } := by
        unfold privateVariable
        rw [List.getElem?_eq_getElem hlt]
        show EStateM.Result.ok (Variable.witnessVar cs.witnessAssignment.length) _ = _
        rw [hk]
        rfl
      have hrest := @ih (start + 1) (k + 1)
        { cs with witnessAssignment := cs.witnessAssignment ++ [circuit.witness[start]] }
        (by simp [hk]) (by omega)
      rw [List.range'_succ, List.mapM_cons, EStateM.run_bind, hvar]
      dsimp only
      rw [EStateM.run_bind, hrest]
      show EStateM.Result.ok _ _ = _
      rw [List.drop_eq_getElem_cons hlt, List.take_succ_cons, List.range'_succ, List.map_cons,
        List.append_assoc]
      rfl

/-- The variables in the order of their wires. -/
theorem vars_getElem? {numPublic numWires wire : Nat} (hpublics : numPublic + 1 ≤ numWires)
    (hwire : wire < numWires) :
    (Variable.one :: ((List.range' 1 numPublic).map Variable.instanceVar ++
      (List.range' 0 (numWires - (numPublic + 1))).map Variable.witnessVar))[wire]? =
        some (wireVariable numPublic wire) := by
  unfold wireVariable
  cases wire with
  | zero => rfl
  | succ wire =>
      rw [List.getElem?_cons_succ, if_neg (Nat.succ_ne_zero wire)]
      by_cases hle : wire + 1 ≤ numPublic
      · rw [if_pos hle, List.getElem?_append_left (by simp; omega), List.getElem?_map,
          List.getElem?_range' (by omega)]
        simp [Nat.add_comm]
      · rw [if_neg hle, List.getElem?_append_right (by simp; omega), List.getElem?_map,
          List.getElem?_range' (by simp; omega)]
        simp only [List.length_map, List.length_range', Option.map_some, Nat.one_mul, Nat.zero_add]
        congr 2
        omega

section Enforce

variable {vars : List Variable} {numPublic : Nat}

theorem combination_run {lc : LinearCombination} (cs : ConstraintSystem)
    (hvars : ∀ t ∈ lc.terms, vars[t.wireId.toNat]? = some (wireVariable numPublic t.wireId.toNat)) :
    (combination vars lc).run cs = .ok (combinationOf numPublic lc) cs := by
  obtain ⟨terms⟩ := lc
  unfold combination combinationOf
  induction terms with
  | nil => rfl
  | cons t terms ih =>
      have hrest := ih fun t' ht' => hvars t' (List.mem_cons_of_mem t ht')
      dsimp only at hrest ⊢
      rw [List.mapM_cons, EStateM.run_bind, hvars t List.mem_cons_self]
      dsimp only [EStateM.run_pure]
      rw [EStateM.run_bind, hrest]
      rfl

theorem enforce_run {k : Constraint} (cs : ConstraintSystem)
    (hvars : ∀ t ∈ terms k, vars[t.wireId.toNat]? =
      some (wireVariable numPublic t.wireId.toNat)) :
    (enforce vars k).run cs = .ok () { cs with constraints := cs.constraints ++
      [(combinationOf numPublic k.a, combinationOf numPublic k.b,
        combinationOf numPublic k.c)] } := by
  have ha := combination_run cs fun t (ht : t ∈ k.a.terms) =>
    hvars t (List.mem_append_left _ (List.mem_append_left _ ht))
  have hb := combination_run cs fun t (ht : t ∈ k.b.terms) =>
    hvars t (List.mem_append_left _ (List.mem_append_right _ ht))
  have hc := combination_run cs fun t (ht : t ∈ k.c.terms) =>
    hvars t (List.mem_append_right _ ht)
  unfold enforce
  rw [EStateM.run_bind, ha]
  dsimp only
  rw [EStateM.run_bind, hb]
  dsimp only
  rw [EStateM.run_bind, hc]
  rfl

theorem constraints_run {ks : List Constraint} (cs : ConstraintSystem)
    (hvars : ∀ k ∈ ks, ∀ t ∈ terms k, vars[t.wireId.toNat]? =
      some (wireVariable numPublic t.wireId.toNat)) :
    (forM ks (enforce vars)).run cs = .ok () { cs with constraints := cs.constraints ++
      (ks.map fun k => (combinationOf numPublic k.a, combinationOf numPublic k.b,
        combinationOf numPublic k.c)) } := by
  induction ks generalizing cs with
  | nil => simp [EStateM.run_pure]
  | cons k ks ih =>
      rw [List.forM_cons, EStateM.run_bind, enforce_run cs (hvars k List.mem_cons_self)]
      dsimp only
      rw [ih _ fun k' hk' => hvars k' (List.mem_cons_of_mem k hk'), List.map_cons,
        List.append_assoc]
      rfl

end Enforce

theorem take_succ_of_head? {witness : List Fr} (h : witness.head? = some 1) (n : Nat) :
    witness.take (n + 1) = 1 :: (witness.drop 1).take n := by
  cases witness with
  | nil => cases h
  | cons value values =>
      obtain rfl := Option.some.inj h
      rfl

/-- The system is built exactly when it can be, and it is the one of the file. -/
theorem generateConstraints_outcome :
    Outcome circuit.generateConstraints .new
      (fun _ cs => circuit.Synthesizable ∧ cs = circuit.synthesized)
      fun _ _ => ¬ circuit.Synthesizable := by
  unfold generateConstraints
  refine Outcome.ite (fun hone => .throw fun h => hone h.one) fun hone => ?_
  refine Outcome.ite (fun hbig => .throw fun h => ?_) fun _ => ?_
  · have := circuit.r1cs.numWires.toNat_lt
    have := h.publics
    omega
  refine Outcome.ite (fun hpublics => .throw fun h => ?_) fun hpublics => ?_
  · exact absurd h.publics (Nat.not_le.mpr hpublics)
  refine Outcome.ite (fun hvalues => .throw fun h => ?_) fun hvalues => ?_
  · exact absurd h.values (Nat.not_le.mpr hvalues)
  have hfirst := not_not.mp hone
  have hle := Nat.le_of_not_lt hpublics
  have hlen := Nat.le_of_not_lt hvalues
  have hpub := @publics_run circuit 1 circuit.r1cs.numPublic.toNat .new rfl (by omega)
  refine Outcome.bind_run hpub (Outcome.bind_run (privates_run rfl (by omega)) ?_)
  refine Outcome.ite (fun hwires => .throw fun h => ?_) fun hwires => ?_
  · obtain ⟨k, hk, hany⟩ := List.any_eq_true.mp hwires
    obtain ⟨t, ht, hge⟩ := List.any_eq_true.mp hany
    exact absurd (h.wires k hk t ht) (Nat.not_lt.mpr (of_decide_eq_true hge))
  have hin : ∀ k ∈ circuit.r1cs.constraints, ∀ t ∈ terms k,
      t.wireId.toNat < circuit.r1cs.numWires.toNat := by
    intro k hk t ht
    refine Nat.lt_of_not_le fun hge => hwires ?_
    exact List.any_eq_true.mpr ⟨k, hk, List.any_eq_true.mpr ⟨t, ht, decide_eq_true hge⟩⟩
  refine (Outcome.of_ok (constraints_run _ fun k hk t ht =>
    vars_getElem? hle (hin k hk t ht))).mpr ⟨⟨hfirst, hle, hlen, hin⟩, ?_⟩
  unfold synthesized constraintsOf ConstraintSystem.new
  rw [take_succ_of_head? hfirst]
  rfl

/-! ## What it means -/

/-- A variable has the value of its wire. -/
theorem wireVariable_value (h : circuit.Synthesizable) {wire : Nat}
    (hwire : wire < circuit.r1cs.numWires.toNat) :
    (wireVariable circuit.r1cs.numPublic.toNat wire).value circuit.synthesized =
      circuit.witness.getD wire 0 := by
  have hvalues := h.values
  unfold wireVariable
  by_cases hzero : wire = 0
  · have hone := h.one
    rw [if_pos hzero, hzero, List.getD_eq_getElem?_getD, ← List.head?_eq_getElem?, hone]
    rfl
  · rw [if_neg hzero]
    by_cases hpublic : wire ≤ circuit.r1cs.numPublic.toNat
    · rw [if_pos hpublic]
      show (circuit.witness.take _).getD wire 0 = _
      rw [List.getD_eq_getElem?_getD, List.getElem?_take_of_lt (by omega),
        List.getD_eq_getElem?_getD]
    · rw [if_neg hpublic]
      show ((circuit.witness.drop _).take _).getD _ 0 = _
      rw [List.getD_eq_getElem?_getD, List.getElem?_take_of_lt (by omega), List.getElem?_drop,
        List.getD_eq_getElem?_getD]
      congr 2
      omega

theorem combinationOf_value (h : circuit.Synthesizable) {lc : LinearCombination}
    (hwires : ∀ t ∈ lc.terms, t.wireId.toNat < circuit.r1cs.numWires.toNat) :
    combinationValue circuit.synthesized (combinationOf circuit.r1cs.numPublic.toNat lc) =
      lc.value circuit.witness := by
  unfold combinationValue combinationOf R1cs.LinearCombination.value
  rw [List.map_map]
  refine congrArg List.sum (List.map_congr_left fun t ht => ?_)
  show t.coefficient * (wireVariable _ _).value _ = _
  rw [wireVariable_value h (hwires t ht)]

/-- The system is satisfied exactly when the witness satisfies the file. -/
theorem synthesized_satisfied (h : circuit.Synthesizable) :
    circuit.synthesized.Satisfied ↔ circuit.r1cs.Satisfied circuit.witness := by
  have hvalue : ∀ k ∈ circuit.r1cs.constraints, ∀ lc, lc.terms ⊆ terms k →
      combinationValue circuit.synthesized (combinationOf circuit.r1cs.numPublic.toNat lc) =
        lc.value circuit.witness := fun k hk lc hlc =>
    combinationOf_value h fun t ht => h.wires k hk t (hlc ht)
  have ha : ∀ k, k.a.terms ⊆ terms k := fun k =>
    List.subset_append_of_subset_left _ (List.subset_append_left _ _)
  have hb : ∀ k, k.b.terms ⊆ terms k := fun k =>
    List.subset_append_of_subset_left _ (List.subset_append_right _ _)
  have hc : ∀ k, k.c.terms ⊆ terms k := fun k => List.subset_append_right _ _
  show (∀ k ∈ constraintsOf circuit.r1cs, _) ↔ _
  unfold constraintsOf
  rw [List.forall_mem_map]
  refine forall₂_congr fun k hk => ?_
  rw [hvalue k hk k.a (ha k), hvalue k hk k.b (hb k), hvalue k hk k.c (hc k)]

/-- The shape of a file, whatever the witness. -/
def shapeOf (r1cs : R1CS) : Shape where
  instances := r1cs.numPublic.toNat + 1
  witnesses := r1cs.numWires.toNat - (r1cs.numPublic.toNat + 1)
  constraints := constraintsOf r1cs

theorem synthesized_shape (h : circuit.Synthesizable) :
    circuit.synthesized.shape = shapeOf circuit.r1cs := by
  have hpublics := h.publics
  have hvalues := h.values
  unfold ConstraintSystem.shape synthesized shapeOf
  simp only [List.length_take, List.length_drop, Shape.mk.injEq, and_true]
  omega

theorem run_synthesized (h : circuit.Synthesizable) :
    circuit.generateConstraints.run .new = .ok () circuit.synthesized := by
  have houtcome := @generateConstraints_outcome circuit
  cases hrun : circuit.generateConstraints.run .new with
  | ok _ cs => rw [(houtcome.ok hrun).2]
  | error e cs => exact absurd h ((Outcome.of_error hrun).mp houtcome)

/-- `generate_constraints` builds a system exactly for the circuits that have one. It is shaped
by the file alone, its public part is the public part of the witness, and it is satisfied
exactly when the witness satisfies the file. -/
theorem synthesis_faithful (circuit : R1CSCircuit) :
    ((∃ cs, circuit.generateConstraints.run .new = .ok () cs) ↔ circuit.Synthesizable) ∧
    ∀ cs, circuit.generateConstraints.run .new = .ok () cs →
      cs.shape = shapeOf circuit.r1cs ∧
      cs.instanceAssignment = circuit.witness.take (circuit.r1cs.numPublic.toNat + 1) ∧
      (cs.Satisfied ↔ circuit.r1cs.Satisfied circuit.witness) := by
  have houtcome := @generateConstraints_outcome circuit
  refine ⟨⟨fun h => ?_, fun h => ⟨_, run_synthesized h⟩⟩, fun cs hrun => ?_⟩
  · obtain ⟨cs, hrun⟩ := h
    exact (houtcome.ok hrun).1
  · obtain ⟨h, rfl⟩ := houtcome.ok hrun
    exact ⟨synthesized_shape h, rfl, synthesized_satisfied h⟩

/-- One constraint, `x * x = y`, with `y` public. -/
def square : R1CS where
  numWires := 3
  numPubOut := 1
  numPubIn := 0
  numPrvIn := 1
  numPublic := 1
  constraints := [⟨⟨[⟨2, 1⟩]⟩, ⟨[⟨2, 1⟩]⟩, ⟨[⟨1, 1⟩]⟩⟩]

example : (generateConstraints ⟨square, [1, 9, 3]⟩).run .new = .ok () ⟨[1, 9], [3],
    [([(1, .witnessVar 0)], [(1, .witnessVar 0)], [(1, .instanceVar 1)])]⟩ := rfl

end R1CSCircuit

/-! ## The bytes of a witness -/

section Chunks

variable {bytes : List UInt8}

theorem length_of_mem_chunksExact {chunk : List UInt8} (h : chunk ∈ chunksExact bytes) :
    chunk.length = 32 := by
  obtain ⟨i, hi, rfl⟩ := List.mem_map.mp h
  have hlt := List.mem_range.mp hi
  have hmul := Nat.div_mul_le_self bytes.length fieldSize
  rw [List.length_take, List.length_drop]
  unfold fieldSize at hlt hmul ⊢
  omega

theorem chunksExact_getElem {i : Nat} (h : i < (chunksExact bytes).length) :
    (chunksExact bytes)[i] = (bytes.drop (fieldSize * i)).take fieldSize := by
  simp only [chunksExact, List.getElem_map, List.getElem_range]

theorem mapM_chunksExact :
    (chunksExact bytes).mapM bytesToFr = .ok ((chunksExact bytes).map scalarOf) := by
  have hchunks := fun chunk => @length_of_mem_chunksExact bytes chunk
  revert hchunks
  induction chunksExact bytes with
  | nil => exact fun _ => rfl
  | cons chunk chunks ih =>
      intro hchunks
      rw [List.mapM_cons, bytesToFr, bytesToScalar_eq (hchunks chunk List.mem_cons_self),
        ih fun c hc => hchunks c (List.mem_cons_of_mem chunk hc)]
      rfl

/-- The chunks of the public part are the ones after the first. -/
theorem chunksExact_publics {n : Nat} (h : fieldSize + n * fieldSize ≤ bytes.length) :
    chunksExact ((bytes.drop fieldSize).take (n * fieldSize)) =
      ((chunksExact bytes).drop 1).take n := by
  unfold fieldSize at h
  have hlen : ((bytes.drop fieldSize).take (n * fieldSize)).length / fieldSize = n := by
    rw [List.length_take, List.length_drop]
    unfold fieldSize
    omega
  refine List.ext_getElem ?_ fun i h₁ h₂ => ?_
  · unfold chunksExact
    rw [List.length_map, List.length_range, hlen]
    simp only [List.length_take, List.length_drop, List.length_map, List.length_range]
    unfold fieldSize
    omega
  · have hi : i < n := by
      rw [List.length_take] at h₂
      omega
    rw [chunksExact_getElem, List.getElem_take, List.getElem_drop, chunksExact_getElem,
      List.drop_take, List.take_take, List.drop_drop]
    unfold fieldSize
    rw [Nat.min_eq_left (by omega), Nat.mul_add]

end Chunks

/-! ## Proofs verify -/

/-- What is relied on of the proof system. `Made pk shape` says that `pk` was made for the
shape. -/
structure Groth16Prover.Complete (g : Groth16Prover) (Made : g.ProvingKey → Shape → Prop) :
    Prop where
  inputs : ∀ pk shape, Made pk shape → g.gammaAbcLength (g.vk pk) = shape.instances
  proves : ∀ pk (cs : ConstraintSystem) rng, Made pk cs.shape → cs.Satisfied →
    ∃ proof, g.createProof pk cs rng = .ok proof ∧
      ∀ pvk, g.processVk (g.vk pk) = .ok pvk →
        g.verifyWithProcessedVk pvk cs.instanceAssignment.tail proof = .ok true
  proofBytes : ∀ proof, ∃ a b c, g.serializeA proof = .ok a ∧ g.serializeB proof = .ok b ∧
    g.serializeC proof = .ok c ∧ g.deserializeProof (a ++ b ++ c) = .ok proof
  vkBytes : ∀ vk, ∃ bytes, g.serializeVk vk = .ok bytes ∧ g.deserializeVk bytes = .ok vk

namespace ProverState

variable {g : Groth16Prover} {Made : g.ProvingKey → Shape → Prop} {self : ProverState g}
  {t : Target}

/-- The verifying key of a prover is the processed one of its proving key. -/
theorem new_pvk {pkBytes : List UInt8} {r1csBytes : Slice t}
    (h : ProverState.new g t pkBytes r1csBytes = .ok self) :
    g.processVk (g.vk self.pk) = .ok self.pvk := by
  obtain ⟨pk, -, h⟩ := exists_of_bind_ok h
  obtain ⟨r1cs, -, h⟩ := exists_of_bind_ok h
  split at h
  · cases h
  · obtain ⟨pvk, hpvk, h⟩ := exists_of_bind_ok h
    obtain rfl := Except.ok.inj h
    exact mapError_ok hpvk

/-- The values of the wires in the bytes of a witness. -/
def wireValues (witnessBytes : List UInt8) : List Fr := (chunksExact witnessBytes).map scalarOf

theorem length_wireValues (bytes : List UInt8) :
    (wireValues bytes).length = bytes.length / fieldSize := by
  unfold wireValues chunksExact
  rw [List.length_map, List.length_map, List.length_range]

theorem readWitness_eq {bytes : List UInt8} (hsize : bytes.length % fieldSize = 0)
    (hwires : self.r1cs.numWires.toNat ≤ (wireValues bytes).length) :
    self.readWitness bytes = .ok (wireValues bytes) := by
  rw [length_wireValues] at hwires
  unfold readWitness
  rw [if_neg (not_not.mpr hsize), if_neg (Nat.not_lt.mpr hwires)]
  exact mapM_chunksExact

/-- A witness of the file is proved, by a proof that is accepted for its public part. -/
theorem proveWitness_eq (hg : g.Complete Made)
    (hmade : Made self.pk (R1CSCircuit.shapeOf self.r1cs)) {bytes : List UInt8}
    (hsize : bytes.length % fieldSize = 0)
    (hbuilds : R1CSCircuit.Synthesizable ⟨self.r1cs, wireValues bytes⟩)
    (hsat : self.r1cs.Satisfied (wireValues bytes)) (rng : g.Rng) :
    ∃ proof, self.proveWitness rng bytes = .ok proof ∧
      ∀ pvk, g.processVk (g.vk self.pk) = .ok pvk → g.verifyWithProcessedVk pvk
        (((wireValues bytes).drop 1).take self.r1cs.numPublic.toNat) proof = .ok true := by
  obtain ⟨proof, hproof, haccepts⟩ := hg.proves self.pk _ rng
    (R1CSCircuit.synthesized_shape hbuilds ▸ hmade)
    ((R1CSCircuit.synthesized_satisfied hbuilds).mpr hsat)
  refine ⟨proof, ?_, fun pvk hpvk => ?_⟩
  · have hsnark : self.snarkProve rng ⟨self.r1cs, wireValues bytes⟩ = .ok proof := by
      unfold snarkProve
      rw [R1CSCircuit.run_synthesized hbuilds]
      exact hproof
    unfold proveWitness
    rw [readWitness_eq hsize hbuilds.values, ok_bind, hsnark]
    rfl
  · have htail : ((wireValues bytes).take (self.r1cs.numPublic.toNat + 1)).tail =
        ((wireValues bytes).drop 1).take self.r1cs.numPublic.toNat := by
      rw [← List.drop_one, List.drop_take, Nat.add_sub_cancel]
    rw [← htail]
    exact haccepts pvk hpvk

section Publics

variable {bytes : List UInt8} {n : Nat} (hlen : fieldSize + n * fieldSize ≤ bytes.length)

include hlen in
theorem length_publics : ((bytes.drop fieldSize).take (n * fieldSize)).length = n * fieldSize := by
  rw [List.length_take, List.length_drop, Nat.min_eq_left]
  omega

include hlen in
/-- The public part of the bytes is verified as the public part of the values. -/
theorem verify_publics {pvk : g.PreparedVerifyingKey} {proof : g.Proof} :
    verifyProofWithProcessedVk g.toGroth16 pvk n proof
        ((bytes.drop fieldSize).take (n * fieldSize)) =
      (g.verifyWithProcessedVk pvk (((wireValues bytes).drop 1).take n) proof).mapError
        ("Verification error: " ++ ·) := by
  have hmod : n * fieldSize % fieldSize = 0 := Nat.mul_mod_left n fieldSize
  have hdiv : n * fieldSize / fieldSize = n := Nat.mul_div_cancel n (by decide)
  have hvalues : (chunksExact ((bytes.drop fieldSize).take (n * fieldSize))).mapM bytesToFr =
      .ok (((wireValues bytes).drop 1).take n) := by
    rw [mapM_chunksExact, chunksExact_publics hlen, List.map_take, List.map_drop]
    rfl
  unfold verifyProofWithProcessedVk
  dsimp only
  rw [length_publics hlen, hmod, hdiv, if_neg (not_not.mpr rfl), if_neg (not_not.mpr rfl), hvalues]
  rfl

end Publics

theorem extractPublicInputs_eq {w : Slice t} (hsize : w.val.length % fieldSize = 0)
    (hlen : fieldSize + self.r1cs.numPublic.toNat * fieldSize ≤ w.val.length) :
    self.extractPublicInputs t w =
      .ok ((w.val.drop fieldSize).take (self.r1cs.numPublic.toNat * fieldSize)) := by
  have hmax : w.val.length < t.usizeSize := by
    have := w.property
    unfold Target.usizeSize
    omega
  unfold extractPublicInputs
  dsimp only
  rw [if_neg (not_not.mpr hsize), if_neg (not_not.mpr (by omega)),
    if_neg (not_not.mpr (by omega)), if_neg (by omega)]

@[simp] theorem length_proofToUncompressedBytes (proof : g.Proof) :
    (proofToUncompressedBytes g proof).length = 256 := by
  simp [proofToUncompressedBytes, bigintToBe32]

/-- A prover that `new` has made from a key for its file proves every witness of the file. The
proof verifies for the public part of the same bytes, by the prover and by the key it hands
out, and its two encodings for the contract are the same 256 bytes. -/
theorem proofs_verify (hg : g.Complete Made) {pkBytes : List UInt8} {r1csBytes : Slice t}
    (hnew : ProverState.new g t pkBytes r1csBytes = .ok self)
    (hmade : Made self.pk (R1CSCircuit.shapeOf self.r1cs)) (w : Slice t)
    (hsize : w.val.length % fieldSize = 0)
    (hbuilds : R1CSCircuit.Synthesizable ⟨self.r1cs, wireValues w.val⟩)
    (hsat : self.r1cs.Satisfied (wireValues w.val)) (rng : g.Rng) :
    ∃ proofBytes publicBytes vkBytes uncompressed,
      self.proveBytes rng w.val = .ok proofBytes ∧
      self.extractPublicInputs t w = .ok publicBytes ∧
      self.getVerifyingKey = .ok vkBytes ∧
      self.verify proofBytes publicBytes = .ok true ∧
      verifyProof g.toGroth16 vkBytes proofBytes publicBytes = .ok true ∧
      self.proveBytesUncompressed rng w.val = .ok uncompressed ∧
      proofBytesToUncompressed (g := g) proofBytes = .ok uncompressed ∧
      convertProofToSoroban g proofBytes = .ok uncompressed ∧ uncompressed.length = 256 := by
  have hpvk := new_pvk hnew
  have hlen : fieldSize + self.r1cs.numPublic.toNat * fieldSize ≤ w.val.length := by
    have hpublics := hbuilds.publics
    have hvalues := hbuilds.values
    dsimp only at hpublics hvalues
    rw [length_wireValues] at hvalues
    unfold fieldSize at hvalues ⊢
    omega
  obtain ⟨proof, hproof, haccepts⟩ := proveWitness_eq hg hmade hsize hbuilds hsat rng
  obtain ⟨a, b, c, ha, hb, hc, hread⟩ := hg.proofBytes proof
  obtain ⟨vkBytes, hwritten, hvk⟩ := hg.vkBytes (g.vk self.pk)
  have hinputs : g.gammaAbcLength (g.vk self.pk) = self.r1cs.numPublic.toNat + 1 :=
    hg.inputs _ _ hmade
  have haccepted : verifyProofWithProcessedVk g.toGroth16 self.pvk self.r1cs.numPublic.toNat proof
      ((w.val.drop fieldSize).take (self.r1cs.numPublic.toNat * fieldSize)) = .ok true := by
    rw [verify_publics hlen, haccepts _ hpvk]
    rfl
  refine ⟨a ++ b ++ c, _, vkBytes, proofToUncompressedBytes g proof, ?_,
    extractPublicInputs_eq hsize hlen, ?_, ?_, ?_, ?_, ?_, ?_,
    length_proofToUncompressedBytes proof⟩
  · unfold proveBytes
    rw [hproof, ok_bind, ha, hb, hc]
    rfl
  · unfold getVerifyingKey
    rw [hwritten]
    rfl
  · unfold verify
    rw [hread, hinputs]
    exact haccepted
  · unfold verifyProof
    rw [hvk, hread]
    show ((g.processVk (g.vk self.pk)).mapError _ >>= _) = _
    rw [hpvk]
    show (if g.gammaAbcLength (g.vk self.pk) = 0 then _ else _) = _
    rw [hinputs]
    exact haccepted
  · unfold proveBytesUncompressed
    rw [hproof]
    rfl
  · unfold proofBytesToUncompressed
    rw [hread]
    rfl
  · unfold convertProofToSoroban
    rw [hread]
    rfl

instance (cs : ConstraintSystem) : Decidable cs.Satisfied :=
  inferInstanceAs (Decidable (∀ k ∈ cs.constraints,
    combinationValue cs k.1 * combinationValue cs k.2.1 = combinationValue cs k.2.2))

instance (r1cs : R1CS) (witness : List Fr) : Decidable (r1cs.Satisfied witness) :=
  inferInstanceAs (Decidable (∀ k ∈ r1cs.constraints,
    k.a.value witness * k.b.value witness = k.c.value witness))

/-- A proof system whose proof says whether the system was satisfied. -/
def flagProver : Groth16Prover where
  VerifyingKey := Unit
  PreparedVerifyingKey := Unit
  Proof := Bool
  deserializeVk _ := .ok ()
  deserializeProof bytes := .ok (bytes == [1])
  processVk _ := .ok ()
  gammaAbcLength _ := 2
  verifyWithProcessedVk _ _ proof := .ok proof
  ProvingKey := Unit
  Rng := Unit
  deserializePk _ := .ok ()
  vk _ := ()
  createProof _ cs _ := .ok (decide cs.Satisfied)
  synthesisError _ := "Unsatisfiable"
  serializeA proof := .ok [if proof then 1 else 0]
  serializeB _ := .ok []
  serializeC _ := .ok []
  serializeVk _ := .ok []
  coordinates _ _ := 0

theorem flagProver_complete : flagProver.Complete fun _ shape => shape.instances = 2 where
  inputs _ _ h := h.symm
  proves _ _ _ _ hsat := ⟨true, congrArg Except.ok (decide_eq_true hsat), fun _ _ => rfl⟩
  proofBytes proof := ⟨_, [], [], rfl, rfl, rfl, by cases proof <;> rfl⟩
  vkBytes _ := ⟨[], rfl, rfl⟩

/-- The file of `square`. -/
def squareFile : R1cs.File where
  prime := toLeBytes 32 bn256Modulus
  numWires := 3
  numPubOut := 1
  numPubIn := 0
  numPrvIn := 1
  numLabels := 3
  constraints := R1CSCircuit.square.constraints
  sections := [.header, .constraints]
  prime_length := length_toLeBytes _ _
  constraints_fit := by decide
  terms_fit := by decide
  sections_fit := by decide
  one_header := by decide
  one_constraints := by decide
  other_type := by simp

def squareBytes : Slice R1cs.bits64 := ⟨squareFile.encode, by decide +kernel⟩

theorem parse_squareFile : R1cs.parse R1cs.bits64 squareBytes = .ok R1CSCircuit.square := by
  obtain ⟨r1cs, hparse, hr1cs⟩ :=
    (R1cs.meetsFormat_bits64 squareBytes).decodes squareFile rfl (by decide)
  obtain ⟨numWires, numPubOut, numPubIn, numPrvIn, numPublic, constraints⟩ := r1cs
  obtain ⟨rfl, rfl, rfl, rfl, hpublic, rfl⟩ := hr1cs
  obtain rfl : numPublic = 1 := UInt32.toNat_inj.mp hpublic
  exact hparse

/-- The prover that `new` makes of the file. -/
def squareProver : ProverState flagProver := ⟨(), (), R1CSCircuit.square⟩

theorem new_squareProver :
    ProverState.new flagProver R1cs.bits64 [] squareBytes = .ok squareProver := by
  rw [ProverState.new, parse_squareFile]
  rfl

/-- The witness of `3 * 3 = 9`. -/
def squareWitness : Slice R1cs.bits64 :=
  ⟨scalarToBytes 1 ++ (scalarToBytes 9 ++ scalarToBytes 3), by decide⟩

theorem wireValues_squareWitness : wireValues squareWitness.val = [1, 9, 3] := by decide

theorem proofs_verify_square :
    ∃ proofBytes publicBytes vkBytes uncompressed,
      squareProver.proveBytes () squareWitness.val = .ok proofBytes ∧
      squareProver.extractPublicInputs R1cs.bits64 squareWitness = .ok publicBytes ∧
      squareProver.getVerifyingKey = .ok vkBytes ∧
      squareProver.verify proofBytes publicBytes = .ok true ∧
      verifyProof flagProver.toGroth16 vkBytes proofBytes publicBytes = .ok true ∧
      squareProver.proveBytesUncompressed () squareWitness.val = .ok uncompressed ∧
      proofBytesToUncompressed (g := flagProver) proofBytes = .ok uncompressed ∧
      convertProofToSoroban flagProver proofBytes = .ok uncompressed ∧
      uncompressed.length = 256 := by
  have hbuilds :
      R1CSCircuit.Synthesizable ⟨R1CSCircuit.square, wireValues squareWitness.val⟩ := by
    rw [wireValues_squareWitness]
    exact ⟨rfl, by decide, by decide, by decide⟩
  have hsat : R1CSCircuit.square.Satisfied (wireValues squareWitness.val) := by
    rw [wireValues_squareWitness]
    decide
  exact proofs_verify flagProver_complete new_squareProver rfl squareWitness (by decide) hbuilds
    hsat ()

end ProverState

end PrivatePayments.Prover
