import PrivatePayments.TxPlanner.PlanComplete

/-!
# PrivatePayments.TxPlanner.PlanChain

A plan is a balanced chain of two-input transactions (`plan_balanced`).

`plan` builds all steps as merges and overwrites the last action afterwards. `MergeChain` is what
comes out of both passes: every step but the last hands its sum on to the next one, which spends
it together with one more note.
-/

namespace PrivatePayments.TxPlanner

open Prover (checkedAdd checkedAdd_some exists_of_bind_ok)
open TopSums

/-- The inputs of a step that exist when the plan is made. -/
def knownInputs (step : PlannedStep) : List StepNote :=
  (step.inputs.1 :: step.inputs.2.toList).filter (·.commitment.isSome)

/-- The sum of the inputs of a step. -/
def inputSum (step : PlannedStep) : Nat :=
  step.inputs.1.amount.val + (step.inputs.2.map (·.amount.val)).getD 0

/-- The indices of the notes that a selection leaves alone. -/
def unspent (notes : List SpendableNote) (indices : List Nat) : List Nat :=
  (List.range notes.length).filter (· ∉ indices)

/-- Steps that spend the selected notes and pay the amount with its change. -/
structure BalancedChain (amount : NoteAmount) (change : Option NoteAmount)
    (selected : List SpendableNote) (steps : List PlannedStep) : Prop where
  length : steps.length = max 1 (selected.length - 1)
  -- the known inputs of all steps are the selected notes, each of them once
  known : steps.flatMap knownInputs = selected.map .fromSpendable
  merges : ∀ step ∈ steps.dropLast, ∃ output,
    step.action = .consolidate output ∧ output.val = inputSum step
  chain : steps.IsChain fun step next =>
    ∃ output, step.action = .consolidate output ∧ next.inputs.1 = .fromAmount output
  final : ∃ step, steps.getLast? = some step ∧ step.action = .final (amount, change) ∧
    amount.val + excessOf change = inputSum step

/-! ## Merging -/

/-- Steps that merge `prev` with the notes one by one, and pay with the last one. -/
inductive MergeChain (amount : NoteAmount) (change : Option NoteAmount) :
    StepNote → List SpendableNote → List PlannedStep → Prop
  | pay {prev : StepNote} {note : SpendableNote}
      (hsum : amount.val + excessOf change = prev.amount.val + noteAmount note) :
      MergeChain amount change prev [note]
        [⟨(prev, some (.fromSpendable note)), .final (amount, change)⟩]
  | merge {prev : StepNote} {note : SpendableNote} {rest : List SpendableNote}
      {steps : List PlannedStep} {output : NoteAmount}
      (hsum : output.val = prev.amount.val + noteAmount note)
      (htail : MergeChain amount change (.fromAmount output) rest steps) :
      MergeChain amount change prev (note :: rest)
        (⟨(prev, some (.fromSpendable note)), .consolidate output⟩ :: steps)

section MergeChain

variable {amount : NoteAmount} {change : Option NoteAmount} {prev : StepNote}
  {notes rest : List SpendableNote} {steps : List PlannedStep}

theorem okOr_some {α ε : Type} {e : ε} {x : Option α} {a : α} (h : okOr e x = .ok a) :
    x = some a := by
  cases x with
  | none => cases h
  | some b =>
      cases h
      rfl

theorem mergeSteps_mergeChain :
    ∀ {rest : List SpendableNote} {note : SpendableNote} {prev : StepNote}
      {steps : List PlannedStep}, mergeSteps prev.amount prev (note :: rest) = .ok steps →
      prev.amount.val + weight noteAmount (note :: rest) = amount.val + excessOf change →
      MergeChain amount change prev (note :: rest) (setLastAction (.final (amount, change)) steps)
  | [], note, prev, steps, h, htotal => by
      rw [mergeSteps] at h
      obtain ⟨nextSum, -, h⟩ := exists_of_bind_ok h
      cases h
      exact .pay (by simpa using htotal.symm)
  | next :: rest, note, prev, steps, h, htotal => by
      rw [mergeSteps] at h
      obtain ⟨nextSum, hsum, h⟩ := exists_of_bind_ok h
      obtain ⟨tail, htail, h⟩ := exists_of_bind_ok h
      cases h
      have hval : nextSum.val = prev.amount.val + noteAmount note :=
        checkedAdd_some (okOr_some hsum)
      have hrest : nextSum.val + weight noteAmount (next :: rest) = amount.val + excessOf change := by
        rw [hval, Nat.add_assoc, ← weight_cons]
        exact htotal
      have hchain := @mergeSteps_mergeChain rest next (.fromAmount nextSum) tail htail hrest
      -- there is a step after this one, whose action is the one that changes
      cases tail with
      | nil => cases hchain
      | cons step tail => exact .merge hval hchain

theorem MergeChain.length (h : MergeChain amount change prev rest steps) :
    steps.length = rest.length := by
  induction h with
  | pay _ => rfl
  | merge _ _ ih => simp [ih]

theorem MergeChain.known (h : MergeChain amount change prev rest steps) :
    steps.flatMap knownInputs =
      [prev].filter (·.commitment.isSome) ++ rest.map .fromSpendable := by
  induction h with
  | @pay prev note _ =>
      cases hprev : prev.commitment.isSome <;>
        simp [knownInputs, StepNote.fromSpendable, hprev]
  | @merge prev note rest steps output _ _ ih =>
      cases hprev : prev.commitment.isSome <;>
        simp [ih, knownInputs, StepNote.fromSpendable, StepNote.fromAmount, hprev]

theorem MergeChain.merges (h : MergeChain amount change prev rest steps) :
    ∀ step ∈ steps.dropLast, ∃ output,
      step.action = .consolidate output ∧ output.val = inputSum step := by
  induction h with
  | pay _ => simp
  | merge hsum htail ih =>
      intro step hstep
      cases htail with
      | pay _ =>
          rw [List.mem_singleton.mp hstep]
          exact ⟨_, rfl, hsum⟩
      | merge _ _ =>
          rcases List.mem_cons.mp hstep with rfl | hstep
          · exact ⟨_, rfl, hsum⟩
          · exact ih step hstep

theorem MergeChain.head (h : MergeChain amount change prev rest steps) :
    ∃ step tail, steps = step :: tail ∧ step.inputs.1 = prev := by
  cases h with
  | pay _ => exact ⟨_, _, rfl, rfl⟩
  | merge _ _ => exact ⟨_, _, rfl, rfl⟩

theorem MergeChain.chain (h : MergeChain amount change prev rest steps) :
    steps.IsChain fun step next =>
      ∃ output, step.action = .consolidate output ∧ next.inputs.1 = .fromAmount output := by
  induction h with
  | pay _ => exact .singleton _
  | merge _ htail ih =>
      obtain ⟨step, tail, rfl, hprev⟩ := htail.head
      exact .cons_cons ⟨_, rfl, hprev⟩ ih

theorem MergeChain.final (h : MergeChain amount change prev rest steps) :
    ∃ step, steps.getLast? = some step ∧ step.action = .final (amount, change) ∧
      amount.val + excessOf change = inputSum step := by
  induction h with
  | pay hsum => exact ⟨_, rfl, rfl, hsum⟩
  | merge _ htail ih =>
      obtain ⟨step, hlast, hstep⟩ := ih
      obtain ⟨first, tail, rfl, -⟩ := htail.head
      exact ⟨step, by rw [List.getLast?_cons_cons, hlast], hstep⟩

end MergeChain

/-! ## The plan -/

/-- The steps for notes that cover the amount. -/
theorem planSteps_balanced {amount : NoteAmount} {change : Option NoteAmount}
    {selected : List SpendableNote} {steps : List PlannedStep}
    (hcovers : weight noteAmount selected = amount.val + excessOf change)
    (h : planSteps amount change selected = .ok steps) :
    BalancedChain amount change selected steps := by
  match selected with
  | [] => cases h
  | [note] =>
      cases h
      refine ⟨rfl, rfl, nofun, .singleton _, _, rfl, rfl, ?_⟩
      simpa [inputSum, StepNote.fromSpendable, noteAmount] using hcovers.symm
  | note0 :: note1 :: rest =>
      rw [planSteps] at h
      obtain ⟨merged, hmerged, h⟩ := exists_of_bind_ok h
      cases h
      rw [weight_cons] at hcovers
      have hchain := @mergeSteps_mergeChain _ _ rest note1 (.fromSpendable note0) merged hmerged
        hcovers
      exact ⟨by rw [hchain.length]; simp, by rw [hchain.known]; rfl, hchain.merges, hchain.chain,
        hchain.final⟩

/-- What is selected and what is left make up the wallet. -/
theorem total_eq_selected_add {notes : List SpendableNote} {indices : List Nat}
    (hnodup : indices.Nodup) (hsub : indices ⊆ List.range notes.length) :
    total notes = weight (amountAt notes) indices +
      weight (amountAt notes) (unspent notes indices) := by
  have hperm : (indices ++ unspent notes indices).Perm (List.range notes.length) := by
    refine (List.perm_ext_iff_of_nodup ?_ List.nodup_range).mpr ?_
    · refine List.nodup_append.mpr ⟨hnodup, List.nodup_range.filter _, ?_⟩
      rintro i hi j hj rfl
      exact of_decide_eq_true (List.mem_filter.mp hj).2 hi
    · intro i
      simp only [List.mem_append, unspent, List.mem_filter, decide_eq_true_eq]
      constructor
      · rintro (hi | ⟨hi, -⟩)
        · exact hsub hi
        · exact hi
      · intro hi
        by_cases hmem : i ∈ indices
        · exact .inl hmem
        · exact .inr ⟨hi, hmem⟩
  rw [← weight_range, ← weight_perm hperm, weight_append]

/-- **A plan is a balanced chain of two-input transactions.** -/
theorem plan_balanced {sort : UnstableSort} {amount : NoteAmount} {notes : List SpendableNote}
    {txPlan : TransactionPlan} (h : plan sort amount notes = .ok txPlan) :
    ∃ indices change selected, Selects sort amount notes indices change ∧
      indices.Nodup ∧ indices.map (notes[·]?) = selected.map some ∧
      txPlan.steps.length = max 1 (indices.length - 1) ∧
      txPlan.steps.length ≤ transactionLimit - 1 ∧
      BalancedChain amount change selected txPlan.steps ∧
      total notes = amount.val + weight (amountAt notes) (unspent notes indices) +
        excessOf change := by
  obtain ⟨indices, change, selected, hselects, hlimit, hselected, hsteps⟩ := plan_ok_selects h
  have hselection := hselects.selection
  have hlen : indices.length = selected.length := by
    rw [← List.length_map (notes[·]?), hselected, List.length_map]
  have hcovers : weight noteAmount selected = amount.val + excessOf change := by
    rw [← weight_of_indices hselected, hselection.covers]
  have hbalanced := planSteps_balanced hcovers hsteps
  have hten : transactionLimit = 10 := rfl
  refine ⟨indices, change, selected, hselects, hselection.nodup, hselected, ?_, ?_, hbalanced, ?_⟩
  · rw [hbalanced.length, hlen]
  · rw [hbalanced.length, ← hlen]
    omega
  · rw [total_eq_selected_add hselection.nodup hselection.subset, hselection.covers]
    omega

/-- Three notes are merged and paid from in two steps. -/
theorem plan_balanced_three : ∃ txPlan,
    plan insertionSort 9 [⟨101, 2⟩, ⟨102, 3⟩, ⟨103, 5⟩] = .ok txPlan ∧
      txPlan.steps.length ≤ transactionLimit - 1 := by
  cases hplan : plan insertionSort 9 [⟨101, 2⟩, ⟨102, 3⟩, ⟨103, 5⟩] with
  | error e =>
      have hok : (plan insertionSort 9 [⟨101, 2⟩, ⟨102, 3⟩, ⟨103, 5⟩]).isOk = true := by
        decide +kernel
      rw [hplan] at hok
      cases hok
  | ok txPlan =>
      obtain ⟨_, _, _, _, _, _, _, hlimit, -⟩ := plan_balanced hplan
      exact ⟨txPlan, rfl, hlimit⟩

end PrivatePayments.TxPlanner
