import PrivatePayments.TxPlanner.Combination

/-!
# PrivatePayments.TxPlanner.Plan

The plan of a spend (`tx-planner/src/plan/mod.rs`): the selected notes are merged two by two
until one last call pays the amount. A merged note does not exist yet when the plan is made, so
the plan knows only its amount, and `resolve` looks it up in the wallet by that amount.
-/

namespace PrivatePayments.TxPlanner

open Prover (checkedAdd)

/-! ## Notes and steps -/

/-- `SpendableNote` -/
structure SpendableNote where
  commitment : Fr
  amount : NoteAmount
  deriving DecidableEq

/-- `StepNote` -/
structure StepNote where
  commitment : Option Fr
  amount : NoteAmount
  deriving DecidableEq

/-- `StepNote::from_spendable` -/
def StepNote.fromSpendable (note : SpendableNote) : StepNote :=
  { commitment := some note.commitment, amount := note.amount }

/-- `StepNote::from_amount` -/
def StepNote.fromAmount (amount : NoteAmount) : StepNote :=
  { commitment := none, amount := amount }

/-- `StepAction` -/
inductive StepAction where
  | consolidate (output : NoteAmount)
  | final (outputs : NoteAmount × Option NoteAmount)
  deriving DecidableEq

/-- `PlannedStep` -/
structure PlannedStep where
  inputs : StepNote × Option StepNote
  action : StepAction
  deriving DecidableEq

/-- Whether the last step pays. -/
def endsFinal (steps : List PlannedStep) : Bool :=
  match steps.getLast? with
  | some { action := .final _, .. } => true
  | _ => false

/-- `TransactionPlan`; only `assemble` builds one. -/
structure TransactionPlan where
  steps : List PlannedStep
  endsFinal : endsFinal steps = true

/-- `TransactionPlan::assemble` -/
def TransactionPlan.assemble (steps : List PlannedStep) : Option TransactionPlan :=
  if h : TxPlanner.endsFinal steps = true then some { steps := steps, endsFinal := h } else none

/-! ## Planning -/

/-- `ok_or` -/
def okOr {α ε : Type} (e : ε) : Option α → Except ε α
  | some a => .ok a
  | none => .error e

/-- The indices and the change that `plan` reads off a combination. -/
def CombinationResult.picks :
    CombinationResult → Except PlanError (List Nat × Option NoteAmount)
  | .impossible => .error .noCombination
  | .oneExact i => .ok ([i], none)
  | .twoExact i j => .ok ([i, j], none)
  | .oneOvershoot i excess => .ok ([i], some excess)
  | .twoOvershoot i j excess => .ok ([i, j], some excess)
  | .exactK indices => .ok (indices, none)
  | .overshoot indices excess => .ok (indices, some excess)

/-- The note at an index, which `plan` checks first. -/
def noteAt (notes : List SpendableNote) (index : Nat) : Except PlanError SpendableNote :=
  okOr (.noteIndexOutOfRange index) notes[index]?

/-- The loop of `plan` over the second and later notes. -/
def mergeSteps : NoteAmount → StepNote → List SpendableNote → Except PlanError (List PlannedStep)
  | _, _, [] => .ok []
  | sum, prevNote, note :: rest => do
      let nextSum ← okOr .inputAmountOverflow (checkedAdd sum note.amount)
      let steps ← mergeSteps nextSum (.fromAmount nextSum) rest
      return { inputs := (prevNote, some (.fromSpendable note)), action := .consolidate nextSum }
        :: steps

/-- `last_step.action = action` -/
def setLastAction (action : StepAction) : List PlannedStep → List PlannedStep
  | [] => []
  | [step] => [{ step with action := action }]
  | step :: next :: rest => step :: setLastAction action (next :: rest)

/-- The steps of `plan` for the selected notes. -/
def planSteps (amount : NoteAmount) (change : Option NoteAmount) :
    List SpendableNote → Except PlanError (List PlannedStep)
  -- `indices[0]` panics
  | [] => .error (.noteIndexOutOfRange 0)
  | [note] => .ok [{ inputs := (.fromSpendable note, none), action := .final (amount, change) }]
  | note0 :: note1 :: rest => do
      let steps ← mergeSteps note0.amount (.fromSpendable note0) (note1 :: rest)
      return setLastAction (.final (amount, change)) steps

/-- `plan` -/
def plan (sort : UnstableSort) (amount : NoteAmount) (notes : List SpendableNote) :
    Except PlanError TransactionPlan :=
  if notes = [] then .error .noSpendableNotes
  else do
    let combo ← findCombination sort (notes.map (·.amount)) amount
    let (indices, change) ← combo.picks
    if indices.length > transactionLimit then
      .error (.tooManyNotes indices.length transactionLimit)
    else
      let selected ← indices.mapM (noteAt notes)
      let steps ← planSteps amount change selected
      okOr .invalidPlan (TransactionPlan.assemble steps)

/-! ## Resolving a step -/

/-- `resolve_input_note` -/
def resolveInputNote (input : StepNote) (notes : List SpendableNote) (sibling : Option StepNote) :
    Except PlanError SpendableNote :=
  match input.commitment with
  | some commitment =>
      match notes.find? fun note => note.commitment = commitment with
      | none => .error (.commitmentNotFound commitment)
      | some note =>
          if note.amount ≠ input.amount then
            .error (.noteAmountMismatch commitment note.amount input.amount)
          else .ok note
  | none =>
      let excluded := sibling.bind (·.commitment)
      let candidates := notes.filter fun note => note.amount = input.amount
      match candidates.filter fun note => excluded ≠ some note.commitment with
      | [] => .error (.noNoteForAmount input.amount)
      | [note] => .ok note
      | _ => .error (.ambiguousNoteForAmount input.amount)

/-- `PlannedStep::resolve` -/
def PlannedStep.resolve (step : PlannedStep) (notes : List SpendableNote) :
    Except PlanError (List SpendableNote) := do
  let first ← resolveInputNote step.inputs.1 notes step.inputs.2
  match step.inputs.2 with
  | none => return [first]
  | some second =>
      let other ← resolveInputNote second notes (some step.inputs.1)
      return [first, other]

end PrivatePayments.TxPlanner
