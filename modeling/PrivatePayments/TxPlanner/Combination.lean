import PrivatePayments.Prover.Flows

/-!
# PrivatePayments.TxPlanner.Combination

Coin selection of the client (`tx-planner/src/plan/combination.rs`): pick the notes that reach
a target amount, with as few notes as possible.

An index into a slice never leaves its machine type, so the checks of the index arithmetic
are left out. `sort_unstable_by_key` is a parameter (`UnstableSort`).
-/

namespace PrivatePayments.TxPlanner

open Prover (checkedAdd)

/-! ## Errors and results -/

/-- `PlanError` -/
inductive PlanError where
  | noSpendableNotes
  | noCombination
  | tooManyNotes (selected maxNotes : Nat)
  | noteIndexOutOfRange (index : Nat)
  | inputAmountOverflow
  | internalError (reason : String)
  | invalidPlan
  | commitmentNotFound (commitment : Fr)
  | noteAmountMismatch (commitment : Fr) (actual expected : NoteAmount)
  | noNoteForAmount (amount : NoteAmount)
  | ambiguousNoteForAmount (amount : NoteAmount)
  deriving DecidableEq

/-- `TRANSACTION_LIMIT` -/
def transactionLimit : Nat := 10

/-- `CombinationResult` -/
inductive CombinationResult where
  | twoExact (i j : Nat)
  | oneExact (i : Nat)
  | twoOvershoot (i j : Nat) (excess : NoteAmount)
  | oneOvershoot (i : Nat) (excess : NoteAmount)
  | exactK (indices : List Nat)
  | overshoot (indices : List Nat) (excess : NoteAmount)
  | impossible
  deriving DecidableEq

/-- An index of a note and its amount. -/
abbrev Entry := Nat × NoteAmount

/-- What `sort_unstable_by_key` promises: a rearrangement in ascending order of the amounts. -/
structure UnstableSort where
  sort : List Entry → List Entry
  perm : ∀ entries, (sort entries).Perm entries
  ascending : ∀ entries, (sort entries).Pairwise fun a b => a.2 ≤ b.2

/-- `NoteAmount::checked_sub` -/
def checkedSub (a b : NoteAmount) : Option NoteAmount :=
  if b ≤ a then some ⟨a.val - b.val, Nat.lt_of_le_of_lt (Nat.sub_le _ _) a.isLt⟩ else none

/-! ## Pairs -/

/-- `TwoScan` -/
inductive TwoScan where
  | exact (i j : Nat)
  | overshoot (i j : Nat) (excess : NoteAmount)
  | miss

/-- The loop of `TwoScan::scan`; `right` is `left` plus the first argument. -/
def TwoScan.loop (sorted : List Entry) (goal : NoteAmount) :
    Nat → Nat → Option (Nat × Nat × NoteAmount) → Except PlanError TwoScan
  | 0, _, none => .ok .miss
  | 0, _, some (i, j, excess) => .ok (.overshoot i j excess)
  | gap + 1, left, bestOvershoot =>
      let low := sorted.getD left (0, 0)
      let high := sorted.getD (left + (gap + 1)) (0, 0)
      match checkedAdd low.2 high.2 with
      | none => .error .inputAmountOverflow
      | some sum =>
          match checkedSub sum goal with
          | none => TwoScan.loop sorted goal gap (left + 1) bestOvershoot
          | some diff =>
              if diff = 0 then .ok (.exact low.1 high.1)
              else if bestOvershoot.all fun best => diff < best.2.2 then
                TwoScan.loop sorted goal gap left (some (low.1, high.1, diff))
              else TwoScan.loop sorted goal gap left bestOvershoot

/-- `TwoScan::scan` -/
def TwoScan.scan (sorted : List Entry) (goal : NoteAmount) : Except PlanError TwoScan :=
  if sorted.length < 2 then .ok .miss else TwoScan.loop sorted goal (sorted.length - 1) 0 none

/-! ## Single notes -/

/-- `OneScan` -/
inductive OneScan where
  | exact (i : Nat)
  | overshoot (i : Nat) (excess : NoteAmount)
  | miss

/-- `OneScan::scan` -/
def OneScan.scan (goal : NoteAmount) : List Entry → OneScan
  | [] => .miss
  | (idx, x) :: rest =>
      match checkedSub x goal with
      | none => OneScan.scan goal rest
      | some diff => if diff = 0 then .exact idx else .overshoot idx diff

/-! ## Three notes and more -/

/-- `KScan` -/
inductive KScan where
  | exact (indices : List Nat)
  | overshoot (indices : List Nat) (excess : NoteAmount)
  | miss

/-- The part of `DfsContext` that changes. -/
structure DfsContext where
  iterationLimit : Int
  path : List Nat
  bestOvershoot : Option (NoteAmount × List Nat)

/-- One more note on the path, and one iteration less. -/
def DfsContext.push (ctx : DfsContext) (noteIndex : Nat) : DfsContext :=
  { ctx with iterationLimit := ctx.iterationLimit - 1, path := ctx.path ++ [noteIndex] }

/-- The last note off the path. -/
def DfsContext.pop (ctx : DfsContext) : DfsContext :=
  { ctx with path := ctx.path.dropLast }

/-- What `KScan::dfs` does with a path of the target length. -/
def KScan.visit (goal sum : NoteAmount) (ctx : DfsContext) : Bool × DfsContext :=
  match checkedSub sum goal with
  | none => (false, ctx)
  | some diff =>
      if diff = 0 then (true, ctx)
      else if ctx.bestOvershoot.all fun best => diff < best.1 then
        (false, { ctx with bestOvershoot := some (diff, ctx.path) })
      else (false, ctx)

/-- `KScan::dfs`; the list is what is left of the candidates from `index` on. -/
def KScan.dfs (goal : NoteAmount) (targetK : Nat) :
    List Entry → NoteAmount → DfsContext → Except PlanError (Bool × DfsContext)
  | [], sum, ctx =>
      if ctx.path.length = targetK then .ok (KScan.visit goal sum ctx) else .ok (false, ctx)
  | (noteIndex, noteAmount) :: rest, sum, ctx =>
      if ctx.path.length = targetK then .ok (KScan.visit goal sum ctx)
      else if goal ≤ sum ∨ ctx.iterationLimit ≤ 0 then .ok (false, ctx)
      else
        match checkedAdd sum noteAmount with
        | none => .error .inputAmountOverflow
        | some withNote => do
            let (found, ctx) ← KScan.dfs goal targetK rest withNote (ctx.push noteIndex)
            if found then return (true, ctx) else KScan.dfs goal targetK rest sum ctx.pop

/-- The loop of `KScan::scan` over the sizes. -/
def KScan.scanSizes (candidatesDesc : List Entry) (goal : NoteAmount) :
    List Nat → Except PlanError (Option KScan)
  | [] => .ok none
  | k :: sizes => do
      let (found, ctx) ← KScan.dfs goal k candidatesDesc 0
        { iterationLimit := 5000, path := [], bestOvershoot := none }
      if found then return some (.exact ctx.path)
      else
        match ctx.bestOvershoot with
        | some (excess, overshootPath) => return some (.overshoot overshootPath excess)
        | none => KScan.scanSizes candidatesDesc goal sizes

/-- `KScan::greedy_impl`, over the notes from the largest on. -/
def KScan.greedy (goal : NoteAmount) :
    List Entry → NoteAmount → List Nat → Except PlanError KScan
  | [], _, _ => .ok .miss
  | (idx, x) :: rest, total, picks =>
      match checkedAdd total x with
      | none => .error .inputAmountOverflow
      | some nextTotal =>
          if goal ≤ nextTotal then
            match checkedSub nextTotal goal with
            | none => .error (.internalError "greedy: excess invariant")
            | some excess => .ok (.overshoot (picks ++ [idx]) excess)
          else KScan.greedy goal rest nextTotal (picks ++ [idx])

/-- `KScan::scan` -/
def KScan.scan (sorted : List Entry) (goal : NoteAmount) : Except PlanError KScan := do
  let candidatesDesc := (sorted.filter fun entry => entry.2 < goal).reverse
  let maxK := min candidatesDesc.length transactionLimit
  let sizes := if 3 ≤ candidatesDesc.length then List.range' 3 (maxK - 2) else []
  match ← KScan.scanSizes candidatesDesc goal sizes with
  | some result => return result
  | none => KScan.greedy goal sorted.reverse 0 []

/-! ## The selection -/

/-- The amounts with their indices. -/
def enumerate (values : List NoteAmount) : List Entry :=
  values.zipIdx.map Prod.swap

/-- `find_combination` -/
def findCombination (sort : UnstableSort) (values : List NoteAmount) (goal : NoteAmount) :
    Except PlanError CombinationResult :=
  if values = [] then .ok .impossible
  else do
    let sortedVals := sort.sort (enumerate values)
    match ← TwoScan.scan sortedVals goal, OneScan.scan goal sortedVals with
    | .exact i j, _ => return .twoExact i j
    | _, .exact i => return .oneExact i
    | .overshoot i j excess, _ => return .twoOvershoot i j excess
    | _, .overshoot i excess => return .oneOvershoot i excess
    | .miss, .miss =>
        match ← KScan.scan sortedVals goal with
        | .exact indices => return .exactK indices
        | .overshoot indices excess => return .overshoot indices excess
        | .miss => return .impossible

end PrivatePayments.TxPlanner
