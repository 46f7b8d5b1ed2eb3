import PrivatePayments.Soroban

/-!
# PrivatePayments.Contracts.MerkleWithHistory

The commitment tree of the pool contract (`merkle_with_history.rs`): a tree of fixed
depth that keeps one filled subtree for each level, and a ring buffer of its last roots.
-/

namespace PrivatePayments.MerkleWithHistory

/-- `ROOT_HISTORY_SIZE`: number of roots kept in the ring buffer. -/
def rootHistorySize : Nat := 90

/-- The errors of the module. -/
inductive MerkleError
  | alreadyInitialized
  | wrongLevels
  | merkleTreeFull
  | nextIndexNotEven
  | notInitialized
  | overflow
  deriving DecidableEq, Repr

/-- The storage entries under `MerkleDataKey`. The counters are `u32` and `u64`; the code
guards every addition on them, and so does the model. -/
structure MerkleStorage where
  /-- `MerkleDataKey::Levels` -/
  levels : Option Nat := none
  /-- `MerkleDataKey::CurrentRootIndex` -/
  currentRootIndex : Option Nat := none
  /-- `MerkleDataKey::NextIndex` -/
  nextIndex : Option Nat := none
  /-- `MerkleDataKey::FilledSubtree(u32)` -/
  filledSubtree : Nat → Option U256 := fun _ => none
  /-- `MerkleDataKey::Zeroes(u32)` -/
  zeroes : Nat → Option U256 := fun _ => none
  /-- `MerkleDataKey::Root(u32)` -/
  root : Nat → Option U256 := fun _ => none

/-- The monad of the module's functions. -/
abbrev MerkleM := Contract MerkleStorage MerkleError

/-- `checked_add` on an unsigned integer of the given width. -/
def checkedAdd (bits a b : Nat) : Option Nat :=
  if a + b < 2 ^ bits then some (a + b) else none

/-- `1u64.checked_shl(levels)` -/
def checkedShl64 (levels : Nat) : Option Nat :=
  if levels < 64 then some (1 <<< levels) else none

/-- One round of the loop of `init`: level `i` starts as an empty subtree. -/
def initLevel (i : Nat) : MerkleM Unit := do
  let z ← Contract.okOr getZeroes[i]? .notInitialized
  modify fun s => { s with
    filledSubtree := Function.update s.filledSubtree i (some z.toU256)
    zeroes := Function.update s.zeroes i (some z.toU256) }

/-- `MerkleTreeWithHistory::init` -/
def init (levels : Nat) : MerkleM Unit := do
  Contract.failIf (levels = 0 ∨ levels > 32) .wrongLevels
  let s ← get
  Contract.failIf s.currentRootIndex.isSome .alreadyInitialized
  modify fun s => { s with levels := some levels }
  (List.range (levels + 1)).forM initLevel
  let root0 ← Contract.okOr getZeroes[levels]? .notInitialized
  modify fun s => { s with
    root := Function.update s.root 0 (some root0.toU256)
    currentRootIndex := some 0
    nextIndex := some 0 }

/-- The loop of `insert_two_leaves` over the levels above the leaves. -/
def updatePath : List Nat → Nat → U256 → MerkleM U256
  | [], _, currentHash => pure currentHash
  | lvl :: lvls, currentIndex, currentHash => do
      let s ← get
      if currentIndex &&& 1 = 1 then
        -- right child: the left sibling is stored
        let left ← Contract.okOr (s.filledSubtree lvl) .notInitialized
        let currentHash ← contractCompress left currentHash
        updatePath lvls (currentIndex >>> 1) currentHash
      else
        -- left child: store it and pair it with the empty subtree
        modify fun s => { s with
          filledSubtree := Function.update s.filledSubtree lvl (some currentHash) }
        let zeroVal ← Contract.okOr (s.zeroes lvl) .notInitialized
        let currentHash ← contractCompress currentHash zeroVal
        updatePath lvls (currentIndex >>> 1) currentHash

/-- `u32::try_from(index).map_err(|_| MerkleTreeFull)` -/
def toU32 (index : Nat) : MerkleM Nat :=
  if index < 2 ^ 32 then pure index else throw (.error .merkleTreeFull)

/-- `MerkleTreeWithHistory::insert_two_leaves`; returns the two leaf indices. -/
def insertTwoLeaves (leaf1 leaf2 : U256) : MerkleM (Nat × Nat) := do
  let s ← get
  let levels ← Contract.okOr s.levels .notInitialized
  let nextIndex ← Contract.okOr s.nextIndex .notInitialized
  let rootIndex ← Contract.okOr s.currentRootIndex .notInitialized
  let maxLeaves ← Contract.okOr (checkedShl64 levels) .wrongLevels
  Contract.failIf (nextIndex % 2 ≠ 0) .nextIndexNotEven
  let afterInsert ← Contract.okOr (checkedAdd 64 nextIndex 2) .overflow
  Contract.failIf (afterInsert > maxLeaves) .merkleTreeFull
  let currentHash ← contractCompress leaf1 leaf2
  let currentHash ← updatePath (List.range' 1 (levels - 1)) (nextIndex >>> 1) currentHash
  let rootIndex ← Contract.okOr (checkedAdd 32 rootIndex 1) .overflow
  let rootIndex := rootIndex % rootHistorySize
  modify fun s => { s with
    root := Function.update s.root rootIndex (some currentHash)
    currentRootIndex := some rootIndex
    nextIndex := some afterInsert }
  let index1 ← toU32 nextIndex
  let next ← Contract.okOr (checkedAdd 64 nextIndex 1) .overflow
  let index2 ← toU32 next
  return (index1, index2)

/-- The loop of `is_known_root`: slot `i`, then the slots after it, until the search is
back at the current slot. A search that did not come back would use up the call's
budget, which traps. -/
def searchRoots (root : U256) (currentRootIndex : Nat) : (fuel i : Nat) → MerkleM Bool
  | 0, _ => throw .trap
  | fuel + 1, i => do
      let s ← get
      if s.root i = some root then return true
      let next ← Contract.okOr (checkedAdd 32 i 1) .overflow
      let next := next % rootHistorySize
      if next = currentRootIndex then return false
      searchRoots root currentRootIndex fuel next

/-- `MerkleTreeWithHistory::is_known_root` -/
def isKnownRoot (root : U256) : MerkleM Bool := do
  if root = 0 then return false
  let s ← get
  let currentRootIndex ← Contract.okOr s.currentRootIndex .notInitialized
  searchRoots root currentRootIndex rootHistorySize currentRootIndex

/-- `MerkleTreeWithHistory::get_last_root` -/
def getLastRoot : MerkleM U256 := do
  let s ← get
  let currentRootIndex ← Contract.okOr s.currentRootIndex .notInitialized
  Contract.okOr (s.root currentRootIndex) .notInitialized

end PrivatePayments.MerkleWithHistory
