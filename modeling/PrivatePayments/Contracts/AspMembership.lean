import PrivatePayments.Contracts.MerkleWithHistory

/-!
# PrivatePayments.Contracts.AspMembership

The contract that keeps the tree of approved members (`asp-membership/src/lib.rs`): an
incremental Merkle tree that takes one leaf at a time and keeps only its current root.
-/

namespace PrivatePayments.AspMembership

open MerkleWithHistory (checkedAdd checkedShl64)

/-- A contract or account address. -/
abbrev Address := Nat

/-- The errors of the contract. -/
inductive AspMembershipError
  | notAuthorized
  | merkleTreeFull
  | wrongLevels
  | notInitialized
  | overflow
  deriving DecidableEq, Repr

/-- `LeafAddedEvent` -/
structure LeafAddedEvent where
  leaf : U256
  index : Nat
  root : U256
  deriving DecidableEq

/-- The storage entries under `DataKey`, and the published events. -/
structure MembershipStorage where
  admin : Option Address := none
  /-- `DataKey::FilledSubtrees(u32)` -/
  filledSubtrees : Nat → Option U256 := fun _ => none
  /-- `DataKey::Zeroes(u32)` -/
  zeroes : Nat → Option U256 := fun _ => none
  levels : Option Nat := none
  nextIndex : Option Nat := none
  root : Option U256 := none
  adminInsertOnly : Option Bool := none
  events : List LeafAddedEvent := []

/-- The monad of the contract's functions. -/
abbrev MembershipM := Contract MembershipStorage AspMembershipError

/-- One round of the loop of `__constructor`. -/
def initLevel (lvl : Nat) : MembershipM Unit := do
  let zeroVal ← Contract.okOr getZeroes[lvl]? .notInitialized
  modify fun s => { s with
    filledSubtrees := Function.update s.filledSubtrees lvl (some zeroVal.toU256)
    zeroes := Function.update s.zeroes lvl (some zeroVal.toU256) }

/-- `__constructor` -/
def constructor (admin : Address) (levels : Nat) : MembershipM Unit := do
  Contract.failIf (levels = 0 ∨ levels > 32) .wrongLevels
  modify fun s => { s with
    admin := some admin
    levels := some levels
    nextIndex := some 0
    adminInsertOnly := some true }
  (List.range (levels + 1)).forM initLevel
  let rootVal ← Contract.okOr getZeroes[levels]? .notInitialized
  modify fun s => { s with root := some rootVal.toU256 }

/-- `update_admin`; `authorised` tells whether the stored admin signed. -/
def updateAdmin (authorised : Bool) (newAdmin : Address) : MembershipM Unit := do
  let s ← get
  Contract.failIf s.admin.isNone .notInitialized
  Contract.requireAuth authorised
  modify fun s => { s with admin := some newAdmin }

/-- `set_admin_insert_only` -/
def setAdminInsertOnly (authorised adminOnly : Bool) : MembershipM Unit := do
  let s ← get
  let _ ← Contract.okOr s.admin .notInitialized
  Contract.requireAuth authorised
  modify fun s => { s with adminInsertOnly := some adminOnly }

/-- `get_root` -/
def getRoot : MembershipM U256 := do
  let s ← get
  Contract.okOr s.root .notInitialized

/-- The loop of `insert_leaf` over the levels. -/
def updatePath : List Nat → Nat → U256 → MembershipM U256
  | [], _, currentHash => pure currentHash
  | lvl :: lvls, currentIndex, currentHash => do
      let s ← get
      if currentIndex &&& 1 = 1 then
        -- right child: the left sibling is stored
        let left ← Contract.okOr (s.filledSubtrees lvl) .notInitialized
        let currentHash ← contractCompress left currentHash
        updatePath lvls (currentIndex >>> 1) currentHash
      else
        -- left child: store it and pair it with the empty subtree
        modify fun s => { s with
          filledSubtrees := Function.update s.filledSubtrees lvl (some currentHash) }
        let zeroVal ← Contract.okOr (s.zeroes lvl) .notInitialized
        let currentHash ← contractCompress currentHash zeroVal
        updatePath lvls (currentIndex >>> 1) currentHash

/-- The check at the head of `insert_leaf`. -/
def checkInsertAuth (authorised : Bool) : MembershipM Unit := do
  let s ← get
  if s.adminInsertOnly.getD true then do
    let _ ← Contract.okOr s.admin .notInitialized
    Contract.requireAuth authorised
  else pure ()

/-- `insert_leaf` -/
def insertLeaf (authorised : Bool) (leaf : U256) : MembershipM Unit := do
  checkInsertAuth authorised
  let s ← get
  let levels ← Contract.okOr s.levels .notInitialized
  let actualIndex ← Contract.okOr s.nextIndex .notInitialized
  let maxLeaves ← Contract.okOr (checkedShl64 levels) .merkleTreeFull
  Contract.failIf (actualIndex ≥ maxLeaves) .merkleTreeFull
  let currentHash ← updatePath (List.range levels) actualIndex leaf
  modify fun s => { s with root := some currentHash }
  modify fun s => { s with events := s.events ++ [⟨leaf, actualIndex, currentHash⟩] }
  let next ← Contract.okOr (checkedAdd 64 actualIndex 1) .overflow
  modify fun s => { s with nextIndex := some next }

end PrivatePayments.AspMembership
