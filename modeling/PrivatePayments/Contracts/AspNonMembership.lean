import PrivatePayments.Soroban

/-!
# PrivatePayments.Contracts.AspNonMembership

The contract that keeps the sparse Merkle tree of blocked keys
(`asp-non-membership/src/lib.rs`). Nodes are stored under their hash: a leaf as
`[1, key, value]`, an inner node as `[left, right]`.
-/

namespace PrivatePayments.AspNonMembership

/-- A contract or account address. -/
abbrev Address := Nat

/-- The errors of the contract. -/
inductive AspError
  | notAuthorized
  | keyNotFound
  | keyAlreadyExists
  | invalidProof
  | notInitialized
  | overflow
  deriving DecidableEq, Repr

/-- `FindResult` -/
structure FindResult where
  found : Bool
  siblings : List U256
  foundValue : U256
  notFoundKey : U256
  notFoundValue : U256
  isOld0 : Bool
  deriving DecidableEq

/-- The events of the contract. -/
inductive AspEvent
  /-- `LeafInsertedEvent` -/
  | leafInserted (key value root : U256)
  /-- `LeafDeletedEvent` -/
  | leafDeleted (key root : U256)

/-- The storage entries under `DataKey`, and the published events. -/
structure AspStorage where
  admin : Option Address := none
  root : Option U256 := none
  /-- `DataKey::Node(U256)` -/
  node : U256 → Option (List U256) := fun _ => none
  events : List AspEvent := []

/-- The monad of the contract's functions. -/
abbrev AspM := Contract AspStorage AspError

/-- `__constructor` -/
def constructor (admin : Address) : AspM Unit :=
  modify fun s => { s with admin := some admin, root := some 0 }

/-- `hash_leaf` -/
def hashLeaf (key value : U256) : AspM U256 := contractHash2 key value (some 1)

/-- `hash_internal` -/
def hashInternal (left right : U256) : AspM U256 := contractCompress left right

/-- The loop of `split_bits`. -/
def splitBitsLoop : Nat → Nat → List Bool
  | 0, _ => []
  | n + 1, k => (k % 2 = 1) :: splitBitsLoop n (k / 2)

/-- `split_bits`: the 256 bits of a key, lowest first. -/
def splitBits (key : U256) : List Bool := splitBitsLoop 256 key.val

/-- `find_key_internal`. The bits of the key from the current level on stand for the level;
a tree that is deeper than the key has bits is an error. -/
def findKeyInternal (node : U256 → Option (List U256)) (key : U256) :
    List Bool → U256 → Except AspError FindResult
  | keyBits, root =>
      if root = 0 then
        .ok { found := false, siblings := [], foundValue := 0, notFoundKey := key,
              notFoundValue := 0, isOld0 := true }
      else
        match node root with
        | none => .error .keyNotFound
        | some [tag, storedKey, storedValue] =>
            if tag = 1 then
              if storedKey = key then
                .ok { found := true, siblings := [], foundValue := storedValue, notFoundKey := 0,
                      notFoundValue := 0, isOld0 := false }
              else
                .ok { found := false, siblings := [], foundValue := 0, notFoundKey := storedKey,
                      notFoundValue := storedValue, isOld0 := false }
            else .error .keyNotFound
        | some [left, right] =>
            match keyBits with
            | [] => .error .keyNotFound
            | bit :: keyBits => do
                let result ← findKeyInternal node key keyBits (if bit then right else left)
                let sibling := if bit then left else right
                .ok { result with siblings := sibling :: result.siblings }
        | some _ => .error .keyNotFound

/-- `?` on a result. -/
def liftResult {α : Type} (r : Except AspError α) : AspM α :=
  match r with
  | .ok a => pure a
  | .error e => throw (.error e)

/-- `find_key` -/
def findKey (key : U256) : AspM FindResult := do
  let s ← get
  liftResult (findKeyInternal s.node key (splitBits key) (s.root.getD 0))

/-- `store.set(&DataKey::Node(hash), &data)` -/
def setNode (hash : U256) (data : List U256) : AspM Unit :=
  modify fun s => { s with node := Function.update s.node hash (some data) }

/-- `store.remove(&DataKey::Node(hash))` -/
def removeNode (hash : U256) : AspM Unit :=
  modify fun s => { s with node := Function.update s.node hash none }

/-- The length of the common prefix of two bit lists. -/
def commonPrefix : List Bool → List Bool → Nat
  | a :: as, b :: bs => if a = b then commonPrefix as bs + 1 else 0
  | _, _ => 0

/-- The variables of the loop of `insert_leaf`. -/
structure InsertState where
  rt : U256
  rtOld : U256
  mixed : Bool

/-- One round of the loop of `insert_leaf`, for the sibling at level `i`. -/
def insertStep (keyBits : List Bool) (findSiblings : List U256) (siblingsLen : Nat)
    (addedOne : Bool) (level : U256 × Nat) (st : InsertState) : AspM InsertState := do
  let (sibling, i) := level
  -- the last sibling may be the old leaf, which is not on the old path
  let isLastAddedLeaf := addedOne && i == siblingsLen - 1
  let mixed := st.mixed || (!isLastAddedLeaf && decide (i < siblingsLen - 1) && sibling != 0)
  let bit ← Contract.okOr keyBits[i]? .keyNotFound
  let rtOld ←
    if mixed && !isLastAddedLeaf then do
      let oldSibling := findSiblings.getD i 0
      let rtOld ← if bit then hashInternal oldSibling st.rtOld else hashInternal st.rtOld oldSibling
      removeNode rtOld
      pure rtOld
    else pure st.rtOld
  let leftHash := if bit then sibling else st.rt
  let rightHash := if bit then st.rt else sibling
  let rt ← hashInternal leftHash rightHash
  setNode rt [leftHash, rightHash]
  return { rt, rtOld, mixed }

/-- The siblings, the old root and the flag `mixed` that the loop of `insert_leaf` starts
with. When the search ends in another leaf, the siblings are extended with zeros for the
common bits and with that leaf. -/
def startInsert (keyBits : List Bool) (find : FindResult) : AspM (List U256 × U256 × Bool) :=
  if find.isOld0 then pure (find.siblings, 0, !find.siblings.isEmpty)
  else do
    let oldKeyBits := splitBits find.notFoundKey
    let extension := commonPrefix (oldKeyBits.drop find.siblings.length)
      (keyBits.drop find.siblings.length)
    let rtOld ← hashLeaf find.notFoundKey find.notFoundValue
    return (find.siblings ++ List.replicate extension 0 ++ [rtOld], rtOld, false)

/-- `insert_leaf` -/
def insertLeaf (authorised : Bool) (key value : U256) : AspM Unit := do
  let s ← get
  let _ ← Contract.okOr s.admin .notInitialized
  Contract.requireAuth authorised
  let keyBits := splitBits key
  let find ← liftResult (findKeyInternal s.node key keyBits (s.root.getD 0))
  Contract.failIf find.found .keyAlreadyExists
  let (siblings, rtOld, mixed) ← startInsert keyBits find
  let rt ← hashLeaf key value
  setNode rt [1, key, value]
  let st ← siblings.zipIdx.foldrM
    (insertStep keyBits find.siblings siblings.length (!find.isOld0)) { rt, rtOld, mixed }
  modify fun s => { s with
    root := some st.rt
    events := s.events ++ [.leafInserted key value st.rt] }

/-- The variables of the loop of `delete_leaf`. -/
structure DeleteState where
  rtNew : U256
  rtOld : U256
  mixed : Bool

/-- One round of the loop of `delete_leaf`, for the sibling at level `i`. -/
def deleteStep (keyBits : List Bool) (level : U256 × Nat) (st : DeleteState) :
    AspM DeleteState := do
  let (sibling, i) := level
  let bit ← Contract.okOr keyBits[i]? .keyNotFound
  let rtOld ← if bit then hashInternal sibling st.rtOld else hashInternal st.rtOld sibling
  removeNode rtOld
  let mixed := st.mixed || sibling != 0
  if mixed then
    let leftHash := if bit then sibling else st.rtNew
    let rightHash := if bit then st.rtNew else sibling
    let rtNew ← hashInternal leftHash rightHash
    setNode rtNew [leftHash, rightHash]
    return { rtNew, rtOld, mixed }
  else return { rtNew := st.rtNew, rtOld, mixed }

/-- The start of the rebuilding in `delete_leaf`: a leaf that is the last sibling is
promoted, an inner node stays where it is. -/
def promote (node : U256 → Option (List U256)) (siblings : List U256) :
    Except AspError (U256 × List U256) :=
  match siblings.getLast? with
  | none => .ok (0, siblings)
  | some lastSibling =>
      match node lastSibling with
      | some [tag, _, _] =>
          if tag = 1 then .ok (lastSibling, siblings.dropLast) else .error .keyNotFound
      | some [_, _] => .ok (0, siblings)
      | some _ => .error .keyNotFound
      | none => .error .keyNotFound

/-- `delete_leaf` -/
def deleteLeaf (authorised : Bool) (key : U256) : AspM Unit := do
  let s ← get
  let _ ← Contract.okOr s.admin .notInitialized
  Contract.requireAuth authorised
  let root ← Contract.okOr s.root .notInitialized
  let keyBits := splitBits key
  let find ← liftResult (findKeyInternal s.node key keyBits root)
  Contract.failIf (!find.found) .keyNotFound
  let rtOld ← hashLeaf key find.foundValue
  removeNode rtOld
  let s ← get
  let (rtNew, siblings) ← liftResult (promote s.node find.siblings)
  let st ← siblings.zipIdx.foldrM (deleteStep keyBits) { rtNew, rtOld, mixed := false }
  modify fun s => { s with
    root := some st.rtNew
    events := s.events ++ [.leafDeleted key st.rtNew] }

/-- One round of the loop of `verify_non_membership`, for the sibling at level `i`. -/
def verifyStep (keyBits : List Bool) (level : U256 × Nat) (computedRoot : U256) : AspM U256 := do
  let (sibling, i) := level
  let bit ← Contract.okOr keyBits[i]? .invalidProof
  if bit then hashInternal sibling computedRoot else hashInternal computedRoot sibling

/-- The node that `verify_non_membership` puts at the end of the path. A colliding leaf is told
from an empty slot by its value, not by `is_old0`. -/
def terminalNode (key notFoundKey notFoundValue : U256) : AspM U256 :=
  if notFoundKey ≠ key ∧ notFoundValue ≠ 0 then hashLeaf notFoundKey notFoundValue else pure 0

/-- `verify_non_membership` -/
def verifyNonMembership (key : U256) (siblings : List U256)
    (notFoundKey notFoundValue : U256) : AspM Bool := do
  let s ← get
  let root := s.root.getD 0
  let keyBits := splitBits key
  let find ← liftResult (findKeyInternal s.node key keyBits root)
  if find.found then return false
  else do
    Contract.failIf (find.siblings.length ≠ siblings.length) .invalidProof
    Contract.failIf (siblings ≠ find.siblings) .invalidProof
    Contract.failIf (find.notFoundKey ≠ notFoundKey ∨ find.notFoundValue ≠ notFoundValue)
      .invalidProof
    let leaf ← terminalNode key notFoundKey notFoundValue
    let computedRoot ← siblings.zipIdx.foldrM (verifyStep keyBits) leaf
    Contract.failIf (computedRoot ≠ root) .invalidProof
    return true

/-- `update_admin`; without an admin it panics. -/
def updateAdmin (authorised : Bool) (newAdmin : Address) : AspM Unit := do
  let s ← get
  let _ ← Contract.hostCall s.admin
  Contract.requireAuth authorised
  modify fun s => { s with admin := some newAdmin }

/-- `get_root` -/
def getRoot : AspM U256 := do
  let s ← get
  Contract.okOr s.root .notInitialized

end PrivatePayments.AspNonMembership
