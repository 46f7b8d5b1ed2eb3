import PrivatePayments.Prover.Crypto
import Mathlib.Data.List.DropRight

/-!
# PrivatePayments.Prover.SparseMerkle

The off-chain sparse Merkle tree of the client (`prover/src/sparse_merkle.rs`). It keeps
every node that it has written, by the bytes of its hash.
-/

namespace PrivatePayments.Prover.SparseMerkle

/-- `poseidon2_hash_leaf` -/
def poseidon2HashLeaf (key value : Fr) : Fr := poseidon2Hash2 key value 1

/-- `smt_hash_pair_field` -/
def smtHashPairField (left right : Fr) : Fr := poseidon2Compress left right

/-- `field_to_key` -/
def fieldToKey (field : Fr) : List UInt8 := scalarToBytes field

/-- The 64-bit limbs of a number, lowest first. -/
def limbs (v : Nat) : List Nat := (List.range 4).map fun i => v / 2 ^ (64 * i) % 2 ^ 64

/-- `field_to_bits`: the 256 bits of an element, lowest first. -/
def fieldToBits (field : Fr) : List Bool :=
  ((limbs field.val).flatMap fun limb => (List.range 64).map limb.testBit).take 256

inductive Node where
  | empty
  | leaf (key value : Fr)
  | internal (left right : Fr)
  deriving DecidableEq

structure FindResult where
  found : Bool
  siblings : List Fr
  foundValue : Fr
  notFoundKey : Fr
  notFoundValue : Fr
  isOld0 : Bool
  deriving DecidableEq

/-- `SMTResult` -/
structure SMTResult where
  oldRoot : Fr
  newRoot : Fr
  siblings : List Fr
  oldKey : Fr
  oldValue : Fr
  newKey : Fr
  newValue : Fr
  isOld0 : Bool
  deriving DecidableEq

/-- The nodes by the bytes of their hashes. -/
abbrev NodeDb := List UInt8 → Option Node

structure SparseMerkleTree where
  db : NodeDb
  root : Fr

/-- `SparseMerkleTree::new` -/
def SparseMerkleTree.new : SparseMerkleTree := { db := fun _ => none, root := 0 }

/-- `get_node` -/
def getNode (db : NodeDb) (hash : Fr) : Option Node :=
  if hash = 0 then some .empty else db (fieldToKey hash)

/-- `put_node` -/
def putNode (db : NodeDb) (hash : Fr) (node : Node) : NodeDb :=
  if hash ≠ 0 then Function.update db (fieldToKey hash) (some node) else db

/-- A search that ends in an empty slot. -/
def emptyResult (key : Fr) : FindResult :=
  { found := false, siblings := [], foundValue := 0, notFoundKey := key, notFoundValue := 0,
    isOld0 := true }

/-- `find_internal`. The bits of the key from the current level on stand for the level: none
are left at level 256. -/
def findInternal (db : NodeDb) (key : Fr) : List Bool → Fr → Except String FindResult
  | [], _ => .error "Maximum tree depth exceeded"
  | bit :: keyBits, currentHash =>
      if currentHash = 0 then .ok (emptyResult key)
      else
        match getNode db currentHash with
        | some (.leaf leafKey leafValue) =>
            if leafKey = key then
              .ok { found := true, siblings := [], foundValue := leafValue, notFoundKey := 0,
                    notFoundValue := 0, isOld0 := false }
            else
              .ok { found := false, siblings := [], foundValue := 0, notFoundKey := leafKey,
                    notFoundValue := leafValue, isOld0 := false }
        | some (.internal left right) => do
            let child := if bit then right else left
            let sibling := if bit then left else right
            let result ← findInternal db key keyBits child
            .ok { result with siblings := result.siblings ++ [sibling] }
        | some .empty => .ok (emptyResult key)
        | none => .error "Node not found in database"

/-- `SparseMerkleTree::find` -/
def SparseMerkleTree.find (tree : SparseMerkleTree) (key : Fr) : Except String FindResult := do
  let result ← findInternal tree.db key (fieldToBits key) tree.root
  .ok { result with siblings := result.siblings.reverse }

/-- The loop over `diverge_level`: a zero for each bit that the two keys have in common. -/
def extendSiblings : List Bool → List Bool → List Fr → List Fr
  | oldBit :: oldKeyBits, bit :: keyBits, siblings =>
      if oldBit = bit then extendSiblings oldKeyBits keyBits (siblings ++ [0]) else siblings
  | _, _, siblings => siblings

/-- The siblings of the new leaf: another leaf in its place becomes the last of them. -/
def insertSiblings (keyBits : List Bool) (find : FindResult) : List Fr :=
  if find.isOld0 then find.siblings
  else
    extendSiblings ((fieldToBits find.notFoundKey).drop find.siblings.length)
      (keyBits.drop find.siblings.length) find.siblings ++
      [poseidon2HashLeaf find.notFoundKey find.notFoundValue]

/-- One round of the loop that builds the path, for the sibling at `level`. A level without
a bit is an index out of bounds. -/
def buildStep (keyBits : List Bool) (entry : Fr × Nat) (state : Fr × NodeDb) :
    Except String (Fr × NodeDb) :=
  let (sibling, level) := entry
  let (currentHash, db) := state
  match keyBits[level]? with
  | none => .error "index out of bounds"
  | some bit =>
      let left := if bit then sibling else currentHash
      let right := if bit then currentHash else sibling
      let hash := smtHashPairField left right
      .ok (hash, putNode db hash (.internal left right))

/-- The siblings of an insertion without trailing zeros and without the leaf that it added. -/
def trimSiblings (isOld0 : Bool) (siblings : List Fr) : List Fr :=
  let trimmed := siblings.rdropWhile (· = 0)
  if !isOld0 && !trimmed.isEmpty then trimmed.dropLast else trimmed

/-- `SparseMerkleTree::insert`; an error leaves the tree as it is. -/
def SparseMerkleTree.insert (tree : SparseMerkleTree) (key value : Fr) :
    Except String (SMTResult × SparseMerkleTree) := do
  let findResult ← tree.find key
  if findResult.found then .error "Key already exists"
  else
    let keyBits := fieldToBits key
    let newLeafHash := poseidon2HashLeaf key value
    let db := putNode tree.db newLeafHash (.leaf key value)
    let siblings := insertSiblings keyBits findResult
    let (root, db) ← siblings.zipIdx.foldrM (buildStep keyBits) (newLeafHash, db)
    .ok ({ oldRoot := tree.root, newRoot := root,
           siblings := trimSiblings findResult.isOld0 siblings,
           oldKey := findResult.notFoundKey, oldValue := findResult.notFoundValue,
           newKey := key, newValue := value, isOld0 := findResult.isOld0 }, { db, root })

/-- The tree after an insertion, which a failed one does not change. -/
def SparseMerkleTree.step (tree : SparseMerkleTree) (entry : Fr × Fr) : SparseMerkleTree :=
  match tree.insert entry.1 entry.2 with
  | .ok (_, tree') => tree'
  | .error _ => tree

/-- The tree after some insertions. -/
def SparseMerkleTree.run (entries : List (Fr × Fr)) (tree : SparseMerkleTree) :
    SparseMerkleTree :=
  entries.foldl SparseMerkleTree.step tree

end PrivatePayments.Prover.SparseMerkle
