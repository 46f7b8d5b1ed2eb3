import PrivatePayments.Poseidon2.Hash
import Mathlib.Data.List.DropRight

/-!
# PrivatePayments.Circuits.SparseMerkleTree

The sparse Merkle tree of the circuit tests (`circuits/src/test/utils/sparse_merkle_tree.rs`), a
port of circomlibjs with which the witnesses of the tests are made.

A `BigInt` is a natural number here: no number in this tree is negative. An index out of bounds
is an error like those that the functions return.
-/

namespace PrivatePayments.SmtReference

/-- `big_int_to_fp` -/
def bigIntToFp (x : Nat) : Fr := ⟨x % bn256Modulus, Nat.mod_lt _ (by decide)⟩

/-- `poseidon2_compression_sparse` -/
def poseidon2CompressionSparse (left right : Nat) : Nat :=
  (poseidon2Compress (bigIntToFp left) (bigIntToFp right)).val

/-- `poseidon2_hash3_sparse` -/
def poseidon2Hash3Sparse (key value : Nat) : Nat :=
  (poseidon2Hash2 (bigIntToFp key) (bigIntToFp value) 1).val

/-- `SMTMemDB` -/
structure SMTMemDB where
  data : Nat → Option (List Nat)
  root : Nat

namespace SMTMemDB

/-- `SMTMemDB::new` -/
def new : SMTMemDB := { data := fun _ => none, root := 0 }

/-- `set_root` -/
def setRoot (db : SMTMemDB) (root : Nat) : SMTMemDB := { db with root }

/-- `multi_ins` -/
def multiIns (db : SMTMemDB) (inserts : List (Nat × List Nat)) : SMTMemDB :=
  { db with
    data := inserts.foldl (fun data entry => Function.update data entry.1 (some entry.2)) db.data }

/-- `multi_del` -/
def multiDel (db : SMTMemDB) (deletes : List Nat) : SMTMemDB :=
  { db with data := deletes.foldl (fun data key => Function.update data key none) db.data }

end SMTMemDB

/-- `FindResult` -/
structure FindResult where
  found : Bool
  siblings : List Nat
  foundValue : Nat
  notFoundKey : Nat
  notFoundValue : Nat
  isOld0 : Bool
  deriving DecidableEq

/-- `SMTResult` -/
structure SMTResult where
  oldRoot : Nat
  newRoot : Nat
  siblings : List Nat
  oldKey : Nat
  oldValue : Nat
  newKey : Nat
  newValue : Nat
  isOld0 : Bool
  deriving DecidableEq

structure SparseMerkleTree where
  db : SMTMemDB
  root : Nat

/-- The loop of `split_bits`. -/
def splitBitsLoop : Nat → Nat → List Bool
  | 0, _ => []
  | n + 1, key => (key % 2 = 1) :: splitBitsLoop n (key / 2)

/-- `split_bits`: the 256 bits of a key, lowest first. -/
def splitBits (key : Nat) : List Bool := splitBitsLoop 256 key

/-- `_find`. The bits of the key from the current level on stand for the level. -/
def findAt (data : Nat → Option (List Nat)) (key : Nat) :
    List Bool → Nat → Except String FindResult
  | keyBits, root =>
      if root = 0 then
        .ok { found := false, siblings := [], foundValue := 0, notFoundKey := key,
              notFoundValue := 0, isOld0 := true }
      else
        match data root with
        | none => .error "Node not found in database"
        | some [tag, storedKey, storedValue] =>
            if tag = 1 then
              if storedKey = key then
                .ok { found := true, siblings := [], foundValue := storedValue, notFoundKey := 0,
                      notFoundValue := 0, isOld0 := false }
              else
                .ok { found := false, siblings := [], foundValue := 0, notFoundKey := storedKey,
                      notFoundValue := storedValue, isOld0 := false }
            else .error "Invalid record format"
        | some [left, right] =>
            match keyBits with
            | [] => .error "index out of bounds"
            | bit :: keyBits => do
                let res ← findAt data key keyBits (if !bit then left else right)
                .ok { res with siblings := (if !bit then right else left) :: res.siblings }
        | some _ => .error "Invalid record format"

/-- Indexing a list. -/
def index {α : Type} (list : List α) (i : Nat) : Except String α :=
  match list[i]? with
  | some a => .ok a
  | none => .error "index out of bounds"

/-- The loop that pushes a zero for each bit that the old and the new key have in common. -/
def extendSiblings : List Bool → List Bool → List Nat → List Nat
  | oldBit :: oldKeyBits, newBit :: newKeyBits, siblings =>
      if oldBit = newBit then extendSiblings oldKeyBits newKeyBits (siblings ++ [0]) else siblings
  | _, _, siblings => siblings

/-- The siblings, the old root and the flag `mixed` that the loop of `insert` starts with. -/
def startInsert (newKeyBits : List Bool) (resFind : FindResult) : List Nat × Nat × Bool :=
  if resFind.isOld0 then (resFind.siblings, 0, !resFind.siblings.isEmpty)
  else
    let rtOld := poseidon2Hash3Sparse resFind.notFoundKey resFind.notFoundValue
    (extendSiblings ((splitBits resFind.notFoundKey).drop resFind.siblings.length)
      (newKeyBits.drop resFind.siblings.length) resFind.siblings ++ [rtOld], rtOld, false)

/-- The variables of the loop of `insert`. -/
structure InsertState where
  rt : Nat
  rtOld : Nat
  mixed : Bool
  inserts : List (Nat × List Nat)
  deletes : List Nat

/-- The old node of a level, which is to be deleted. -/
def deleteOld (newKeyBits : List Bool) (findSiblings : List Nat) (i : Nat) (st : InsertState) :
    Except String InsertState := do
  let oldSibling ← index findSiblings i
  let bit ← index newKeyBits i
  let rtOld :=
    if bit then poseidon2CompressionSparse oldSibling st.rtOld
    else poseidon2CompressionSparse st.rtOld oldSibling
  .ok { st with rtOld, deletes := st.deletes ++ [rtOld] }

/-- One round of the loop of `insert`, for the sibling at level `i`. -/
def insertStep (newKeyBits : List Bool) (findSiblings : List Nat) (siblingsLen : Nat)
    (level : Nat × Nat) (st : InsertState) : Except String InsertState := do
  let (sibling, i) := level
  let mixed := st.mixed || (decide (i < siblingsLen - 1) && sibling != 0)
  let st ← if mixed then deleteOld newKeyBits findSiblings i st else .ok st
  let bit ← index newKeyBits i
  let newRt :=
    if bit then poseidon2CompressionSparse sibling st.rt
    else poseidon2CompressionSparse st.rt sibling
  let newNode := if bit then [sibling, st.rt] else [st.rt, sibling]
  .ok { st with rt := newRt, mixed, inserts := st.inserts ++ [(newRt, newNode)] }

/-- The siblings of a result: without the leaf that was added, then without trailing zeros. -/
def trimSiblings (isOld0 : Bool) (siblings : List Nat) : List Nat :=
  (if isOld0 then siblings else siblings.dropLast).rdropWhile (· = 0)

namespace SparseMerkleTree

/-- `SparseMerkleTree::new`, for an empty tree. -/
def new : SparseMerkleTree := { db := .new, root := 0 }

variable (tree : SparseMerkleTree)

/-- `find` -/
def find (key : Nat) : Except String FindResult :=
  findAt tree.db.data key (splitBits key) tree.root

/-- `insert`; an error leaves the tree as it is. -/
def insert (key value : Nat) : Except String (SMTResult × SparseMerkleTree) := do
  let newKeyBits := splitBits key
  let resFind ← tree.find key
  if resFind.found then .error "Key already exists"
  else
    let (siblings, rtOld, mixed) := startInsert newKeyBits resFind
    let rt := poseidon2Hash3Sparse key value
    let st ← siblings.zipIdx.foldrM (insertStep newKeyBits resFind.siblings siblings.length)
      { rt, rtOld, mixed, inserts := [(rt, [1, key, value])], deletes := [] }
    let db := ((tree.db.multiIns st.inserts).setRoot st.rt).multiDel st.deletes
    .ok ({ oldRoot := tree.root, newRoot := st.rt,
           siblings := trimSiblings resFind.isOld0 siblings,
           oldKey := resFind.notFoundKey, oldValue := resFind.notFoundValue,
           newKey := key, newValue := value, isOld0 := resFind.isOld0 }, { db, root := st.rt })

/-- The tree after an insertion, which a failed one does not change. -/
def step (entry : Nat × Nat) : SparseMerkleTree :=
  match tree.insert entry.1 entry.2 with
  | .ok (_, tree') => tree'
  | .error _ => tree

/-- The tree after some insertions. -/
def run (entries : List (Nat × Nat)) : SparseMerkleTree := entries.foldl step tree

end SparseMerkleTree

end PrivatePayments.SmtReference
