import PrivatePayments.Lib.Tape
import PrivatePayments.Prover.Crypto

/-!
# PrivatePayments.Prover.R1cs

The parser of constraint systems (`prover/src/r1cs.rs`). It finds the sections in a first pass, in
which it parses the header in place, and then goes back to the constraints.

`Vec::with_capacity` panics when it is asked for more than `isize::MAX` bytes, so the parser
depends on the machine (`Target`). That the memory it asks for is there is taken for granted.
-/

namespace PrivatePayments.Prover.R1cs

/-! ## Constraint systems -/

/-- `Term` -/
structure Term where
  wireId : UInt32
  coefficient : Fr
  deriving DecidableEq

/-- `LinearCombination` -/
structure LinearCombination where
  terms : List Term
  deriving DecidableEq

/-- `Constraint` -/
structure Constraint where
  a : LinearCombination
  b : LinearCombination
  c : LinearCombination
  deriving DecidableEq

/-- `R1CS` -/
structure R1CS where
  numWires : UInt32
  numPubOut : UInt32
  numPubIn : UInt32
  numPrvIn : UInt32
  numPublic : UInt32
  constraints : List Constraint
  deriving DecidableEq

/-- `R1CSHeader` -/
structure R1CSHeader where
  fieldSize : UInt32
  numWires : UInt32
  numPubOut : UInt32
  numPubIn : UInt32
  numPrvIn : UInt32
  numConstraints : UInt32

/-! ## Machines -/

/-- What the parser depends on: `isize::MAX`, and the sizes of `Term` and `Constraint`. A `usize`
holds every `u32` and a `u64` every `usize`. -/
structure Target where
  isizeMax : Nat
  sizeOfTerm : Nat
  sizeOfConstraint : Nat
  u32_fits : 2 ^ 31 ≤ isizeMax + 1
  fits_u64 : isizeMax < 2 ^ 63

/-- The number of values of a `usize`. -/
def Target.usizeSize (t : Target) : Nat := 2 * (t.isizeMax + 1)

/-- The browser: pointers of 32 bits, and `u64` in words of 64. -/
def wasm32 : Target where
  isizeMax := 2 ^ 31 - 1
  sizeOfTerm := 40
  sizeOfConstraint := 36
  u32_fits := Nat.le_refl _
  fits_u64 := by decide

/-- Machines with pointers of 64 bits. -/
def bits64 : Target where
  isizeMax := 2 ^ 63 - 1
  sizeOfTerm := 40
  sizeOfConstraint := 72
  u32_fits := by decide
  fits_u64 := by decide

/-- A byte slice is never longer than `isize::MAX`. -/
abbrev Slice (t : Target) := { data : List UInt8 // data.length ≤ t.isizeMax }

/-- How a call ends that gives no value: an `Err`, or a panic. -/
inductive Failure where
  | error (message : String)
  | indexOutOfBounds
  | capacityOverflow
  deriving DecidableEq

/-! ## The cursor -/

/-- `Cursor` -/
abbrev Cursor := Tape UInt8

/-- A function that moves the cursor. -/
abbrev Reader (α : Type) := EStateM Failure Cursor α

/-- `ok_or_else` -/
def okOrElse {α : Type} (message : String) : Option α → Reader α
  | some a => return a
  | none => throw (.error message)

/-- `?` on a result -/
def liftResult {α : Type} : Except Failure α → Reader α
  | .ok a => return a
  | .error e => throw e

/-- `&data[start..stop]` -/
def slice (data : List UInt8) (start stop : Nat) : Reader (List UInt8) :=
  if start ≤ stop ∧ stop ≤ data.length then return (data.drop start).take (stop - start)
  else throw .indexOutOfBounds

/-- `bytes[i]` -/
def index (bytes : List UInt8) (i : Nat) : Reader UInt8 :=
  match bytes[i]? with
  | some b => return b
  | none => throw .indexOutOfBounds

/-- `usize::checked_add` -/
def checkedAddUsize (t : Target) (a b : Nat) : Option Nat :=
  if a + b < t.usizeSize then some (a + b) else none

/-- `usize::checked_sub` -/
def checkedSubUsize (a b : Nat) : Option Nat := if b ≤ a then some (a - b) else none

/-- `read_bytes` -/
def readBytes (t : Target) (n : Nat) : Reader (List UInt8) := do
  let self ← get
  let stop ← okOrElse "Overflow in cursor position" (checkedAddUsize t self.position n)
  if stop > self.data.length then throw (.error "Unexpected end of R1CS data")
  else do
    let bytes ← slice self.data self.position stop
    set { self with position := stop }
    return bytes

/-- `read_u32_le` -/
def readU32Le (t : Target) : Reader UInt32 := do
  let bytes ← readBytes t 4
  let word ← [0, 1, 2, 3].mapM (index bytes)
  return UInt32.ofNat (leValue word)

/-- `read_u64_le` -/
def readU64Le (t : Target) : Reader UInt64 := do
  let bytes ← readBytes t 8
  let word ← [0, 1, 2, 3, 4, 5, 6, 7].mapM (index bytes)
  return UInt64.ofNat (leValue word)

/-- `skip` -/
def skip (t : Target) (n : Nat) : Reader Unit := do
  let self ← get
  let stop ← okOrElse "Overflow in cursor skip" (checkedAddUsize t self.position n)
  if stop > self.data.length then throw (.error "Unexpected end of R1CS data")
  else set { self with position := stop }

/-! ## Sections -/

/-- `parse_header` -/
def parseHeader (t : Target) : Reader R1CSHeader := do
  let fieldSize ← readU32Le t
  if fieldSize ≠ 32 then throw (.error s!"Unsupported field size: {fieldSize} (expected 32)")
  else do
    -- the prime is not compared with the modulus
    skip t fieldSize.toNat
    let numWires ← readU32Le t
    let numPubOut ← readU32Le t
    let numPubIn ← readU32Le t
    let numPrvIn ← readU32Le t
    let _numLabels ← readU64Le t
    let numConstraints ← readU32Le t
    return { fieldSize, numWires, numPubOut, numPubIn, numPrvIn, numConstraints }

/-- `Vec::with_capacity` for `count` elements. -/
def withCapacity (t : Target) (count elementSize : Nat) : Reader Unit :=
  if count * elementSize ≤ t.isizeMax then return () else throw .capacityOverflow

/-- The body of the loop of `parse_linear_combination` -/
def parseTerm (t : Target) (fieldSize : UInt32) : Reader Term := do
  let wireId ← readU32Le t
  let coeffBytes ← readBytes t fieldSize.toNat
  let coefficient := scalarOf coeffBytes
  return { wireId, coefficient }

/-- `parse_linear_combination` -/
def parseLinearCombination (t : Target) (fieldSize : UInt32) : Reader LinearCombination := do
  let numTerms ← readU32Le t
  -- the count is not compared with what is left of the data
  withCapacity t numTerms.toNat t.sizeOfTerm
  let terms ← Tape.readMany (parseTerm t fieldSize) numTerms.toNat
  return { terms }

/-- The body of the loop of `parse_constraints` -/
def parseConstraint (t : Target) (fieldSize : UInt32) : Reader Constraint := do
  let a ← parseLinearCombination t fieldSize
  let b ← parseLinearCombination t fieldSize
  let c ← parseLinearCombination t fieldSize
  return { a, b, c }

/-- `parse_constraints` -/
def parseConstraints (t : Target) (header : R1CSHeader) : Reader (List Constraint) := do
  withCapacity t header.numConstraints.toNat t.sizeOfConstraint
  Tape.readMany (parseConstraint t header.fieldSize) header.numConstraints.toNat

/-- What the first pass has found: the header, and start and size of the constraints. -/
structure Found where
  header : Option R1CSHeader
  constraintsData : Option (Nat × Nat)

/-- The arms of the first pass over the section types. -/
def parseSection (t : Target) (found : Found) (sectionType : UInt32)
    (sectionStart sectionSize : Nat) : Reader Found :=
  if sectionType = 1 then do
    let header ← parseHeader t
    return { found with header := some header }
  else if sectionType = 2 then do
    skip t sectionSize
    return { found with constraintsData := some (sectionStart, sectionSize) }
  else do
    skip t sectionSize
    return found

/-- The body of the loop of the first pass. -/
def readSection (t : Target) (found : Found) : Reader Found := do
  let sectionType ← readU32Le t
  let sectionSize ← readU64Le t
  let sectionStart ← Tape.getPosition
  let sectionSizeUsize ← okOrElse "Section size too large"
    (if sectionSize.toNat < t.usizeSize then some sectionSize.toNat else none)
  let found ← parseSection t found sectionType sectionStart sectionSizeUsize
  -- only a header can end elsewhere than its section
  let position ← Tape.getPosition
  let consumed ← okOrElse "Invalid cursor position" (checkedSubUsize position sectionStart)
  if consumed < sectionSizeUsize then do
    let remaining ← okOrElse "Invalid remaining bytes calculation"
      (checkedSubUsize sectionSizeUsize consumed)
    skip t remaining
    return found
  else return found

/-- The loop of the first pass. -/
def readSections (t : Target) : Nat → Found → Reader Found
  | 0, found => return found
  | n + 1, found => do
      let found ← readSection t found
      readSections t n found

/-- The first pass, from the magic number on. -/
def locateSections (t : Target) : Reader Found := do
  let magic ← readBytes t 4
  if magic ≠ [114, 49, 99, 115] then throw (.error "Invalid R1CS magic number")
  else do
    let version ← readU32Le t
    if version ≠ 1 then throw (.error s!"Unsupported R1CS version: {version}")
    else do
      let numSections ← readU32Le t
      readSections t numSections.toNat ⟨none, none⟩

/-- The end of `parse`, with the header and the constraints. -/
def assemble (header : R1CSHeader) (constraints : List Constraint) : Except Failure R1CS :=
  if header.numPubOut.toNat + header.numPubIn.toNat < 2 ^ 32 then
    .ok {
      numWires := header.numWires
      numPubOut := header.numPubOut
      numPubIn := header.numPubIn
      numPrvIn := header.numPrvIn
      numPublic := header.numPubOut + header.numPubIn
      constraints }
  else .error (.error "Overflow calculating num_public")

/-- The second pass, over the constraints. -/
def constraintsAt (t : Target) (header : R1CSHeader) :
    Option (Nat × Nat) → Reader (List Constraint)
  | some (start, _) => do
      modify fun cursor => { cursor with position := start }
      parseConstraints t header
  | none => return []

/-- `parse`, on the cursor. -/
def parseCursor (t : Target) : Reader R1CS := do
  let found ← locateSections t
  let header ← okOrElse "Missing R1CS header section" found.header
  let constraints ← constraintsAt t header found.constraintsData
  liftResult (assemble header constraints)

/-- `R1CS::parse` -/
def parse (t : Target) (data : Slice t) : Except Failure R1CS :=
  match (parseCursor t).run ⟨data.val, 0⟩ with
  | .ok r1cs _ => .ok r1cs
  | .error e _ => .error e

end PrivatePayments.Prover.R1cs
