import PrivatePayments.Prover.R1csCapacity

/-!
# PrivatePayments.Prover.R1csSound

The parser of constraint systems inverts the file format: from what an encoder of the format
writes, in any order of the sections, it reads what was encoded (`Reads`, field by field).

`Vec::with_capacity` is called with counts from the file before what they count is read, so on a
machine with a small `isize` some files end in a panic (`parse_exact`).
-/

namespace PrivatePayments.Prover.R1cs

open Tape (Reads)

/-! ## The format -/

/-- The four bytes of a `u32`. -/
def le32 (v : UInt32) : List UInt8 := toLeBytes 4 v.toNat

/-- The eight bytes of a `u64`. -/
def le64 (v : UInt64) : List UInt8 := toLeBytes 8 v.toNat

def Term.encode (term : Term) : List UInt8 := le32 term.wireId ++ scalarToBytes term.coefficient

def LinearCombination.encode (lc : LinearCombination) : List UInt8 :=
  le32 (UInt32.ofNat lc.terms.length) ++ lc.terms.flatMap Term.encode

def Constraint.encode (constraint : Constraint) : List UInt8 :=
  constraint.a.encode ++ (constraint.b.encode ++ constraint.c.encode)

/-- A section of a file: the header, the constraints, or bytes of another type. -/
inductive Section where
  | header
  | constraints
  | other (sectionType : UInt32) (body : List UInt8)
  deriving DecidableEq

/-- A constraint system with the sections of its file, in order. -/
structure File where
  prime : List UInt8
  numWires : UInt32
  numPubOut : UInt32
  numPubIn : UInt32
  numPrvIn : UInt32
  numLabels : UInt64
  constraints : List Constraint
  sections : List Section
  prime_length : prime.length = 32
  constraints_fit : constraints.length < 2 ^ 32
  terms_fit : ∀ constraint ∈ constraints, ∀ lc ∈ [constraint.a, constraint.b, constraint.c],
    lc.terms.length < 2 ^ 32
  sections_fit : sections.length < 2 ^ 32
  one_header : sections.count .header = 1
  one_constraints : sections.count .constraints = 1
  other_type : ∀ sectionType body, .other sectionType body ∈ sections →
    sectionType ≠ 1 ∧ sectionType ≠ 2

namespace File

/-- The header that the file declares. -/
def header (file : File) : R1CSHeader where
  fieldSize := 32
  numWires := file.numWires
  numPubOut := file.numPubOut
  numPubIn := file.numPubIn
  numPrvIn := file.numPrvIn
  numConstraints := UInt32.ofNat file.constraints.length

/-- The number of a section type. -/
def typeOf : Section → UInt32
  | .header => 1
  | .constraints => 2
  | .other sectionType _ => sectionType

def headerBytes (file : File) : List UInt8 :=
  le32 32 ++ (file.prime ++ (le32 file.numWires ++ (le32 file.numPubOut ++ (le32 file.numPubIn ++
    (le32 file.numPrvIn ++ (le64 file.numLabels ++
      le32 (UInt32.ofNat file.constraints.length)))))))

def constraintBytes (file : File) : List UInt8 := file.constraints.flatMap Constraint.encode

/-- The body of a section. -/
def body (file : File) : Section → List UInt8
  | .header => file.headerBytes
  | .constraints => file.constraintBytes
  | .other _ bytes => bytes

def encodeSection (file : File) (s : Section) : List UInt8 :=
  le32 (typeOf s) ++ (le64 (UInt64.ofNat (file.body s).length) ++ file.body s)

/-- The bytes of the file. -/
def encode (file : File) : List UInt8 :=
  [114, 49, 99, 115] ++ (le32 1 ++ (le32 (UInt32.ofNat file.sections.length) ++
    file.sections.flatMap file.encodeSection))

end File

/-! ## Reading the fields -/

variable {t : Target} {p : Nat}

/-- What the parser reads where memory does not run out. -/
abbrev Parses {α : Type} (t : Target) (p : Nat) (x : Reader α) (bytes : List UInt8) (a : α) : Prop :=
  Reads t.isizeMax (· = .capacityOverflow) p x bytes a

theorem reads_bytes {bytes : List UInt8} {n : Nat} (h : bytes.length = n) :
    Parses t p (readBytes t n) bytes bytes := by
  rintro pre post rfl hbound
  subst h
  have hin : pre.length + bytes.length ≤ (pre ++ bytes ++ post).length := by simp
  refine (readBytes_outcome hbound pre.length bytes.length).imp ?_ ?_
  · rintro _ _ ⟨-, rfl, rfl⟩
    exact ⟨by simp, rfl⟩
  · rintro e _ ⟨-, hend⟩
    omega

theorem reads_skip {bytes : List UInt8} {n : Nat} (h : bytes.length = n) :
    Parses t p (skip t n) bytes () := by
  subst h
  exact Tape.Takes.reads fun data hdata => takes_skip hdata bytes.length

@[simp] theorem length_le32 (v : UInt32) : (le32 v).length = 4 := length_toLeBytes 4 _

@[simp] theorem length_le64 (v : UInt64) : (le64 v).length = 8 := length_toLeBytes 8 _

theorem reads_u32 (v : UInt32) : Parses t p (readU32Le t) (le32 v) v := by
  refine (reads_bytes (length_le32 v)).bind_pure ?_
  have hword : [0, 1, 2, 3].mapM (index (le32 v)) = return le32 v :=
    mapM_index_all (length_le32 v)
  have hvalue : UInt32.ofNat (leValue (le32 v)) = v := by
    rw [le32, leValue_toLeBytes v.toNat_lt, UInt32.ofNat_toNat]
  rw [hword, pure_bind, hvalue]
  exact Reads.pure

theorem reads_u64 (v : UInt64) : Parses t p (readU64Le t) (le64 v) v := by
  refine (reads_bytes (length_le64 v)).bind_pure ?_
  have hword : [0, 1, 2, 3, 4, 5, 6, 7].mapM (index (le64 v)) = return le64 v :=
    mapM_index_all (length_le64 v)
  have hvalue : UInt64.ofNat (leValue (le64 v)) = v := by
    rw [le64, leValue_toLeBytes v.toNat_lt, UInt64.ofNat_toNat]
  rw [hword, pure_bind, hvalue]
  exact Reads.pure

/-! ## Constraints -/

theorem reads_withCapacity {count elementSize : Nat} :
    Parses t p (withCapacity t count elementSize) [] () := by
  rw [withCapacity]
  by_cases h : count * elementSize ≤ t.isizeMax
  · rw [if_pos h]
    exact Reads.pure
  · rw [if_neg h]
    exact Reads.throw rfl

theorem reads_term (term : Term) : Parses t p (parseTerm t 32) term.encode term := by
  refine (reads_u32 term.wireId).bind ?_
  refine (reads_bytes (length_scalarToBytes term.coefficient)).bind_pure ?_
  rw [scalarOf_scalarToBytes]
  exact Reads.pure

theorem reads_linearCombination {lc : LinearCombination} (h : lc.terms.length < 2 ^ 32) :
    Parses t p (parseLinearCombination t 32) lc.encode lc := by
  refine (reads_u32 _).bind ?_
  refine reads_withCapacity.bind_nil ?_
  have hcount : (UInt32.ofNat lc.terms.length).toNat = lc.terms.length :=
    UInt32.toNat_ofNat_of_lt' h
  rw [hcount]
  exact (Reads.many fun term _ _ => reads_term term).bind_pure Reads.pure

theorem reads_constraint {constraint : Constraint}
    (h : ∀ lc ∈ [constraint.a, constraint.b, constraint.c], lc.terms.length < 2 ^ 32) :
    Parses t p (parseConstraint t 32) constraint.encode constraint := by
  refine (reads_linearCombination (h _ (by simp))).bind ?_
  refine (reads_linearCombination (h _ (by simp))).bind ?_
  exact (reads_linearCombination (h _ (by simp))).bind_pure Reads.pure

theorem reads_constraints (file : File) :
    Parses t p (parseConstraints t file.header) file.constraintBytes file.constraints := by
  have hcount : file.header.numConstraints.toNat = file.constraints.length :=
    UInt32.toNat_ofNat_of_lt' file.constraints_fit
  rw [parseConstraints, hcount]
  refine reads_withCapacity.bind_nil ?_
  exact Reads.many fun constraint hconstraint _ => reads_constraint (file.terms_fit _ hconstraint)

/-! ## Sections -/

theorem reads_header (file : File) : Parses t p (parseHeader t) file.headerBytes file.header := by
  refine (reads_u32 32).bind ?_
  rw [if_neg (by simp)]
  refine (reads_skip file.prime_length).bind ?_
  refine (reads_u32 _).bind ((reads_u32 _).bind ((reads_u32 _).bind ((reads_u32 _).bind ?_)))
  exact (reads_u64 _).bind ((reads_u32 _).bind_pure Reads.pure)

/-- What the first pass has found behind a section with its body at `start`. -/
def File.foundAt (file : File) (start : Nat) (found : Found) : Section → Found
  | .header => { found with header := some file.header }
  | .constraints =>
      { found with constraintsData := some (start, file.constraintBytes.length) }
  | .other _ _ => found

theorem reads_parseSection {file : File} {s : Section} (hs : s ∈ file.sections) (found : Found) :
    Parses t p (parseSection t found (File.typeOf s) p (file.body s).length) (file.body s)
      (file.foundAt p found s) := by
  rw [parseSection]
  cases s with
  | header =>
      rw [if_pos (show File.typeOf .header = 1 from rfl)]
      exact (reads_header file).bind_pure Reads.pure
  | constraints =>
      rw [if_neg (show File.typeOf .constraints ≠ 1 by decide),
        if_pos (show File.typeOf .constraints = 2 from rfl)]
      exact (reads_skip rfl).bind_pure Reads.pure
  | other sectionType bytes =>
      obtain ⟨hone, htwo⟩ := file.other_type sectionType bytes hs
      rw [if_neg (show File.typeOf (.other sectionType bytes) ≠ 1 from hone),
        if_neg (show File.typeOf (.other sectionType bytes) ≠ 2 from htwo)]
      exact (reads_skip rfl).bind_pure Reads.pure

theorem reads_section {file : File} {s : Section} (hs : s ∈ file.sections)
    (hsize : (file.body s).length ≤ t.isizeMax) (found : Found) :
    Parses t p (readSection t found) (file.encodeSection s) (file.foundAt (p + 12) found s) := by
  have husize : t.usizeSize = 2 * (t.isizeMax + 1) := rfl
  have hlength : (UInt64.ofNat (file.body s).length).toNat = (file.body s).length :=
    UInt64.toNat_ofNat_of_lt' (hsize.trans_lt (t.fits_u64.trans (by decide)))
  refine (reads_u32 _).bind ((reads_u64 _).bind ?_)
  rw [length_le32, length_le64]
  refine Reads.getPosition.bind_nil ?_
  rw [hlength, if_pos (by omega), okOrElse, pure_bind]
  refine (reads_parseSection hs found).bind_pure (Reads.getPosition.bind_nil ?_)
  have hconsumed : checkedSubUsize (p + 4 + 8 + (file.body s).length) (p + 4 + 8) =
      some (file.body s).length := by
    rw [checkedSubUsize, if_pos (Nat.le_add_right _ _), Nat.add_sub_cancel_left]
  rw [hconsumed, okOrElse, pure_bind, if_neg (Nat.lt_irrefl _)]
  exact Reads.pure

/-- What the first pass has found behind sections that stand from `p` on. -/
def File.foundFrom (file : File) : Nat → Found → List Section → Found
  | _, found, [] => found
  | p, found, s :: rest =>
      file.foundFrom (p + (file.encodeSection s).length) (file.foundAt (p + 12) found s) rest

theorem reads_sections {file : File} {rest : List Section} (hrest : rest ⊆ file.sections)
    (hsize : ∀ s ∈ rest, (file.body s).length ≤ t.isizeMax) (found : Found) :
    Parses t p (readSections t rest.length found) (rest.flatMap file.encodeSection)
      (file.foundFrom p found rest) := by
  induction rest generalizing p found with
  | nil => exact Reads.pure
  | cons s rest ih =>
      rw [List.flatMap_cons]
      refine (reads_section (hrest List.mem_cons_self) (hsize s List.mem_cons_self) found).bind ?_
      exact ih (fun s' hs' => hrest (List.mem_cons_of_mem s hs'))
        (fun s' hs' => hsize s' (List.mem_cons_of_mem s hs')) _

theorem reads_locateSections {file : File}
    (hsize : ∀ s ∈ file.sections, (file.body s).length ≤ t.isizeMax) :
    Parses t 0 (locateSections t) file.encode (file.foundFrom 12 ⟨none, none⟩ file.sections) := by
  have hcount : (UInt32.ofNat file.sections.length).toNat = file.sections.length :=
    UInt32.toNat_ofNat_of_lt' file.sections_fit
  have hmagic : Parses t 0 (readBytes t 4) [114, 49, 99, 115] [114, 49, 99, 115] := reads_bytes rfl
  refine hmagic.bind ?_
  rw [if_neg (by simp)]
  refine (reads_u32 1).bind ?_
  rw [if_neg (by simp)]
  refine (reads_u32 _).bind ?_
  rw [hcount]
  exact reads_sections (List.Subset.refl _) hsize _

/-! ## Finding the sections -/

theorem foundFrom_header {file : File} {rest : List Section} (p : Nat) {found : Found}
    (h : found.header = some file.header ∨ .header ∈ rest) :
    (file.foundFrom p found rest).header = some file.header := by
  induction rest generalizing p found with
  | nil => simpa [File.foundFrom] using h
  | cons s rest ih =>
      refine ih _ ?_
      rcases h with h | h
      · left
        cases s <;> simp [File.foundAt, h]
      · rcases List.mem_cons.mp h with rfl | h
        · exact .inl rfl
        · exact .inr h

theorem foundFrom_of_notMem {file : File} {rest : List Section} (p : Nat) {found : Found}
    (h : .constraints ∉ rest) :
    (file.foundFrom p found rest).constraintsData = found.constraintsData := by
  induction rest generalizing p found with
  | nil => rfl
  | cons s rest ih =>
      rw [File.foundFrom, ih _ fun hmem => h (List.mem_cons_of_mem s hmem)]
      cases s with
      | constraints => exact absurd List.mem_cons_self h
      | _ => rfl

/-- The first pass finds the place where the constraints stand. -/
theorem foundFrom_constraints {file : File} {rest : List Section} (p : Nat) {found : Found}
    (h : .constraints ∈ rest) :
    ∃ before after, rest.flatMap file.encodeSection = before ++ file.constraintBytes ++ after ∧
      (file.foundFrom p found rest).constraintsData =
        some (p + before.length, file.constraintBytes.length) := by
  induction rest generalizing p found with
  | nil => cases h
  | cons s rest ih =>
      by_cases hrest : .constraints ∈ rest
      · obtain ⟨before, after, hbytes, hfound⟩ :=
          ih (p + (file.encodeSection s).length) hrest
        refine ⟨file.encodeSection s ++ before, after, ?_, ?_⟩
        · rw [List.flatMap_cons, hbytes]
          simp
        · rw [File.foundFrom, hfound, List.length_append, Nat.add_assoc]
      · obtain rfl : .constraints = s := (List.mem_cons.mp h).resolve_right hrest
        refine ⟨le32 2 ++ le64 (UInt64.ofNat file.constraintBytes.length),
          rest.flatMap file.encodeSection, ?_, ?_⟩
        · rw [List.flatMap_cons]
          simp [File.encodeSection, File.typeOf, File.body]
        · rw [File.foundFrom, foundFrom_of_notMem _ hrest]
          simp [File.foundAt]

/-! ## The parser -/

/-- The constraint system of a file. -/
structure Decodes (file : File) (r1cs : R1CS) : Prop where
  numWires : r1cs.numWires = file.numWires
  numPubOut : r1cs.numPubOut = file.numPubOut
  numPubIn : r1cs.numPubIn = file.numPubIn
  numPrvIn : r1cs.numPrvIn = file.numPrvIn
  numPublic : r1cs.numPublic.toNat = file.numPubOut.toNat + file.numPubIn.toNat
  constraints : r1cs.constraints = file.constraints

/-- The parser answers, and with the constraint system of the file if the data is one. -/
structure MeetsFormat (t : Target) (data : Slice t) : Prop where
  returns : (∃ r1cs, parse t data = .ok r1cs) ∨
    ∃ message, parse t data = .error (.error message)
  decodes : ∀ file : File, file.encode = data.val →
    file.numPubOut.toNat + file.numPubIn.toNat < 2 ^ 32 →
      ∃ r1cs, parse t data = .ok r1cs ∧ Decodes file r1cs

theorem File.length_body_le {file : File} {s : Section} (hs : s ∈ file.sections) :
    (file.body s).length ≤ file.encode.length := by
  have hsub := List.sublist_flatten_of_mem (List.mem_map_of_mem (f := file.encodeSection) hs)
  have hsection : (file.encodeSection s).length ≤
      (file.sections.flatMap file.encodeSection).length := hsub.length_le
  have hbody : (file.body s).length ≤ (file.encodeSection s).length := by
    simp only [File.encodeSection, List.length_append]
    omega
  simp only [File.encode, List.length_append]
  omega

theorem assemble_decodes {file : File} {s : Cursor}
    (hpublic : file.numPubOut.toNat + file.numPubIn.toNat < 2 ^ 32) :
    Outcome (liftResult (assemble file.header file.constraints)) s
      (fun r1cs _ => Decodes file r1cs) fun e _ => e = .capacityOverflow := by
  rw [assemble, if_pos (show file.header.numPubOut.toNat + file.header.numPubIn.toNat < 2 ^ 32
    from hpublic)]
  have hsum : (file.numPubOut + file.numPubIn).toNat =
      file.numPubOut.toNat + file.numPubIn.toNat := by
    rw [UInt32.toNat_add, Nat.mod_eq_of_lt hpublic]
  exact Outcome.pure ⟨rfl, rfl, rfl, rfl, hsum, rfl⟩

/-- **The round trip.** -/
theorem parseCursor_encode {file : File} (hlength : file.encode.length ≤ t.isizeMax)
    (hpublic : file.numPubOut.toNat + file.numPubIn.toNat < 2 ^ 32) :
    Outcome (parseCursor t) ⟨file.encode, 0⟩ (fun r1cs _ => Decodes file r1cs)
      fun e _ => e = .capacityOverflow := by
  have hheader : Section.header ∈ file.sections :=
    List.count_pos_iff.mp (file.one_header ▸ Nat.one_pos)
  have hconstraints : Section.constraints ∈ file.sections :=
    List.count_pos_iff.mp (file.one_constraints ▸ Nat.one_pos)
  have hlocate := reads_locateSections (t := t)
    (fun s hs => (File.length_body_le hs).trans hlength) [] [] rfl (by simpa using hlength)
  rw [List.nil_append, List.append_nil] at hlocate
  refine Outcome.bind hlocate ?_
  rintro _ _ ⟨rfl, rfl⟩
  obtain ⟨before, after, hbytes, hfound⟩ :=
    @foundFrom_constraints file file.sections 12 ⟨none, none⟩ hconstraints
  rw [foundFrom_header 12 (.inr hheader), okOrElse, pure_bind, hfound]
  -- the constraints stand where the first pass says
  have hsplit : file.encode = ([114, 49, 99, 115] ++ (le32 1 ++
      (le32 (UInt32.ofNat file.sections.length) ++ before))) ++ file.constraintBytes ++ after := by
    rw [File.encode, hbytes]
    simp
  have hstart : ([114, 49, 99, 115] ++ (le32 1 ++
      (le32 (UInt32.ofNat file.sections.length) ++ before))).length = 12 + before.length := by
    simp
    omega
  have hread := reads_constraints (t := t) (p := 12 + before.length) file _ after hstart
    (hsplit ▸ hlength)
  rw [← hsplit] at hread
  refine Outcome.bind (Q := fun constraints _ => constraints = file.constraints) ?_ ?_
  · refine Outcome.bind (Q := fun _ s => s = ⟨file.encode, 12 + before.length⟩)
      (Outcome.modify rfl) ?_
    rintro _ _ rfl
    exact hread.imp (fun _ _ h => h.1) fun _ _ he => he
  · rintro _ s rfl
    exact assemble_decodes hpublic

/-- On machines with pointers of 64 bits, every count fits. -/
theorem combinationsFit_bits64 (data : List UInt8) (n p : Nat) :
    CombinationsFit bits64 data n p := by
  induction n generalizing p with
  | zero => trivial
  | succ n ih =>
      intro count _
      have hcount := count.toNat_lt
      have hterm : bits64.sizeOfTerm = 40 := rfl
      have hmax : bits64.isizeMax = 2 ^ 63 - 1 := rfl
      rw [hterm, hmax]
      exact ⟨by omega, ih _⟩

theorem countsFit_bits64 (data : List UInt8) : CountsFit bits64 data := by
  intro header start _
  have hcount := header.numConstraints.toNat_lt
  have hconstraint : bits64.sizeOfConstraint = 72 := rfl
  have hmax : bits64.isizeMax = 2 ^ 63 - 1 := rfl
  rw [hconstraint, hmax]
  exact ⟨by omega, combinationsFit_bits64 data _ _⟩

theorem parse_of_ok {data : Slice t} {r1cs : R1CS} {s : Cursor}
    (h : (parseCursor t).run ⟨data.val, 0⟩ = .ok r1cs s) : parse t data = .ok r1cs := by
  rw [parse, h]

theorem parse_of_error {data : Slice t} {e : Failure} {s : Cursor}
    (h : (parseCursor t).run ⟨data.val, 0⟩ = .error e s) : parse t data = .error e := by
  rw [parse, h]

/-- A panic is for the capacity, never for an index. -/
theorem parse_ne_indexOutOfBounds (data : Slice t) :
    parse t data ≠ .error .indexOutOfBounds := by
  have harbitrary := parseCursor_outcome data.property
  intro hparse
  cases hrun : (parseCursor t).run ⟨data.val, 0⟩ with
  | ok r1cs s => simp [parse_of_ok hrun] at hparse
  | error e s =>
      obtain rfl : e = .indexOutOfBounds := by simpa [parse_of_error hrun] using hparse
      rcases (Outcome.of_error hrun).mp harbitrary with ⟨he, -⟩ | ⟨he, -⟩
      · exact he
      · cases he

/-- Exactly the bytes whose counts fit are parsed as the format says. -/
theorem meetsFormat_iff (data : Slice t) : MeetsFormat t data ↔ CountsFit t data.val := by
  have harbitrary := parseCursor_outcome data.property
  have hencoded (file : File) (hfile : file.encode = data.val)
      (hpublic : file.numPubOut.toNat + file.numPubIn.toNat < 2 ^ 32) :
      Outcome (parseCursor t) ⟨data.val, 0⟩ (fun r1cs _ => Decodes file r1cs)
        fun e _ => e = .capacityOverflow :=
    hfile ▸ parseCursor_encode (hfile ▸ data.property) hpublic
  cases hrun : (parseCursor t).run ⟨data.val, 0⟩ with
  | ok r1cs s =>
      refine iff_of_true ⟨.inl ⟨r1cs, parse_of_ok hrun⟩, fun file hfile hpublic => ?_⟩
        (harbitrary.ok hrun)
      exact ⟨r1cs, parse_of_ok hrun, (hencoded file hfile hpublic).ok hrun⟩
  | error e s =>
      rcases (Outcome.of_error hrun).mp harbitrary with ⟨he, hfit⟩ | ⟨rfl, hfit⟩
      · refine iff_of_true ⟨.inr ?_, fun file hfile hpublic => ?_⟩ hfit
        · cases e with
          | error message => exact ⟨message, parse_of_error hrun⟩
          | _ => cases he
        · -- the encoding of a file never ends in an `Err`
          obtain rfl := (Outcome.of_error hrun).mp (hencoded file hfile hpublic)
          cases he
      · refine iff_of_false (fun hmeets => ?_) hfit
        rcases hmeets.returns with ⟨r1cs, hok⟩ | ⟨message, herror⟩
        · simp [parse_of_error hrun] at hok
        · simp [parse_of_error hrun] at herror

/-- On machines with pointers of 64 bits, all bytes are. -/
theorem meetsFormat_bits64 (data : Slice bits64) : MeetsFormat bits64 data :=
  (meetsFormat_iff data).mpr (countsFit_bits64 data.val)

/-- A file of 100 bytes whose header announces `u32::MAX` constraints, and whose section of
constraints is empty. -/
def hugeCount : List UInt8 :=
  [114, 49, 99, 115] ++ le32 1 ++ le32 2 ++
    (le32 1 ++ le64 64 ++ le32 32 ++ List.replicate 32 0 ++ le32 1 ++ le32 0 ++ le32 0 ++ le32 0 ++
      le64 0 ++ le32 4294967295) ++
    (le32 2 ++ le64 0)

theorem length_hugeCount : hugeCount.length ≤ wasm32.isizeMax := by decide

end PrivatePayments.Prover.R1cs
