import PrivatePayments.Circuits.PolicyTransaction

/-!
# PrivatePayments.Circuits.SelectiveDisclosure

The constraint system of a disclosure (`selectiveDisclosure.circom`), over any depth and any
number of notes. `selectiveDisclosure_1.circom` is the instance of depth 10 with one note.
-/

namespace PrivatePayments

open PerfectTree

/-- The input signals of `SelectiveDisclosure`. -/
structure DisclosureSignals (levels nNotes : Nat) where
  roots : Fin nNotes → Fr
  noteCommitments : Fin nNotes → Fr
  extContextHash : Fr
  inAmount : Fin nNotes → Fr
  inPrivateKey : Fin nNotes → Fr
  inBlinding : Fin nNotes → Fr
  inPathIndices : Fin nNotes → Fr
  inPathElements : Fin nNotes → Fin levels → Fr

namespace DisclosureSignals

variable {levels nNotes : Nat} (w : DisclosureSignals levels nNotes)

/-- The public signals, in the order the main component declares them. -/
def publicInputs : List Fr :=
  List.ofFn w.roots ++ List.ofFn w.noteCommitments ++ [w.extContextHash]

/-- `inKeypair[ni].publicKey` -/
def inPublicKey (ni : Fin nNotes) : Fr := keypair (w.inPrivateKey ni)

/-- `inCommitmentHasher[ni].out` -/
def inCommitment (ni : Fin nNotes) : Fr :=
  noteCommitment (w.inAmount ni) (w.inPublicKey ni) (w.inBlinding ni)

end DisclosureSignals

section Template

variable {levels nNotes : Nat} (lib : Circomlib) (w : DisclosureSignals levels nNotes)

/-- The constraints on note `ni`. -/
structure NoteConstraints (ni : Fin nNotes) : Prop where
  commitment : w.noteCommitments ni = w.inCommitment ni
  /-- `inTree` -/
  root : merkleProof lib (w.inCommitment ni) (List.ofFn (w.inPathElements ni))
    (w.inPathIndices ni) (w.roots ni)

/-- The constraints of `SelectiveDisclosure(levels, nNotes)`. -/
structure SelectiveDisclosure : Prop where
  notes : ∀ ni, NoteConstraints lib w ni
  extContextSquare : ∃ extContextSquare, extContextSquare = w.extContextHash * w.extContextHash

end Template

variable {levels nNotes : Nat} {lib : Circomlib} {w : DisclosureSignals levels nNotes}

/-- A disclosed note has a path from its commitment to its public root. -/
theorem NoteConstraints.path {ni : Fin nNotes} (h : NoteConstraints lib w ni)
    (hlevels : levels < 254) :
    (w.inPathIndices ni).val < 2 ^ levels ∧
      foldPath poseidon2Compress (w.inCommitment ni) (List.ofFn (w.inPathElements ni))
        (w.inPathIndices ni).val = w.roots ni := by
  obtain ⟨hlt, hroot⟩ := (merkleProof_iff (by simpa using hlevels)).mp h.root
  rw [List.length_ofFn] at hlt
  exact ⟨hlt, hroot.symm⟩

end PrivatePayments
