import PrivatePayments.State.ClientRun
import PrivatePayments.State.CommitmentMirror
import PrivatePayments.State.WitnessReads

/-!
# PrivatePayments.State.WitnessReadsSound

What the reads for a witness say about the chain.

The database is one that was filled from the chain (`ClientOk`), however far each table has
come. A note that is read back opens its commitment under the user's keys, and no nullifier
that was reconciled is the note's (`unspent_sound`). Leaves that were collected without a gap
are the first leaves of the tree on chain (`poolLeaves_sound`, `aspLeaves_sound`), because
every row that is there has the index that the chain gave it.
-/

namespace PrivatePayments.State

open Prover MerkleWithHistory

/-! ## Related lists -/

section Forall₂

variable {α β : Type} {R : α → β → Prop} {as : List α} {bs : List β}

theorem exists_of_forall₂ (h : List.Forall₂ R as bs) {b : β} (hb : b ∈ bs) :
    ∃ a ∈ as, R a b := by
  induction h with
  | nil => cases hb
  | cons hR _ ih =>
      rcases List.mem_cons.mp hb with rfl | hb
      · exact ⟨_, List.mem_cons_self, hR⟩
      · obtain ⟨a, ha, hab⟩ := ih hb
        exact ⟨a, List.mem_cons_of_mem _ ha, hab⟩

theorem exists_of_forall₂_flip (h : List.Forall₂ R as bs) {a : α} (ha : a ∈ as) :
    ∃ b ∈ bs, R a b := exists_of_forall₂ h.flip ha

end Forall₂

/-! ## Text -/

theorem parseU128_eq {text : String} {digits : List Char} (hstrip : stripPlus text.toList = digits)
    (hne : digits ≠ []) (hdigits : ∀ c ∈ digits, c.isDigit) {amount : NoteAmount}
    (hvalue : Nat.ofDigitChars 10 digits 0 = amount.val) : parseU128 text = some amount := by
  subst hstrip
  have hlt : Nat.ofDigitChars 10 (stripPlus text.toList) 0 < u128Size := hvalue ▸ amount.isLt
  unfold parseU128
  dsimp only
  rw [if_pos ⟨hne, List.all_eq_true.mpr hdigits⟩, dif_pos hlt]
  exact congrArg some (Fin.ext hvalue)

/-- An amount survives its text column. -/
theorem parseU128_toString (amount : NoteAmount) :
    parseU128 (toString amount.val) = some amount := by
  have hdigits : ∀ c ∈ Nat.toDigits 10 amount.val, c.isDigit := fun c hc =>
    Nat.isDigit_of_mem_toDigits (by decide) (by decide) hc
  have hstrip : stripPlus (Nat.toDigits 10 amount.val) = Nat.toDigits 10 amount.val := by
    unfold stripPlus
    split
    · rename_i digits heq
      exact absurd (hdigits '+' (heq ▸ List.mem_cons_self)) (by decide)
    · rfl
  refine parseU128_eq ?_ Nat.toDigits_ne_nil hdigits Nat.ofDigitChars_ten_toDigits
  rw [Nat.toString_eq_repr, Nat.toList_repr, hstrip]

/-! ## Keys -/

/-- The key rows of an account are equal, and hold the public key of their private key. -/
structure KeysAgree (s : Storage) : Prop where
  same : ∀ k ∈ Table.columns s.keypairs, ∀ k' ∈ Table.columns s.keypairs,
    k.accountId = k'.accountId → k = k'
  derived : ∀ k ∈ Table.columns s.keypairs,
    derivePublicKey k.notePrivateKey.val = .ok k.notePublicKey.val

section Reads

variable {xdr : Xdr} {box : NoteBox} {chain : List ContractEvent} {s : Storage}

/-- The account row of an address, and the key row that is read for it. -/
theorem getUserKeys_some {address : String} {keys : StoredUserKeys}
    (h : getUserKeys s address = some keys) :
    ∃ k ∈ Table.columns s.keypairs, (∃ a ∈ s.accounts, a.rowid = k.accountId ∧
        a.columns = address) ∧
      keys = ⟨⟨k.notePrivateKey, k.notePublicKey⟩,
        ⟨k.encryptionPrivateKey, k.encryptionPublicKey⟩, k.membershipBlinding⟩ := by
  obtain ⟨r, hr, rfl⟩ := Option.map_eq_some_iff.mp h
  obtain ⟨hmem, haccount⟩ := List.mem_filter.mp (Table.latest_mem hr)
  obtain ⟨a, ha, hrow⟩ := List.any_eq_true.mp haccount
  exact ⟨r.columns, Table.mem_columns hmem, ⟨a, ha, by simpa using hrow⟩, rfl⟩

theorem eventAddress?_some {id address : String} (h : s.eventAddress? id = some address) :
    ∃ p, s.eventContract? id = some p ∧ s.contractAddress? p = some address := by
  unfold Storage.eventAddress? at h
  cases hraw : s.rawEvent? id with
  | none =>
      rw [hraw] at h
      cases h
  | some raw =>
      rw [hraw] at h
      exact ⟨raw.contractId, by rw [Storage.eventContract?, hraw]; rfl, h⟩

/-! ## Notes -/

/-- The row of a note that is read for a commitment. -/
theorem getUnspent_some {pool user : String} {commitment : Fr} {amount : NoteAmount}
    {blinding : Fr} {index : UInt32}
    (h : getUnspentUserNoteByCommitment s pool user commitment =
      .ok (some (amount, blinding, index))) :
    ∃ note ∈ Table.columns s.userNotes, ∃ pc ∈ s.poolCommitments,
      pc.rowid = note.commitmentId ∧
      (∃ a ∈ s.accounts, a.rowid = note.accountId ∧ a.columns = user) ∧
      s.eventAddress? pc.columns.id = some pool ∧ pc.columns.commitment = commitment ∧
      note.nullifierId = none ∧ parseU128 note.amount = some amount ∧ note.blinding = blinding ∧
      pc.columns.index = index := by
  unfold getUnspentUserNoteByCommitment at h
  cases hhead : (s.unspentNotes pool user commitment).head? with
  | none =>
      rw [hhead] at h
      cases h
  | some found =>
      obtain ⟨note, event⟩ := found
      rw [hhead] at h
      dsimp only at h
      cases hamount : parseU128 note.amount with
      | none =>
          rw [hamount] at h
          cases h
      | some value =>
          rw [hamount] at h
          cases h
          obtain ⟨n, hn, hrow⟩ := List.mem_flatMap.mp (List.mem_of_mem_head? hhead)
          obtain ⟨pc, hpc, heq⟩ := List.mem_map.mp hrow
          cases heq
          obtain ⟨hmem, hwhere⟩ := List.mem_filter.mp hpc
          obtain ⟨hid, haccount, haddress, hcommitment, hnone⟩ : pc.rowid = note.commitmentId ∧
              (s.accounts.any fun a => a.rowid = note.accountId ∧ a.columns = user) = true ∧
              s.eventAddress? pc.columns.id = some pool ∧ pc.columns.commitment = commitment ∧
              note.nullifierId = none := of_decide_eq_true hwhere
          obtain ⟨a, ha, hcolumns⟩ := List.any_eq_true.mp haccount
          exact ⟨note, hn, pc, hmem, hid, ⟨a, ha, of_decide_eq_true hcolumns⟩, haddress,
            hcommitment, hnone, hamount, rfl, rfl⟩

/-- No nullifier of the pool that was reconciled is this one. -/
def Storage.NotReconciled (s : Storage) (pool : String) (nullifier : Fr) : Prop :=
  ∀ p, s.contractAddress? p = some pool → ∀ n ∈ s.poolNullifiers,
    s.eventContract? n.columns.id = some p → n.rowid ≤ s.nullifierMark p →
      n.columns.nullifier ≠ nullifier

/-- A note that is read back opens its commitment under the user's keys, and is not spent as
far as the nullifiers were reconciled. -/
theorem unspent_sound (hs : ClientOk xdr box chain s) (hagree : KeysAgree s) {pool user : String}
    {keys : StoredUserKeys} (hkeys : getUserKeys s user = some keys) {commitment : Fr}
    {amount : NoteAmount} {blinding : Fr} {index : UInt32}
    (h : getUnspentUserNoteByCommitment s pool user commitment =
      .ok (some (amount, blinding, index))) :
    Prover.noteCommitment amount keys.noteKeypair.publicKey blinding = commitment ∧
      (∃ row ∈ Table.columns s.poolCommitments, s.eventAddress? row.id = some pool ∧
        row.commitment = commitment ∧ row.index = index) ∧
      s.NotReconciled pool
        (Prover.noteNullifier keys.noteKeypair.privateKey commitment (indexFr index)) := by
  have hspent := SpentOk.writes hs.writes
  have hsourced := Sourced.writes hs.writes
  obtain ⟨note, hnote, pc, hpc, hid, ⟨a, ha, haid, rfl⟩, haddress, rfl, hnone, hamount, rfl, rfl⟩ :=
    getUnspent_some h
  obtain ⟨k, hk, ⟨a', ha', ha'id, hcolumns⟩, rfl⟩ := getUserKeys_some hkeys
  obtain ⟨k', hk', hk'id, pc', hpc', hid', derived, hderive, hnullifier, hblinding, htext⟩ :=
    hsourced.notes note hnote
  -- the account and the commitment of the note are those that were asked for
  obtain rfl : a' = a := eq_of_columns hsourced.accounts ha' ha hcolumns
  obtain rfl : k' = k := hagree.same k' hk' k hk (by rw [hk'id, ← haid, ha'id])
  obtain rfl : pc' = pc :=
    eq_of_rowid hspent.commitments.ordered hpc' hpc (hid'.trans hid.symm)
  obtain ⟨hopens, hexpected⟩ := deriveUserNote_some hderive
  have hsame : derived.amount = amount := by
    rw [htext, parseU128_toString] at hamount
    exact Option.some.inj hamount
  refine ⟨?_, ⟨pc'.columns, Table.mem_columns hpc', haddress, rfl, rfl⟩, ?_⟩
  · rw [← hsame, hblinding]
    exact hopens
  · intro p hp n hn hcontract hmark hvalue
    obtain ⟨q, hq, hqaddress⟩ := eventAddress?_some haddress
    obtain rfl := contractAddress?_inj hsourced.contracts hp hqaddress
    refine hspent.notes.unspent note hnote hnone p ⟨pc', hpc', hid, hq⟩ n hn hcontract ?_ hmark
    rw [hvalue, hnullifier, hexpected]
    rfl

/-! ## Leaves -/

/-- The trees on chain: every event that a pool or an association set has emitted gives the
leaf its place in the tree, and an event of the association set gives the root up to there. -/
structure ChainTrees (xdr : Xdr) (chain : List ContractEvent) (pool asp : String) (depth : Nat)
    (poolLeaves aspLeaves : List Fr) : Prop where
  commitments : ∀ e ∈ chain, e.contractId = pool → ∀ ev,
    parseEvent xdr e.asRead = .ok (.commitment ev) →
      poolLeaves[ev.index.toNat]? = some ev.commitment
  members : ∀ e ∈ chain, e.contractId = asp → ∀ ev,
    parseEvent xdr e.asRead = .ok (.leafAdded ev) →
      aspLeaves[ev.index.toNat]? = some ev.leaf ∧
        ev.root = treeRoot depth (aspLeaves.take (ev.index.toNat + 1))
  poolFits : poolLeaves.length ≤ 2 ^ depth
  aspFits : aspLeaves.length ≤ 2 ^ depth

/-- A derived row of a contract was parsed from an event of the chain. -/
theorem ClientOk.source (hs : ClientOk xdr box chain s) {ε κ : Type} {K : EventKind ε κ}
    (hK : K.Tracks xdr s) {row : ε} (hrow : row ∈ Table.columns (K.rows s)) {contract : String}
    (haddress : s.eventAddress? (K.eventId row) = some contract) :
    ∃ e ∈ chain, e.contractId = contract ∧ ∃ p, parseEvent xdr e.asRead = .ok p ∧
      K.select p = some row := by
  obtain ⟨e, he, hparse⟩ := hK.sources row hrow
  obtain ⟨e', he', rfl⟩ := List.mem_map.mp (hs.stored he)
  have hread := hs.pipeline.linked.eventAddress?_of_mem he
  rw [← EventKind.eventId_of_parse hparse, haddress] at hread
  exact ⟨e', he', (Option.some.inj hread).symm, EventKind.parse_eq_some.mp hparse⟩

/-- What a collection without a gap says: row `i` has index `i`. -/
theorem collected_index {rows : List NewCommitmentEvent} {leaves : List Fr}
    (h : collectLeaves rows 0 [] = .ok leaves) :
    leaves = rows.map NewCommitmentEvent.commitment ∧
      ∀ i (hi : i < rows.length), rows[i].index.toNat = i := by
  obtain ⟨hindices, -, hleaves⟩ := collectLeaves_ok.mp h
  refine ⟨hleaves, fun i hi => ?_⟩
  have hget := congrArg (·[i]?) hindices
  simpa [hi] using hget

/-- A collected leaf is at its index. -/
theorem collected_getElem? {rows : List NewCommitmentEvent} {leaves : List Fr}
    (h : collectLeaves rows 0 [] = .ok leaves) {row : NewCommitmentEvent} (hrow : row ∈ rows) :
    leaves[row.index.toNat]? = some row.commitment := by
  obtain ⟨rfl, hindex⟩ := collected_index h
  obtain ⟨i, hi, rfl⟩ := List.mem_iff_getElem.mp hrow
  rw [hindex i hi]
  simp [hi]

/-- Leaves that were collected are the first of the tree. -/
theorem collected_initial {rows : List NewCommitmentEvent} {leaves all : List Fr}
    (h : collectLeaves rows 0 [] = .ok leaves)
    (hall : ∀ row ∈ rows, all[row.index.toNat]? = some row.commitment) : leaves <+: all := by
  obtain ⟨rfl, hindex⟩ := collected_index h
  refine List.prefix_iff_getElem?.mpr fun i hi => ?_
  rw [List.length_map] at hi
  have hget := hall _ (List.getElem_mem hi)
  rw [hindex i hi] at hget
  rw [hget, List.getElem_map]

/-- The loop over the membership leaves is the loop over commitments, up to its texts. -/
theorem collectIndexed_ok {table : String} {rows : List (UInt32 × Fr)} {expectedIndex : UInt32}
    {leaves out : List Fr} (h : collectIndexed table rows expectedIndex leaves = .ok out) :
    collectLeaves (rows.map fun r => ⟨"", r.2, r.1, []⟩) expectedIndex leaves = .ok out := by
  induction rows generalizing expectedIndex leaves with
  | nil => exact h
  | cons row rows ih =>
      unfold collectIndexed at h
      rw [List.map_cons, collectLeaves]
      by_cases hindex : row.1 ≠ expectedIndex
      · rw [if_pos hindex] at h
        cases h
      · rw [if_neg hindex] at h ⊢
        cases hnext : checkedAdd expectedIndex 1 with
        | none =>
            rw [hnext] at h
            cases h
        | some next =>
            rw [hnext] at h
            exact ih h

variable {pool asp : String} {depth : Nat} {poolLeaves aspLeaves leaves : List Fr}

/-- The leaves that are read for a pool are the first of its tree, each at the index of its
row. -/
theorem poolLeaves_sound (hs : ClientOk xdr box chain s)
    (hchain : ChainTrees xdr chain pool asp depth poolLeaves aspLeaves)
    (h : getPoolCommitmentLeavesOrdered s pool = .ok leaves) :
    leaves <+: poolLeaves ∧
      ∀ row ∈ Table.columns s.poolCommitments, s.eventAddress? row.id = some pool →
        leaves[row.index.toNat]? = some row.commitment := by
  refine ⟨collected_initial h fun row hrow => ?_, fun row hrow haddress => ?_⟩
  · obtain ⟨hmem, haddress⟩ := List.mem_filter.mp (Table.orderBy_perm.mem_iff.mp hrow)
    obtain ⟨e, he, hcontract, p, hparse, hselect⟩ :=
      hs.source hs.pipeline.commitments hmem (of_decide_eq_true haddress)
    cases p <;> cases hselect
    exact hchain.commitments e he hcontract row hparse
  · exact collected_getElem? h
      (Table.orderBy_perm.mem_iff.mpr (List.mem_filter.mpr ⟨hrow, by simpa using haddress⟩))

theorem mem_aspLeaves (hs : ClientOk xdr box chain s)
    (hchain : ChainTrees xdr chain pool asp depth poolLeaves aspLeaves) {l : LeafAddedEvent}
    (hl : l ∈ s.aspLeaves asp) : aspLeaves[l.index.toNat]? = some l.leaf ∧
      l.root = treeRoot depth (aspLeaves.take (l.index.toNat + 1)) := by
  obtain ⟨hmem, haddress⟩ := List.mem_filter.mp (Table.orderBy_perm.mem_iff.mp hl)
  obtain ⟨e, he, hcontract, p, hparse, hselect⟩ :=
    hs.source hs.pipeline.leaves hmem (of_decide_eq_true haddress)
  cases p <;> cases hselect
  exact hchain.members e he hcontract l hparse

/-- The leaves that are read for the association set are the first of its tree, each at the
index of its row, and the last row has their root. -/
theorem aspLeaves_sound (hs : ClientOk xdr box chain s)
    (hchain : ChainTrees xdr chain pool asp depth poolLeaves aspLeaves)
    (h : getAllAspMembershipLeavesOrdered s asp = .ok leaves) :
    leaves <+: aspLeaves ∧
      (∀ l ∈ s.aspLeaves asp, leaves[l.index.toNat]? = some l.leaf) ∧
      ∀ l, (s.aspLeaves asp).getLast? = some l → l.root = treeRoot depth leaves := by
  have hcollect := collectIndexed_ok h
  rw [List.map_map] at hcollect
  have hinitial : leaves <+: aspLeaves := by
    refine collected_initial hcollect fun row hrow => ?_
    obtain ⟨l, hl, rfl⟩ := List.mem_map.mp hrow
    exact (mem_aspLeaves hs hchain hl).1
  refine ⟨hinitial, fun l hl => collected_getElem? hcollect (List.mem_map_of_mem hl), ?_⟩
  intro l hlast
  obtain ⟨hleaves, hindex⟩ := collected_index hcollect
  -- the last row is the one before the end
  obtain ⟨hne, hl⟩ : ∃ hne : s.aspLeaves asp ≠ [], (s.aspLeaves asp).getLast hne = l := by
    cases hrows : s.aspLeaves asp with
    | nil =>
        rw [hrows] at hlast
        cases hlast
    | cons x rows =>
        rw [hrows, List.getLast?_eq_getLast_of_ne_nil (by simp)] at hlast
        exact ⟨by simp, Option.some.inj hlast⟩
  have hpos : 0 < (s.aspLeaves asp).length := List.length_pos_of_ne_nil hne
  have hlength : leaves.length = (s.aspLeaves asp).length := by simp [hleaves]
  have hlastIndex : l.index.toNat + 1 = leaves.length := by
    have hget := hindex ((s.aspLeaves asp).length - 1) (by simpa using hpos)
    rw [List.getElem_map, ← List.getLast_eq_getElem hne, hl] at hget
    have hvalue : l.index.toNat = (s.aspLeaves asp).length - 1 := hget
    omega
  rw [(mem_aspLeaves hs hchain (List.mem_of_getLast? hlast)).2, hlastIndex,
    ← List.prefix_iff_eq_take.mp hinitial]

end Reads

end PrivatePayments.State
