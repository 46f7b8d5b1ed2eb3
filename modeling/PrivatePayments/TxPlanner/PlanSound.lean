import PrivatePayments.TxPlanner.CombinationSound

/-!
# PrivatePayments.TxPlanner.PlanSound

What a plan that succeeds consists of (`plan_ok`): notes of the wallet that cover the amount
(`Selected`), and the steps that merge them.
-/

namespace PrivatePayments.TxPlanner

open Prover (checkedAdd checkedAdd_some exists_of_bind_ok)
open TopSums

/-- The amount of a note. -/
abbrev noteAmount (note : SpendableNote) : Nat := note.amount.val

/-! ## From entries to notes -/

/-- The entry of a note of the wallet. -/
def toEntry (notes : List SpendableNote) (note : SpendableNote) : Entry :=
  (notes.idxOf note, note.amount)

theorem mem_enumerate {values : List NoteAmount} {e : Entry} :
    e ∈ enumerate values ↔ values[e.1]? = some e.2 := by
  rw [enumerate, List.mem_map]
  constructor
  · rintro ⟨⟨x, i⟩, hmem, rfl⟩
    exact List.mk_mem_zipIdx_iff_getElem?.mp hmem
  · intro h
    exact ⟨(e.2, e.1), List.mk_mem_zipIdx_iff_getElem?.mpr h, rfl⟩

theorem toEntry_mem {notes : List SpendableNote} {note : SpendableNote} (h : note ∈ notes) :
    toEntry notes note ∈ enumerate (notes.map (·.amount)) := by
  have hlt := List.idxOf_lt_length_of_mem h
  rw [mem_enumerate, toEntry, List.getElem?_map, List.getElem?_eq_getElem hlt,
    List.getElem_idxOf hlt]
  rfl

theorem toEntry_inj {notes : List SpendableNote} {a b : SpendableNote} (ha : a ∈ notes)
    (h : toEntry notes a = toEntry notes b) : a = b :=
  (List.idxOf_inj ha).mp (congrArg Prod.fst h)

theorem weight_toEntry (notes sel : List SpendableNote) :
    weight amountOf (sel.map (toEntry notes)) = weight noteAmount sel := by
  simp only [weight, List.map_map]
  rfl

/-- The notes that the indices of entries name. -/
theorem mapM_noteAt {notes : List SpendableNote} (hnodup : notes.Nodup) :
    ∀ {sel : List Entry} {selected : List SpendableNote},
      sel ⊆ enumerate (notes.map (·.amount)) →
      (sel.map Prod.fst).mapM (noteAt notes) = .ok selected →
      selected ⊆ notes ∧ selected.map (toEntry notes) = sel
  | [], _, _, h => by
      cases h
      exact ⟨List.nil_subset _, rfl⟩
  | e :: sel, _, hsub, h => by
      rw [List.map_cons, List.mapM_cons] at h
      obtain ⟨note, hnote, h⟩ := exists_of_bind_ok h
      obtain ⟨rest, hrest, h⟩ := exists_of_bind_ok h
      cases h
      obtain ⟨he, hsub⟩ := List.cons_subset.mp hsub
      obtain ⟨hmem, hmap⟩ := mapM_noteAt hnodup hsub hrest
      have hget : notes[e.1]? = some note := by
        rw [noteAt] at hnote
        cases hat : notes[e.1]? with
        | none =>
            rw [hat] at hnote
            cases hnote
        | some found =>
            rw [hat] at hnote
            cases hnote
            rfl
      obtain ⟨hlt, rfl⟩ := List.getElem?_eq_some_iff.mp hget
      have hamount : notes[e.1].amount = e.2 := by
        rw [mem_enumerate, List.getElem?_map, hget] at he
        exact Option.some.inj he
      have hentry : toEntry notes notes[e.1] = e := by
        rw [toEntry, hnodup.idxOf_getElem e.1 hlt, hamount]
      exact ⟨List.cons_subset.mpr ⟨List.getElem_mem hlt, hmem⟩, by rw [List.map_cons, hentry, hmap]⟩

/-- A selection of entries is a selection of the notes they name. -/
theorem Selected.ofEntries {notes selected : List SpendableNote} {sel : List Entry}
    {goal excess : Nat} (hmem : selected ⊆ notes) (hmap : selected.map (toEntry notes) = sel)
    (h : Selected amountOf (enumerate (notes.map (·.amount))) goal excess sel) :
    Selected noteAmount notes goal excess selected where
  subset := hmem
  nodup := by
    have hsel := h.nodup
    rw [← hmap] at hsel
    exact hsel.of_map
  nonempty := by
    rintro rfl
    exact h.nonempty hmap.symm
  covers := by rw [← weight_toEntry notes, hmap, h.covers]
  descending hlen := by
    rw [← List.length_map (toEntry notes), hmap] at hlen
    have hdesc := h.descending hlen
    rw [← hmap] at hdesc
    exact List.pairwise_map.mp hdesc
  shortest hlen m hm hsub hless := by
    rw [← List.length_map (toEntry notes), hmap] at hlen
    rw [← weight_toEntry notes]
    refine h.shortest hlen (m.map (toEntry notes)) ?_ ?_ ?_
    · exact hm.map_on fun a ha b _ heq => toEntry_inj (hsub ha) heq
    · intro e he
      obtain ⟨note, hnote, rfl⟩ := List.mem_map.mp he
      exact toEntry_mem (hsub hnote)
    · rwa [List.length_map, ← hmap, List.length_map]

/-! ## The plan -/

theorem length_setLastAction (action : StepAction) :
    ∀ steps : List PlannedStep, (setLastAction action steps).length = steps.length
  | [] => rfl
  | [_] => rfl
  | _ :: next :: rest => congrArg Nat.succ (length_setLastAction action (next :: rest))

theorem setLastAction_last (action : StepAction) : ∀ {steps : List PlannedStep}, steps ≠ [] →
    ∃ step, (setLastAction action steps).getLast? = some step ∧ step.action = action
  | [], hne => absurd rfl hne
  | [_], _ => ⟨_, rfl, rfl⟩
  | step :: next :: rest, _ => by
      obtain ⟨last, hlast, haction⟩ := setLastAction_last action (show next :: rest ≠ [] from nofun)
      refine ⟨last, ?_, haction⟩
      cases rest with
      | nil => exact hlast
      | cons after rest => exact hlast

/-- What a call of `plan` that succeeds has gone through. -/
theorem plan_inv {sort : UnstableSort} {amount : NoteAmount} {notes : List SpendableNote}
    {txPlan : TransactionPlan} (h : plan sort amount notes = .ok txPlan) :
    ∃ combo indices change selected,
      findCombination sort (notes.map (·.amount)) amount = .ok combo ∧
      combo.picks = .ok (indices, change) ∧ indices.length ≤ transactionLimit ∧
      indices.mapM (noteAt notes) = .ok selected ∧
      planSteps amount change selected = .ok txPlan.steps := by
  rw [plan] at h
  split at h
  · cases h
  obtain ⟨combo, hcombo, h⟩ := exists_of_bind_ok h
  obtain ⟨⟨indices, change⟩, hpicks, h⟩ := exists_of_bind_ok h
  dsimp only at h
  split at h
  · cases h
  case _ hlimit =>
    obtain ⟨selected, hselected, h⟩ := exists_of_bind_ok h
    obtain ⟨steps, hsteps, h⟩ := exists_of_bind_ok h
    have hassembled : txPlan.steps = steps := by
      rw [TransactionPlan.assemble] at h
      split at h
      · cases h
        rfl
      · cases h
    exact ⟨combo, indices, change, selected, hcombo, hpicks, Nat.not_lt.mp hlimit, hselected,
      by rw [hassembled, hsteps]⟩

/-- **The plan.** A plan that is made merges notes that cover the amount. -/
theorem plan_ok {sort : UnstableSort} {amount : NoteAmount} {notes : List SpendableNote}
    {txPlan : TransactionPlan} (hnodup : notes.Nodup) (h : plan sort amount notes = .ok txPlan) :
    ∃ change selected, Selected noteAmount notes amount.val (excessOf change) selected ∧
      planSteps amount change selected = .ok txPlan.steps := by
  obtain ⟨combo, indices, change, selected, hcombo, hpicks, -, hselected, hsteps⟩ := plan_inv h
  obtain ⟨sel, hsel, hindices⟩ := findCombination_picks hcombo hpicks
  rw [← hindices] at hselected
  obtain ⟨hmem, hmap⟩ := mapM_noteAt hnodup hsel.subset hselected
  exact ⟨change, selected, hsel.ofEntries hmem hmap, hsteps⟩

end PrivatePayments.TxPlanner
