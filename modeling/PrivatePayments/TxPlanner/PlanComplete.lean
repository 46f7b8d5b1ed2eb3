import PrivatePayments.TxPlanner.CombinationComplete
import PrivatePayments.TxPlanner.PlanSound

/-!
# PrivatePayments.TxPlanner.PlanComplete

When `plan` makes a plan, and which notes it selects (`plan_complete`).

Equal notes may stand at several places of the wallet, so a selection is a list of indices: the
statements weigh indices by `amountAt`.
-/

namespace PrivatePayments.TxPlanner

open Prover (checkedAdd checkedAdd_some exists_of_bind_ok)
open TopSums

/-! ## Indices -/

/-- The amount of the note at an index. -/
def amountAt (notes : List SpendableNote) (i : Nat) : Nat := (notes[i]?.map noteAmount).getD 0

/-- The indices of the notes, the largest notes first. -/
def byAmount (notes : List SpendableNote) : List Nat :=
  (List.range notes.length).insertionSort fun i j => amountAt notes j ≤ amountAt notes i

/-- The sum of the `n` largest notes. -/
def largest (n : Nat) (notes : List SpendableNote) : Nat :=
  weight (amountAt notes) ((byAmount notes).take n)

/-- The sum of all notes. -/
def total (notes : List SpendableNote) : Nat := weight noteAmount notes

section Indices

variable {notes : List SpendableNote}

theorem byAmount_perm : (byAmount notes).Perm (List.range notes.length) :=
  List.perm_insertionSort _ _

theorem byAmount_descending : Descending (amountAt notes) (byAmount notes) := by
  have htotal : Std.Total fun i j => amountAt notes j ≤ amountAt notes i :=
    ⟨fun i j => le_total (amountAt notes j) (amountAt notes i)⟩
  have htrans : IsTrans Nat fun i j => amountAt notes j ≤ amountAt notes i :=
    ⟨fun _ _ _ hab hbc => hbc.trans hab⟩
  exact List.pairwise_insertionSort _ _

/-- No selection of `n` notes or fewer weighs more than the largest. -/
theorem weight_le_largest {n : Nat} {m : List Nat} (hm : m.Nodup)
    (hsub : m ⊆ List.range notes.length) (hlen : m.length ≤ n) :
    weight (amountAt notes) m ≤ largest n notes :=
  (weight_le_take byAmount_descending hm
    (List.Subset.trans hsub byAmount_perm.symm.subset)).trans (weight_take_mono hlen)

theorem weight_range : weight (amountAt notes) (List.range notes.length) = total notes := by
  have hmap : (List.range notes.length).map (amountAt notes) = notes.map noteAmount := by
    apply List.ext_getElem
    · simp
    · intro i hi _
      simp only [List.length_map, List.length_range] at hi
      simp [amountAt, hi]
  rw [weight, hmap, total, weight]

theorem mem_entries {e : Entry} (he : e ∈ enumerate (notes.map (·.amount))) :
    e.1 < notes.length ∧ amountAt notes e.1 = amountOf e := by
  rw [mem_enumerate, List.getElem?_map] at he
  obtain ⟨note, hnote, hamount⟩ := Option.map_eq_some_iff.mp he
  refine ⟨(List.getElem?_eq_some_iff.mp hnote).1, ?_⟩
  simp [amountAt, hnote, noteAmount, amountOf, hamount]

theorem entry_mem {i : Nat} (hi : i < notes.length) :
    (i, (notes[i].amount)) ∈ enumerate (notes.map (·.amount)) := by
  rw [mem_enumerate, List.getElem?_map, List.getElem?_eq_getElem hi]
  rfl

theorem weight_fst {entries : List Entry}
    (hsub : entries ⊆ enumerate (notes.map (·.amount))) :
    weight (amountAt notes) (entries.map Prod.fst) = weight amountOf entries := by
  rw [weight, weight, List.map_map]
  exact congrArg List.sum (List.map_congr_left fun e he => (mem_entries (hsub he)).2)

theorem total_eq : weight amountOf (enumerate (notes.map (·.amount))) = total notes := by
  have hfst : (enumerate (notes.map (·.amount))).map Prod.fst = List.range notes.length := by
    rw [enumerate, List.map_map]
    show (notes.map _).zipIdx.map Prod.snd = _
    rw [List.zipIdx_map_snd, List.length_map, List.range_eq_range']
  rw [← weight_range, ← hfst, weight_fst (List.Subset.refl _)]

/-- Every list of indices belongs to a list of entries. -/
theorem exists_entries {m : List Nat} (hsub : m ⊆ List.range notes.length) :
    ∃ entries, entries ⊆ enumerate (notes.map (·.amount)) ∧ entries.map Prod.fst = m := by
  induction m with
  | nil => exact ⟨[], List.nil_subset _, rfl⟩
  | cons i m ih =>
      obtain ⟨hi, hsub⟩ := List.cons_subset.mp hsub
      obtain ⟨entries, hentries, rfl⟩ := ih hsub
      exact ⟨(i, _) :: entries, List.cons_subset.mpr ⟨entry_mem (List.mem_range.mp hi), hentries⟩,
        rfl⟩

/-- A selection of entries is a selection of indices. -/
theorem Selected.indices {entries : List Entry} {goal excess : Nat}
    (h : Selected amountOf (enumerate (notes.map (·.amount))) goal excess entries) :
    Selected (amountAt notes) (List.range notes.length) goal excess (entries.map Prod.fst) where
  subset := by
    intro i hi
    obtain ⟨e, he, rfl⟩ := List.mem_map.mp hi
    exact List.mem_range.mpr (mem_entries (h.subset he)).1
  nodup := h.nodup.map_on fun _ ha _ hb heq =>
    List.inj_on_of_nodup_map (nodup_enumerate _) (h.subset ha) (h.subset hb) heq
  nonempty := fun hnil => h.nonempty (List.map_eq_nil_iff.mp hnil)
  covers := by rw [weight_fst h.subset, h.covers]
  descending hlen := by
    rw [List.length_map] at hlen
    refine List.pairwise_map.mpr ((h.descending hlen).imp_of_mem ?_)
    intro a b ha hb hab
    rw [(mem_entries (h.subset ha)).2, (mem_entries (h.subset hb)).2]
    exact hab
  shortest hlen m hm hsub hless := by
    rw [List.length_map] at hlen hless
    obtain ⟨few, hfew, rfl⟩ := exists_entries hsub
    rw [weight_fst hfew]
    exact h.shortest hlen few hm.of_map hfew (by rwa [List.length_map] at hless)

end Indices

/-! ## The selection of a plan -/

/-- The indices and the change that `plan` goes on with. -/
def Selects (sort : UnstableSort) (amount : NoteAmount) (notes : List SpendableNote)
    (indices : List Nat) (change : Option NoteAmount) : Prop :=
  ∃ combo, findCombination sort (notes.map (·.amount)) amount = .ok combo ∧
    combo.picks = .ok (indices, change)

section Plan

variable {sort : UnstableSort} {amount : NoteAmount} {notes selected : List SpendableNote}
  {indices : List Nat} {change : Option NoteAmount} {txPlan : TransactionPlan}

theorem Selects.selection (h : Selects sort amount notes indices change) :
    Selected (amountAt notes) (List.range notes.length) amount.val (excessOf change) indices := by
  obtain ⟨combo, hcombo, hpicks⟩ := h
  obtain ⟨entries, hentries, rfl⟩ := findCombination_picks hcombo hpicks
  exact hentries.indices

theorem noteAt_ok {i : Nat} {note : SpendableNote} :
    noteAt notes i = .ok note ↔ notes[i]? = some note := by
  rw [noteAt]
  cases notes[i]? with
  | none => simp [okOr]
  | some found => simp [okOr]

theorem mapM_noteAt_iff :
    ∀ {indices : List Nat} {selected : List SpendableNote},
      indices.mapM (noteAt notes) = .ok selected ↔ indices.map (notes[·]?) = selected.map some
  | [], selected => by
      cases selected with
      | nil => simp [pure, Except.pure]
      | cons _ _ => simp [pure, Except.pure]
  | i :: indices, selected => by
      rw [List.mapM_cons]
      constructor
      · intro h
        obtain ⟨note, hnote, h⟩ := exists_of_bind_ok h
        obtain ⟨rest, hrest, h⟩ := exists_of_bind_ok h
        cases h
        rw [List.map_cons, List.map_cons, noteAt_ok.mp hnote, mapM_noteAt_iff.mp hrest]
      · intro h
        cases selected with
        | nil => cases h
        | cons note rest =>
            obtain ⟨hnote, hrest⟩ := List.cons.inj h
            simp only [noteAt_ok.mpr hnote, mapM_noteAt_iff.mpr hrest]
            rfl

theorem exists_notes : ∀ {indices : List Nat}, (∀ i ∈ indices, i < notes.length) →
    ∃ selected : List SpendableNote, indices.map (notes[·]?) = selected.map some
  | [], _ => ⟨[], rfl⟩
  | i :: indices, h => by
      obtain ⟨hi, hrest⟩ := List.forall_mem_cons.mp h
      obtain ⟨selected, hselected⟩ := exists_notes hrest
      exact ⟨notes[i] :: selected, by
        rw [List.map_cons, List.map_cons, hselected, List.getElem?_eq_getElem hi]⟩

/-- What the chosen indices weigh is what their notes weigh. -/
theorem weight_of_indices (h : indices.map (notes[·]?) = selected.map some) :
    weight (amountAt notes) indices = weight noteAmount selected := by
  have hmap : indices.map (amountAt notes) =
      (indices.map (notes[·]?)).map fun note => (note.map noteAmount).getD 0 := by
    rw [List.map_map]
    rfl
  rw [weight, hmap, h, List.map_map, weight]
  rfl

/-- The steps of a plan, read off its computation. -/
theorem plan_ok_selects (h : plan sort amount notes = .ok txPlan) :
    ∃ indices change selected, Selects sort amount notes indices change ∧
      indices.length ≤ transactionLimit ∧ indices.map (notes[·]?) = selected.map some ∧
      planSteps amount change selected = .ok txPlan.steps := by
  obtain ⟨combo, indices, change, selected, hcombo, hpicks, hlimit, hselected, hsteps⟩ :=
    plan_inv h
  exact ⟨indices, change, selected, ⟨combo, hcombo, hpicks⟩, hlimit,
    mapM_noteAt_iff.mp hselected, hsteps⟩

/-! ## When there is a plan -/

theorem mergeSteps_isOk : ∀ (rest : List SpendableNote) (sum : NoteAmount) (prev : StepNote),
    sum.val + weight noteAmount rest < u128Size →
      ∃ steps, mergeSteps sum prev rest = .ok steps ∧ steps.length = rest.length
  | [], _, _, _ => ⟨[], rfl, rfl⟩
  | note :: rest, sum, prev, hfits => by
      rw [weight_cons, ← Nat.add_assoc] at hfits
      obtain ⟨nextSum, hadd, hval⟩ := checkedAdd_of_lt
        (show sum.val + note.amount.val < u128Size from (Nat.le_add_right _ _).trans_lt hfits)
      rw [← hval] at hfits
      obtain ⟨steps, hsteps, hlen⟩ := mergeSteps_isOk rest nextSum (.fromAmount nextSum) hfits
      rw [mergeSteps]
      simp only [hadd, okOr, hsteps, bind, Except.bind]
      exact ⟨_, rfl, by simp [hlen]⟩

theorem planSteps_isOk (amount : NoteAmount) (change : Option NoteAmount) (hne : selected ≠ [])
    (hfits : weight noteAmount selected < u128Size) :
    ∃ steps, planSteps amount change selected = .ok steps ∧ endsFinal steps = true := by
  match selected with
  | [] => exact absurd rfl hne
  | [note] => exact ⟨_, rfl, rfl⟩
  | note0 :: note1 :: rest =>
      obtain ⟨steps, hsteps, hlen⟩ := mergeSteps_isOk (note1 :: rest) note0.amount
        (.fromSpendable note0) hfits
      have hnonempty : steps ≠ [] := by
        rintro rfl
        cases hlen
      obtain ⟨last, hlast, haction⟩ := setLastAction_last (.final (amount, change)) hnonempty
      refine ⟨setLastAction (.final (amount, change)) steps, ?_, ?_⟩
      · rw [planSteps, hsteps]
        rfl
      · rw [endsFinal, hlast]
        cases last
        cases haction
        rfl

/-- A wallet that adds up to a `u128`: `plan` gives up exactly when the total stays below the
amount; otherwise it makes a selection, and plans it when it is short enough. -/
theorem plan_outcome (hne : notes ≠ []) (hfits : total notes < u128Size) :
    (plan sort amount notes = .error .noCombination ∧ total notes < amount.val) ∨
    ∃ indices change, Selects sort amount notes indices change ∧
      (change = some 0 → transactionLimit < indices.length) ∧
      (transactionLimit < indices.length ∧
        plan sort amount notes = .error (.tooManyNotes indices.length transactionLimit) ∨
      indices.length ≤ transactionLimit ∧ ∃ txPlan, plan sort amount notes = .ok txPlan) := by
  obtain ⟨combo, hcombo, hanswers⟩ := @findCombination_outcome sort (notes.map (·.amount)) amount
    (fun h => hne (List.map_eq_nil_iff.mp h)) (by rw [total_eq]; exact hfits)
  rw [plan, if_neg hne]
  simp only [hcombo, bind, Except.bind]
  cases hpicks : combo.picks with
  | error e =>
      have himpossible : combo = .impossible := by
        cases combo <;> first | rfl | cases hpicks
      cases himpossible
      cases hpicks
      exact .inl ⟨rfl, total_eq ▸ hanswers.impossible rfl⟩
  | ok picked =>
      obtain ⟨indices, change⟩ := picked
      have hselects : Selects sort amount notes indices change := ⟨combo, hcombo, hpicks⟩
      have hselection := hselects.selection
      refine .inr ⟨indices, change, hselects, ?_, ?_⟩
      · rintro rfl
        exact hanswers.change indices hpicks
      by_cases hlimit : transactionLimit < indices.length
      · exact .inl ⟨hlimit, if_pos hlimit⟩
      · have hinRange : ∀ i ∈ indices, i < notes.length := fun i hi =>
          List.mem_range.mp (hselection.subset hi)
        obtain ⟨selected, hselected⟩ : ∃ selected : List SpendableNote,
            indices.map (notes[·]?) = selected.map some := exists_notes hinRange
        have hweight := weight_of_indices hselected
        have hle : weight (amountAt notes) indices ≤ total notes := by
          rw [← weight_range]
          exact weight_le_of_subset hselection.nodup hselection.subset
        have hnonempty : selected ≠ [] := by
          rintro rfl
          exact hselection.nonempty (List.map_eq_nil_iff.mp hselected)
        obtain ⟨steps, hsteps, hfinal⟩ := planSteps_isOk amount change hnonempty (by omega)
        refine .inr ⟨by omega, ⟨steps, hfinal⟩, (if_neg hlimit).trans ?_⟩
        simp only [mapM_noteAt_iff.mpr hselected, hsteps, TransactionPlan.assemble, hfinal]
        rfl

theorem largest_le_total (n : Nat) (notes : List SpendableNote) :
    largest n notes ≤ total notes := by
  have hsub : (byAmount notes).take n ⊆ List.range notes.length :=
    List.Subset.trans (List.take_subset _ _) byAmount_perm.subset
  have hnodup : (byAmount notes).Nodup := byAmount_perm.nodup_iff.mpr List.nodup_range
  rw [← weight_range]
  exact weight_le_of_subset (hnodup.sublist (List.take_sublist _ _)) hsub

/-- A selection is short exactly when that many of the largest notes reach the amount. -/
theorem Selected.length_le_iff {goal excess n : Nat} (hn : 2 ≤ n)
    (h : Selected (amountAt notes) (List.range notes.length) goal excess indices) :
    indices.length ≤ n ↔ goal ≤ largest n notes := by
  constructor
  · intro hlen
    have hle := weight_le_largest h.nodup h.subset hlen
    rw [h.covers] at hle
    omega
  · intro hreach
    by_contra hlong
    have hsub : (byAmount notes).take n ⊆ List.range notes.length :=
      List.Subset.trans (List.take_subset _ _) byAmount_perm.subset
    have hnodup : (byAmount notes).Nodup := byAmount_perm.nodup_iff.mpr List.nodup_range
    have hless := h.shortest (by omega) _ (hnodup.sublist (List.take_sublist n _)) hsub
      (by rw [List.length_take]; omega)
    exact Nat.not_le.mpr hless hreach

/-- No shorter selection reaches the amount. -/
theorem Selected.fewer {goal excess : Nat}
    (h : Selected (amountAt notes) (List.range notes.length) goal excess indices)
    (hlong : 2 < indices.length) {fewer : List Nat} (hnodup : fewer.Nodup)
    (hrange : ∀ i ∈ fewer, i < notes.length) (hlen : fewer.length < indices.length) :
    weight (amountAt notes) fewer < goal :=
  h.shortest hlong fewer hnodup (fun i hi => List.mem_range.mpr (hrange i hi)) hlen

end Plan

/-- **Coin selection succeeds whenever it can, with the fewest notes.** The wallet adds up to a
`u128`. The search for three notes and more gives up after 5000 iterations, which changes
nothing here. -/
theorem plan_complete {sort : UnstableSort} {amount : NoteAmount} {notes : List SpendableNote}
    (hne : notes ≠ []) (hfits : total notes < u128Size) :
    (plan sort amount notes = .error .noCombination ↔ total notes < amount.val) ∧
    ((∃ selected maxNotes, plan sort amount notes = .error (.tooManyNotes selected maxNotes)) ↔
      amount.val ≤ total notes ∧ largest transactionLimit notes < amount.val) ∧
    ((∃ txPlan, plan sort amount notes = .ok txPlan) ↔
      amount.val ≤ total notes ∧ amount.val ≤ largest transactionLimit notes) ∧
    ∀ txPlan, plan sort amount notes = .ok txPlan →
      ∃ indices change selected, Selects sort amount notes indices change ∧
        indices.map (notes[·]?) = selected.map some ∧
        planSteps amount change selected = .ok txPlan.steps ∧
        indices.Nodup ∧ (∀ i ∈ indices, i < notes.length) ∧
        weight (amountAt notes) indices = amount.val + excessOf change ∧
        (change = none ↔ weight (amountAt notes) indices = amount.val) ∧
        (∀ few : List Nat, few.Nodup → (∀ i ∈ few, i < notes.length) → few.length ≤ 2 →
          amount.val ≤ weight (amountAt notes) few → indices.length ≤ 2) ∧
        (3 ≤ indices.length → ∀ fewer : List Nat, fewer.Nodup →
          (∀ i ∈ fewer, i < notes.length) → fewer.length + 1 = indices.length →
          weight (amountAt notes) fewer < amount.val) := by
  have hlargest := largest_le_total transactionLimit notes
  rcases @plan_outcome sort amount notes hne hfits with
    ⟨hplan, hless⟩ | ⟨indices, change, hselects, hchange, houtcome⟩
  · rw [hplan]
    refine ⟨by simpa using hless, ?_, ?_, nofun⟩
    · refine ⟨fun ⟨_, _, h⟩ => (by cases h), fun ⟨hle, _⟩ => ?_⟩
      omega
    · refine ⟨fun ⟨_, h⟩ => (by cases h), fun ⟨hle, _⟩ => ?_⟩
      omega
  have hselection := hselects.selection
  have hshort := hselection.length_le_iff (n := transactionLimit) (by decide)
  have hreach : amount.val ≤ total notes := by
    rw [← weight_range]
    have hle := weight_le_of_subset (w := amountAt notes) hselection.nodup hselection.subset
    rw [hselection.covers] at hle
    omega
  rcases houtcome with ⟨hlong, hplan⟩ | ⟨hlimit, txPlan, hplan⟩
  · rw [hplan]
    have hnot : ¬amount.val ≤ largest transactionLimit notes := fun h =>
      Nat.not_lt.mpr (hshort.mpr h) hlong
    refine ⟨⟨nofun, fun h => absurd h (Nat.not_lt.mpr hreach)⟩,
      ⟨fun _ => ⟨hreach, Nat.not_le.mp hnot⟩, fun _ => ⟨_, _, rfl⟩⟩,
      ⟨fun ⟨_, h⟩ => (by cases h), fun h => absurd h.2 hnot⟩, nofun⟩
  · have hten := hshort.mp hlimit
    refine ⟨⟨fun h => ?_, fun h => absurd h (Nat.not_lt.mpr hreach)⟩,
      ⟨fun ⟨_, _, h⟩ => ?_, fun h => absurd h.2 (Nat.not_lt.mpr hten)⟩,
      ⟨fun _ => ⟨hreach, hten⟩, fun _ => ⟨txPlan, hplan⟩⟩, ?_⟩
    · rw [hplan] at h
      cases h
    · rw [hplan] at h
      cases h
    intro txPlan htxPlan
    obtain ⟨indices', change', selected, hselects', -, hselected, hsteps⟩ :=
      plan_ok_selects htxPlan
    obtain ⟨combo, hcombo, hpicks⟩ := hselects
    obtain ⟨combo', hcombo', hpicks'⟩ := hselects'
    cases hcombo.symm.trans hcombo'
    cases hpicks.symm.trans hpicks'
    refine ⟨indices, change, selected, ⟨combo, hcombo, hpicks⟩, hselected, hsteps,
      hselection.nodup, fun i hi => List.mem_range.mp (hselection.subset hi),
      hselection.covers, ?_, ?_, ?_⟩
    · rw [hselection.covers]
      cases change with
      | none => simp [excessOf]
      | some excess =>
          have hexcess : excess ≠ 0 := by
            rintro rfl
            exact absurd (hchange rfl) (Nat.not_lt.mpr hlimit)
          have hval : excess.val ≠ 0 := fun h => hexcess (Fin.ext h)
          simp [excessOf, hval]
    · intro few hnodup hrange hlen hreach
      by_contra hlong
      exact Nat.not_le.mpr (hselection.fewer (by omega) hnodup hrange (by omega)) hreach
    · exact fun hlong fewer hnodup hrange hlen =>
        hselection.fewer hlong hnodup hrange (by omega)

/-- A wallet with a plan, and an amount that is too large for it. -/
theorem plan_complete_three :
    (∃ txPlan, plan insertionSort 9 [⟨101, 2⟩, ⟨102, 3⟩, ⟨103, 5⟩] = .ok txPlan) ∧
      plan insertionSort 11 [⟨101, 2⟩, ⟨102, 3⟩, ⟨103, 5⟩] = .error .noCombination :=
  ⟨(plan_complete (by decide) (by decide)).2.2.1.mpr ⟨by decide, by decide⟩,
    (plan_complete (by decide) (by decide)).1.mpr (by decide)⟩

end PrivatePayments.TxPlanner
