import PrivatePayments.TxPlanner.PlanSound
import PrivatePayments.TxPlanner.Session

/-!
# PrivatePayments.TxPlanner.SessionSound

A spend session never gets stuck (`run_completes`). Between two steps the session holds one
merged note and the selected notes that are still to come (`Merging`). The merged note is found
again by its amount alone, because no other note of the wallet can have that amount: it could
take the place of the notes that were merged, and the selection would not be the shortest.
-/

namespace PrivatePayments.TxPlanner

open Prover (checkedAdd checkedAdd_some checkedNeg exists_of_bind_ok)
open TopSums

/-! ## The wallet -/

/-- No two notes have the same commitment. -/
abbrev DistinctCommitments (wallet : List SpendableNote) : Prop :=
  (wallet.map (·.commitment)).Nodup

theorem DistinctCommitments.inj {wallet : List SpendableNote} (h : DistinctCommitments wallet)
    {a b : SpendableNote} (ha : a ∈ wallet) (hb : b ∈ wallet)
    (heq : a.commitment = b.commitment) : a = b :=
  List.inj_on_of_nodup_map h ha hb heq

theorem removeSpent_eq (wallet spent : List SpendableNote) : removeSpent wallet spent =
    wallet.filter fun n => n.commitment ∉ spent.map (·.commitment) := by
  rw [removeSpent]
  induction spent generalizing wallet with
  | nil =>
      simp only [List.foldl_nil, List.map_nil, List.not_mem_nil, not_false_eq_true, decide_true,
        List.filter_true]
  | cons note spent ih =>
      rw [List.foldl_cons, ih, List.filter_filter]
      refine List.filter_congr fun n _ => ?_
      simp only [List.map_cons, List.mem_cons, not_or, ne_eq, Bool.decide_and, Bool.and_comm]

/-- What is left of a wallet is the notes that are not spent. -/
theorem removeSpent_of_subset {wallet spent : List SpendableNote}
    (h : DistinctCommitments wallet) (hsub : spent ⊆ wallet) :
    removeSpent wallet spent = wallet.filter fun n => n ∉ spent := by
  rw [removeSpent_eq]
  refine List.filter_congr fun n hn => ?_
  rw [decide_eq_decide, not_iff_not, List.mem_map]
  constructor
  · rintro ⟨m, hm, heq⟩
    exact h.inj (hsub hm) hn heq ▸ hm
  · exact fun hmem => ⟨n, hmem, rfl⟩

/-! ## Resolving -/

theorem resolve_known {wallet : List SpendableNote} {note : SpendableNote}
    (h : DistinctCommitments wallet) (hmem : note ∈ wallet) (sibling : Option StepNote) :
    resolveInputNote (.fromSpendable note) wallet sibling = .ok note := by
  have hfind : wallet.find? (fun n => n.commitment = note.commitment) = some note := by
    cases hfound : wallet.find? (fun n => n.commitment = note.commitment) with
    | none =>
        have hno := List.find?_eq_none.mp hfound note hmem
        simp at hno
    | some n =>
        have heq : n.commitment = note.commitment := by simpa using List.find?_some hfound
        rw [h.inj (List.mem_of_find?_eq_some hfound) hmem heq]
  simp only [resolveInputNote, StepNote.fromSpendable, hfind, ne_eq, not_true_eq_false, if_false]

theorem eq_singleton {α : Type} {l : List α} {a : α} (hnodup : l.Nodup) (ha : a ∈ l)
    (hall : ∀ x ∈ l, x = a) : l = [a] := by
  have hsub : l ⊆ [a] := fun x hx => List.mem_singleton.mpr (hall x hx)
  have hle : l.length ≤ 1 := (hnodup.subperm hsub).length_le
  obtain ⟨x, rfl⟩ := List.length_eq_one_iff.mp
    (Nat.le_antisymm hle (List.length_pos_of_mem ha))
  rw [hall x List.mem_cons_self]

/-- A merged note is found by its amount when no other note has that amount. -/
theorem resolve_merged {wallet : List SpendableNote} {merged note : SpendableNote}
    (h : DistinctCommitments wallet) (hmerged : merged ∈ wallet) (hnote : note ∈ wallet)
    (hne : note ≠ merged) (honly : ∀ x ∈ wallet, x ≠ merged → x.amount ≠ merged.amount) :
    resolveInputNote (.fromAmount merged.amount) wallet (some (.fromSpendable note)) =
      .ok merged := by
  have hsingle : (wallet.filter fun n => n.amount = (StepNote.fromAmount merged.amount).amount) =
      [merged] := by
    refine eq_singleton (h.of_map.filter _)
      (List.mem_filter.mpr ⟨hmerged, by simp [StepNote.fromAmount]⟩) ?_
    intro x hx
    obtain ⟨hx, hamount⟩ := List.mem_filter.mp hx
    by_contra hother
    exact honly x hx hother (of_decide_eq_true hamount)
  have hsibling : note.commitment ≠ merged.commitment := fun heq => hne (h.inj hnote hmerged heq)
  have hnone : (StepNote.fromAmount merged.amount).commitment = none := rfl
  rw [resolveInputNote, hnone]
  dsimp only
  rw [hsingle]
  simp [StepNote.fromSpendable, hsibling]

/-! ## Calls -/

/-- A call spends one or two notes of the wallet, and its outputs and its external amount make
up exactly for them. -/
def Spends (wallet : List SpendableNote) (transact : Transact) : Prop :=
  ∃ inputs : List SpendableNote, inputs ⊆ wallet ∧ inputs.Nodup ∧
    (inputs.length = 1 ∨ inputs.length = 2) ∧
    transact.inputCommitments = inputs.map (·.commitment) ∧
    ((weight noteAmount inputs : Nat) : Int) + transact.extAmount.val =
      transact.outputAmounts.1.val + transact.outputAmounts.2.val

/-- A withdrawal fits an external amount. -/
def FitsTarget (target : SpendTarget) (amount : NoteAmount) : Prop :=
  ∀ recipient, target = .withdraw recipient → (amount.val : Int) ≤ 2 ^ 127 - 1

theorem extAmountTryFrom_eq {amount : NoteAmount} (h : (amount.val : Int) ≤ 2 ^ 127 - 1) :
    ∃ ext, extAmountTryFrom amount = some ext ∧ ext.val = amount.val := by
  have hlt : (amount.val : Int) < 2 ^ 127 := by omega
  exact ⟨_, dif_pos hlt, rfl⟩

theorem checkedNeg_eq {ext : ExtAmount} (h : 0 ≤ ext.val) :
    ∃ neg, checkedNeg ext = some neg ∧ neg.val = -ext.val := by
  have hlt : -ext.val < 2 ^ 127 := by omega
  exact ⟨_, dif_pos hlt, rfl⟩

/-- The paying call. -/
theorem materialize_final {inputs : List SpendableNote} {s : PlannedStep}
    {amount : NoteAmount} {change : Option NoteAmount} {target : SpendTarget}
    (pool : String) (haction : s.action = .final (amount, change))
    (hfits : FitsTarget target amount)
    (hsum : weight noteAmount inputs = amount.val + excessOf change) :
    ∃ transact, materializeStep s pool target inputs = .ok transact ∧
      transact.inputCommitments = inputs.map (·.commitment) ∧
      ((weight noteAmount inputs : Nat) : Int) + transact.extAmount.val =
        transact.outputAmounts.1.val + transact.outputAmounts.2.val := by
  rw [materializeStep, haction, hsum]
  cases target with
  | transfer recipientNote recipientEnc => exact ⟨_, rfl, rfl, by simp [extAmountZero, excessOf]⟩
  | withdraw recipient =>
      obtain ⟨ext, hext, hval⟩ := extAmountTryFrom_eq (hfits recipient rfl)
      obtain ⟨neg, hneg, hnegval⟩ := checkedNeg_eq (show 0 ≤ ext.val by omega)
      dsimp only
      rw [hext]
      simp only [okOr, bind, Except.bind, hneg]
      exact ⟨_, rfl, rfl, by simp [excessOf, hnegval, hval]⟩

/-! ## Merging -/

theorem drop_eq_cons {α : Type} {l rest : List α} {i : Nat} {a : α} (h : l.drop i = a :: rest) :
    l[i]? = some a ∧ l.drop (i + 1) = rest := by
  constructor
  · rw [← Nat.add_zero i, ← List.getElem?_drop, h]
    rfl
  · rw [← List.drop_drop, h]
    rfl

/-- A session that holds the merged note `held` and has the notes `rest` still to merge. -/
structure Merging (outputs : Nat → Fr × Fr) (amount : NoteAmount) (change : Option NoteAmount)
    (session : SpendSession) (prev : StepNote) (held : SpendableNote)
    (rest : List SpendableNote) (planned : List PlannedStep) : Prop where
  steps : session.steps.drop session.stepIndex = setLastAction (.final (amount, change)) planned
  merges : mergeSteps prev.amount prev rest = .ok planned
  holds : held.amount = prev.amount
  found : ∀ note ∈ session.wallet, note ≠ held →
    resolveInputNote prev session.wallet (some (.fromSpendable note)) = .ok held
  distinct : DistinctCommitments session.wallet
  subset : held :: rest ⊆ session.wallet
  nodup : (held :: rest).Nodup
  unique : ∀ i, 1 ≤ i → i < rest.length → ∀ x ∈ session.wallet, x ∉ held :: rest.take i →
    noteAmount x ≠ weight noteAmount (held :: rest.take i)
  fresh : ∀ k, ∀ x ∈ session.wallet, x ≠ held → x.commitment ≠ (outputs k).1
  total : weight noteAmount (held :: rest) = amount.val + excessOf change
  fits : FitsTarget session.target amount

section Merging

variable {outputs : Nat → Fr × Fr} {amount : NoteAmount} {change : Option NoteAmount}
  {session : SpendSession} {prev : StepNote} {held note : SpendableNote}
  {rest : List SpendableNote} {planned : List PlannedStep}

/-- The step that comes next resolves to the held note and the next one. -/
theorem Merging.resolve
    (h : Merging outputs amount change session prev held (note :: rest) planned)
    (action : StepAction) :
    PlannedStep.resolve { inputs := (prev, some (.fromSpendable note)), action }
      session.wallet = .ok [held, note] := by
  have hnote : note ∈ session.wallet := h.subset (List.mem_cons_of_mem _ List.mem_cons_self)
  have hne : note ≠ held := by
    rintro rfl
    exact (List.nodup_cons.mp h.nodup).1 List.mem_cons_self
  simp only [PlannedStep.resolve, h.found note hnote hne,
    resolve_known h.distinct hnote (some prev)]
  rfl

/-- The call of the step that comes next spends the held note and the next one. -/
theorem Merging.spends
    (h : Merging outputs amount change session prev held (note :: rest) planned)
    {transact : Transact} (hinputs : transact.inputCommitments = [held, note].map (·.commitment))
    (hsum : ((weight noteAmount [held, note] : Nat) : Int) + transact.extAmount.val =
      transact.outputAmounts.1.val + transact.outputAmounts.2.val) :
    Spends session.wallet transact := by
  have hpair : [held, note].Sublist (held :: note :: rest) :=
    ((List.nil_sublist rest).cons_cons note).cons_cons held
  exact ⟨[held, note], List.Subset.trans hpair.subset h.subset, h.nodup.sublist hpair, .inr rfl,
    hinputs, hsum⟩

theorem Merging.left_eq
    (h : Merging outputs amount change session prev held (note :: rest) planned) :
    removeSpent session.wallet [held, note] =
      session.wallet.filter fun n => n ∉ [held, note] := by
  refine removeSpent_of_subset h.distinct fun x hx => h.subset ?_
  rcases List.mem_cons.mp hx with rfl | hx
  · exact List.mem_cons_self
  · rw [List.mem_singleton.mp hx]
    exact List.mem_cons_of_mem _ List.mem_cons_self

/-- **The last step.** It pays, and the session is done. -/
theorem Merging.pay
    (h : Merging outputs amount change session prev held [note] planned) (oc : Fr × Fr) :
    ∃ transact next, session.step = .ok (some transact) ∧
      session.completeStep oc = .ok next ∧ Spends session.wallet transact ∧
      transact.inputCommitments = [held.commitment, note.commitment] ∧ next.isDone = true ∧
      planned.length = 1 ∧ next.wallet = session.wallet.filter fun n => n ∉ [held, note] := by
  have hmerges := h.merges
  rw [mergeSteps] at hmerges
  obtain ⟨nextSum, hsum, hmerges⟩ := exists_of_bind_ok hmerges
  cases hmerges
  obtain ⟨hget, hdrop⟩ := drop_eq_cons h.steps
  have hresolve := h.resolve (.final (amount, change))
  obtain ⟨transact, hmaterialize, hinputs, hbalance⟩ := materialize_final session.poolAddress
    (s := ⟨(prev, some (.fromSpendable note)), .final (amount, change)⟩) rfl h.fits h.total
  let next : SpendSession := {
    session with
    wallet := removeSpent session.wallet [held, note]
    stepIndex := session.stepIndex + 1 }
  refine ⟨transact, next, ?_, ?_, h.spends hinputs hbalance, hinputs, ?_, rfl, h.left_eq⟩
  · simp only [SpendSession.step, hget, hresolve, liftPlan, bind, Except.bind, hmaterialize]
    rfl
  · simp only [SpendSession.completeStep, hget, hresolve, liftPlan, bind, Except.bind]
    rfl
  · exact decide_eq_true (List.drop_eq_nil_iff.mp hdrop)

/-- **A merging step.** The merged note joins the wallet, and the session goes on with it. -/
theorem Merging.consolidate {next₁ : SpendableNote}
    (h : Merging outputs amount change session prev held (note :: next₁ :: rest) planned) :
    ∃ transact next merged planned', session.step = .ok (some transact) ∧
      session.completeStep (outputs session.stepIndex) = .ok next ∧
      Spends session.wallet transact ∧
      transact.inputCommitments = [held.commitment, note.commitment] ∧
      merged.commitment = (outputs session.stepIndex).1 ∧
      next.wallet = (session.wallet.filter fun n => n ∉ [held, note]) ++ [merged] ∧
      planned.length = planned'.length + 1 ∧
      Merging outputs amount change next (.fromAmount merged.amount) merged (next₁ :: rest)
        planned' := by
  have hmerges := h.merges
  rw [mergeSteps] at hmerges
  obtain ⟨nextSum, hsum, hmerges⟩ := exists_of_bind_ok hmerges
  obtain ⟨planned', hplanned', hmerges⟩ := exists_of_bind_ok hmerges
  cases hmerges
  obtain ⟨step', planned'', rfl⟩ : ∃ step' planned'', planned' = step' :: planned'' := by
    rw [mergeSteps] at hplanned'
    obtain ⟨_, _, hplanned'⟩ := exists_of_bind_ok hplanned'
    obtain ⟨_, _, hplanned'⟩ := exists_of_bind_ok hplanned'
    cases hplanned'
    exact ⟨_, _, rfl⟩
  obtain ⟨hget, hdrop⟩ := drop_eq_cons h.steps
  have hresolve := h.resolve (.consolidate nextSum)
  have hnextSum : nextSum.val = weight noteAmount [held, note] := by
    have hadd : checkedAdd prev.amount note.amount = some nextSum := by
      cases hadd : checkedAdd prev.amount note.amount with
      | none =>
          rw [hadd] at hsum
          cases hsum
      | some sum =>
          rw [hadd] at hsum
          cases hsum
          rfl
    rw [checkedAdd_some hadd, ← h.holds]
    simp
  let merged : SpendableNote := ⟨(outputs session.stepIndex).1, nextSum⟩
  let left := session.wallet.filter fun n => n ∉ [held, note]
  let next : SpendSession := {
    session with
    wallet := left ++ [merged]
    stepIndex := session.stepIndex + 1 }
  -- what is left of the wallet is neither of the two notes, and fresh for the outputs
  have hleft : ∀ x ∈ left, x ∈ session.wallet ∧ x ∉ [held, note] := by
    intro x hx
    obtain ⟨hx, hout⟩ := List.mem_filter.mp hx
    exact ⟨hx, of_decide_eq_true hout⟩
  have hfresh : ∀ k, ∀ x ∈ left, x.commitment ≠ (outputs k).1 := by
    intro k x hx
    obtain ⟨hx, hout⟩ := hleft x hx
    exact h.fresh k x hx fun heq => hout (heq ▸ List.mem_cons_self)
  have hnext : ∀ x ∈ left ++ [merged], x ≠ merged → x ∈ left := by
    intro x hx hne
    rcases List.mem_append.mp hx with hx | hx
    · exact hx
    · exact absurd (List.mem_singleton.mp hx) hne
  have hmergedMem : merged ∈ left ++ [merged] := List.mem_append_right _ List.mem_cons_self
  have hrest : ∀ x ∈ next₁ :: rest, x ∈ left := by
    intro x hx
    have hmem : x ∈ session.wallet :=
      h.subset (List.mem_cons_of_mem _ (List.mem_cons_of_mem _ hx))
    obtain ⟨hheld, hnodup⟩ := List.nodup_cons.mp h.nodup
    obtain ⟨hnote, -⟩ := List.nodup_cons.mp hnodup
    refine List.mem_filter.mpr ⟨hmem, decide_eq_true fun hpair => ?_⟩
    rcases List.mem_cons.mp hpair with rfl | hpair
    · exact hheld (List.mem_cons_of_mem _ hx)
    · exact hnote (List.mem_singleton.mp hpair ▸ hx)
  have hdistinct : DistinctCommitments (left ++ [merged]) := by
    rw [DistinctCommitments, List.map_append]
    refine List.Nodup.append ?_ (List.nodup_singleton _) ?_
    · exact h.distinct.sublist (List.filter_sublist.map _)
    · intro c hc hmergedc
      obtain ⟨x, hx, rfl⟩ := List.mem_map.mp hc
      exact hfresh _ x hx (List.mem_singleton.mp hmergedc)
  have hunique : ∀ i, 1 ≤ i → i < (note :: next₁ :: rest).length → ∀ x ∈ left ++ [merged],
      x ∉ merged :: (next₁ :: rest).take (i - 1) →
      noteAmount x ≠ weight noteAmount (merged :: (next₁ :: rest).take (i - 1)) := by
    intro i hi hlt x hx hout
    obtain ⟨i, rfl⟩ : ∃ j, i = j + 1 := ⟨i - 1, by omega⟩
    rw [Nat.add_sub_cancel] at hout ⊢
    have hxleft := hnext x hx fun heq => hout (heq ▸ List.mem_cons_self)
    obtain ⟨hxw, hxpair⟩ := hleft x hxleft
    have hne := h.unique (i + 1) hi hlt x hxw fun hmem => by
      rw [List.take_succ_cons] at hmem
      rcases List.mem_cons.mp hmem with rfl | hmem
      · exact hxpair List.mem_cons_self
      · rcases List.mem_cons.mp hmem with rfl | hmem
        · exact hxpair (List.mem_cons_of_mem _ List.mem_cons_self)
        · exact hout (List.mem_cons_of_mem _ hmem)
    rw [List.take_succ_cons, weight_cons, weight_cons, ← Nat.add_assoc] at hne
    rw [weight_cons, show noteAmount merged = noteAmount held + noteAmount note by
      simpa using hnextSum]
    exact hne
  refine ⟨⟨[held, note].map (·.commitment), (nextSum, 0), extAmountZero, session.poolAddress,
    (none, none), (none, none)⟩, next, merged, step' :: planned'', ?_, ?_, ?_, rfl, rfl, rfl, rfl,
    ⟨hdrop, hplanned', rfl, ?_, hdistinct, ?_, ?_, ?_, ?_, ?_, h.fits⟩⟩
  · simp only [SpendSession.step, hget, hresolve, liftPlan, bind, Except.bind]
    rfl
  · simp only [SpendSession.completeStep, hget, hresolve, liftPlan, bind, Except.bind]
    rw [h.left_eq]
    rfl
  · refine h.spends rfl ?_
    rw [← hnextSum]
    simp [extAmountZero]
  · intro x hx hne
    refine resolve_merged hdistinct hmergedMem hx hne fun y hy hother heq => ?_
    refine hunique 1 le_rfl (by simp) y hy (by simpa using hother) ?_
    exact (congrArg Fin.val heq).trans (by simp)
  · refine List.cons_subset.mpr ⟨hmergedMem, fun x hx => ?_⟩
    exact List.mem_append_left _ (hrest x hx)
  · obtain ⟨-, hnodup⟩ := List.nodup_cons.mp h.nodup
    refine List.nodup_cons.mpr ⟨fun hmem => ?_, (List.nodup_cons.mp hnodup).2⟩
    exact hfresh _ merged (hrest merged hmem) rfl
  · intro i hi hlt x hx hout
    have hne := hunique (i + 1) (by omega) (by simpa using hlt) x hx
    rw [Nat.add_sub_cancel] at hne
    exact hne hout
  · exact fun k x hx hne => hfresh k x (hnext x hx hne)
  · have htotal := h.total
    rw [weight_cons, weight_cons, ← Nat.add_assoc] at htotal
    rw [weight_cons, show noteAmount merged = noteAmount held + noteAmount note by
      simpa using hnextSum]
    exact htotal

/-- **The run.** A session that is merging goes through to the end. -/
theorem Merging.run {original : List Fr} (hfresh : ∀ k, (outputs k).1 ∉ original) :
    ∀ {rest : List SpendableNote} {session : SpendSession} {prev : StepNote}
      {held : SpendableNote} {planned : List PlannedStep},
      Merging outputs amount change session prev held rest planned → rest ≠ [] →
      (∀ note ∈ rest, note.commitment ∈ original) →
      ∃ calls last spent, session.run outputs planned.length = .ok (calls, last) ∧
        last.isDone = true ∧ (∀ call ∈ calls, Spends call.1 call.2) ∧
        calls.flatMap (fun call => call.2.inputCommitments) = held.commitment :: spent ∧
        spent.filter (· ∈ original) = rest.map (·.commitment) ∧
        last.wallet = session.wallet.filter fun n => n ∉ held :: rest := by
  intro rest
  induction rest with
  | nil => exact fun _ hne => absurd rfl hne
  | cons note rest ih =>
      intro session prev held planned h _ horiginal
      have hnote : note.commitment ∈ original := horiginal note List.mem_cons_self
      cases rest with
      | nil =>
          obtain ⟨transact, next, hstep, hcomplete, hspends, hinputs, hdone, hlen, hwallet⟩ :=
            h.pay (outputs session.stepIndex)
          refine ⟨[(session.wallet, transact)], next, [note.commitment], ?_, hdone, ?_, ?_, ?_,
            hwallet⟩
          · rw [hlen, SpendSession.run, hstep]
            simp only [bind, Except.bind, hcomplete, SpendSession.run]
            rfl
          · intro call hcall
            rw [List.mem_singleton.mp hcall]
            exact hspends
          · simp [hinputs]
          · simp [hnote]
      | cons next₁ rest =>
          obtain ⟨transact, next, merged, planned', hstep, hcomplete, hspends, hinputs, hmerged,
            hwallet, hlen, hnext⟩ := h.consolidate
          obtain ⟨calls, last, spent, hrun, hdone, hcalls, hflat, hspent, hlast⟩ :=
            ih hnext nofun fun n hn => horiginal n (List.mem_cons_of_mem _ hn)
          refine ⟨(session.wallet, transact) :: calls, last,
            note.commitment :: merged.commitment :: spent, ?_, hdone, ?_, ?_, ?_, ?_⟩
          · rw [hlen, SpendSession.run, hstep]
            simp only [bind, Except.bind, hcomplete, hrun]
            rfl
          · exact List.forall_mem_cons.mpr ⟨hspends, hcalls⟩
          · rw [List.flatMap_cons, hflat, hinputs]
            rfl
          · -- the merged note is not one of the original wallet
            rw [List.filter_cons_of_pos (by simpa using hnote), List.filter_cons_of_neg, hspent]
            · rfl
            · simpa [hmerged] using hfresh session.stepIndex
          · have hnew : merged ∉ session.wallet.filter fun n => n ∉ [held, note] := by
              have hnodup : next.wallet.Nodup := hnext.distinct.of_map
              rw [hwallet] at hnodup
              exact fun hmem => (List.nodup_append.mp hnodup).2.2 merged hmem merged
                List.mem_cons_self rfl
            rw [hlast, hwallet, List.filter_append, List.filter_filter]
            have hmergedOut : [merged].filter (fun n => n ∉ merged :: next₁ :: rest) = [] := by
              simp
            rw [hmergedOut, List.append_nil]
            refine List.filter_congr fun n hn => ?_
            rw [← Bool.decide_and, decide_eq_decide]
            constructor
            · rintro ⟨hrest, hpair⟩ hmem
              rcases List.mem_cons.mp hmem with rfl | hmem
              · exact hpair List.mem_cons_self
              · rcases List.mem_cons.mp hmem with rfl | hmem
                · exact hpair (List.mem_cons_of_mem _ List.mem_cons_self)
                · exact hrest (List.mem_cons_of_mem _ hmem)
            · intro hout
              have hpair : n ∉ [held, note] := fun hmem =>
                hout (List.mem_append_left (next₁ :: rest) hmem)
              refine ⟨fun hmem => ?_, hpair⟩
              rcases List.mem_cons.mp hmem with rfl | hmem
              · exact hnew (List.mem_filter.mpr ⟨hn, decide_eq_true hpair⟩)
              · exact hout (List.mem_cons_of_mem _ (List.mem_cons_of_mem _ hmem))

end Merging

/-! ## A whole session -/

/-- What a session that is set up starts from. -/
theorem setup_ok {sort : UnstableSort} {wallet : List SpendableNote} {amount : NoteAmount}
    {pool : String} {target : SpendTarget} {session : SpendSession} (hnodup : wallet.Nodup)
    (h : SpendSession.setup sort wallet amount pool target = .ok session) :
    ∃ change selected, Selected noteAmount wallet amount.val (excessOf change) selected ∧
      planSteps amount change selected = .ok session.steps ∧ session.wallet = wallet ∧
      session.target = target ∧ session.stepIndex = 0 := by
  rw [SpendSession.setup] at h
  obtain ⟨_, -, h⟩ := exists_of_bind_ok h
  obtain ⟨txPlan, hplan, h⟩ := exists_of_bind_ok h
  cases h
  have hplan : plan sort amount wallet = .ok txPlan := by
    cases hp : plan sort amount wallet with
    | error e =>
        rw [hp] at hplan
        cases hplan
    | ok found =>
        rw [hp] at hplan
        cases hplan
        rfl
  obtain ⟨change, selected, hselected, hsteps⟩ := plan_ok hnodup hplan
  exact ⟨change, selected, hselected, hsteps, rfl, rfl, rfl⟩

/-- How a session ends that has spent the selected notes. -/
structure Completes (outputs : Nat → Fr × Fr) (session : SpendSession) (amount : NoteAmount)
    (change : Option NoteAmount) (selected : List SpendableNote) : Prop where
  /-- The last step pays the amount and returns the change. -/
  pays : ∃ step, session.steps.getLast? = some step ∧ step.action = .final (amount, change)
  subset : selected ⊆ session.wallet
  sum : weight noteAmount selected = amount.val + excessOf change
  /-- Every step and its completion succeed until the session is done. -/
  run : ∃ calls last, session.run outputs session.steps.length = .ok (calls, last) ∧
    last.isDone = true ∧ (∀ call ∈ calls, Spends call.1 call.2) ∧
    (calls.flatMap fun call => call.2.inputCommitments).filter
        (· ∈ session.wallet.map (·.commitment)) = selected.map (·.commitment) ∧
    ((calls.flatMap fun call => call.2.inputCommitments).filter
        (· ∈ session.wallet.map (·.commitment))).Nodup ∧
    last.wallet = session.wallet.filter fun n => n ∉ selected

section Completes

variable {outputs : Nat → Fr × Fr} {amount : NoteAmount} {change : Option NoteAmount}
  {session : SpendSession}

theorem nodup_commitments {wallet selected : List SpendableNote} {goal excess : Nat}
    (hdistinct : DistinctCommitments wallet)
    (h : Selected noteAmount wallet goal excess selected) :
    (selected.map (·.commitment)).Nodup :=
  h.nodup.map_on fun _ ha _ hb heq => hdistinct.inj (h.subset ha) (h.subset hb) heq

/-- A session of one note. -/
theorem completes_one {note : SpendableNote} (hdistinct : DistinctCommitments session.wallet)
    (hfits : FitsTarget session.target amount) (hindex : session.stepIndex = 0)
    (hselected : Selected noteAmount session.wallet amount.val (excessOf change) [note])
    (hsteps : planSteps amount change [note] = .ok session.steps) :
    Completes outputs session amount change [note] := by
  have hsteps : session.steps =
      [⟨(.fromSpendable note, none), .final (amount, change)⟩] := (Except.ok.inj hsteps).symm
  have hnote : note ∈ session.wallet := hselected.subset List.mem_cons_self
  obtain ⟨transact, hmaterialize, hinputs, hbalance⟩ := materialize_final session.poolAddress
    (s := ⟨(.fromSpendable note, none), .final (amount, change)⟩) rfl hfits hselected.covers
  have hget : session.steps[session.stepIndex]? =
      some ⟨(.fromSpendable note, none), .final (amount, change)⟩ := by
    rw [hsteps, hindex]
    rfl
  have hresolve : PlannedStep.resolve ⟨(.fromSpendable note, none), .final (amount, change)⟩
      session.wallet = .ok [note] := by
    simp only [PlannedStep.resolve, resolve_known hdistinct hnote none]
    rfl
  let next : SpendSession := {
    session with
    wallet := removeSpent session.wallet [note]
    stepIndex := session.stepIndex + 1 }
  have horiginal : ([(session.wallet, transact)].flatMap fun call =>
      call.2.inputCommitments).filter (· ∈ session.wallet.map (·.commitment)) = [note].map (·.commitment) := by
    rw [List.flatMap_singleton, hinputs]
    exact List.filter_cons_of_pos (decide_eq_true (List.mem_map_of_mem hnote))
  refine ⟨⟨_, by rw [hsteps]; rfl, rfl⟩, hselected.subset, hselected.covers,
    [(session.wallet, transact)], next, ?_, ?_, ?_, horiginal, ?_, ?_⟩
  · have hstep : session.step = .ok (some transact) := by
      simp only [SpendSession.step, hget, hresolve, liftPlan, bind, Except.bind, hmaterialize]
      rfl
    have hcomplete : session.completeStep (outputs session.stepIndex) = .ok next := by
      simp only [SpendSession.completeStep, hget, hresolve, liftPlan, bind, Except.bind]
      rfl
    have hlen : session.steps.length = 1 := by rw [hsteps]; rfl
    rw [hlen, SpendSession.run, hstep]
    simp only [bind, Except.bind, hcomplete, SpendSession.run]
    rfl
  · simp [SpendSession.isDone, next, hsteps]
  · intro call hcall
    rw [List.mem_singleton.mp hcall]
    exact ⟨[note], hselected.subset, hselected.nodup, .inl rfl, hinputs, hbalance⟩
  · rw [horiginal]
    exact nodup_commitments hdistinct hselected
  · exact removeSpent_of_subset hdistinct hselected.subset

/-- A session of several notes. -/
theorem completes_many {note0 note1 : SpendableNote} {rest : List SpendableNote}
    (hdistinct : DistinctCommitments session.wallet)
    (hfits : FitsTarget session.target amount) (hindex : session.stepIndex = 0)
    (hfresh : ∀ k, (outputs k).1 ∉ session.wallet.map (·.commitment))
    (hselected : Selected noteAmount session.wallet amount.val (excessOf change)
      (note0 :: note1 :: rest))
    (hsteps : planSteps amount change (note0 :: note1 :: rest) = .ok session.steps) :
    Completes outputs session amount change (note0 :: note1 :: rest) := by
  rw [planSteps] at hsteps
  obtain ⟨planned, hplanned, hsteps⟩ := exists_of_bind_ok hsteps
  have hsteps : session.steps = setLastAction (.final (amount, change)) planned :=
    (Except.ok.inj hsteps).symm
  have hnote0 : note0 ∈ session.wallet := hselected.subset List.mem_cons_self
  have hne : planned ≠ [] := by
    rw [mergeSteps] at hplanned
    obtain ⟨_, _, hplanned⟩ := exists_of_bind_ok hplanned
    obtain ⟨_, _, hplanned⟩ := exists_of_bind_ok hplanned
    cases hplanned
    nofun
  have hmerging : Merging outputs amount change session (.fromSpendable note0) note0
      (note1 :: rest) planned := {
    steps := by rw [hindex, hsteps]; rfl
    merges := hplanned
    holds := rfl
    found := fun _ _ _ => resolve_known hdistinct hnote0 _
    distinct := hdistinct
    subset := hselected.subset
    nodup := hselected.nodup
    unique := by
      intro i hi hlt x hx hout
      have hlong : 2 < (note0 :: note1 :: rest).length := by
        simp only [List.length_cons] at hlt ⊢
        omega
      have hgoal : amount.val ≤ weight noteAmount (note0 :: note1 :: rest) := by
        rw [hselected.covers]
        exact Nat.le_add_right _ _
      exact weight_take_ne (hselected.descending hlong) hselected.nodup hselected.subset hgoal
        (fun m hm hsub hless => Nat.not_le.mpr (hselected.shortest hlong m hm hsub hless))
        (i := i + 1) (by omega) (by simpa using hlt) hx hout
    fresh := fun k x hx _ heq => hfresh k (heq ▸ List.mem_map_of_mem hx)
    total := hselected.covers
    fits := hfits }
  obtain ⟨calls, last, spent, hrun, hdone, hcalls, hflat, hspent, hwallet⟩ :=
    hmerging.run hfresh nofun fun n hn =>
      List.mem_map_of_mem (hselected.subset (List.mem_cons_of_mem _ hn))
  have horiginal : (calls.flatMap fun call => call.2.inputCommitments).filter
      (· ∈ session.wallet.map (·.commitment)) =
        (note0 :: note1 :: rest).map (·.commitment) := by
    rw [hflat, List.filter_cons_of_pos (by simpa using ⟨note0, hnote0, rfl⟩), hspent]
    rfl
  obtain ⟨step, hlast, haction⟩ := setLastAction_last (.final (amount, change)) hne
  refine ⟨⟨step, by rw [hsteps, hlast], haction⟩, hselected.subset, hselected.covers, calls, last,
    ?_, hdone, hcalls, horiginal, ?_, hwallet⟩
  · rw [hsteps, length_setLastAction, hrun]
  · rw [horiginal]
    exact nodup_commitments hdistinct hselected

end Completes

/-- **A spend session never gets stuck.** Whatever equal amounts the wallet contains, a session
that is set up goes through to its end when the merged notes get commitments that are not in the
wallet. Its calls balance and spend notes of the wallet of their time, no note of the original
wallet is spent twice, and exactly the selected notes are gone at the end; they cover the amount
and the change. -/
theorem session_completes {sort : UnstableSort} {wallet : List SpendableNote}
    {amount : NoteAmount} {pool : String} {target : SpendTarget} {session : SpendSession}
    {outputs : Nat → Fr × Fr} (hdistinct : (wallet.map (·.commitment)).Nodup)
    (hfits : ∀ recipient, target = .withdraw recipient → (amount.val : Int) ≤ 2 ^ 127 - 1)
    (hsetup : SpendSession.setup sort wallet amount pool target = .ok session)
    (hfresh : ∀ k, (outputs k).1 ∉ wallet.map (·.commitment)) :
    session.wallet = wallet ∧
      ∃ change selected, Completes outputs session amount change selected := by
  obtain ⟨change, selected, hselected, hsteps, rfl, rfl, hindex⟩ := setup_ok hdistinct.of_map hsetup
  refine ⟨rfl, change, selected, ?_⟩
  match selected with
  | [] => exact absurd rfl hselected.nonempty
  | [note] => exact completes_one hdistinct hfits hindex hselected hsteps
  | note0 :: note1 :: rest => exact completes_many hdistinct hfits hindex hfresh hselected hsteps

/-- Four notes, two of them equal, are merged in three calls for a withdrawal. -/
theorem session_completes_four :
    ∃ session, SpendSession.setup insertionSort
        [⟨101, 1⟩, ⟨102, 3⟩, ⟨103, 1⟩, ⟨104, 5⟩] 10 "POOL" (.withdraw "G") = .ok session ∧
      session.wallet = [⟨101, 1⟩, ⟨102, 3⟩, ⟨103, 1⟩, ⟨104, 5⟩] ∧
      ∃ change selected, Completes (fun k => (if k = 0 then 901 else 902, 903)) session 10
        change selected := by
  have hok : (SpendSession.setup insertionSort
      [⟨101, 1⟩, ⟨102, 3⟩, ⟨103, 1⟩, ⟨104, 5⟩] 10 "POOL" (.withdraw "G")).isOk = true := by
    decide +kernel
  cases hsetup : SpendSession.setup insertionSort
      [⟨101, 1⟩, ⟨102, 3⟩, ⟨103, 1⟩, ⟨104, 5⟩] 10 "POOL" (.withdraw "G") with
  | error e =>
      rw [hsetup] at hok
      cases hok
  | ok session =>
      refine ⟨session, rfl, session_completes (by decide +kernel) ?_ hsetup ?_⟩
      · intro recipient _
        decide +kernel
      · intro k
        by_cases hk : k = 0
        · rw [if_pos hk]
          decide +kernel
        · rw [if_neg hk]
          decide +kernel

end PrivatePayments.TxPlanner
