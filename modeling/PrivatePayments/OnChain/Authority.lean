import PrivatePayments.OnChain.Contracts
import PrivatePayments.OnChain.Custody

/-!
# PrivatePayments.OnChain.Authority

Who can change what. Between any two moments of a run, the settings of the pool, the
settings of a membership contract and anything of a non-membership contract differ only
if the administrator of that contract at some moment in between has signed an action; the
approved leaves only grow, by an action that the administrator has signed or while the
contract is open.
-/

namespace PrivatePayments.OnChain

open Pool (Address Transaction PoolStorage)
open AspMembership (MembershipStorage)
open AspNonMembership (AspStorage)

variable {σ κ : Type}

/-- The addresses that have authorised an action; the constructors check nobody. -/
def Action.signed : Action κ → Address → Bool
  | .pool signed _ _ => signed
  | .membership _ signed _ => signed
  | .nonMembership _ signed _ => signed
  | .deployMembership _ _ _ => fun _ => false
  | .deployNonMembership _ _ => fun _ => false
  | .token signed _ => signed

/-- The settings of the pool that its administrator controls. -/
def poolSettings (st : State σ) : Option Address × Option Address × Option Address :=
  (st.pool.admin, st.pool.aspMembership, st.pool.aspNonMembership)

namespace Deployment

variable {D : Deployment σ κ} {levels : Nat} {verifier : Address} {txs : List Transaction}
variable {st : State σ}

/-- A stored administrator has signed an action. -/
def SignedBy (D : Deployment σ κ) (act : Action κ) (admin : Option Address) : Prop :=
  admin.any (D.signers act.signed) = true

/-- What differs after a run has been changed by one of its actions. -/
theorem exists_change {γ : Type} {f : State σ → γ} {acts : List (Action κ)}
    (h : f (D.run st acts) ≠ f st) : ∃ before act after, acts = before ++ act :: after ∧
      f (D.step (D.run st before) act) ≠ f (D.run st before) := by
  induction acts generalizing st with
  | nil => exact absurd rfl h
  | cons act acts ih =>
      by_cases hstep : f (D.step st act) = f st
      · rw [run_cons, ← hstep] at h
        obtain ⟨before, act', after, rfl, hchange⟩ := ih h
        exact ⟨act :: before, act', after, rfl, hchange⟩
      · exact ⟨[], act, acts, rfl, hstep⟩

/-! ### The pool -/

/-- The administrator of the pool has signed a change of its settings. -/
theorem poolSettings_step (h : Sound D levels verifier txs st) {act : Action κ}
    (hne : poolSettings (D.step st act) ≠ poolSettings st) : D.SignedBy act st.pool.admin := by
  by_cases hpool : ∃ signed foreign call, act = .pool signed foreign call
  · obtain ⟨signed, foreign, call, rfl⟩ := hpool
    obtain ⟨hst, -⟩ | ⟨tx, s', t', rfl, -, haccepts, -, hst, -⟩ | ⟨s', hadmin, -⟩ :=
      step_pool_cases h signed foreign call
    · exact absurd (congrArg poolSettings hst) hne
    · obtain ⟨nulls, tree, idx, -, -, hs'⟩ := haccepts.written
      exact absurd (by rw [hst, hs']; rfl) hne
    · cases hadmin with
      | updateAdmin hsigned => exact hsigned
      | updateAspMembership hsigned => exact hsigned
      | updateAspNonMembership hsigned => exact hsigned
  · have hst := (step_other (D := D) st fun signed foreign call heq =>
      hpool ⟨signed, foreign, call, heq⟩).1
    exact absurd (by unfold poolSettings; rw [hst]) hne

/-! ### The non-membership contracts -/

/-- The administrator of a non-membership contract has signed any change of it. -/
theorem nonMembership_step {act : Action κ} {a : Address} {n : AspStorage}
    (hn : st.nonMembership a = some n)
    (hne : (D.step st act).nonMembership a ≠ st.nonMembership a) :
    D.SignedBy act n.admin := by
  have hsome : ((D.step st act).nonMembership a).isSome :=
    step_nonMembership_isSome (by rw [hn]; rfl)
  obtain ⟨n', hn'⟩ := Option.isSome_iff_exists.mp hsome
  obtain hsame | ⟨signed, call, n₁, rfl, hn₁, hrun⟩ | ⟨admin, -, -, hfree, -⟩ :=
    step_nonMembership_cases hn'
  · exact absurd (hn'.trans hsame.symm) hne
  · obtain rfl : n = n₁ := Option.some.inj (hn.symm.trans hn₁)
    cases call with
    | insertLeaf key value => exact (AspNonMembership.insertLeaf_ok hrun).1
    | deleteLeaf key => exact (AspNonMembership.deleteLeaf_ok hrun).1
    | updateAdmin newAdmin => exact (AspNonMembership.updateAdmin_ok hrun).1
  · rw [hn] at hfree
    cases hfree

/-! ### The membership contracts -/

/-- The settings of the membership contract at an address. -/
def membershipSettings (st : State σ) (a : Address) : Option (Option Address × Option Bool) :=
  (st.membership a).map AspMembership.settings

/-- The leaves that the membership contract at an address has announced. -/
def approvedLeaves (st : State σ) (a : Address) : List Fr :=
  ((st.membership a).map AspMembership.announced).getD []

/-- What an action can do to a membership contract: its administrator changes the settings,
or a leaf is appended, which the administrator has signed unless the contract is open. -/
theorem membership_step_cases (h : Contracts st) {act : Action κ} {a : Address}
    {m m' : MembershipStorage} (hm : st.membership a = some m)
    (hm' : (D.step st act).membership a = some m') :
    m' = m ∨
    (D.SignedBy act m.admin ∧ AspMembership.announced m' = AspMembership.announced m) ∨
    (∃ leaf, AspMembership.settings m' = AspMembership.settings m ∧
      AspMembership.announced m' = AspMembership.announced m ++ [leaf] ∧
      (m.adminInsertOnly.getD true = true → D.SignedBy act m.admin)) := by
  obtain hsame | ⟨signed, call, m₁, rfl, hm₁, hrun⟩ | ⟨admin, levels, -, hfree, -⟩ :=
    step_membership_cases hm'
  · exact .inl (Option.some.inj (hsame.symm.trans hm))
  · obtain rfl : m = m₁ := Option.some.inj (hm.symm.trans hm₁)
    cases call with
    | insertLeaf leaf =>
        obtain ⟨-, hannounced, -⟩ := (h.membership hm).insertLeaf hrun
        obtain ⟨hpermits, hsettings⟩ := AspMembership.insertLeaf_settings hrun
        exact .inr (.inr ⟨leaf.toFr, hsettings, hannounced, hpermits⟩)
    | setAdminInsertOnly adminOnly =>
        obtain ⟨hauth, rfl⟩ := AspMembership.setAdminInsertOnly_ok hrun
        exact .inr (.inl ⟨hauth, rfl⟩)
    | updateAdmin newAdmin =>
        obtain ⟨hauth, rfl⟩ := AspMembership.updateAdmin_ok hrun
        exact .inr (.inl ⟨hauth, rfl⟩)
  · rw [hm] at hfree
    cases hfree

/-- The administrator has signed a change of the settings. -/
theorem membershipSettings_step (h : Contracts st) {act : Action κ} {a : Address}
    {m : MembershipStorage} (hm : st.membership a = some m)
    (hne : membershipSettings (D.step st act) a ≠ membershipSettings st a) :
    D.SignedBy act m.admin := by
  have hsome : ((D.step st act).membership a).isSome := step_membership_isSome (by rw [hm]; rfl)
  obtain ⟨m', hm'⟩ := Option.isSome_iff_exists.mp hsome
  unfold membershipSettings at hne
  rw [hm, hm'] at hne
  obtain rfl | ⟨hsigned, -⟩ | ⟨leaf, hsettings, -⟩ := membership_step_cases h hm hm'
  · exact absurd rfl hne
  · exact hsigned
  · exact absurd (congrArg some hsettings) hne

/-- The approved leaves grow at the end. -/
theorem approvedLeaves_step (h : Contracts st) {act : Action κ} {a : Address}
    {m : MembershipStorage} (hm : st.membership a = some m) :
    approvedLeaves st a <+: approvedLeaves (D.step st act) a ∧
    (approvedLeaves (D.step st act) a ≠ approvedLeaves st a →
      m.adminInsertOnly.getD true = true → D.SignedBy act m.admin) := by
  have hsome : ((D.step st act).membership a).isSome := step_membership_isSome (by rw [hm]; rfl)
  obtain ⟨m', hm'⟩ := Option.isSome_iff_exists.mp hsome
  unfold approvedLeaves
  rw [hm, hm']
  simp only [Option.map_some, Option.getD_some]
  obtain rfl | ⟨hsigned, hsame⟩ | ⟨leaf, -, hleaf, hsigned⟩ := membership_step_cases h hm hm'
  · exact ⟨List.prefix_rfl, fun hne => absurd rfl hne⟩
  · exact ⟨by rw [hsame], fun hne => absurd hsame hne⟩
  · exact ⟨⟨[leaf], hleaf.symm⟩, fun _ => hsigned⟩

theorem approvedLeaves_run (h : Contracts st) {a : Address} (hm : (st.membership a).isSome)
    (acts : List (Action κ)) : approvedLeaves st a <+: approvedLeaves (D.run st acts) a := by
  induction acts generalizing st with
  | nil => exact List.prefix_rfl
  | cons act acts ih =>
      obtain ⟨m, hm'⟩ := Option.isSome_iff_exists.mp hm
      exact (approvedLeaves_step h hm').1.trans (ih (h.step act) (step_membership_isSome hm))

/-! ### Runs -/

theorem run_nonMembership_isSome {a : Address} (h : (st.nonMembership a).isSome)
    (acts : List (Action κ)) : ((D.run st acts).nonMembership a).isSome := by
  induction acts generalizing st with
  | nil => exact h
  | cons act acts ih => exact ih (step_nonMembership_isSome h)

theorem run_membership_isSome {a : Address} (h : (st.membership a).isSome)
    (acts : List (Action κ)) : ((D.run st acts).membership a).isSome := by
  induction acts generalizing st with
  | nil => exact h
  | cons act acts ih => exact ih (step_membership_isSome h)

/-- **Authority.** Between two moments of a run: if the settings of the pool differ, an action
in between was signed by the administrator the pool then had; so for anything about a
non-membership contract, and for the settings of a membership contract. The approved leaves
of a membership contract are only added to, and if some are added, one of the actions found
the contract open or was signed by the administrator it then had. -/
theorem changes_are_signed {st₀ : State σ} (hinit : D.Constructed levels verifier st₀)
    (start acts : List (Action κ)) :
    (poolSettings (D.run st₀ (start ++ acts)) ≠ poolSettings (D.run st₀ start) →
      ∃ before act after, acts = before ++ act :: after ∧
        D.SignedBy act (D.run st₀ (start ++ before)).pool.admin) ∧
    (∀ a, ((D.run st₀ start).nonMembership a).isSome →
      (D.run st₀ (start ++ acts)).nonMembership a ≠ (D.run st₀ start).nonMembership a →
      ∃ before act after n, acts = before ++ act :: after ∧
        (D.run st₀ (start ++ before)).nonMembership a = some n ∧ D.SignedBy act n.admin) ∧
    (∀ a, ((D.run st₀ start).membership a).isSome →
      (membershipSettings (D.run st₀ (start ++ acts)) a ≠
        membershipSettings (D.run st₀ start) a →
        ∃ before act after m, acts = before ++ act :: after ∧
          (D.run st₀ (start ++ before)).membership a = some m ∧ D.SignedBy act m.admin) ∧
      approvedLeaves (D.run st₀ start) a <+: approvedLeaves (D.run st₀ (start ++ acts)) a ∧
      (approvedLeaves (D.run st₀ (start ++ acts)) a ≠ approvedLeaves (D.run st₀ start) a →
        ∃ before act after m, acts = before ++ act :: after ∧
          (D.run st₀ (start ++ before)).membership a = some m ∧
          (m.adminInsertOnly.getD true = true → D.SignedBy act m.admin))) := by
  have hsound := fun before => hinit.sound.2.2.run (start ++ before)
  have hcontracts := fun before => hinit.contracts.run (D := D) (start ++ before)
  simp only [run_append] at hsound hcontracts ⊢
  refine ⟨fun hne => ?_, fun a ha hne => ?_, fun a ha => ⟨fun hne => ?_, ?_, fun hne => ?_⟩⟩
  · obtain ⟨before, act, after, hsplit, hchange⟩ := exists_change hne
    exact ⟨before, act, after, hsplit, poolSettings_step (hsound before) hchange⟩
  · obtain ⟨before, act, after, hsplit, hchange⟩ :=
      exists_change (f := fun st => st.nonMembership a) hne
    obtain ⟨n, hn⟩ := Option.isSome_iff_exists.mp (run_nonMembership_isSome ha before)
    exact ⟨before, act, after, n, hsplit, hn, nonMembership_step hn hchange⟩
  · obtain ⟨before, act, after, hsplit, hchange⟩ :=
      exists_change (f := fun st => membershipSettings st a) hne
    obtain ⟨m, hm⟩ := Option.isSome_iff_exists.mp (run_membership_isSome ha before)
    exact ⟨before, act, after, m, hsplit, hm,
      membershipSettings_step (hcontracts before) hm hchange⟩
  · have hstart := hcontracts []
    exact approvedLeaves_run hstart ha acts
  · obtain ⟨before, act, after, hsplit, hchange⟩ :=
      exists_change (f := fun st => approvedLeaves st a) hne
    obtain ⟨m, hm⟩ := Option.isSome_iff_exists.mp (run_membership_isSome ha before)
    exact ⟨before, act, after, m, hsplit, hm,
      (approvedLeaves_step (hcontracts before) hm).2 hchange⟩

/-- The administrator of the example hands over to another address. -/
theorem changes_are_signed_updateAdmin :
    ∃ before act after,
      [Action.pool (fun a => a = 10) (fun _ => none) (.updateAdmin 20)] = before ++ act :: after ∧
      depositDeployment.SignedBy act (depositDeployment.run depositState before).pool.admin := by
  have hchange := (changes_are_signed depositState_constructed []
    [.pool (fun a => a = 10) (fun _ => none) (.updateAdmin 20)]).1
  refine hchange fun heq => ?_
  have hadmin := congrArg Prod.fst heq
  have hne : (depositDeployment.run depositState
      [.pool (fun a => a = 10) (fun _ => none) (.updateAdmin 20)]).pool.admin ≠ some 10 := by
    decide +kernel
  exact hne hadmin

end Deployment

end PrivatePayments.OnChain
