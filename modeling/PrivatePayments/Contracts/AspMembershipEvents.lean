import PrivatePayments.Contracts.AspMembershipSound
import PrivatePayments.SorobanRules

/-!
# PrivatePayments.Contracts.AspMembershipEvents

What a successful call of the membership contract has needed and done, and the tree as
its events tell it: the leaves are the ones that the events announce (`Published`).
-/

namespace PrivatePayments.AspMembership

open Contract
open MerkleWithHistory (treeRoot)

/-- The settings of the contract. -/
abbrev settings (s : MembershipStorage) : Option Address × Option Bool :=
  (s.admin, s.adminInsertOnly)

theorem compress_preserves (left right : U256) :
    Preserves settings (contractCompress left right : MembershipM U256) :=
  preserves_ite (preserves_throw _) (preserves_ite (preserves_pure _) (preserves_pure _))

theorem updatePath_preserves (lvls : List Nat) : ∀ (i : Nat) (currentHash : U256),
    Preserves settings (updatePath lvls i currentHash) := by
  induction lvls with
  | nil => exact fun _ _ => preserves_pure _
  | cons lvl lvls ih =>
      intro i currentHash
      refine preserves_bind preserves_get fun s => preserves_ite ?_ ?_
      · exact preserves_bind (preserves_okOr _ _) fun left =>
          preserves_bind (compress_preserves _ _) fun _ => ih _ _
      · exact preserves_bind (preserves_modify fun _ => rfl) fun _ =>
          preserves_bind (preserves_okOr _ _) fun zeroVal =>
            preserves_bind (compress_preserves _ _) fun _ => ih _ _

theorem checkInsertAuth_ok {s s' : MembershipStorage} {authorised : Bool} {u : Unit}
    (h : (checkInsertAuth authorised).run s = .ok u s') : s' = s ∧ Permits s authorised := by
  have h := get_bind_ok h
  by_cases hmode : s.adminInsertOnly.getD true = true
  · rw [if_pos hmode] at h
    obtain ⟨_, -, h⟩ := okOr_bind_ok h
    obtain ⟨hs, hauth⟩ := requireAuth_ok_iff.mp h
    exact ⟨hs, fun _ => hauth⟩
  · rw [if_neg hmode] at h
    cases h
    exact ⟨rfl, fun h => absurd h hmode⟩

theorem insertLeaf_settings {s s' : MembershipStorage} {authorised : Bool} {leaf : U256}
    (h : (insertLeaf authorised leaf).run s = .ok () s') :
    Permits s authorised ∧ settings s' = settings s := by
  obtain ⟨_, s₁, hcheck, h⟩ := bind_ok h
  obtain ⟨hs₁, hpermits⟩ := checkInsertAuth_ok hcheck
  rw [hs₁] at h
  obtain ⟨levels, -, h⟩ := okOr_bind_ok (get_bind_ok h)
  obtain ⟨index, -, h⟩ := okOr_bind_ok h
  obtain ⟨maxLeaves, -, h⟩ := okOr_bind_ok h
  obtain ⟨-, h⟩ := failIf_bind_ok h
  obtain ⟨currentHash, s₂, hpath, h⟩ := bind_ok h
  obtain ⟨next, -, h⟩ := okOr_bind_ok (modify_bind_ok (modify_bind_ok h))
  cases h
  have hsettings : settings s₂ = settings s := (updatePath_preserves _ _ _).eq hpath
  exact ⟨hpermits, hsettings⟩

theorem setAdminInsertOnly_ok {s s' : MembershipStorage} {authorised adminOnly : Bool}
    (h : (setAdminInsertOnly authorised adminOnly).run s = .ok () s') :
    authorised = true ∧ s' = { s with adminInsertOnly := some adminOnly } := by
  obtain ⟨_, -, h⟩ := okOr_bind_ok (get_bind_ok h)
  obtain ⟨hauth, h⟩ := requireAuth_bind_ok h
  cases h
  exact ⟨hauth, rfl⟩

theorem updateAdmin_ok {s s' : MembershipStorage} {authorised : Bool} {newAdmin : Address}
    (h : (updateAdmin authorised newAdmin).run s = .ok () s') :
    authorised = true ∧ s' = { s with admin := some newAdmin } := by
  obtain ⟨-, h⟩ := failIf_bind_ok (get_bind_ok h)
  obtain ⟨hauth, h⟩ := requireAuth_bind_ok h
  cases h
  exact ⟨hauth, rfl⟩

/-! ### The leaves that the events announce -/

/-- The leaves of the events, in order. -/
def announced (s : MembershipStorage) : List Fr := s.events.map fun e => e.leaf.toFr

theorem Represents.announced_eq {levels : Nat} {leaves : List Fr} {s : MembershipStorage}
    (h : Represents levels leaves s) : announced s = leaves := by
  unfold announced
  rw [h.events_eq]
  refine List.ext_getElem? fun i => ?_
  rw [leafEvents, List.getElem?_map, List.getElem?_mapIdx, Option.map_map]
  cases leaves[i]? with
  | none => rfl
  | some leaf => exact congrArg some (U256.toFr_toU256 leaf)

/-- The storage keeps the tree of the announced leaves. -/
def Published (s : MembershipStorage) : Prop := ∃ levels, Represents levels (announced s) s

theorem Represents.published {levels : Nat} {leaves : List Fr} {s : MembershipStorage}
    (h : Represents levels leaves s) : Published s :=
  ⟨levels, by rw [h.announced_eq]; exact h⟩

theorem constructor_published {admin : Address} {levels : Nat} {s : MembershipStorage}
    (h : (constructor admin levels).run {} = .ok () s) : Published s := by
  obtain ⟨hlevels, -⟩ := failIf_bind_ok h
  have hpos : 1 ≤ levels := by omega
  have hle : levels ≤ 32 := by omega
  rw [constructor_apply hpos hle] at h
  cases h
  exact (deployed_represents hpos hle admin).published

/-- **One insertion**: a successful one was permitted, and announces its leaf. -/
theorem Published.insertLeaf {s s' : MembershipStorage} {authorised : Bool} {leaf : U256}
    (hp : Published s) (h : (insertLeaf authorised leaf).run s = .ok () s') :
    Permits s authorised ∧ announced s' = announced s ++ [leaf.toFr] ∧ Published s' := by
  obtain ⟨levels, hrep⟩ := hp
  have hpermits := (insertLeaf_settings h).1
  -- a full tree and a number that is no field element would have been refused
  have hroom : (announced s).length < 2 ^ levels := by
    by_contra hfull
    rw [insertLeaf_full hrep hpermits (not_lt.mp hfull)] at h
    cases h
  have hleaf : leaf.val < bn256Modulus := by
    by_contra hnot
    obtain ⟨s₁, herror⟩ := insertLeaf_notCanonical hrep hpermits hroom (not_lt.mp hnot)
    rw [herror] at h
    cases h
  obtain ⟨s₁, hrun, hafter⟩ := insertLeaf_room hrep hpermits hroom leaf.toFr
  rw [U256.toU256_toFr hleaf, h] at hrun
  cases hrun
  exact ⟨hpermits, hafter.announced_eq, hafter.published⟩

theorem Published.settings {s : MembershipStorage} (hp : Published s) {admin : Option Address}
    (hadmin : admin.isSome) (mode : Option Bool) :
    Published { s with admin := admin, adminInsertOnly := mode } := by
  obtain ⟨levels, hrep⟩ := hp
  exact ⟨levels, hrep.settings hadmin mode⟩

end PrivatePayments.AspMembership
