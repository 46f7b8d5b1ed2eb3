import PrivatePayments.Contracts.AspNonMembershipMap
import PrivatePayments.SorobanRules

/-!
# PrivatePayments.Contracts.AspNonMembershipEvents

The events of the contract tell its state. A call succeeds only if the admin has signed it,
and then publishes what it has changed; so the calls that the events name, replayed on an
empty map, give the map that the storage keeps (`Published`), whoever has called whatever
and however the admin has changed.
-/

namespace PrivatePayments.AspNonMembership

open Contract

/-! ### What a successful call leaves alone -/

/-- The parts that the loops of the contract do not touch. -/
abbrev frame (s : AspStorage) : Option Address × List AspEvent := (s.admin, s.events)

theorem hashLeaf_preserves (key value : U256) : Preserves frame (hashLeaf key value) :=
  preserves_ite (preserves_throw _) (preserves_pure _)

theorem hashInternal_preserves (left right : U256) : Preserves frame (hashInternal left right) :=
  preserves_ite (preserves_throw _)
    (preserves_ite (preserves_pure _) (preserves_pure _))

theorem setNode_preserves (hash : U256) (data : List U256) : Preserves frame (setNode hash data) :=
  preserves_modify fun _ => rfl

theorem removeNode_preserves (hash : U256) : Preserves frame (removeNode hash) :=
  preserves_modify fun _ => rfl

theorem liftResult_preserves {α : Type} (r : Except AspError α) :
    Preserves frame (liftResult r) := by
  cases r with
  | ok a => exact preserves_pure a
  | error e => exact preserves_throw _

theorem startInsert_preserves (keyBits : List Bool) (find : FindResult) :
    Preserves frame (startInsert keyBits find) :=
  preserves_ite (preserves_pure _)
    (preserves_bind (hashLeaf_preserves _ _) fun _ => preserves_pure _)

theorem insertStep_preserves (keyBits : List Bool) (findSiblings : List U256)
    (siblingsLen : Nat) (addedOne : Bool) (level : U256 × Nat) (st : InsertState) :
    Preserves frame (insertStep keyBits findSiblings siblingsLen addedOne level st) := by
  obtain ⟨sibling, i⟩ := level
  refine preserves_bind (preserves_okOr _ _) fun bit => ?_
  have hnode : ∀ left right (f : U256 → InsertState), Preserves frame (do
      let rt ← hashInternal left right
      setNode rt [left, right]
      return f rt : AspM InsertState) := fun left right f =>
    preserves_bind (hashInternal_preserves _ _) fun rt =>
      preserves_bind (setNode_preserves _ _) fun _ => preserves_pure _
  have hremove : ∀ rtOld (f : U256 → AspM InsertState), (∀ r, Preserves frame (f r)) →
      Preserves frame (do
        removeNode rtOld
        let r ← pure rtOld
        f r) := fun rtOld f hf =>
    preserves_bind (removeNode_preserves _) fun _ => preserves_bind (preserves_pure _) hf
  refine preserves_ite (preserves_ite ?_ ?_) ?_
  · exact preserves_bind (hashInternal_preserves _ _) fun r => hremove r _ fun _ => hnode _ _ _
  · exact preserves_bind (hashInternal_preserves _ _) fun r => hremove r _ fun _ => hnode _ _ _
  · exact preserves_bind (preserves_pure _) fun _ => hnode _ _ _

theorem deleteStep_preserves (keyBits : List Bool) (level : U256 × Nat) (st : DeleteState) :
    Preserves frame (deleteStep keyBits level st) := by
  obtain ⟨sibling, i⟩ := level
  refine preserves_bind (preserves_okOr _ _) fun bit => ?_
  have hrest : ∀ rtOld left right (c : Prop) [Decidable c] (f : U256 → DeleteState) st',
      Preserves frame (do
        removeNode rtOld
        if c then do
          let rtNew ← hashInternal left right
          setNode rtNew [left, right]
          return f rtNew
        else return st' : AspM DeleteState) := by
    intro rtOld left right c _ f st'
    refine preserves_bind (removeNode_preserves _) fun _ => preserves_ite ?_ (preserves_pure _)
    exact preserves_bind (hashInternal_preserves _ _) fun rtNew =>
      preserves_bind (setNode_preserves _ _) fun _ => preserves_pure _
  exact preserves_ite
    (preserves_bind (hashInternal_preserves _ _) fun r => hrest r _ _ _ _ _)
    (preserves_bind (hashInternal_preserves _ _) fun r => hrest r _ _ _ _ _)

/-- A successful insertion was signed and is published. -/
theorem insertLeaf_ok {s s' : AspStorage} {authorised : Bool} {key value : U256}
    (h : (insertLeaf authorised key value).run s = .ok () s') :
    authorised = true ∧ s'.admin = s.admin ∧
      ∃ root, s'.events = s.events ++ [.leafInserted key value root] := by
  obtain ⟨_, -, h⟩ := okOr_bind_ok (get_bind_ok h)
  obtain ⟨hauth, h⟩ := requireAuth_bind_ok h
  obtain ⟨find, s₁, hfind, h⟩ := bind_ok h
  obtain ⟨-, h⟩ := failIf_bind_ok h
  obtain ⟨start, s₂, hstart, h⟩ := bind_ok h
  obtain ⟨rt, s₃, hleaf, h⟩ := bind_ok h
  obtain ⟨_, s₄, hset, h⟩ := bind_ok h
  obtain ⟨st, s₅, hloop, h⟩ := bind_ok h
  cases h
  have hframe : frame s₅ = frame s := by
    rw [(preserves_foldrM (insertStep_preserves _ _ _ _) _ _).eq hloop,
      (setNode_preserves _ _).eq hset, (hashLeaf_preserves _ _).eq hleaf,
      (startInsert_preserves _ _).eq hstart, (liftResult_preserves _).eq hfind]
  obtain ⟨hadmin, hevents⟩ := Prod.ext_iff.mp hframe
  exact ⟨hauth, hadmin, st.rt, congrArg (· ++ [.leafInserted key value st.rt]) hevents⟩

/-- A successful deletion was signed and is published. -/
theorem deleteLeaf_ok {s s' : AspStorage} {authorised : Bool} {key : U256}
    (h : (deleteLeaf authorised key).run s = .ok () s') :
    authorised = true ∧ s'.admin = s.admin ∧
      ∃ root, s'.events = s.events ++ [.leafDeleted key root] := by
  obtain ⟨_, -, h⟩ := okOr_bind_ok (get_bind_ok h)
  obtain ⟨hauth, h⟩ := requireAuth_bind_ok h
  obtain ⟨root, -, h⟩ := okOr_bind_ok h
  obtain ⟨find, s₁, hfind, h⟩ := bind_ok h
  obtain ⟨-, h⟩ := failIf_bind_ok h
  obtain ⟨rtOld, s₂, hleaf, h⟩ := bind_ok h
  obtain ⟨_, s₃, hremove, h⟩ := bind_ok h
  obtain ⟨promoted, s₄, hpromote, h⟩ := bind_ok (get_bind_ok h)
  obtain ⟨st, s₅, hloop, h⟩ := bind_ok h
  cases h
  have hframe : frame s₅ = frame s := by
    rw [(preserves_foldrM (deleteStep_preserves _) _ _).eq hloop,
      (liftResult_preserves _).eq hpromote, (removeNode_preserves _).eq hremove,
      (hashLeaf_preserves _ _).eq hleaf, (liftResult_preserves _).eq hfind]
  obtain ⟨hadmin, hevents⟩ := Prod.ext_iff.mp hframe
  exact ⟨hauth, hadmin, st.rtNew, congrArg (· ++ [.leafDeleted key st.rtNew]) hevents⟩

theorem updateAdmin_ok {s s' : AspStorage} {authorised : Bool} {newAdmin : Address}
    (h : (updateAdmin authorised newAdmin).run s = .ok () s') :
    authorised = true ∧ s' = { s with admin := some newAdmin } := by
  obtain ⟨_, -, h⟩ := hostCall_bind_ok (get_bind_ok h)
  obtain ⟨hauth, h⟩ := requireAuth_bind_ok h
  cases h
  exact ⟨hauth, rfl⟩

/-! ### Replaying the events -/

/-- The call that an event reports. -/
def AspEvent.call : AspEvent → Call
  | .leafInserted key value _ => .insertLeaf true key value
  | .leafDeleted key _ => .deleteLeaf true key

/-- The calls that the events of a storage report. -/
def replay (s : AspStorage) : List Call := s.events.map AspEvent.call

/-- A successful call is the one that its event reports. -/
theorem Call.replay_ok {c : Call} {s s' : AspStorage} (h : c.body.run s = .ok () s') :
    replay s' = replay s ++ [c] ∧ s'.admin = s.admin := by
  cases c with
  | insertLeaf authorised key value =>
      obtain ⟨rfl, hadmin, root, hevents⟩ := insertLeaf_ok h
      refine ⟨?_, hadmin⟩
      rw [replay, hevents, List.map_append]
      rfl
  | deleteLeaf authorised key =>
      obtain ⟨rfl, hadmin, root, hevents⟩ := deleteLeaf_ok h
      refine ⟨?_, hadmin⟩
      rw [replay, hevents, List.map_append]
      rfl

/-- The storage keeps the map of the replayed events, as long as no hash collides. -/
def Published (s : AspStorage) : Prop :=
  ∀ S : Set Query, Set.InjOn Query.eval S → (∀ q ∈ S, q.eval ≠ 0) →
    (∀ q ∈ runQueries [] (replay s), q ∈ S) →
    Agrees S s (entriesAfter (replay s) []) (mapAfter (replay s))

theorem deployed_published (admin : Address) : Published (deployed admin) :=
  fun S _ _ _ => deployed_agrees S admin

/-- The administrator is no part of the tree. -/
theorem Agrees.of_admin {S : Set Query} {s : AspStorage} {es : List (Fr × Fr)} {m : KeyMap}
    (h : Agrees S s es m) (newAdmin : Address) :
    Agrees S { s with admin := some newAdmin } es m where
  keeps := {
    admin := ⟨newAdmin, rfl⟩
    root := h.keeps.root
    canonical := h.keeps.canonical
    tracked := h.keeps.tracked
    stored := h.keeps.stored }
  perm := h.perm
  enumerates := h.enumerates

/-- **One call**: a successful one extends the events by what it does to the map. -/
theorem Published.call {c : Call} {s s' : AspStorage} (hp : Published s)
    (h : c.body.run s = .ok () s') : Published s' := by
  intro S hS h0 hq
  obtain ⟨hreplay, -⟩ := c.replay_ok h
  rw [hreplay] at hq ⊢
  rw [runQueries_append] at hq
  have hbefore := hp S hS h0 fun q hqm => hq q (List.mem_append_left _ hqm)
  -- a call that does not change the map would have failed
  have hsucceeds : c.succeeds (mapAfter (replay s)) = true := by
    by_contra hfails
    obtain ⟨e, s₁, herror⟩ := hbefore.fails h0 (Bool.eq_false_iff.mpr hfails)
    rw [h] at herror
    cases herror
  obtain ⟨s₁, hrun, hafter⟩ := hbefore.succeeds hS h0 (Call.canonical_of_ok h) hsucceeds
    fun q hqm => hq q (List.mem_append_right _ (List.mem_append_left _ hqm))
  rw [h] at hrun
  cases hrun
  rw [mapAfter, entriesAfter, List.foldl_append, List.foldl_append]
  exact hafter

theorem Published.updateAdmin {authorised : Bool} {newAdmin : Address} {s s' : AspStorage}
    (hp : Published s) (h : (updateAdmin authorised newAdmin).run s = .ok () s') :
    Published s' := by
  obtain ⟨-, rfl⟩ := updateAdmin_ok h
  exact fun S hS h0 hq => (hp S hS h0 hq).of_admin newAdmin

end PrivatePayments.AspNonMembership
