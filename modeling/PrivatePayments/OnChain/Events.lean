import PrivatePayments.OnChain.Policy

/-!
# PrivatePayments.OnChain.Events

What the events of a run tell a client that reads nothing else: the leaves and the spent
nullifiers of the pool, the leaves of each membership contract, and the map of each
non-membership contract. Every root that the contracts return or accept follows from these.
-/

namespace PrivatePayments

open MerkleWithHistory (treeRoot isKnownRoot rootHistorySize)

namespace Pool

/-- The nullifiers that the events announce. -/
def announcedNullifiers : List PoolEvent → List U256
  | [] => []
  | .newCommitment .. :: events => announcedNullifiers events
  | .newNullifier n :: events => n :: announcedNullifiers events

/-- The leaves that the events announce, in order. -/
def announcedLeaves (events : List PoolEvent) : List Fr :=
  (announced events).map fun e => e.1.toFr

theorem announcedNullifiers_append (events events' : List PoolEvent) :
    announcedNullifiers (events ++ events') =
      announcedNullifiers events ++ announcedNullifiers events' := by
  induction events with
  | nil => rfl
  | cons e events ih =>
      cases e with
      | newCommitment commitment index out => exact ih
      | newNullifier n => exact congrArg _ ih

theorem announcedNullifiers_newNullifier (ns : List U256) :
    announcedNullifiers (ns.map .newNullifier) = ns := by
  induction ns with
  | nil => rfl
  | cons n ns ih => exact congrArg _ ih

/-- An accepted transaction announces its nullifiers. -/
theorem Accepts.announcedNullifiers_eq {host : Host} {tx : Transaction} {s s' : PoolStorage}
    (h : Accepts host tx s s') :
    announcedNullifiers s'.events =
      announcedNullifiers s.events ++ tx.proof.inputNullifiers := by
  obtain ⟨nulls, tree, idx, -, -, rfl⟩ := h.written
  simp only [announcedNullifiers_append, announcedNullifiers_newNullifier, announcedNullifiers,
    List.append_nil]

variable {levels : Nat} {verifier : Address} {txs : List Transaction} {s : PoolStorage}

theorem Reflects.announcedLeaves_eq (h : Reflects levels verifier txs s) :
    announcedLeaves s.events = outputs txs := by
  have hfst : (fun e : U256 × Nat => e.1.toFr) = U256.toFr ∘ Prod.fst := rfl
  rw [announcedLeaves, h.events, hfst, ← List.map_map, List.zipIdx_map_fst, List.map_map]
  exact (List.map_congr_left fun c _ => U256.toFr_toU256 c).trans (List.map_id _)

/-- The roots that the pool accepts, from the leaves that its events announce. -/
theorem Reflects.isKnownRoot_iff (h : Reflects levels verifier txs s) (root : U256) :
    (∃ tree, (isKnownRoot root).run s.tree = .ok true tree) ↔ root ≠ 0 ∧
      ∃ j ≤ (announcedLeaves s.events).length / 2,
        (announcedLeaves s.events).length / 2 < j + rootHistorySize ∧
        root = (treeRoot levels ((announcedLeaves s.events).take (2 * j))).toU256 := by
  rw [h.announcedLeaves_eq]
  obtain ⟨b, hrun, hb⟩ := MerkleWithHistory.isKnownRoot_of_represents h.tree root
  refine Iff.trans ⟨?_, ?_⟩ hb
  · rintro ⟨tree, htrue⟩
    rw [hrun] at htrue
    cases htrue
    rfl
  · rintro rfl
    exact ⟨s.tree, hrun⟩

end Pool

namespace OnChain.Deployment

open Pool
open AspNonMembership (KeyMap Enumerates mapAfter replay runQueries canonicalTree)

variable {σ κ : Type} {D : Deployment σ κ} {levels : Nat} {verifier : Address}

theorem announcedNullifiers_step {txs : List Transaction} {st : State σ}
    (h : Sound D levels verifier txs st) (act : Action κ)
    (hev : announcedNullifiers st.pool.events = nullifiers txs) :
    announcedNullifiers (D.step st act).pool.events =
      nullifiers (txs ++ D.accepted st [act]) := by
  by_cases hpool : ∃ signed foreign call, act = .pool signed foreign call
  · obtain ⟨signed, foreign, call, rfl⟩ := hpool
    obtain ⟨hst, hacc⟩ | ⟨tx, s', t', rfl, -, haccepts, -, hst, hacc⟩ | ⟨s', hadmin, hst, hacc⟩ :=
      step_pool_cases h signed foreign call
    · rw [hst, hacc, List.append_nil, hev]
    · rw [hst, hacc, nullifiers_append, nullifiers_singleton, ← hev]
      exact haccepts.announcedNullifiers_eq
    · rw [hst, hacc, List.append_nil, ← hev]
      cases hadmin with
      | updateAdmin => rfl
      | updateAspMembership => rfl
      | updateAspNonMembership => rfl
  · obtain ⟨hst, hacc⟩ := step_other (D := D) st fun signed foreign call heq =>
      hpool ⟨signed, foreign, call, heq⟩
    rw [hst, hacc, List.append_nil, hev]

theorem announcedNullifiers_run {st₀ : State σ} (hinit : D.Constructed levels verifier st₀)
    (acts : List (Action κ)) :
    announcedNullifiers (D.run st₀ acts).pool.events = nullifiers (D.accepted st₀ acts) := by
  have hstart : announcedNullifiers st₀.pool.events = nullifiers [] := by
    obtain ⟨admin, asp, aspNon, hconstructor⟩ := hinit.pool
    obtain ⟨tree, -, hs⟩ := Pool.liftTree_ok (Contract.modify_bind_ok hconstructor)
    rw [hs]
    rfl
  exact (D.run_induction (P := fun txs st => Sound D levels verifier txs st ∧
    announcedNullifiers st.pool.events = nullifiers txs)
    (fun act h => ⟨h.1.step act, announcedNullifiers_step h.1 act h.2⟩) acts
    ⟨hinit.sound.2.2, hstart⟩).2

/-- The map that the events of a non-membership contract tell is the one it answers by. -/
structure AnswersBy (n : AspNonMembership.AspStorage) (m : KeyMap) : Prop where
  root : ∀ es, Enumerates es m →
    n.root = some (AspNonMembership.treeRoot (canonicalTree es)).toU256
  found : ∀ key, ∃ r, (AspNonMembership.findKey key).run n = .ok r n ∧
    r.found = (m key).isSome ∧ ∀ value, m key = some value → r.foundValue = value

theorem answersBy_of_published {n : AspNonMembership.AspStorage}
    (h : AspNonMembership.Published n)
    (hinj : Set.InjOn Query.eval { q | q ∈ runQueries [] (replay n) })
    (hzero : ∀ q ∈ runQueries [] (replay n), q.eval ≠ 0) : AnswersBy n (mapAfter (replay n)) := by
  have hagrees := h _ hinj hzero fun q hq => hq
  constructor
  · intro es hes
    have hperm := hagrees.perm.trans (hagrees.enumerates.perm hes)
    rw [AspNonMembership.canonicalTree_eq hagrees.keeps.canonical hperm]
    exact hagrees.keeps.root
  · exact fun key => ⟨_, hagrees.keeps.findKey hzero key, hagrees.found key,
      fun value hm => hagrees.foundValue hm⟩

/-- **The events tell the state.** After any sequence of actions by anybody: the commitments
of the pool are announced at the indices they have in its tree, the roots it accepts are those
of the last prefixes of the announced leaves, and what it has spent is what it has announced;
a membership contract returns the root of its announced leaves; and a non-membership contract
answers by the map that its events replay to, where none of their hashes collide. -/
theorem events_tell {st₀ : State σ} (hinit : D.Constructed levels verifier st₀)
    (acts : List (Action κ)) :
    (∀ (i : Nat) c index, (announced (D.run st₀ acts).pool.events)[i]? = some (c, index) → index = i) ∧
    (∀ root, (∃ tree, (isKnownRoot root).run (D.run st₀ acts).pool.tree = .ok true tree) ↔
      root ≠ 0 ∧ ∃ j ≤ (announcedLeaves (D.run st₀ acts).pool.events).length / 2,
        (announcedLeaves (D.run st₀ acts).pool.events).length / 2 < j + rootHistorySize ∧
        root = (treeRoot levels
          ((announcedLeaves (D.run st₀ acts).pool.events).take (2 * j))).toU256) ∧
    (∀ n, IsSpent (D.run st₀ acts).pool n ↔
      n ∈ announcedNullifiers (D.run st₀ acts).pool.events) ∧
    (∀ a m, (D.run st₀ acts).membership a = some m → ∃ levels',
      m.levels = some levels' ∧ m.nextIndex = some (AspMembership.announced m).length ∧
      m.root = some (treeRoot levels' (AspMembership.announced m)).toU256) ∧
    (∀ a n, (D.run st₀ acts).nonMembership a = some n →
      Set.InjOn Query.eval { q | q ∈ runQueries [] (replay n) } →
      (∀ q ∈ runQueries [] (replay n), q.eval ≠ 0) → AnswersBy n (mapAfter (replay n))) := by
  have hsound := hinit.sound.2.2.run acts
  rw [List.nil_append] at hsound
  have hcontracts := hinit.contracts.run (D := D) acts
  refine ⟨?_, hsound.reflects.isKnownRoot_iff, ?_, ?_, ?_⟩
  · intro i c index hi
    rw [hsound.reflects.events, List.getElem?_zipIdx, Option.map_eq_some_iff] at hi
    obtain ⟨_, -, heq⟩ := hi
    cases heq
    exact Nat.zero_add i
  · intro n
    rw [announcedNullifiers_run hinit]
    obtain ⟨nulls, hnulls, hspent⟩ := hsound.reflects.nullifiers
    rw [← hspent]
    exact ⟨fun ⟨nulls', hnulls', h⟩ => by rwa [Option.some.inj (hnulls.symm.trans hnulls')],
      fun h => ⟨nulls, hnulls, h⟩⟩
  · intro a m hm
    obtain ⟨levels', hrep⟩ := hcontracts.membership hm
    exact ⟨levels', hrep.levels_eq, hrep.nextIndex_eq, hrep.root_eq⟩
  · exact fun a n hn hinj hzero => answersBy_of_published (hcontracts.nonMembership hn) hinj hzero

deriving instance DecidableEq for AspNonMembership.Call

/-- The administrator deploys a non-membership contract and blocks a key. -/
def blockActions : List (Action (Address × Address × Int)) :=
  [.deployNonMembership 14 10, .nonMembership 14 (fun a => a = 10) (.insertLeaf 5 7)]

/-- Its one event tells that the key is there. -/
theorem events_tell_blocked :
    ∃ n r, (depositDeployment.run depositState blockActions).nonMembership 14 = some n ∧
      (AspNonMembership.findKey 5).run n = .ok r n ∧ r.found = true ∧ r.foundValue = 7 := by
  have hsome : ((depositDeployment.run depositState blockActions).nonMembership 14).map
      (fun n => n.events.map AspNonMembership.AspEvent.call) =
      some [.insertLeaf true 5 7] := by
    decide +kernel
  obtain ⟨n, hn, hreplay⟩ := Option.map_eq_some_iff.mp hsome
  have hzero : ∀ q ∈ runQueries [] [.insertLeaf true 5 7], q.eval ≠ 0 := by decide +kernel
  have hinj : ∀ q ∈ runQueries [] [.insertLeaf true 5 7],
      ∀ q' ∈ runQueries [] [.insertLeaf true 5 7], q.eval = q'.eval → q = q' := by
    decide +kernel
  have hanswers := (events_tell depositState_constructed blockActions).2.2.2.2 14 n hn
    (by rw [replay, hreplay]; exact fun q hq q' hq' h => hinj q hq q' hq' h)
    (by rw [replay, hreplay]; exact hzero)
  obtain ⟨r, hrun, hfound, hvalue⟩ := hanswers.found 5
  rw [replay, hreplay] at hfound hvalue
  have hmap : mapAfter [.insertLeaf true 5 7] 5 = some 7 := by decide
  exact ⟨n, r, hn, hrun, by rw [hfound, hmap]; rfl, hvalue 7 hmap⟩

end OnChain.Deployment

end PrivatePayments
