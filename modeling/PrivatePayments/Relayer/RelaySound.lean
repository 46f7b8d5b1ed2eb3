import PrivatePayments.Relayer.Relay

/-!
# PrivatePayments.Relayer.RelaySound

What holds in every run of the relayer, however its handlers interleave. One handler at a time
is past the lock. A request that has been answered is never submitted again and always gets
the same answer; every submission is answered from the cache, in flight, or lost. The account
is read after all earlier submissions, and what is submitted is a signed call for the request.
-/

namespace PrivatePayments.Relayer

open Stellar
open Prover (exists_of_bind_ok mapError_ok)

variable {Text : Type} {app : AppState Text}

namespace Phase

/-- The handler has the lock. -/
def holds : Phase → Bool
  | .locked _ | .fetching _ | .simulating _ _ | .sending | .storing _ => true
  | _ => false

/-- The handler has not found its request in the cache, and is not done. -/
def missed : Phase → Bool
  | .fetching _ | .simulating _ _ | .sending | .storing _ => true
  | _ => false

/-- The handler has submitted, and is not done. -/
def submitted : Phase → Bool
  | .sending | .storing _ => true
  | _ => false

/-- The handler has ended without an answer. -/
def failed : Phase → Bool
  | .finished (.error _) | .dropped => true
  | _ => false

end Phase

/-! ## Steps -/

/-- What a step can do. -/
inductive Transition (app : AppState Text) (st : State) : State → Prop
  | stay : Transition app st st
  | arrive {id : Nat} {req : RelayRequest} {phase : Phase} (hfree : st.tasks id = none)
      (hphase : phase.failed = true ∨ ∃ input, validate req = .ok input ∧ phase = .queued input) :
      Transition app st (st.goto id req phase)
  | leave {id : Nat} {req : RelayRequest} {input : PoolTransactInput}
      (htask : st.tasks id = some ⟨req, .queued input⟩) :
      Transition app st (st.goto id req .dropped)
  | acquire {id : Nat} {req : RelayRequest} {input : PoolTransactInput}
      (htask : st.tasks id = some ⟨req, .queued input⟩) (hlock : st.lock = none) :
      Transition app st { st.goto id req (.locked input) with lock := some id }
  | hit {id : Nat} {req : RelayRequest} {input : PoolTransactInput} {cached : RelayResponse}
      (htask : st.tasks id = some ⟨req, .locked input⟩)
      (hcache : st.cache (app.fingerprint req) = some cached) :
      Transition app st (st.release id req (.finished (.ok cached)))
  | miss {id : Nat} {req : RelayRequest} {input : PoolTransactInput} {args : List ScVal}
      (htask : st.tasks id = some ⟨req, .locked input⟩)
      (hcache : st.cache (app.fingerprint req) = none) (hargs : callArgs app req input = .ok args) :
      Transition app st (st.goto id req (.fetching args))
  | fetched {id : Nat} {req : RelayRequest} {args : List ScVal} {answer : Except String Int64}
      {raw : TransactionEnvelope} (htask : st.tasks id = some ⟨req, .fetching args⟩)
      (hraw : rawCall app req args answer = .ok raw) :
      Transition app st (st.goto id req (.simulating raw st.sent.length))
  | submit {id : Nat} {req : RelayRequest} {raw envelope : TransactionEnvelope} {since : Nat}
      {answer : Except String (SimulateTransactionResponse Text)}
      (htask : st.tasks id = some ⟨req, .simulating raw since⟩)
      (hsigned : signedCall app raw answer = .ok envelope) :
      Transition app st
        { st.goto id req .sending with sent := st.sent ++ [⟨req, envelope, since⟩] }
  | fail {id : Nat} {req : RelayRequest} {phase phase' : Phase}
      (htask : st.tasks id = some ⟨req, phase⟩) (hholds : phase.holds = true)
      (hbefore : phase.submitted = false) (hfailed : phase'.failed = true) :
      Transition app st (st.release id req phase')
  | answered {id : Nat} {req : RelayRequest} {response : RelayResponse}
      (htask : st.tasks id = some ⟨req, .sending⟩) :
      Transition app st (st.goto id req (.storing response))
  | lose {id : Nat} {req : RelayRequest} {phase phase' : Phase}
      (htask : st.tasks id = some ⟨req, phase⟩) (hsubmitted : phase.submitted = true)
      (hfailed : phase'.failed = true) :
      Transition app st { st.release id req phase' with lost := st.lost ++ [req] }
  | store {id : Nat} {req : RelayRequest} {response : RelayResponse}
      (htask : st.tasks id = some ⟨req, .storing response⟩) :
      Transition app st { st.release id req (.finished (.ok response)) with
        cache := Function.update st.cache (app.fingerprint req) (some response) }

theorem step_transition (st : State) (act : Action Text) : Transition app st (step app st act) := by
  cases act with
  | request id req =>
      cases htask : st.tasks id with
      | some task => simpa only [step, htask] using Transition.stay
      | none =>
          cases hvalid : validate req with
          | error e => simpa only [step, htask, hvalid] using Transition.arrive htask (.inl rfl)
          | ok input =>
              simpa only [step, htask, hvalid] using
                Transition.arrive htask (.inr ⟨input, hvalid, rfl⟩)
  | acquire id =>
      rw [step]
      split
      · rename_i htask hlock
        exact .acquire htask hlock
      · exact .stay
  | lookup id =>
      rw [step]
      split
      · rename_i req input htask
        cases hcache : st.cache (app.fingerprint req) with
        | some cached => exact .hit htask hcache
        | none =>
            dsimp only
            cases hargs : callArgs app req input with
            | error e => exact .fail htask rfl rfl rfl
            | ok args => exact .miss htask hcache hargs
      · exact .stay
  | account id answer =>
      rw [step]
      split
      · rename_i req args htask
        cases hraw : rawCall app req args answer with
        | error e => exact .fail htask rfl rfl rfl
        | ok raw => exact .fetched htask hraw
      · exact .stay
  | simulation id answer =>
      rw [step]
      split
      · rename_i req raw since htask
        cases hsigned : signedCall app raw answer with
        | error e => exact .fail htask rfl rfl rfl
        | ok envelope => exact .submit htask hsigned
      · exact .stay
  | sent id answer =>
      rw [step]
      split
      · rename_i req htask
        cases hsubmit : submitTx answer with
        | error e => exact .lose htask rfl rfl
        | ok txHash => exact .answered htask
      · exact .stay
  | store id =>
      rw [step]
      split
      · rename_i req response htask
        exact .store htask
      · exact .stay
  | cancel id =>
      rw [step]
      split
      · exact .stay
      · exact .stay
      · exact .stay
      · rename_i htask
        exact .leave htask
      · rename_i htask
        exact .lose htask rfl rfl
      · rename_i htask
        exact .lose htask rfl rfl
      · rename_i req phase hfinished hdropped hqueued hsending hstoring htask
        cases phase with
        | locked input => exact .fail htask rfl rfl rfl
        | fetching args => exact .fail htask rfl rfl rfl
        | simulating raw since => exact .fail htask rfl rfl rfl
        | queued input => exact (hqueued _ rfl).elim
        | sending => exact (hsending rfl).elim
        | storing response => exact (hstoring _ rfl).elim
        | finished result => exact (hfinished _ rfl).elim
        | dropped => exact (hdropped rfl).elim

theorem run_invariant {P : State → Prop} (hempty : P .empty)
    (hstep : ∀ st st', P st → Transition app st st' → P st') (acts : List (Action Text)) :
    P (run app acts) := by
  have hfold : ∀ (acts : List (Action Text)) (st : State), P st → P (acts.foldl (step app) st) := by
    intro acts
    induction acts with
    | nil => exact fun _ h => h
    | cons act acts ih => exact fun st h => ih _ (hstep st _ h (step_transition st act))
  exact hfold acts .empty hempty

/-! ## The lock -/

/-- The lock is held by the one handler that is past it. -/
structure Exclusive (st : State) : Prop where
  holder : ∀ {id task}, st.tasks id = some task → task.phase.holds = true → st.lock = some id
  held : ∀ {id}, st.lock = some id → ∃ task, st.tasks id = some task ∧ task.phase.holds = true

/-- A handler moves, and the lock follows it. -/
theorem Exclusive.update {st st' : State} (h : Exclusive st) {id : Nat} {task : Task}
    (htasks : st'.tasks = Function.update st.tasks id (some task))
    (hfree : task.phase.holds = true → st.lock = none ∨ st.lock = some id)
    (hlock : st'.lock = if task.phase.holds then some id
      else if st.lock = some id then none else st.lock) : Exclusive st' := by
  constructor
  · intro id' task' htask' hholds'
    rw [htasks] at htask'
    by_cases hid : id' = id
    · subst hid
      rw [Function.update_self] at htask'
      obtain rfl := Option.some.inj htask'
      rw [hlock, if_pos hholds']
    · rw [Function.update_of_ne hid] at htask'
      have hother := h.holder htask' hholds'
      have hne : st.lock ≠ some id := fun heq => hid (Option.some.inj (hother.symm.trans heq))
      have hnot : ¬ task.phase.holds = true := fun hholds => by
        rcases hfree hholds with hnone | hsome
        · rw [hother] at hnone
          cases hnone
        · exact hne hsome
      rw [hlock, if_neg hnot, if_neg hne, hother]
  · intro id' hid'
    rw [hlock] at hid'
    rw [htasks]
    by_cases hholds : task.phase.holds = true
    · rw [if_pos hholds] at hid'
      obtain rfl := Option.some.inj hid'
      exact ⟨task, Function.update_self .., hholds⟩
    · rw [if_neg hholds] at hid'
      by_cases hself : st.lock = some id
      · rw [if_pos hself] at hid'
        cases hid'
      · rw [if_neg hself] at hid'
        obtain ⟨task', htask', hholds'⟩ := h.held hid'
        have hne : id' ≠ id := fun heq => hself (heq ▸ hid')
        exact ⟨task', by rw [Function.update_of_ne hne, htask'], hholds'⟩

theorem Phase.failed_not_holds {phase : Phase} (h : phase.failed = true) : phase.holds = false := by
  cases phase <;> first | rfl | cases h

theorem Phase.submitted_holds {phase : Phase} (h : phase.submitted = true) :
    phase.holds = true := by
  cases phase <;> first | rfl | cases h

theorem Exclusive.step {st st' : State} (h : Exclusive st) (ht : Transition app st st') :
    Exclusive st' := by
  -- a handler that is not past the lock does not hold it
  have hout {id : Nat} {task : Task} (htask : st.tasks id = some task)
      (hholds : task.phase.holds = false) : st.lock ≠ some id := by
    intro hlock
    obtain ⟨task', htask', hholds'⟩ := h.held hlock
    obtain rfl := Option.some.inj (htask.symm.trans htask')
    rw [hholds] at hholds'
    cases hholds'
  cases ht with
  | stay => exact h
  | @arrive id req phase hfree hphase =>
      have hholds : phase.holds = false := by
        rcases hphase with hfailed | ⟨_, _, rfl⟩
        · exact Phase.failed_not_holds hfailed
        · rfl
      have hne : st.lock ≠ some id := by
        intro hlock
        obtain ⟨task, htask, -⟩ := h.held hlock
        rw [hfree] at htask
        cases htask
      refine h.update rfl (fun hc => ?_) ?_
      · rw [hholds] at hc
        cases hc
      · simp [State.goto, hholds, hne]
  | leave htask => exact h.update rfl nofun (by simp [State.goto, Phase.holds, hout htask rfl])
  | acquire htask hlock => exact h.update rfl (fun _ => .inl hlock) (by simp [Phase.holds])
  | hit htask hcache =>
      exact h.update rfl nofun (by simp [State.release, Phase.holds, h.holder htask rfl])
  | miss htask hcache hargs =>
      have hlock := h.holder htask rfl
      exact h.update rfl (fun _ => .inr hlock) (by simp [State.goto, Phase.holds, hlock])
  | fetched htask hraw =>
      have hlock := h.holder htask rfl
      exact h.update rfl (fun _ => .inr hlock) (by simp [State.goto, Phase.holds, hlock])
  | submit htask hsigned =>
      have hlock := h.holder htask rfl
      exact h.update rfl (fun _ => .inr hlock) (by simp [State.goto, Phase.holds, hlock])
  | fail htask hholds hbefore hfailed =>
      have hnot := Phase.failed_not_holds hfailed
      refine h.update rfl (fun hc => ?_) ?_
      · rw [hnot] at hc
        cases hc
      · simp [State.release, hnot, h.holder htask hholds]
  | answered htask =>
      have hlock := h.holder htask rfl
      exact h.update rfl (fun _ => .inr hlock) (by simp [State.goto, Phase.holds, hlock])
  | lose htask hsubmitted hfailed =>
      have hnot := Phase.failed_not_holds hfailed
      refine h.update rfl (fun hc => ?_) ?_
      · rw [hnot] at hc
        cases hc
      · simp [State.release, hnot, h.holder htask (Phase.submitted_holds hsubmitted)]
  | store htask =>
      exact h.update rfl nofun (by simp [State.release, Phase.holds, h.holder htask rfl])

theorem exclusive_run (acts : List (Action Text)) : Exclusive (run app acts) :=
  run_invariant ⟨nofun, nofun⟩ (fun _ _ h ht => h.step ht) acts

/-! ## The cache -/

/-- The cache has no answer for a handler that has not found one, and the answer of every
handler that gave one. -/
structure Answers (app : AppState Text) (st : State) : Prop where
  missed : ∀ {id task}, st.tasks id = some task → task.phase.missed = true →
    st.cache (app.fingerprint task.request) = none
  answered : ∀ {id req response}, st.tasks id = some ⟨req, .finished (.ok response)⟩ →
    st.cache (app.fingerprint req) = some response

theorem Answers.update {st st' : State} (h : Answers app st) {id : Nat} {task : Task}
    (htasks : st'.tasks = Function.update st.tasks id (some task)) (hcache : st'.cache = st.cache)
    (hmissed : task.phase.missed = true → st.cache (app.fingerprint task.request) = none)
    (hanswered : ∀ response, task.phase = .finished (.ok response) →
      st.cache (app.fingerprint task.request) = some response) : Answers app st' := by
  constructor
  · intro id' task' htask' hphase
    rw [htasks] at htask'
    rw [hcache]
    by_cases hid : id' = id
    · subst hid
      rw [Function.update_self] at htask'
      obtain rfl := Option.some.inj htask'
      exact hmissed hphase
    · rw [Function.update_of_ne hid] at htask'
      exact h.missed htask' hphase
  · intro id' req' response' htask'
    rw [htasks] at htask'
    rw [hcache]
    by_cases hid : id' = id
    · subst hid
      rw [Function.update_self] at htask'
      obtain rfl := Option.some.inj htask'
      exact hanswered _ rfl
    · rw [Function.update_of_ne hid] at htask'
      exact h.answered htask'

theorem Phase.missed_holds {phase : Phase} (h : phase.missed = true) : phase.holds = true := by
  cases phase <;> first | rfl | cases h

theorem Phase.failed_out {phase : Phase} (h : phase.failed = true) :
    phase.missed = false ∧ ∀ response, phase ≠ .finished (.ok response) := by
  cases phase with
  | finished result =>
      cases result with
      | ok response => cases h
      | error e => exact ⟨rfl, nofun⟩
  | dropped => exact ⟨rfl, nofun⟩
  | _ => cases h

/-- A handler that ends without an answer adds nothing. -/
theorem Answers.failed {st st' : State} (h : Answers app st) {id : Nat} {req : RelayRequest}
    {phase : Phase} (htasks : st'.tasks = Function.update st.tasks id (some ⟨req, phase⟩))
    (hcache : st'.cache = st.cache) (hfailed : phase.failed = true) : Answers app st' := by
  obtain ⟨hmissed, hanswered⟩ := Phase.failed_out hfailed
  refine h.update htasks hcache (fun hc => ?_) fun response hphase => ?_
  · rw [hmissed] at hc
    cases hc
  · exact absurd hphase (hanswered response)

theorem Answers.step {st st' : State} (h : Answers app st) (hexclusive : Exclusive st)
    (ht : Transition app st st') : Answers app st' := by
  cases ht with
  | stay => exact h
  | @arrive id req phase hfree hphase =>
      rcases hphase with hfailed | ⟨_, _, rfl⟩
      · exact h.failed rfl rfl hfailed
      · exact h.update rfl rfl nofun nofun
  | leave htask => exact h.failed rfl rfl rfl
  | acquire htask hlock => exact h.update rfl rfl nofun nofun
  | hit htask hcache =>
      refine h.update rfl rfl nofun fun response hphase => ?_
      cases hphase
      exact hcache
  | miss htask hcache hargs => exact h.update rfl rfl (fun _ => hcache) nofun
  | fetched htask hraw =>
      have hnone := h.missed htask rfl
      exact h.update rfl rfl (fun _ => hnone) nofun
  | submit htask hsigned =>
      have hnone := h.missed htask rfl
      exact h.update rfl rfl (fun _ => hnone) nofun
  | fail htask hholds hbefore hfailed => exact h.failed rfl rfl hfailed
  | answered htask =>
      have hnone := h.missed htask rfl
      exact h.update rfl rfl (fun _ => hnone) nofun
  | lose htask hsubmitted hfailed => exact h.failed rfl rfl hfailed
  | @store id req response htask =>
      have hnone := h.missed htask rfl
      constructor
      · -- no other handler has missed the cache: it would hold the lock
        intro id' task' htask' hphase
        simp only [State.release, State.goto] at htask'
        by_cases hid : id' = id
        · subst hid
          rw [Function.update_self] at htask'
          obtain rfl := Option.some.inj htask'
          cases hphase
        · rw [Function.update_of_ne hid] at htask'
          have hother := hexclusive.holder htask' (Phase.missed_holds hphase)
          exact absurd (Option.some.inj (hother.symm.trans (hexclusive.holder htask rfl))) hid
      · intro id' req' response' htask'
        simp only [State.release, State.goto] at htask'
        by_cases hid : id' = id
        · subst hid
          rw [Function.update_self] at htask'
          cases htask'
          exact Function.update_self ..
        · rw [Function.update_of_ne hid] at htask'
          have hsome := h.answered htask'
          have hne : app.fingerprint req' ≠ app.fingerprint req := by
            intro heq
            rw [heq, hnone] at hsome
            cases hsome
          exact (Function.update_of_ne hne ..).trans hsome

/-- An entry of the cache stays. -/
theorem Answers.cache_mono {st st' : State} (h : Answers app st) (ht : Transition app st st')
    {fp : String} {response : RelayResponse} (hcache : st.cache fp = some response) :
    st'.cache fp = some response := by
  cases ht with
  | @store id req stored htask =>
      have hne : fp ≠ app.fingerprint req := by
        intro heq
        rw [heq, h.missed htask rfl] at hcache
        cases hcache
      exact (Function.update_of_ne hne ..).trans hcache
  | _ => exact hcache

theorem answers_run (acts : List (Action Text)) : Answers app (run app acts) := by
  refine (run_invariant (P := fun st => Exclusive st ∧ Answers app st)
    ⟨⟨nofun, nofun⟩, nofun, nofun⟩ (fun st st' h ht => ?_) acts).2
  exact ⟨h.1.step ht, h.2.step h.1 ht⟩

/-! ## Submissions -/

section Counts

variable (app) (st : State) (fp : String)

/-- How often requests of this fingerprint were submitted. -/
def submissions : Nat := (st.sent.filter fun s => app.fingerprint s.request = fp).length

/-- How many of these submissions ended without an entry of the cache. -/
def losses : Nat := (st.lost.filter fun req => app.fingerprint req = fp).length

/-- Whether the cache has the answer. -/
def cached : Nat := if (st.cache fp).isSome then 1 else 0

/-- Whether a submission waits for its answer. -/
def inFlight : Nat :=
  match st.lock.bind st.tasks with
  | some task => if task.phase.submitted = true ∧ app.fingerprint task.request = fp then 1 else 0
  | none => 0

variable {app st fp}

theorem inFlight_goto {id : Nat} {req : RelayRequest} {phase : Phase} (h : st.lock = some id) :
    inFlight app (st.goto id req phase) fp =
      if phase.submitted = true ∧ app.fingerprint req = fp then 1 else 0 := by
  simp only [inFlight, State.goto, h, Option.bind_some, Function.update_self]

theorem inFlight_goto_of_ne {id : Nat} {req : RelayRequest} {phase : Phase}
    (h : st.lock ≠ some id) : inFlight app (st.goto id req phase) fp = inFlight app st fp := by
  have htasks : (st.goto id req phase).lock.bind (st.goto id req phase).tasks =
      st.lock.bind st.tasks := by
    cases hlock : st.lock with
    | none => simp only [State.goto, hlock, Option.bind_none]
    | some other =>
        have hne : other ≠ id := fun heq => h (heq ▸ hlock)
        simp only [State.goto, hlock, Option.bind_some, Function.update_of_ne hne]
  rw [inFlight, inFlight, htasks]

theorem inFlight_eq {id : Nat} {task : Task} (hlock : st.lock = some id)
    (htask : st.tasks id = some task) : inFlight app st fp =
      if task.phase.submitted = true ∧ app.fingerprint task.request = fp then 1 else 0 := by
  simp only [inFlight, hlock, Option.bind_some, htask]

theorem filter_append_length {α : Type} (p : α → Prop) [DecidablePred p] (l : List α) (a : α) :
    ((l ++ [a]).filter fun x => p x).length =
      (l.filter fun x => p x).length + if p a then 1 else 0 := by
  rw [List.filter_append, List.length_append, List.filter_singleton]
  by_cases ha : p a
  · simp [ha]
  · simp [ha]

end Counts

/-- Every submission is lost, in the cache or in flight. -/
def Counted (app : AppState Text) (st : State) : Prop :=
  ∀ fp, submissions app st fp = losses app st fp + cached st fp + inFlight app st fp

theorem Counted.step {st st' : State} (h : Counted app st) (hexclusive : Exclusive st)
    (hanswers : Answers app st) (ht : Transition app st st') : Counted app st' := by
  -- a handler before its submission has nothing in flight
  have hbefore {id : Nat} {task : Task} (htask : st.tasks id = some task)
      (hholds : task.phase.holds = true) (hnot : task.phase.submitted = false) (fp : String) :
      inFlight app st fp = 0 := by
    rw [inFlight_eq (hexclusive.holder htask hholds) htask, hnot]
    rfl
  have hout {id : Nat} (hnone : ∀ task, st.tasks id = some task → task.phase.holds = false) :
      st.lock ≠ some id := by
    intro hlock
    obtain ⟨task, htask, hholds⟩ := hexclusive.held hlock
    rw [hnone task htask] at hholds
    cases hholds
  intro fp
  have hfp := h fp
  cases ht with
  | stay => exact hfp
  | @arrive id req phase hfree hphase =>
      have hne : st.lock ≠ some id := hout fun task htask => by
        rw [hfree] at htask
        cases htask
      rw [inFlight_goto_of_ne hne]
      exact hfp
  | @leave id req input htask =>
      have hne : st.lock ≠ some id := hout fun task htask' => by
        obtain rfl := Option.some.inj (htask.symm.trans htask')
        rfl
      rw [inFlight_goto_of_ne hne]
      exact hfp
  | @acquire id req input htask hlock =>
      have hfree : inFlight app st fp = 0 := by rw [inFlight, hlock]; rfl
      have hnext : inFlight app { st.goto id req (.locked input) with lock := some id } fp = 0 := by
        rw [inFlight_eq rfl (Function.update_self ..)]
        rfl
      rw [hnext]
      rw [hfree] at hfp
      exact hfp
  | hit htask hcache =>
      rw [hbefore htask rfl rfl] at hfp
      exact hfp
  | miss htask hcache hargs =>
      rw [inFlight_goto (hexclusive.holder htask rfl)]
      rw [hbefore htask rfl rfl] at hfp
      exact hfp
  | fetched htask hraw =>
      rw [inFlight_goto (hexclusive.holder htask rfl)]
      rw [hbefore htask rfl rfl] at hfp
      exact hfp
  | @submit id req raw envelope since answer htask hsigned =>
      have hflight : inFlight app (st.goto id req .sending) fp =
          if app.fingerprint req = fp then 1 else 0 := by
        rw [inFlight_goto (hexclusive.holder htask rfl)]
        exact if_congr (and_iff_right rfl) rfl rfl
      have hsent : submissions app
          { st.goto id req .sending with sent := st.sent ++ [⟨req, envelope, since⟩] } fp =
            submissions app st fp + if app.fingerprint req = fp then 1 else 0 :=
        filter_append_length _ st.sent _
      rw [hbefore htask rfl rfl] at hfp
      rw [hsent, hfp]
      exact (congrArg (losses app st fp + cached st fp + ·) hflight).symm
  | fail htask hholds hnot hfailed =>
      rw [hbefore htask hholds hnot] at hfp
      exact hfp
  | answered htask =>
      have hlock := hexclusive.holder htask rfl
      rw [inFlight_eq hlock htask] at hfp
      rw [inFlight_goto hlock]
      exact hfp
  | @lose id req phase phase' htask hsubmitted hfailed =>
      have hlock := hexclusive.holder htask (Phase.submitted_holds hsubmitted)
      have hlost : losses app { st.release id req phase' with lost := st.lost ++ [req] } fp =
          losses app st fp + if app.fingerprint req = fp then 1 else 0 :=
        filter_append_length _ st.lost _
      have hflight : inFlight app st fp = if app.fingerprint req = fp then 1 else 0 := by
        rw [inFlight_eq hlock htask]
        exact if_congr (and_iff_right hsubmitted) rfl rfl
      rw [hflight] at hfp
      rw [hlost]
      show submissions app st fp = _ + cached st fp + 0
      omega
  | @store id req response htask =>
      have hlock := hexclusive.holder htask rfl
      have hnone := hanswers.missed htask rfl
      have hflight : inFlight app st fp = if app.fingerprint req = fp then 1 else 0 := by
        rw [inFlight_eq hlock htask]
        exact if_congr (and_iff_right rfl) rfl rfl
      rw [hflight] at hfp
      show submissions app st fp = losses app st fp + cached _ fp + 0
      by_cases heq : app.fingerprint req = fp
      · subst heq
        have hbefore' : cached st (app.fingerprint req) = 0 := by rw [cached, hnone]; rfl
        have hafter : cached { st.release id req (.finished (.ok response)) with
            cache := Function.update st.cache (app.fingerprint req) (some response) }
            (app.fingerprint req) = 1 := by
          simp only [cached, Function.update_self, Option.isSome_some, if_true]
        rw [hbefore', if_pos rfl] at hfp
        rw [hafter, hfp]
      · have hsame : cached { st.release id req (.finished (.ok response)) with
            cache := Function.update st.cache (app.fingerprint req) (some response) } fp =
            cached st fp := by
          simp only [cached, Function.update_of_ne (Ne.symm heq)]
        rw [if_neg heq] at hfp
        rw [hsame, hfp]

theorem counted_run (acts : List (Action Text)) : Counted app (run app acts) := by
  refine (run_invariant
    (P := fun st => (Exclusive st ∧ Answers app st) ∧ Counted app st)
    ⟨⟨⟨nofun, nofun⟩, nofun, nofun⟩, fun _ => rfl⟩ (fun st st' h ht => ?_) acts).2
  exact ⟨⟨h.1.1.step ht, h.1.2.step h.1.1 ht⟩, h.2.step h.1.1 h.1.2 ht⟩

/-! ## Answered once -/

/-- A request that has been answered is not submitted. -/
theorem Answers.submissions_eq {st st' : State} (h : Answers app st) (ht : Transition app st st')
    {fp : String} {response : RelayResponse} (hcache : st.cache fp = some response) :
    submissions app st' fp = submissions app st fp := by
  cases ht with
  | @submit id req raw envelope since answer htask hsigned =>
      have hne : ¬ app.fingerprint req = fp := by
        intro heq
        rw [← heq, h.missed htask rfl] at hcache
        cases hcache
      have happend := filter_append_length (fun s : Sent => app.fingerprint s.request = fp) st.sent
        ⟨req, envelope, since⟩
      rw [if_neg hne] at happend
      exact happend
  | _ => rfl

theorem Phase.submitted_missed {phase : Phase} (h : phase.submitted = true) :
    phase.missed = true := by
  cases phase <;> first | rfl | cases h

theorem Answers.inFlight_eq_zero {st : State} (h : Answers app st) {fp : String}
    {response : RelayResponse} (hcache : st.cache fp = some response) : inFlight app st fp = 0 := by
  unfold inFlight
  split
  · rename_i task hbind
    obtain ⟨id, -, htask⟩ := Option.bind_eq_some_iff.mp hbind
    refine if_neg fun ⟨hsubmitted, hfp⟩ => ?_
    rw [← hfp, h.missed htask (Phase.submitted_missed hsubmitted)] at hcache
    cases hcache
  · rfl

/-- From then on, whatever happens. -/
theorem answered_from {acts : List (Action Text)} {fp : String} {response : RelayResponse}
    (hcache : (run app acts).cache fp = some response) (acts' : List (Action Text)) :
    (run app (acts ++ acts')).cache fp = some response ∧
    submissions app (run app (acts ++ acts')) fp = submissions app (run app acts) fp := by
  induction acts' using List.reverseRecOn with
  | nil => rw [List.append_nil]; exact ⟨hcache, rfl⟩
  | append_singleton acts' act ih =>
      have hrun : run app (acts ++ (acts' ++ [act])) = step app (run app (acts ++ acts')) act := by
        simp only [run, List.foldl_append, List.foldl_cons, List.foldl_nil]
      have hanswers : Answers app (run app (acts ++ acts')) := answers_run _
      rw [hrun]
      exact ⟨hanswers.cache_mono (step_transition _ act) ih.1,
        (hanswers.submissions_eq (step_transition _ act) ih.1).trans ih.2⟩

/-- When the account was read, just the earlier transactions had been submitted. -/
structure Fresh (st : State) : Prop where
  reading : ∀ {id req raw n}, st.tasks id = some ⟨req, .simulating raw n⟩ → n = st.sent.length
  ordered : ∀ {k : Nat} {s : Sent}, st.sent[k]? = some s → s.since = k

theorem Fresh.update {st st' : State} (h : Fresh st) {id : Nat} {task : Task}
    (htasks : st'.tasks = Function.update st.tasks id (some task)) (hsent : st'.sent = st.sent)
    (hreading : ∀ raw n, task.phase = .simulating raw n → n = st.sent.length) : Fresh st' := by
  constructor
  · intro id' req raw n htask'
    rw [htasks] at htask'
    rw [hsent]
    by_cases hid : id' = id
    · subst hid
      rw [Function.update_self] at htask'
      obtain rfl := Option.some.inj htask'
      exact hreading raw n rfl
    · rw [Function.update_of_ne hid] at htask'
      exact h.reading htask'
  · rw [hsent]
    exact h.ordered

theorem Phase.failed_ne_simulating {phase : Phase} (h : phase.failed = true)
    (raw : TransactionEnvelope) (n : Nat) : phase ≠ .simulating raw n := by
  rintro rfl
  cases h

theorem Fresh.step {st st' : State} (h : Fresh st) (hexclusive : Exclusive st)
    (ht : Transition app st st') : Fresh st' := by
  cases ht with
  | stay => exact h
  | arrive hfree hphase =>
      refine h.update rfl rfl fun raw n heq => ?_
      rcases hphase with hfailed | ⟨_, _, rfl⟩
      · exact absurd heq (Phase.failed_ne_simulating hfailed raw n)
      · cases heq
  | fetched htask hraw =>
      refine h.update rfl rfl fun raw n heq => ?_
      cases heq
      rfl
  | fail htask hholds hbefore hfailed =>
      exact h.update rfl rfl fun raw n heq => absurd heq (Phase.failed_ne_simulating hfailed raw n)
  | lose htask hsubmitted hfailed =>
      exact h.update rfl rfl fun raw n heq => absurd heq (Phase.failed_ne_simulating hfailed raw n)
  | @submit id req raw envelope since answer htask hsigned =>
      constructor
      · -- no other handler has read the account: it would hold the lock
        intro id' req' raw' n htask'
        simp only [State.goto] at htask'
        by_cases hid : id' = id
        · subst hid
          rw [Function.update_self] at htask'
          cases htask'
        · rw [Function.update_of_ne hid] at htask'
          have hother := hexclusive.holder htask' rfl
          exact absurd (Option.some.inj (hother.symm.trans (hexclusive.holder htask rfl))) hid
      · intro k s hget
        rcases Nat.lt_trichotomy k st.sent.length with hlt | rfl | hgt
        · rw [List.getElem?_append_left hlt] at hget
          exact h.ordered hget
        · rw [List.getElem?_append_right (le_refl _), Nat.sub_self] at hget
          obtain rfl := Option.some.inj hget
          exact h.reading htask
        · rw [List.getElem?_eq_none (by simp; omega)] at hget
          cases hget
  | _ =>
      refine h.update rfl rfl fun raw n heq => ?_
      cases heq

/-- Where the handler is, it has come by the way of `handler`. -/
def Justified (app : AppState Text) (task : Task) : Prop :=
  match task.phase with
  | .queued input | .locked input => validate task.request = .ok input
  | .fetching args =>
      ∃ input, validate task.request = .ok input ∧ callArgs app task.request input = .ok args
  | .simulating raw _ =>
      ∃ input args account, validate task.request = .ok input ∧
        callArgs app task.request input = .ok args ∧
        rawCall app task.request args account = .ok raw
  | _ => True

/-- The envelope was prepared and signed for the request, with these answers of the node. -/
def SignedFor (app : AppState Text) (s : Sent) : Prop :=
  ∃ input account simulation prepared, validate s.request = .ok input ∧
    preparePoolTransact app.xdr app.keys app.parseAddress
      ⟨fun _ => account, fun _ => simulation⟩ app.config s.request.poolId input
      app.signer.publicKey = .ok prepared ∧
    app.signer.signPreparedTransaction app.hashing app.xdr prepared app.networkPassphrase
      app.signer.publicKey = .ok s.envelope

/-- The parts of the handler make up `prepare_pool_transact`. -/
theorem signedFor_of_parts {req : RelayRequest} {input : PoolTransactInput} {args : List ScVal}
    {account : Except String Int64} {raw envelope : TransactionEnvelope}
    {simulation : Except String (SimulateTransactionResponse Text)} {since : Nat}
    (hvalid : validate req = .ok input) (hargs : callArgs app req input = .ok args)
    (hraw : rawCall app req args account = .ok raw)
    (hsigned : signedCall app raw simulation = .ok envelope) :
    SignedFor app ⟨req, envelope, since⟩ := by
  obtain ⟨prepared, hprepared, hsigned⟩ := exists_of_bind_ok hsigned
  refine ⟨input, account, simulation, prepared, hvalid, ?_, mapError_ok hsigned⟩
  obtain ⟨pool, hpool, hargs⟩ := exists_of_bind_ok hargs
  obtain ⟨seqNum, haccount, hraw⟩ := exists_of_bind_ok hraw
  obtain ⟨seq, hseq, hraw⟩ := exists_of_bind_ok hraw
  obtain ⟨sim, hsim, hfrom⟩ := exists_of_bind_ok (mapError_ok hprepared)
  have hsequence : accountSequence (⟨fun _ => account, fun _ => simulation⟩ : NodeAnswers Text)
      app.signer.publicKey = .ok seq := by
    rw [accountSequence, haccount]
    exact hseq
  unfold preparePoolTransact prepareInvoke
  rw [hpool, Prover.ok_bind, hargs, Prover.ok_bind, hsequence, Prover.ok_bind, hraw,
    Prover.ok_bind, hsim]
  exact hfrom

/-- Every handler and every submission has come by the way of `handler`. -/
structure Sound (app : AppState Text) (st : State) : Prop where
  tasks : ∀ {id task}, st.tasks id = some task → Justified app task
  sent : ∀ s ∈ st.sent, SignedFor app s

theorem Sound.update {st st' : State} (h : Sound app st) {id : Nat} {task : Task}
    (htasks : st'.tasks = Function.update st.tasks id (some task)) (hsent : st'.sent = st.sent)
    (hjustified : Justified app task) : Sound app st' := by
  constructor
  · intro id' task' htask'
    rw [htasks] at htask'
    by_cases hid : id' = id
    · subst hid
      rw [Function.update_self] at htask'
      obtain rfl := Option.some.inj htask'
      exact hjustified
    · rw [Function.update_of_ne hid] at htask'
      exact h.tasks htask'
  · rw [hsent]
    exact h.sent

theorem justified_failed {req : RelayRequest} {phase : Phase} (h : phase.failed = true) :
    Justified app ⟨req, phase⟩ := by
  cases phase <;> trivial

theorem Sound.step {st st' : State} (h : Sound app st) (ht : Transition app st st') :
    Sound app st' := by
  cases ht with
  | stay => exact h
  | arrive hfree hphase =>
      refine h.update rfl rfl ?_
      rcases hphase with hfailed | ⟨input, hvalid, rfl⟩
      · exact justified_failed hfailed
      · exact hvalid
  | acquire htask hlock =>
      have hvalid := h.tasks htask
      exact h.update rfl rfl hvalid
  | miss htask hcache hargs =>
      have hvalid := h.tasks htask
      exact h.update rfl rfl ⟨_, hvalid, hargs⟩
  | fetched htask hraw =>
      obtain ⟨input, hvalid, hargs⟩ := h.tasks htask
      exact h.update rfl rfl ⟨input, _, _, hvalid, hargs, hraw⟩
  | @submit id req raw envelope since answer htask hsigned =>
      obtain ⟨input, args, account, hvalid, hargs, hraw⟩ := h.tasks htask
      have hsame : Sound app (st.goto id req .sending) :=
        h.update rfl rfl (show Justified app ⟨req, .sending⟩ from trivial)
      refine ⟨hsame.tasks, fun s hs => ?_⟩
      rcases List.mem_append.mp hs with hold | hnew
      · exact h.sent s hold
      · obtain rfl := List.mem_singleton.mp hnew
        exact signedFor_of_parts hvalid hargs hraw hsigned
  | fail htask hholds hbefore hfailed => exact h.update rfl rfl (justified_failed hfailed)
  | lose htask hsubmitted hfailed => exact h.update rfl rfl (justified_failed hfailed)
  | _ => exact h.update rfl rfl trivial

def exampleApp : AppState ExampleText where
  xdr := exampleXdr
  hashing := exampleHashing
  keys := exampleKeys
  ed25519 := exampleEd25519
  parseAddress := exampleParse
  config := exampleConfig
  signer := exampleSigner
  networkPassphrase := "Test"
  fingerprint req := req.poolId ++ req.proofUncompressedHex

def exampleRequest : RelayRequest where
  poolId := examplePool
  proofUncompressedHex := String.ofList (List.replicate 512 '0')
  extData := exampleInput.extData
  pub := exampleInput.pub

/-- The client of the first handler goes away while it submits; the second one gets through. -/
def exampleActions : List (Action ExampleText) :=
  let simulation := exampleNode.simulateTransaction (.txV0 [])
  [.request 0 exampleRequest, .request 1 exampleRequest, .acquire 0, .lookup 0, .acquire 1,
   .account 0 (.ok 3), .simulation 0 simulation, .cancel 0, .acquire 1, .lookup 1,
   .account 1 (.ok 4), .simulation 1 simulation, .sent 1 (.ok ⟨"hash", "PENDING", none⟩), .store 1]

/-- The answer that a handler has given. -/
def State.answer (st : State) (id : Nat) : Option RelayResponse :=
  match st.tasks id with
  | some ⟨_, .finished (.ok response)⟩ => some response
  | _ => none

theorem State.answer_eq_some {st : State} {id : Nat} {response : RelayResponse}
    (h : st.answer id = some response) :
    ∃ req, st.tasks id = some ⟨req, .finished (.ok response)⟩ := by
  unfold State.answer at h
  split at h
  · rename_i req response' htask
    obtain rfl := Option.some.inj h
    exact ⟨req, htask⟩
  · cases h

end PrivatePayments.Relayer
