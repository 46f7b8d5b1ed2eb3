import PrivatePayments.Bootnode.Chain
import PrivatePayments.Bootnode.Rpc

/-!
# PrivatePayments.Bootnode.Handoff

What lies behind a client that is handed off.

A handoff sends the client to a node that has everything from the cutoff ledger on. Two of the
tests that decide on it look at the requested place: nothing before the cutoff is left then.
The third one is a miss of the cache while the indexer is in sync, and the place can be
anywhere, so the handoff skips the cached events between it and the cutoff, if there are some
(`handoff_iff`).
-/

namespace PrivatePayments.Bootnode

/-! ## Places and ledgers -/

theorem length_takeWhile_le_iff {ledger : UInt32} {events : List Event}
    (hsorted : events.Pairwise fun e e' => e.ledger ≤ e'.ledger) {i : ℕ} {e : Event}
    (he : events[i]? = some e) :
    (events.takeWhile fun e => e.ledger < ledger).length ≤ i ↔ ledger ≤ e.ledger := by
  induction events generalizing i with
  | nil => simp at he
  | cons first events ih =>
      obtain ⟨hfirst, hsorted⟩ := List.pairwise_cons.mp hsorted
      by_cases hlt : first.ledger < ledger
      · rw [List.takeWhile_cons_of_pos (by simpa using hlt), List.length_cons]
        cases i with
        | zero =>
            obtain rfl : first = e := by simpa using he
            simpa using hlt
        | succ i =>
            rw [Nat.succ_le_succ_iff]
            exact ih hsorted (by simpa using he)
      · rw [List.takeWhile_cons_of_neg (by simpa using hlt), List.length_nil]
        refine iff_of_true (Nat.zero_le _) ?_
        cases i with
        | zero =>
            obtain rfl : first = e := by simpa using he
            exact UInt32.not_lt.mp hlt
        | succ i =>
            have hmem : e ∈ events := List.mem_of_getElem? (by simpa using he)
            exact UInt32.le_trans (UInt32.not_lt.mp hlt) (hfirst e hmem)

namespace UpstreamLog

variable {log : UpstreamLog} {i j : ℕ} {e e' : Event}

theorem startPlace_le_iff (he : log.events[i]? = some e) (ledger : UInt32) :
    log.startPlace ledger ≤ i ↔ ledger ≤ e.ledger := length_takeWhile_le_iff log.sorted he

theorem ledger_le (he : log.events[i]? = some e) (he' : log.events[j]? = some e') (hij : i ≤ j) :
    e.ledger ≤ e'.ledger := by
  rcases Nat.eq_or_lt_of_le hij with rfl | hlt
  · rw [he] at he'
    exact Option.some.inj he' ▸ UInt32.le_refl _
  · obtain ⟨hi, rfl⟩ := List.getElem?_eq_some_iff.mp he
    obtain ⟨hj, rfl⟩ := List.getElem?_eq_some_iff.mp he'
    exact List.pairwise_iff_getElem.mp log.sorted i j hi hj hlt

theorem between_append {first middle next : ℕ} (hfirst : first ≤ middle) (hnext : middle ≤ next) :
    log.between first middle ++ log.between middle next = log.between first next := by
  have hdrop : log.events.drop middle = (log.events.drop first).drop (middle - first) := by
    rw [List.drop_drop]
    congr 1
    omega
  rw [between, between, between, hdrop, ← List.take_add]
  congr 1
  omega

theorem getElem?_between {first next : ℕ} (hi : first + i < next) :
    (log.between first next)[i]? = log.events[first + i]? := by
  rw [between, List.getElem?_take_of_lt (by omega), List.getElem?_drop]

end UpstreamLog

/-! ## The cached events -/

/-- An event of the log is cached. -/
def Storage.Cached (log : UpstreamLog) (s : Storage) (i : ℕ) : Prop :=
  ∃ page ∈ s.pages, ∃ next, log.cursorPlace page.result.cursor = some next ∧ i < next ∧
    next ≤ i + page.result.events.length

/-- No cached event lies after the requested position and before the cutoff. -/
def NoneSkipped (log : UpstreamLog) (s : Storage) (params : GetEventsParams)
    (cutoff : UInt32) : Prop :=
  ∀ first, log.requestPlace params.startLedger params.pagination.cursor = some first →
    ∀ i e, log.events[i]? = some e → first ≤ i → s.Cached log i → cutoff ≤ e.ledger

/-- How many events before the cutoff are cached; they come first. -/
def Storage.cachedBefore (s : Storage) (cutoff : UInt32) : ℕ :=
  ((s.pages.flatMap fun page => page.result.events).takeWhile fun e => e.ledger < cutoff).length

section Cached

variable {log : UpstreamLog} {env : Env} {pages : List CachedPage} {next : ℕ}

theorem Tiled.start_le (h : Tiled log env pages next) :
    log.startPlace env.minDeploymentLedger ≤ next ∧ next ≤ log.events.length := by
  induction h with
  | nil => exact ⟨le_rfl, (List.takeWhile_prefix _).length_le⟩
  | snoc _ hpage _ ih => exact ⟨ih.1.trans hpage.lt.le, hpage.isPage.next_le⟩

/-- The cached pages have the events of the log from the start on. -/
theorem Tiled.events (h : Tiled log env pages next) :
    pages.flatMap (fun page => page.result.events) =
      log.between (log.startPlace env.minDeploymentLedger) next := by
  induction h with
  | nil => simp [UpstreamLog.between]
  | snoc htiled hpage _ ih =>
      rw [List.flatMap_append, ih, List.flatMap_singleton, hpage.isPage.events_eq,
        UpstreamLog.between_append htiled.start_le.1 hpage.lt.le]

theorem Tiled.cached_iff {s : Storage} (h : Tiled log env s.pages next) {i : ℕ} :
    s.Cached log i ↔ log.startPlace env.minDeploymentLedger ≤ i ∧ i < next := by
  generalize hpages : s.pages = pages at h
  rw [Storage.Cached, hpages]
  clear hpages
  induction h with
  | nil => simp
  | @snoc pages page first next htiled hpage _ ih =>
      have hlength := hpage.isPage.length
      have hlt := hpage.lt
      have hstart := htiled.start_le.1
      simp only [List.mem_append, List.mem_singleton, or_and_right, exists_or, ih, exists_eq_left,
        hpage.isPage.cursorPlace, Option.some.injEq, hlength]
      constructor
      · rintro (⟨hle, hi⟩ | ⟨_, rfl, hi, hle⟩) <;> omega
      · rintro ⟨hle, hi⟩
        by_cases hfirst : i < first
        · exact Or.inl ⟨hle, hfirst⟩
        · exact Or.inr ⟨next, rfl, hi, by omega⟩

end Cached

/-! ## The handoff -/

/-- A request misses the cache while the indexer is in sync, and neither of the other tests
hands it off. -/
def MissInSync (env : Env) (state : AppState) (params : GetEventsParams) : Prop :=
  tipKnown state ∧ state.storage.inSync = true ∧
    match params.startLedger, params.pagination.cursor with
    | some startLedger, none => ¬ cutoffLedger env state ≤ startLedger ∧
        state.storage.getCachedGetEventsByStartLedger startLedger = .ok none
    | none, some cursor => ¬ lastEventInWindow env state cursor ∧
        state.storage.getCachedGetEventsByCursor cursor = none
    | _, _ => False

/-- The requested place is behind the cached events that lie before the cutoff, if there are
some. -/
def BehindCached (log : UpstreamLog) (env : Env) (state : AppState) (params : GetEventsParams) :
    Prop :=
  let before := state.storage.cachedBefore (cutoffLedger env state)
  ∀ first ∈ log.requestPlace params.startLedger params.pagination.cursor,
    before = 0 ∨ log.startPlace env.minDeploymentLedger + before ≤ first

section Handoff

variable {log : UpstreamLog} {env : Env} {state : AppState} {params : GetEventsParams} {next : ℕ}

theorem noneSkipped_iff (h : Tiled log env state.storage.pages next) :
    NoneSkipped log state.storage params (cutoffLedger env state) ↔
      BehindCached log env state params := by
  obtain ⟨hstart, hnext⟩ := h.start_le
  have hbefore : state.storage.cachedBefore (cutoffLedger env state) =
      ((log.between (log.startPlace env.minDeploymentLedger) next).takeWhile fun e =>
        e.ledger < cutoffLedger env state).length := by
    rw [Storage.cachedBefore, h.events]
  -- a cached event is before the cutoff if it is among the first of the cached ones
  have hcached : ∀ i e, log.events[i]? = some e →
      log.startPlace env.minDeploymentLedger ≤ i → i < next →
      (log.startPlace env.minDeploymentLedger +
        state.storage.cachedBefore (cutoffLedger env state) ≤ i ↔
          cutoffLedger env state ≤ e.ledger) := by
    intro i e he hle hi
    have hget : (log.between (log.startPlace env.minDeploymentLedger) next)[i -
        log.startPlace env.minDeploymentLedger]? = some e := by
      rw [UpstreamLog.getElem?_between (by omega), Nat.add_sub_cancel' hle, he]
    have hsorted : (log.between (log.startPlace env.minDeploymentLedger) next).Pairwise
        fun e e' => e.ledger ≤ e'.ledger :=
      log.sorted.sublist ((List.take_sublist _ _).trans (List.drop_sublist _ _))
    rw [← length_takeWhile_le_iff hsorted hget, hbefore]
    omega
  constructor
  · intro hnone first hfirst
    by_contra hbehind
    push Not at hbehind
    obtain ⟨hne, hlt⟩ := hbehind
    have hcount : state.storage.cachedBefore (cutoffLedger env state) ≤
        next - log.startPlace env.minDeploymentLedger := by
      rw [hbefore]
      refine (List.takeWhile_prefix _).length_le.trans ?_
      rw [UpstreamLog.between, List.length_take]
      exact Nat.min_le_left _ _
    -- the first cached event that is skipped
    obtain ⟨i, hi⟩ : ∃ i, i = max (log.startPlace env.minDeploymentLedger) first := ⟨_, rfl⟩
    have hlt : i < log.events.length := by omega
    have he := List.getElem?_eq_getElem hlt
    have hcutoff := hnone first hfirst i _ he (by omega) (h.cached_iff.mpr (by omega))
    have := (hcached i _ he (by omega) (by omega)).mpr hcutoff
    omega
  · intro hbehind first hfirst i e he hi hmem
    obtain ⟨hle, hlt⟩ := h.cached_iff.mp hmem
    refine (hcached i e he hle hlt).mp ?_
    rcases hbehind first hfirst with hzero | hbehind
    · omega
    · omega

/-- After a start ledger that is not before the cutoff nothing before it is left. -/
theorem noneSkipped_of_startLedger {s : Storage} {cutoff startLedger : UInt32}
    (hstart : params.startLedger = some startLedger) (hcursor : params.pagination.cursor = none)
    (hle : cutoff ≤ startLedger) : NoneSkipped log s params cutoff := by
  intro first hfirst i e he hi _
  rw [hstart, hcursor] at hfirst
  obtain rfl := Option.some.inj hfirst
  exact UInt32.le_trans hle ((UpstreamLog.startPlace_le_iff he startLedger).mp hi)

/-- The last event before a cursor bounds those after it. -/
theorem noneSkipped_of_cursor (h : Tiled log env state.storage.pages next) {cursor : String}
    (hcursor : params.pagination.cursor = some cursor)
    (hwindow : lastEventInWindow env state cursor) :
    NoneSkipped log state.storage params (cutoffLedger env state) := by
  obtain ⟨-, lastEventLedger, hlookup, hle⟩ := hwindow
  obtain ⟨page, hfind, hlast⟩ := Option.bind_eq_some_iff.mp hlookup
  obtain ⟨first, next', hat, -⟩ := h.mem (List.mem_of_find?_eq_some hfind)
  have hout : page.cursorOut = cursor := (of_decide_eq_true (List.find?_some hfind :)).1
  intro first' hfirst' i e he hi _
  have hplace : next' = first' := by
    have hplace : log.cursorPlace cursor = some next' := by
      rw [← hout, hat.cursorOut]
      exact hat.isPage.cursorPlace
    rw [hcursor] at hfirst'
    exact Option.some.inj (hplace.symm.trans hfirst')
  subst hplace
  -- the event right before the place
  have hlength := hat.isPage.length
  have hlt := hat.lt
  rw [hat.lastEvent, List.getLast?_eq_getElem?] at hlast
  obtain ⟨e', he', rfl⟩ := Option.map_eq_some_iff.mp hlast
  rw [hat.isPage.events_eq, UpstreamLog.getElem?_between (by
    rw [hat.isPage.events_eq] at hlength
    omega)] at he'
  exact UInt32.le_trans hle (UpstreamLog.ledger_le he' he (by
    rw [hat.isPage.events_eq] at hlength
    omega))

theorem hitOr_eq_handoff {cached : Option GetEventsResponse} :
    hitOr env state cached = .error (retentionHandoff (cutoffLedger env state)) ↔
      cached = none ∧ tipKnown state ∧ state.storage.inSync = true := by
  have hmiss : cacheMissForTip state.ledgerTip ≠ retentionHandoff (cutoffLedger env state) := by
    intro heq
    have := congrArg ErrorObject.data heq
    rw [cacheMissForTip] at this
    split at this <;> cases this
  cases cached with
  | some result => simp [hitOr]
  | none =>
      by_cases htip : tipKnown state
      · cases hsync : state.storage.inSync <;> simp [hitOr, cacheMissOrHandoff, htip, hsync, hmiss]
      · simp [hitOr, cacheMissOrHandoff, htip, hmiss]

theorem handleStartLedger_eq_handoff {startLedger : UInt32} :
    handleStartLedger env state startLedger =
        .error (retentionHandoff (cutoffLedger env state)) ↔
      (tipKnown state ∧ cutoffLedger env state ≤ startLedger) ∨
      (¬ cutoffLedger env state ≤ startLedger ∧
        state.storage.getCachedGetEventsByStartLedger startLedger = .ok none ∧
        tipKnown state ∧ state.storage.inSync = true) := by
  have hinternal : ∀ e, internalError e ≠ retentionHandoff (cutoffLedger env state) := by
    intro e heq
    cases congrArg ErrorObject.data heq
  rw [handleStartLedger]
  by_cases htest : tipKnown state ∧ cutoffLedger env state ≤ startLedger
  · simp [htest]
  · rw [if_neg htest, or_iff_right htest]
    cases state.storage.getCachedGetEventsByStartLedger startLedger with
    | error e => simp [hinternal e]
    | ok cached =>
        rw [hitOr_eq_handoff, Except.ok.injEq]
        constructor
        · rintro ⟨hnone, htip, hsync⟩
          exact ⟨fun hle => htest ⟨htip, hle⟩, hnone, htip, hsync⟩
        · rintro ⟨-, hnone, htip, hsync⟩
          exact ⟨hnone, htip, hsync⟩

theorem handleCursor_eq_handoff {cursor : String} :
    handleCursor env state cursor = .error (retentionHandoff (cutoffLedger env state)) ↔
      lastEventInWindow env state cursor ∨
      (¬ lastEventInWindow env state cursor ∧
        state.storage.getCachedGetEventsByCursor cursor = none ∧
        tipKnown state ∧ state.storage.inSync = true) := by
  rw [handleCursor]
  by_cases htest : lastEventInWindow env state cursor
  · simp [htest]
  · simp [htest, hitOr_eq_handoff]

/-- The three ways to a handoff. -/
theorem handler_eq_handoff (hallowed : params.isAllowedFilters env.contractIds = true) :
    getEventsHandler env state params = .error (retentionHandoff (cutoffLedger env state)) ↔
      (∃ startLedger, params.startLedger = some startLedger ∧ params.pagination.cursor = none ∧
        tipKnown state ∧ cutoffLedger env state ≤ startLedger) ∨
      (∃ cursor, params.startLedger = none ∧ params.pagination.cursor = some cursor ∧
        lastEventInWindow env state cursor) ∨
      MissInSync env state params := by
  have hinvalid : ∀ e, invalidParams e ≠ retentionHandoff (cutoffLedger env state) := by
    intro e heq
    cases congrArg ErrorObject.data heq
  rw [getEventsHandler, GetEventsParams.parsed, MissInSync]
  cases hstart : params.startLedger with
  | some startLedger =>
      cases hcursor : params.pagination.cursor with
      | some cursor => simp [hinvalid]
      | none =>
          simp only [hallowed, not_true_eq_false, if_false, handleStartLedger_eq_handoff]
          constructor
          · rintro (htest | ⟨hlt, hmiss, htip, hsync⟩)
            · exact Or.inl ⟨startLedger, rfl, trivial, htest⟩
            · exact Or.inr (Or.inr ⟨htip, hsync, hlt, hmiss⟩)
          · rintro (⟨_, heq, -, htest⟩ | ⟨_, heq, -⟩ | ⟨htip, hsync, hlt, hmiss⟩)
            · obtain rfl := Option.some.inj heq
              exact Or.inl htest
            · cases heq
            · exact Or.inr ⟨hlt, hmiss, htip, hsync⟩
  | none =>
      cases hcursor : params.pagination.cursor with
      | none => simp [hinvalid]
      | some cursor =>
          simp only [hallowed, not_true_eq_false, if_false, handleCursor_eq_handoff]
          constructor
          · rintro (htest | ⟨hout, hmiss, htip, hsync⟩)
            · exact Or.inr (Or.inl ⟨cursor, trivial, rfl, htest⟩)
            · exact Or.inr (Or.inr ⟨htip, hsync, hout, hmiss⟩)
          · rintro (⟨_, heq, -⟩ | ⟨_, -, heq, htest⟩ | ⟨htip, hsync, hout, hmiss⟩)
            · cases heq
            · obtain rfl := Option.some.inj heq
              exact Or.inl htest
            · exact Or.inr ⟨hout, hmiss, htip, hsync⟩

end Handoff

/-- A state that a request can find: the pages are those of some run, in which the last round
may be cut short; inside a round the tip, the flag and the cursor can be ahead of them. -/
def Reachable (log : UpstreamLog) (env : Env) (state : AppState) : Prop :=
  ∃ steps, (∀ upstream, .round upstream ∈ steps → Serves log env upstream) ∧
    state.storage.pages = (run env steps).storage.pages

/-- **When a handoff skips nothing.** In every state and for every request with the filters of
the deployment, a handoff skips no cached event exactly if the request does not miss the cache
in sync, or asks for a place behind the cached events before the cutoff. -/
theorem handoff_iff (log : UpstreamLog) (env : Env) (state : AppState) (params : GetEventsParams)
    (hreachable : Reachable log env state)
    (hallowed : params.isAllowedFilters env.contractIds = true) :
    (getEventsHandler env state params =
        .error (retentionHandoff (cutoffLedger env state)) →
      NoneSkipped log state.storage params (cutoffLedger env state)) ↔
      (MissInSync env state params → BehindCached log env state params) := by
  obtain ⟨steps, hserves, hpages⟩ := hreachable
  obtain ⟨next, htracked⟩ := Tracked.run log env steps hserves
  have htiled : Tiled log env state.storage.pages next := hpages ▸ htracked.tiled
  rw [← noneSkipped_iff htiled]
  rw [handler_eq_handoff hallowed]
  refine ⟨fun h hmiss => h (Or.inr (Or.inr hmiss)), fun h hhandoff => ?_⟩
  rcases hhandoff with
    ⟨startLedger, hstart, hcursor, -, hle⟩ | ⟨cursor, -, hcursor, hwindow⟩ | hmiss
  · exact noneSkipped_of_startLedger hstart hcursor hle
  · exact noneSkipped_of_cursor htiled hcursor hwindow
  · exact h hmiss

/-! ### Two requests in sync -/

section InSync

/-- A bootnode in sync, with both events cached. -/
def inSync : AppState := run smallEnv (twoRounds [])

theorem inSync_reachable : Reachable twoEvents smallEnv inSync :=
  ⟨twoRounds [], twoRounds_serves (by decide), rfl⟩

instance (log : UpstreamLog) (env : Env) (state : AppState) (params : GetEventsParams) :
    Decidable (BehindCached log env state params) := by
  unfold BehindCached
  infer_instance

/-- The request after the last cached page. -/
def lastRequest : GetEventsParams := eventsRequest smallEnv none (some "xx")

theorem handoff_iff_lastRequest :
    NoneSkipped twoEvents inSync.storage lastRequest (cutoffLedger smallEnv inSync) := by
  refine (handoff_iff twoEvents smallEnv inSync lastRequest inSync_reachable (by decide)).mpr
    (fun _ => by decide +kernel) ?_
  refine (handler_eq_handoff (by decide)).mpr (Or.inr (Or.inr ⟨by decide +kernel,
    by decide +kernel, ?_⟩))
  exact ⟨by decide +kernel, by decide +kernel⟩

/-- A request from a ledger that is not the first one of the deployment. -/
def laterRequest : GetEventsParams := eventsRequest smallEnv (some 2) none

/-- The request is handed off to ledger 2913600, and both cached events lie before it. -/
theorem handoff_skips : Reachable twoEvents smallEnv inSync ∧
    laterRequest.isAllowedFilters smallEnv.contractIds = true ∧
    getEventsHandler smallEnv inSync laterRequest =
      .error (retentionHandoff (cutoffLedger smallEnv inSync)) ∧
    ¬ NoneSkipped twoEvents inSync.storage laterRequest (cutoffLedger smallEnv inSync) := by
  refine ⟨inSync_reachable, by decide, ?_, fun hnone => ?_⟩
  · refine (handler_eq_handoff (by decide)).mpr (Or.inr (Or.inr ⟨by decide +kernel,
      by decide +kernel, ?_⟩))
    refine ⟨by decide +kernel, ?_⟩
    have hmiss : inSync.storage.pages.find? (fun page =>
        page.cursorIn = none ∧ page.startLedger = some 2) = none := by decide +kernel
    show (if fitsInteger 2 then Except.ok _ else _) = _
    rw [if_pos (by decide), hmiss]
    rfl
  · obtain ⟨page, hpage, hplace, hlength⟩ : ∃ page ∈ inSync.storage.pages,
        twoEvents.cursorPlace page.result.cursor = some 1 ∧ page.result.events.length = 1 := by
      decide +kernel
    have hcached : inSync.storage.Cached twoEvents 0 :=
      ⟨page, hpage, 1, hplace, by decide, by rw [hlength]⟩
    have := hnone 0 (by decide +kernel) 0 _ rfl (le_refl _) hcached
    exact absurd this (by decide +kernel)

end InSync

end PrivatePayments.Bootnode
