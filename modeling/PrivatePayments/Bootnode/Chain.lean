import Mathlib.Data.List.Infix
import Mathlib.Data.List.Induction
import PrivatePayments.Bootnode.Indexer

/-!
# PrivatePayments.Bootnode.Chain

The chain of the cached pages.

A page is stored under the cursor of its request, and a client comes to it by the cursor of the
page before. The two are the same unless an empty page, which is not stored, has moved the
cursor in between. The pages themselves cover the log without a gap (`Tiled`), whatever the
cursors are, so the chain is broken exactly there (`unbroken_iff`).
-/

namespace PrivatePayments.Bootnode

/-! ## The log behind the node -/

/-- The events of the contracts in their order, and how many of them lie before a cursor. -/
structure UpstreamLog where
  events : List Event
  sorted : events.Pairwise fun e e' => e.ledger ≤ e'.ledger
  cursorPlace : String → Option ℕ

namespace UpstreamLog

variable (log : UpstreamLog)

/-- How many events lie before a ledger. -/
def startPlace (ledger : UInt32) : ℕ := (log.events.takeWhile fun e => e.ledger < ledger).length

/-- The place that a request starts from. -/
def requestPlace : Option UInt32 → Option String → Option ℕ
  | _, some cursor => log.cursorPlace cursor
  | some ledger, none => some (log.startPlace ledger)
  | none, none => none

/-- The events between two places. -/
def between (first next : ℕ) : List Event := (log.events.drop first).take (next - first)

end UpstreamLog

/-- An answer of the node: the events from the place of the request to that of the new cursor.
Without an event the cursor stands for the same place, and may be another one. -/
structure IsPage (log : UpstreamLog) (first : ℕ) (result : GetEventsResponse) (next : ℕ) :
    Prop where
  cursorPlace : log.cursorPlace result.cursor = some next
  le : first ≤ next
  next_le : next ≤ log.events.length
  events_eq : result.events = log.between first next

/-- A node that serves the log, or fails. -/
def Serves (log : UpstreamLog) (env : Env) (upstream : UpstreamClient) : Prop :=
  ∀ page startLedger cursor result,
    upstream.getEvents page (eventsRequest env startLedger cursor) = .ok result →
    ∀ first, log.requestPlace startLedger cursor = some first →
      ∃ next, IsPage log first result next

theorem IsPage.length {log : UpstreamLog} {first next : ℕ} {result : GetEventsResponse}
    (h : IsPage log first result next) : result.events.length = next - first := by
  have hle := h.le
  have hnext := h.next_le
  rw [h.events_eq, UpstreamLog.between, List.length_take, List.length_drop]
  omega

/-! ## Following the cached pages -/

/-- The pages that a client gets, from one on, by the cursors that they return. -/
def Storage.follow (s : Storage) : Nat → Option GetEventsResponse → List GetEventsResponse
  | 0, _ => []
  | _ + 1, none => []
  | n + 1, some page => page :: s.follow n (s.getCachedGetEventsByCursor page.cursor)

/-- The page that a client gets for a start ledger. -/
def Storage.firstPage (s : Storage) (startLedger : UInt32) : Option GetEventsResponse :=
  match s.getCachedGetEventsByStartLedger startLedger with
  | .ok page => page
  | .error _ => none

/-- A client that starts at the first ledger of the deployment gets every cached page, once and
in order, and then no other. -/
def UnbrokenChain (env : Env) (s : Storage) : Prop :=
  ∀ n, s.pages.length ≤ n →
    s.follow n (s.firstPage env.minDeploymentLedger) = s.pages.map CachedPage.result

/-- Each page is stored under the cursor of the page before, the first one under none. -/
def Consecutive (pages : List CachedPage) : Prop :=
  ∀ before page rest, pages = before ++ page :: rest →
    page.cursorIn = before.getLast?.map CachedPage.cursorOut

/-- The next request goes on from the last cached page. -/
def Linked (s : Storage) : Prop := s.lastCursor = s.pages.getLast?.map CachedPage.cursorOut

/-! ## Where the pages lie in the log -/

section Tiled

variable (log : UpstreamLog) (env : Env)

/-- A cached page and the places that it lies between. -/
structure PageAt (page : CachedPage) (first next : ℕ) : Prop where
  place : log.requestPlace page.startLedger page.cursorIn = some first
  lt : first < next
  isPage : IsPage log first page.result next
  cursorOut : page.cursorOut = page.result.cursor
  lastEvent : page.lastEventLedger = page.result.events.getLast?.map Event.ledger
  start : page.cursorIn = none →
    page.startLedger = some env.minDeploymentLedger ∧ fitsInteger env.minDeploymentLedger = true

/-- The pages cover the log from the first ledger of the deployment up to a place. Only the
first one can be stored under no cursor. -/
inductive Tiled : List CachedPage → ℕ → Prop
  | nil : Tiled [] (log.startPlace env.minDeploymentLedger)
  | snoc {pages : List CachedPage} {page : CachedPage} {first next : ℕ} :
      Tiled pages first → PageAt log env page first next →
      (page.cursorIn = none → pages = []) → Tiled (pages ++ [page]) next

end Tiled

section Lookup

variable {log : UpstreamLog} {env : Env} {pages : List CachedPage} {next : ℕ}

/-- A page and what lies around it. -/
theorem Tiled.split (h : Tiled log env pages next) {before rest : List CachedPage}
    {page : CachedPage} (heq : pages = before ++ page :: rest) :
    ∃ first middle, Tiled log env before first ∧ PageAt log env page first middle ∧
      (page.cursorIn = none → before = []) ∧ middle ≤ next ∧
      ∀ other ∈ rest, ∃ first' next', PageAt log env other first' next' ∧ middle ≤ first' ∧
        other.cursorIn ≠ none := by
  induction h generalizing rest with
  | nil => simp at heq
  | @snoc pages last first next htiled hpage hfirst ih =>
      rcases List.eq_nil_or_concat rest with rfl | ⟨rest, other, rfl⟩
      · obtain ⟨rfl, hlast⟩ := List.append_inj' heq rfl
        obtain rfl := List.head_eq_of_cons_eq hlast
        exact ⟨first, next, htiled, hpage, hfirst, le_rfl, by simp⟩
      · rw [List.concat_eq_append, ← List.cons_append, ← List.append_assoc] at heq
        obtain ⟨rfl, hlast⟩ := List.append_inj' heq rfl
        obtain rfl := List.head_eq_of_cons_eq hlast
        obtain ⟨first', middle, hbefore, hat, hnone, hle, hrest⟩ := ih rfl
        refine ⟨first', middle, hbefore, hat, hnone, hle.trans hpage.lt.le, fun other hother => ?_⟩
        rw [List.concat_eq_append] at hother
        rcases List.mem_append.mp hother with hold | hnew
        · exact hrest other hold
        · rw [List.mem_singleton.mp hnew]
          exact ⟨first, next, hpage, hle, fun hcursor => by simpa using hfirst hcursor⟩

theorem Tiled.mem (h : Tiled log env pages next) {page : CachedPage} (hpage : page ∈ pages) :
    ∃ first next', PageAt log env page first next' ∧ next' ≤ next := by
  obtain ⟨before, rest, rfl⟩ := List.append_of_mem hpage
  obtain ⟨first, next', -, hat, -, hle, -⟩ := h.split rfl
  exact ⟨first, next', hat, hle⟩

/-- No two pages start from the same place. -/
theorem Tiled.eq_of_place (h : Tiled log env pages next) {page other : CachedPage} {first : ℕ}
    (hpage : page ∈ pages) (hother : other ∈ pages)
    (hplace : log.requestPlace page.startLedger page.cursorIn = some first)
    (hplace' : log.requestPlace other.startLedger other.cursorIn = some first) :
    other = page := by
  obtain ⟨before, rest, rfl⟩ := List.append_of_mem hpage
  obtain ⟨first', middle, hbefore, hat, -, -, hrest⟩ := h.split rfl
  obtain rfl : first' = first := Option.some.inj (hat.place.symm.trans hplace)
  rcases List.mem_append.mp hother with hother | hother
  · obtain ⟨p, q, hother, hle⟩ := hbefore.mem hother
    have := Option.some.inj (hother.place.symm.trans hplace')
    have := hother.lt
    omega
  · rcases List.mem_cons.mp hother with heq | hother
    · exact heq
    · obtain ⟨p, q, hother, hle, -⟩ := hrest other hother
      have := Option.some.inj (hother.place.symm.trans hplace')
      have := hat.lt
      omega

/-- The page that is stored under a cursor is found. -/
theorem Tiled.find_cursor {s : Storage} (h : Tiled log env s.pages next) {page : CachedPage}
    {cursor : String} (hpage : page ∈ s.pages) (hcursor : page.cursorIn = some cursor) :
    s.getCachedGetEventsByCursor cursor = some page.result := by
  obtain ⟨first, _, hat, -⟩ := h.mem hpage
  have hplace := hat.place
  rw [hcursor] at hplace
  rw [Storage.getCachedGetEventsByCursor]
  cases hfind : s.pages.find? fun page => page.cursorIn = some cursor with
  | none => exact absurd (by simpa using hcursor) (List.find?_eq_none.mp hfind page hpage)
  | some other =>
      have hother : other.cursorIn = some cursor := by simpa using List.find?_some hfind
      obtain rfl := h.eq_of_place hpage (List.mem_of_find?_eq_some hfind) hat.place
        (hother ▸ hplace)
      rfl

/-- The page that is stored under no cursor is found. -/
theorem Tiled.find_start {s : Storage} (h : Tiled log env s.pages next) {page : CachedPage}
    (hpage : page ∈ s.pages) (hcursor : page.cursorIn = none) :
    s.firstPage env.minDeploymentLedger = some page.result := by
  obtain ⟨first, _, hat, -⟩ := h.mem hpage
  obtain ⟨hstart, hfits⟩ := hat.start hcursor
  have hplace := hat.place
  rw [hcursor, hstart] at hplace
  rw [Storage.firstPage, Storage.getCachedGetEventsByStartLedger, if_pos hfits]
  cases hfind : s.pages.find? fun page =>
      page.cursorIn = none ∧ page.startLedger = some env.minDeploymentLedger with
  | none => exact absurd (by simpa using ⟨hcursor, hstart⟩) (List.find?_eq_none.mp hfind page hpage)
  | some other =>
      obtain ⟨hnone, hother⟩ : other.cursorIn = none ∧
          other.startLedger = some env.minDeploymentLedger := by simpa using List.find?_some hfind
      obtain rfl := h.eq_of_place hpage (List.mem_of_find?_eq_some hfind) hat.place
        (by rw [hnone, hother]; exact hplace)
      rfl

/-- What a client asks for that has got some pages. -/
def Storage.after (env : Env) (s : Storage) (done : List CachedPage) : Option GetEventsResponse :=
  match done.getLast? with
  | none => s.firstPage env.minDeploymentLedger
  | some page => s.getCachedGetEventsByCursor page.cursorOut

theorem after_eq_some {s : Storage} (h : Tiled log env s.pages next) {done : List CachedPage}
    {page : CachedPage} (hpage : page ∈ s.pages)
    (hlinked : page.cursorIn = done.getLast?.map CachedPage.cursorOut) :
    s.after env done = some page.result := by
  rw [Storage.after]
  cases hlast : done.getLast? with
  | none =>
      rw [hlast] at hlinked
      exact h.find_start hpage hlinked
  | some last =>
      rw [hlast] at hlinked
      exact h.find_cursor hpage hlinked

/-- A client that finds nothing after some linked pages has got these. -/
theorem follow_eq {s : Storage} (h : Tiled log env s.pages next) {before rest : List CachedPage}
    (hpages : s.pages = before ++ rest) (hlinked : Consecutive before)
    (hnone : s.after env before = none) :
    ∀ todo done : List CachedPage, before = done ++ todo → ∀ n, todo.length ≤ n →
      s.follow n (s.after env done) = todo.map CachedPage.result := by
  intro todo
  induction todo with
  | nil =>
      intro done hbefore n _
      rw [List.append_nil] at hbefore
      rw [← hbefore, hnone]
      cases n <;> rfl
  | cons page todo ih =>
      intro done hbefore n hn
      have hpage : page ∈ s.pages := by simp [hpages, hbefore]
      rw [after_eq_some h hpage (hlinked done page todo hbefore)]
      cases n with
      | zero => simp at hn
      | succ n =>
          have hafter : s.after env (done ++ [page]) =
              s.getCachedGetEventsByCursor page.result.cursor := by
            obtain ⟨_, _, hat, -⟩ := h.mem hpage
            rw [Storage.after, List.getLast?_concat, ← hat.cursorOut]
          have hrest := ih (done ++ [page]) (by simp [hbefore]) n (by simpa using hn)
          rw [hafter] at hrest
          rw [Storage.follow, hrest, List.map_cons]

/-- A page with the place that another one ends at comes right after it. -/
theorem Tiled.eq_of_next (h : Tiled log env pages next) {before rest : List CachedPage}
    {last other : CachedPage} (hpages : pages = before ++ last :: rest) (hother : other ∈ pages)
    (hcursor : other.cursorIn = some last.cursorOut) : rest.head? = some other := by
  obtain ⟨first, middle, hbefore, hlast, -, -, hrest⟩ := h.split hpages
  have hplace : log.requestPlace other.startLedger other.cursorIn = some middle := by
    rw [hcursor, hlast.cursorOut]
    exact hlast.isPage.cursorPlace
  have hlt := hlast.lt
  rw [hpages] at hother
  rcases List.mem_append.mp hother with hother | hother
  · obtain ⟨p, q, hat, hle⟩ := hbefore.mem hother
    have := Option.some.inj (hat.place.symm.trans hplace)
    have := hat.lt
    omega
  · rcases List.mem_cons.mp hother with rfl | hother
    · have := Option.some.inj (hlast.place.symm.trans hplace)
      omega
    · -- a page between the two would lie between a place and itself
      cases rest with
      | nil => cases hother
      | cons page rest =>
          rcases List.mem_cons.mp hother with rfl | hother
          · rfl
          · obtain ⟨p, hp, hpage, hle, -⟩ := hrest page List.mem_cons_self
            have hsplit : pages = (before ++ [last]) ++ page :: rest := by
              rw [hpages, List.append_assoc]
              rfl
            obtain ⟨first', middle', -, hpage', -, -, hafter⟩ := h.split hsplit
            obtain ⟨p', q', hat, hle', -⟩ := hafter other hother
            have := Option.some.inj (hat.place.symm.trans hplace)
            have := Option.some.inj (hpage.place.symm.trans hpage'.place)
            have := hpage'.lt
            omega

/-- Nothing is found after the pages up to one that is not stored under their last cursor. -/
theorem after_eq_none {s : Storage} (h : Tiled log env s.pages next)
    {before rest : List CachedPage} (hpages : s.pages = before ++ rest)
    (hbreak : ∀ page ∈ rest.head?, page.cursorIn ≠ before.getLast?.map CachedPage.cursorOut) :
    s.after env before = none := by
  rw [Storage.after]
  cases hlast : before.getLast? with
  | none =>
      obtain rfl := List.getLast?_eq_none_iff.mp hlast
      rw [Storage.firstPage, Storage.getCachedGetEventsByStartLedger]
      by_cases hfits : fitsInteger env.minDeploymentLedger = true
      · rw [if_pos hfits]
        cases hfind : s.pages.find? fun page =>
            page.cursorIn = none ∧ page.startLedger = some env.minDeploymentLedger with
        | none => rfl
        | some other =>
            have hnone : other.cursorIn = none := by
              have := List.find?_some hfind
              exact (of_decide_eq_true this).1
            obtain ⟨earlier, later, heq⟩ :=
              List.append_of_mem (List.mem_of_find?_eq_some hfind)
            obtain ⟨_, _, -, -, hfirst, -⟩ := h.split heq
            obtain rfl := hfirst hnone
            have hrest : rest = other :: later := by simpa using hpages.symm.trans heq
            exact absurd hnone (hbreak other (by simp [hrest]))
      · rw [if_neg hfits]
  | some last =>
      obtain ⟨init, rfl⟩ : ∃ init, before = init ++ [last] :=
        ⟨_, (List.dropLast_append_getLast? last hlast).symm⟩
      dsimp only
      rw [Storage.getCachedGetEventsByCursor]
      cases hfind : s.pages.find? fun page => page.cursorIn = some last.cursorOut with
      | none => rfl
      | some other =>
          have hcursor : other.cursorIn = some last.cursorOut := by simpa using List.find?_some hfind
          have hhead := h.eq_of_next (by rw [hpages, List.append_assoc]; rfl)
            (List.mem_of_find?_eq_some hfind) hcursor
          exact absurd (by simp [hcursor]) (hbreak other hhead)

/-- **The chain.** It is unbroken exactly if every page is stored under the cursor of the page
before. -/
theorem unbrokenChain_iff {s : Storage} (h : Tiled log env s.pages next) :
    UnbrokenChain env s ↔ Consecutive s.pages := by
  constructor
  · -- up to the first break the pages are found, and then nothing
    intro hchain before
    induction hlength : before.length using Nat.strong_induction_on generalizing before with
    | _ length ih =>
        subst hlength
        intro page rest hpages
        have hlinked : Consecutive before := fun before' page' rest' heq =>
          ih before'.length (by simp [heq]) before' rfl page' (rest' ++ page :: rest)
            (by simp [hpages, heq])
        by_contra hbreak
        have hnone : s.after env before = none := after_eq_none h hpages fun page' hpage' => by
          obtain rfl : page = page' := by simpa using hpage'
          exact hbreak
        have hgot := follow_eq h hpages hlinked hnone before [] rfl s.pages.length
          (by simp [hpages])
        have hall : before.map CachedPage.result = s.pages.map CachedPage.result :=
          hgot.symm.trans (hchain _ le_rfl)
        have := congrArg List.length hall
        simp [hpages] at this
  · intro hlinked n hn
    have hnone : s.after env s.pages = none :=
      after_eq_none h (List.append_nil _).symm (by simp)
    exact follow_eq h (List.append_nil _).symm hlinked hnone s.pages [] rfl n hn

end Lookup

/-! ## One page -/

/-- The pages cover the log up to the place that the next request starts from. -/
structure Tracked (log : UpstreamLog) (env : Env) (s : Storage) (next : ℕ) : Prop where
  tiled : Tiled log env s.pages next
  place : log.requestPlace (firstStartLedger env s.lastCursor) s.lastCursor = some next
  fresh : s.lastCursor = none → s.pages = []

section Page

variable {log : UpstreamLog} {env : Env} {s : Storage} {first next : ℕ}
  {result : GetEventsResponse}

theorem tryInteger_outcome (ledger : UInt32) (name : String) (s : Storage) :
    Outcome (tryInteger ledger name) s (fun _ s' => fitsInteger ledger = true ∧ s' = s)
      fun _ s' => fitsInteger ledger = false ∧ s' = s := by
  refine Outcome.ite (fun hfits => ?_) fun hfits => ?_
  · exact Outcome.pure ⟨hfits, rfl⟩
  · exact Outcome.throw ⟨by simpa using hfits, rfl⟩

theorem tryOptionInteger_outcome (ledger : Option UInt32) (name : String) (s : Storage) :
    Outcome (tryOptionInteger ledger name) s
      (fun _ s' => ledger.all fitsInteger = true ∧ s' = s)
      fun _ s' => ledger.all fitsInteger = false ∧ s' = s := by
  cases ledger with
  | none => exact Outcome.pure ⟨rfl, rfl⟩
  | some ledger => exact tryInteger_outcome ledger name s

theorem storeGetEventsPage_outcome (page : InsertGetEventsPage) (s : Storage) :
    Outcome (storeGetEventsPage page) s
      (fun _ s' => page.fits = true ∧ s' = { s with pages := s.pages ++ [page.row] })
      fun _ s' => page.fits = false ∧ s' = s := by
  rw [InsertGetEventsPage.fits]
  refine Outcome.bind ((tryOptionInteger_outcome page.startLedger _ s).imp (fun _ _ h => h)
    fun _ _ h => ?_) fun _ s₁ ⟨hstart, h₁⟩ => ?_
  · exact ⟨by simp [h.1], h.2⟩
  subst h₁
  refine Outcome.bind ((tryOptionInteger_outcome page.lastEventLedger _ _).imp (fun _ _ h => h)
    fun _ _ h => ?_) fun _ s₁ ⟨hlast, h₁⟩ => ?_
  · exact ⟨by simp [h.1], h.2⟩
  subst h₁
  refine Outcome.bind ((tryInteger_outcome page.latestLedger _ _).imp (fun _ _ h => h)
    fun _ _ h => ?_) fun _ s₁ ⟨hlatest, h₁⟩ => ?_
  · exact ⟨by simp [h.1], h.2⟩
  subst h₁
  refine Outcome.bind ((tryInteger_outcome page.oldestLedger _ _).imp (fun _ _ h => h)
    fun _ _ h => ?_) fun _ s₁ ⟨holdest, h₁⟩ => ?_
  · exact ⟨by simp [h.1], h.2⟩
  subst h₁
  exact Outcome.modify ⟨by simp [hstart, hlast, hlatest, holdest], rfl⟩

/-- No cached page starts where the next request does. -/
theorem Tracked.not_cached (h : Tracked log env s first) (hne : s.lastCursor ≠ none) :
    ∀ page ∈ s.pages, page.cursorIn ≠ s.lastCursor := by
  intro page hpage hcursor
  obtain ⟨p, q, hat, hle⟩ := h.tiled.mem hpage
  have hplace := h.place
  have hpage := hat.place
  rw [hcursor] at hpage
  cases hlast : s.lastCursor with
  | none => exact hne hlast
  | some cursor =>
      rw [hlast] at hplace hpage
      have := Option.some.inj (hpage.symm.trans hplace)
      have := hat.lt
      omega

/-- A page with events is stored if its numbers fit. -/
theorem Tracked.insert_outcome (h : Tracked log env s first) (hevents : result.events ≠ []) :
    let page := pageOf (firstStartLedger env s.lastCursor) s.lastCursor result
    Outcome (insertGetEventsPage page) s
      (fun _ s' => page.fits = true ∧ s' = { s with pages := s.pages ++ [page.row] })
      fun _ s' => page.fits = false ∧ s' = s := by
  intro page
  rw [insertGetEventsPage, if_neg (by simpa [page, pageOf] using hevents)]
  refine Outcome.get_bind ?_
  have hcached : s.isCached page = .ok false ∨ ∃ e, s.isCached page = .error e ∧
      page.fits = false := by
    cases hlast : s.lastCursor with
    | some cursor =>
        left
        have hnone : s.getCachedGetEventsByCursor cursor = none := by
          rw [Storage.getCachedGetEventsByCursor, Option.map_eq_none_iff, List.find?_eq_none]
          intro other hother
          have := h.not_cached (by simp [hlast]) other hother
          simpa [hlast] using this
        simp [Storage.isCached, page, pageOf, hlast, hnone]
    | none =>
        have hpages := h.fresh hlast
        by_cases hfits : fitsInteger env.minDeploymentLedger = true
        · left
          simp [Storage.isCached, page, pageOf, hlast, firstStartLedger,
            Storage.getCachedGetEventsByStartLedger, hfits, hpages]
          rfl
        · right
          refine ⟨"start_ledger exceeds postgres INTEGER range", ?_, ?_⟩
          · simp [Storage.isCached, page, pageOf, hlast, firstStartLedger,
              Storage.getCachedGetEventsByStartLedger, hfits]
            rfl
          · simp [InsertGetEventsPage.fits, page, pageOf, hlast, firstStartLedger, hfits]
  rcases hcached with hcached | ⟨e, hcached, hfits⟩
  · rw [hcached]
    exact storeGetEventsPage_outcome page s
  · rw [hcached]
    exact Outcome.throw ⟨hfits, rfl⟩

end Page

/-! ## Rounds and runs -/

theorem consecutive_concat {pages : List CachedPage} {page : CachedPage} :
    Consecutive (pages ++ [page]) ↔
      Consecutive pages ∧ page.cursorIn = pages.getLast?.map CachedPage.cursorOut := by
  constructor
  · intro h
    exact ⟨fun before other rest heq => h before other (rest ++ [page]) (by simp [heq]),
      h pages page [] rfl⟩
  · rintro ⟨h, hlast⟩ before other rest heq
    rcases List.eq_nil_or_concat rest with rfl | ⟨rest, last, rfl⟩
    · obtain ⟨rfl, hother⟩ := List.append_inj' heq rfl
      obtain rfl := List.head_eq_of_cons_eq hother
      exact hlast
    · rw [List.concat_eq_append, ← List.cons_append, ← List.append_assoc] at heq
      obtain ⟨rfl, -⟩ := List.append_inj' heq rfl
      exact h before other rest rfl

/-- The answer to a request is a page that is stored. -/
def StoresPage (env : Env) (upstream : UpstreamClient) (page : Nat) (cursor : Option String) :
    Prop :=
  ∃ result, upstream.getEvents page (eventsRequest env (firstStartLedger env cursor) cursor) =
      .ok result ∧ result.events ≠ [] ∧
    (pageOf (firstStartLedger env cursor) cursor result).fits = true

/-- The first request of a round is answered by a page that is stored. -/
def RoundStores (env : Env) (upstream : UpstreamClient) (s : Storage) : Prop :=
  ∃ tip, upstream.getLatestLedger = .ok tip ∧ fitsInteger tip = true ∧
    0 < env.cfg.maxPagesPerRound.toNat ∧ StoresPage env upstream 0 s.lastCursor

section Round

variable {log : UpstreamLog} {env : Env} {s : Storage} {first next : ℕ}
  {result : GetEventsResponse}

/-- A page is stored and its cursor is the next one. -/
theorem Tracked.stored (h : Tracked log env s first) (hp : IsPage log first result next)
    (hevents : result.events ≠ [])
    (hfits : (pageOf (firstStartLedger env s.lastCursor) s.lastCursor result).fits = true)
    {s' : Storage} (hpages : s'.pages = s.pages ++
      [(pageOf (firstStartLedger env s.lastCursor) s.lastCursor result).row])
    (hcursor : s'.lastCursor = some result.cursor) :
    Tracked log env s' next ∧ Linked s' ∧
      (Consecutive s'.pages ↔ Consecutive s.pages ∧ Linked s) := by
  have hlt : first < next := by
    have := List.length_pos_iff.mpr hevents
    rw [hp.length] at this
    omega
  refine ⟨?_, ?_, ?_⟩
  · refine { tiled := ?_, place := ?_, fresh := fun hnone => by rw [hcursor] at hnone; cases hnone }
    · rw [hpages]
      refine h.tiled.snoc {
        place := h.place, lt := hlt, isPage := hp, cursorOut := rfl, lastEvent := rfl
        start := fun hnone => ?_ } h.fresh
      have hnone : s.lastCursor = none := hnone
      simp only [InsertGetEventsPage.fits, pageOf, hnone, firstStartLedger, Option.isNone_none,
        if_true, Option.all_some, Bool.and_eq_true] at hfits
      exact ⟨by simp [InsertGetEventsPage.row, pageOf, hnone, firstStartLedger], hfits.1.1.1⟩
    · rw [hcursor]
      exact hp.cursorPlace
  · rw [Linked, hpages, hcursor, List.getLast?_concat]
    rfl
  · rw [hpages, consecutive_concat]
    rfl

/-- What some pages of a round leave: the chain is as it was, unless the first page is stored
and is not linked. -/
def AfterPages (log : UpstreamLog) (env : Env) (s : Storage) (stores : Prop) (s' : Storage) :
    Prop :=
  (∃ next, Tracked log env s' next) ∧
    (Consecutive s'.pages ↔ Consecutive s.pages ∧ (stores → Linked s))

theorem AfterPages.unchanged {stores : Prop} {s' : Storage} (h : Tracked log env s' next)
    (hpages : s'.pages = s.pages) (hstores : ¬ stores) : AfterPages log env s stores s' :=
  ⟨⟨next, h⟩, by simp [hpages, hstores]⟩

/-- Only the cursor and the pages matter. -/
theorem Tracked.congr {s' : Storage} (h : Tracked log env s next)
    (hcursor : s'.lastCursor = s.lastCursor) (hpages : s'.pages = s.pages) :
    Tracked log env s' next where
  tiled := hpages ▸ h.tiled
  place := by rw [hcursor, h.place]
  fresh hnone := by rw [hpages, h.fresh (hcursor ▸ hnone)]

theorem markCaughtUp_outcome (cursor : String) (latestLedger : UInt32) (s : Storage) :
    Outcome (markCaughtUp cursor latestLedger) s
      (fun _ s' => s'.lastCursor = some cursor ∧ s'.pages = s.pages)
      fun _ s' => s'.lastCursor = some cursor ∧ s'.pages = s.pages := by
  rw [markCaughtUp, updateCursor, setLastFullyIndexedLedger, setInSync]
  refine Outcome.bind (Outcome.modify (g := fun s => _)
    (Q := fun _ s' => s' = { s with lastCursor := some cursor }) rfl) fun _ s₁ h₁ => ?_
  subst h₁
  refine Outcome.bind (Q := fun _ s' => s'.lastCursor = some cursor ∧ s'.pages = s.pages)
    (Outcome.bind ((tryInteger_outcome latestLedger "ledger" _).imp (fun _ _ h => h)
      fun _ _ h => by rw [h.2]; exact ⟨rfl, rfl⟩) fun _ s₁ ⟨_, h₁⟩ => ?_) fun _ s₁ h₁ => ?_
  · subst h₁
    exact Outcome.modify ⟨rfl, rfl⟩
  · exact Outcome.modify h₁

/-- An empty page moves the cursor at most. -/
theorem Tracked.caughtUp (h : Tracked log env s first) (hp : IsPage log first result next)
    (hempty : result.events = []) {s' : Storage} (hcursor : s'.lastCursor = some result.cursor)
    (hpages : s'.pages = s.pages) : Tracked log env s' first where
  tiled := hpages ▸ h.tiled
  place := by
    have hlength := hp.length
    have hle := hp.le
    rw [hempty, List.length_nil] at hlength
    obtain rfl : first = next := by omega
    rw [hcursor]
    exact hp.cursorPlace
  fresh hnone := by
    rw [hcursor] at hnone
    cases hnone

/-- **The pages of a round.** -/
theorem fetchPages_outcome {upstream : UpstreamClient} (hserves : Serves log env upstream) :
    ∀ (pages page : Nat) {s : Storage} {first : ℕ}, Tracked log env s first →
      let stores := 0 < pages ∧ StoresPage env upstream page s.lastCursor
      Outcome (fetchPages env upstream pages page (firstStartLedger env s.lastCursor)
        s.lastCursor) s (fun _ s' => AfterPages log env s stores s')
        fun _ s' => AfterPages log env s stores s' := by
  intro pages
  induction pages with
  | zero => exact fun page s first h => Outcome.pure (.unchanged h rfl (by simp))
  | succ pages ih =>
      intro page s first h stores
      rw [fetchPages]
      cases hanswer : upstream.getEvents page
          (eventsRequest env (firstStartLedger env s.lastCursor) s.lastCursor) with
      | error e =>
          refine Outcome.throw (.unchanged h rfl fun hstores => ?_)
          obtain ⟨-, result, hresult, -⟩ := hstores
          rw [hanswer] at hresult
          cases hresult
      | ok result =>
          obtain ⟨next, hp⟩ := hserves page _ _ result hanswer first h.place
          dsimp only
          refine Outcome.ite (fun hempty => ?_) fun hevents => ?_
          · have hempty : result.events = [] := by simpa using hempty
            have hstores : ¬ stores := by
              rintro ⟨-, result', hresult', hevents, -⟩
              rw [hanswer] at hresult'
              obtain rfl := Except.ok.inj hresult'
              exact hevents hempty
            have hafter : ∀ s' : Storage, s'.lastCursor = some result.cursor ∧
                s'.pages = s.pages → AfterPages log env s stores s' := fun s' hs' =>
              .unchanged (h.caughtUp hp hempty hs'.1 hs'.2) hs'.2 hstores
            exact (markCaughtUp_outcome _ _ s).imp (fun _ => hafter) fun _ => hafter
          · have hevents : result.events ≠ [] := by simpa using hevents
            refine Outcome.bind (Outcome.modify (Q := fun _ s' => s' = { s with inSync := false })
              rfl) fun _ s₀ h₀ => ?_
            have h' : Tracked log env s₀ first := h.congr (by rw [h₀]) (by rw [h₀])
            have hcursor₀ : s₀.lastCursor = s.lastCursor := by rw [h₀]
            have hpages₀ : s₀.pages = s.pages := by rw [h₀]
            have hinsert := h'.insert_outcome hevents
            rw [hcursor₀] at hinsert
            refine Outcome.bind (hinsert.imp (fun _ _ hs => hs) fun _ s₁ ⟨hfits, h₁⟩ => ?_)
              fun _ s₁ ⟨hfits, h₁⟩ => ?_
            · subst h₁
              refine .unchanged h' hpages₀ ?_
              rintro ⟨-, result', hresult', -, hfits'⟩
              rw [hanswer] at hresult'
              obtain rfl := Except.ok.inj hresult'
              rw [hfits] at hfits'
              cases hfits'
            · refine Outcome.bind (Outcome.modify
                (Q := fun _ s' => s' = { s₁ with lastCursor := some result.cursor }) rfl)
                fun _ s₂ h₂ => ?_
              have hcursor₂ : s₂.lastCursor = some result.cursor := by rw [h₂]
              have hpages₂ : s₂.pages = s.pages ++
                  [(pageOf (firstStartLedger env s.lastCursor) s.lastCursor result).row] := by
                rw [h₂, h₁, hpages₀]
              obtain ⟨htracked, hlinked, hchain⟩ := h.stored hp hevents hfits hpages₂ hcursor₂
              have hrest := ih (page + 1) htracked
              rw [hcursor₂] at hrest
              have hafter : ∀ s' : Storage, AfterPages log env s₂
                  (0 < pages ∧ StoresPage env upstream (page + 1) (some result.cursor)) s' →
                  AfterPages log env s stores s' := by
                rintro s' ⟨htracked', hchain'⟩
                refine ⟨htracked', hchain'.trans ?_⟩
                have hstores : stores := ⟨Nat.succ_pos _, result, hanswer, hevents, hfits⟩
                simp [hchain, hlinked, hstores]
              exact hrest.imp (fun _ => hafter) fun _ => hafter

theorem onStorage_outcome {α : Type} {body : StorageM α} {state : AppState}
    {Q : α → AppState → Prop} {E : String → AppState → Prop}
    (h : Outcome body state.storage (fun a s' => Q a { state with storage := s' })
      fun e s' => E e { state with storage := s' }) : Outcome (onStorage body) state Q E := by
  unfold Outcome at h
  cases hrun : body.run state.storage with
  | ok a s' =>
      rw [hrun] at h
      have hok : (onStorage body).run state = .ok a { state with storage := s' } := by
        simp only [onStorage, EStateM.run] at hrun ⊢
        rw [hrun]
      exact (Outcome.of_ok hok).mpr h
  | error e s' =>
      rw [hrun] at h
      have herror : (onStorage body).run state = .error e { state with storage := s' } := by
        simp only [onStorage, EStateM.run] at hrun ⊢
        rw [hrun]
      exact (Outcome.of_error herror).mpr h

/-- **A round.** -/
theorem Tracked.round {state : AppState} {upstream : UpstreamClient}
    (hserves : Serves log env upstream) (h : Tracked log env state.storage first) :
    AfterPages log env state.storage (RoundStores env upstream state.storage)
      (step env state (.round upstream)).storage := by
  refine Outcome.of_final (P := fun state' : AppState => AfterPages log env state.storage
    (RoundStores env upstream state.storage) state'.storage) ?_
  rw [runRound]
  cases htip : upstream.getLatestLedger with
  | error e =>
      refine Outcome.throw (.unchanged h rfl ?_)
      rintro ⟨tip, htip', -⟩
      rw [htip] at htip'
      cases htip'
  | ok tip =>
      refine Outcome.bind (Outcome.modify (Q := fun _ (state' : AppState) =>
        state'.storage = state.storage) rfl) fun _ state₁ hstate₁ => ?_
      refine onStorage_outcome ?_
      rw [hstate₁, setLedgerTip]
      refine Outcome.bind (Q := fun _ s' => fitsInteger tip = true ∧
        s' = { state.storage with ledgerTip := tip }) (Outcome.bind
        ((tryInteger_outcome tip "ledger_tip" _).imp (fun _ _ h => h) fun _ s' hs' => ?_)
        fun _ s₁ ⟨hfits, h₁⟩ => ?_) fun _ s₂ ⟨hfits, h₂⟩ => ?_
      · rw [hs'.2]
        refine .unchanged h rfl ?_
        rintro ⟨tip', htip', hfits, -⟩
        rw [htip] at htip'
        obtain rfl := Except.ok.inj htip'
        rw [hs'.1] at hfits
        cases hfits
      · subst h₁
        exact Outcome.modify ⟨hfits, rfl⟩
      · refine Outcome.get_bind ?_
        have hcursor : s₂.lastCursor = state.storage.lastCursor := by rw [h₂]
        have hpages : s₂.pages = state.storage.pages := by rw [h₂]
        have hround := fetchPages_outcome hserves env.cfg.maxPagesPerRound.toNat 0
          (h.congr hcursor hpages)
        have hafter : ∀ s' : Storage, AfterPages log env s₂
            (0 < env.cfg.maxPagesPerRound.toNat ∧ StoresPage env upstream 0 s₂.lastCursor) s' →
            AfterPages log env state.storage (RoundStores env upstream state.storage) s' := by
          rintro s' ⟨htracked, hchain⟩
          have hstores : RoundStores env upstream state.storage ↔
              0 < env.cfg.maxPagesPerRound.toNat ∧ StoresPage env upstream 0 s₂.lastCursor := by
            simp [RoundStores, htip, hfits, hcursor]
          have hlinked : Linked s₂ ↔ Linked state.storage := by
            rw [Linked, Linked, hcursor, hpages]
          rw [hpages, hlinked] at hchain
          rw [hstores]
          exact ⟨htracked, hchain⟩
        exact hround.imp (fun _ => hafter) fun _ => hafter

theorem tracked_empty (log : UpstreamLog) (env : Env) :
    Tracked log env .empty (log.startPlace env.minDeploymentLedger) where
  tiled := .nil
  place := rfl
  fresh _ := rfl

theorem run_append (env : Env) (before rest : List BootnodeStep) :
    run env (before ++ rest) = rest.foldl (step env) (run env before) := List.foldl_append

theorem Tracked.run (log : UpstreamLog) (env : Env) (steps : List BootnodeStep)
    (hserves : ∀ upstream, .round upstream ∈ steps → Serves log env upstream) :
    ∃ next, Tracked log env (Bootnode.run env steps).storage next := by
  induction steps using List.reverseRecOn with
  | nil => exact ⟨_, tracked_empty log env⟩
  | append_singleton steps last ih =>
      obtain ⟨next, h⟩ := ih fun upstream hmem => hserves upstream (List.mem_append_left _ hmem)
      rw [run_append]
      cases last with
      | round upstream => exact (h.round (hserves upstream (by simp))).1
      | setup => exact ⟨next, h⟩

end Round

/-- **When the chain is unbroken.** In a run against nodes that serve the log, a client that
starts at the first ledger of the deployment and follows the cursors gets every cached page in
every state exactly if each round whose first request is answered by a page that is stored goes
on from the cursor of the last cached page. -/
theorem unbroken_iff (log : UpstreamLog) (env : Env) (steps : List BootnodeStep)
    (hserves : ∀ upstream, .round upstream ∈ steps → Serves log env upstream) :
    (∀ before, before <+: steps → UnbrokenChain env (run env before).storage) ↔
      ∀ before upstream rest, steps = before ++ .round upstream :: rest →
        RoundStores env upstream (run env before).storage →
        Linked (run env before).storage := by
  have hchain : ∀ before, before <+: steps →
      (UnbrokenChain env (run env before).storage ↔
        Consecutive (run env before).storage.pages) := by
    rintro before ⟨rest, rfl⟩
    obtain ⟨next, h⟩ := Tracked.run log env before fun upstream hmem =>
      hserves upstream (List.mem_append_left _ hmem)
    exact unbrokenChain_iff h.tiled
  rw [forall₂_congr hchain]
  clear hchain
  induction steps using List.reverseRecOn with
  | nil =>
      refine iff_of_true (fun before hbefore => ?_) fun before upstream rest heq => by simp at heq
      rw [List.prefix_nil.mp hbefore]
      intro before page rest heq
      simp [run, setup, Storage.empty] at heq
  | append_singleton steps last ih =>
      have hserves' : ∀ upstream, .round upstream ∈ steps → Serves log env upstream :=
        fun upstream hmem => hserves upstream (List.mem_append_left _ hmem)
      obtain ⟨next, h⟩ := Tracked.run log env steps hserves'
      -- the last step breaks the chain if it stores a page that is not linked
      have hlast : Consecutive (run env (steps ++ [last])).storage.pages ↔
          Consecutive (run env steps).storage.pages ∧ ∀ upstream, last = .round upstream →
            RoundStores env upstream (run env steps).storage → Linked (run env steps).storage := by
        rw [run_append]
        cases last with
        | round upstream =>
            refine (h.round (hserves upstream (by simp))).2.trans (and_congr_right fun _ => ?_)
            simp
        | setup => exact ⟨fun h => ⟨h, by simp⟩, fun h => h.1⟩
      constructor
      · intro hall before upstream rest heq hstores
        rcases List.eq_nil_or_concat rest with rfl | ⟨rest, other, rfl⟩
        · obtain ⟨rfl, hround⟩ := List.append_inj' heq rfl
          obtain rfl := List.head_eq_of_cons_eq hround
          exact (hlast.mp (hall _ (List.prefix_refl _))).2 upstream rfl hstores
        · rw [List.concat_eq_append, ← List.cons_append, ← List.append_assoc] at heq
          obtain ⟨rfl, -⟩ := List.append_inj' heq rfl
          exact (ih hserves').mp (fun before hbefore => hall before
            (hbefore.trans (List.prefix_append _ _))) before upstream rest rfl hstores
      · intro hall before hbefore
        have hsteps := (ih hserves').mpr fun before upstream rest heq =>
          hall before upstream (rest ++ [last]) (by simp [heq])
        rcases List.prefix_concat_iff.mp hbefore with rfl | hbefore
        · refine hlast.mpr ⟨hsteps steps (List.prefix_refl _), fun upstream hround => ?_⟩
          exact hall steps upstream [] (by rw [hround])
        · exact hsteps before hbefore

/-! ### Two events -/

section TwoEvents

/-- Two events; the place of a cursor is the number of its `x`. -/
def twoEvents : UpstreamLog where
  events := [{ id := "e0", ledger := 5 }, { id := "e1", ledger := 9 }]
  sorted := by decide
  cursorPlace cursor := if cursor.toList.count 'x' ≤ 2 then some (cursor.toList.count 'x') else none

def smallEnv : Env where
  cfg := { redirectDays := 5, ledgerSeconds := 5, maxPagesPerRound := 10, pageSize := 300
           initialLedgerTip := 0 }
  contractIds := ["A"]
  minDeploymentLedger := 1

/-- A node that serves one event a page, as long as there are some, and then empty pages whose
cursor has a suffix. -/
def oneByOne (visible : Nat) (suffix : List Char) : UpstreamClient where
  getLatestLedger := .ok 3000000
  getEvents _ params :=
    match twoEvents.requestPlace params.startLedger params.pagination.cursor with
    | none => .error "invalid cursor"
    | some first =>
        let next := if first < visible then first + 1 else first
        .ok {
          events := twoEvents.between first next
          latestLedger := 3000000
          oldestLedger := 1
          cursor := String.ofList (List.replicate next 'x' ++
            if next = first then suffix else []) }

theorem requestPlace_le {startLedger : Option UInt32} {cursor : Option String} {first : ℕ}
    (h : twoEvents.requestPlace startLedger cursor = some first) : first ≤ 2 := by
  cases cursor with
  | some cursor =>
      by_cases hle : cursor.toList.count 'x' ≤ 2
      · have h : (if cursor.toList.count 'x' ≤ 2 then some (cursor.toList.count 'x') else none) =
            some first := h
        rw [if_pos hle] at h
        exact Option.some.inj h ▸ hle
      · have h : (if cursor.toList.count 'x' ≤ 2 then some (cursor.toList.count 'x') else none) =
            some first := h
        rw [if_neg hle] at h
        cases h
  | none =>
      cases startLedger with
      | none => cases h
      | some ledger =>
          obtain rfl := Option.some.inj h
          exact (List.takeWhile_prefix _).length_le

theorem oneByOne_serves {visible : Nat} (hvisible : visible ≤ 2) {suffix : List Char}
    (hsuffix : suffix.count 'x' = 0) : Serves twoEvents smallEnv (oneByOne visible suffix) := by
  intro page startLedger cursor result hresult first hfirst
  have hle := requestPlace_le hfirst
  simp only [oneByOne, eventsRequest, GetEventsParams.forContracts, hfirst, Except.ok.injEq]
    at hresult
  subst hresult
  refine ⟨if first < visible then first + 1 else first, ?_⟩
  have hnext : (if first < visible then first + 1 else first) ≤ 2 := by split <;> omega
  have hcount : ∀ next : ℕ, ((List.replicate next 'x' ++
      if next = first then suffix else []).count 'x') = next := by
    intro next
    split <;> simp [hsuffix]
  exact {
    cursorPlace := by
      show (if (String.ofList _).toList.count 'x' ≤ 2 then
        some ((String.ofList _).toList.count 'x') else none) = _
      rw [String.toList_ofList, hcount, if_pos hnext]
    le := by split <;> omega
    next_le := hnext
    events_eq := rfl }

/-- Two rounds, of which the first one sees one event. -/
def twoRounds (suffix : List Char) : List BootnodeStep :=
  [.round (oneByOne 1 suffix), .round (oneByOne 2 suffix)]

theorem twoRounds_serves {suffix : List Char} (hsuffix : suffix.count 'x' = 0) :
    ∀ upstream, .round upstream ∈ twoRounds suffix → Serves twoEvents smallEnv upstream := by
  intro upstream hupstream
  simp only [twoRounds, List.mem_cons, BootnodeStep.round.injEq, List.not_mem_nil, or_false]
    at hupstream
  rcases hupstream with rfl | rfl
  · exact oneByOne_serves (by decide) hsuffix
  · exact oneByOne_serves (by decide) hsuffix

instance (s : Storage) : Decidable (Linked s) := by
  unfold Linked
  infer_instance

/-- The empty page returns the cursor of its request. -/
theorem unbroken_iff_sameCursor :
    UnbrokenChain smallEnv (run smallEnv (twoRounds [])).storage := by
  refine (unbroken_iff twoEvents smallEnv (twoRounds []) (twoRounds_serves (by decide))).mpr ?_ _
    (List.prefix_refl _)
  have hlinked : ∀ before ∈ (twoRounds []).inits, Linked (run smallEnv before).storage := by
    decide +kernel
  exact fun before upstream rest heq _ => hlinked before ((List.mem_inits _ _).mpr ⟨_, heq.symm⟩)

/-- The empty page returns another cursor, and the second event is stored under that one. -/
theorem moved_cursor_breaks :
    (∀ upstream, .round upstream ∈ twoRounds ['y'] → Serves twoEvents smallEnv upstream) ∧
    ¬ UnbrokenChain smallEnv (run smallEnv (twoRounds ['y'])).storage := by
  refine ⟨twoRounds_serves (by decide), fun hchain => ?_⟩
  have htwo : (run smallEnv (twoRounds ['y'])).storage.pages.length = 2 := by decide +kernel
  have hone : ((run smallEnv (twoRounds ['y'])).storage.follow 2
      ((run smallEnv (twoRounds ['y'])).storage.firstPage smallEnv.minDeploymentLedger)).length =
        1 := by decide +kernel
  rw [hchain 2 htwo.le, List.length_map, htwo] at hone
  cases hone

end TwoEvents

end PrivatePayments.Bootnode
