import PrivatePayments.Web.EventsProcessor

/-!
# PrivatePayments.Web.EventsProcessorSound

The processor of the storage worker misses no work.

Every write of a request is followed by a wake-up before anything else runs, and a full channel
already holds one; a pass ends only after a round that found nothing. So an idle processor
leaves nothing to do, whatever came in between its rounds (`no_lost_wakeup`). And when every
raw event can be processed it gets there: each round leaves less to do (`processor_stops`).
-/

namespace PrivatePayments.Web

open State Prover

/-! ## The database of the worker -/

/-- Every key row belongs to an account. -/
def KeysOwned (s : Storage) : Prop :=
  ∀ k ∈ Table.columns s.keypairs, ∃ a ∈ s.accounts, a.rowid = k.accountId

/-- What every step keeps of the database. -/
structure WorkerOk (xdr : Xdr) (box : NoteBox) (s : Storage) : Prop where
  client : ∃ chain, ClientOk xdr box chain s
  complete : NotesComplete (deriveUserNote box) s
  owned : KeysOwned s

section Database

variable {xdr : Xdr} {box : NoteBox} {s s' : Storage}

theorem WorkerOk.empty : WorkerOk xdr box Storage.empty :=
  ⟨⟨[], .empty⟩, .empty, fun _ h => by cases h⟩

theorem WorkerOk.pipeline (hs : WorkerOk xdr box s) : Pipeline xdr s := by
  obtain ⟨chain, hclient⟩ := hs.client
  exact hclient.pipeline

theorem WorkerOk.writes (hs : WorkerOk xdr box s) :
    Writes (deriveUserNote box) Storage.empty s := by
  obtain ⟨chain, hclient⟩ := hs.client
  exact hclient.writes

theorem KeysOwned.congr (hs : KeysOwned s) (haccounts : s'.accounts = s.accounts)
    (hkeypairs : s'.keypairs = s.keypairs) : KeysOwned s' := by
  unfold KeysOwned
  rw [haccounts, hkeypairs]
  exact hs

/-- The account of an address, found or created. -/
theorem getOrCreateAccount_outcome (s : Storage) (address : String) :
    Outcome (getOrCreateAccount address) s
      (fun accountId s' => s' = { s with accounts := Table.insertNew id s.accounts address } ∧
        ∃ a ∈ s'.accounts, a.rowid = accountId)
      fun _ _ => True := by
  unfold getOrCreateAccount
  refine Outcome.bind (.modify (Q := fun _ s' => s' =
    { s with accounts := Table.insertNew id s.accounts address }) rfl)
    fun _ s₁ hs₁ => Outcome.get_bind ?_
  split
  · next a ha => exact .pure ⟨hs₁, a, List.mem_of_find?_eq_some ha, rfl⟩
  · exact .throw trivial

theorem accounts_subset_insertNew (accounts : Table String) (address : String) :
    accounts ⊆ Table.insertNew id accounts address := by
  unfold Table.insertNew
  split
  · exact List.Subset.refl _
  · exact List.subset_append_left _ _

theorem KeysOwned.saveKeys (hs : KeysOwned s) (address : String) (note : NoteKeyPair)
    (encryption : EncryptionKeyPair) (blinding : Fr) :
    Outcome (saveEncryptionAndNoteKeypairs address note encryption blinding) s
      (fun _ => KeysOwned) fun _ => KeysOwned := by
  refine outcome_transaction (E := fun _ => KeysOwned) ?_
  refine Outcome.bind ((getOrCreateAccount_outcome s address).imp (fun _ _ h => h) fun _ _ _ => hs)
    fun accountId s₁ hs₁ => .modify ?_
  obtain ⟨hframe, a, ha, hid⟩ := hs₁
  intro k hk
  rw [Table.columns_insert, List.mem_append] at hk
  rcases hk with hold | hnew
  · rw [hframe] at hold
    obtain ⟨a', ha', hid'⟩ := hs k hold
    exact ⟨a', hframe ▸ accounts_subset_insertNew s.accounts address ha', hid'⟩
  · obtain rfl := List.mem_singleton.mp hnew
    exact ⟨a, ha, hid⟩

/-- Every call of the client keeps the database. -/
theorem WorkerOk.after (hs : WorkerOk xdr box s) (op : ClientOp) :
    WorkerOk xdr box (op.after xdr box s) := by
  have hclient : ∃ chain, ClientOk xdr box chain (op.after xdr box s) := by
    obtain ⟨chain, hpipeline, hstored, hwrites⟩ := hs.client
    have hmore : ClientOk xdr box (chain ++ op.saved) s :=
      ⟨hpipeline, List.Subset.trans hstored (List.map_subset _ (List.subset_append_left _ _)), hwrites⟩
    exact ⟨_, hmore.after (List.subset_append_right _ _)⟩
  refine ⟨hclient, hs.complete.after op, ?_⟩
  cases op with
  | save events =>
      show KeysOwned (leaves (saveEventsBatch events) s)
      rw [leaves_of_ok (saveEventsBatch_run events s)]
      have hkeys : ∀ (events : List ContractEvent) s, KeysOwned s →
          KeysOwned (events.foldl Storage.addEvent s) := by
        intro events
        induction events with
        | nil => exact fun _ h => h
        | cons event events ih =>
            intro s h
            have hframe : (s.addEvent event).accounts = s.accounts ∧
                (s.addEvent event).keypairs = s.keypairs := by
              unfold Storage.addEvent Storage.withContract
              split <;> exact ⟨rfl, rfl⟩
            exact ih (s.addEvent event) (h.congr hframe.1 hframe.2)
      exact hkeys events s hs.owned
  | process limit =>
      show KeysOwned (leaves (processEvents xdr limit) s)
      by_cases hnil : getUnprocessedEvents s limit = []
      · rw [leaves_of_ok (processEvents_run_nil hnil)]
        exact hs.owned
      · rw [leaves_of_ok (hs.pipeline.processEvents_run hnil)]
        exact hs.owned
  | saveKeys address note encryption blinding =>
      exact leaves_of_outcome (hs.owned.saveKeys address note encryption blinding)
  | scan totalLimit =>
      have hordered := hs.pipeline.commitments.valid.ordered
      have hscan : ScanRun (deriveUserNote box) s _ :=
        leaves_of_outcome ((scan_outcome hordered totalLimit).imp (fun _ _ h => h.1)
          fun _ _ h => h.1)
      obtain ⟨notes, marks, hframe⟩ := hscan.frame
      show KeysOwned (leaves _ s)
      rw [hframe]
      exact hs.owned
  | reconcile limit =>
      have hmatches : Matches s _ :=
        leaves_of_outcome ((reconcile_matches limit).imp (fun _ _ h => h.1) fun _ _ h => h)
      obtain ⟨⟨notes, marks, hframe⟩, -⟩ := hmatches
      show KeysOwned (leaves _ s)
      rw [hframe]
      exact hs.owned

/-! ## New accounts -/

/-- The database with an account that may be new. -/
def withAccount (s : Storage) (address : String) : Storage :=
  { s with accounts := Table.insertNew id s.accounts address }

theorem leaves_disclaimer (s : Storage) (address : String) :
    leaves (transaction (getOrCreateAccount address)) s = s ∨
      leaves (transaction (getOrCreateAccount address)) s = withAccount s address :=
  leaves_of_outcome (outcome_transaction (E := fun _ s' => s' = s ∨ s' = withAccount s address)
    ((getOrCreateAccount_outcome s address).imp (fun _ _ h => .inr h.1) fun _ _ _ => .inl rfl))

theorem WorkerOk.withAccount (hs : WorkerOk xdr box s) (address : String) :
    WorkerOk xdr box (withAccount s address) := by
  obtain ⟨chain, hclient⟩ := hs.client
  refine ⟨⟨chain, hclient.localRun ⟨.single (.account address), _, _, _, _, _, rfl⟩⟩,
    hs.complete.other ⟨_, _, _, _, rfl⟩, fun k hk => ?_⟩
  obtain ⟨a, ha, hid⟩ := hs.owned k hk
  exact ⟨a, accounts_subset_insertNew s.accounts address ha, hid⟩

/-- A new account has no keys yet. -/
theorem accountKeys_withAccount (hs : WorkerOk xdr box s) (address : String) :
    getAccountsWithLatestKeypairs (withAccount s address) =
      getAccountsWithLatestKeypairs s := by
  have hordered : Table.Ordered s.accounts :=
    (hs.writes.keeps (P := Referenced) (fun _ _ hs hwrite => hs.write hwrite)
      ⟨Storage.linked_empty, Table.ordered_nil⟩).accounts
  have hsorted : ∀ {accounts : Table String}, Table.Ordered accounts →
      Table.orderBy Table.Row.rowid accounts = accounts := fun h =>
    Table.orderBy_eq_of_perm (.refl _) h
  have hfresh : s.latestKeypair? (Table.nextRowid s.accounts) = none := by
    cases hlatest : s.latestKeypair? (Table.nextRowid s.accounts) with
    | none => rfl
    | some k =>
        obtain ⟨hk, hid⟩ := latestKeypair?_some hlatest
        obtain ⟨a, ha, hrowid⟩ := hs.owned k hk
        have := Table.rowid_lt_nextRowid ha
        omega
  unfold getAccountsWithLatestKeypairs withAccount
  rw [hsorted hordered, hsorted hordered.insertNew]
  show (Table.insertNew id s.accounts address).filterMap (fun a =>
    (s.latestKeypair? a.rowid).map KeypairColumns.toAccountKeys) = _
  unfold Table.insertNew
  split
  · rfl
  · unfold Table.insert
    rw [List.filterMap_append]
    simp [hfresh]

theorem AtRest.withAccount (hs : WorkerOk xdr box s) (hrest : AtRest s) (address : String) :
    AtRest (withAccount s address) := by
  refine ⟨hrest.processed, fun p account haccount => ?_, hrest.settled.matched⟩
  rw [accountKeys_withAccount hs] at haccount
  exact hrest.settled.scanned p account haccount

end Database

/-! ## Steps -/

section Steps

variable {xdr : Xdr} {box : NoteBox} {w : Worker}

theorem kick_wakeups : 0 < w.kick.wakeups := by
  unfold Worker.kick
  split
  · exact Nat.succ_pos _
  · next h => exact (Nat.zero_lt_two).trans_le (Nat.le_of_not_lt h)

@[simp] theorem kick_storage : w.kick.storage = w.storage := by
  unfold Worker.kick
  split <;> rfl

/-- A transaction that fails changes nothing. -/
theorem eq_of_transaction_error {α : Type} {body : Db α} {s s' : Storage} {e : String}
    (h : (transaction body).run s = .error e s') : s' = s := by
  simp only [transaction, EStateM.run] at h
  split at h
  · cases h
  · cases h
    rfl

/-- What the processor's state says about the database. -/
structure WorkerInv (xdr : Xdr) (box : NoteBox) (w : Worker) : Prop where
  storage : WorkerOk xdr box w.storage
  rest : w.Idle → AtRest w.storage

/-- A write that leaves the database as it is when it fails, and a wake-up after it. -/
theorem WorkerInv.saveAndKick (hw : WorkerInv xdr box w) {write : Db Unit}
    (hstorage : WorkerOk xdr box (leaves write w.storage))
    (hfails : ∀ e s, write.run w.storage = .error e s → s = w.storage) :
    WorkerInv xdr box (w.saveAndKick write) := by
  unfold Worker.saveAndKick
  cases hrun : write.run w.storage with
  | ok a s =>
      rw [leaves_of_ok hrun] at hstorage
      dsimp only
      refine ⟨by rwa [kick_storage], fun hidle => ?_⟩
      exact absurd hidle.wakeups kick_wakeups.ne'
  | error e s =>
      obtain rfl := hfails e s hrun
      exact hw

theorem WorkerInv.router (hw : WorkerInv xdr box w) (req : WorkerRequest) :
    WorkerInv xdr box (w.router req) := by
  unfold Worker.router
  split
  · cases req with
    | ping =>
        refine ⟨by rw [kick_storage]; exact hw.storage, fun hidle => ?_⟩
        exact absurd hidle.wakeups kick_wakeups.ne'
    | saveEvents events =>
        refine hw.saveAndKick (hw.storage.after (.save events)) fun e s hrun => ?_
        rw [saveEventsBatch_run] at hrun
        cases hrun
    | deriveSaveUserKeys address note encryption blinding =>
        refine hw.saveAndKick (hw.storage.after (.saveKeys address note encryption blinding))
          fun e s hrun => ?_
        exact eq_of_transaction_error hrun
    | disclaimer address =>
        dsimp only
        rcases leaves_disclaimer w.storage address with hsame | hnew
        · rw [hsame]
          exact hw
        · rw [hnew]
          exact ⟨hw.storage.withAccount address, fun hidle =>
            AtRest.withAccount hw.storage (hw.rest ⟨hidle.waiting, hidle.wakeups, hidle.lastPass⟩)
              address⟩
  · exact hw

theorem WorkerInv.round (hw : WorkerInv xdr box w) (hprocessing : w.processor = .processing) :
    WorkerInv xdr box (w.round xdr box) := by
  have hkept : WorkerOk xdr box (leaves (processRound xdr box fetchLimit) w.storage) :=
    processRound_keeps (fun s op _ hs => hs.after op) hw.storage fetchLimit
  have houtcome : Outcome (processRound xdr box fetchLimit) w.storage _ _ :=
    processRound_outcome hw.storage.pipeline (by decide)
  unfold Worker.round
  cases hrun : (processRound xdr box fetchLimit).run w.storage with
  | error e s =>
      rw [leaves, hrun] at hkept
      exact ⟨hkept, fun hidle => nomatch hidle.lastPass⟩
  | ok more s =>
      rw [leaves_of_ok hrun] at hkept
      obtain ⟨hrest, -⟩ := houtcome.ok hrun
      cases more with
      | true =>
          refine ⟨hkept, fun hidle => ?_⟩
          have hwaiting : w.processor = .waiting := hidle.waiting
          rw [hprocessing] at hwaiting
          cases hwaiting
      | false => exact ⟨hkept, fun _ => hrest rfl⟩

/-- Every step keeps the invariant. -/
theorem WorkerInv.step (hw : WorkerInv xdr box w) (step : WorkerStep) :
    WorkerInv xdr box (w.step xdr box step) := by
  cases step with
  | init =>
      show WorkerInv xdr box (if w.ready then w else _)
      split
      · exact hw
      · exact ⟨hw.storage, fun hidle => nomatch hidle.lastPass⟩
  | request req => exact hw.router req
  | wake =>
      show WorkerInv xdr box (if w.processor = .waiting ∧ 0 < w.wakeups then _ else w)
      split
      · exact ⟨hw.storage, fun hidle => nomatch hidle.waiting⟩
      · exact hw
  | round =>
      show WorkerInv xdr box (if w.processor = .processing then _ else w)
      split
      · next hprocessing => exact hw.round hprocessing
      · exact hw
  | close => exact ⟨hw.storage, fun hidle => nomatch hidle.lastPass⟩

theorem WorkerInv.run (xdr : Xdr) (box : NoteBox) (steps : List WorkerStep) :
    WorkerInv xdr box (workerRun xdr box steps) := by
  have hfold : ∀ w, WorkerInv xdr box w →
      WorkerInv xdr box (steps.foldl (Worker.step xdr box) w) := by
    induction steps with
    | nil => exact fun _ hw => hw
    | cons step steps ih => exact fun w hw => ih _ (hw.step step)
  exact hfold _ ⟨.empty, fun hidle => nomatch hidle.lastPass⟩

/-- In every run, an idle processor leaves nothing to do: every raw event is processed, every
commitment was offered to every account, and every nullifier to the notes. -/
theorem no_lost_wakeup (xdr : Xdr) (box : NoteBox) (steps : List WorkerStep)
    (hidle : (workerRun xdr box steps).Idle) : AtRest (workerRun xdr box steps).storage :=
  (WorkerInv.run xdr box steps).rest hidle

/-- `Worker.Idle`, computed. -/
def isIdle (w : Worker) : Bool :=
  match w.processor, w.wakeups, w.lastPass with
  | .waiting, 0, some (.ok ()) => true
  | _, _, _ => false

theorem idle_of_isIdle (h : isIdle w = true) : w.Idle := by
  unfold isIdle at h
  split at h
  · next hwaiting hwakeups hlast => exact ⟨hwaiting, hwakeups, hlast⟩
  · cases h

/-- Events are saved while nothing else is, and an account is opened between two rounds. -/
def oneOutputSteps : List WorkerStep := [
  .init, .request (.saveEvents oneOutput), .wake, .round, .request (.disclaimer "user"), .round]

theorem no_lost_wakeup_oneOutput :
    AtRest (workerRun wireXdr closedBox oneOutputSteps).storage ∧
      (workerRun wireXdr closedBox oneOutputSteps).storage.poolCommitments.length = 1 := by
  have hrun : isIdle (workerRun wireXdr closedBox oneOutputSteps) = true ∧
      (workerRun wireXdr closedBox oneOutputSteps).storage.poolCommitments.length = 1 := by
    decide +kernel
  exact ⟨no_lost_wakeup wireXdr closedBox oneOutputSteps (idle_of_isIdle hrun.1), hrun.2⟩

end Steps

/-! ## Passes end -/

section Passes

variable {xdr : Xdr} {box : NoteBox} {s : Storage} {w : Worker}

/-- Only saves add raw events. -/
theorem storedEvents_after (hs : WorkerOk xdr box s) {op : ClientOp} (hop : op.saved = []) :
    (op.after xdr box s).storedEvents = s.storedEvents := by
  have hlocal : ∀ s', LocalRun (deriveUserNote box) s s' → s'.storedEvents = s.storedEvents := by
    intro s' h
    obtain ⟨accounts, keypairs, notes, marks, marks', rfl⟩ := h.frame
    rfl
  cases op with
  | save events =>
      obtain rfl : events = [] := hop
      exact congrArg Storage.storedEvents (leaves_of_ok (saveEventsBatch_run [] s))
  | process limit =>
      show (leaves (processEvents xdr limit) s).storedEvents = _
      by_cases hnil : getUnprocessedEvents s limit = []
      · rw [leaves_of_ok (processEvents_run_nil hnil)]
      · rw [leaves_of_ok (hs.pipeline.processEvents_run hnil)]
        rfl
  | saveKeys address note encryption blinding =>
      exact hlocal _ (leaves_of_outcome (saveKeys_outcome _ s address note encryption blinding))
  | scan totalLimit =>
      have hscan : ScanRun (deriveUserNote box) s _ :=
        leaves_of_outcome ((scan_outcome hs.pipeline.commitments.valid.ordered totalLimit).imp
          (fun _ _ h => h.1) fun _ _ h => h.1)
      obtain ⟨notes, marks, hframe⟩ := hscan.frame
      show (leaves _ s).storedEvents = _
      rw [hframe]
      rfl
  | reconcile limit =>
      exact hlocal _ (leaves_of_outcome ((reconcile_outcome _ s limit).imp (fun _ _ h => h.1)
        fun _ _ h => h))

theorem storedEvents_round (hs : WorkerOk xdr box s) (limit : UInt32) :
    (leaves (processRound xdr box limit) s).storedEvents = s.storedEvents := by
  have hkept := processRound_keeps (P := fun s' => WorkerOk xdr box s' ∧
    s'.storedEvents = s.storedEvents) (fun s' op hop hs' =>
      ⟨hs'.1.after op, (storedEvents_after hs'.1 hop).trans hs'.2⟩) ⟨hs, rfl⟩ limit
  exact hkept.2

/-- A pass that was begun ends when every raw event can be processed. -/
theorem WorkerInv.pass_ends (hw : WorkerInv xdr box w) (hprocessing : w.processor = .processing)
    (hprocessable : Processable xdr w.storage.storedEvents) :
    ∃ n, WorkerInv xdr box ((Worker.drive xdr box)^[n] w) ∧
      ((Worker.drive xdr box)^[n] w).processor = .waiting ∧
      ((Worker.drive xdr box)^[n] w).wakeups = w.wakeups ∧
      ((Worker.drive xdr box)^[n] w).lastPass ≠ none ∧
      ((Worker.drive xdr box)^[n] w).storage.storedEvents = w.storage.storedEvents := by
  generalize hbacklog : w.storage.backlog = backlog
  induction backlog using WellFoundedLT.induction generalizing w with
  | _ backlog ih =>
      have hnext : Worker.drive xdr box w = w.round xdr box := by
        unfold Worker.drive
        rw [hprocessing]
        exact if_pos hprocessing
      have hround := hw.round hprocessing
      have hstored := storedEvents_round hw.storage fetchLimit
      have houtcome : Outcome (processRound xdr box fetchLimit) w.storage _ _ :=
        processRound_outcome hw.storage.pipeline (by decide)
      cases hrun : (processRound xdr box fetchLimit).run w.storage with
      | error e s =>
          rw [leaves, hrun] at hstored
          have hend : w.round xdr box = { w with storage := s }.endPass (.error e) := by
            unfold Worker.round
            rw [hrun]
          refine ⟨1, ?_⟩
          rw [Function.iterate_one, hnext]
          rw [hend] at hround ⊢
          exact ⟨hround, rfl, rfl, nofun, hstored⟩
      | ok more s =>
          rw [leaves_of_ok hrun] at hstored
          cases more with
          | false =>
              have hend : w.round xdr box = { w with storage := s }.endPass (.ok ()) := by
                unfold Worker.round
                rw [hrun]
                rfl
              refine ⟨1, ?_⟩
              rw [Function.iterate_one, hnext]
              rw [hend] at hround ⊢
              exact ⟨hround, rfl, rfl, nofun, hstored⟩
          | true =>
              have hmore : w.round xdr box = { w with storage := s } := by
                unfold Worker.round
                rw [hrun]
                rfl
              rw [hmore] at hround hnext
              have hless := (houtcome.ok hrun).2 rfl hprocessable
              obtain ⟨n, hinv, hwaiting, hwakeups, hlast, hsame⟩ := ih s.backlog
                (hbacklog ▸ hless) hround hprocessing (hstored ▸ hprocessable) rfl
              refine ⟨n + 1, ?_⟩
              rw [Function.iterate_succ_apply, hnext]
              exact ⟨hinv, hwaiting, hwakeups, hlast, hsame.trans hstored⟩

/-- The passes for the wake-ups that are left end too. -/
theorem WorkerInv.stops (hw : WorkerInv xdr box w) (hwaiting : w.processor = .waiting)
    (hprocessable : Processable xdr w.storage.storedEvents) :
    ∃ n, WorkerInv xdr box ((Worker.drive xdr box)^[n] w) ∧
      ((Worker.drive xdr box)^[n] w).processor = .waiting ∧
      ((Worker.drive xdr box)^[n] w).wakeups = 0 ∧
      (((Worker.drive xdr box)^[n] w).lastPass ≠ none ∨ w.wakeups = 0 ∧ w.lastPass = none) := by
  induction hwakeups : w.wakeups generalizing w with
  | zero =>
      refine ⟨0, hw, hwaiting, hwakeups, ?_⟩
      exact (ne_or_eq w.lastPass none).imp_right fun hnone => ⟨rfl, hnone⟩
  | succ wakeups ih =>
      have hnext : Worker.drive xdr box w =
          { w with wakeups := w.wakeups - 1, processor := .processing } := by
        unfold Worker.drive
        rw [hwaiting]
        exact if_pos ⟨hwaiting, hwakeups ▸ Nat.succ_pos wakeups⟩
      have hstep : WorkerInv xdr box (Worker.drive xdr box w) := by
        unfold Worker.drive
        rw [hwaiting]
        exact hw.step .wake
      rw [hnext] at hstep
      obtain ⟨n, hinv, hended, hleft, hlast, hstored⟩ := hstep.pass_ends rfl hprocessable
      obtain ⟨m, hinv', hwaiting', hnone, hlast'⟩ := ih hinv hended (hstored ▸ hprocessable)
        (hleft.trans (by rw [hwakeups]; rfl))
      refine ⟨m + (n + 1), ?_⟩
      rw [Function.iterate_add_apply, Function.iterate_succ_apply, hnext]
      exact ⟨hinv', hwaiting', hnone, .inl (hlast'.resolve_right fun h => hlast h.2)⟩

/-- Without further requests the processor stops, when every raw event can be processed; and if
there was work to take up, its last pass has failed or nothing is left to do. -/
theorem processor_stops (xdr : Xdr) (box : NoteBox) (steps : List WorkerStep)
    (hprocessable : Processable xdr (workerRun xdr box steps).storage.storedEvents) :
    ∃ n, ((Worker.drive xdr box)^[n] (workerRun xdr box steps)).processor = .waiting ∧
      ((Worker.drive xdr box)^[n] (workerRun xdr box steps)).wakeups = 0 ∧
      ((workerRun xdr box steps).processor = .processing ∨ 0 < (workerRun xdr box steps).wakeups →
        (∃ e, ((Worker.drive xdr box)^[n] (workerRun xdr box steps)).lastPass =
          some (.error e)) ∨
        AtRest ((Worker.drive xdr box)^[n] (workerRun xdr box steps)).storage) := by
  have hw := WorkerInv.run xdr box steps
  generalize workerRun xdr box steps = w at hw hprocessable
  have hfinal : ∀ {w' : Worker}, WorkerInv xdr box w' → w'.processor = .waiting →
      w'.wakeups = 0 → w'.lastPass ≠ none →
        (∃ e, w'.lastPass = some (.error e)) ∨ AtRest w'.storage := by
    intro w' hw' hwaiting hwakeups hlast
    obtain ⟨result, hresult⟩ := Option.ne_none_iff_exists'.mp hlast
    cases result with
    | error e => exact .inl ⟨e, hresult⟩
    | ok _ => exact .inr (hw'.rest ⟨hwaiting, hwakeups, hresult⟩)
  cases hprocessor : w.processor with
  | waiting =>
      obtain ⟨n, hinv, hwaiting, hwakeups, hlast⟩ := hw.stops hprocessor hprocessable
      refine ⟨n, hwaiting, hwakeups, fun hwork => hfinal hinv hwaiting hwakeups ?_⟩
      refine hlast.resolve_right fun h => ?_
      rcases hwork with hwork | hwork
      · cases hwork
      · exact absurd h.1 hwork.ne'
  | processing =>
      -- the pass that was begun, and then those for the wake-ups
      obtain ⟨n, hinv, hended, -, hlast, hstored⟩ := hw.pass_ends hprocessor hprocessable
      obtain ⟨m, hinv', hwaiting, hwakeups, hlast'⟩ := hinv.stops hended (hstored ▸ hprocessable)
      refine ⟨m + n, ?_⟩
      rw [Function.iterate_add_apply]
      refine ⟨hwaiting, hwakeups, fun _ => hfinal hinv' hwaiting hwakeups ?_⟩
      exact hlast'.resolve_right fun h => hlast h.2

theorem processor_stops_oneOutput :
    ∃ n, ((Worker.drive wireXdr closedBox)^[n]
        (workerRun wireXdr closedBox (oneOutputSteps.take 2))).processor = .waiting := by
  have hstored : (workerRun wireXdr closedBox (oneOutputSteps.take 2)).storage.storedEvents =
      oneOutput.map ContractEvent.asRead := by
    show ({ newWorker with ready := true }.saveAndKick
      (saveEventsBatch oneOutput)).storage.storedEvents = _
    unfold Worker.saveAndKick
    rw [saveEventsBatch_run]
    dsimp only
    rw [kick_storage]
    exact Storage.linked_empty.storedEvents_addEvents oneOutput
  have hprocessable : Processable wireXdr (oneOutput.map ContractEvent.asRead) := by
    refine ⟨fun e he => ?_, nullifierKind.distinct_singleton wireXdr _,
      commitmentKind.distinct_singleton wireXdr _, leafKind.distinct_singleton wireXdr _⟩
    obtain ⟨p, hp, hparse⟩ := @parse_of_mem [.save oneOutput] wireXdr
      [.commitment ⟨"7-0", 5, 0, []⟩] parse_oneOutput e he
    obtain rfl : p = .commitment ⟨"7-0", 5, 0, []⟩ := by simpa using hp
    exact ⟨_, hparse, trivial⟩
  obtain ⟨n, hwaiting, -⟩ := processor_stops wireXdr closedBox (oneOutputSteps.take 2)
    (hstored ▸ hprocessable)
  exact ⟨n, hwaiting⟩

end Passes

end PrivatePayments.Web
