import PrivatePayments.State.Rounds

/-!
# PrivatePayments.Web.EventsProcessor

The storage worker (`web/src/workers/storage.rs`): its requests and the processor they wake.

The worker is one thread. A request that writes the database sends a wake-up on a bounded
channel; `try_send` on a full channel drops it. The processor takes a wake-up, works in rounds
and yields after each, and requests are handled while it waits or yields. When the tab is
closed the database stays.
-/

namespace PrivatePayments.Web

open State Prover

/-- `FETCH_LIMIT` -/
def fetchLimit : UInt32 := 50

/-- What `mpsc::channel(1)` holds: its buffer and one message of its only sender. -/
def channelCapacity : Nat := 2

/-- Where `run_processor_loop` stands. -/
inductive Processor
  /-- at `rx.next().await` -/
  | waiting
  /-- between two rounds of `process_until_empty` -/
  | processing
  deriving DecidableEq

/-- The worker and its database. -/
structure Worker where
  storage : Storage
  /-- `INIT_STATE` is `Ready`: the database is open and the channel exists. -/
  ready : Bool
  /-- The messages in the channel. -/
  wakeups : Nat
  processor : Processor
  /-- What `process_until_empty` returned last. -/
  lastPass : Option (Except String Unit)

/-- The requests that write what the processor reads, and those that wake it. -/
inductive WorkerRequest
  | ping
  | saveEvents (events : List ContractEvent)
  /-- The keys are those that are derived from the signature. -/
  | deriveSaveUserKeys (address : String) (noteKeypair : NoteKeyPair)
      (encryptionKeypair : EncryptionKeyPair) (membershipBlinding : Fr)
  /-- `DisclaimerState` and `AcceptDisclaimer` create the account. -/
  | disclaimer (address : String)

/-- What happens to the worker. -/
inductive WorkerStep
  | init
  | request (req : WorkerRequest)
  | wake
  | round
  | close

namespace Worker

/-- `kick_processor` -/
def kick (w : Worker) : Worker :=
  if w.wakeups < channelCapacity then { w with wakeups := w.wakeups + 1 } else w

/-- A write, and a wake-up when it succeeds. -/
def saveAndKick (w : Worker) (write : Db Unit) : Worker :=
  match write.run w.storage with
  | .ok _ s => kick { w with storage := s }
  | .error _ s => { w with storage := s }

/-- `router`; before `init` is done `ping` waits and the others fail. -/
def router (w : Worker) (req : WorkerRequest) : Worker :=
  if w.ready then
    match req with
    | .ping => w.kick
    | .saveEvents events => w.saveAndKick (saveEventsBatch events)
    | .deriveSaveUserKeys address note encryption blinding =>
        w.saveAndKick (saveEncryptionAndNoteKeypairs address note encryption blinding)
    | .disclaimer address =>
        { w with storage := leaves (transaction (getOrCreateAccount address)) w.storage }
  else w

/-- The end of `process_until_empty`. -/
def endPass (w : Worker) (result : Except String Unit) : Worker :=
  { w with processor := .waiting, lastPass := some result }

/-- A round of the processor. -/
def round (w : Worker) (xdr : Xdr) (box : NoteBox) : Worker :=
  match (processRound xdr box fetchLimit).run w.storage with
  | .ok more s =>
      if more then { w with storage := s } else { w with storage := s }.endPass (.ok ())
  | .error e s => { w with storage := s }.endPass (.error e)

/-- One step; a step that is not possible changes nothing. -/
def step (xdr : Xdr) (box : NoteBox) (w : Worker) : WorkerStep → Worker
  | .init =>
      if w.ready then w
      else { w with ready := true, wakeups := 0, processor := .waiting, lastPass := none }
  | .request req => w.router req
  | .wake =>
      if w.processor = .waiting ∧ 0 < w.wakeups then
        { w with wakeups := w.wakeups - 1, processor := .processing }
      else w
  | .round => if w.processor = .processing then w.round xdr box else w
  | .close =>
      { w with ready := false, wakeups := 0, processor := .waiting, lastPass := none }

/-- The processor waits, no wake-up is left, and its last pass did not fail. -/
structure Idle (w : Worker) : Prop where
  waiting : w.processor = .waiting
  wakeups : w.wakeups = 0
  lastPass : w.lastPass = some (.ok ())

/-- What the processor does next. -/
def drive (xdr : Xdr) (box : NoteBox) (w : Worker) : Worker :=
  match w.processor with
  | .waiting => w.step xdr box .wake
  | .processing => w.step xdr box .round

end Worker

/-- A first start of the application. -/
def newWorker : Worker := ⟨Storage.empty, false, 0, .waiting, none⟩

/-- The worker after some steps. -/
def workerRun (xdr : Xdr) (box : NoteBox) (steps : List WorkerStep) : Worker :=
  steps.foldl (Worker.step xdr box) newWorker

end PrivatePayments.Web
