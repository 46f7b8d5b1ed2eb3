import PrivatePayments.Bootnode.Indexer

/-!
# PrivatePayments.Bootnode.Rpc

The handler of `getEvents` (`bootnode/src/rpc.rs`). Its counters are left out.
-/

namespace PrivatePayments.Bootnode

/-- `saturating_mul` of `u32` -/
def saturatingMul (a b : UInt32) : UInt32 :=
  if a.toNat * b.toNat < 2 ^ 32 then a * b else UInt32.ofNat (2 ^ 32 - 1)

/-- `saturating_sub` of `u32` -/
def saturatingSub (a b : UInt32) : UInt32 := if b ≤ a then a - b else 0

/-- `cutoff_ledgers` -/
def Config.cutoffLedgers (cfg : Config) : UInt32 :=
  saturatingMul (saturatingMul (saturatingMul cfg.redirectDays 24) 60) 60 / max cfg.ledgerSeconds 1

/-- The data of a handoff. -/
structure HandoffData where
  reason : String
  fromLedger : UInt32
  deriving DecidableEq

/-- `ErrorObjectOwned` -/
structure ErrorObject where
  code : Int
  message : String
  data : Option HandoffData
  deriving DecidableEq

/-- `CACHE_MISS_CODE` -/
def cacheMissCode : Int := -32004

/-- `RETENTION_HANDOFF_CODE` -/
def retentionHandoffCode : Int := -32002

/-- `invalid_params` -/
def invalidParams (msg : String) : ErrorObject := ⟨-32602, msg, none⟩

/-- `internal_error` -/
def internalError (err : String) : ErrorObject := ⟨-32603, err, none⟩

/-- `cache_miss` -/
def cacheMiss (msg : String) : ErrorObject := ⟨cacheMissCode, msg, none⟩

/-- `cache_miss_for_tip` -/
def cacheMissForTip (tip : UInt32) : ErrorObject :=
  if tip = 0 then cacheMiss "bootnode warming up; retry later"
  else cacheMiss "cache miss; indexer may still be catching up"

/-- `retention_handoff` -/
def retentionHandoff (fromLedger : UInt32) : ErrorObject where
  code := retentionHandoffCode
  message := "Continue syncing on your RPC endpoint"
  data := some { reason := "retention_threshold", fromLedger }

section Handler

variable (env : Env) (state : AppState)

/-- `cutoff_ledger` -/
def cutoffLedger : UInt32 := saturatingSub state.ledgerTip env.cfg.cutoffLedgers

/-- `tip_known` -/
def tipKnown : Prop := 0 < state.ledgerTip

instance : Decidable (tipKnown state) := inferInstanceAs (Decidable (_ < _))

/-- `cache_miss_or_handoff` -/
def cacheMissOrHandoff : Except ErrorObject GetEventsResponse :=
  if ¬ tipKnown state then .error (cacheMissForTip state.ledgerTip)
  else if state.storage.inSync then .error (retentionHandoff (cutoffLedger env state))
  else .error (cacheMissForTip state.ledgerTip)

/-- Whether the last event before a cursor is within the retention window. -/
def lastEventInWindow (cursor : String) : Prop :=
  tipKnown state ∧ ∃ lastEventLedger ∈ state.storage.lookupLastEventLedgerForCursor cursor,
    cutoffLedger env state ≤ lastEventLedger

instance (cursor : String) : Decidable (lastEventInWindow env state cursor) :=
  inferInstanceAs (Decidable (_ ∧ _))

/-- A page, if it is cached. -/
def hitOr (cached : Option GetEventsResponse) : Except ErrorObject GetEventsResponse :=
  match cached with
  | some result => .ok result
  | none => cacheMissOrHandoff env state

/-- The branch of a request with a cursor. -/
def handleCursor (cursor : String) : Except ErrorObject GetEventsResponse :=
  if lastEventInWindow env state cursor then .error (retentionHandoff (cutoffLedger env state))
  else hitOr env state (state.storage.getCachedGetEventsByCursor cursor)

/-- The branch of a request with a start ledger. -/
def handleStartLedger (startLedger : UInt32) : Except ErrorObject GetEventsResponse :=
  if tipKnown state ∧ cutoffLedger env state ≤ startLedger then
    .error (retentionHandoff (cutoffLedger env state))
  else
    match state.storage.getCachedGetEventsByStartLedger startLedger with
    | .error e => .error (internalError e)
    | .ok cached => hitOr env state cached

/-- `get_events_handler` -/
def getEventsHandler (params : GetEventsParams) : Except ErrorObject GetEventsResponse :=
  match params.parsed with
  | .error e => .error (invalidParams e)
  | .ok parsed =>
      if ¬ params.isAllowedFilters env.contractIds then .error (invalidParams "unsupported filters")
      else
        match parsed.startLedger, parsed.cursor with
        | some startLedger, none => handleStartLedger env state startLedger
        | none, some cursor => handleCursor env state cursor
        -- `parsed` leaves these out
        | some startLedger, some _ =>
            match state.storage.getCachedGetEventsByStartLedger startLedger with
            | .error e => .error (internalError e)
            | .ok cached => hitOr env state cached
        | none, none => hitOr env state none

end Handler

end PrivatePayments.Bootnode
