import PrivatePayments.Types
import Mathlib.Data.List.Sort
import Mathlib.Data.String.Basic

/-!
# PrivatePayments.Bootnode.Messages

The requests and answers of the bootnode (`bootnode/src/messages.rs`), which are also those of
the node behind it. Of an answer the close times are left out, and of an event everything that
the bootnode hands on without looking at it.
-/

namespace PrivatePayments.Bootnode

/-- `ContractEventFilter` -/
structure ContractEventFilter where
  filterType : String
  topics : List (List String)
  contractIds : List String
  deriving DecidableEq

/-- `PaginationParams` -/
structure PaginationParams where
  limit : Option UInt32
  cursor : Option String
  deriving DecidableEq

/-- `GetEventsParams` -/
structure GetEventsParams where
  filters : List ContractEventFilter
  pagination : PaginationParams
  startLedger : Option UInt32
  endLedger : Option UInt32
  xdrFormat : Option String
  deriving DecidableEq

/-- `ParsedGetEvents` -/
structure ParsedGetEvents where
  startLedger : Option UInt32
  cursor : Option String
  limit : Option UInt32

/-- `Event` -/
structure Event where
  id : String
  ledger : UInt32
  deriving DecidableEq

/-- `GetEventsResponse` -/
structure GetEventsResponse where
  events : List Event
  latestLedger : UInt32
  oldestLedger : UInt32
  cursor : String
  deriving DecidableEq

namespace GetEventsParams

/-- `parsed` -/
def parsed (params : GetEventsParams) : Except String ParsedGetEvents :=
  match params.startLedger, params.pagination.cursor with
  | some _, some _ => .error
      "getEvents params must include either startLedger or pagination.cursor, not both"
  | none, none => .error
      "getEvents params must include either startLedger or pagination.cursor"
  | _, _ => .ok {
      startLedger := params.startLedger
      cursor := params.pagination.cursor
      limit := params.pagination.limit }

/-- `is_allowed_filters` -/
def isAllowedFilters (params : GetEventsParams) (allowedContractIds : List String) : Bool :=
  match params.filters with
  | [] => false
  | first :: _ =>
      decide (first.filterType = "contract" ∧ first.topics = [["**"]] ∧
        first.contractIds.insertionSort (· ≤ ·) = allowedContractIds.insertionSort (· ≤ ·))

/-- `for_contracts` -/
def forContracts (contractIds : List String) (startLedger : Option UInt32)
    (cursor : Option String) (limit : UInt32) : GetEventsParams where
  filters := [{ filterType := "contract", topics := [["**"]], contractIds }]
  pagination := { limit := some limit, cursor }
  startLedger
  endLedger := none
  xdrFormat := none

/-- The bootnode asks for what it serves. -/
theorem isAllowedFilters_forContracts (contractIds : List String) (startLedger : Option UInt32)
    (cursor : Option String) (limit : UInt32) :
    (forContracts contractIds startLedger cursor limit).isAllowedFilters contractIds = true := by
  simp [forContracts, isAllowedFilters]

end GetEventsParams

end PrivatePayments.Bootnode
