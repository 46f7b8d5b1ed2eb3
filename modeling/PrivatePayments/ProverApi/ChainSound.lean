import PrivatePayments.ProverApi.Chain
import PrivatePayments.Prover.Crypto
import PrivatePayments.State.Drain
import PrivatePayments.Stellar.IndexerSound

/-!
# PrivatePayments.ProverApi.ChainSound

When the fetched tree is complete.

The fetch goes on while the ledger of the cursor is below the tip. A page that is not full
ends with its window, so at the tip nothing is left; but a full page ends wherever its last
event is, and its cursor can be in the last ledger with more events of that ledger behind it.
The fetch stops there all the same, as it does at `MAX_PAGES`, and leaves these events out
without an error (`fetch_complete_iff`).
-/

namespace PrivatePayments.Stellar

/-! ## Slices of a log -/

theorem filter_lt_append_filter_le {α : Type} {f : α → ℕ} {l : List α}
    (hsorted : l.Pairwise fun a b => f a < f b) (m : ℕ) :
    l.filter (fun a => f a < m) ++ l.filter (fun a => m ≤ f a) = l := by
  induction l with
  | nil => rfl
  | cons a l ih =>
      obtain ⟨ha, hl⟩ := List.pairwise_cons.mp hsorted
      by_cases hlt : f a < m
      · rw [List.filter_cons_of_pos (by simpa using hlt),
          List.filter_cons_of_neg (by simpa using hlt), List.cons_append, ih hl]
      · have hall : ∀ b ∈ a :: l, m ≤ f b := by
          intro b hb
          rcases List.mem_cons.mp hb with rfl | hb
          · exact not_lt.mp hlt
          · exact (not_lt.mp hlt).trans (ha b hb).le
        rw [List.filter_eq_nil_iff.mpr (by simpa using hall),
          List.filter_eq_self.mpr (by simpa using hall), List.nil_append]

/-- What lies behind a position is a last part of a sorted list. -/
theorem filter_le_eq_drop {α : Type} {f : α → ℕ} {l : List α}
    (hsorted : l.Pairwise fun a b => f a < f b) (m : ℕ) :
    ∃ n, l.filter (fun a => m ≤ f a) = l.drop n :=
  ⟨_, List.suffix_iff_eq_drop.mp ⟨_, filter_lt_append_filter_le hsorted m⟩⟩

theorem EventLog.between_append (log : EventLog) (contractIds : List String)
    {first middle next : ℕ} (hfirst : first ≤ middle) (hnext : middle ≤ next) :
    log.between contractIds first middle ++ log.between contractIds middle next =
      log.between contractIds first next := by
  have hsorted : (log.between contractIds first next).Pairwise
      fun e e' => log.place e < log.place e' := log.sorted.sublist List.filter_sublist
  rw [← filter_lt_append_filter_le hsorted middle]
  unfold between
  rw [List.filter_filter, List.filter_filter]
  congr 1
  · refine List.filter_congr fun e _ => ?_
    simp only [← Bool.decide_and, decide_eq_decide]
    exact ⟨fun ⟨hc, hle, hlt⟩ => ⟨hlt, hc, hle, hlt.trans_le hnext⟩,
      fun ⟨hlt, hc, hle, _⟩ => ⟨hc, hle, hlt⟩⟩
  · refine List.filter_congr fun e _ => ?_
    simp only [← Bool.decide_and, decide_eq_decide]
    exact ⟨fun ⟨hc, hle, hlt⟩ => ⟨hle, hc, hfirst.trans hle, hlt⟩,
      fun ⟨hle, hc, _, hlt⟩ => ⟨hc, hle, hlt⟩⟩

end PrivatePayments.Stellar

namespace PrivatePayments.ProverApi

open PrivatePayments.State PrivatePayments.Stellar

/-! ## The node and the contract -/

/-- A node that serves a fixed log. The ledger in a cursor is read to its end, unless the page
is full. -/
structure ServesTip (log : EventLog) (paging : Paging) (tip : UInt32) (client : Client) :
    Prop where
  le_tip : ∀ e ∈ log.events, e.ledger ≤ tip
  page : ∀ contractIds startLedger cursor newCursor events latest,
    client.getContractEvents contractIds startLedger pageSize cursor =
      .ok (newCursor, events, latest) →
    ∀ first, log.requestPlace paging startLedger cursor = some first →
      latest = tip ∧ ∃ c next ledger, newCursor = some c ∧
        IsPage log paging contractIds first c events next ∧ cursorLedger c = some ledger ∧
        (events.length < pageSize →
          ∀ e ∈ log.events, e.ledger.toNat ≤ ledger → log.place e < next)

namespace Fetch

section Definitions

variable (fetch : Fetch) (log : EventLog) (paging : Paging) (xdr : Xdr) (client : Client)
  (contractId : String) (fromLedger : UInt32)

/-- The names of the events that belong into the tree. -/
def names : Fetch → List String
  | pool => ["new_commitment_event", "NewCommitmentEvent"]
  | aspMembership => ["leaf_added", "LeafAdded"]

/-- The first topic of an event names it as one that belongs into the tree. -/
def isNamed (event : ContractEvent) : Bool :=
  match event.topics.head?.map (eventName xdr) with
  | some (.ok name) => name ∈ fetch.names
  | _ => false

/-- The events of the contract that belong into its tree. -/
def published : List ContractEvent :=
  log.events.filter fun e => e.contractId = contractId ∧ fetch.isNamed xdr e

/-- Those from a ledger on. -/
def expected : List ContractEvent :=
  (fetch.published log xdr contractId).filter fun e => fromLedger ≤ e.ledger

/-- The contract numbers its leaves from zero on. -/
def Numbered : Prop :=
  ∀ i e row, (fetch.published log xdr contractId)[i]? = some e → fetch.row xdr e = some row →
    row.1.toNat = i

/-- The rows have every event from the ledger on, in the order of their indices and without a
gap. -/
structure CompleteTree (rows : List (UInt32 × Fr)) : Prop where
  all : ∀ e ∈ fetch.expected log xdr contractId fromLedger,
    ∃ row ∈ rows, fetch.row xdr e = some row
  consecutive : ∃ first, rows.map (fun row => row.1.toNat) = List.range' first rows.length

/-- Every event of the tree is parsed. -/
def Readable : Prop :=
  ∀ e ∈ fetch.expected log xdr contractId fromLedger, (fetch.row xdr e).isSome

/-- No event of the tree lies at a position or behind it. -/
def NoneFrom (place : Option ℕ) : Prop :=
  ∀ first ∈ place, ∀ e ∈ fetch.published log xdr contractId, log.place e < first

/-- The pages of the node leave out no event of the tree: unless a request fails, all are
parsed, and none follows where the last page is full or where the pages run out. -/
def Reads : (left : Nat) → Option String → Prop
  | 0, cursor => fetch.Readable log xdr contractId fromLedger ∧
      fetch.NoneFrom log xdr contractId (log.requestPlace paging fromLedger cursor)
  | left + 1, cursor =>
      match client.getContractEvents [contractId] fromLedger pageSize cursor with
      | .error _ => True
      | .ok (nextCursor, events, latest) =>
          match nextRequest nextCursor latest with
          | some c => Reads left (some c)
          | none => fetch.Readable log xdr contractId fromLedger ∧
              (events.length = pageSize → fetch.NoneFrom log xdr contractId
                (log.requestPlace paging fromLedger nextCursor))

/-- The rows of the pages up to a position. -/
def rowsTo (next : ℕ) : List (UInt32 × Fr) :=
  (log.between [contractId] (log.base fromLedger) next).filterMap (fetch.row xdr)

end Definitions

/-! ## Rows -/

section Rows

variable {fetch : Fetch} {log : EventLog} {xdr : Xdr} {contractId : String} {fromLedger : UInt32}
  {event : ContractEvent} {row : UInt32 × Fr}

theorem parseEventMetadata_name {parsed : ParsedContractEvent}
    (h : parseEventMetadata xdr event = .ok parsed) :
    event.topics.head?.map (eventName xdr) = some (.ok parsed.name) := by
  obtain ⟨first, hfirst, h⟩ := Prover.exists_of_bind_ok h
  obtain ⟨topics, -, h⟩ := Prover.exists_of_bind_ok h
  obtain ⟨name, hname, h⟩ := Prover.exists_of_bind_ok h
  obtain ⟨values, -, h⟩ := Prover.exists_of_bind_ok h
  cases hhead : event.topics.head? with
  | none =>
      rw [hhead] at hfirst
      cases hfirst
  | some topic =>
      rw [hhead] at hfirst
      cases hfirst
      cases h
      exact congrArg some hname

/-- Only the named events are selected. -/
theorem parseNamed_names (parsed : ParsedContractEvent) : Yields (parseNamed xdr parsed)
    fun p => (fetch.select p).isSome → parsed.name ∈ fetch.names := by
  unfold parseNamed
  split_ifs with _ hcommitment _ hleaf
  · exact .map fun _ _ hsome => by cases fetch <;> cases hsome
  · refine .map fun _ _ hsome => ?_
    cases fetch with
    | pool => exact hcommitment
    | aspMembership => cases hsome
  · exact .map fun _ _ hsome => by cases fetch <;> cases hsome
  · refine .map fun _ _ hsome => ?_
    cases fetch with
    | pool => cases hsome
    | aspMembership => exact hleaf
  · exact .map fun _ _ hsome => by cases fetch <;> cases hsome
  · exact .map fun _ _ hsome => by cases fetch <;> cases hsome
  · exact .map fun _ _ hsome => by cases fetch <;> cases hsome
  · exact .error

theorem isNamed_of_row (h : fetch.row xdr event = some row) : fetch.isNamed xdr event = true := by
  rw [Fetch.row] at h
  cases hparse : parseEvent xdr event with
  | error e =>
      rw [hparse] at h
      cases h
  | ok p =>
      rw [hparse] at h
      obtain ⟨parsed, hmeta, hnamed⟩ := Prover.exists_of_bind_ok hparse
      have hname := parseNamed_names parsed p hnamed (Option.isSome_of_eq_some h)
      rw [isNamed, parseEventMetadata_name hmeta]
      exact decide_eq_true hname

/-- The rows come from the events of the tree. -/
theorem rowsTo_eq (next : ℕ) : fetch.rowsTo log xdr contractId fromLedger next =
    ((fetch.expected log xdr contractId fromLedger).filter fun e => log.place e < next).filterMap
      (fetch.row xdr) := by
  rw [rowsTo, EventLog.between, expected, published, List.filter_filter, List.filter_filter,
    List.filterMap_filter, List.filterMap_filter]
  refine List.filterMap_congr fun e he => ?_
  cases hrow : fetch.row xdr e with
  | none => simp
  | some row =>
      have hnamed := isNamed_of_row hrow
      have hbase := log.base_le e he fromLedger
      simp [hnamed, hbase, and_comm]

theorem mem_expected {e : ContractEvent} : e ∈ fetch.expected log xdr contractId fromLedger ↔
    e ∈ fetch.published log xdr contractId ∧ log.base fromLedger ≤ log.place e := by
  rw [expected, List.mem_filter, decide_eq_true_eq]
  refine and_congr_right fun he => ?_
  exact (log.base_le e (List.mem_filter.mp he).1 fromLedger).symm

theorem expected_eq_drop (fetch : Fetch) (log : EventLog) (xdr : Xdr) (contractId : String)
    (fromLedger : UInt32) : ∃ n, fetch.expected log xdr contractId fromLedger =
      (fetch.published log xdr contractId).drop n := by
  have hsorted : (fetch.published log xdr contractId).Pairwise
      fun e e' => log.place e < log.place e' := log.sorted.sublist List.filter_sublist
  obtain ⟨n, hn⟩ := filter_le_eq_drop hsorted (log.base fromLedger)
  refine ⟨n, hn ▸ List.filter_congr fun e he => ?_⟩
  rw [decide_eq_decide]
  exact (log.base_le e (List.mem_filter.mp he).1 fromLedger).symm

/-- The rows of a list that is numbered from `n` on, if each event has one. -/
theorem indices_filterMap {f : ContractEvent → Option (UInt32 × Fr)} {events : List ContractEvent}
    {n : ℕ} (hnumbered : ∀ i e row, events[i]? = some e → f e = some row → row.1.toNat = n + i)
    (hsome : ∀ e ∈ events, (f e).isSome) :
    (events.filterMap f).map (fun row => row.1.toNat) = List.range' n events.length := by
  induction events generalizing n with
  | nil => rfl
  | cons e events ih =>
      obtain ⟨row, hrow⟩ := Option.isSome_iff_exists.mp (hsome e List.mem_cons_self)
      have hfirst := hnumbered 0 e row rfl hrow
      have hrest := @ih (n + 1) (fun i e' row' he hrow' => by
        have := hnumbered (i + 1) e' row' (by simpa using he) hrow'
        omega) fun e' he => hsome e' (List.mem_cons_of_mem _ he)
      rw [List.filterMap_cons_some hrow, List.map_cons, hfirst, hrest, List.length_cons,
        List.range'_succ, Nat.add_zero]

theorem Numbered.increasing (h : fetch.Numbered log xdr contractId) :
    ((fetch.expected log xdr contractId fromLedger).filterMap (fetch.row xdr)).Pairwise
      fun a b => a.1.toNat < b.1.toNat := by
  have hall : ((fetch.published log xdr contractId).filterMap (fetch.row xdr)).Pairwise
      fun a b => a.1.toNat < b.1.toNat := by
    rw [List.pairwise_filterMap, List.pairwise_iff_getElem]
    intro i j hi hj hlt a ha b hb
    rw [h i _ a (List.getElem?_eq_getElem hi) ha, h j _ b (List.getElem?_eq_getElem hj) hb]
    exact hlt
  exact hall.sublist (List.filter_sublist.filterMap _)

variable {last : ℕ}

/-- With everything read, the sorted rows are the tree. -/
theorem Numbered.completeTree (h : fetch.Numbered log xdr contractId)
    (hread : fetch.Readable log xdr contractId fromLedger)
    (hnone : fetch.NoneFrom log xdr contractId (some last)) :
    fetch.CompleteTree log xdr contractId fromLedger
      (Table.orderBy (fun row => row.1.toNat) (fetch.rowsTo log xdr contractId fromLedger last)) := by
  have hrows : fetch.rowsTo log xdr contractId fromLedger last =
      (fetch.expected log xdr contractId fromLedger).filterMap (fetch.row xdr) := by
    rw [rowsTo_eq, List.filter_eq_self.mpr fun e he => ?_]
    exact decide_eq_true (hnone last rfl e (mem_expected.mp he).1)
  rw [hrows, Table.orderBy_eq_of_perm (List.Perm.refl _) h.increasing]
  refine ⟨fun e he => ?_, ?_⟩
  · obtain ⟨row, hrow⟩ := Option.isSome_iff_exists.mp (hread e he)
    exact ⟨row, List.mem_filterMap.mpr ⟨e, he, hrow⟩, hrow⟩
  · obtain ⟨n, hn⟩ := expected_eq_drop fetch log xdr contractId fromLedger
    refine ⟨n, ?_⟩
    rw [List.filterMap_length_eq_length.mpr hread]
    refine indices_filterMap (fun i e row he hrow => ?_) hread
    rw [hn, List.getElem?_drop] at he
    exact h _ e row he hrow

/-- As many rows as a complete tree has need all events to be read. -/
theorem CompleteTree.read (h : fetch.Numbered log xdr contractId) {rows : List (UInt32 × Fr)}
    (hrows : fetch.CompleteTree log xdr contractId fromLedger rows)
    (hlength : rows.length = (fetch.rowsTo log xdr contractId fromLedger last).length)
    (hlast : log.base fromLedger ≤ last) :
    fetch.Readable log xdr contractId fromLedger ∧
      fetch.NoneFrom log xdr contractId (some last) := by
  have hread : fetch.Readable log xdr contractId fromLedger := fun e he => by
    obtain ⟨row, -, hrow⟩ := hrows.all e he
    exact Option.isSome_of_eq_some hrow
  have hsubset : (fetch.expected log xdr contractId fromLedger).filterMap (fetch.row xdr) ⊆
      rows := by
    intro row hrow
    obtain ⟨e, he, heq⟩ := List.mem_filterMap.mp hrow
    obtain ⟨row', hrow', heq'⟩ := hrows.all e he
    rw [heq] at heq'
    exact Option.some.inj heq' ▸ hrow'
  have hnodup : ((fetch.expected log xdr contractId fromLedger).filterMap (fetch.row xdr)).Nodup :=
    h.increasing.imp fun hlt heq => by
      rw [heq] at hlt
      exact lt_irrefl _ hlt
  have hcount := (hnodup.subperm hsubset).length_le
  rw [List.filterMap_length_eq_length.mpr hread, hlength, rowsTo_eq] at hcount
  refine ⟨hread, fun first hfirst e he => ?_⟩
  obtain rfl := Option.mem_some_iff.mp hfirst
  by_contra hbehind
  -- then fewer events were read than there are
  have hfewer : ((fetch.expected log xdr contractId fromLedger).filter
      fun e => log.place e < last).length <
        (fetch.expected log xdr contractId fromLedger).length := by
    rw [List.length_filter_lt_length_iff_exists]
    exact ⟨e, mem_expected.mpr ⟨he, hlast.trans (not_lt.mp hbehind)⟩, by simpa using hbehind⟩
  have := List.length_filterMap_le (fetch.row xdr)
    ((fetch.expected log xdr contractId fromLedger).filter fun e => log.place e < last)
  omega

end Rows

/-! ## The loop -/

section Loop

variable {fetch : Fetch} {log : EventLog} {paging : Paging} {tip : UInt32} {xdr : Xdr}
  {client : Client} {contractId : String} {fromLedger : UInt32}

theorem nextRequest_eq {c : String} {ledger : ℕ} {latest : UInt32} (hc : c ≠ "")
    (hledger : cursorLedger c = some ledger) :
    nextRequest (some c) latest = if ledger < latest.toNat then some c else none := by
  simp [nextRequest, hledger, hc]

/-- A page at the tip that is not full has the last events. -/
theorem noneFrom_of_notFull {events : List ContractEvent} {ledger next : ℕ}
    (htip : ∀ e ∈ log.events, e.ledger ≤ tip)
    (hdone : events.length < pageSize →
      ∀ e ∈ log.events, e.ledger.toNat ≤ ledger → log.place e < next)
    (hledger : tip.toNat ≤ ledger) (hsize : events.length ≤ pageSize)
    (hnotFull : events.length ≠ pageSize) : fetch.NoneFrom log xdr contractId (some next) := by
  intro first hfirst e he
  obtain rfl := Option.mem_some_iff.mp hfirst
  have hmem : e ∈ log.events := (List.mem_filter.mp he).1
  exact hdone (lt_of_le_of_ne hsize hnotFull) e hmem
    ((UInt32.le_iff_toNat_le.mp (htip e hmem)).trans hledger)

/-- The loop returns the rows up to some position, and the pages leave nothing out if none
follows there. -/
theorem pages_spec (fetch : Fetch) (xdr : Xdr) (contractId : String)
    (hserves : ServesTip log paging tip client) (left : ℕ) :
    ∀ {cursor : Option String} {first : ℕ},
      log.requestPlace paging fromLedger cursor = some first → log.base fromLedger ≤ first →
      ((∃ e, fetch.pages xdr client contractId fromLedger left cursor
          (fetch.rowsTo log xdr contractId fromLedger first) = .error e) ∧
        fetch.Reads log paging xdr client contractId fromLedger left cursor) ∨
      ∃ last, log.base fromLedger ≤ last ∧
        fetch.pages xdr client contractId fromLedger left cursor
          (fetch.rowsTo log xdr contractId fromLedger first) =
            .ok (fetch.rowsTo log xdr contractId fromLedger last) ∧
        (fetch.Reads log paging xdr client contractId fromLedger left cursor ↔
          fetch.Readable log xdr contractId fromLedger ∧
            fetch.NoneFrom log xdr contractId (some last)) := by
  induction left with
  | zero =>
      intro cursor first hplace hfirst
      refine Or.inr ⟨first, hfirst, rfl, ?_⟩
      rw [Reads, hplace]
  | succ left ih =>
      intro cursor first hplace hfirst
      rw [pages, Reads]
      cases hpage : client.getContractEvents [contractId] fromLedger pageSize cursor with
      | error e => exact Or.inl ⟨⟨_, rfl⟩, trivial⟩
      | ok page =>
          obtain ⟨newCursor, events, latest⟩ := page
          obtain ⟨rfl, c, next, ledger, rfl, hp, hledger, hdone⟩ :=
            hserves.page _ _ _ _ _ _ hpage first hplace
          have hrows : fetch.rowsTo log xdr contractId fromLedger first ++
              events.filterMap (fetch.row xdr) =
                fetch.rowsTo log xdr contractId fromLedger next := by
            rw [rowsTo, hp.events_eq, ← List.filterMap_append,
              log.between_append _ hfirst hp.lt.le, rowsTo]
          have hnext : log.requestPlace paging fromLedger (some c) = some next := hp.cursorPlace
          dsimp only
          rw [hrows, nextRequest_eq hp.cursor_ne hledger]
          by_cases hgo : ledger < latest.toNat
          · rw [if_pos hgo]
            exact ih hnext (hfirst.trans hp.lt.le)
          · rw [if_neg hgo]
            refine Or.inr ⟨next, hfirst.trans hp.lt.le, rfl, and_congr_right fun _ => ?_⟩
            rw [hnext]
            refine ⟨fun hfull => ?_, fun hnone _ => hnone⟩
            by_cases hlength : events.length = pageSize
            · exact hfull hlength
            · exact noneFrom_of_notFull hserves.le_tip hdone (not_lt.mp hgo) hp.size hlength

theorem rowsTo_base : fetch.rowsTo log xdr contractId fromLedger (log.base fromLedger) = [] := by
  have hnone : log.between [contractId] (log.base fromLedger) (log.base fromLedger) = [] := by
    refine List.filter_eq_nil_iff.mpr fun e _ => ?_
    rw [decide_eq_true_eq]
    exact fun h => absurd h.2.2 (not_lt.mpr h.2.1)
  rw [rowsTo, hnone, List.filterMap_nil]

/-- A property that amounts to as many rows as a complete tree has holds of what is fetched
exactly when the pages leave nothing out. -/
theorem rows_iff (hserves : ServesTip log paging tip client)
    (hnumbered : fetch.Numbered log xdr contractId) {P : List (UInt32 × Fr) → Prop}
    (hcomplete : ∀ rows, fetch.CompleteTree log xdr contractId fromLedger rows → P rows)
    (hcount : ∀ rows, P rows → ∃ tree, fetch.CompleteTree log xdr contractId fromLedger tree ∧
      tree.length = rows.length) :
    (∀ rows, fetch.rows xdr client contractId fromLedger = .ok rows → P rows) ↔
      fetch.Reads log paging xdr client contractId fromLedger maxPages none := by
  have hplace : log.requestPlace paging fromLedger none = some (log.base fromLedger) := rfl
  have hspec := fetch.pages_spec xdr contractId hserves maxPages hplace le_rfl
  rw [rowsTo_base] at hspec
  unfold Fetch.rows
  rcases hspec with ⟨⟨e, he⟩, hreads⟩ | ⟨last, hlast, hok, hreads⟩
  · rw [he]
    exact iff_of_true (fun rows h => by cases h) hreads
  · rw [hok, hreads]
    constructor
    · intro hall
      obtain ⟨tree, htree, hlength⟩ := hcount _ (hall _ rfl)
      exact htree.read hnumbered (hlength.trans Table.orderBy_perm.length_eq) hlast
    · rintro ⟨hread, hnone⟩ rows hrows
      cases hrows
      exact hcomplete _ (hnumbered.completeTree hread hnone)

end Loop

end Fetch

section Fetches

variable {log : EventLog} {paging : Paging} {tip : UInt32} {xdr : Xdr} {client : Client}
  {contractId : String} {fromLedger : UInt32}

theorem fetchPoolCommitments_iff (hserves : ServesTip log paging tip client)
    (hnumbered : Fetch.pool.Numbered log xdr contractId) :
    (∀ commitments, fetchPoolCommitments xdr client contractId fromLedger = .ok commitments →
      Fetch.pool.CompleteTree log xdr contractId fromLedger commitments) ↔
    Fetch.pool.Reads log paging xdr client contractId fromLedger maxPages none :=
  Fetch.rows_iff hserves hnumbered (fun _ h => h) fun rows h => ⟨rows, h, rfl⟩

theorem fetchAspMembershipLeaves_iff (hserves : ServesTip log paging tip client)
    (hnumbered : Fetch.aspMembership.Numbered log xdr contractId) :
    (∀ leaves, fetchAspMembershipLeaves xdr client contractId fromLedger = .ok leaves →
      ∃ rows, Fetch.aspMembership.CompleteTree log xdr contractId fromLedger rows ∧
        leaves = rows.map Prod.snd) ↔
    Fetch.aspMembership.Reads log paging xdr client contractId fromLedger maxPages none := by
  rw [← Fetch.rows_iff hserves hnumbered
    (P := fun rows => ∃ tree, Fetch.aspMembership.CompleteTree log xdr contractId fromLedger tree ∧
      rows.map Prod.snd = tree.map Prod.snd) (fun rows h => ⟨rows, h, rfl⟩) ?_]
  · constructor
    · intro hall rows hrows
      exact hall _ (by rw [fetchAspMembershipLeaves, hrows]; rfl)
    · intro hall leaves hleaves
      obtain ⟨rows, hrows, heq⟩ := Prover.exists_of_bind_ok hleaves
      cases heq
      exact hall rows hrows
  · rintro rows ⟨tree, htree, heq⟩
    have hlength := congrArg List.length heq
    rw [List.length_map, List.length_map] at hlength
    exact ⟨tree, htree, hlength.symm⟩

end Fetches

/-- **When the fetched trees are complete.** For every log, every window size and every contract
that numbers its leaves, the fetch of the commitments returns a complete tree or an error
exactly when the pages leave nothing out, and so does the fetch of the membership leaves. -/
theorem fetch_complete_iff (log : EventLog) (paging : Paging) (tip : UInt32) (client : Client)
    (xdr : Xdr) (poolId aspMembershipId : String) (fromLedger : UInt32)
    (hserves : ServesTip log paging tip client) (hpool : Fetch.pool.Numbered log xdr poolId)
    (hasp : Fetch.aspMembership.Numbered log xdr aspMembershipId) :
    ((∀ commitments, fetchPoolCommitments xdr client poolId fromLedger = .ok commitments →
        Fetch.pool.CompleteTree log xdr poolId fromLedger commitments) ↔
      Fetch.pool.Reads log paging xdr client poolId fromLedger maxPages none) ∧
    ((∀ leaves, fetchAspMembershipLeaves xdr client aspMembershipId fromLedger = .ok leaves →
        ∃ rows, Fetch.aspMembership.CompleteTree log xdr aspMembershipId fromLedger rows ∧
          leaves = rows.map Prod.snd) ↔
      Fetch.aspMembership.Reads log paging xdr client aspMembershipId fromLedger maxPages
        none) :=
  ⟨fetchPoolCommitments_iff hserves hpool, fetchAspMembershipLeaves_iff hserves hasp⟩

/-! ### A ledger with many commitments -/

section OneLedger

def base64Alphabet : List Char :=
  "ABCDEFGHIJKLMNOPQRSTUVWXYZabcdefghijklmnopqrstuvwxyz0123456789+/".toList

def base64Digit (n : ℕ) : Char := base64Alphabet.getD n 'A'

/-- The base64 XDR of the data of a commitment event, up to the low bytes of its index. -/
def indexDataFront : List Char :=
  "AAAAEQAAAAEAAAACAAAADwAAABBlbmNyeXB0ZWRfb3V0cHV0AAAADQAAAAAAAAAPAAAABWluZGV4AAAAAAAAAwAA".toList

/-- The data of a commitment event with an index of two bytes. -/
def indexData (index : ℕ) : String :=
  String.ofList (indexDataFront ++ [base64Digit (index / 1024), base64Digit (index / 16 % 64),
    base64Digit (index % 16 * 4), '='])

/-- The index in the data. -/
def indexOfData (text : String) : ℕ :=
  match (text.toList.drop 88).map base64Alphabet.idxOf with
  | a :: b :: c :: _ => a * 1024 + b * 16 + c / 4
  | _ => 0

/-- The decoder on the values of these events. -/
def indexXdr : Xdr :=
  { wireXdr with
    fromXdrBase64 := fun text =>
      if text = "AAAADwAAABRuZXdfY29tbWl0bWVudF9ldmVudA==" then
        .ok (.symbol (asciiBytes "new_commitment_event"))
      else if text = "AAAACwAAAAAAAAAAAAAAAAAAAAAAAAAAAAAAAAAAAAAAAAAF" then .ok (.u256 ⟨0, 0, 0, 5⟩)
      else .ok (.map (some [(.symbol (asciiBytes "encrypted_output"), .bytes []),
        (.symbol (asciiBytes "index"), .u32 (UInt32.ofNat (indexOfData text)))])) }

/-- The event of commitment 5 at an index. -/
def indexedWire (index : ℕ) : ContractEvent :=
  commitmentWire ("0000000030064771072-" ++ index.repr) (indexData index)

theorem base64Alphabet_idxOf : ∀ n < 64, base64Alphabet.idxOf (base64Digit n) = n := by decide

theorem indexOfData_indexData {index : ℕ} (h : index < 2 ^ 16) :
    indexOfData (indexData index) = index := by
  have hdrop : (indexData index).toList.drop 88 = [base64Digit (index / 1024),
      base64Digit (index / 16 % 64), base64Digit (index % 16 * 4), '='] := by
    rw [indexData, String.toList_ofList]
    exact List.drop_left' (by decide)
  simp only [indexOfData, hdrop, List.map_cons, base64Alphabet_idxOf (index / 1024) (by omega),
    base64Alphabet_idxOf (index / 16 % 64) (by omega),
    base64Alphabet_idxOf (index % 16 * 4) (by omega)]
  omega

theorem indexData_ne {index : ℕ} {text : String} (h : text.toList.length ≠ 92) :
    indexData index ≠ text := by
  rintro rfl
  rw [indexData, String.toList_ofList, List.length_append] at h
  have hfront : indexDataFront.length = 88 := by decide
  exact h (congrArg (· + 4) hfront)

theorem indexedWire_row {index : ℕ} (h : index < 2 ^ 16) :
    Fetch.pool.row indexXdr (indexedWire index) = some (UInt32.ofNat index, 5) := by
  have hdata : indexXdr.fromXdrBase64 (indexData index) =
      .ok (.map (some [(.symbol (asciiBytes "encrypted_output"), .bytes []),
        (.symbol (asciiBytes "index"), .u32 (UInt32.ofNat index))])) := by
    rw [indexXdr]
    dsimp only
    rw [if_neg (indexData_ne (by decide)), if_neg (indexData_ne (by decide)),
      indexOfData_indexData h]
  have hvalues : eventValues indexXdr (indexData index) =
      .ok [("index", .u32 (UInt32.ofNat index)), ("encrypted_output", .bytes [])] := by
    rw [eventValues, hdata]
    rfl
  have hmeta : parseEventMetadata indexXdr (indexedWire index) =
      .ok { id := (indexedWire index).id, ledger := 7, contractId := "A",
            name := "new_commitment_event", topics := [.u256 ⟨0, 0, 0, 5⟩],
            values := [("index", .u32 (UInt32.ofNat index)), ("encrypted_output", .bytes [])] } := by
    unfold parseEventMetadata
    rw [show (indexedWire index).value = indexData index from rfl, hvalues]
    rfl
  have hparse : parseEvent indexXdr (indexedWire index) =
      .ok (.commitment ⟨(indexedWire index).id, 5, UInt32.ofNat index, []⟩) := by
    rw [parseEvent, hmeta]
    rfl
  rw [Fetch.row, hparse]
  rfl

theorem indexedWire_named (index : ℕ) :
    Fetch.pool.isNamed indexXdr (indexedWire index) = true := by
  have hname : eventName indexXdr "AAAADwAAABRuZXdfY29tbWl0bWVudF9ldmVudA==" =
      .ok "new_commitment_event" := rfl
  show (match some (eventName indexXdr "AAAADwAAABRuZXdfY29tbWl0bWVudF9ldmVudA==") with
    | some (.ok name) => decide (name ∈ Fetch.pool.names)
    | _ => false) = true
  rw [hname]
  decide

theorem indexedWire_id_inj {i j : ℕ} (h : (indexedWire i).id = (indexedWire j).id) : i = j := by
  have hrepr : i.repr.toList = j.repr.toList := by
    have hlist := congrArg String.toList h
    simp only [indexedWire, commitmentWire, String.toList_append] at hlist
    exact List.append_cancel_left hlist
  rw [Nat.toList_repr, Nat.toList_repr] at hrepr
  have hvalue := congrArg (fun digits => Nat.ofDigitChars 10 digits 0) hrepr
  simpa using hvalue

/-- Ledger 7 with `n` commitments, and nothing else. -/
def oneLedger (n : ℕ) (hn : n < 2 ^ 16) : EventLog where
  events := (List.range n).map indexedWire
  place e := indexOfData e.value
  base ledger := if ledger ≤ 7 then 0 else n + 1
  base_le e he ledger := by
    obtain ⟨i, hi, rfl⟩ := List.mem_map.mp he
    have hlt := List.mem_range.mp hi
    show (if ledger ≤ 7 then 0 else n + 1) ≤ indexOfData (indexData i) ↔ ledger ≤ 7
    rw [indexOfData_indexData (hlt.trans hn)]
    split_ifs with hle <;> simp [hle]
    omega
  sorted := by
    rw [List.pairwise_map]
    refine List.pairwise_lt_range.imp_of_mem fun ha hb hlt => ?_
    show indexOfData (indexData _) < indexOfData (indexData _)
    rw [indexOfData_indexData ((List.mem_range.mp ha).trans hn),
      indexOfData_indexData ((List.mem_range.mp hb).trans hn)]
    exact hlt
  ids := by
    rw [List.map_map]
    exact List.nodup_range.map fun i j h => indexedWire_id_inj h
  ledger_pos e he := by
    obtain ⟨i, -, rfl⟩ := List.mem_map.mp he
    exact (by decide : (0 : UInt32) < 7)

/-- The id of event 299. -/
def fullCursor : String := "0000000030064771072-299"

/-- The end of ledger 7. -/
def endCursor : String := "0000000034359738367-4294967294"

/-- A window has the whole ledger. -/
def oneLedgerPaging (n : ℕ) : Paging where
  windowEnd first := max (first + 1) (n + 1)
  lt_windowEnd first := (Nat.lt_succ_self first).trans_le (Nat.le_max_left _ _)
  cursorPlace cursor :=
    if cursor = fullCursor then some 300 else if cursor = endCursor then some (n + 1) else none

/-- A node at the tip 7. -/
def oneLedgerClient (n : ℕ) (hn : n < 2 ^ 16) : Client where
  getLatestLedger := .ok 7
  getContractEvents contractIds startLedger _ cursor :=
    match (oneLedger n hn).requestPlace (oneLedgerPaging n) startLedger cursor with
    | none => .error (.other "invalid cursor")
    | some first =>
        if n < first then .error (.rpcAhead 7)
        else if contractIds ≠ ["A"] then .error (.other "invalid filters")
        else .ok (some (if first + 300 ≤ n then fullCursor else endCursor),
          (oneLedger n hn).between contractIds first (min (first + 300) (n + 1)), 7)

theorem length_filter_range (n first next : ℕ) :
    ((List.range n).filter fun i => first ≤ i ∧ i < next).length = min next n - first := by
  induction n with
  | zero => simp
  | succ n ih =>
      rw [List.range_succ, List.filter_append, List.length_append, ih]
      by_cases h : first ≤ n ∧ n < next
      · rw [List.filter_cons_of_pos (by simpa using h), List.filter_nil, List.length_singleton]
        omega
      · rw [List.filter_cons_of_neg (by simpa using h), List.filter_nil, List.length_nil]
        omega

section Log

variable {n : ℕ} {hn : n < 2 ^ 16}

theorem place_indexedWire (hn : n < 2 ^ 16) {i : ℕ} (hi : i < n) : (oneLedger n hn).place (indexedWire i) = i := by
  have hplace : ∀ e, (oneLedger n hn).place e = indexOfData e.value := fun _ => rfl
  have hvalue : (indexedWire i).value = indexData i := rfl
  rw [hplace, hvalue, indexOfData_indexData (hi.trans hn)]

theorem oneLedger_length_between (hn : n < 2 ^ 16) (first next : ℕ) :
    ((oneLedger n hn).between ["A"] first next).length = min next n - first := by
  have hfilter : (List.range n).filter ((fun e => decide (e.contractId ∈ ["A"] ∧
      first ≤ (oneLedger n hn).place e ∧ (oneLedger n hn).place e < next)) ∘ indexedWire) =
        (List.range n).filter fun i => first ≤ i ∧ i < next := by
    refine List.filter_congr fun i hi => ?_
    have hplace := place_indexedWire hn (List.mem_range.mp hi)
    have hcontract : (indexedWire i).contractId = "A" := rfl
    simp [hplace, hcontract]
  show (((List.range n).map indexedWire).filter _).length = _
  rw [List.filter_map, List.length_map, hfilter, length_filter_range]

theorem cursorLedger_fullCursor : cursorLedger fullCursor = some 7 := by decide +kernel

theorem cursorLedger_endCursor : cursorLedger endCursor = some 7 := by decide +kernel

/-- The places that a request can ask for. -/
theorem oneLedger_place {startLedger : UInt32} {cursor : Option String} {first : ℕ}
    (h : (oneLedger n hn).requestPlace (oneLedgerPaging n) startLedger cursor = some first) :
    first = 0 ∨ first = 300 ∨ first = n + 1 := by
  cases cursor with
  | none =>
      have hbase : (if startLedger ≤ 7 then 0 else n + 1) = first := Option.some.inj h
      split_ifs at hbase <;> simp [← hbase]
  | some c =>
      have hplace : (if c = fullCursor then some 300
        else if c = endCursor then some (n + 1) else none) = some first := h
      split_ifs at hplace <;> cases hplace <;> simp

theorem oneLedgerClient_serves (h : n < 600) :
    ServesTip (oneLedger n hn) (oneLedgerPaging n) 7 (oneLedgerClient n hn) := by
  refine ⟨fun e he => ?_, ?_⟩
  · obtain ⟨i, -, rfl⟩ := List.mem_map.mp he
    exact (by decide : (7 : UInt32) ≤ 7)
  · intro contractIds startLedger cursor newCursor events latest hpage first hfirst
    unfold oneLedgerClient at hpage
    dsimp only at hpage
    rw [hfirst] at hpage
    dsimp only at hpage
    by_cases hbehind : n < first
    · rw [if_pos hbehind] at hpage
      cases hpage
    by_cases hids : contractIds ≠ ["A"]
    · rw [if_neg hbehind, if_pos hids] at hpage
      cases hpage
    obtain rfl := not_not.mp hids
    rw [if_neg hbehind, if_neg hids] at hpage
    cases hpage
    have hlength := oneLedger_length_between hn first (min (first + 300) (n + 1))
    have hplaces := oneLedger_place hfirst
    by_cases hfull : first + 300 ≤ n
    · rw [Nat.min_eq_left (by omega)] at hlength ⊢
      have hsize : ((oneLedger n hn).between ["A"] first (first + 300)).length = 300 := by omega
      rw [if_pos hfull]
      refine ⟨rfl, fullCursor, first + 300, 7, rfl, ?_, cursorLedger_fullCursor, fun hlt => ?_⟩
      · exact {
          cursor_ne := by decide
          cursorPlace := congrArg some (by omega)
          lt := by omega
          le := (by omega : first + 300 ≤ n + 1).trans (Nat.le_max_right _ _)
          events_eq := rfl
          size := hsize.le
          full := Or.inr hsize }
      · rw [hsize] at hlt
        exact absurd hlt (by decide)
    · rw [Nat.min_eq_right (by omega)] at hlength ⊢
      rw [if_neg hfull]
      refine ⟨rfl, endCursor, n + 1, 7, rfl, ?_, cursorLedger_endCursor, fun _ e he _ => ?_⟩
      · exact {
          cursor_ne := by decide
          cursorPlace := rfl
          lt := by omega
          le := Nat.le_max_right _ _
          events_eq := rfl
          size := by rw [hlength]; exact (by omega : min (n + 1) n - first ≤ 300)
          full := Or.inl (Nat.max_eq_right (by omega)).symm }
      · obtain ⟨i, hi, rfl⟩ := List.mem_map.mp he
        have hlt := List.mem_range.mp hi
        have hplace := place_indexedWire hn hlt
        omega

theorem oneLedger_published (hn : n < 2 ^ 16) :
    Fetch.pool.published (oneLedger n hn) indexXdr "A" = (List.range n).map indexedWire := by
  refine List.filter_eq_self.mpr fun e he => ?_
  obtain ⟨i, -, rfl⟩ := List.mem_map.mp he
  have hcontract : (indexedWire i).contractId = "A" := rfl
  rw [indexedWire_named, hcontract]
  decide

theorem oneLedger_numbered (hn : n < 2 ^ 16) :
    Fetch.pool.Numbered (oneLedger n hn) indexXdr "A" := by
  intro i e row he hrow
  rw [oneLedger_published, List.getElem?_map] at he
  obtain ⟨j, hj, rfl⟩ := Option.map_eq_some_iff.mp he
  obtain ⟨hi, rfl⟩ := List.getElem?_eq_some_iff.mp hj
  rw [List.length_range] at hi
  rw [List.getElem_range, indexedWire_row (hi.trans hn)] at hrow
  cases hrow
  exact UInt32.toNat_ofNat_of_lt' (by have : UInt32.size = 2 ^ 32 := rfl; omega)

theorem oneLedger_other (hn : n < 2 ^ 16) :
    Fetch.aspMembership.Numbered (oneLedger n hn) indexXdr "B" := by
  have hnone : Fetch.aspMembership.published (oneLedger n hn) indexXdr "B" = [] := by
    refine List.filter_eq_nil_iff.mpr fun e he => ?_
    obtain ⟨i, -, rfl⟩ := List.mem_map.mp he
    have hcontract : (indexedWire i).contractId = "A" := rfl
    rw [hcontract]
    simp
  intro i e row he
  rw [hnone] at he
  cases he

/-- The fetch ends with the first page, and that page has to have all events. -/
theorem oneLedger_reads_iff (hn : n < 2 ^ 16) :
    Fetch.pool.Reads (oneLedger n hn) (oneLedgerPaging n) indexXdr (oneLedgerClient n hn) "A" 1
      maxPages none ↔ n ≤ 300 := by
  have hread : Fetch.pool.Readable (oneLedger n hn) indexXdr "A" 1 := by
    intro e he
    have hmem := (List.mem_filter.mp he).1
    rw [oneLedger_published] at hmem
    obtain ⟨i, hi, rfl⟩ := List.mem_map.mp hmem
    rw [indexedWire_row ((List.mem_range.mp hi).trans hn)]
    rfl
  have hpage : (oneLedgerClient n hn).getContractEvents ["A"] 1 pageSize none =
      .ok (some (if 300 ≤ n then fullCursor else endCursor),
        (oneLedger n hn).between ["A"] 0 (min 300 (n + 1)), 7) := by
    have hplace : (oneLedger n hn).requestPlace (oneLedgerPaging n) 1 none = some 0 := rfl
    unfold oneLedgerClient
    dsimp only
    rw [hplace]
    dsimp only
    rw [if_neg (Nat.not_lt_zero n), if_neg (by decide), Nat.zero_add]
  have hlength := oneLedger_length_between hn 0 (min 300 (n + 1))
  have hsucc : maxPages = 2047 + 1 := rfl
  rw [hsucc, Fetch.Reads, hpage]
  dsimp only
  by_cases hfull : 300 ≤ n
  · have hplace : (oneLedger n hn).requestPlace (oneLedgerPaging n) 1 (some fullCursor) =
        some 300 := rfl
    rw [if_pos hfull, Fetch.nextRequest_eq (by decide) cursorLedger_fullCursor,
      if_neg (by decide)]
    dsimp only
    rw [hplace]
    constructor
    · rintro ⟨-, hnone⟩
      by_contra hmore
      have hlt : 300 < n := not_le.mp hmore
      have hmem : indexedWire 300 ∈ Fetch.pool.published (oneLedger n hn) indexXdr "A" := by
        rw [oneLedger_published]
        exact List.mem_map_of_mem (List.mem_range.mpr hlt)
      have := hnone (hlength.trans (by rw [pageSize]; omega)) 300 rfl _ hmem
      rw [place_indexedWire hn hlt] at this
      exact lt_irrefl _ this
    · intro hle
      refine ⟨hread, fun _ first hfirst e he => ?_⟩
      obtain rfl := Option.mem_some_iff.mp hfirst
      rw [oneLedger_published] at he
      obtain ⟨i, hi, rfl⟩ := List.mem_map.mp he
      have hlt := List.mem_range.mp hi
      rw [place_indexedWire hn hlt]
      omega
  · rw [if_neg hfull, Fetch.nextRequest_eq (by decide) cursorLedger_endCursor, if_neg (by decide)]
    refine iff_of_true ⟨hread, fun hsize => ?_⟩ (not_le.mp hfull).le
    rw [hlength, pageSize] at hsize
    omega

end Log

theorem two_lt : 2 < 2 ^ 16 := by decide

/-- Two commitments are a page that is not full, and the fetch has both. -/
theorem fetch_complete_iff_twoCommitments :
    Fetch.pool.Reads (oneLedger 2 two_lt) (oneLedgerPaging 2) indexXdr (oneLedgerClient 2 two_lt)
      "A" 1 maxPages none ∧
    ∀ commitments, fetchPoolCommitments indexXdr (oneLedgerClient 2 two_lt) "A" 1 =
        .ok commitments →
      Fetch.pool.CompleteTree (oneLedger 2 two_lt) indexXdr "A" 1 commitments := by
  have hreads := (oneLedger_reads_iff two_lt).mpr (by decide)
  exact ⟨hreads, (fetch_complete_iff (oneLedger 2 two_lt) (oneLedgerPaging 2) 7
    (oneLedgerClient 2 two_lt) indexXdr "A" "B" 1 (oneLedgerClient_serves (by decide))
    (oneLedger_numbered two_lt) (oneLedger_other two_lt)).1.mpr hreads⟩

theorem many_lt : 301 < 2 ^ 16 := by decide

/-- Of 301 commitments in the last ledger the fetch returns a page, and not the last one. -/
theorem last_ledger_cut_off :
    ServesTip (oneLedger 301 many_lt) (oneLedgerPaging 301) 7 (oneLedgerClient 301 many_lt) ∧
    Fetch.pool.Numbered (oneLedger 301 many_lt) indexXdr "A" ∧
    ¬ ∀ commitments, fetchPoolCommitments indexXdr (oneLedgerClient 301 many_lt) "A" 1 =
        .ok commitments →
      Fetch.pool.CompleteTree (oneLedger 301 many_lt) indexXdr "A" 1 commitments := by
  have hserves : ServesTip (oneLedger 301 many_lt) (oneLedgerPaging 301) 7
      (oneLedgerClient 301 many_lt) := oneLedgerClient_serves (by decide)
  have hnumbered := oneLedger_numbered many_lt
  refine ⟨hserves, hnumbered, ?_⟩
  rw [fetchPoolCommitments_iff hserves hnumbered, oneLedger_reads_iff]
  decide

end OneLedger

end PrivatePayments.ProverApi
