import PrivatePayments.State.Storage

/-!
# PrivatePayments.State.StorageSound

What the methods of the event pipeline do to the tables.

A batch of raw events only adds events (`saveEventsBatch_run`, `storedEvents_addEvents`), and
on a storage whose references are linked a batch of derived rows with fresh event ids only
adds rows (`saveBatch_run`); a row whose key is taken is dropped.
-/

namespace PrivatePayments.State

/-! ## Runs -/

@[simp] theorem Db.run_pure {α : Type} (a : α) (s : Storage) : (pure a : Db α).run s = .ok a s :=
  rfl

theorem Db.run_bind_of_ok {α β : Type} {x : Db α} {f : α → Db β} {s s₁ : Storage} {a : α}
    (h : x.run s = .ok a s₁) : (x >>= f).run s = (f a).run s₁ := by
  rw [EStateM.run_bind, h]

theorem transaction_of_ok {α : Type} {x : Db α} {s s' : Storage} {a : α}
    (h : x.run s = .ok a s') : (transaction x).run s = .ok a s' := by
  simp only [transaction, EStateM.run] at h ⊢
  rw [h]

/-- A failing transaction leaves the tables as they were. -/
theorem transaction_of_error {α : Type} {x : Db α} {s s' : Storage} {e : String}
    (h : x.run s = .error e s') : (transaction x).run s = .error e s := by
  simp only [transaction, EStateM.run] at h ⊢
  rw [h]

/-- A loop whose body always succeeds is a fold. -/
theorem forM_run_eq_foldl {ε err σ : Type} {body : ε → EStateM err σ Unit} {next : σ → ε → σ}
    (hbody : ∀ e s, (body e).run s = .ok () (next s e)) (events : List ε) (s : σ) :
    (forM events body).run s = .ok () (events.foldl next s) := by
  induction events generalizing s with
  | nil => rfl
  | cons e events ih =>
      rw [List.forM_cons, EStateM.run_bind, hbody e s]
      exact ih (next s e)

/-! ## Raw events -/

/-- The ids of the raw events. -/
def Storage.rawIds (s : Storage) : List String :=
  (Table.columns s.rawContractEvents).map RawContractEvent.id

/-- A raw event read back with the address of its contract. -/
def Storage.readEvent (s : Storage) (r : RawContractEvent) : ContractEvent :=
  { id := r.id
    ledger := r.ledger
    contractId := (s.contractAddress? r.contractId).getD ""
    topics := splitTopics r.topics
    value := r.value }

/-- The raw events, as they are read back. -/
def Storage.storedEvents (s : Storage) : List ContractEvent :=
  (Table.columns s.rawContractEvents).map s.readEvent

/-- An event as it is read back after it was saved. -/
def ContractEvent.asRead (e : ContractEvent) : ContractEvent :=
  { e with topics := splitTopics (joinTopics e.topics) }

/-- Topics that are base64 strings survive the comma-separated column. -/
theorem splitTopics_joinTopics {topics : List String} (hne : topics ≠ [])
    (hcomma : ∀ topic ∈ topics, ',' ∉ topic.toList) : splitTopics (joinTopics topics) = topics := by
  have hsplit : ([','].intercalate (topics.map String.toList)).splitOn ',' =
      topics.map String.toList := by
    refine List.splitOn_intercalate ',' ?_ (by simpa using hne)
    intro chars hchars
    obtain ⟨topic, htopic, rfl⟩ := List.mem_map.mp hchars
    exact hcomma topic htopic
  simp [splitTopics, joinTopics, hsplit]

/-- The references of the raw events are linked. -/
structure Storage.Linked (s : Storage) : Prop where
  contracts : Table.Ordered s.contracts
  ids : s.rawIds.Nodup
  addresses : ∀ r ∈ Table.columns s.rawContractEvents,
    ∃ address, s.contractAddress? r.contractId = some address

/-- The contract row of an address, as `get_or_create_contract_id` leaves the table. -/
def Storage.withContract (s : Storage) (address : String) : Storage :=
  match s.contracts.find? (fun c => c.columns = address) with
  | some _ => s
  | none => { s with contracts := Table.insert s.contracts address }

/-- The row number that `get_or_create_contract_id` returns. -/
def Storage.contractIdOf (s : Storage) (address : String) : Nat :=
  match s.contracts.find? (fun c => c.columns = address) with
  | some c => c.rowid
  | none => Table.nextRowid s.contracts

/-- The tables after one raw event. -/
def Storage.addEvent (s : Storage) (event : ContractEvent) : Storage :=
  { s.withContract event.contractId with
    rawContractEvents := Table.insertNew RawContractEvent.id s.rawContractEvents
      { id := event.id
        ledger := event.ledger
        contractId := s.contractIdOf event.contractId
        topics := joinTopics event.topics
        value := event.value } }

/-- The tables after a batch of raw events. -/
def Storage.addEvents (s : Storage) (events : List ContractEvent) : Storage :=
  events.foldl Storage.addEvent s

theorem getOrCreateContractId_run (address : String) (s : Storage) :
    (getOrCreateContractId address).run s =
      .ok (s.contractIdOf address) (s.withContract address) := by
  unfold getOrCreateContractId Storage.contractIdOf Storage.withContract
  rw [EStateM.run_bind, EStateM.run_get]
  cases h : s.contracts.find? (fun c => c.columns = address) with
  | some c => simp only [h]; rfl
  | none => simp only [h]; rfl

theorem rawContractEvents_withContract (s : Storage) (address : String) :
    (s.withContract address).rawContractEvents = s.rawContractEvents := by
  unfold Storage.withContract
  split <;> rfl

theorem saveEvent_run (event : ContractEvent) (s : Storage) :
    (saveEvent event).run s = .ok () (s.addEvent event) := by
  unfold saveEvent
  rw [Db.run_bind_of_ok (getOrCreateContractId_run _ _)]
  simp [Storage.addEvent, EStateM.run_modify, rawContractEvents_withContract]

/-- Saving raw events never fails. -/
theorem saveEventsBatch_run (events : List ContractEvent) (s : Storage) :
    (saveEventsBatch events).run s = .ok () (s.addEvents events) :=
  transaction_of_ok (forM_run_eq_foldl saveEvent_run events s)

section WithContract

variable {s : Storage} {address : String}

/-- Rows whose columns are distinct are found by their columns. -/
theorem eq_of_columns {α : Type} {t : Table α} (h : (Table.columns t).Nodup) {a b : Table.Row α}
    (ha : a ∈ t) (hb : b ∈ t) (heq : a.columns = b.columns) : a = b :=
  List.inj_on_of_nodup_map h ha hb heq

/-- One address has one number. -/
theorem contractAddress?_inj (h : (Table.columns s.contracts).Nodup) {p q : Nat}
    (hp : s.contractAddress? p = some address) (hq : s.contractAddress? q = some address) :
    p = q := by
  obtain ⟨c, hc, hcolumns⟩ := Option.map_eq_some_iff.mp hp
  obtain ⟨d, hd, hcolumns'⟩ := Option.map_eq_some_iff.mp hq
  have hpid : c.rowid = p := by simpa using List.find?_some hc
  have hqid : d.rowid = q := by simpa using List.find?_some hd
  have hsame := eq_of_columns h (List.mem_of_find?_eq_some hc) (List.mem_of_find?_eq_some hd)
    (hcolumns.trans hcolumns'.symm)
  rw [← hpid, ← hqid, hsame]

theorem contracts_withContract (s : Storage) (address : String) :
    (s.withContract address).contracts = s.contracts ∨
      (s.withContract address).contracts = Table.insert s.contracts address := by
  unfold Storage.withContract
  split
  · exact .inl rfl
  · exact .inr rfl

/-- A known contract keeps its address. -/
theorem contractAddress?_withContract {id : Nat} {a : String}
    (h : s.contractAddress? id = some a) : (s.withContract address).contractAddress? id = some a := by
  unfold Storage.contractAddress? at h ⊢
  obtain ⟨c, hc, ha⟩ := Option.map_eq_some_iff.mp h
  rcases contracts_withContract s address with heq | heq
  · rw [heq, hc, Option.map_some, ha]
  · rw [heq, Table.insert, List.find?_append, hc, Option.some_or, Option.map_some, ha]

/-- The number that is returned is the number of the address. -/
theorem contractAddress?_contractIdOf (hs : Table.Ordered s.contracts) :
    (s.withContract address).contractAddress? (s.contractIdOf address) = some address := by
  unfold Storage.contractAddress? Storage.withContract Storage.contractIdOf
  cases h : s.contracts.find? (fun c => c.columns = address) with
  | some c =>
      have hc : c.columns = address := by simpa using List.find?_some h
      have hfind : s.contracts.find? (fun c' => c'.rowid = c.rowid) = some c :=
        Table.find?_rowid hs (List.mem_of_find?_eq_some h)
      simp [hfind, hc]
  | none =>
      have hnone : s.contracts.find? (fun c => c.rowid = Table.nextRowid s.contracts) = none := by
        rw [List.find?_eq_none]
        intro c hc
        simpa using (Table.rowid_lt_nextRowid hc).ne
      simp [Table.insert, List.find?_append, hnone]

end WithContract

theorem contractAddress?_addEvent {s : Storage} {event : ContractEvent} {id : Nat} {a : String}
    (h : s.contractAddress? id = some a) : (s.addEvent event).contractAddress? id = some a :=
  contractAddress?_withContract h

theorem Storage.Linked.readEvent_addEvent {s : Storage} (hs : s.Linked) (event : ContractEvent)
    {r : RawContractEvent} (hr : r ∈ Table.columns s.rawContractEvents) :
    (s.addEvent event).readEvent r = s.readEvent r := by
  obtain ⟨a, ha⟩ := hs.addresses r hr
  simp [Storage.readEvent, ha, contractAddress?_addEvent ha]

theorem Storage.storedEvents_ids (s : Storage) :
    s.storedEvents.map ContractEvent.id = s.rawIds := by
  simp [Storage.storedEvents, Storage.rawIds, Storage.readEvent, Function.comp_def]

theorem Storage.Linked.readEvent_new {s : Storage} (hs : s.Linked) (event : ContractEvent) :
    (s.addEvent event).readEvent
      { id := event.id
        ledger := event.ledger
        contractId := s.contractIdOf event.contractId
        topics := joinTopics event.topics
        value := event.value } = event.asRead := by
  have haddress : (s.addEvent event).contractAddress? (s.contractIdOf event.contractId) =
      some event.contractId := contractAddress?_contractIdOf hs.contracts
  simp [Storage.readEvent, haddress, ContractEvent.asRead]

/-- A raw event is added unless its id is known. -/
theorem Storage.Linked.storedEvents_addEvent {s : Storage} (hs : s.Linked)
    (event : ContractEvent) :
    (s.addEvent event).storedEvents =
      Table.addNew ContractEvent.id s.storedEvents event.asRead := by
  have hold : (Table.columns s.rawContractEvents).map (s.addEvent event).readEvent =
      s.storedEvents := List.map_congr_left fun r hr => hs.readEvent_addEvent event hr
  have hids := s.storedEvents_ids
  unfold Storage.storedEvents at hold ⊢
  by_cases hmem : event.id ∈ s.rawIds
  · rw [Table.addNew_of_mem (by rw [← Storage.storedEvents, hids]; exact hmem), ← hold]
    show (Table.columns (Table.insertNew _ s.rawContractEvents _)).map _ = _
    rw [Table.columns_insertNew, Table.addNew_of_mem hmem]
  · rw [Table.addNew_of_notMem (by rw [← Storage.storedEvents, hids]; exact hmem), ← hold]
    show (Table.columns (Table.insertNew _ s.rawContractEvents _)).map _ = _
    rw [Table.columns_insertNew, Table.addNew_of_notMem hmem, List.map_append, List.map_singleton,
      hs.readEvent_new event]

theorem Storage.Linked.addEvent {s : Storage} (hs : s.Linked) (event : ContractEvent) :
    (s.addEvent event).Linked := by
  refine ⟨?_, ?_, ?_⟩
  · rcases contracts_withContract s event.contractId with heq | heq
    · exact heq ▸ hs.contracts
    · exact heq ▸ hs.contracts.insert
  · show ((Table.columns (Table.insertNew _ s.rawContractEvents _)).map _).Nodup
    rw [Table.columns_insertNew]
    exact Table.nodup_addNew hs.ids
  · intro r hr
    have hr' : r ∈ Table.columns (Table.insertNew RawContractEvent.id s.rawContractEvents _) := hr
    rw [Table.columns_insertNew] at hr'
    rcases Table.mem_or_eq_of_mem_addNew hr' with hr' | rfl
    · obtain ⟨a, ha⟩ := hs.addresses r hr'
      exact ⟨a, contractAddress?_addEvent ha⟩
    · exact ⟨event.contractId, contractAddress?_contractIdOf hs.contracts⟩

theorem Storage.linked_empty : Storage.empty.Linked :=
  ⟨Table.ordered_nil, List.nodup_nil, by intro r hr; cases hr⟩

theorem Storage.Linked.addEvents {s : Storage} (hs : s.Linked) (events : List ContractEvent) :
    (s.addEvents events).Linked := by
  induction events generalizing s with
  | nil => exact hs
  | cons e events ih => exact ih (hs.addEvent e)

/-- The stored events are the received ones, the first of each id. -/
theorem Storage.Linked.storedEvents_addEvents {s : Storage} (hs : s.Linked)
    (events : List ContractEvent) :
    (s.addEvents events).storedEvents =
      Table.addAllNew ContractEvent.id s.storedEvents (events.map ContractEvent.asRead) := by
  induction events generalizing s with
  | nil => rfl
  | cons e events ih =>
      show ((s.addEvent e).addEvents events).storedEvents = _
      rw [ih (hs.addEvent e), hs.storedEvents_addEvent e]
      rfl

/-! ## Derived rows -/

/-- A raw event changes no derived table. -/
theorem EventTable.rows_addEvents {ε κ : Type} (T : EventTable ε κ) (s : Storage)
    (events : List ContractEvent) : T.rows (s.addEvents events) = T.rows s := by
  induction events generalizing s with
  | nil => rfl
  | cons e events ih =>
      have hframe : s.addEvent e =
          { s with
            contracts := (s.addEvent e).contracts
            rawContractEvents := (s.addEvent e).rawContractEvents } := by
        unfold Storage.addEvent Storage.withContract
        split <;> rfl
      refine (ih (s.addEvent e)).trans ?_
      rw [hframe, T.rows_frame]

namespace EventTable

variable {ε κ : Type} [DecidableEq κ] {T : EventTable ε κ} {s : Storage} {event : ε}
  {events : List ε}

/-- The rows of a derived table: keys and event ids are unique, and every row refers to a
raw event. -/
structure Valid (T : EventTable ε κ) (s : Storage) : Prop where
  ordered : Table.Ordered (T.rows s)
  keys : ((Table.columns (T.rows s)).map T.key).Nodup
  ids : ((Table.columns (T.rows s)).map T.eventId).Nodup
  linked : ∀ row ∈ Table.columns (T.rows s), T.eventId row ∈ s.rawIds

/-- One insert under a fresh event id: the row is added unless its key is taken. -/
theorem insertRow_run (hraw : T.eventId event ∈ s.rawIds)
    (hfresh : T.eventId event ∉ (Table.columns (T.rows s)).map T.eventId) :
    (T.insertRow event).run s = .ok () (T.put (Table.insertNew T.key (T.rows s) event) s) := by
  have hraw' : ¬ T.eventId event ∉ (Table.columns s.rawContractEvents).map RawContractEvent.id :=
    not_not_intro hraw
  unfold insertRow Table.insertNew
  by_cases hkey : T.key event ∈ (Table.columns (T.rows s)).map T.key
  · rw [EStateM.run_bind, EStateM.run_get, if_pos hkey]
    simp only [if_pos hkey, T.put_rows]
    rfl
  · rw [EStateM.run_bind, EStateM.run_get, if_neg hkey]
    simp only [if_neg hkey, if_neg hfresh, if_neg hraw']
    rfl

omit [DecidableEq κ] in
theorem rawIds_put (t : Table ε) : (T.put t s).rawIds = s.rawIds := by
  unfold Storage.rawIds
  rw [T.rawContractEvents_put]

/-- The loop of a batch with fresh event ids. -/
theorem insertRows_run (hraw : ∀ e ∈ events, T.eventId e ∈ s.rawIds)
    (hfresh : ((Table.columns (T.rows s) ++ events).map T.eventId).Nodup) :
    (forM events T.insertRow).run s =
      .ok () (T.put (Table.insertAllNew T.key (T.rows s) events) s) := by
  induction events generalizing s with
  | nil => exact congrArg (EStateM.Result.ok ()) (T.put_rows s).symm
  | cons e events ih =>
      have he : T.eventId e ∉ (Table.columns (T.rows s)).map T.eventId := by
        rw [List.map_append, List.nodup_append] at hfresh
        exact fun hmem => hfresh.2.2 _ hmem _ (by simp) rfl
      have hsub : (Table.columns (T.rows (T.put (Table.insertNew T.key (T.rows s) e) s)) ++
          events).Sublist (Table.columns (T.rows s) ++ e :: events) := by
        rw [T.rows_put, Table.columns_insertNew]
        have hstep : (Table.addNew T.key (Table.columns (T.rows s)) e).Sublist
            (Table.columns (T.rows s) ++ [e]) := Table.addNew_sublist
        simpa using hstep.append (List.Sublist.refl events)
      rw [List.forM_cons, Db.run_bind_of_ok (insertRow_run (hraw e List.mem_cons_self) he), ih]
      · rw [T.rows_put, T.put_put]
        rfl
      · intro e' he'
        rw [rawIds_put]
        exact hraw e' (List.mem_cons_of_mem _ he')
      · exact hfresh.sublist (hsub.map T.eventId)

/-- A batch with fresh event ids succeeds; of the rows with one key the first is kept. -/
theorem saveBatch_run (T : EventTable ε κ) (s : Storage) {events : List ε}
    (hraw : ∀ e ∈ events, T.eventId e ∈ s.rawIds)
    (hfresh : ((Table.columns (T.rows s) ++ events).map T.eventId).Nodup) :
    (T.saveBatch events).run s =
      .ok () (T.put (Table.insertAllNew T.key (T.rows s) events) s) :=
  transaction_of_ok (insertRows_run hraw hfresh)

/-- Such a batch keeps the table valid. -/
theorem Valid.insertAll {s' : Storage} (hT : T.Valid s)
    (hrows : T.rows s' = Table.insertAllNew T.key (T.rows s) events)
    (hids : s'.rawIds = s.rawIds) (hraw : ∀ e ∈ events, T.eventId e ∈ s.rawIds)
    (hfresh : ((Table.columns (T.rows s) ++ events).map T.eventId).Nodup) : T.Valid s' := by
  have hcolumns : Table.columns (T.rows s') =
      Table.addAllNew T.key (Table.columns (T.rows s)) events := by
    rw [hrows, Table.columns_insertAllNew]
  refine ⟨hrows ▸ hT.ordered.insertAllNew, ?_, ?_, ?_⟩
  · rw [hcolumns]
    exact Table.nodup_addAllNew hT.keys
  · rw [hcolumns]
    exact hfresh.sublist (Table.addAllNew_sublist.map T.eventId)
  · intro row hrow
    rw [hcolumns] at hrow
    rw [hids]
    rcases Table.mem_or_mem_of_mem_addAllNew hrow with hrow | hrow
    · exact hT.linked row hrow
    · exact hraw row hrow

omit [DecidableEq κ] in
/-- A change of the storage that keeps the table and the raw events. -/
theorem Valid.congr {s' : Storage} (hT : T.Valid s) (hrows : T.rows s' = T.rows s)
    (hraw : ∀ id ∈ s.rawIds, id ∈ s'.rawIds) : T.Valid s' := by
  obtain ⟨hordered, hkeys, hids, hlinked⟩ := hT
  rw [← hrows] at hordered hkeys hids hlinked
  exact ⟨hordered, hkeys, hids, fun row hrow => hraw _ (hlinked row hrow)⟩

end EventTable

end PrivatePayments.State
