import PrivatePayments.Soroban

/-!
# PrivatePayments.Contracts.PublicKeyRegistry

The contract that keeps the public keys of users (`public-key-registry/src/lib.rs`), and its
life over the ledgers.

A registration overwrites the owner's last one and is announced, unless it repeats it. So the
events of an owner never repeat their predecessor, and the last one has the keys that are
stored (`registrations_eq`).
-/

namespace PrivatePayments.PublicKeyRegistry

/-- An account address. -/
abbrev Address := Nat

/-- `Account` -/
structure Account where
  owner : Address
  encryptionKey : List UInt8
  noteKey : List UInt8

/-- `Registration` -/
structure Registration where
  encryptionKey : List UInt8
  noteKey : List UInt8
  deriving DecidableEq, Repr

/-- `PublicKeyEvent` -/
structure PublicKeyEvent where
  owner : Address
  encryptionKey : List UInt8
  noteKey : List UInt8
  deriving DecidableEq, Repr

/-- The keys that an event announces. -/
def PublicKeyEvent.registration (event : PublicKeyEvent) : Registration :=
  ⟨event.encryptionKey, event.noteKey⟩

/-- The entries under `DataKey::Registration`, and the published events. -/
structure RegistryStorage where
  registrations : Address → Option Registration := fun _ => none
  events : List PublicKeyEvent := []

/-- The monad of the contract's function, which has no errors of its own. -/
abbrev RegistryM := Contract RegistryStorage Empty

/-- `assert_eq!` of a key's length with 32. -/
def assertLength (key : List UInt8) : RegistryM Unit :=
  if key.length = 32 then pure () else throw .trap

/-- What `register` does after its checks. -/
def storeRegistration (account : Account) : RegistryM Unit := do
  let s ← get
  let next : Registration := ⟨account.encryptionKey, account.noteKey⟩
  if s.registrations account.owner = some next then pure ()
  else do
    modify fun s => { s with
      registrations := Function.update s.registrations account.owner (some next) }
    modify fun s => { s with
      events := s.events ++ [⟨account.owner, account.encryptionKey, account.noteKey⟩] }

/-- `register`; `authorised` tells whether the owner signed. -/
def register (authorised : Bool) (account : Account) : RegistryM Unit := do
  Contract.requireAuth authorised
  assertLength account.encryptionKey
  assertLength account.noteKey
  storeRegistration account

/-! ### Histories -/

/-- A call of `register` in a ledger. -/
structure RegisterCall where
  ledger : UInt32
  authorised : Bool
  account : Account

/-- The storage after a call, which is the old one if the call fails. -/
def RegisterCall.after (s : RegistryStorage) (call : RegisterCall) : RegistryStorage :=
  (Contract.invoke (register call.authorised call.account) s).2

/-- The events that the calls publish, each with its ledger. -/
def publishedBy : List RegisterCall → RegistryStorage → List (UInt32 × PublicKeyEvent)
  | [], _ => []
  | call :: calls, s =>
      ((call.after s).events.drop s.events.length).map (fun event => (call.ledger, event)) ++
        publishedBy calls (call.after s)

/-- The calls of `register`, oldest first. -/
structure RegistryHistory where
  calls : List RegisterCall
  ordered : calls.Pairwise fun a b => a.ledger ≤ b.ledger

namespace RegistryHistory

/-- What the calls leave. -/
def storage (h : RegistryHistory) : RegistryStorage := h.calls.foldl RegisterCall.after {}

/-- The events of the calls. -/
def published (h : RegistryHistory) : List (UInt32 × PublicKeyEvent) := publishedBy h.calls {}

/-- The events of one owner. -/
def eventsOf (h : RegistryHistory) (owner : Address) : List (UInt32 × PublicKeyEvent) :=
  h.published.filter fun e => e.2.owner = owner

end RegistryHistory

/-! ### What a call does -/

/-- The event of a registration. -/
def Account.event (account : Account) : PublicKeyEvent :=
  ⟨account.owner, account.encryptionKey, account.noteKey⟩

/-- The storage after a registration that is announced. -/
def RegistryStorage.registered (s : RegistryStorage) (account : Account) : RegistryStorage where
  registrations := Function.update s.registrations account.owner (some account.event.registration)
  events := s.events ++ [account.event]

theorem storeRegistration_same {s : RegistryStorage} {account : Account}
    (h : s.registrations account.owner = some account.event.registration) :
    (storeRegistration account).run s = .ok () s := by
  have hsame : s.registrations account.owner =
      some ⟨account.encryptionKey, account.noteKey⟩ := h
  unfold storeRegistration
  simp only [EStateM.run_bind, EStateM.run_get]
  rw [if_pos hsame]
  rfl

theorem storeRegistration_other {s : RegistryStorage} {account : Account}
    (h : s.registrations account.owner ≠ some account.event.registration) :
    (storeRegistration account).run s = .ok () (s.registered account) := by
  have hother : s.registrations account.owner ≠
      some ⟨account.encryptionKey, account.noteKey⟩ := h
  unfold storeRegistration
  simp only [EStateM.run_bind, EStateM.run_get]
  rw [if_neg hother]
  rfl

/-- A call that passes the checks stores the keys. -/
theorem register_ok {authorised : Bool} {account : Account} {s s' : RegistryStorage}
    (h : (register authorised account).run s = .ok () s') :
    account.encryptionKey.length = 32 ∧ account.noteKey.length = 32 ∧
      (storeRegistration account).run s = .ok () s' := by
  have hassert {key : List UInt8} {f : Unit → RegistryM Unit}
      (h : (assertLength key >>= f).run s = .ok () s') :
      key.length = 32 ∧ (f ()).run s = .ok () s' := by
    by_cases hlength : key.length = 32
    · rw [assertLength, if_pos hlength] at h
      exact ⟨hlength, h⟩
    · rw [assertLength, if_neg hlength] at h
      cases h
  obtain ⟨-, h⟩ := Contract.requireAuth_bind_ok h
  obtain ⟨hencryption, h⟩ := hassert h
  obtain ⟨hnote, h⟩ := hassert h
  exact ⟨hencryption, hnote, h⟩

/-- A call fails or repeats the stored keys, or it registers other keys of 32 bytes. -/
theorem RegisterCall.after_cases (s : RegistryStorage) (call : RegisterCall) :
    call.after s = s ∨
      call.after s = s.registered call.account ∧
        s.registrations call.account.owner ≠ some call.account.event.registration ∧
        call.account.encryptionKey.length = 32 ∧ call.account.noteKey.length = 32 := by
  unfold RegisterCall.after
  cases hrun : (register call.authorised call.account).run s with
  | error e s' =>
      rw [Contract.invoke_of_error hrun]
      exact .inl rfl
  | ok u s' =>
      obtain ⟨hencryption, hnote, hstore⟩ := register_ok hrun
      rw [Contract.invoke_of_ok hrun]
      by_cases hsame : s.registrations call.account.owner = some call.account.event.registration
      · rw [storeRegistration_same hsame] at hstore
        cases hstore
        exact .inl rfl
      · rw [storeRegistration_other hsame] at hstore
        cases hstore
        exact .inr ⟨rfl, hsame, hencryption, hnote⟩

/-! ### What calls publish -/

section Published

variable {s : RegistryStorage} {call : RegisterCall} {calls : List RegisterCall}
  {owner : Address}

theorem publishedBy_same (h : call.after s = s) :
    publishedBy (call :: calls) s = publishedBy calls s := by
  rw [publishedBy, h, List.drop_length]
  rfl

theorem publishedBy_registered (h : call.after s = s.registered call.account) :
    publishedBy (call :: calls) s =
      (call.ledger, call.account.event) :: publishedBy calls (s.registered call.account) := by
  rw [publishedBy, h, RegistryStorage.registered, List.drop_left]
  rfl

/-- The ledgers of the events are those of calls, in their order. -/
theorem publishedBy_ledgers (calls : List RegisterCall) (s : RegistryStorage) :
    ((publishedBy calls s).map Prod.fst).Sublist (calls.map RegisterCall.ledger) := by
  induction calls generalizing s with
  | nil => exact .slnil
  | cons call calls ih =>
      rcases call.after_cases s with h | ⟨h, -⟩
      · rw [publishedBy_same h]
        exact (ih s).cons _
      · rw [publishedBy_registered h]
        exact (ih _).cons_cons _

/-- The keys that are announced have 32 bytes. -/
theorem publishedBy_lengths (calls : List RegisterCall) (s : RegistryStorage) :
    ∀ e ∈ publishedBy calls s, e.2.encryptionKey.length = 32 ∧ e.2.noteKey.length = 32 := by
  induction calls generalizing s with
  | nil => nofun
  | cons call calls ih =>
      rcases call.after_cases s with h | ⟨h, -, hencryption, hnote⟩
      · rw [publishedBy_same h]
        exact ih s
      · rw [publishedBy_registered h]
        intro e he
        rcases List.mem_cons.mp he with rfl | he
        · exact ⟨hencryption, hnote⟩
        · exact ih _ e he

/-- The keys of an owner: what is stored before the calls, and what these announce. -/
def keysOf (owner : Address) (calls : List RegisterCall) (s : RegistryStorage) :
    List Registration :=
  (s.registrations owner).toList ++
    ((publishedBy calls s).filter fun e => e.2.owner = owner).map fun e => e.2.registration

/-- A call leaves the keys of an owner as they are, or puts other keys in front. -/
theorem keysOf_cons (owner : Address) (call : RegisterCall) (calls : List RegisterCall)
    (s : RegistryStorage) :
    keysOf owner (call :: calls) s = keysOf owner calls (call.after s) ∨
      ∃ keys rest, keysOf owner calls (call.after s) = keys :: rest ∧
        keysOf owner (call :: calls) s = (s.registrations owner).toList ++ keys :: rest ∧
        s.registrations owner ≠ some keys := by
  rcases call.after_cases s with h | ⟨h, hother, -⟩
  · rw [h, keysOf, publishedBy_same h]
    exact .inl rfl
  · rw [h, keysOf, publishedBy_registered h, keysOf]
    by_cases howner : call.account.owner = owner
    · subst howner
      have hstored : (s.registered call.account).registrations call.account.owner =
          some call.account.event.registration := Function.update_self _ _ _
      have howner : decide ((call.ledger, call.account.event).2.owner = call.account.owner) :=
        decide_eq_true rfl
      rw [hstored, List.filter_cons, if_pos howner]
      exact .inr ⟨call.account.event.registration, _, rfl, rfl, hother⟩
    · refine .inl ?_
      have hneither : (s.registered call.account).registrations owner = s.registrations owner :=
        Function.update_of_ne (Ne.symm howner) _ _
      have hother : ¬ decide ((call.ledger, call.account.event).2.owner = owner) = true :=
        fun heq => howner (of_decide_eq_true heq)
      rw [hneither, List.filter_cons, if_neg hother]

/-- The last of the keys is stored at the end. -/
theorem keysOf_getLast? (owner : Address) (calls : List RegisterCall) (s : RegistryStorage) :
    (keysOf owner calls s).getLast? = (calls.foldl RegisterCall.after s).registrations owner := by
  induction calls generalizing s with
  | nil => cases h : s.registrations owner <;> simp [keysOf, publishedBy, h]
  | cons call calls ih =>
      rw [List.foldl_cons, ← ih (call.after s)]
      rcases keysOf_cons owner call calls s with h | ⟨keys, rest, hrest, h, -⟩
      · rw [h]
      · rw [h, hrest, List.getLast?_append_of_ne_nil _ (by simp)]

/-- No two successive keys are the same. -/
theorem keysOf_isChain (owner : Address) (calls : List RegisterCall) (s : RegistryStorage) :
    (keysOf owner calls s).IsChain (· ≠ ·) := by
  induction calls generalizing s with
  | nil => cases h : s.registrations owner <;> simp [keysOf, publishedBy, h]
  | cons call calls ih =>
      rcases keysOf_cons owner call calls s with h | ⟨keys, rest, hrest, h, hother⟩
      · rw [h]
        exact ih _
      · rw [h]
        have hchain := hrest ▸ ih (call.after s)
        cases hstored : s.registrations owner with
        | none => exact hchain
        | some stored =>
            rw [hstored] at hother
            exact List.isChain_cons_cons.mpr ⟨fun heq => hother (congrArg some heq), hchain⟩

end Published

namespace RegistryHistory

variable (h : RegistryHistory) (owner : Address)

theorem keysOf_calls : keysOf owner h.calls {} =
    (h.eventsOf owner).map fun e => e.2.registration := rfl

/-- The keys that are stored are those of the owner's last event. -/
theorem registrations_eq : h.storage.registrations owner =
    (h.eventsOf owner).getLast?.map fun e => e.2.registration := by
  rw [storage, ← keysOf_getLast?, keysOf_calls, List.getLast?_map]

/-- No event of an owner repeats the one before it. -/
theorem eventsOf_isChain :
    ((h.eventsOf owner).map fun e => e.2.registration).IsChain (· ≠ ·) :=
  keysOf_calls h owner ▸ keysOf_isChain owner h.calls {}

/-- The events of an owner are in the order of their ledgers. -/
theorem eventsOf_ordered : (h.eventsOf owner).Pairwise fun a b => a.1 ≤ b.1 := by
  have hledgers : ((h.eventsOf owner).map Prod.fst).Pairwise (· ≤ ·) := by
    have hcalls : (h.calls.map RegisterCall.ledger).Pairwise (· ≤ ·) :=
      List.pairwise_map.mpr h.ordered
    exact hcalls.sublist ((List.filter_sublist.map _).trans (publishedBy_ledgers h.calls {}))
  exact List.pairwise_map.mp hledgers

end RegistryHistory

end PrivatePayments.PublicKeyRegistry
