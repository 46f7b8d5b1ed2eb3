import PrivatePayments.Contracts.PublicKeyRegistry
import PrivatePayments.State.MembershipSync
import Mathlib.Data.List.Chain

/-!
# PrivatePayments.State.AddressBook

The local address book against the registry.

The lookup groups the rows of an owner and takes the largest ledger; the other columns come
from some row with that ledger. Of the rows that tie SQLite promises only that it takes one,
so the choice is an argument (`RowPick`). Whatever the choice, the lookup returns what the
registry stores exactly for the owners that registered once in their last ledger
(`addressBook_agrees_iff`).
-/

namespace PrivatePayments.State

open Prover (NoteBox)
open PublicKeyRegistry (RegistryHistory)

/-! ## The lookup -/

/-- `PublicKeyEntry` -/
structure PublicKeyEntry where
  address : String
  encryptionKey : Bytes32
  noteKey : Bytes32
  ledger : UInt32
  deriving DecidableEq, Repr

/-- A choice of one among the rows that have the maximum of an aggregate. -/
structure RowPick (α : Type) where
  pick : List α → Option α
  mem : ∀ {l a}, pick l = some a → a ∈ l
  isSome : ∀ {l}, l ≠ [] → (pick l).isSome

/-- `public_keys` joined with the raw events, the rows of an owner. -/
def Storage.registrationRows (s : Storage) (address : String) : List PublicKeyEntry :=
  ((Table.columns s.publicKeys).filter fun p => p.owner = address).filterMap fun p =>
    (s.rawEvent? p.id).map fun r =>
      { address := p.owner, encryptionKey := p.encryptionKey, noteKey := p.noteKey,
        ledger := r.ledger }

/-- The rows with the largest ledger. -/
def latestRows (rows : List PublicKeyEntry) : List PublicKeyEntry :=
  rows.filter fun row => rows.all fun other => other.ledger ≤ row.ledger

/-- `lookup_public_key_by_address` -/
def lookupPublicKeyByAddress (rule : RowPick PublicKeyEntry) (s : Storage) (address : String) :
    Option PublicKeyEntry :=
  rule.pick (latestRows (s.registrationRows address))

/-! ## The chain -/

/-- An event from RPC decodes to what the registry published; `name` prints an address. -/
structure CarriesKeys (xdr : Xdr) (name : PublicKeyRegistry.Address → String) (e : ContractEvent)
    (published : UInt32 × PublicKeyRegistry.PublicKeyEvent) : Prop where
  ledger : e.ledger = published.1
  parsed : ∃ row, parseEvent xdr e.asRead = .ok (.publicKey row) ∧
    row.owner = name published.2.owner ∧ row.encryptionKey.val = published.2.encryptionKey ∧
    row.noteKey.val = published.2.noteKey

/-- The chain with a registry on it; different addresses are printed differently, and no
other contract announces keys. -/
structure RegistryChain (xdr : Xdr) (name : PublicKeyRegistry.Address → String)
    (registry : String) (history : RegistryHistory) (chain : List ContractEvent) : Prop where
  ids : (chain.map ContractEvent.id).Nodup
  names : Function.Injective name
  carries : List.Forall₂ (CarriesKeys xdr name) (contractEvents registry chain) history.published
  others : ∀ e ∈ chain, e.contractId ≠ registry → publicKeyKind.parse xdr e.asRead = none

/-- Every event of the registry is in the table. -/
def AllProcessed (registry : String) (chain : List ContractEvent) (s : Storage) : Prop :=
  ∀ e ∈ contractEvents registry chain, e.id ∈ publicKeyKind.ids s

/-- An entry has the ledger and the keys of a published event. -/
structure EntryOf (entry : PublicKeyEntry)
    (published : UInt32 × PublicKeyRegistry.PublicKeyEvent) : Prop where
  ledger : entry.ledger = published.1
  encryptionKey : entry.encryptionKey.val = published.2.encryptionKey
  noteKey : entry.noteKey.val = published.2.noteKey

/-- The keys of an entry, as the registry stores them. -/
def PublicKeyEntry.registration (entry : PublicKeyEntry) : PublicKeyRegistry.Registration :=
  ⟨entry.encryptionKey.val, entry.noteKey.val⟩

theorem EntryOf.registration {entry : PublicKeyEntry}
    {published : UInt32 × PublicKeyRegistry.PublicKeyEvent} (h : EntryOf entry published) :
    entry.registration = published.2.registration := by
  rw [PublicKeyEntry.registration, h.encryptionKey, h.noteKey]
  rfl

section Chain

variable {xdr : Xdr} {box : NoteBox} {name : PublicKeyRegistry.Address → String}
  {registry : String} {history : RegistryHistory} {chain : List ContractEvent} {s : Storage}
  {owner : PublicKeyRegistry.Address}

/-- A row comes from an event of the registry, and has its raw event. -/
theorem ClientOk.publicKey_source (hs : ClientOk xdr box chain s)
    (hchain : RegistryChain xdr name registry history chain) {row : PublicKeyEvent}
    (hrow : row ∈ Table.columns s.publicKeys) :
    ∃ e ∈ contractEvents registry chain, publicKeyKind.parse xdr e.asRead = some row ∧
      ∃ r, s.rawEvent? row.id = some r ∧ r.ledger = e.ledger := by
  obtain ⟨e, he, hparse⟩ := hs.pipeline.publicKeys.sources row hrow
  obtain ⟨r, hraw, hledger⟩ := hs.pipeline.linked.rawEvent?_of_mem he
  obtain ⟨e', he', rfl⟩ := List.mem_map.mp (hs.stored he)
  have hcontract : e'.contractId = registry := by
    by_contra hother
    rw [hchain.others e' he' hother] at hparse
    cases hparse
  have hid : row.id = e'.asRead.id := EventKind.eventId_of_parse hparse
  exact ⟨e', List.mem_filter.mpr ⟨he', by simpa using hcontract⟩, hparse, r, hid ▸ hraw, hledger⟩

/-- Every entry of an owner is one of its events. -/
theorem ClientOk.row_published (hs : ClientOk xdr box chain s)
    (hchain : RegistryChain xdr name registry history chain) {entry : PublicKeyEntry}
    (hentry : entry ∈ s.registrationRows (name owner)) :
    ∃ published ∈ history.eventsOf owner, EntryOf entry published := by
  obtain ⟨row, hrow, hread⟩ := List.mem_filterMap.mp hentry
  obtain ⟨hmem, howner⟩ := List.mem_filter.mp hrow
  obtain ⟨e, he, hparse, r, hraw, hledger⟩ := hs.publicKey_source hchain hmem
  obtain ⟨published, hpublished, hcarries⟩ := exists_of_forall₂_flip hchain.carries he
  obtain ⟨row', hok, hname, hencryption, hnote⟩ := hcarries.parsed
  obtain rfl : row' = row := by
    have hsame : publicKeyKind.parse xdr e.asRead = some row' :=
      EventKind.parse_eq_some.mpr ⟨_, hok, rfl⟩
    exact Option.some.inj (hsame.symm.trans hparse)
  rw [hraw, Option.map_some] at hread
  cases hread
  have hsame : published.2.owner = owner :=
    hchain.names (hname.symm.trans (by simpa using howner))
  exact ⟨published, List.mem_filter.mpr ⟨hpublished, by simpa using hsame⟩,
    hledger.trans hcarries.ledger, hencryption, hnote⟩

/-- Every event of an owner has an entry, once all events are processed. -/
theorem ClientOk.published_row (hs : ClientOk xdr box chain s)
    (hchain : RegistryChain xdr name registry history chain)
    (hall : AllProcessed registry chain s)
    {published : UInt32 × PublicKeyRegistry.PublicKeyEvent}
    (hpublished : published ∈ history.eventsOf owner) :
    ∃ entry ∈ s.registrationRows (name owner), EntryOf entry published := by
  obtain ⟨hmem, howner⟩ := List.mem_filter.mp hpublished
  obtain ⟨e, he, hcarries⟩ := exists_of_forall₂ hchain.carries hmem
  obtain ⟨row, hrow, hid⟩ := List.mem_map.mp (hall e he)
  obtain ⟨e', he', hparse, r, hraw, hledger⟩ := hs.publicKey_source hchain hrow
  -- the row with the id of the event was parsed from it
  have hsource : row.id = e'.asRead.id := EventKind.eventId_of_parse hparse
  obtain rfl : e' = e := List.inj_on_of_nodup_map hchain.ids (List.mem_of_mem_filter he')
    (List.mem_of_mem_filter he) (hsource.symm.trans hid)
  obtain ⟨row', hok, hname, hencryption, hnote⟩ := hcarries.parsed
  obtain rfl : row' = row := by
    have hsame : publicKeyKind.parse xdr e'.asRead = some row' :=
      EventKind.parse_eq_some.mpr ⟨_, hok, rfl⟩
    exact Option.some.inj (hsame.symm.trans hparse)
  have hrowOwner : row'.owner = name owner := by
    rw [hname, show published.2.owner = owner by simpa using howner]
  refine ⟨⟨row'.owner, row'.encryptionKey, row'.noteKey, r.ledger⟩, ?_,
    hledger.trans hcarries.ledger, hencryption, hnote⟩
  exact List.mem_filterMap.mpr ⟨row', List.mem_filter.mpr ⟨hrow, by simpa using hrowOwner⟩, by
    rw [hraw, Option.map_some]⟩

/-! ## The latest rows -/

theorem mem_latestRows {rows : List PublicKeyEntry} {entry : PublicKeyEntry} :
    entry ∈ latestRows rows ↔ entry ∈ rows ∧ ∀ other ∈ rows, other.ledger ≤ entry.ledger := by
  simp [latestRows]

/-- The last of an owner's events has the largest ledger. -/
theorem ledger_le_last {last published : UInt32 × PublicKeyRegistry.PublicKeyEvent}
    (hlast : (history.eventsOf owner).getLast? = some last)
    (hpublished : published ∈ history.eventsOf owner) : published.1 ≤ last.1 := by
  obtain ⟨front, hfront⟩ := List.getLast?_eq_some_iff.mp hlast
  have hordered := history.eventsOf_ordered owner
  rw [hfront] at hordered hpublished
  rcases List.mem_append.mp hpublished with hmem | hmem
  · exact (List.pairwise_append.mp hordered).2.2 _ hmem last (by simp)
  · rw [List.mem_singleton.mp hmem]
    exact UInt32.le_refl _

variable {last : UInt32 × PublicKeyRegistry.PublicKeyEvent}

/-- The latest rows are events of the last ledger. -/
theorem ClientOk.latest_published (hs : ClientOk xdr box chain s)
    (hchain : RegistryChain xdr name registry history chain)
    (hall : AllProcessed registry chain s)
    (hlast : (history.eventsOf owner).getLast? = some last) {entry : PublicKeyEntry}
    (hentry : entry ∈ latestRows (s.registrationRows (name owner))) :
    ∃ published ∈ history.eventsOf owner, published.1 = last.1 ∧ EntryOf entry published := by
  obtain ⟨hrow, hlargest⟩ := mem_latestRows.mp hentry
  obtain ⟨published, hpublished, hof⟩ := hs.row_published hchain hrow
  obtain ⟨lastEntry, hlastEntry, hlastOf⟩ :=
    hs.published_row hchain hall (List.mem_of_getLast? hlast)
  have hle := hlargest lastEntry hlastEntry
  rw [hlastOf.ledger, hof.ledger] at hle
  exact ⟨published, hpublished, UInt32.le_antisymm (ledger_le_last hlast hpublished) hle, hof⟩

/-- Every event of the last ledger is among the latest rows. -/
theorem ClientOk.published_latest (hs : ClientOk xdr box chain s)
    (hchain : RegistryChain xdr name registry history chain)
    (hall : AllProcessed registry chain s)
    (hlast : (history.eventsOf owner).getLast? = some last)
    {published : UInt32 × PublicKeyRegistry.PublicKeyEvent}
    (hpublished : published ∈ history.eventsOf owner) (hledger : published.1 = last.1) :
    ∃ entry ∈ latestRows (s.registrationRows (name owner)), EntryOf entry published := by
  obtain ⟨entry, hentry, hof⟩ := hs.published_row hchain hall hpublished
  refine ⟨entry, mem_latestRows.mpr ⟨hentry, fun other hother => ?_⟩, hof⟩
  obtain ⟨p, hp, hpof⟩ := hs.row_published hchain hother
  rw [hpof.ledger, hof.ledger, hledger]
  exact ledger_le_last hlast hp

/-- The choice of one row if it is there, and of the first row otherwise. -/
def preferRow (entry : PublicKeyEntry) : RowPick PublicKeyEntry where
  pick l := if entry ∈ l then some entry else l.head?
  mem {l a} h := by
    split_ifs at h with hmem
    · exact Option.some.inj h ▸ hmem
    · exact List.mem_of_head? h
  isSome {l} h := by
    split_ifs
    · rfl
    · simpa using h

/-- The owner registered once in the ledger of its last registration. -/
def SettledOnce (history : RegistryHistory) (owner : PublicKeyRegistry.Address) : Prop :=
  ∀ last, (history.eventsOf owner).getLast? = some last →
    ((history.eventsOf owner).filter fun e => e.1 = last.1).length = 1

/-- The registration before the last, if it is of the same ledger. -/
theorem exists_previous (hlast : (history.eventsOf owner).getLast? = some last)
    (hmany : ((history.eventsOf owner).filter fun e => e.1 = last.1).length ≠ 1) :
    ∃ previous ∈ history.eventsOf owner, previous.1 = last.1 ∧
      previous.2.registration ≠ last.2.registration := by
  obtain ⟨front, hfront⟩ := List.getLast?_eq_some_iff.mp hlast
  have hordered := history.eventsOf_ordered owner
  have hkeys := history.eventsOf_isChain owner
  rcases List.eq_nil_or_concat front with rfl | ⟨first, previous, rfl⟩
  · rw [hfront] at hmany
    simp at hmany
  · rw [List.concat_eq_append, List.append_assoc, List.singleton_append] at hfront
    rw [hfront] at hordered hkeys hmany ⊢
    refine ⟨previous, by simp, ?_, ?_⟩
    · by_contra hother
      -- then the events before it are of other ledgers too
      have hle : previous.1 ≤ last.1 := by
        have hsuffix := (List.pairwise_append.mp hordered).2.1
        exact (List.pairwise_cons.mp hsuffix).1 last (by simp)
      have hnone : first.filter (fun e => e.1 = last.1) = [] := by
        refine List.filter_eq_nil_iff.mpr fun e he heq => hother ?_
        have hbefore := (List.pairwise_append.mp hordered).2.2 e he previous (by simp)
        rw [of_decide_eq_true heq] at hbefore
        exact UInt32.le_antisymm hle hbefore
      rw [List.filter_append, hnone] at hmany
      simp [hother] at hmany
    · rw [List.map_append] at hkeys
      exact (List.isChain_cons_cons.mp hkeys.right_of_append).1

/-- **The address book.** After any run over the events of the chain, with all events of the
registry processed, whatever the order and the batches: the lookup of an owner returns the
keys that the registry stores for it, whichever of tied rows is taken, if and only if the
owner registered once in the ledger of its last registration. -/
theorem addressBook_agrees_iff (xdr : Xdr) (box : NoteBox)
    (hchain : RegistryChain xdr name registry history chain) {ops : List ClientOp}
    (hops : ∀ op ∈ ops, op.saved ⊆ chain)
    (hall : AllProcessed registry chain (clientRun xdr box ops))
    (owner : PublicKeyRegistry.Address) :
    (∀ rule : RowPick PublicKeyEntry,
        (lookupPublicKeyByAddress rule (clientRun xdr box ops) (name owner)).map
          PublicKeyEntry.registration = history.storage.registrations owner) ↔
      SettledOnce history owner := by
  have hs : ClientOk xdr box chain (clientRun xdr box ops) := ClientOk.run hops
  rw [history.registrations_eq owner]
  cases hlast : (history.eventsOf owner).getLast? with
  | none =>
      -- no event of the owner, so no row
      have hevents := List.getLast?_eq_none_iff.mp hlast
      have honce : SettledOnce history owner := fun last hsome => by
        rw [hlast] at hsome
        cases hsome
      refine ⟨fun _ => honce, fun _ rule => ?_⟩
      cases hpick : lookupPublicKeyByAddress rule (clientRun xdr box ops) (name owner) with
      | none => rfl
      | some entry =>
          obtain ⟨p, hp, -⟩ := hs.row_published hchain (mem_latestRows.mp (rule.mem hpick)).1
          rw [hevents] at hp
          cases hp
  | some last =>
      refine ⟨fun hagree last' hlast' => ?_, fun honce rule => ?_⟩
      · obtain rfl : last = last' := Option.some.inj (hlast.symm.trans hlast')
        by_contra hmany
        obtain ⟨previous, hprevious, hledger, hkeys⟩ := exists_previous hlast hmany
        obtain ⟨entry, hentry, hof⟩ := hs.published_latest hchain hall hlast hprevious hledger
        have hlookup := hagree (preferRow entry)
        have hpick : lookupPublicKeyByAddress (preferRow entry) (clientRun xdr box ops)
            (name owner) = some entry := if_pos hentry
        rw [hpick, Option.map_some, hof.registration, Option.map_some] at hlookup
        exact hkeys (Option.some.inj hlookup)
      · have hone := honce last hlast
        obtain ⟨lastEntry, hlastEntry, -⟩ :=
          hs.published_latest hchain hall hlast (List.mem_of_getLast? hlast) rfl
        obtain ⟨entry, hpick⟩ := Option.isSome_iff_exists.mp
          (rule.isSome (List.ne_nil_of_mem hlastEntry))
        have hlookup : lookupPublicKeyByAddress rule (clientRun xdr box ops) (name owner) =
            some entry := hpick
        obtain ⟨p, hp, hledger, hof⟩ := hs.latest_published hchain hall hlast (rule.mem hpick)
        -- the only event of the last ledger is the last one
        obtain ⟨only, honly⟩ := List.length_eq_one_iff.mp hone
        have hmem {e : UInt32 × PublicKeyRegistry.PublicKeyEvent}
            (he : e ∈ history.eventsOf owner) (hsame : e.1 = last.1) : e = only := by
          have hfilter : e ∈ (history.eventsOf owner).filter fun e => e.1 = last.1 :=
            List.mem_filter.mpr ⟨he, decide_eq_true hsame⟩
          rw [honly] at hfilter
          exact List.mem_singleton.mp hfilter
        rw [hlookup, Option.map_some, Option.map_some, hof.registration, hmem hp hledger,
          hmem (List.mem_of_getLast? hlast) rfl]

end Chain

/-! ## Keys that are changed -/

/-- A key of one byte, repeated. -/
def filledKey (fill : UInt8) : Bytes32 := ⟨List.replicate 32 fill, List.length_replicate⟩

/-- Owner 0 registers in ledger 5, one time for each key. -/
def rotation (fills : List UInt8) : RegistryHistory where
  calls := fills.map fun fill => ⟨5, true, ⟨0, (filledKey fill).val, (filledKey fill).val⟩⟩
  ordered := List.pairwise_map.mpr (List.pairwise_of_forall fun _ _ => UInt32.le_refl 5)

/-- The data of a `public_key_event`. -/
def publicKeyData (fill : UInt8) : ScVal :=
  .map (some [(.symbol (asciiBytes "encryption_key"), .bytes (filledKey fill).val),
    (.symbol (asciiBytes "note_key"), .bytes (filledKey fill).val)])

/-- An address in print. -/
def markName (owner : PublicKeyRegistry.Address) : String := String.ofList (List.replicate owner 'G')

theorem markName_injective : Function.Injective markName := by
  intro a b hab
  have hlength := congrArg (fun text => text.toList.length) hab
  simpa [markName] using hlength

/-- The decoder on the values of the events, with account keys that are numbers. -/
def rotationXdr : Xdr where
  fromXdrBase64 text := okOrElse
    ([("public_key_event", .symbol (asciiBytes "public_key_event")),
      ("owner", .address (.account (filledKey 0))),
      ("first", publicKeyData 17), ("second", publicKeyData 34)].lookup text) "xdr value invalid"
  toUtf8String := wireXdr.toUtf8String
  publicKeyString key := markName (key.val.headD 0).toNat
  contractString _ := ""

/-- The events of the first and of the second registration. -/
def rotationChain : List ContractEvent := [
  ⟨"5-0", 5, "registry", ["public_key_event", "owner"], "first"⟩,
  ⟨"5-1", 5, "registry", ["public_key_event", "owner"], "second"⟩]

theorem rotationChain_parsed :
    rotationChain.map (fun e => parseEvent rotationXdr e.asRead) = [
      .ok (.publicKey ⟨"5-0", markName 0, filledKey 17, filledKey 17⟩),
      .ok (.publicKey ⟨"5-1", markName 0, filledKey 34, filledKey 34⟩)] := by
  decide +kernel

/-- The first registrations of the chain, as the registry publishes them. -/
theorem rotation_chain {count : Nat} {fills : List UInt8}
    (hpublished : (rotation fills).published =
      ([(5, ⟨0, (filledKey 17).val, (filledKey 17).val⟩),
        (5, ⟨0, (filledKey 34).val, (filledKey 34).val⟩)] : List _).take count) :
    RegistryChain rotationXdr markName "registry" (rotation fills) (rotationChain.take count) := by
  have hparsed := rotationChain_parsed
  simp only [rotationChain, List.map_cons, List.map_nil, List.cons.injEq, and_true] at hparsed
  obtain ⟨hfirst, hsecond⟩ := hparsed
  have hregistry : ∀ e ∈ rotationChain, e.contractId = "registry" := by decide
  have hevents : contractEvents "registry" (rotationChain.take count) = rotationChain.take count :=
    List.filter_eq_self.mpr fun e he => decide_eq_true (hregistry e (List.mem_of_mem_take he))
  refine ⟨?_, markName_injective, ?_, fun e he hother => ?_⟩
  · have hids : (rotationChain.map ContractEvent.id).Nodup := by decide
    exact hids.sublist ((List.take_sublist _ _).map _)
  · rw [hevents, hpublished]
    refine List.forall₂_take count ?_
    exact .cons ⟨rfl, _, hfirst, rfl, rfl, rfl⟩ (.cons ⟨rfl, _, hsecond, rfl, rfl, rfl⟩ .nil)
  · exact absurd (hregistry e (List.mem_of_mem_take he)) hother

/-- The row that was inserted first. -/
def firstRow : RowPick PublicKeyEntry where
  pick := List.head?
  mem h := List.mem_of_head? h
  isSome h := by simpa using h

theorem addressBook_agrees_iff_once :
    (lookupPublicKeyByAddress firstRow (clientRun rotationXdr closedBox
        [.save (rotationChain.take 1), .process 10]) (markName 0)).map
      PublicKeyEntry.registration = (rotation [17]).storage.registrations 0 := by
  have hchain := rotation_chain (show (rotation [17]).published = List.take 1 _ by decide +kernel)
  have honce : SettledOnce (rotation [17]) 0 := by
    have hevents : (rotation [17]).eventsOf 0 =
        [(5, ⟨0, (filledKey 17).val, (filledKey 17).val⟩)] := by decide +kernel
    intro last hlast
    rw [hevents] at hlast ⊢
    cases hlast
    rfl
  have hops : ∀ op ∈ [ClientOp.save (rotationChain.take 1), .process 10],
      op.saved ⊆ rotationChain.take 1 := by simp [ClientOp.saved]
  have hall : AllProcessed "registry" (rotationChain.take 1) (clientRun rotationXdr closedBox
      [.save (rotationChain.take 1), .process 10]) := by
    unfold AllProcessed
    decide +kernel
  exact (addressBook_agrees_iff rotationXdr closedBox hchain hops hall 0).mpr honce firstRow

/-- Two registrations in one ledger whose events are processed one at a time: the lookup
returns the old keys. -/
theorem lookup_returns_old_keys :
    ¬ ∀ {xdr : Xdr} {box : NoteBox} {name : PublicKeyRegistry.Address → String}
      {registry : String} {history : RegistryHistory} {chain : List ContractEvent}
      {ops : List ClientOp}, RegistryChain xdr name registry history chain →
      (∀ op ∈ ops, op.saved ⊆ chain) → AllProcessed registry chain (clientRun xdr box ops) →
      ∀ (rule : RowPick PublicKeyEntry) (owner : PublicKeyRegistry.Address),
        (lookupPublicKeyByAddress rule (clientRun xdr box ops) (name owner)).map
          PublicKeyEntry.registration = history.storage.registrations owner := by
  intro hagree
  have hchain := rotation_chain
    (show (rotation [17, 34]).published = List.take 2 _ by decide +kernel)
  have hops : ∀ op ∈ [ClientOp.save rotationChain, .process 1, .process 1],
      op.saved ⊆ rotationChain.take 2 := by simp [ClientOp.saved, rotationChain]
  have hall : AllProcessed "registry" (rotationChain.take 2) (clientRun rotationXdr closedBox
      [.save rotationChain, .process 1, .process 1]) := by
    unfold AllProcessed
    decide +kernel
  have hold : (lookupPublicKeyByAddress firstRow (clientRun rotationXdr closedBox
      [.save rotationChain, .process 1, .process 1]) (markName 0)).map
        PublicKeyEntry.registration = some ⟨(filledKey 17).val, (filledKey 17).val⟩ := by
    decide +kernel
  have hnew : (rotation [17, 34]).storage.registrations 0 =
      some ⟨(filledKey 34).val, (filledKey 34).val⟩ := by decide +kernel
  have hlookup := hagree hchain hops hall firstRow 0
  rw [hold, hnew] at hlookup
  exact absurd hlookup (by decide)

end PrivatePayments.State
