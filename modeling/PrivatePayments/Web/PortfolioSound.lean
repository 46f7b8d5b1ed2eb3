import PrivatePayments.State.Portfolio
import PrivatePayments.Web.EventsProcessorSound
import PrivatePayments.Web.WitnessSound

/-!
# PrivatePayments.Web.PortfolioSound

What the shown balances say about the chain.

`holdings` says from the stored events alone what an address has in a pool: the amounts of the
commitments that `derive` finds a note of the address in and that no stored nullifier of the
pool spends. When the processor of the storage worker is idle, the unspent notes that are
listed are these, and the balances are their sums (`portfolio_exact`).
-/

namespace PrivatePayments.Web

open State Prover

/-! ## What an address has -/

/-- The account of an address with its latest keys. -/
def accountKeys? (s : Storage) (address : String) : Option AccountKeys := do
  let account ← s.accounts.find? fun a => a.columns = address
  (s.latestKeypair? account.rowid).map KeypairColumns.toAccountKeys

/-- The amount of a commitment, if it is a note of the account that no nullifier of the pool
spends. -/
def unspentAmount? (derive : DeriveNoteFn) (s : Storage) (account : AccountKeys) (pool : String)
    (c : Table.Row NewCommitmentEvent) : Option NoteAmount :=
  match derive account (commitmentRow c) with
  | .ok (some derived) =>
      if s.poolNullifiers.any fun n => n.columns.nullifier = derived.expectedNullifier ∧
          s.eventAddress? n.columns.id = some pool then none
      else some derived.amount
  | _ => none

/-- The amounts that an address has in a pool. -/
def holdings (derive : DeriveNoteFn) (s : Storage) (pool address : String) : List NoteAmount :=
  match accountKeys? s address with
  | some account =>
      (s.poolCommitments.filter fun c => s.eventAddress? c.columns.id = some pool).filterMap
        (unspentAmount? derive s account pool)
  | none => []

/-- The sum of some amounts. -/
def total (amounts : List NoteAmount) : Nat := (amounts.map Fin.val).sum

/-- No commitment is a note of two accounts. -/
def OneOwner (derive : DeriveNoteFn) (s : Storage) : Prop :=
  ∀ k ∈ Table.columns s.keypairs, ∀ k' ∈ Table.columns s.keypairs, ∀ c ∈ s.poolCommitments,
    ∀ derived derived', derive k.toAccountKeys (commitmentRow c) = .ok (some derived) →
      derive k'.toAccountKeys (commitmentRow c) = .ok (some derived') →
        k.accountId = k'.accountId

/-! ## Rows -/

section Rows

variable {s : Storage} {address pool : String} {row : NoteRow}

theorem joinPool_some {note : UserNote} {c : Table.Row NewCommitmentEvent}
    (h : s.joinPool note c = some row) :
    row.note = note ∧ row.commitment = c ∧
      s.eventAddress? c.columns.id = some row.poolAddress := by
  unfold Storage.joinPool at h
  obtain ⟨raw, hraw, h⟩ := Option.bind_eq_some_iff.mp h
  obtain ⟨poolAddress, hpool, h⟩ := Option.bind_eq_some_iff.mp h
  cases h
  refine ⟨rfl, rfl, ?_⟩
  unfold Storage.eventAddress?
  rw [hraw]
  exact hpool

theorem joinPool_isSome {note : UserNote} {c : Table.Row NewCommitmentEvent}
    (h : s.eventAddress? c.columns.id = some pool) :
    ∃ ledger, s.joinPool note c = some ⟨note, c, ledger, pool⟩ := by
  obtain ⟨raw, hraw, hpool⟩ := Option.bind_eq_some_iff.mp h
  refine ⟨raw.ledger, ?_⟩
  unfold Storage.joinPool
  rw [hraw]
  simp [hpool]

theorem mem_noteRows (h : row ∈ s.noteRows address) :
    row.note ∈ Table.columns s.userNotes ∧
      (∃ a ∈ s.accounts, a.rowid = row.note.accountId ∧ a.columns = address) ∧
      row.commitment ∈ s.poolCommitments ∧ row.commitment.rowid = row.note.commitmentId ∧
      s.eventAddress? row.commitment.columns.id = some row.poolAddress := by
  obtain ⟨note, hnote, hrow⟩ := List.mem_flatMap.mp h
  obtain ⟨hmem, haccount⟩ := List.mem_filter.mp hnote
  obtain ⟨c, hc, hjoin⟩ := List.mem_filterMap.mp hrow
  obtain ⟨hcmem, hid⟩ := List.mem_filter.mp hc
  obtain ⟨rfl, rfl, hpool⟩ := joinPool_some hjoin
  obtain ⟨a, ha, hcolumns⟩ := List.any_eq_true.mp haccount
  exact ⟨hmem, ⟨a, ha, of_decide_eq_true hcolumns⟩, hcmem, of_decide_eq_true hid, hpool⟩

theorem exists_noteRow {note : UserNote} {c : Table.Row NewCommitmentEvent}
    (hnote : note ∈ Table.columns s.userNotes)
    (haccount : ∃ a ∈ s.accounts, a.rowid = note.accountId ∧ a.columns = address)
    (hc : c ∈ s.poolCommitments) (hid : c.rowid = note.commitmentId)
    (hpool : s.eventAddress? c.columns.id = some pool) :
    ∃ ledger, (⟨note, c, ledger, pool⟩ : NoteRow) ∈ s.noteRows address := by
  obtain ⟨ledger, hjoin⟩ := @joinPool_isSome s _ note _ hpool
  obtain ⟨a, ha, hcolumns⟩ := haccount
  refine ⟨ledger, List.mem_flatMap.mpr ⟨note, List.mem_filter.mpr ⟨hnote, ?_⟩,
    List.mem_filterMap.mpr ⟨c, List.mem_filter.mpr ⟨hc, decide_eq_true hid⟩, hjoin⟩⟩⟩
  exact List.any_eq_true.mpr ⟨a, ha, decide_eq_true hcolumns⟩

/-- The join adds columns to a commitment. -/
theorem commitments_filterMap_joinPool (note : UserNote)
    (rows : List (Table.Row NewCommitmentEvent)) :
    ((rows.filterMap (s.joinPool note)).map NoteRow.commitment).Sublist rows := by
  induction rows with
  | nil => exact .slnil
  | cons c rows ih =>
      cases hjoin : s.joinPool note c with
      | none =>
          rw [List.filterMap_cons_none hjoin]
          exact ih.cons _
      | some row =>
          rw [List.filterMap_cons_some hjoin, List.map_cons, (joinPool_some hjoin).2.1]
          exact ih.cons_cons _

/-- No commitment has two rows. -/
theorem noteRows_nodup (hordered : Table.Ordered s.poolCommitments)
    (hdistinct : (s.notePlaces.map Prod.snd).Nodup) (address : String) :
    ((s.noteRows address).map NoteRow.commitment).Nodup := by
  have hrows : s.poolCommitments.Nodup :=
    .of_map Table.Row.rowid (hordered.map Table.Row.rowid fun _ _ hlt => Nat.ne_of_lt hlt)
  unfold Storage.noteRows
  rw [List.map_flatMap, List.nodup_flatMap]
  refine ⟨fun note _ => ?_, ?_⟩
  · exact (hrows.filter _).sublist (commitments_filterMap_joinPool note _)
  · have hids : (Table.columns s.userNotes).Pairwise fun n n' =>
        n.commitmentId ≠ n'.commitmentId := by
      have hmap : s.notePlaces.map Prod.snd =
          (Table.columns s.userNotes).map UserNote.commitmentId := List.map_map
      rw [hmap] at hdistinct
      exact List.pairwise_map.mp hdistinct
    refine (hids.filter _).imp fun {n n'} hne => ?_
    have hid : ∀ {note : UserNote} {c : Table.Row NewCommitmentEvent},
        c ∈ ((s.poolCommitments.filter fun c => c.rowid = note.commitmentId).filterMap
          (s.joinPool note)).map NoteRow.commitment → c.rowid = note.commitmentId := by
      intro note c hc
      have hmem := (commitments_filterMap_joinPool note _).subset hc
      exact of_decide_eq_true (List.mem_filter.mp hmem).2
    exact fun c hc hc' => hne ((hid hc).symm.trans (hid hc'))

end Rows

/-! ## The unspent notes -/

section Unspent

variable {derive : DeriveNoteFn} {s : Storage} {address pool : String}

/-- When nothing is left to scan, every commitment is behind the mark of every account. -/
theorem behind_mark (hsettled : Settled s) {account : AccountKeys}
    (haccount : account ∈ getAccountsWithLatestKeypairs s) {p : Nat} {row : PoolCommitmentRow}
    (hrow : row ∈ s.poolRows p) : row.commitmentId ≤ s.scanMark p account.accountId := by
  refine Nat.le_of_not_lt fun hlt => ?_
  have hleft := mem_unscanned.mpr ⟨hrow, hlt⟩
  rw [hsettled.scanned p account haccount] at hleft
  cases hleft

/-- When nothing is left to reconcile, a note without a nullifier is not spent. -/
theorem not_spent (hsettled : Settled s) (hs : SpentOk s) {note : UserNote}
    (hnote : note ∈ Table.columns s.userNotes) (hnone : note.nullifierId = none) {p : Nat}
    (hpool : s.InPool p note) : ¬ s.HasNullifier p note.expectedNullifier := by
  intro h
  obtain ⟨n, hn, hcontract, hvalue⟩ := h
  have hpast := hs.notes.unspent note hnote hnone p hpool n hn hcontract hvalue
  have hleft : (n.rowid, n.columns.nullifier) ∈ s.nullifiersAfter p (s.nullifierMark p) :=
    mem_nullifiersAfter.mpr ⟨n, hn, hcontract, Nat.lt_of_not_le hpast, rfl⟩
  rw [hsettled.matched p] at hleft
  cases hleft

/-- The account row of an address and any key row of it. -/
theorem accountKeys?_of_key (haccounts : (Table.columns s.accounts).Nodup) (hkeys : OneKey s)
    {a : Table.Row String} (ha : a ∈ s.accounts) (haddress : a.columns = address)
    {k : KeypairColumns} (hk : k ∈ Table.columns s.keypairs) (hid : k.accountId = a.rowid) :
    accountKeys? s address = some k.toAccountKeys ∧
      k.toAccountKeys ∈ getAccountsWithLatestKeypairs s := by
  have hlatest : s.latestKeypair? a.rowid = some k := by
    obtain ⟨r, hr, rfl⟩ := List.mem_map.mp hk
    have hne : s.keypairs.filter (fun k => k.columns.accountId = a.rowid) ≠ [] :=
      List.ne_nil_of_mem (List.mem_filter.mpr ⟨hr, decide_eq_true hid⟩)
    obtain ⟨last, hlast⟩ := Table.exists_latest hne
    have hsome : s.latestKeypair? a.rowid = some last.columns := by
      unfold Storage.latestKeypair?
      rw [hlast]
      rfl
    obtain ⟨hmem, haccount⟩ := latestKeypair?_some hsome
    rw [hsome, hkeys _ hmem _ hk (haccount.trans hid.symm)]
  have hfind : s.accounts.find? (fun a => a.columns = address) = some a := by
    have hfound : (s.accounts.find? fun a => a.columns = address).isSome :=
      List.find?_isSome.mpr ⟨a, ha, decide_eq_true haddress⟩
    obtain ⟨a', ha'⟩ := Option.isSome_iff_exists.mp hfound
    have hsame : a'.columns = address := by simpa using List.find?_some ha'
    rw [ha', eq_of_columns haccounts (List.mem_of_find?_eq_some ha') ha
      (hsame.trans haddress.symm)]
  refine ⟨?_, mem_accounts.mpr ⟨a, ha, by rw [hlatest]; rfl⟩⟩
  unfold accountKeys?
  rw [hfind]
  simp [hlatest]

/-- The account that is found for an address, and its key row. -/
theorem accountKeys?_some {account : AccountKeys} (h : accountKeys? s address = some account) :
    ∃ a ∈ s.accounts, a.columns = address ∧ ∃ k ∈ Table.columns s.keypairs,
      k.accountId = a.rowid ∧ account = k.toAccountKeys := by
  unfold accountKeys? at h
  obtain ⟨a, ha, h⟩ := Option.bind_eq_some_iff.mp h
  obtain ⟨k, hk, rfl⟩ := Option.map_eq_some_iff.mp h
  obtain ⟨hmem, haccount⟩ := latestKeypair?_some hk
  exact ⟨a, List.mem_of_find?_eq_some ha, by simpa using List.find?_some ha, k, hmem, haccount,
    rfl⟩

/-- The pool of a stored event, by number and by address. -/
theorem eventContract?_iff (hcontracts : (Table.columns s.contracts).Nodup) {id id' : String}
    {p : Nat} (h : s.eventContract? id = some p) (haddress : s.eventAddress? id = some pool) :
    s.eventContract? id' = some p ↔ s.eventAddress? id' = some pool := by
  obtain ⟨q, hq, hqaddress⟩ := eventAddress?_some haddress
  obtain rfl : q = p := Option.some.inj (hq.symm.trans h)
  constructor
  · intro h'
    obtain ⟨raw, hraw, hraw'⟩ := Option.map_eq_some_iff.mp h'
    rw [← hraw'] at hqaddress
    unfold Storage.eventAddress?
    rw [hraw]
    exact hqaddress
  · intro h'
    obtain ⟨q', hq', haddress'⟩ := eventAddress?_some h'
    rw [hq', contractAddress?_inj hcontracts haddress' hqaddress]

/-- A database in which everything is scanned and reconciled. -/
structure Accounted (derive : DeriveNoteFn) (s : Storage) : Prop where
  complete : NotesComplete derive s
  spent : SpentOk s
  sourced : Sourced derive s
  keys : OneKey s
  owner : OneOwner derive s
  settled : Settled s

/-- An unspent note is what its address has of its commitment, under the text of its amount. -/
theorem unspentAmount?_of_row (hs : Accounted derive s) {row : NoteRow}
    (hrow : row ∈ s.unspentRows address) :
    ∃ account amount, accountKeys? s address = some account ∧
      unspentAmount? derive s account row.poolAddress row.commitment = some amount ∧
      parseU128 row.note.amount = some amount := by
  obtain ⟨hmem, hnone⟩ := List.mem_filter.mp hrow
  obtain ⟨hnote, ⟨a, ha, haid, haddress⟩, hc, hid, hpool⟩ := mem_noteRows hmem
  obtain ⟨k, hk, hkid, c, hc', hcid, derived, hderive, hexpected, -, hamount⟩ :=
    hs.sourced.notes _ hnote
  obtain rfl : c = row.commitment :=
    eq_of_rowid hs.spent.commitments.ordered hc' hc (hcid.trans hid.symm)
  obtain ⟨haccount, -⟩ := accountKeys?_of_key hs.sourced.accounts hs.keys ha haddress hk
    (hkid.trans haid.symm)
  obtain ⟨p, hp, -⟩ := eventAddress?_some hpool
  have hunspent := not_spent hs.settled hs.spent hnote (of_decide_eq_true hnone) ⟨_, hc, hid, hp⟩
  refine ⟨_, derived.amount, haccount, ?_, by rw [hamount, parseU128_toString]⟩
  unfold unspentAmount?
  rw [hderive]
  refine if_neg fun hany => hunspent ?_
  obtain ⟨n, hn, hspends⟩ := List.any_eq_true.mp hany
  obtain ⟨hvalue, hnpool⟩ := of_decide_eq_true hspends
  refine ⟨n, hn, (eventContract?_iff hs.sourced.contracts hp hpool).mpr hnpool, ?_⟩
  rw [hvalue, hexpected]

/-- What an address has of a commitment is an unspent note. -/
theorem row_of_unspentAmount? (hs : Accounted derive s) {account : AccountKeys}
    (haccount : accountKeys? s address = some account) {c : Table.Row NewCommitmentEvent}
    (hc : c ∈ s.poolCommitments) (hpool : s.eventAddress? c.columns.id = some pool)
    {amount : NoteAmount} (h : unspentAmount? derive s account pool c = some amount) :
    ∃ row ∈ s.unspentRows address, row.commitment = c ∧ row.poolAddress = pool := by
  obtain ⟨a, ha, haddress, k, hk, hkid, rfl⟩ := accountKeys?_some haccount
  obtain ⟨-, hscans⟩ := accountKeys?_of_key hs.sourced.accounts hs.keys ha haddress hk hkid
  obtain ⟨p, hp, -⟩ := eventAddress?_some hpool
  have hcontract := @eventContract?_iff s pool hs.sourced.contracts c.columns.id
  -- the commitment is a note of the account, and no nullifier spends it
  obtain ⟨derived, hderive, hfree⟩ : ∃ derived,
      derive k.toAccountKeys (commitmentRow c) = .ok (some derived) ∧
        ¬ s.HasNullifier p derived.expectedNullifier := by
    unfold unspentAmount? at h
    split at h
    · rename_i derived hderive
      refine ⟨derived, hderive, fun hknown => ?_⟩
      obtain ⟨n, hn, hnpool, hvalue⟩ := hknown
      rw [if_pos (List.any_eq_true.mpr ⟨n, hn, decide_eq_true
        ⟨hvalue, (hcontract hp hpool).mp hnpool⟩⟩)] at h
      cases h
    · cases h
  have hrow : commitmentRow c ∈ s.poolRows p := mem_poolRows.mpr ⟨c, hc, hp, rfl⟩
  have hplace := (hs.complete.found hs.keys p k hk _ hrow
    (behind_mark hs.settled hscans hrow) derived hderive).resolve_right hfree
  obtain ⟨place, hplace, hplaceId⟩ := List.mem_map.mp hplace
  obtain ⟨note, hnote, rfl⟩ := List.mem_map.mp hplace
  have hid : c.rowid = note.commitmentId := hplaceId.symm
  -- the note was derived for this account, with these keys
  obtain ⟨k', hk', hk'id, c', hc', hc'id, derived', hderive', hexpected, -, -⟩ :=
    hs.sourced.notes note hnote
  obtain rfl : c' = c := eq_of_rowid hs.spent.commitments.ordered hc' hc (hc'id.trans hid.symm)
  have hsameAccount := hs.owner k' hk' k hk c' hc derived' derived hderive' hderive
  obtain rfl : k' = k := hs.keys k' hk' k hk hsameAccount
  obtain rfl : derived' = derived := by
    rw [hderive] at hderive'
    exact (Option.some.inj (Except.ok.inj hderive')).symm
  have hnone : note.nullifierId = none := by
    by_contra hsome
    obtain ⟨id, hsome⟩ := Option.ne_none_iff_exists'.mp hsome
    obtain ⟨n, hn, -, hvalue, q, hq, hnpool⟩ := hs.spent.notes.spent note hnote id hsome
    obtain rfl := hq.unique hs.spent.commitments.ordered ⟨c', hc, hid, hp⟩
    exact hfree ⟨n, hn, hnpool, hvalue.trans hexpected⟩
  obtain ⟨ledger, hmem⟩ := @exists_noteRow s address pool note c' hnote
    ⟨a, ha, hkid.symm.trans hk'id, haddress⟩ hc hid hpool
  exact ⟨_, List.mem_filter.mpr ⟨hmem, decide_eq_true hnone⟩, rfl, rfl⟩

/-- The unspent rows of a pool are what the address has in it. -/
theorem unspentRows_perm (hs : Accounted derive s) (pool : String) (amountOf : NoteRow → NoteAmount)
    (hamount : ∀ row ∈ s.unspentRows address, parseU128 row.note.amount = some (amountOf row)) :
    (((s.unspentRows address).filter fun r => r.poolAddress = pool).map amountOf).Perm
      (holdings derive s pool address) := by
  have hrows : ∀ row ∈ s.unspentRows address, ∃ account, accountKeys? s address = some account ∧
      unspentAmount? derive s account row.poolAddress row.commitment = some (amountOf row) := by
    intro row hrow
    obtain ⟨account, amount, haccount, hvalue, hparse⟩ :=
      unspentAmount?_of_row hs hrow
    obtain rfl := Option.some.inj ((hamount row hrow).symm.trans hparse)
    exact ⟨account, haccount, hvalue⟩
  unfold holdings
  cases haccount : accountKeys? s address with
  | none =>
      have hempty : s.unspentRows address = [] := by
        refine List.eq_nil_iff_forall_not_mem.mpr fun row hrow => ?_
        obtain ⟨account, hsome, -⟩ := hrows row hrow
        rw [haccount] at hsome
        cases hsome
      rw [hempty]
      exact .refl _
  | some account =>
      dsimp only
      have hvalue : ∀ row ∈ (s.unspentRows address).filter fun r => r.poolAddress = pool,
          unspentAmount? derive s account pool row.commitment = some (amountOf row) := by
        intro row hrow
        obtain ⟨hmem, hpool⟩ := List.mem_filter.mp hrow
        obtain ⟨account', haccount', hvalue⟩ := hrows row hmem
        obtain rfl := Option.some.inj (haccount.symm.trans haccount')
        exact of_decide_eq_true hpool ▸ hvalue
      -- the commitments of the rows are those that count
      have hperm : (((s.unspentRows address).filter fun r => r.poolAddress = pool).map
          NoteRow.commitment).Perm
          ((s.poolCommitments.filter fun c => s.eventAddress? c.columns.id = some pool).filter
            fun c => (unspentAmount? derive s account pool c).isSome) := by
        have hnodup := noteRows_nodup hs.spent.commitments.ordered hs.complete.distinct address
        have hrowsNodup : s.poolCommitments.Nodup := .of_map Table.Row.rowid
          (hs.spent.commitments.ordered.map Table.Row.rowid fun _ _ hlt => Nat.ne_of_lt hlt)
        refine (List.perm_ext_iff_of_nodup (hnodup.sublist ((List.filter_sublist.trans
          List.filter_sublist).map _)) ((hrowsNodup.filter _).filter _)).mpr fun c => ?_
        constructor
        · intro hc
          obtain ⟨row, hrow, rfl⟩ := List.mem_map.mp hc
          obtain ⟨hunspent, hpool⟩ := List.mem_filter.mp hrow
          obtain ⟨-, -, hmem, -, haddress⟩ := mem_noteRows (List.mem_filter.mp hunspent).1
          rw [of_decide_eq_true hpool] at haddress
          refine List.mem_filter.mpr ⟨List.mem_filter.mpr ⟨hmem, decide_eq_true haddress⟩, ?_⟩
          rw [hvalue row hrow]
          rfl
        · intro hc
          obtain ⟨hin, hsome⟩ := List.mem_filter.mp hc
          obtain ⟨hmem, hpool⟩ := List.mem_filter.mp hin
          obtain ⟨amount, hsome⟩ := Option.isSome_iff_exists.mp hsome
          obtain ⟨row, hrow, rfl, hrowPool⟩ := row_of_unspentAmount? hs haccount hmem
            (of_decide_eq_true hpool) hsome
          exact List.mem_map_of_mem (List.mem_filter.mpr ⟨hrow, decide_eq_true hrowPool⟩)
      have hmapped : (((s.unspentRows address).filter fun r => r.poolAddress = pool).map
          NoteRow.commitment).filterMap (unspentAmount? derive s account pool) =
          ((s.unspentRows address).filter fun r => r.poolAddress = pool).map amountOf := by
        have hamounts : ((s.unspentRows address).filter fun r => r.poolAddress = pool).filterMap
            (unspentAmount? derive s account pool ∘ NoteRow.commitment) =
            ((s.unspentRows address).filter fun r => r.poolAddress = pool).filterMap
              fun row => some (amountOf row) := List.filterMap_congr hvalue
        rw [List.filterMap_map, hamounts, List.filterMap_eq_map']
      rw [← hmapped]
      refine (hperm.filterMap _).trans (.of_eq ?_)
      rw [List.filterMap_filter]
      refine List.filterMap_congr fun c _ => ?_
      cases unspentAmount? derive s account pool c <;> rfl

end Unspent

/-! ## Sums -/

section Sums

variable {amountOf : NoteRow → NoteAmount}

theorem total_perm {xs ys : List NoteAmount} (h : xs.Perm ys) : total xs = total ys :=
  (h.map Fin.val).sum_eq

theorem saturatingAdd_one (n : UInt32) :
    (saturatingAdd n 1).toNat = min (n.toNat + 1) (UInt32.size - 1) := by
  have hlt := n.toNat_lt_size
  unfold saturatingAdd State.checkedAdd
  split
  · next h =>
      rw [show (1 : UInt32).toNat = 1 from rfl] at h
      rw [Option.getD_some, UInt32.toNat_add, show (1 : UInt32).toNat = 1 from rfl,
        Nat.mod_eq_of_lt (by simpa using h)]
      omega
  · next h =>
      rw [show (1 : UInt32).toNat = 1 from rfl] at h
      rw [Option.getD_none, show (0xFFFFFFFF : UInt32).toNat = UInt32.size - 1 from rfl]
      omega

theorem min_min_add_one (a b m : Nat) : min (min (a + 1) m + b) m = min (a + (b + 1)) m := by
  omega

/-- The amounts of the rows of a pool. -/
def amountsIn (amountOf : NoteRow → NoteAmount) (rows : List NoteRow) (pool : String) :
    List NoteAmount :=
  (rows.filter fun r => r.poolAddress = pool).map amountOf

theorem amountsIn_cons (row : NoteRow) (rows : List NoteRow) (pool : String) :
    amountsIn amountOf (row :: rows) pool =
      if row.poolAddress = pool then amountOf row :: amountsIn amountOf rows pool
      else amountsIn amountOf rows pool := by
  unfold amountsIn
  by_cases h : row.poolAddress = pool <;> simp [h]

theorem entry_update (aggregated : Aggregated) (pool pool' : String)
    (entry : UInt32 × NoteAmount) :
    State.Aggregated.entry (Function.update aggregated pool (some entry)) pool' =
      if pool = pool' then entry else aggregated.entry pool' := by
  unfold State.Aggregated.entry
  by_cases h : pool = pool'
  · rw [if_pos h, h, Function.update_self, Option.getD_some]
  · rw [if_neg h, Function.update_of_ne (Ne.symm h)]

theorem entry_remove (aggregated : Aggregated) (pool pool' : String) :
    State.Aggregated.entry (Function.update aggregated pool none) pool' =
      if pool = pool' then (0, 0) else aggregated.entry pool' := by
  unfold State.Aggregated.entry
  by_cases h : pool = pool'
  · rw [if_pos h, h, Function.update_self, Option.getD_none]
  · rw [if_neg h, Function.update_of_ne (Ne.symm h)]

/-- What the loop over the rows returns. -/
def Aggregates (amountOf : NoteRow → NoteAmount) (rows : List NoteRow) (aggregated : Aggregated) :
    Except String Aggregated → Prop
  | .ok aggregated' => ∀ pool,
      (aggregated'.entry pool).2.val =
        (aggregated.entry pool).2.val + total (amountsIn amountOf rows pool) ∧
      (aggregated'.entry pool).1.toNat =
        min ((aggregated.entry pool).1.toNat + (amountsIn amountOf rows pool).length)
          (UInt32.size - 1)
  | .error e => e = "overflow computing total balance" ∧ ∃ pool,
      u128Size ≤ (aggregated.entry pool).2.val + total (amountsIn amountOf rows pool)

/-- One row more. -/
theorem Aggregates.cons {row : NoteRow} {rows : List NoteRow} {aggregated : Aggregated}
    {result : Except String Aggregated}
    (hlt : (aggregated.entry row.poolAddress).2.val + (amountOf row).val < u128Size)
    (h : Aggregates amountOf rows (Function.update aggregated row.poolAddress
      (some (saturatingAdd (aggregated.entry row.poolAddress).1 1, ⟨_, hlt⟩))) result) :
    Aggregates amountOf (row :: rows) aggregated result := by
  cases result with
  | error e =>
      obtain ⟨rfl, pool, hoverflow⟩ := h
      refine ⟨rfl, pool, ?_⟩
      rw [entry_update] at hoverflow
      rw [amountsIn_cons]
      by_cases hpool : row.poolAddress = pool
      · subst hpool
        simp only [if_pos, total, List.map_cons, List.sum_cons] at hoverflow ⊢
        rw [Nat.add_assoc] at hoverflow
        exact hoverflow
      · rw [if_neg hpool] at hoverflow ⊢
        exact hoverflow
  | ok aggregated' =>
      intro pool
      obtain ⟨hsum, hcount⟩ := h pool
      rw [entry_update] at hsum hcount
      rw [amountsIn_cons]
      by_cases hpool : row.poolAddress = pool
      · subst hpool
        simp only [if_pos, saturatingAdd_one, total, List.map_cons, List.sum_cons,
          List.length_cons] at hsum hcount ⊢
        rw [Nat.add_assoc] at hsum
        exact ⟨hsum, hcount.trans (min_min_add_one _ _ _)⟩
      · rw [if_neg hpool] at hsum hcount ⊢
        exact ⟨hsum, hcount⟩

/-- The entries grow by the rows of their pool, and only an overflow stops the loop. -/
theorem aggregate_outcome (rows : List NoteRow) (aggregated : Aggregated)
    (hamount : ∀ row ∈ rows, row.amountAt 1 = .ok (amountOf row)) :
    Aggregates amountOf rows aggregated (aggregate rows aggregated) := by
  induction rows generalizing aggregated with
  | nil =>
      intro pool
      have hlt := (aggregated.entry pool).1.toNat_lt_size
      simp only [amountsIn, total, List.filter_nil, List.map_nil, List.sum_nil, List.length_nil,
        Nat.add_zero, true_and]
      omega
  | cons row rows ih =>
      unfold aggregate
      rw [hamount row List.mem_cons_self, Prover.ok_bind]
      dsimp only
      by_cases hlt : (aggregated.entry row.poolAddress).2.val + (amountOf row).val < u128Size
      · have hsum : Prover.checkedAdd (aggregated.entry row.poolAddress).2 (amountOf row) =
            some ⟨_, hlt⟩ := dif_pos hlt
        rw [hsum]
        exact .cons hlt (ih _ fun r hr => hamount r (List.mem_cons_of_mem row hr))
      · have hnone : Prover.checkedAdd (aggregated.entry row.poolAddress).2 (amountOf row) =
            none := dif_neg hlt
        rw [hnone]
        refine ⟨rfl, row.poolAddress, ?_⟩
        rw [amountsIn_cons, if_pos rfl]
        simp only [total, List.map_cons, List.sum_cons]
        omega

/-- A balance shows the amounts of its pool; a pool that is listed again shows nothing. -/
structure Shows (amounts : String → List NoteAmount) (before : List PoolTokenEntry)
    (pool : PoolTokenEntry) (balance : PortfolioBalance) : Prop where
  poolContractId : balance.poolContractId = pool.poolContractId
  tokenContractId : balance.tokenContractId = pool.tokenContractId
  label : balance.tokenLabel = tokenLabel pool
  amount : balance.amount.val =
    if ∃ p ∈ before, p.poolContractId = pool.poolContractId then 0
    else total (amounts pool.poolContractId)
  count : balance.noteCount.toNat =
    if ∃ p ∈ before, p.poolContractId = pool.poolContractId then 0
    else min (amounts pool.poolContractId).length (UInt32.size - 1)

/-- The balances, one for each pool. -/
theorem balancesOf_shows {amounts : String → List NoteAmount} {aggregated : Aggregated}
    (before pools : List PoolTokenEntry)
    (hentry : ∀ pool, (aggregated.entry pool).2.val =
        (if ∃ p ∈ before, p.poolContractId = pool then 0 else total (amounts pool)) ∧
      (aggregated.entry pool).1.toNat =
        if ∃ p ∈ before, p.poolContractId = pool then 0
        else min (amounts pool).length (UInt32.size - 1)) :
    (balancesOf pools aggregated).length = pools.length ∧
      ∀ i pool, pools[i]? = some pool → ∃ balance, (balancesOf pools aggregated)[i]? = some balance ∧
        Shows amounts (before ++ pools.take i) pool balance := by
  induction pools generalizing before aggregated with
  | nil => exact ⟨rfl, fun i pool h => by cases h⟩
  | cons pool pools ih =>
      obtain ⟨hlength, hrest⟩ := @ih (Function.update aggregated pool.poolContractId none)
        (before ++ [pool]) (by
          intro pool'
          obtain ⟨hsum, hcount⟩ := hentry pool'
          rw [entry_remove]
          by_cases hpool : pool.poolContractId = pool'
          · have hseen : ∃ p ∈ before ++ [pool], p.poolContractId = pool' :=
              ⟨pool, List.mem_append_right _ List.mem_cons_self, hpool⟩
            rw [if_pos hpool, if_pos hseen, if_pos hseen]
            exact ⟨rfl, rfl⟩
          · have hseen : (∃ p ∈ before ++ [pool], p.poolContractId = pool') ↔
                ∃ p ∈ before, p.poolContractId = pool' := by
              simp [or_and_right, exists_or, hpool]
            simp only [if_neg hpool, hseen]
            exact ⟨hsum, hcount⟩)
      refine ⟨congrArg Nat.succ hlength, fun i p hp => ?_⟩
      cases i with
      | zero =>
          obtain rfl := Option.some.inj hp
          obtain ⟨hsum, hcount⟩ := hentry pool.poolContractId
          refine ⟨_, rfl, rfl, rfl, rfl, ?_, ?_⟩
          · rw [List.take_zero, List.append_nil]
            exact hsum
          · rw [List.take_zero, List.append_nil]
            exact hcount
      | succ i =>
          obtain ⟨balance, hget, hshows⟩ := hrest i p hp
          refine ⟨balance, hget, ?_⟩
          rw [List.append_assoc] at hshows
          exact hshows

end Sums

/-! ## The answers -/

section Answers

variable {derive : DeriveNoteFn} {s : Storage} {address : String}

/-- The amount of a row, read from its text. -/
def rowAmount (row : NoteRow) : NoteAmount := (parseU128 row.note.amount).getD 0

/-- The row as it is returned, with its amount. -/
def rowSummary (row : NoteRow) : UserNoteSummary where
  id := row.note.id
  poolContractId := row.poolAddress
  amount := rowAmount row
  leafIndex := row.commitment.columns.index
  createdAtLedger := row.ledger
  spent := row.note.nullifierId.isSome

/-- The amounts of the notes of an address are numbers. -/
theorem parse_amount (hs : Accounted derive s) {row : NoteRow}
    (hrow : row ∈ s.unspentRows address) : parseU128 row.note.amount = some (rowAmount row) := by
  obtain ⟨-, amount, -, -, hparse⟩ := unspentAmount?_of_row hs hrow
  rw [rowAmount, hparse, Option.getD_some]

theorem amountAt_ok (hs : Accounted derive s) {row : NoteRow} (hrow : row ∈ s.unspentRows address)
    (index : Nat) : row.amountAt index = .ok (rowAmount row) := by
  rw [NoteRow.amountAt, parse_amount hs hrow]

theorem mapM_summary : ∀ {rows : List NoteRow},
    (∀ row ∈ rows, row.amountAt 2 = .ok (rowAmount row)) →
      rows.mapM NoteRow.summary = .ok (rows.map rowSummary)
  | [], _ => rfl
  | row :: rows, h => by
      have hrow : row.summary = .ok (rowSummary row) := by
        rw [NoteRow.summary, h row List.mem_cons_self]
        rfl
      rw [List.mapM_cons, hrow, mapM_summary fun r hr => h r (List.mem_cons_of_mem row hr)]
      rfl

/-- The unspent notes that are listed are those that the chain's events leave to the address. -/
theorem listUnspentUserNotes_holdings (hs : Accounted derive s) (pool : String) :
    ∃ notes, listUnspentUserNotes s pool address = .ok notes ∧
      (notes.map UserNoteSummary.amount).Perm (holdings derive s pool address) ∧
      notes.Pairwise (fun n n' => n'.createdAtLedger ≤ n.createdAtLedger) ∧
      ∀ n ∈ notes, n.poolContractId = pool ∧ n.spent = false := by
  have hperm : (newestFirst ((s.unspentRows address).filter fun r => r.poolAddress = pool)).Perm
      ((s.unspentRows address).filter fun r => r.poolAddress = pool) := Table.orderBy_perm
  refine ⟨_, mapM_summary fun row hrow => ?_, ?_, ?_, fun n hn => ?_⟩
  · exact amountAt_ok hs (List.mem_of_mem_filter (hperm.subset hrow)) 2
  · rw [List.map_map]
    exact (hperm.map rowAmount).trans (unspentRows_perm hs pool rowAmount fun row hrow =>
      parse_amount hs hrow)
  · have hsorted : (newestFirst ((s.unspentRows address).filter fun r =>
        r.poolAddress = pool)).Pairwise fun r r' =>
          OrderDual.toDual r.ledger.toNat ≤ OrderDual.toDual r'.ledger.toNat :=
      Table.orderBy_pairwise
    exact List.pairwise_map.mpr (hsorted.imp fun hle => hle)
  · obtain ⟨row, hrow, rfl⟩ := List.mem_map.mp hn
    obtain ⟨hmem, hpool⟩ := List.mem_filter.mp (hperm.subset hrow)
    have hnone := of_decide_eq_true (List.mem_filter.mp hmem).2
    refine ⟨of_decide_eq_true hpool, ?_⟩
    show row.note.nullifierId.isSome = false
    rw [hnone]
    rfl

/-- The balances are the sums of what the address has in each pool. -/
theorem listPortfolioBalances_holdings (hs : Accounted derive s) (pools : List PoolTokenEntry) :
    ((∀ pool, total (holdings derive s pool address) < u128Size) →
      ∃ balances, listPortfolioBalances s address pools = .ok balances ∧
        balances.length = (pools.filter fun pool => pool.enabled).length ∧
        ∀ i pool, (pools.filter fun pool => pool.enabled)[i]? = some pool →
          ∃ balance, balances[i]? = some balance ∧
            Shows (fun pool => holdings derive s pool address)
              ((pools.filter fun pool => pool.enabled).take i) pool balance) ∧
    ((∃ pool, u128Size ≤ total (holdings derive s pool address)) →
      listPortfolioBalances s address pools = .error "overflow computing total balance") := by
  have hperm : (Table.orderBy NoteRow.poolAddress (s.unspentRows address)).Perm
      (s.unspentRows address) := Table.orderBy_perm
  have hholdings : ∀ pool, (amountsIn rowAmount
      (Table.orderBy NoteRow.poolAddress (s.unspentRows address)) pool).Perm
      (holdings derive s pool address) := fun pool =>
    ((hperm.filter _).map rowAmount).trans (unspentRows_perm hs pool rowAmount fun row hrow =>
      parse_amount hs hrow)
  have houtcome := aggregate_outcome (Table.orderBy NoteRow.poolAddress (s.unspentRows address))
    (fun _ => none) fun row hrow => amountAt_ok hs (hperm.subset hrow) 1
  unfold listPortfolioBalances
  dsimp only
  cases haggregate : aggregate (Table.orderBy NoteRow.poolAddress (s.unspentRows address))
      fun _ => none with
  | error e =>
      rw [haggregate] at houtcome
      obtain ⟨rfl, pool, hoverflow⟩ := houtcome
      rw [total_perm (hholdings pool)] at hoverflow
      refine ⟨fun hfits => ?_, fun _ => rfl⟩
      exact absurd (hfits pool) (Nat.not_lt.mpr (by simpa [Aggregated.entry] using hoverflow))
  | ok aggregated =>
      rw [haggregate] at houtcome
      have hentry : ∀ pool, (aggregated.entry pool).2.val = total (holdings derive s pool address) ∧
          (aggregated.entry pool).1.toNat =
            min (holdings derive s pool address).length (UInt32.size - 1) := by
        intro pool
        obtain ⟨hsum, hcount⟩ := houtcome pool
        rw [total_perm (hholdings pool)] at hsum
        rw [(hholdings pool).length_eq] at hcount
        exact ⟨by simpa [Aggregated.entry] using hsum, by simpa [Aggregated.entry] using hcount⟩
      refine ⟨fun _ => ?_, fun ⟨pool, hoverflow⟩ => ?_⟩
      · obtain ⟨hlength, hshows⟩ := @balancesOf_shows (fun pool => holdings derive s pool address)
          aggregated [] (pools.filter fun pool => pool.enabled) fun pool => by
            simpa using hentry pool
        exact ⟨_, rfl, hlength, hshows⟩
      · rw [← (hentry pool).1] at hoverflow
        exact absurd (aggregated.entry pool).2.isLt (Nat.not_lt.mpr hoverflow)

end Answers

/-! ## Runs -/

/-- The pool of the run below. -/
def oneNotePool : PoolTokenEntry where
  poolContractId := "pool"
  deploymentLedger := 1
  enabled := true
  tokenContractId := "token"
  asset := .native

/-- Events arrive before the keys that read them, and while the processor works. -/
def oneNoteSteps : List WorkerStep := [
  .init, .request (.saveEvents (oneNoteChain.take 1)), .wake, .round,
  .request (.deriveSaveUserKeys "user" oneNoteKeys.noteKeypair oneNoteKeys.encryptionKeypair 0),
  .round, .request (.saveEvents oneNoteChain), .round, .round, .wake, .round, .wake, .round]

/-- The worker after these steps: it is idle, and the user has the only key and the only note. -/
theorem oneNoteSteps_run :
    isIdle (workerRun oneNoteXdr tagBox oneNoteSteps) = true ∧
    (Table.columns (workerRun oneNoteXdr tagBox oneNoteSteps).storage.keypairs).length = 1 ∧
    holdings (deriveUserNote tagBox) (workerRun oneNoteXdr tagBox oneNoteSteps).storage "pool"
      "user" = [5] ∧
    ∀ c ∈ (workerRun oneNoteXdr tagBox oneNoteSteps).storage.poolCommitments,
      (workerRun oneNoteXdr tagBox oneNoteSteps).storage.eventAddress? c.columns.id =
        some "pool" := by
  decide +kernel

end PrivatePayments.Web
