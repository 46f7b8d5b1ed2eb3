import PrivatePayments.Contracts.PoolSound
import PrivatePayments.Stellar.NonMembershipUsable
import PrivatePayments.Stellar.Snapshot

/-!
# PrivatePayments.Stellar.SnapshotSound

A snapshot is one state of each pool.

The pools move on by calls between any two reads. The index of the current root counts the
insertions modulo the size of the history, so with fewer insertions than that between the two
reads of an attempt, an index that is the same means that nothing was inserted
(`same_insertions`). Then the root that the second read finds under the index of the first is
the current root of the state that the first read saw (`contractsData_consistent`).
-/

namespace PrivatePayments.Stellar

open MerkleWithHistory (rootHistorySize treeRoot isKnownRoot)
open Pool (PoolStorage Host Call Reflects AdmittedRun outputs run)
open Prover (exists_of_bind_ok)

/-! ## The ledger -/

/-- The entries of a pool. -/
def poolEntry (address : Pool.Address → ScAddress) (s : PoolStorage) : DataKey → Option ScVal
  | ⟨"Admin", none⟩ => s.admin.map fun a => .address (address a)
  | ⟨"Token", none⟩ => s.token.map fun a => .address (address a)
  | ⟨"Verifier", none⟩ => s.verifier.map fun a => .address (address a)
  | ⟨"ASPMembership", none⟩ => s.aspMembership.map fun a => .address (address a)
  | ⟨"ASPNonMembership", none⟩ => s.aspNonMembership.map fun a => .address (address a)
  | ⟨"Levels", none⟩ => s.tree.levels.map fun n => .u32 (UInt32.ofNat n)
  | ⟨"CurrentRootIndex", none⟩ => s.tree.currentRootIndex.map fun n => .u32 (UInt32.ofNat n)
  | ⟨"NextIndex", none⟩ => s.tree.nextIndex.map fun n => .u64 (UInt64.ofNat n)
  | ⟨"Root", some i⟩ => (s.tree.root i.toNat).map fun v => .u256 v.toParts
  | _ => none

/-- A state of the ledger: the pools, and the entries of the other contracts. -/
structure World where
  latestLedger : UInt32
  pools : String → Option PoolStorage
  others : String → DataKey → Option ScVal

/-- What happens on the ledger: a call of a pool, or something that is no pool's. -/
inductive WorldStep
  | call (pool : String) (call : Call)
  | elsewhere (latestLedger : UInt32) (others : String → DataKey → Option ScVal)

/-- The calls of one pool. -/
def callsOf (pool : String) (steps : List WorldStep) : List Call :=
  steps.filterMap fun
    | .call id call => if id = pool then some call else none
    | .elsewhere _ _ => none

namespace World

/-- What a read of the node sees. -/
def view (address : Pool.Address → ScAddress) (w : World) : LedgerView where
  latestLedger := w.latestLedger
  entry id key :=
    match w.pools id with
    | some s => poolEntry address s key
    | none => w.others id key

/-- One step. -/
def step (host : Host) (w : World) : WorldStep → World
  | .call pool call =>
      { w with
        pools := Function.update w.pools pool
          ((w.pools pool).map fun s => (Contract.invoke (call.function host) s).2) }
  | .elsewhere latestLedger others => { w with latestLedger, others }

/-- Some steps. -/
def after (host : Host) (w : World) (steps : List WorldStep) : World :=
  steps.foldl (World.step host) w

/-- Every pool is as its constructor left it. -/
def Deployed (w : World) : Prop :=
  ∀ id s, w.pools id = some s → ∃ admin token verifier asp aspNon levels,
    (Pool.constructor admin token verifier asp aspNon levels).run {} = .ok () s

end World

/-! ## Runs of the ledger -/

section Runs

variable {host : Host} {w : World} {pool : String} {s s' : PoolStorage}

theorem run_snd_cons (s : PoolStorage) (call : Call) (calls : List Call) :
    (run host s (call :: calls)).2 =
      (run host (Contract.invoke (call.function host) s).2 calls).2 := by
  rw [Pool.run_cons, Contract.invoke]
  cases (call.function host).run s <;> rfl

/-- The steps of the ledger run the calls of each pool, in their order. -/
theorem World.after_pools (w : World) (steps : List WorldStep) (pool : String) :
    (w.after host steps).pools pool =
      (w.pools pool).map fun s => (run host s (callsOf pool steps)).2 := by
  induction steps generalizing w with
  | nil => cases h : w.pools pool <;> simp [World.after, callsOf, run, h]
  | cons step steps ih =>
      show ((w.step host step).after host steps).pools pool = _
      rw [ih]
      cases step with
      | elsewhere latestLedger others => rfl
      | call id call =>
          by_cases hid : id = pool
          · subst hid
            have hpools : (w.step host (.call id call)).pools id = (w.pools id).map fun s =>
                (Contract.invoke (call.function host) s).2 := Function.update_self _ _ _
            have hcalls : callsOf id (.call id call :: steps) = call :: callsOf id steps := by
              simp [callsOf]
            rw [hpools, hcalls, Option.map_map]
            congr 1
            funext s
            exact (run_snd_cons s call _).symm
          · have hpools : (w.step host (.call id call)).pools pool = w.pools pool :=
              Function.update_of_ne (Ne.symm hid) _ _
            have hcalls : callsOf pool (.call id call :: steps) = callsOf pool steps := by
              simp [callsOf, hid]
            rw [hpools, hcalls]

/-- A pool has accepted some transactions since its constructor. -/
def Lives (host : Host) (levels : Nat) (txs : List Pool.Transaction) (s : PoolStorage) : Prop :=
  ∃ verifier, Reflects levels verifier txs s ∧ AdmittedRun host levels verifier txs

theorem World.Deployed.lives (hw : w.Deployed) {steps : List WorldStep}
    (hs : (w.after host steps).pools pool = some s) : ∃ levels txs, Lives host levels txs s := by
  rw [World.after_pools] at hs
  obtain ⟨s₀, hs₀, rfl⟩ := Option.map_eq_some_iff.mp hs
  obtain ⟨admin, token, verifier, asp, aspNon, levels, hrun⟩ := hw pool s₀ hs₀
  exact ⟨levels, _, verifier, Pool.run_admitted host hrun _⟩

variable {levels : Nat} {txs : List Pool.Transaction}

/-- More calls accept more transactions. -/
theorem Lives.run (h : Lives host levels txs s) (calls : List Call) :
    Lives host levels (txs ++ (run host s calls).1) (run host s calls).2 := by
  obtain ⟨verifier, hreflects, hadmitted⟩ := h
  exact ⟨verifier, Pool.run_reflects calls hreflects hadmitted⟩

theorem Lives.tree (h : Lives host levels txs s) :
    MerkleWithHistory.Represents levels (outputs txs) s.tree := by
  obtain ⟨verifier, hreflects, -⟩ := h
  exact hreflects.tree

theorem Lives.currentRootIndex (h : Lives host levels txs s) :
    s.tree.currentRootIndex = some (txs.length % rootHistorySize) := by
  rw [h.tree.currentRootIndex_eq, Pool.outputs_length, Nat.mul_div_cancel_left _ (by decide)]

/-- With fewer insertions than the history holds, the same index means no insertion. -/
theorem same_insertions {n more : Nat} (hfew : more < rootHistorySize)
    (hsame : (n + more) % rootHistorySize = n % rootHistorySize) : more = 0 := by
  unfold rootHistorySize at *
  omega

/-- The root of the tree is stored under the current index, and it is known. -/
theorem Lives.root_known (h : Lives host levels txs s) (hnonzero : ∀ i, s.tree.root i ≠ some 0) :
    s.tree.root (txs.length % rootHistorySize) = some (treeRoot levels (outputs txs)).toU256 ∧
      (isKnownRoot (treeRoot levels (outputs txs)).toU256).run s.tree = .ok true s.tree := by
  have hcurrent := h.tree.root_current
  rw [Pool.outputs_length, Nat.mul_div_cancel_left _ (by decide)] at hcurrent
  obtain ⟨known, hrun, hiff⟩ :=
    MerkleWithHistory.isKnownRoot_of_represents h.tree (treeRoot levels (outputs txs)).toU256
  have hne : (treeRoot levels (outputs txs)).toU256 ≠ 0 := fun hzero =>
    hnonzero _ (hzero ▸ hcurrent)
  have hknown : known = true := hiff.mpr ⟨hne, (outputs txs).length / 2, le_rfl,
    by simp [rootHistorySize], by rw [MerkleWithHistory.prefixRoot_length h.tree.even]⟩
  exact ⟨hcurrent, hknown ▸ hrun⟩

end Runs

/-! ## Reads -/

section Reads

theorem mapM_cons_ok {α β ε : Type} {f : α → Except ε β} {a : α} {as : List α} {bs : List β}
    (h : (a :: as).mapM f = .ok bs) :
    ∃ b rest, f a = .ok b ∧ as.mapM f = .ok rest ∧ bs = b :: rest := by
  rw [List.mapM_cons] at h
  obtain ⟨b, hb, h⟩ := exists_of_bind_ok h
  obtain ⟨rest, hrest, h⟩ := exists_of_bind_ok h
  exact ⟨b, rest, hb, hrest, (Except.ok.inj h).symm⟩

theorem forall₂_of_mapM {α β ε : Type} {f : α → Except ε β} {as : List α} {bs : List β}
    (h : as.mapM f = .ok bs) : List.Forall₂ (fun a b => f a = .ok b) as bs := by
  induction as generalizing bs with
  | nil =>
      cases h
      exact .nil
  | cons a as ih =>
      obtain ⟨b, rest, hb, hrest, rfl⟩ := mapM_cons_ok h
      exact .cons hb (ih hrest)

theorem exists_of_mapM {α β ε : Type} {f : α → Except ε β} {as : List α} {bs : List β}
    (h : as.mapM f = .ok bs) {a : α} (ha : a ∈ as) : ∃ b ∈ bs, f a = .ok b := by
  induction as generalizing bs with
  | nil => cases ha
  | cons first as ih =>
      obtain ⟨b, rest, hb, hrest, rfl⟩ := mapM_cons_ok h
      rcases List.mem_cons.mp ha with rfl | ha
      · exact ⟨b, List.mem_cons_self, hb⟩
      · obtain ⟨b', hmem, hb'⟩ := ih hrest ha
        exact ⟨b', List.mem_cons_of_mem _ hmem, hb'⟩

theorem lookup_filterMap {keys : List DataKey} (hnodup : (keys.map DataKey.name).Nodup)
    (entry : DataKey → Option ScVal) {key : DataKey} (hkey : key ∈ keys) :
    (keys.filterMap fun key => (entry key).map fun val => (key.name, val)).lookup key.name =
      entry key := by
  induction keys with
  | nil => cases hkey
  | cons first keys ih =>
      rw [List.map_cons, List.nodup_cons] at hnodup
      obtain ⟨hfirst, hnodup⟩ := hnodup
      rcases List.mem_cons.mp hkey with rfl | hkey
      · cases hentry : entry key with
        | some val => simp [hentry]
        | none =>
            -- No other key has this name.
            rw [List.filterMap_cons, hentry, Option.map_none, List.lookup_eq_none_iff]
            intro pair hpair
            obtain ⟨other, hother, hmap⟩ := List.mem_filterMap.mp hpair
            obtain ⟨val, -, rfl⟩ := Option.map_eq_some_iff.mp hmap
            have hne : key.name ≠ other.name := fun hname =>
              hfirst (hname ▸ List.mem_map_of_mem hother)
            simpa using hne
      · have hne : key.name ≠ first.name := fun hname =>
          hfirst (hname ▸ List.mem_map_of_mem hkey)
        cases hentry : entry first with
        | some val => simpa [hentry, List.lookup_cons, beq_false_of_ne hne] using ih hnodup hkey
        | none => simpa [hentry] using ih hnodup hkey

variable {view : LedgerView} {request : ContractDataBulkRequest} {id : String}
  {state : ContractState}

theorem LedgerView.read_fst (h : view.read request = .ok (id, state)) :
    id = request.contractId := by
  rw [LedgerView.read] at h
  split at h
  · exact (congrArg Prod.fst (Except.ok.inj h)).symm
  · cases h

/-- A read has every entry that it was asked for. -/
theorem LedgerView.read_ok (h : view.read request = .ok (id, state))
    (hnodup : (request.keys.map DataKey.name).Nodup) :
    ∀ key ∈ request.keys,
      ∃ val, view.entry request.contractId key = some val ∧ state.lookup key.name = some val := by
  rw [LedgerView.read] at h
  by_cases hmissing : (request.keys.filter fun key =>
      (view.entry request.contractId key).isNone) = []
  · rw [if_pos hmissing] at h
    obtain ⟨rfl, rfl⟩ := Prod.mk.inj (Except.ok.inj h)
    intro key hkey
    have hsome := List.filter_eq_nil_iff.mp hmissing key hkey
    rw [Bool.not_eq_true, Option.isNone_eq_false_iff] at hsome
    obtain ⟨val, hval⟩ := Option.isSome_iff_exists.mp hsome
    exact ⟨val, hval, (lookup_filterMap hnodup _ hkey).trans hval⟩
  · rw [if_neg hmissing] at h
    cases h

/-- What a bulk read holds for an id is the read of the first request for it. -/
theorem lookup_of_mapM {requests : List ContractDataBulkRequest} {bulk : BulkState}
    (h : requests.mapM view.read = .ok bulk)
    (hrequest : (requests.find? fun request => request.contractId = id) = some request) :
    ∃ state, view.read request = .ok (id, state) ∧ bulk.lookup id = some state := by
  induction requests generalizing bulk with
  | nil => cases hrequest
  | cons first requests ih =>
      obtain ⟨⟨id', state⟩, rest, hread, hrest, rfl⟩ := mapM_cons_ok h
      obtain rfl := LedgerView.read_fst hread
      by_cases hfirst : first.contractId = id
      · subst hfirst
        simp only [List.find?_cons, decide_true, Option.some.injEq] at hrequest
        subst hrequest
        exact ⟨state, hread, by simp⟩
      · simp only [List.find?_cons, hfirst, decide_false] at hrequest
        obtain ⟨found, hfound, hlookup⟩ := ih hrest hrequest
        refine ⟨found, hfound, ?_⟩
        rw [List.lookup_cons, beq_false_of_ne (Ne.symm hfirst)]
        exact hlookup

end Reads

/-! ## An attempt -/

section Attempt

variable {addressString : ScVal → Except String String} {config : ContractConfig}
  {pools : List PoolConfigEntry} {first second : LedgerView} {bulk rootState : BulkState}

theorem getContractDataBulk_ok {view : LedgerView} {requests : List ContractDataBulkRequest}
    {ledger : UInt32} (h : getContractDataBulk view requests = .ok (bulk, ledger)) :
    requests.mapM view.read = .ok bulk := by
  cases requests with
  | nil =>
      obtain ⟨rfl, -⟩ := Prod.mk.inj (Except.ok.inj h)
      rfl
  | cons request requests =>
      obtain ⟨states, hstates, h⟩ := exists_of_bind_ok (f := fun states => _) h
      obtain ⟨rfl, -⟩ := Prod.mk.inj (Except.ok.inj h)
      exact hstates

theorem find_poolRequest {pool : PoolConfigEntry} (hpool : pool ∈ pools) :
    ((stateRequests config pools).find? fun request =>
      request.contractId = pool.poolContractId) = some (poolRequest pool) := by
  rw [stateRequests, List.find?_append]
  induction pools with
  | nil => cases hpool
  | cons other pools ih =>
      by_cases hid : other.poolContractId = pool.poolContractId
      · simp [poolRequest, hid]
      · have hpool : pool ∈ pools := by
          rcases List.mem_cons.mp hpool with rfl | hpool
          · exact absurd rfl hid
          · exact hpool
        simpa [poolRequest, hid] using ih hpool

theorem expectedRootIndex_congr {pool other : PoolConfigEntry}
    (hid : other.poolContractId = pool.poolContractId) :
    expectedRootIndex bulk other = expectedRootIndex bulk pool := by
  simp [expectedRootIndex, poolStateOf, hid]

/-- The second read asks for the root under the index that the first read has. -/
theorem find_rootRequest {requests : List ContractDataBulkRequest} {pool : PoolConfigEntry}
    (h : pools.mapM (rootRequest bulk) = .ok requests) (hpool : pool ∈ pools) :
    ∃ index, expectedRootIndex bulk pool = .ok index ∧
      (requests.find? fun request => request.contractId = pool.poolContractId) =
        some ⟨pool.poolContractId, ["CurrentRootIndex"], [("Root", index)]⟩ := by
  induction pools generalizing requests with
  | nil => cases hpool
  | cons other pools ih =>
      obtain ⟨request, rest, hrequest, hrest, rfl⟩ := mapM_cons_ok h
      obtain ⟨index, hindex, hrequest⟩ := exists_of_bind_ok hrequest
      obtain rfl := Except.ok.inj hrequest
      by_cases hid : other.poolContractId = pool.poolContractId
      · exact ⟨index, expectedRootIndex_congr hid ▸ hindex, by simp [hid]⟩
      · have hpool : pool ∈ pools := by
          rcases List.mem_cons.mp hpool with rfl | hpool
          · exact absurd rfl hid
          · exact hpool
        obtain ⟨found, hfound, hfind⟩ := ih hrest hpool
        exact ⟨found, hfound, by simpa [hid] using hfind⟩

/-- What the two reads of an attempt without drift have seen of a pool. -/
structure PoolReads (first second : LedgerView) (info : PoolInfo) (id : String) : Prop where
  index : ∃ val index, first.entry id ⟨"CurrentRootIndex", none⟩ = some val ∧
    scvalToU32 val = .ok index ∧ info.merkleCurrentRootIndex = some index ∧
    (∃ val, second.entry id ⟨"CurrentRootIndex", none⟩ = some val ∧ scvalToU32 val = .ok index) ∧
    ∃ val root, second.entry id ⟨"Root", some index⟩ = some val ∧ rootField val = .ok root ∧
      info.merkleRoot = some root
  next : ∃ val n, first.entry id ⟨"NextIndex", none⟩ = some val ∧ scvalToU64 val = .ok n ∧
    info.merkleNextIndex = toString n

theorem poolReads_of_ok {requests : List ContractDataBulkRequest} {ledger : UInt32}
    {pool : PoolConfigEntry} {info : PoolInfo}
    (hbulk : (stateRequests config pools).mapM first.read = .ok bulk)
    (hrequests : pools.mapM (rootRequest bulk) = .ok requests)
    (hrootState : requests.mapM second.read = .ok rootState)
    (hdrift : driftOf bulk rootState pool = .ok none)
    (hpool : pool ∈ pools) (hinfo : poolInfo addressString bulk rootState ledger pool = .ok info) :
    PoolReads first second info pool.poolContractId := by
  obtain ⟨state, hread, hlookup⟩ := lookup_of_mapM hbulk (find_poolRequest hpool)
  have hstate := LedgerView.read_ok hread (by simp [ContractDataBulkRequest.keys, poolRequest])
  obtain ⟨indexVal, hindexEntry, hindexLookup⟩ :=
    hstate ⟨"CurrentRootIndex", none⟩ (by simp [ContractDataBulkRequest.keys, poolRequest])
  obtain ⟨nextVal, hnextEntry, hnextLookup⟩ :=
    hstate ⟨"NextIndex", none⟩ (by simp [ContractDataBulkRequest.keys, poolRequest])
  obtain ⟨index, hexpected, hfind⟩ := find_rootRequest hrequests hpool
  obtain ⟨rootEntries, hrootRead, hrootLookup⟩ := lookup_of_mapM hrootState hfind
  have hroots := LedgerView.read_ok hrootRead (by simp [ContractDataBulkRequest.keys])
  obtain ⟨observedVal, hobservedEntry, hobservedLookup⟩ :=
    hroots ⟨"CurrentRootIndex", none⟩ (by simp [ContractDataBulkRequest.keys])
  obtain ⟨rootVal, hrootEntry, hrootValLookup⟩ :=
    hroots ⟨"Root", some index⟩ (by simp [ContractDataBulkRequest.keys])
  have hpoolState : poolStateOf bulk pool = .ok state := by
    rw [poolStateOf, hlookup]
    rfl
  have hindex : scvalToU32 indexVal = .ok index := by
    rw [expectedRootIndex, hpoolState] at hexpected
    simpa [okOrElse, hindexLookup, Prover.ok_bind] using hexpected
  have hobserved : scvalToU32 observedVal = .ok index := by
    rw [driftOf, hexpected, Prover.ok_bind] at hdrift
    obtain ⟨observed, hobserved, hsame⟩ := exists_of_bind_ok hdrift
    have hsame : observed = index := by
      by_contra hne
      rw [if_pos hne] at hsame
      cases hsame
    subst hsame
    simpa [observedRootIndex, getState, okOrElse, hrootLookup, hobservedLookup, Prover.ok_bind]
      using hobserved
  -- The fields that the entries give, in the order in which they are read.
  obtain ⟨state', hstate', hinfo⟩ := exists_of_bind_ok hinfo
  obtain rfl : state = state' := Except.ok.inj (hpoolState.symm.trans hstate')
  obtain ⟨currentIndex, hcurrentIndex, hinfo⟩ := exists_of_bind_ok hinfo
  obtain ⟨merkleRoot, hmerkleRoot, hinfo⟩ := exists_of_bind_ok hinfo
  obtain ⟨_, _, hinfo⟩ := exists_of_bind_ok hinfo
  obtain ⟨_, _, hinfo⟩ := exists_of_bind_ok hinfo
  obtain ⟨nextVal', hnextVal', hinfo⟩ := exists_of_bind_ok hinfo
  obtain ⟨next, hnext, hinfo⟩ := exists_of_bind_ok hinfo
  obtain ⟨_, _, hinfo⟩ := exists_of_bind_ok hinfo
  obtain ⟨_, _, hinfo⟩ := exists_of_bind_ok hinfo
  obtain ⟨_, _, hinfo⟩ := exists_of_bind_ok hinfo
  obtain ⟨_, _, hinfo⟩ := exists_of_bind_ok hinfo
  obtain ⟨_, _, hinfo⟩ := exists_of_bind_ok hinfo
  obtain rfl := Except.ok.inj hinfo
  rw [hindexLookup] at hcurrentIndex
  obtain ⟨index', hindex', hcurrentIndex⟩ := exists_of_bind_ok hcurrentIndex
  obtain rfl : index = index' := Except.ok.inj (hindex.symm.trans hindex')
  rw [hrootLookup, Option.bind_some, hrootValLookup] at hmerkleRoot
  obtain ⟨root, hroot, hmerkleRoot⟩ := exists_of_bind_ok hmerkleRoot
  rw [getState, hnextLookup] at hnextVal'
  obtain rfl := Except.ok.inj hnextVal'
  exact {
    index := ⟨indexVal, index, hindexEntry, hindex, (Except.ok.inj hcurrentIndex).symm,
      ⟨observedVal, hobservedEntry, hobserved⟩,
      ⟨rootVal, root, hrootEntry, hroot, (Except.ok.inj hmerkleRoot).symm⟩⟩
    next := ⟨nextVal, next, hnextEntry, hnext, rfl⟩ }

/-- A snapshot is what the two reads of one attempt have seen of every pool. -/
theorem snapshotAttempt_reads {data : ContractsStateData}
    (h : snapshotAttempt addressString config pools first second = .ok (.inl data)) :
    List.Forall₂ (fun pool info => PoolReads first second info pool.poolContractId)
      pools data.pools := by
  obtain ⟨⟨bulk, ledger⟩, hbulk, h⟩ := exists_of_bind_ok h
  obtain ⟨requests, hrequests, h⟩ := exists_of_bind_ok h
  obtain ⟨⟨rootState, _⟩, hrootState, h⟩ := exists_of_bind_ok h
  obtain ⟨drift, hdrift, h⟩ := exists_of_bind_ok h
  by_cases hempty : (drift.filterMap id).isEmpty = true
  · rw [if_pos hempty] at h
    obtain ⟨data', hdata, h⟩ := exists_of_bind_ok h
    obtain rfl := Sum.inl.inj (Except.ok.inj h)
    obtain ⟨out, hout, hdata⟩ := exists_of_bind_ok hdata
    obtain ⟨_, _, hdata⟩ := exists_of_bind_ok hdata
    obtain ⟨_, _, hdata⟩ := exists_of_bind_ok hdata
    obtain rfl := Except.ok.inj hdata
    obtain ⟨hlength, hinfo⟩ := List.forall₂_iff_zip.mp (forall₂_of_mapM hout)
    refine List.forall₂_iff_zip.mpr ⟨hlength, fun {pool info} hzip => ?_⟩
    have hpool : pool ∈ pools := (List.of_mem_zip hzip).1
    obtain ⟨moved, hmoved, hnone⟩ := exists_of_mapM hdrift hpool
    have hmoved : moved = none := by
      rw [List.isEmpty_iff, List.filterMap_eq_nil_iff] at hempty
      exact hempty moved hmoved
    exact poolReads_of_ok (getContractDataBulk_ok hbulk) hrequests
      (getContractDataBulk_ok hrootState) (hmoved ▸ hnone) hpool (hinfo hzip)
  · rw [if_neg hempty] at h
    cases h

/-- The loop returns the snapshot of one of the attempts. -/
theorem snapshotLoop_ok {attempts : List (LedgerView × LedgerView)} {lastDrift : String}
    {data : ContractsStateData}
    (h : snapshotLoop addressString config pools attempts lastDrift = .ok data) :
    ∃ attempt ∈ attempts,
      snapshotAttempt addressString config pools attempt.1 attempt.2 = .ok (.inl data) := by
  induction attempts generalizing lastDrift with
  | nil => cases h
  | cons attempt attempts ih =>
      obtain ⟨first, second⟩ := attempt
      obtain ⟨outcome, houtcome, h⟩ := exists_of_bind_ok h
      cases outcome with
      | inl data' =>
          obtain rfl := Except.ok.inj h
          exact ⟨_, List.mem_cons_self, houtcome⟩
      | inr drift =>
          obtain ⟨later, hlater, hattempt⟩ := ih h
          exact ⟨later, List.mem_cons_of_mem _ hlater, hattempt⟩

end Attempt

/-! ## The snapshot -/

/-- The fields of a snapshot are those of one state of the pool: the root is stored under the
current index, it is the root of the first `merkle_next_index` leaves, and it is known. -/
structure OneState (levels : Nat) (txs : List Pool.Transaction) (s : PoolStorage)
    (info : PoolInfo) : Prop where
  index : ∃ index, info.merkleCurrentRootIndex = some index ∧
    s.tree.currentRootIndex = some index.toNat
  next : ∃ n, s.tree.nextIndex = some n ∧ info.merkleNextIndex = toString n
  root : ∃ root index n, info.merkleRoot = some root ∧ s.tree.currentRootIndex = some index ∧
    s.tree.nextIndex = some n ∧ s.tree.root index = some root.toU256 ∧
    root = treeRoot levels ((outputs txs).take n) ∧
    (isKnownRoot root.toU256).run s.tree = .ok true s.tree

section Snapshot

variable {host : Host} {address : Pool.Address → ScAddress} {levels : Nat}
  {txs : List Pool.Transaction} {s : PoolStorage}

theorem Lives.nextIndex (h : Lives host levels txs s) :
    s.tree.nextIndex = some (outputs txs).length ∧ (outputs txs).length < 2 ^ 64 :=
  ⟨h.tree.nextIndex_eq, lt_of_le_of_lt h.tree.length_le (by decide)⟩

/-- The second read comes after fewer insertions than the history holds. -/
theorem oneState_of_reads {calls : List Call} {first second : LedgerView} {info : PoolInfo}
    {id : String} (hlives : Lives host levels txs s) (hnonzero : ∀ i, s.tree.root i ≠ some 0)
    (hfew : (run host s calls).1.length < rootHistorySize)
    (hfirst : first.entry id = poolEntry address s)
    (hsecond : second.entry id = poolEntry address (run host s calls).2)
    (h : PoolReads first second info id) : OneState levels txs s info := by
  have hlater := hlives.run calls
  have hsize (n : Nat) : (UInt32.ofNat (n % rootHistorySize)).toNat = n % rootHistorySize :=
    UInt32.toNat_ofNat_of_lt' (lt_trans (Nat.mod_lt _ (by decide)) (by decide))
  obtain ⟨val, index, hval, hindex, hinfoIndex, ⟨val', hval', hindex'⟩, rootVal, root, hrootVal,
    hroot, hinfoRoot⟩ := h.index
  rw [hfirst, poolEntry, hlives.currentRootIndex] at hval
  rw [hsecond, poolEntry, hlater.currentRootIndex] at hval'
  obtain rfl := Option.some.inj hval
  obtain rfl := Option.some.inj hval'
  obtain rfl := Except.ok.inj hindex
  -- The index has not moved, so nothing was inserted, and the root is still the current one.
  have hmoved : (run host s calls).1.length = 0 := by
    refine same_insertions (n := txs.length) hfew ?_
    have := congrArg UInt32.toNat (Except.ok.inj hindex')
    rwa [hsize, hsize, List.length_append] at this
  have hcurrent := hlater.tree.root_current
  rw [List.length_eq_zero_iff.mp hmoved, List.append_nil, Pool.outputs_length,
    Nat.mul_div_cancel_left _ (by decide)] at hcurrent
  rw [hsecond, poolEntry, hsize, hcurrent] at hrootVal
  obtain rfl := Option.some.inj hrootVal
  have hroot : root = treeRoot levels (outputs txs) := by
    rw [rootField, scvalToU256_toParts, Prover.ok_bind, Fr.toU256_val, fieldTryFromU256_val]
      at hroot
    exact (Except.ok.inj hroot).symm
  obtain ⟨hnextIndex, hlt⟩ := hlives.nextIndex
  obtain ⟨hstored, hknown⟩ := hlives.root_known hnonzero
  obtain ⟨nextVal, n, hnextVal, hn, hinfoNext⟩ := h.next
  rw [hfirst, poolEntry, hnextIndex] at hnextVal
  obtain rfl := Option.some.inj hnextVal
  obtain rfl := Except.ok.inj hn
  exact {
    index := ⟨_, hinfoIndex, by rw [hlives.currentRootIndex, hsize]⟩
    next := ⟨_, hnextIndex, by
      rw [hinfoNext]
      exact congrArg toString (UInt64.toNat_ofNat_of_lt' hlt)⟩
    root := ⟨root, _, _, hinfoRoot, hlives.currentRootIndex, hnextIndex, hroot ▸ hstored,
      by rw [List.take_length, hroot], hroot ▸ hknown⟩ }

theorem World.view_entry {w : World} {id : String} (hs : w.pools id = some s) :
    (w.view address).entry id = poolEntry address s := by
  funext key
  simp [World.view, hs]

variable (host) (w : World)
  (steps : Fin maxSnapshotAttempts → List WorldStep × List WorldStep)

/-- What the first read of an attempt sees: what came between and around the reads of the
attempts before has happened, and what came since. -/
def World.atFirst (k : Fin maxSnapshotAttempts) : World :=
  w.after host
    (((List.ofFn steps).take k).flatMap (fun attempt => attempt.1 ++ attempt.2) ++ (steps k).1)

/-- What the second read of an attempt sees. -/
def World.atSecond (k : Fin maxSnapshotAttempts) : World :=
  (w.atFirst host steps k).after host (steps k).2

variable {host w steps} {addressString : ScVal → Except String String} {config : ContractConfig}
  {pools : List PoolConfigEntry}

/-- **The snapshot is consistent.** Whatever the pools accept around and between the reads, the
fields of each pool belong to one state, which the first read of some attempt has seen. -/
theorem contractsData_consistent (hw : w.Deployed)
    (hpools : ∀ pool ∈ pools, (w.pools pool.poolContractId).isSome)
    (hnonzero : ∀ k id s, (w.atFirst host steps k).pools id = some s →
      ∀ i, s.tree.root i ≠ some 0)
    (hfew : ∀ k id s, (w.atFirst host steps k).pools id = some s →
      (run host s (callsOf id (steps k).2)).1.length < rootHistorySize)
    {data : ContractsStateData}
    (h : contractsData addressString config pools (fun k =>
      ((w.atFirst host steps k).view address, (w.atSecond host steps k).view address)) =
        .ok data) :
    ∃ k, List.Forall₂ (fun pool info => ∃ levels txs s,
      (w.atFirst host steps k).pools pool.poolContractId = some s ∧ Lives host levels txs s ∧
        OneState levels txs s info) pools data.pools := by
  obtain ⟨attempt, hattempt, hdata⟩ := snapshotLoop_ok h
  obtain ⟨k, rfl⟩ := (List.mem_ofFn' _ _).mp hattempt
  refine ⟨k, ?_⟩
  obtain ⟨hlength, hreads⟩ := List.forall₂_iff_zip.mp (snapshotAttempt_reads hdata)
  refine List.forall₂_iff_zip.mpr ⟨hlength, fun {pool info} hzip => ?_⟩
  obtain ⟨s₀, hs₀⟩ := Option.isSome_iff_exists.mp (hpools pool (List.of_mem_zip hzip).1)
  obtain ⟨s, hs⟩ : ∃ s, (w.atFirst host steps k).pools pool.poolContractId = some s := by
    rw [World.atFirst, World.after_pools, hs₀]
    exact ⟨_, rfl⟩
  have hs' : (w.atSecond host steps k).pools pool.poolContractId =
      some (run host s (callsOf pool.poolContractId (steps k).2)).2 := by
    rw [World.atSecond, World.after_pools, hs]
    rfl
  obtain ⟨levels, txs, hlives⟩ := hw.lives hs
  exact ⟨levels, txs, s, hs, hlives, oneState_of_reads hlives (hnonzero k _ s hs)
    (hfew k _ s hs) (World.view_entry hs) (World.view_entry hs') (hreads hzip)⟩


/-! A deposit between the two reads of the first attempt. -/

def driftHost : Host where
  toXdr _ := []
  keccak256 _ := 0
  verify _ _ _ := some true

def driftCall : Call := .transact {
    this := 2
    authorised := true
    transfer := fun _ _ _ _ => some ()
    aspMembershipRoot := fun _ => some 0
    aspNonMembershipRoot := fun _ => some 0 } {
    proof := {
      proof := ⟨[0], [0], [0]⟩
      root := (treeRoot 1 []).toU256
      inputNullifiers := [1]
      outputCommitment0 := 5
      outputCommitment1 := 7
      publicAmount := 0
      extDataHash := 0
      aspMembershipRoot := 0
      aspNonMembershipRoot := 0 }
    extData := { recipient := 3, extAmount := I256.zero, encryptedOutput0 := []
                 encryptedOutput1 := [] }
    sender := 1 }

/-- The administrators and the other contracts. -/
def zeroContract : ScAddress := .contract Bytes32.zero

/-- The text of `zeroContract` is the only one that is asked for. -/
def zeroContractString : ScVal → Except String String :=
  scvalToAddressString (fun _ => "GAAAAAAAAAAAAAAAAAAAAAAAAAAAAAAAAAAAAAAAAAAAAAAAAAAAAWHF")
    fun _ => "CAAAAAAAAAAAAAAAAAAAAAAAAAAAAAAAAAAAAAAAAAAAAAAAAAAABSC4"

def deployedPool : PoolStorage :=
  match (Pool.constructor 10 11 12 13 14 1).run {} with
  | .ok _ s => s
  | .error _ s => s

def driftWorld : World where
  latestLedger := 7
  pools id := if id = "pool" then some deployedPool else none
  others
    | _, ⟨"Admin", none⟩ => some (.address zeroContract)
    | _, ⟨"AdminInsertOnly", none⟩ => some (.bool true)
    | _, ⟨"Levels", none⟩ => some (.u32 1)
    | _, ⟨"NextIndex", none⟩ => some (.u64 0)
    | _, ⟨"Root", none⟩ => some (.u256 ⟨0, 0, 0, 1⟩)
    | _, _ => none

def driftSteps (k : Fin maxSnapshotAttempts) : List WorldStep × List WorldStep :=
  if k.val = 0 then ([], [.call "pool" driftCall]) else ([], [])

def driftConfig : ContractConfig where
  aspMembership := "asp"
  aspMembershipDeploymentLedger := none
  aspNonMembership := "asp-non"
  publicKeyRegistry := "registry"
  pools := [{ poolContractId := "pool", deploymentLedger := 1, enabled := true }]

def driftData : Except String ContractsStateData :=
  contractsData zeroContractString driftConfig driftConfig.pools fun k =>
    ((driftWorld.atFirst driftHost driftSteps k).view (fun _ => zeroContract),
      (driftWorld.atSecond driftHost driftSteps k).view (fun _ => zeroContract))


theorem driftData_isOk : driftData.isOk = true := by decide +kernel

theorem driftWorld_deployed : driftWorld.Deployed := by
  have hok : (match (Pool.constructor 10 11 12 13 14 1).run {} with
    | .ok _ _ => true
    | .error _ _ => false) = true := by decide +kernel
  have hrun : (Pool.constructor 10 11 12 13 14 1).run {} = .ok () deployedPool := by
    rw [deployedPool]
    cases hrun : (Pool.constructor 10 11 12 13 14 1).run {} with
    | ok u s => rfl
    | error e s =>
        rw [hrun] at hok
        cases hok
  intro id s hs
  by_cases hid : id = "pool"
  · subst hid
    obtain rfl := Option.some.inj hs
    exact ⟨10, 11, 12, 13, 14, 1, hrun⟩
  · exact absurd hs (by simp [driftWorld, hid])

/-- A pool with room for two leaves has at most two roots. -/
theorem roots_nonzero {leaves : List Fr} {tree : MerkleWithHistory.MerkleStorage}
    (h : MerkleWithHistory.Represents 1 leaves tree) (hzero : tree.root 0 ≠ some 0)
    (hone : tree.root 1 ≠ some 0) (i : Nat) : tree.root i ≠ some 0 := by
  intro hi
  obtain ⟨j, hj, -, rfl, -⟩ := (h.root_eq i 0).mp hi
  have hle : leaves.length ≤ 2 := h.fits
  have : j = 0 ∨ j = 1 := by omega
  rcases this with rfl | rfl
  · exact hzero hi
  · exact hone hi

theorem driftWorld_nonzero (k : Fin maxSnapshotAttempts) (id : String) (s : PoolStorage)
    (hs : (driftWorld.atFirst driftHost driftSteps k).pools id = some s) (i : Nat) :
    s.tree.root i ≠ some 0 := by
  obtain rfl : id = "pool" := by
    by_contra hid
    rw [World.atFirst, World.after_pools] at hs
    simp [driftWorld, hid] at hs
  have hroots : ∀ k, ((driftWorld.atFirst driftHost driftSteps k).pools "pool").all
      (fun s => decide (s.tree.levels = some 1 ∧ s.tree.root 0 ≠ some 0 ∧ s.tree.root 1 ≠ some 0)) =
        true := by
    decide +kernel
  obtain ⟨levels, txs, hlives⟩ := driftWorld_deployed.lives hs
  have hk := hroots k
  rw [hs] at hk
  obtain ⟨hlevels, hzero, hone⟩ := of_decide_eq_true hk
  obtain rfl : levels = 1 := Option.some.inj (hlives.tree.levels_eq.symm.trans hlevels)
  exact roots_nonzero hlives.tree hzero hone i

theorem run_length_le (s : PoolStorage) (calls : List Call) :
    (run host s calls).1.length ≤ calls.length := by
  induction calls generalizing s with
  | nil => simp [run]
  | cons call calls ih =>
      rw [Pool.run_cons]
      cases (call.function host).run s with
      | ok _ s' =>
          have hone : call.transaction.length ≤ 1 := by cases call <;> simp [Call.transaction]
          simp only [List.length_append, List.length_cons]
          have := ih s'
          omega
      | error _ _ =>
          have := ih s
          simp only [List.length_cons]
          omega

theorem driftWorld_few (k : Fin maxSnapshotAttempts) (id : String) (s : PoolStorage) :
    (run driftHost s (callsOf id (driftSteps k).2)).1.length < rootHistorySize := by
  have hcalls : (callsOf id (driftSteps k).2).length ≤ 1 := by
    refine (List.length_filterMap_le _ _).trans ?_
    rw [driftSteps]
    split <;> simp
  exact lt_of_le_of_lt ((run_length_le _ _).trans hcalls) (by decide)

theorem contractsData_consistent_drift : ∃ data, driftData = .ok data ∧
    ∃ k, List.Forall₂ (fun (pool : PoolConfigEntry) info => ∃ levels txs s,
      (driftWorld.atFirst driftHost driftSteps k).pools pool.poolContractId = some s ∧
        Lives driftHost levels txs s ∧ OneState levels txs s info) driftConfig.pools data.pools := by
  cases hdata : driftData with
  | error e => exact absurd driftData_isOk (by simp [hdata, Except.isOk, Except.toBool])
  | ok data =>
      exact ⟨data, rfl, contractsData_consistent driftWorld_deployed (by decide)
        driftWorld_nonzero (fun k id s _ => driftWorld_few k id s) hdata⟩

end Snapshot

end PrivatePayments.Stellar
