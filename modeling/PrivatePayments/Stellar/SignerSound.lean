import PrivatePayments.State.WitnessReadsSound
import PrivatePayments.Stellar.Signer

/-!
# PrivatePayments.Stellar.SignerSound

What signing does to a prepared transaction. The entries that wait for the account of the user
get its signature, over what the host hashes of them; the other entries and the call stay. The
signatures that come from outside must be those of the entries that wait, no more and no
fewer. A signed envelope verifies.
-/

namespace PrivatePayments.Stellar

open Prover (exists_of_bind_ok mapError_ok)

variable {Text : Type} {xdr : TxXdr Text} {hashing : Hashing Text} {keys : Strkey}
  {ed25519 : Ed25519}

/-! ## One entry -/

/-- The entry waits for a signature of the account. -/
def waits (publicKey : Bytes32) (entry : SorobanAuthorizationEntry) : Bool :=
  match entry.credentials with
  | .address ⟨.account key, _, _, none⟩ => key = publicKey
  | _ => false

/-- The client can print who an unsigned entry waits for: an account or a contract. -/
def printable (entry : SorobanAuthorizationEntry) : Bool :=
  match entry.credentials with
  | .address ⟨.account _, _, _, none⟩ | .address ⟨.contract _, _, _, none⟩ => true
  | .address ⟨_, _, _, none⟩ => false
  | _ => true

/-- The signature of an account as a value. -/
def signatureScval (publicKey : Bytes32) (signature : Signature) : ScVal :=
  .vec [.map [(.symbol "public_key", .bytes publicKey.val),
    (.symbol "signature", .bytes signature.val)]]

/-- The entry with the signature. -/
def signEntry (publicKey : Bytes32) (expiration : UInt32) (entry : SorobanAuthorizationEntry)
    (signature : Signature) : SorobanAuthorizationEntry :=
  match entry.credentials with
  | .sourceAccount => entry
  | .address creds => { entry with
      credentials := .address { creds with
        signatureExpirationLedger := expiration
        signature := some (signatureScval publicKey signature) } }

/-- What is signed for an entry. -/
def entryPreimage (networkId : Bytes32) (expiration : UInt32)
    (entry : SorobanAuthorizationEntry) : HashIdPreimage where
  networkId
  nonce := match entry.credentials with
    | .sourceAccount => 0
    | .address creds => creds.nonce
  signatureExpirationLedger := expiration
  invocation := entry.rootInvocation

theorem waits_iff {publicKey : Bytes32} {entry : SorobanAuthorizationEntry} :
    waits publicKey entry = true ↔ ∃ nonce expiration,
      entry.credentials = .address ⟨.account publicKey, nonce, expiration, none⟩ := by
  obtain ⟨credentials, invocation⟩ := entry
  cases credentials with
  | sourceAccount => simp [waits]
  | address creds =>
      obtain ⟨address, nonce, expiration, signature⟩ := creds
      cases signature with
      | some v => simp [waits]
      | none => cases address <;> simp [waits]

theorem needsWalletAuth_iff {entry : SorobanAuthorizationEntry} {publicKey : Bytes32} {b : Bool} :
    needsWalletAuth keys entry (keys.publicKeyString publicKey) = .ok b ↔
      printable entry = true ∧ b = waits publicKey entry := by
  obtain ⟨credentials, invocation⟩ := entry
  cases credentials with
  | sourceAccount => simp [needsWalletAuth, printable, waits, eq_comm]
  | address creds =>
      obtain ⟨address, nonce, expiration, signature⟩ := creds
      cases signature with
      | some v => simp [needsWalletAuth, printable, waits, eq_comm]
      | none =>
          cases address with
          | account key =>
              have hsame : keys.publicKeyString key = keys.publicKeyString publicKey ↔
                  key = publicKey := by
                refine ⟨fun heq => ?_, fun heq => heq ▸ rfl⟩
                have hread := congrArg keys.publicKey heq
                rw [keys.publicKey_publicKeyString, keys.publicKey_publicKeyString] at hread
                exact Option.some.inj hread
              simp [needsWalletAuth, printable, waits, scvalToAddressString, hsame, eq_comm,
                Except.bind, bind, pure, Except.pure]
          | contract id =>
              have hother : keys.contractString id ≠ keys.publicKeyString publicKey := by
                intro heq
                have hread := congrArg keys.publicKey heq
                rw [keys.publicKey_publicKeyString, keys.publicKey_contractString] at hread
                cases hread
              simp [needsWalletAuth, printable, waits, scvalToAddressString, hother, eq_comm,
                Except.bind, bind, pure, Except.pure]
          | _ => simp [needsWalletAuth, printable, waits, scvalToAddressString, Except.bind, bind]

theorem addressCredentialsSignature_eq (publicKey : Bytes32) (signature : Signature) :
    addressCredentialsSignature publicKey signature = .ok (signatureScval publicKey signature) := by
  have hkey : bytesToScval publicKey.val = .ok (.bytes publicKey.val) :=
    bytesToScval_eq (by rw [publicKey.property]; decide)
  have hsignature : bytesToScval signature.val = .ok (.bytes signature.val) :=
    bytesToScval_eq (by rw [signature.property]; decide)
  have hmap : sortedMap [(.symbol "public_key", .bytes publicKey.val),
      (.symbol "signature", .bytes signature.val)] = .ok (.map
        [(.symbol "public_key", .bytes publicKey.val), (.symbol "signature", .bytes signature.val)]) :=
    sortedMap_symbolEntries
      [("public_key", .bytes publicKey.val), ("signature", .bytes signature.val)]
      (show ["public_key", "signature"].Pairwise (· ≤ ·) by decide +kernel) (by simp)
  unfold addressCredentialsSignature
  simp only [hkey, hsignature, hmap, Prover.ok_bind,
    mapEntry_eq (show ("public_key").utf8ByteSize ≤ 32 by decide +kernel),
    mapEntry_eq (show ("signature").utf8ByteSize ≤ 32 by decide +kernel)]
  exact if_pos (show 1 < 2 ^ 32 by decide)

theorem applyAddressAuthSignature_eq {entry : SorobanAuthorizationEntry} {publicKey : Bytes32}
    (h : waits publicKey entry = true) (signature : Signature) (expiration : UInt32) :
    applyAddressAuthSignature entry publicKey signature expiration =
      .ok (signEntry publicKey expiration entry signature) := by
  obtain ⟨nonce, old, hcredentials⟩ := waits_iff.mp h
  unfold applyAddressAuthSignature signEntry
  simp only [hcredentials, addressCredentialsSignature_eq, Prover.ok_bind]
  rfl

theorem sorobanAuthPreimage_eq {entry : SorobanAuthorizationEntry} {publicKey : Bytes32}
    (h : waits publicKey entry = true) (networkPassphrase : String) (expiration : UInt32) :
    sorobanAuthPreimage hashing entry networkPassphrase expiration =
      .ok (entryPreimage (hashing.networkId networkPassphrase) expiration entry) := by
  obtain ⟨nonce, old, hcredentials⟩ := waits_iff.mp h
  unfold sorobanAuthPreimage entryPreimage
  simp only [hcredentials]

/-! ## All entries -/

/-- An entry as it came decodes to this entry, at the same index. -/
def Decodes (xdr : TxXdr Text) (item : Text × Nat) (d : SorobanAuthorizationEntry × Nat) : Prop :=
  xdr.ofAuthEntry item.1 = .ok d.1 ∧ item.2 = d.2

/-- The indices of the entries that wait for the account. -/
def waiting (publicKey : Bytes32) (decoded : List (SorobanAuthorizationEntry × Nat)) : List Nat :=
  (decoded.filter fun d => waits publicKey d.1).map Prod.snd

/-- The entry with its signature, if it waits for one. -/
def patchEntry (publicKey : Bytes32) (expiration : UInt32) (sigs : Std.TreeMap Nat Signature)
    (d : SorobanAuthorizationEntry × Nat) : SorobanAuthorizationEntry :=
  if waits publicKey d.1 then
    (sigs[d.2]?).elim d.1 (signEntry publicKey expiration d.1)
  else d.1

theorem decodes_zipIdx {texts : List Text} {entries : List SorobanAuthorizationEntry}
    (h : List.Forall₂ (fun text entry => xdr.ofAuthEntry text = .ok entry) texts entries) :
    ∀ k, List.Forall₂ (Decodes xdr) (texts.zipIdx k) (entries.zipIdx k) := by
  induction h with
  | nil => exact fun _ => .nil
  | cons hentry _ ih => exact fun k => .cons ⟨hentry, rfl⟩ (ih (k + 1))

section Loops

variable {items : List (Text × Nat)} {decoded : List (SorobanAuthorizationEntry × Nat)}
  (publicKey : Bytes32) (expiration : UInt32)

/-- The steps are those of the entries that wait. -/
theorem authSignStepsLoop_ok_iff (h : List.Forall₂ (Decodes xdr) items decoded)
    (networkPassphrase : String) {steps : List AuthSignStep} :
    authSignStepsLoop xdr hashing keys networkPassphrase (keys.publicKeyString publicKey)
        expiration items = .ok steps ↔
      (∀ d ∈ decoded, printable d.1 = true) ∧
      steps = (decoded.filter fun d => waits publicKey d.1).map fun d =>
        ⟨d.2, entryPreimage (hashing.networkId networkPassphrase) expiration d.1⟩ := by
  induction h generalizing steps with
  | nil =>
      rw [authSignStepsLoop]
      exact ⟨fun hok => ⟨List.forall_mem_nil _, (Except.ok.inj hok).symm⟩, fun h => h.2 ▸ rfl⟩
  | @cons item d items decoded hdecodes _ ih =>
      obtain ⟨hentry, hindex⟩ := hdecodes
      have hread : context "invalid auth entry xdr" (xdr.ofAuthEntry item.1) = .ok d.1 := by
        rw [hentry]
        rfl
      rw [authSignStepsLoop, hread, Prover.ok_bind, List.forall_mem_cons, List.filter_cons]
      by_cases hprintable : printable d.1 = true
      · rw [needsWalletAuth_iff.mpr ⟨hprintable, rfl⟩, Prover.ok_bind]
        by_cases hwaits : waits publicKey d.1 = true
        · rw [if_pos hwaits, if_pos hwaits, sorobanAuthPreimage_eq hwaits, Prover.ok_bind,
            List.map_cons, ← hindex]
          constructor
          · intro hok
            obtain ⟨rest, hrest, hok⟩ := exists_of_bind_ok hok
            obtain ⟨hall, rfl⟩ := ih.mp hrest
            exact ⟨⟨hprintable, hall⟩, (Except.ok.inj hok).symm⟩
          · rintro ⟨⟨-, hall⟩, rfl⟩
            rw [ih.mpr ⟨hall, rfl⟩]
            rfl
        · rw [if_neg hwaits, if_neg hwaits, ih]
          exact ⟨fun h => ⟨⟨hprintable, h.1⟩, h.2⟩, fun h => ⟨h.1.2, h.2⟩⟩
      · constructor
        · intro hok
          obtain ⟨b, hneeds, -⟩ := exists_of_bind_ok hok
          exact absurd (needsWalletAuth_iff.mp hneeds).1 hprintable
        · exact fun h => absurd h.1.1 hprintable

/-- The state after the entries. -/
def AuthPatch.after (st : AuthPatch) (decoded : List (SorobanAuthorizationEntry × Nat)) :
    AuthPatch where
  sigsByIndex := (waiting publicKey decoded).foldl Std.TreeMap.erase st.sigsByIndex
  needsPatch := st.needsPatch || decoded.any fun d => waits publicKey d.1
  signedAuth := st.signedAuth ++ decoded.map (patchEntry publicKey expiration st.sigsByIndex)

theorem mem_foldl_erase {sigs : Std.TreeMap Nat Signature} {indices : List Nat} {i : Nat} :
    i ∈ indices.foldl Std.TreeMap.erase sigs ↔ i ∈ sigs ∧ i ∉ indices := by
  induction indices generalizing sigs with
  | nil => simp
  | cons j indices ih =>
      rw [List.foldl_cons, ih, Std.TreeMap.mem_erase, List.mem_cons]
      simp only [ne_eq, compare_eq_iff_eq, not_or]
      tauto

/-- An entry of another index is patched the same without this signature. -/
theorem map_patchEntry_erase {sigs : Std.TreeMap Nat Signature} {i : Nat}
    (hnot : i ∉ decoded.map Prod.snd) :
    decoded.map (patchEntry publicKey expiration (sigs.erase i)) =
      decoded.map (patchEntry publicKey expiration sigs) := by
  refine List.map_congr_left fun d hd => ?_
  have hne : i ≠ d.2 := fun heq => hnot (heq ▸ List.mem_map_of_mem hd)
  have hget : (sigs.erase i)[d.2]? = sigs[d.2]? := by
    rw [Std.TreeMap.getElem?_erase, if_neg (by rwa [compare_eq_iff_eq])]
  rw [patchEntry, patchEntry, hget]

/-- What one entry does: if it waits, it wants its signature. -/
theorem AuthPatch.step_ok_iff {item : Text × Nat} {d : SorobanAuthorizationEntry × Nat}
    (h : Decodes xdr item d) {st next : AuthPatch} :
    st.step xdr keys (keys.publicKeyString publicKey) publicKey expiration item = .ok next ↔
      printable d.1 = true ∧ (waits publicKey d.1 = true → d.2 ∈ st.sigsByIndex) ∧
      next = st.after publicKey expiration [d] := by
  obtain ⟨hentry, hindex⟩ := h
  have hread : context "invalid auth entry xdr" (xdr.ofAuthEntry item.1) = .ok d.1 := by
    rw [hentry]
    rfl
  rw [AuthPatch.step, hread, Prover.ok_bind, hindex]
  by_cases hprintable : printable d.1 = true
  · have hneeds : needsWalletAuth keys d.1 (keys.publicKeyString publicKey) =
        .ok (waits publicKey d.1) := needsWalletAuth_iff.mpr ⟨hprintable, rfl⟩
    rw [hneeds, Prover.ok_bind]
    by_cases hwaits : waits publicKey d.1 = true
    · rw [if_pos hwaits]
      cases hsig : st.sigsByIndex[d.2]? with
      | none =>
          have hnot : d.2 ∉ st.sigsByIndex := by
            rw [Std.TreeMap.mem_iff_isSome_getElem?, hsig]
            exact Bool.false_ne_true
          exact ⟨nofun, fun hand => absurd (hand.2.1 hwaits) hnot⟩
      | some signature =>
          have hmem : d.2 ∈ st.sigsByIndex := by
            rw [Std.TreeMap.mem_iff_isSome_getElem?, hsig]
            rfl
          have hafter : st.after publicKey expiration [d] = {
              sigsByIndex := st.sigsByIndex.erase d.2
              needsPatch := true
              signedAuth := st.signedAuth ++ [signEntry publicKey expiration d.1 signature] } := by
            simp [AuthPatch.after, waiting, patchEntry, hwaits, hsig]
          rw [hafter]
          simp only [applyAddressAuthSignature_eq hwaits, Prover.ok_bind]
          exact ⟨fun hok => ⟨hprintable, fun _ => hmem, (Except.ok.inj hok).symm⟩,
            fun hand => hand.2.2 ▸ rfl⟩
    · have hafter : st.after publicKey expiration [d] =
          { st with signedAuth := st.signedAuth ++ [d.1] } := by
        simp [AuthPatch.after, waiting, patchEntry, hwaits]
      rw [if_neg hwaits, hafter]
      exact ⟨fun hok => ⟨hprintable, fun hw => absurd hw hwaits, (Except.ok.inj hok).symm⟩,
        fun hand => hand.2.2 ▸ rfl⟩
  · constructor
    · intro hok
      obtain ⟨b, hneeds, -⟩ := exists_of_bind_ok hok
      exact absurd (needsWalletAuth_iff.mp hneeds).1 hprintable
    · exact fun hand => absurd hand.1 hprintable

theorem waiting_cons (d : SorobanAuthorizationEntry × Nat) :
    waiting publicKey (d :: decoded) = waiting publicKey [d] ++ waiting publicKey decoded := by
  unfold waiting
  rw [← List.map_append, ← List.filter_append, List.singleton_append]

theorem waiting_singleton {d : SorobanAuthorizationEntry × Nat} {i : Nat} :
    i ∈ waiting publicKey [d] ↔ waits publicKey d.1 = true ∧ i = d.2 := by
  by_cases hwaits : waits publicKey d.1 = true
  · simp [waiting, hwaits]
  · simp [waiting, hwaits]

theorem waiting_subset {i : Nat} (h : i ∈ waiting publicKey decoded) :
    i ∈ decoded.map Prod.snd :=
  (List.map_subset _ (List.filter_subset_self _)) h

/-- One entry after the other. -/
theorem AuthPatch.after_cons {st : AuthPatch} {d : SorobanAuthorizationEntry × Nat}
    (hnot : d.2 ∉ decoded.map Prod.snd) :
    (st.after publicKey expiration [d]).after publicKey expiration decoded =
      st.after publicKey expiration (d :: decoded) := by
  have hpatched : decoded.map (patchEntry publicKey expiration
      ((waiting publicKey [d]).foldl Std.TreeMap.erase st.sigsByIndex)) =
      decoded.map (patchEntry publicKey expiration st.sigsByIndex) := by
    by_cases hwaits : waits publicKey d.1 = true
    · simp only [waiting, List.filter_singleton, hwaits, cond_true, List.map_singleton,
        List.foldl_cons, List.foldl_nil]
      exact map_patchEntry_erase publicKey expiration hnot
    · simp [waiting, hwaits]
  have hwaiting : waiting publicKey (d :: decoded) =
      waiting publicKey [d] ++ waiting publicKey decoded := waiting_cons publicKey d
  simp only [AuthPatch.after, AuthPatch.mk.injEq]
  refine ⟨?_, ?_, ?_⟩
  · rw [hwaiting, List.foldl_append]
  · simp [Bool.or_assoc]
  · simp [hpatched]

/-- The loop wants a signature for each entry that waits. -/
theorem foldlM_step_ok_iff (h : List.Forall₂ (Decodes xdr) items decoded)
    (hnodup : (decoded.map Prod.snd).Nodup) {st st' : AuthPatch} :
    items.foldlM (AuthPatch.step xdr keys (keys.publicKeyString publicKey) publicKey expiration) st =
        .ok st' ↔
      (∀ d ∈ decoded, printable d.1 = true) ∧
      (∀ i ∈ waiting publicKey decoded, i ∈ st.sigsByIndex) ∧
      st' = st.after publicKey expiration decoded := by
  induction h generalizing st with
  | nil =>
      have hafter : st.after publicKey expiration [] = st := by
        simp [AuthPatch.after, waiting]
      rw [List.foldlM_nil, hafter]
      exact ⟨fun hok => ⟨List.forall_mem_nil _, List.forall_mem_nil _, (Except.ok.inj hok).symm⟩,
        fun h => h.2.2 ▸ rfl⟩
  | @cons item d items decoded hdecodes _ ih =>
      obtain ⟨hnot, hnodup⟩ := List.nodup_cons.mp hnodup
      -- the signatures of the other entries are still there after the first
      have hleft : (∀ i ∈ waiting publicKey decoded,
          i ∈ (st.after publicKey expiration [d]).sigsByIndex) ↔
          ∀ i ∈ waiting publicKey decoded, i ∈ st.sigsByIndex := by
        refine forall₂_congr fun i hi => ?_
        have hne : i ∉ waiting publicKey [d] := by
          intro hmem
          rw [((waiting_singleton publicKey).mp hmem).2] at hi
          exact hnot (waiting_subset publicKey hi)
        rw [AuthPatch.after, mem_foldl_erase]
        exact and_iff_left hne
      have hfirst : (∀ i ∈ waiting publicKey [d], i ∈ st.sigsByIndex) ↔
          (waits publicKey d.1 = true → d.2 ∈ st.sigsByIndex) := by
        simp only [waiting_singleton, and_imp]
        exact ⟨fun hall hwaits => hall _ hwaits rfl, fun hall i hwaits heq => heq ▸ hall hwaits⟩
      rw [List.foldlM_cons, List.forall_mem_cons, waiting_cons, List.forall_mem_append, hfirst,
        ← AuthPatch.after_cons publicKey expiration hnot]
      constructor
      · intro hok
        obtain ⟨next, hstep, hrest⟩ := exists_of_bind_ok hok
        obtain ⟨hprintable, hsig, rfl⟩ :=
          (AuthPatch.step_ok_iff publicKey expiration hdecodes).mp hstep
        obtain ⟨hall, hsigs, heq⟩ := (ih hnodup).mp hrest
        exact ⟨⟨hprintable, hall⟩, ⟨hsig, hleft.mp hsigs⟩, heq⟩
      · rintro ⟨⟨hprintable, hall⟩, ⟨hsig, hsigs⟩, heq⟩
        have hstep : st.step xdr keys (keys.publicKeyString publicKey) publicKey expiration item =
            .ok (st.after publicKey expiration [d]) :=
          (AuthPatch.step_ok_iff publicKey expiration hdecodes).mpr ⟨hprintable, hsig, rfl⟩
        rw [hstep, Prover.ok_bind]
        exact (ih hnodup).mpr ⟨hall, hleft.mpr hsigs, heq⟩

end Loops

/-! ## What the host checks -/

/-- The credentials are of the account, with this nonce and up to this ledger, and hold a
signature of its key over the hash of the network, these two and the invocation. -/
def AccountAuthorised (hashing : Hashing Text) (ed25519 : Ed25519) (networkId publicKey : Bytes32)
    (nonce : Int64) (expiration : UInt32) (entry : SorobanAuthorizationEntry) : Prop :=
  ∃ signature,
    entry.credentials = .address
      ⟨.account publicKey, nonce, expiration, some (signatureScval publicKey signature)⟩ ∧
    ed25519.verify publicKey (hashing.sha256 (hashing.preimageXdr
      ⟨networkId, nonce, expiration, entry.rootInvocation⟩)) signature = .ok ()

/-- From the entry of the simulation to the one that is sent: it authorises the same
invocation, by the account if it waited for the account, and else it is the same. -/
structure Authorises (xdr : TxXdr Text) (hashing : Hashing Text) (ed25519 : Ed25519)
    (networkId publicKey : Bytes32) (expiration : UInt32) (text : Text)
    (sent : SorobanAuthorizationEntry) : Prop where
  simulated : ∃ entry, xdr.ofAuthEntry text = .ok entry ∧
    sent.rootInvocation = entry.rootInvocation ∧
    (∀ nonce old, entry.credentials = .address ⟨.account publicKey, nonce, old, none⟩ →
      AccountAuthorised hashing ed25519 networkId publicKey nonce expiration sent) ∧
    (waits publicKey entry = false → sent = entry)

theorem authorises_signEntry {networkId publicKey : Bytes32} {expiration : UInt32} {text : Text}
    {entry : SorobanAuthorizationEntry} (hentry : xdr.ofAuthEntry text = .ok entry)
    {signature : Signature} (hwaits : waits publicKey entry = true)
    (hverify : ed25519.verify publicKey (hashing.sha256 (hashing.preimageXdr
      (entryPreimage networkId expiration entry))) signature = .ok ()) :
    Authorises xdr hashing ed25519 networkId publicKey expiration text
      (signEntry publicKey expiration entry signature) := by
  refine ⟨entry, hentry, ?_, ?_, fun hnot => absurd hwaits (Bool.eq_false_iff.mp hnot)⟩
  · unfold signEntry
    split <;> rfl
  · obtain ⟨credentials, invocation⟩ := entry
    rintro nonce old rfl
    exact ⟨signature, rfl, hverify⟩

theorem authorises_self {networkId publicKey : Bytes32} {expiration : UInt32} {text : Text}
    {entry : SorobanAuthorizationEntry} (hentry : xdr.ofAuthEntry text = .ok entry)
    (hwaits : ¬ waits publicKey entry = true) :
    Authorises xdr hashing ed25519 networkId publicKey expiration text entry :=
  ⟨entry, hentry, rfl, fun nonce old hcredentials =>
    absurd (waits_iff.mpr ⟨nonce, old, hcredentials⟩) hwaits, fun _ => rfl⟩

/-- Signatures that verify authorise every entry. -/
theorem authorises_patched {networkId publicKey : Bytes32} {expiration : UInt32}
    {sigs : Std.TreeMap Nat Signature} {texts : List Text}
    {entries : List SorobanAuthorizationEntry}
    (h : List.Forall₂ (fun text entry => xdr.ofAuthEntry text = .ok entry) texts entries) :
    ∀ k, (∀ d ∈ entries.zipIdx k, waits publicKey d.1 = true → ∃ signature,
      sigs[d.2]? = some signature ∧ ed25519.verify publicKey (hashing.sha256
        (hashing.preimageXdr (entryPreimage networkId expiration d.1))) signature = .ok ()) →
    List.Forall₂ (Authorises xdr hashing ed25519 networkId publicKey expiration) texts
      ((entries.zipIdx k).map (patchEntry publicKey expiration sigs)) := by
  induction h with
  | nil => exact fun _ _ => .nil
  | @cons text entry texts entries hentry _ ih =>
      intro k hsigs
      rw [List.zipIdx_cons, List.forall_mem_cons] at hsigs
      refine .cons ?_ (ih (k + 1) hsigs.2)
      unfold patchEntry
      by_cases hwaits : waits publicKey entry = true
      · obtain ⟨signature, hget, hverify⟩ := hsigs.1 hwaits
        rw [if_pos hwaits, hget]
        exact authorises_signEntry hentry hwaits hverify
      · rw [if_neg hwaits]
        exact authorises_self hentry hwaits

/-! ## The prepared transaction -/

/-- The transaction with these authorizations of its call. -/
def withAuth (tx : Transaction) (contract : Bytes32) (function : String) (args : List ScVal)
    (auth : List SorobanAuthorizationEntry) : Transaction :=
  { tx with operations := [⟨none, .invokeHostFunction
    ⟨.invokeContract ⟨.contract contract, function, args⟩, auth⟩⟩] }

section Unsigned

variable {source contract : Bytes32} {function : String} {args : List ScVal} {seqNum : Int64}
  {entries : List SorobanAuthorizationEntry} {prepared : PreparedSorobanTx Text} {tx : Transaction}

theorem Prepared.withAuth_self
    (h : Prepared xdr source contract function args seqNum entries prepared tx) :
    withAuth tx contract function args entries = tx := by
  unfold withAuth
  rw [← h.operations]

theorem Prepared.patchAuthEntries_eq
    (h : Prepared xdr source contract function args seqNum entries prepared tx)
    {signedAuth : List SorobanAuthorizationEntry} (hlength : signedAuth.length = entries.length) :
    patchAuthEntries (.tx ⟨tx, []⟩) signedAuth =
      .ok (.tx ⟨withAuth tx contract function args signedAuth, []⟩) := by
  have hfits : signedAuth.length ≤ 2 ^ 32 - 1 := by
    have hlt := h.length_lt
    omega
  have hvec : context "attach signed auth entries" (vecM (2 ^ 32 - 1) signedAuth) =
      .ok signedAuth := by
    rw [vecM, if_pos hfits]
    rfl
  unfold patchAuthEntries
  simp only [h.operations, patchOperations, hvec, Prover.ok_bind]
  rfl

theorem mem_waiting_zipIdx {publicKey : Bytes32} {i : Nat} :
    i ∈ waiting publicKey entries.zipIdx ↔
      ∃ entry, entries[i]? = some entry ∧ waits publicKey entry = true := by
  simp only [waiting, List.mem_map, List.mem_filter, Prod.exists, List.mem_zipIdx_iff_getElem?]
  constructor
  · rintro ⟨entry, j, ⟨hget, hwaits⟩, rfl⟩
    exact ⟨entry, hget, hwaits⟩
  · rintro ⟨entry, hget, hwaits⟩
    exact ⟨entry, i, ⟨hget, hwaits⟩, rfl⟩

theorem nodup_zipIdx_snd : (entries.zipIdx.map Prod.snd).Nodup := by
  rw [List.zipIdx_map_snd]
  exact List.nodup_range'

theorem forall_mem_zipIdx (P : SorobanAuthorizationEntry → Prop) :
    (∀ d ∈ entries.zipIdx, P d.1) ↔ ∀ entry ∈ entries, P entry := by
  rw [← List.forall_mem_map (f := Prod.fst) (P := P), List.zipIdx_map_fst]

/-- If no entry waits, the entries stay. -/
theorem map_patchEntry_eq {publicKey : Bytes32} {expiration : UInt32}
    {sigs : Std.TreeMap Nat Signature}
    (h : (entries.zipIdx.any fun d => waits publicKey d.1) = false) :
    entries.zipIdx.map (patchEntry publicKey expiration sigs) = entries := by
  have hall : ∀ d ∈ entries.zipIdx, patchEntry publicKey expiration sigs d = d.1 := by
    intro d hd
    rw [patchEntry, if_neg (List.any_eq_false.mp h d hd)]
  rw [List.map_congr_left hall]
  exact List.zipIdx_map_fst _ _

theorem isEmpty_after_iff {publicKey : Bytes32} {expiration : UInt32} {st : AuthPatch}
    {decoded : List (SorobanAuthorizationEntry × Nat)} :
    (st.after publicKey expiration decoded).sigsByIndex.isEmpty = true ↔
      ∀ i ∈ st.sigsByIndex, i ∈ waiting publicKey decoded := by
  rw [Std.TreeMap.isEmpty_iff_forall_not_mem]
  simp only [AuthPatch.after, mem_foldl_erase, not_and, not_not]

/-- What the last part of `unsigned_tx_for_signing` makes of the signed entries. -/
theorem Prepared.finish
    (h : Prepared xdr source contract function args seqNum entries prepared tx)
    {publicKey : Bytes32} {expiration : UInt32} {sigs : Std.TreeMap Nat Signature} {st : AuthPatch}
    (hst : st = AuthPatch.after publicKey expiration ⟨sigs, false, []⟩ entries.zipIdx) :
    ∃ text, (if st.needsPatch then do
        let envelope ← context "invalid prepared tx xdr" (xdr.ofEnvelope prepared.txXdr)
        let envelope ← patchAuthEntries envelope st.signedAuth
        return xdr.envelope envelope
      else
        return prepared.txXdr) = (.ok text : Except String Text) ∧
      xdr.ofEnvelope text = .ok (.tx ⟨withAuth tx contract function args
        (entries.zipIdx.map (patchEntry publicKey expiration sigs)), []⟩) := by
  subst hst
  have hsigned : (AuthPatch.after publicKey expiration ⟨sigs, false, []⟩ entries.zipIdx).signedAuth =
      entries.zipIdx.map (patchEntry publicKey expiration sigs) := List.nil_append _
  have hneeds : (AuthPatch.after publicKey expiration ⟨sigs, false, []⟩ entries.zipIdx).needsPatch =
      entries.zipIdx.any fun d => waits publicKey d.1 := Bool.false_or _
  rw [hsigned, hneeds]
  by_cases hany : (entries.zipIdx.any fun d => waits publicKey d.1) = true
  · have hread : context "invalid prepared tx xdr" (xdr.ofEnvelope prepared.txXdr) =
        .ok (.tx ⟨tx, []⟩) := by
      rw [h.envelope]
      rfl
    have hlength : (entries.zipIdx.map (patchEntry publicKey expiration sigs)).length =
        entries.length := by simp
    rw [if_pos hany, hread, Prover.ok_bind, h.patchAuthEntries_eq hlength, Prover.ok_bind]
    exact ⟨_, rfl, xdr.ofEnvelope_envelope _⟩
  · rw [if_neg hany, map_patchEntry_eq (Bool.eq_false_iff.mpr hany), h.withAuth_self]
    exact ⟨_, rfl, h.envelope⟩

section Signatures

variable {authSignatures : List (Nat × Signature)}

theorem mem_ofList_signatures {i : Nat} : i ∈ Std.TreeMap.ofList authSignatures ↔
    i ∈ authSignatures.map Prod.fst := by
  rw [Std.TreeMap.mem_ofList, List.contains_iff_mem]

variable (publicKey : Bytes32)

/-- The loop over the entries, with the signatures that were given. -/
theorem Prepared.foldlM_ok_iff
    (h : Prepared xdr source contract function args seqNum entries prepared tx) {st : AuthPatch} :
    prepared.authEntries.zipIdx.foldlM (AuthPatch.step xdr keys (keys.publicKeyString publicKey)
        publicKey (authExpirationLedger prepared)) ⟨.ofList authSignatures, false, []⟩ = .ok st ↔
      (∀ entry ∈ entries, printable entry = true) ∧
      (∀ i ∈ waiting publicKey entries.zipIdx, i ∈ authSignatures.map Prod.fst) ∧
      st = AuthPatch.after publicKey (authExpirationLedger prepared)
        ⟨.ofList authSignatures, false, []⟩ entries.zipIdx := by
  rw [foldlM_step_ok_iff publicKey (authExpirationLedger prepared) (decodes_zipIdx h.decoded 0)
    nodup_zipIdx_snd, forall_mem_zipIdx fun entry => printable entry = true]
  simp only [mem_ofList_signatures]

/-- What `unsigned_tx_for_signing` takes are signatures of the entries that wait, and the
unsigned transaction is the prepared one with these signatures in it. -/
theorem unsignedTxForSigning_ok
    (h : Prepared xdr source contract function args seqNum entries prepared tx) {text : Text}
    (hok : unsignedTxForSigning xdr keys prepared (keys.publicKeyString publicKey)
      authSignatures = .ok text) :
    (∀ entry ∈ entries, printable entry = true) ∧
    (∀ i, i ∈ authSignatures.map Prod.fst ↔ i ∈ waiting publicKey entries.zipIdx) ∧
    xdr.ofEnvelope text = .ok (.tx ⟨withAuth tx contract function args (entries.zipIdx.map
      (patchEntry publicKey (authExpirationLedger prepared) (.ofList authSignatures))), []⟩) := by
  unfold unsignedTxForSigning at hok
  rw [keys.publicKey_publicKeyString] at hok
  dsimp only at hok
  obtain ⟨st, hst, hok⟩ := exists_of_bind_ok hok
  obtain ⟨hall, hsigs, rfl⟩ := (h.foldlM_ok_iff publicKey).mp hst
  by_cases hempty : (AuthPatch.after publicKey (authExpirationLedger prepared)
      ⟨.ofList authSignatures, false, []⟩ entries.zipIdx).sigsByIndex.isEmpty = true
  · simp only [hempty, Bool.not_true, Bool.false_eq_true, if_false] at hok
    obtain ⟨text', htext', hread⟩ := h.finish rfl
    rw [htext'] at hok
    obtain rfl := Except.ok.inj hok
    refine ⟨hall, fun i => ⟨fun hi => ?_, hsigs i⟩, hread⟩
    exact isEmpty_after_iff.mp hempty i (mem_ofList_signatures.mpr hi)
  · simp only [hempty] at hok
    cases hok

/-- One signature for each entry that waits is enough. -/
theorem unsignedTxForSigning_of
    (h : Prepared xdr source contract function args seqNum entries prepared tx)
    (hall : ∀ entry ∈ entries, printable entry = true)
    (hsigs : ∀ i, i ∈ authSignatures.map Prod.fst ↔ i ∈ waiting publicKey entries.zipIdx) :
    ∃ text, unsignedTxForSigning xdr keys prepared (keys.publicKeyString publicKey)
        authSignatures = .ok text ∧
      xdr.ofEnvelope text = .ok (.tx ⟨withAuth tx contract function args (entries.zipIdx.map
        (patchEntry publicKey (authExpirationLedger prepared) (.ofList authSignatures))), []⟩) := by
  have hst : prepared.authEntries.zipIdx.foldlM (AuthPatch.step xdr keys
      (keys.publicKeyString publicKey) publicKey (authExpirationLedger prepared))
        ⟨.ofList authSignatures, false, []⟩ = .ok _ :=
    (h.foldlM_ok_iff publicKey).mpr ⟨hall, fun i => (hsigs i).mpr, rfl⟩
  have hempty : (AuthPatch.after publicKey (authExpirationLedger prepared)
      ⟨.ofList authSignatures, false, []⟩ entries.zipIdx).sigsByIndex.isEmpty = true :=
    isEmpty_after_iff.mpr fun i hi => (hsigs i).mp (mem_ofList_signatures.mp hi)
  obtain ⟨text, htext, hread⟩ := h.finish rfl
  refine ⟨text, ?_, hread⟩
  unfold unsignedTxForSigning
  rw [keys.publicKey_publicKeyString]
  dsimp only
  rw [hst, Prover.ok_bind]
  simp only [hempty, Bool.not_true, Bool.false_eq_true, if_false]
  exact htext

end Signatures

end Unsigned

/-! ## Envelopes -/

namespace LocalSigner

variable (signer : LocalSigner keys ed25519) (hashing : Hashing Text) (networkPassphrase : String)

/-- The verifying key. -/
def verifyingKey : Bytes32 := ed25519.verifyingKey signer.signingKey

/-- The signature of the signer on a transaction. -/
def decorated (tx : Transaction) : DecoratedSignature where
  hint := signer.verifyingKey.val.drop 28
  signature := (signer.signDigest (hashing.sha256
    (hashing.signaturePayload (hashing.networkId networkPassphrase) (.tx tx)))).val

theorem publicKey_parses : keys.publicKey signer.publicKey = some signer.verifyingKey := by
  rw [signer.publicKey_eq]
  exact keys.publicKey_publicKeyString _

/-- A v1 envelope has room for 20 signatures. -/
theorem signTransaction_ok_iff {v1 : TransactionV1Envelope} {signed : TransactionEnvelope} :
    signer.signTransaction hashing (.tx v1) networkPassphrase = .ok signed ↔
      v1.signatures.length < 20 ∧ signed = .tx { v1 with
        signatures := v1.signatures ++ [signer.decorated hashing networkPassphrase v1.tx] } := by
  unfold signTransaction
  rw [signer.publicKey_parses]
  dsimp only
  by_cases hroom : v1.signatures.length < 20
  · have hvec : context "attach tx signature" (vecM 20 (v1.signatures ++
        [signer.decorated hashing networkPassphrase v1.tx])) =
        .ok (v1.signatures ++ [signer.decorated hashing networkPassphrase v1.tx]) := by
      rw [vecM, if_pos (by rw [List.length_append, List.length_singleton]; omega)]
      rfl
    have hok : (do
        let signatures ← context "attach tx signature" (vecM 20 (v1.signatures ++
          [signer.decorated hashing networkPassphrase v1.tx]))
        return TransactionEnvelope.tx { v1 with signatures } : Except String _) =
        .ok (.tx { v1 with
          signatures := v1.signatures ++ [signer.decorated hashing networkPassphrase v1.tx] }) := by
      rw [hvec]
      rfl
    exact ⟨fun h => ⟨hroom, Except.ok.inj (h.symm.trans hok)⟩, fun h => h.2 ▸ hok⟩
  · refine ⟨fun h => ?_, fun h => absurd h.1 hroom⟩
    obtain ⟨signatures, hvec, -⟩ := exists_of_bind_ok h
    have hlength := (vecM_ok (context_ok hvec)).1
    rw [List.length_append, List.length_singleton] at hlength
    omega

/-- What the signer has signed verifies for its key, wherever the signature stands. -/
theorem verifyTx_decorated {v1 : TransactionV1Envelope} {i : Nat}
    (h : v1.signatures[i]? = some (signer.decorated hashing networkPassphrase v1.tx)) :
    verifyTx hashing keys ed25519 (.tx v1) networkPassphrase signer.publicKey i = .ok () := by
  have hlength : (signer.decorated hashing networkPassphrase v1.tx).signature.length = 64 :=
    (signer.signDigest _).property
  unfold verifyTx
  simp only [h, txHashForSignature, Prover.ok_bind, signer.publicKey_parses]
  rw [if_neg (fun hne => hne rfl), dif_pos hlength]
  have hkey := ed25519.fromBytes_verifyingKey signer.signingKey
  have hverify := ed25519.verify_sign signer.signingKey (hashing.sha256
    (hashing.signaturePayload (hashing.networkId networkPassphrase) (.tx v1.tx)))
  unfold verifyingKey
  rw [hkey]
  exact congrArg (Except.mapError _) hverify

/-- Signers that sign one after the other. -/
theorem foldlM_signTransaction_ok_iff (signers : List (LocalSigner keys ed25519)) {v1 : TransactionV1Envelope}
    {signed : TransactionEnvelope} :
    signers.foldlM (fun envelope signer =>
        signer.signTransaction hashing envelope networkPassphrase) (.tx v1) = .ok signed ↔
      (signers ≠ [] → v1.signatures.length + signers.length ≤ 20) ∧
      signed = .tx { v1 with
        signatures := v1.signatures ++ signers.map fun signer =>
          signer.decorated hashing networkPassphrase v1.tx } := by
  induction signers generalizing v1 with
  | nil =>
      rw [List.foldlM_nil, List.map_nil, List.append_nil]
      exact ⟨fun h => ⟨nofun, (Except.ok.inj h).symm⟩, fun h => h.2 ▸ rfl⟩
  | cons signer signers ih =>
      rw [List.foldlM_cons, List.map_cons, List.length_cons]
      constructor
      · intro h
        obtain ⟨next, hnext, h⟩ := exists_of_bind_ok h
        obtain ⟨hroom, rfl⟩ := (signer.signTransaction_ok_iff hashing networkPassphrase).mp hnext
        obtain ⟨hrest, rfl⟩ := ih.mp h
        refine ⟨fun _ => ?_, by rw [List.append_assoc]; rfl⟩
        cases signers with
        | nil => exact hroom
        | cons other others =>
            have hsum := hrest (List.cons_ne_nil _ _)
            simp only [List.length_append, List.length_cons, List.length_nil] at hsum ⊢
            omega
      · rintro ⟨hsum, rfl⟩
        have hsum := hsum (List.cons_ne_nil _ _)
        have hnext := (signer.signTransaction_ok_iff hashing networkPassphrase).mpr
          ⟨show v1.signatures.length < 20 by omega, rfl⟩
        rw [hnext, Prover.ok_bind, ih]
        refine ⟨fun _ => ?_, by rw [List.append_assoc]; rfl⟩
        simp only [List.length_append, List.length_cons, List.length_nil]
        omega

/-- **Signers in turn.** Each signature of an envelope covers the transaction alone, so
signers can sign one after the other: all succeed if the envelope has room, the signatures
that were there stay, and each new one verifies at its place. -/
theorem signed_in_turn (signers : List (LocalSigner keys ed25519)) (v1 : TransactionV1Envelope) :
    ((∃ signed, signers.foldlM (fun envelope signer =>
        signer.signTransaction hashing envelope networkPassphrase) (.tx v1) = .ok signed) ↔
      (signers ≠ [] → v1.signatures.length + signers.length ≤ 20)) ∧
    ∀ signed, signers.foldlM (fun envelope signer =>
        signer.signTransaction hashing envelope networkPassphrase) (.tx v1) = .ok signed →
      (∃ signatures, signed = .tx ⟨v1.tx, v1.signatures ++ signatures⟩ ∧
        signatures.length = signers.length) ∧
      ∀ i (signer : LocalSigner keys ed25519), signers[i]? = some signer →
        verifyTx hashing keys ed25519 signed networkPassphrase signer.publicKey
          (v1.signatures.length + i) = .ok () := by
  have hfold (signed : TransactionEnvelope) : signers.foldlM (fun envelope signer =>
      signer.signTransaction hashing envelope networkPassphrase) (.tx v1) = .ok signed ↔ _ :=
    foldlM_signTransaction_ok_iff hashing networkPassphrase signers
  refine ⟨⟨fun ⟨signed, hok⟩ => ((hfold signed).mp hok).1,
    fun hroom => ⟨_, (hfold _).mpr ⟨hroom, rfl⟩⟩⟩, ?_⟩
  intro signed hok
  obtain ⟨-, rfl⟩ := (hfold signed).mp hok
  refine ⟨⟨_, rfl, List.length_map _⟩, fun i signer hget => ?_⟩
  refine signer.verifyTx_decorated hashing networkPassphrase ?_
  rw [List.getElem?_append_right (Nat.le_add_right _ _), Nat.add_sub_cancel_left,
    List.getElem?_map, hget]
  rfl

/-- What the signer does to an entry. -/
def signedEntry (expiration : UInt32) (entry : SorobanAuthorizationEntry) :
    SorobanAuthorizationEntry :=
  if waits signer.verifyingKey entry then
    signEntry signer.verifyingKey expiration entry (signer.signAuthPreimage hashing
      (entryPreimage (hashing.networkId networkPassphrase) expiration entry))
  else entry

section Prepared

variable {source contract : Bytes32} {function : String} {args : List ScVal} {seqNum : Int64}
  {entries : List SorobanAuthorizationEntry} {prepared : PreparedSorobanTx Text} {tx : Transaction}

/-- The signatures that the signer makes for the steps. -/
def authSignatures (expiration : UInt32) (entries : List SorobanAuthorizationEntry) :
    List (Nat × Signature) :=
  (entries.zipIdx.filter fun d => waits signer.verifyingKey d.1).map fun d =>
    (d.2, signer.signAuthPreimage hashing
      (entryPreimage (hashing.networkId networkPassphrase) expiration d.1))

theorem authSignatures_get (expiration : UInt32) {d : SorobanAuthorizationEntry × Nat}
    (hd : d ∈ entries.zipIdx) (hwaits : waits signer.verifyingKey d.1 = true) :
    (Std.TreeMap.ofList (signer.authSignatures hashing networkPassphrase expiration entries))[d.2]? =
      some (signer.signAuthPreimage hashing
        (entryPreimage (hashing.networkId networkPassphrase) expiration d.1)) := by
  refine Std.TreeMap.getElem?_ofList_of_mem (compare_eq_iff_eq.mpr rfl) ?_ ?_
  · refine List.pairwise_map.mpr ((List.pairwise_map.mp nodup_zipIdx_snd).filter _ |>.imp ?_)
    exact fun hne heq => hne (compare_eq_iff_eq.mp heq)
  · exact List.mem_map.mpr ⟨d, List.mem_filter.mpr ⟨hd, hwaits⟩, rfl⟩

/-- With the signatures of the signer, each entry that waits is signed by it. -/
theorem map_patchEntry_authSignatures (expiration : UInt32) :
    entries.zipIdx.map (patchEntry signer.verifyingKey expiration
        (.ofList (signer.authSignatures hashing networkPassphrase expiration entries))) =
      entries.map (signer.signedEntry hashing networkPassphrase expiration) := by
  have hall : ∀ d ∈ entries.zipIdx, patchEntry signer.verifyingKey expiration
      (.ofList (signer.authSignatures hashing networkPassphrase expiration entries)) d =
        signer.signedEntry hashing networkPassphrase expiration d.1 := by
    intro d hd
    unfold patchEntry signedEntry
    by_cases hwaits : waits signer.verifyingKey d.1 = true
    · rw [if_pos hwaits, if_pos hwaits,
        signer.authSignatures_get hashing networkPassphrase expiration hd hwaits]
      rfl
    · rw [if_neg hwaits, if_neg hwaits]
  rw [List.map_congr_left hall]
  conv_rhs => rw [← List.zipIdx_map_fst 0 entries]
  rw [List.map_map]
  rfl

/-- A prepared transaction can be signed if all the owners of its entries can be printed. What
comes out is the prepared call with the entries signed, and one signature on it. -/
theorem signPreparedTransaction_ok_iff
    (h : Prepared xdr source contract function args seqNum entries prepared tx)
    {envelope : TransactionEnvelope} :
    signer.signPreparedTransaction hashing xdr prepared networkPassphrase signer.publicKey =
        .ok envelope ↔
      (∀ entry ∈ entries, printable entry = true) ∧
      ∃ signedTx, signedTx = withAuth tx contract function args (entries.map
          (signer.signedEntry hashing networkPassphrase (authExpirationLedger prepared))) ∧
        envelope = .tx ⟨signedTx, [signer.decorated hashing networkPassphrase signedTx]⟩ := by
  have hsteps (steps : List AuthSignStep) : authSignSteps xdr hashing keys prepared
      networkPassphrase (keys.publicKeyString signer.verifyingKey) = .ok steps ↔ _ :=
    authSignStepsLoop_ok_iff signer.verifyingKey (authExpirationLedger prepared)
      (decodes_zipIdx h.decoded 0) networkPassphrase
  rw [forall_mem_zipIdx fun entry => printable entry = true] at hsteps
  have hindices (i : Nat) : i ∈ (signer.authSignatures hashing networkPassphrase
      (authExpirationLedger prepared) entries).map Prod.fst ↔
      i ∈ waiting signer.verifyingKey entries.zipIdx := by
    rw [authSignatures, List.map_map]
    rfl
  have hkey : signer.publicKey = keys.publicKeyString signer.verifyingKey := signer.publicKey_eq
  unfold signPreparedTransaction
  rw [if_neg (fun hne => hne rfl), hkey]
  constructor
  · intro hok
    obtain ⟨steps, hok', hok⟩ := exists_of_bind_ok hok
    obtain ⟨hall, rfl⟩ := (hsteps steps).mp hok'
    rw [List.map_map] at hok
    obtain ⟨text, htext, hok⟩ := exists_of_bind_ok hok
    obtain ⟨unsigned, hread, hok⟩ := exists_of_bind_ok hok
    obtain ⟨-, -, hread'⟩ := unsignedTxForSigning_ok signer.verifyingKey h htext
    obtain rfl := Except.ok.inj ((context_ok hread).symm.trans hread')
    obtain ⟨-, rfl⟩ := (signer.signTransaction_ok_iff hashing networkPassphrase).mp hok
    refine ⟨hall, _, rfl, ?_⟩
    rw [← map_patchEntry_authSignatures]
    rfl
  · rintro ⟨hall, signedTx, rfl, rfl⟩
    obtain ⟨text, htext, hread⟩ := unsignedTxForSigning_of signer.verifyingKey h hall hindices
    have hcontext : context "invalid tx xdr" (xdr.ofEnvelope text) = _ :=
      congrArg (context "invalid tx xdr") hread
    rw [(hsteps _).mpr ⟨hall, rfl⟩, Prover.ok_bind, List.map_map]
    refine (congrArg (· >>= _) htext).trans ?_
    rw [Prover.ok_bind, hcontext, map_patchEntry_authSignatures]
    exact (signer.signTransaction_ok_iff hashing networkPassphrase).mpr ⟨by simp, rfl⟩

/-- The host accepts what the signer has signed. -/
theorem authorises_signedEntry
    (h : Prepared xdr source contract function args seqNum entries prepared tx)
    (expiration : UInt32) :
    List.Forall₂ (Authorises xdr hashing ed25519 (hashing.networkId networkPassphrase)
      signer.verifyingKey expiration) prepared.authEntries
        (entries.map (signer.signedEntry hashing networkPassphrase expiration)) := by
  rw [← map_patchEntry_authSignatures]
  refine authorises_patched h.decoded 0 fun d hd hwaits => ⟨_,
    signer.authSignatures_get hashing networkPassphrase expiration hd hwaits, ?_⟩
  exact ed25519.verify_sign _ _

end Prepared

end LocalSigner

/-! ## The call of the pool -/

section PoolTransact

variable {parseAddress : String → Option ScAddress} {node : NodeAnswers Text}
  {config : ContractConfig} {poolContractId : String} {input : PoolTransactInput}
  {prepared : PreparedSorobanTx Text}

/-- What is prepared for the pool is the call of its `transact`, whatever the node answers. -/
theorem preparePoolTransact_ok {sourceAccount : String}
    (h : preparePoolTransact xdr keys parseAddress node config poolContractId input sourceAccount =
      .ok prepared) :
    ∃ source contract args seqNum entries tx, keys.publicKey sourceAccount = some source ∧
      keys.contract poolContractId = some contract ∧
      poolTransactArgs parseAddress input sourceAccount = .ok args ∧
      accountSequence node sourceAccount = .ok seqNum ∧
      Prepared xdr source contract "transact" args seqNum entries prepared tx := by
  obtain ⟨_, -, h⟩ := exists_of_bind_ok h
  obtain ⟨args, hargs, h⟩ := exists_of_bind_ok h
  obtain ⟨source, contract, seqNum, entries, tx, hsource, hcontract, hseq, hprepared⟩ :=
    prepareInvoke_ok h
  exact ⟨source, contract, args, seqNum, entries, tx, hsource, hcontract, hargs, hseq, hprepared⟩

/-- The envelope calls `transact` of the pool with these arguments, from the account, with the
sequence number after the one that the node knows. -/
structure CallsPool (keys : Strkey) (node : NodeAnswers Text) (poolContractId sourceAccount : String)
    (args : List ScVal) (tx : Transaction) (auth : List SorobanAuthorizationEntry) : Prop where
  contract : ∃ contract, keys.contract poolContractId = some contract ∧
    tx.operations = [⟨none, .invokeHostFunction
      ⟨.invokeContract ⟨.contract contract, "transact", args⟩, auth⟩⟩]
  source : ∃ source, keys.publicKey sourceAccount = some source ∧
    tx.sourceAccount = .ed25519 source
  seqNum : accountSequence node sourceAccount = .ok tx.seqNum

theorem Prepared.callsPool {source contract : Bytes32} {args : List ScVal} {seqNum : Int64}
    {entries : List SorobanAuthorizationEntry} {tx : Transaction} {sourceAccount : String}
    (h : Prepared xdr source contract "transact" args seqNum entries prepared tx)
    (hsource : keys.publicKey sourceAccount = some source)
    (hcontract : keys.contract poolContractId = some contract)
    (hseq : accountSequence node sourceAccount = .ok seqNum)
    (auth : List SorobanAuthorizationEntry) :
    CallsPool keys node poolContractId sourceAccount args
      (withAuth tx contract "transact" args auth) auth where
  contract := ⟨contract, hcontract, rfl⟩
  source := ⟨source, hsource, h.sourceAccount⟩
  seqNum := by
    rw [hseq]
    exact congrArg Except.ok h.seqNum.symm

/-- The envelope calls the pool. It has one signature, which verifies, and the host accepts
every authorization that waited for the signer; the others are those of the simulation. -/
structure SignedCall (xdr : TxXdr Text) (hashing : Hashing Text) (node : NodeAnswers Text)
    (poolContractId : String) (signer : LocalSigner keys ed25519) (networkPassphrase : String)
    (args : List ScVal) (prepared : PreparedSorobanTx Text) (envelope : TransactionEnvelope) :
    Prop where
  call : ∃ tx auth signature, envelope = .tx ⟨tx, [signature]⟩ ∧
    CallsPool keys node poolContractId signer.publicKey args tx auth ∧
    List.Forall₂ (Authorises xdr hashing ed25519 (hashing.networkId networkPassphrase)
      signer.verifyingKey (authExpirationLedger prepared)) prepared.authEntries auth
  verifies : verifyTx hashing keys ed25519 envelope networkPassphrase signer.publicKey 0 = .ok ()

section Sign

variable {signer : LocalSigner keys ed25519} {networkPassphrase : String}
  (hprepare : preparePoolTransact xdr keys parseAddress node config poolContractId input
    signer.publicKey = .ok prepared)

include hprepare

/-- What a local signer makes of a prepared call of the pool. -/
theorem signedCall_of_sign {envelope : TransactionEnvelope}
    (hsign : signer.signPreparedTransaction hashing xdr prepared networkPassphrase
      signer.publicKey = .ok envelope) :
    ∃ args, poolTransactArgs parseAddress input signer.publicKey = .ok args ∧
      SignedCall xdr hashing node poolContractId signer networkPassphrase args prepared
        envelope := by
  obtain ⟨source, contract, args, seqNum, entries, tx, hsource, hcontract, hargs, hseq, h⟩ :=
    preparePoolTransact_ok hprepare
  obtain ⟨-, signedTx, rfl, rfl⟩ :=
    (signer.signPreparedTransaction_ok_iff hashing networkPassphrase h).mp hsign
  refine ⟨args, hargs, ⟨_, _, _, rfl, h.callsPool hsource hcontract hseq _, ?_⟩, ?_⟩
  · exact signer.authorises_signedEntry hashing networkPassphrase h (authExpirationLedger prepared)
  · exact signer.verifyTx_decorated hashing networkPassphrase rfl

/-- **What a local signer signs is the call it was asked for.** Whatever the node has answered,
a prepared call of the pool can be signed unless an authorization waits for an address that is
neither an account nor a contract. The signed envelope calls the pool with the client's
arguments, its signature verifies and its authorizations are accepted. -/
theorem signed_call :
    ((∃ envelope, signer.signPreparedTransaction hashing xdr prepared networkPassphrase
        signer.publicKey = .ok envelope) ↔
      ∀ text ∈ prepared.authEntries, ∀ entry, xdr.ofAuthEntry text = .ok entry →
        printable entry = true) ∧
    ∀ envelope, signer.signPreparedTransaction hashing xdr prepared networkPassphrase
        signer.publicKey = .ok envelope →
      ∃ args, poolTransactArgs parseAddress input signer.publicKey = .ok args ∧
        SignedCall xdr hashing node poolContractId signer networkPassphrase args prepared
          envelope := by
  obtain ⟨_, _, _, _, entries, _, -, -, -, -, h⟩ := preparePoolTransact_ok hprepare
  have hiff (envelope : TransactionEnvelope) : signer.signPreparedTransaction hashing xdr prepared
      networkPassphrase signer.publicKey = .ok envelope ↔ _ :=
    signer.signPreparedTransaction_ok_iff hashing networkPassphrase h
  have hdecoded := h.decoded
  refine ⟨⟨fun ⟨envelope, hsign⟩ text htext entry hentry => ?_, fun hall => ?_⟩,
    fun _ hsign => signedCall_of_sign hprepare hsign⟩
  · obtain ⟨entry', hmem, hentry'⟩ := State.exists_of_forall₂_flip hdecoded htext
    obtain rfl := Except.ok.inj (hentry.symm.trans hentry')
    exact ((hiff envelope).mp hsign).1 entry hmem
  · refine ⟨_, (hiff _).mpr ⟨fun entry hmem => ?_, _, rfl, rfl⟩⟩
    obtain ⟨text, htext, hentry⟩ := State.exists_of_forall₂ hdecoded hmem
    exact hall text htext entry hentry

end Sign

theorem insertMany_get {authSignatures : List (Nat × Signature)} {i : Nat} {signature : Signature} :
    ∀ {sigs : Std.TreeMap Nat Signature},
      (sigs.insertMany authSignatures)[i]? = some signature →
      (i, signature) ∈ authSignatures ∨ sigs[i]? = some signature := by
  induction authSignatures with
  | nil => exact fun h => .inr h
  | cons item authSignatures ih =>
      obtain ⟨j, other⟩ := item
      intro sigs h
      rw [Std.TreeMap.insertMany_cons] at h
      rcases ih h with hmem | hget
      · exact .inl (List.mem_cons_of_mem _ hmem)
      · rw [Std.TreeMap.getElem?_insert] at hget
        by_cases hij : compare j i = .eq
        · rw [if_pos hij] at hget
          rw [compare_eq_iff_eq.mp hij, Option.some.inj hget]
          exact .inl List.mem_cons_self
        · rw [if_neg hij] at hget
          exact .inr hget

/-- **The signatures of a wallet.** They are taken exactly if they are for the steps that were
asked for: each step has one and nothing else has one, in any order. If each verifies for the
preimage of its step, the host accepts every authorization that waited for the user, in the
call that was prepared. -/
theorem wallet_signatures {publicKey : Bytes32} {networkPassphrase : String}
    {steps : List AuthSignStep}
    (hprepare : preparePoolTransact xdr keys parseAddress node config poolContractId input
      (keys.publicKeyString publicKey) = .ok prepared)
    (hsteps : authSignSteps xdr hashing keys prepared networkPassphrase
      (keys.publicKeyString publicKey) = .ok steps) (authSignatures : List (Nat × Signature)) :
    ((∃ text, unsignedTxForSigning xdr keys prepared (keys.publicKeyString publicKey)
        authSignatures = .ok text) ↔
      ∀ i, i ∈ authSignatures.map Prod.fst ↔ i ∈ steps.map AuthSignStep.entryIndex) ∧
    ∀ text, unsignedTxForSigning xdr keys prepared (keys.publicKeyString publicKey)
        authSignatures = .ok text →
      (∀ step ∈ steps, ∀ signature, (step.entryIndex, signature) ∈ authSignatures →
        ed25519.verify publicKey (hashing.sha256 (hashing.preimageXdr step.preimage)) signature =
          .ok ()) →
      ∃ args tx auth,
        poolTransactArgs parseAddress input (keys.publicKeyString publicKey) = .ok args ∧
        CallsPool keys node poolContractId (keys.publicKeyString publicKey) args tx auth ∧
        xdr.ofEnvelope text = .ok (.tx ⟨tx, []⟩) ∧
        List.Forall₂ (Authorises xdr hashing ed25519 (hashing.networkId networkPassphrase)
          publicKey (authExpirationLedger prepared)) prepared.authEntries auth := by
  obtain ⟨source, contract, args, seqNum, entries, tx, hsource, hcontract, hargs, hseq, h⟩ :=
    preparePoolTransact_ok hprepare
  obtain ⟨hall, rfl⟩ := (authSignStepsLoop_ok_iff publicKey (authExpirationLedger prepared)
    (decodes_zipIdx h.decoded 0) networkPassphrase).mp hsteps
  rw [forall_mem_zipIdx fun entry => printable entry = true] at hall
  have hindices : ((entries.zipIdx.filter fun d => waits publicKey d.1).map fun d =>
      (⟨d.2, entryPreimage (hashing.networkId networkPassphrase) (authExpirationLedger prepared)
        d.1⟩ : AuthSignStep)).map AuthSignStep.entryIndex = waiting publicKey entries.zipIdx := by
    rw [List.map_map]
    rfl
  rw [hindices]
  refine ⟨⟨fun ⟨text, hok⟩ => (unsignedTxForSigning_ok publicKey h hok).2.1, fun hsigs => ?_⟩, ?_⟩
  · obtain ⟨text, hok, -⟩ := unsignedTxForSigning_of publicKey h hall hsigs
    exact ⟨text, hok⟩
  · intro text hok hverify
    obtain ⟨-, hsigs, hread⟩ := unsignedTxForSigning_ok publicKey h hok
    have hsigned : ∀ d ∈ entries.zipIdx, waits publicKey d.1 = true → ∃ signature,
        (Std.TreeMap.ofList authSignatures)[d.2]? = some signature ∧ ed25519.verify publicKey
          (hashing.sha256 (hashing.preimageXdr (entryPreimage (hashing.networkId networkPassphrase)
            (authExpirationLedger prepared) d.1))) signature = .ok () := by
      intro d hd hwaits
      have hwaiting : d ∈ entries.zipIdx.filter fun d => waits publicKey d.1 :=
        List.mem_filter.mpr ⟨hd, hwaits⟩
      obtain ⟨signature, hget⟩ := Option.isSome_iff_exists.mp
        (Std.TreeMap.mem_iff_isSome_getElem?.mp (mem_ofList_signatures.mpr
          ((hsigs d.2).mpr (List.mem_map.mpr ⟨d, hwaiting, rfl⟩))))
      refine ⟨signature, hget, hverify _ (List.mem_map.mpr ⟨d, hwaiting, rfl⟩) signature ?_⟩
      rw [Std.TreeMap.ofList_eq_insertMany_empty] at hget
      rcases insertMany_get hget with hin | hnone
      · exact hin
      · rw [Std.TreeMap.getElem?_emptyc] at hnone
        cases hnone
    exact ⟨args, _, _, hargs, h.callsPool hsource hcontract hseq _, hread,
      authorises_patched h.decoded 0 hsigned⟩

end PoolTransact

/-! ## A signed deposit -/

/-- The XDR values themselves, in place of their base64. -/
inductive ExampleText
  | envelope (envelope : TransactionEnvelope)
  | authEntry (entry : SorobanAuthorizationEntry)
  | sorobanData (data : SorobanTransactionData)
  | preimage (preimage : HashIdPreimage)

def exampleXdr : TxXdr ExampleText where
  envelope := .envelope
  ofEnvelope
    | .envelope envelope => .ok envelope
    | _ => .error "xdr value invalid"
  ofAuthEntry
    | .authEntry entry => .ok entry
    | _ => .error "xdr value invalid"
  ofSorobanData
    | .sorobanData data => .ok data
    | _ => .error "xdr value invalid"
  ofEnvelope_envelope _ := rfl

/-- The bytes of a key after a letter for its kind. -/
def exampleKeyString (kind : Char) (key : Bytes32) : String :=
  String.ofList (kind :: key.val.map fun byte => Char.ofNat byte.toNat)

def exampleKey (kind : Char) (text : String) : Option Bytes32 :=
  match text.toList with
  | c :: chars =>
      let bytes := chars.map fun c => UInt8.ofNat c.toNat
      if h : c = kind ∧ bytes.length = 32 then some ⟨bytes, h.2⟩ else none
  | [] => none

theorem exampleKey_exampleKeyString (kind : Char) (key : Bytes32) :
    exampleKey kind (exampleKeyString kind key) = some key := by
  have hbyte : ∀ byte : UInt8, UInt8.ofNat (Char.ofNat byte.toNat).toNat = byte := by
    intro byte
    have hall : ∀ n < 256, UInt8.ofNat (Char.ofNat n).toNat = UInt8.ofNat n := by decide +kernel
    rw [hall byte.toNat byte.toNat_lt, UInt8.ofNat_toNat]
  have hbytes : (key.val.map fun byte => Char.ofNat byte.toNat).map
      (fun c => UInt8.ofNat c.toNat) = key.val := by
    rw [List.map_map]
    exact (List.map_congr_left fun byte _ => hbyte byte).trans (List.map_id _)
  unfold exampleKey exampleKeyString
  rw [String.toList_ofList]
  dsimp only
  rw [dif_pos ⟨rfl, by rw [hbytes]; exact key.property⟩]
  exact congrArg some (Subtype.ext hbytes)

theorem exampleKey_other {kind other : Char} (h : kind ≠ other) (key : Bytes32) :
    exampleKey kind (exampleKeyString other key) = none := by
  unfold exampleKey exampleKeyString
  rw [String.toList_ofList]
  exact dif_neg fun hand => h hand.1.symm

def exampleKeys : Strkey where
  publicKey := exampleKey 'G'
  contract := exampleKey 'C'
  privateKey := exampleKey 'S'
  publicKeyString := exampleKeyString 'G'
  contractString := exampleKeyString 'C'
  publicKey_publicKeyString := exampleKey_exampleKeyString 'G'
  publicKey_contractString := exampleKey_other (by decide)

/-- A signature is the key and what it signs. -/
def exampleEd25519 : Ed25519 where
  verifyingKey key := key
  sign key digest := ⟨key.val ++ digest.val, by simp [key.property, digest.property]⟩
  fromBytes _ := .ok ()
  verify key digest signature :=
    if signature.val = key.val ++ digest.val then .ok () else .error "Verification equation was not satisfied"
  fromBytes_verifyingKey _ := rfl
  verify_sign _ _ := if_pos rfl

/-- A checksum in place of the hash. -/
def exampleHashing : Hashing ExampleText where
  sha256 bytes := ⟨List.replicate 32 (bytes.foldl (· + ·) 0), List.length_replicate⟩
  preimageXdr preimage := preimage.networkId.val ++
    [preimage.nonce.toInt.toNat.toUInt8, preimage.signatureExpirationLedger.toNat.toUInt8]
  preimageBase64 := .preimage
  signaturePayload networkId
    | .tx tx => networkId.val ++ [tx.seqNum.toInt.toNat.toUInt8, tx.fee.toNat.toUInt8]
    | .txV0 encoded | .txFeeBump encoded => networkId.val ++ encoded

def exampleBytes (byte : UInt8) : Bytes32 := ⟨List.ofFn fun _ => byte, List.length_ofFn⟩

def exampleSigner : LocalSigner exampleKeys exampleEd25519 :=
  ⟨exampleKeyString 'G' (exampleBytes 7), exampleBytes 7, rfl⟩

def examplePool : String := exampleKeyString 'C' (exampleBytes 2)

/-- The node wants an authorization of the depositor, for the transfer to the pool. -/
def exampleNode : NodeAnswers ExampleText where
  getAccount _ := .ok 3
  simulateTransaction _ := .ok {
    latestLedger := 50
    result := none
    results := [⟨[.authEntry ⟨.sourceAccount, .mk (.createContract []) []⟩,
      .authEntry ⟨.address ⟨.account (exampleBytes 7), 9, 0, none⟩,
        .mk (.contractFn ⟨.contract (exampleBytes 3), "transfer", []⟩) []⟩]⟩]
    transactionData := some (.sorobanData ⟨[], 0⟩)
    minResourceFee := some "500"
    error := none }

def exampleConfig : ContractConfig where
  aspMembership := ""
  aspMembershipDeploymentLedger := none
  aspNonMembership := ""
  publicKeyRegistry := ""
  pools := [⟨examplePool, 1, true⟩]

def exampleInput : PoolTransactInput where
  proofUncompressed := List.replicate 256 0
  extData := ⟨"recipient", ⟨6, by decide⟩, [], []⟩
  pub := ⟨1, fun _ => 2, 4, 5, 6, exampleBytes 0, 7, 8⟩

def exampleParse (_ : String) : Option ScAddress := some (.account (exampleBytes 7))

theorem examplePrepared :
    ∃ prepared, preparePoolTransact exampleXdr exampleKeys exampleParse exampleNode exampleConfig
      examplePool exampleInput exampleSigner.publicKey = .ok prepared ∧
      (exampleSigner.signPreparedTransaction exampleHashing exampleXdr prepared "Test"
        exampleSigner.publicKey).isOk = true := by
  have hisOk : (do
      let prepared ← preparePoolTransact exampleXdr exampleKeys exampleParse exampleNode
        exampleConfig examplePool exampleInput exampleSigner.publicKey
      exampleSigner.signPreparedTransaction exampleHashing exampleXdr prepared "Test"
        exampleSigner.publicKey).isOk = true := by
    decide +kernel
  cases hprepare : preparePoolTransact exampleXdr exampleKeys exampleParse exampleNode
      exampleConfig examplePool exampleInput exampleSigner.publicKey with
  | error e =>
      rw [hprepare] at hisOk
      cases hisOk
  | ok prepared =>
      rw [hprepare] at hisOk
      exact ⟨prepared, rfl, hisOk⟩

/-- The deposit is signed. -/
theorem signed_call_deposit :
    ∃ envelope auth, verifyTx exampleHashing exampleKeys exampleEd25519 envelope "Test"
        exampleSigner.publicKey 0 = .ok () ∧
      ∃ prepared : PreparedSorobanTx ExampleText,
        List.Forall₂ (Authorises exampleXdr exampleHashing exampleEd25519
          (exampleHashing.networkId "Test") exampleSigner.verifyingKey
          (authExpirationLedger prepared)) prepared.authEntries auth := by
  obtain ⟨prepared, hprepare, hisOk⟩ := examplePrepared
  cases hsign : exampleSigner.signPreparedTransaction exampleHashing exampleXdr prepared "Test"
      exampleSigner.publicKey with
  | error e =>
      rw [hsign] at hisOk
      cases hisOk
  | ok envelope =>
      obtain ⟨_, _, ⟨_, auth, _, -, -, hauth⟩, hverify⟩ := (signed_call hprepare).2 envelope hsign
      exact ⟨envelope, auth, hverify, prepared, hauth⟩

/-- A wallet with the key signs the deposit. -/
theorem wallet_signatures_deposit :
    ∃ text auth, ∃ prepared : PreparedSorobanTx ExampleText, ∃ tx,
      exampleXdr.ofEnvelope text = .ok (.tx ⟨tx, []⟩) ∧
      List.Forall₂ (Authorises exampleXdr exampleHashing exampleEd25519
        (exampleHashing.networkId "Test") (exampleBytes 7) (authExpirationLedger prepared))
        prepared.authEntries auth := by
  obtain ⟨prepared, hprepare, -⟩ := examplePrepared
  have hindices : (do
      let prepared ← preparePoolTransact exampleXdr exampleKeys exampleParse exampleNode
        exampleConfig examplePool exampleInput exampleSigner.publicKey
      let steps ← authSignSteps exampleXdr exampleHashing exampleKeys prepared "Test"
        exampleSigner.publicKey
      return steps.map AuthSignStep.entryIndex).toOption = some [1] := by
    decide +kernel
  rw [hprepare, Prover.ok_bind] at hindices
  cases hsteps : authSignSteps exampleXdr exampleHashing exampleKeys prepared "Test"
      exampleSigner.publicKey with
  | error e =>
      rw [hsteps] at hindices
      cases hindices
  | ok steps =>
      rw [hsteps] at hindices
      obtain ⟨step, rfl, hindex⟩ := List.map_eq_singleton_iff.mp (Option.some.inj hindices)
      have hwallet : _ ∧ ∀ text, _ → (∀ s ∈ [step], ∀ signature, (s.entryIndex, signature) ∈
          [(step.entryIndex, exampleSigner.signAuthPreimage exampleHashing step.preimage)] →
          exampleEd25519.verify (exampleBytes 7) (exampleHashing.sha256
            (exampleHashing.preimageXdr s.preimage)) signature = .ok ()) → _ :=
        wallet_signatures hprepare hsteps _
      obtain ⟨text, hok⟩ := hwallet.1.mpr fun i => Iff.rfl
      obtain ⟨_, tx, auth, -, -, hread, hauth⟩ := hwallet.2 text hok (by
        rintro s hs signature hsignature
        obtain rfl := List.mem_singleton.mp hs
        obtain ⟨-, rfl⟩ := Prod.ext_iff.mp (List.mem_singleton.mp hsignature)
        exact exampleEd25519.verify_sign _ _)
      exact ⟨text, auth, prepared, tx, hread, hauth⟩

end PrivatePayments.Stellar
