import PrivatePayments.Stellar.TxPrepare

/-!
# PrivatePayments.Stellar.Signer

The signatures of a prepared transaction (`stellar/src/signer.rs`). First the authorizations
of the user are signed and put into the envelope, then the envelope is signed. A wallet does
both outside; a local signer does it here.

SHA-256 and Ed25519 are parameters.
-/

namespace PrivatePayments.Stellar

/-! ## Keys, hashes and signatures -/

/-- `Signature` -/
abbrev Signature := { bytes : List UInt8 // bytes.length = 64 }

/-- What of the signature library is used here. All messages are digests. -/
structure Ed25519 where
  /-- The verifying key of a signing key. -/
  verifyingKey : Bytes32 → Bytes32
  sign : Bytes32 → Bytes32 → Signature
  /-- `VerifyingKey::from_bytes` -/
  fromBytes : Bytes32 → Except String Unit
  verify : Bytes32 → Bytes32 → Signature → Except String Unit
  fromBytes_verifyingKey : ∀ key, fromBytes (verifyingKey key) = .ok ()
  /-- The signature of a key verifies. -/
  verify_sign : ∀ key digest, verify (verifyingKey key) digest (sign key digest) = .ok ()

/-- `HashIdPreimage::SorobanAuthorization` -/
structure HashIdPreimage where
  networkId : Bytes32
  nonce : Int64
  signatureExpirationLedger : UInt32
  invocation : SorobanAuthorizedInvocation

/-- What is signed of an envelope: its transaction, without the signatures. -/
inductive TaggedTransaction
  | tx (tx : Transaction)
  | txV0 (encoded : List UInt8)
  | txFeeBump (encoded : List UInt8)

/-- What of SHA-256 and of the XDR library is used for signatures. -/
structure Hashing (Text : Type) where
  sha256 : List UInt8 → Bytes32
  preimageXdr : HashIdPreimage → List UInt8
  preimageBase64 : HashIdPreimage → Text
  /-- The XDR of a `TransactionSignaturePayload`. -/
  signaturePayload : Bytes32 → TaggedTransaction → List UInt8

variable {Text : Type}

/-- `network_id` -/
def Hashing.networkId (hashing : Hashing Text) (networkPassphrase : String) : Bytes32 :=
  hashing.sha256 networkPassphrase.toUTF8.toList

def TransactionEnvelope.tagged : TransactionEnvelope → TaggedTransaction
  | .tx v1 => .tx v1.tx
  | .txV0 encoded => .txV0 encoded
  | .txFeeBump encoded => .txFeeBump encoded

/-- `TransactionEnvelope::hash` -/
def TransactionEnvelope.hash (hashing : Hashing Text) (networkId : Bytes32)
    (envelope : TransactionEnvelope) : Bytes32 :=
  hashing.sha256 (hashing.signaturePayload networkId envelope.tagged)

/-- `LocalSigner` -/
structure LocalSigner (keys : Strkey) (ed25519 : Ed25519) where
  publicKey : String
  signingKey : Bytes32
  /-- The key that is shown is that of the signing key. -/
  publicKey_eq : publicKey = keys.publicKeyString (ed25519.verifyingKey signingKey)

/-- `LocalSigner::from_secret` -/
def LocalSigner.fromSecret (keys : Strkey) (ed25519 : Ed25519) (secret : String) :
    Except String (LocalSigner keys ed25519) :=
  match keys.privateKey secret with
  | none => .error "invalid secret key: the strkey is invalid"
  | some signingKey =>
      .ok ⟨keys.publicKeyString (ed25519.verifyingKey signingKey), signingKey, rfl⟩

/-! ## Authorizations -/

/-- `AUTH_EXPIRATION_LEDGERS` -/
def authExpirationLedgers : Nat := 100

/-- `auth_expiration_ledger`: a saturating sum. -/
def authExpirationLedger (prepared : PreparedSorobanTx Text) : UInt32 :=
  UInt32.ofNat (min (prepared.latestLedger.toNat + authExpirationLedgers) (2 ^ 32 - 1))

/-- `needs_wallet_auth` -/
def needsWalletAuth (keys : Strkey) (entry : SorobanAuthorizationEntry) (address : String) :
    Except String Bool :=
  match entry.credentials with
  | .sourceAccount => .ok false
  | .address creds =>
      match creds.signature with
      | some _ => .ok false
      | none => do
          let owner ← scvalToAddressString keys.publicKeyString keys.contractString
            (.address creds.address)
          return owner = address

/-- `soroban_auth_preimage` -/
def sorobanAuthPreimage (hashing : Hashing Text) (entry : SorobanAuthorizationEntry)
    (networkPassphrase : String) (expirationLedger : UInt32) : Except String HashIdPreimage :=
  match entry.credentials with
  | .sourceAccount => .error "soroban_auth_preimage requires address credentials"
  | .address creds =>
      .ok {
        networkId := hashing.networkId networkPassphrase
        nonce := creds.nonce
        signatureExpirationLedger := expirationLedger
        invocation := entry.rootInvocation }

/-- `address_credentials_signature` -/
def addressCredentialsSignature (publicKey : Bytes32) (signature : Signature) :
    Except String ScVal := do
  let publicKey ← mapEntry "public_key" (← bytesToScval publicKey.val)
  let signature ← mapEntry "signature" (← bytesToScval signature.val)
  let ed25519Sig ← sortedMap [publicKey, signature]
  vecScval [ed25519Sig]

/-- `apply_address_auth_signature` -/
def applyAddressAuthSignature (entry : SorobanAuthorizationEntry) (publicKey : Bytes32)
    (signature : Signature) (expirationLedger : UInt32) :
    Except String SorobanAuthorizationEntry :=
  match entry.credentials with
  | .sourceAccount => .error "apply_address_auth_signature requires address credentials"
  | .address creds =>
      match creds.signature with
      | some _ => .error "auth entry already signed"
      | none => do
          let signature ← addressCredentialsSignature publicKey signature
          return { entry with
            credentials := .address { creds with
              signatureExpirationLedger := expirationLedger
              signature := some signature } }

/-- `patch_auth_entries`: the first call of the operations gets the entries. -/
def patchOperations (signedAuth : List SorobanAuthorizationEntry) :
    List Operation → Except String (List Operation)
  | [] => .error "no invokeHostFunction operation found to attach auth entries"
  | op :: operations =>
      match op.body with
      | .invokeHostFunction invoke => do
          let auth ← context "attach signed auth entries" (vecM (2 ^ 32 - 1) signedAuth)
          return { op with body := .invokeHostFunction { invoke with auth } } :: operations
      | .other _ => do
          let operations ← patchOperations signedAuth operations
          return op :: operations

/-- `patch_auth_entries` -/
def patchAuthEntries (envelope : TransactionEnvelope)
    (signedAuth : List SorobanAuthorizationEntry) : Except String TransactionEnvelope :=
  match envelope with
  | .tx v1 => do
      let operations ← patchOperations signedAuth v1.tx.operations
      return .tx { v1 with tx := { v1.tx with operations } }
  | _ => .error "unsupported transaction envelope (expected v1)"

/-- `AuthSignStep` -/
structure AuthSignStep where
  entryIndex : Nat
  preimage : HashIdPreimage

/-- `wallet_preimage_b64` -/
def AuthSignStep.walletPreimageB64 (hashing : Hashing Text) (step : AuthSignStep) : Text :=
  hashing.preimageBase64 step.preimage

/-- The state of the loop in `unsigned_tx_for_signing`. -/
structure AuthPatch where
  sigsByIndex : Std.TreeMap Nat Signature
  needsPatch : Bool
  signedAuth : List SorobanAuthorizationEntry

section Sign

variable (xdr : TxXdr Text) (hashing : Hashing Text) (keys : Strkey)

/-- The loop of `auth_sign_steps`. -/
def authSignStepsLoop (networkPassphrase userAddress : String) (expiration : UInt32) :
    List (Text × Nat) → Except String (List AuthSignStep)
  | [] => .ok []
  | (entryB64, entryIndex) :: entries => do
      let entry ← context "invalid auth entry xdr" (xdr.ofAuthEntry entryB64)
      if ← needsWalletAuth keys entry userAddress then
        let preimage ← sorobanAuthPreimage hashing entry networkPassphrase expiration
        let steps ← authSignStepsLoop networkPassphrase userAddress expiration entries
        return ⟨entryIndex, preimage⟩ :: steps
      else
        authSignStepsLoop networkPassphrase userAddress expiration entries

/-- `auth_sign_steps` -/
def authSignSteps (prepared : PreparedSorobanTx Text) (networkPassphrase userAddress : String) :
    Except String (List AuthSignStep) :=
  authSignStepsLoop xdr hashing keys networkPassphrase userAddress (authExpirationLedger prepared)
    prepared.authEntries.zipIdx

/-- One entry in `unsigned_tx_for_signing`. -/
def AuthPatch.step (userAddress : String) (publicKey : Bytes32) (expiration : UInt32)
    (st : AuthPatch) (item : Text × Nat) : Except String AuthPatch := do
  let entry ← context "invalid auth entry xdr" (xdr.ofAuthEntry item.1)
  if ← needsWalletAuth keys entry userAddress then
    match st.sigsByIndex[item.2]? with
    | none => throw s!"missing auth signature for entry index {item.2}"
    | some signature =>
        let entry ← applyAddressAuthSignature entry publicKey signature expiration
        return {
          sigsByIndex := st.sigsByIndex.erase item.2
          needsPatch := true
          signedAuth := st.signedAuth ++ [entry] }
  else
    return { st with signedAuth := st.signedAuth ++ [entry] }

/-- `unsigned_tx_for_signing` -/
def unsignedTxForSigning (prepared : PreparedSorobanTx Text) (userAddress : String)
    (authSignatures : List (Nat × Signature)) : Except String Text :=
  match keys.publicKey userAddress with
  | none => .error "invalid user address strkey"
  | some publicKey => do
      let st ← prepared.authEntries.zipIdx.foldlM
        (AuthPatch.step xdr keys userAddress publicKey (authExpirationLedger prepared))
        ⟨.ofList authSignatures, false, []⟩
      if !st.sigsByIndex.isEmpty then
        throw "unexpected auth signatures for non-wallet auth entries"
      if st.needsPatch then
        let envelope ← context "invalid prepared tx xdr" (xdr.ofEnvelope prepared.txXdr)
        let envelope ← patchAuthEntries envelope st.signedAuth
        return xdr.envelope envelope
      else
        return prepared.txXdr

end Sign

/-! ## The local signer -/

namespace LocalSigner

variable {keys : Strkey} {ed25519 : Ed25519} (signer : LocalSigner keys ed25519)
  (hashing : Hashing Text)

/-- `sign_digest` -/
def signDigest (digest : Bytes32) : Signature := ed25519.sign signer.signingKey digest

/-- `sign` -/
def sign (data : List UInt8) : Signature := signer.signDigest (hashing.sha256 data)

/-- `sign_auth_preimage` -/
def signAuthPreimage (preimage : HashIdPreimage) : Signature :=
  signer.sign hashing (hashing.preimageXdr preimage)

/-- `sign_transaction` -/
def signTransaction (envelope : TransactionEnvelope) (networkPassphrase : String) :
    Except String TransactionEnvelope :=
  let txHash := envelope.hash hashing (hashing.networkId networkPassphrase)
  let signature := signer.signDigest txHash
  match keys.publicKey signer.publicKey with
  | none => .error "invalid signer public key strkey"
  | some publicKey =>
      let decorated : DecoratedSignature := ⟨publicKey.val.drop 28, signature.val⟩
      match envelope with
      | .tx v1 => do
          let signatures ← context "attach tx signature" (vecM 20 (v1.signatures ++ [decorated]))
          return .tx { v1 with signatures }
      | _ => .error "unsupported transaction envelope (expected v1)"

/-- `sign_prepared_transaction` -/
def signPreparedTransaction (xdr : TxXdr Text) (prepared : PreparedSorobanTx Text)
    (networkPassphrase userAddress : String) : Except String TransactionEnvelope :=
  if signer.publicKey ≠ userAddress then
    .error "secret key does not match user_address"
  else do
    let steps ← authSignSteps xdr hashing keys prepared networkPassphrase userAddress
    let authSignatures := steps.map fun step =>
      (step.entryIndex, signer.signAuthPreimage hashing step.preimage)
    let txB64 ← unsignedTxForSigning xdr keys prepared userAddress authSignatures
    let envelope ← context "invalid tx xdr" (xdr.ofEnvelope txB64)
    signer.signTransaction hashing envelope networkPassphrase

end LocalSigner

/-! ## Verification -/

/-- `tx_hash_for_signature` -/
def txHashForSignature (hashing : Hashing Text) (signedEnvelope : TransactionEnvelope)
    (networkPassphrase : String) (signatureIndex : Nat) : Except String Bytes32 :=
  match signedEnvelope with
  | .tx v1 =>
      let envelope : TransactionEnvelope :=
        .tx { v1 with signatures := v1.signatures.take signatureIndex }
      .ok (envelope.hash hashing (hashing.networkId networkPassphrase))
  | _ => .error "expected v1 envelope"

/-- `verify_tx` -/
def verifyTx (hashing : Hashing Text) (keys : Strkey) (ed25519 : Ed25519)
    (envelope : TransactionEnvelope) (networkPassphrase signerPublicKey : String)
    (signatureIndex : Nat) : Except String Unit :=
  match envelope with
  | .tx v1 =>
      match v1.signatures[signatureIndex]? with
      | none => .error "signature index out of range"
      | some decorated => do
          let txHash ← txHashForSignature hashing envelope networkPassphrase signatureIndex
          match keys.publicKey signerPublicKey with
          | none => throw "invalid signer public key strkey"
          | some publicKey =>
              if decorated.hint ≠ publicKey.val.drop 28 then
                throw "signature hint mismatch"
              if hlength : decorated.signature.length = 64 then
                (ed25519.fromBytes publicKey).mapError ("invalid verifying key: " ++ ·)
                (ed25519.verify publicKey txHash ⟨decorated.signature, hlength⟩).mapError
                  ("transaction signature invalid: " ++ ·)
              else
                throw "invalid signature length"
  | _ => .error "expected v1 envelope"

end PrivatePayments.Stellar
