import PrivatePayments.Stellar.Conversions
import PrivatePayments.Stellar.ExtDataHash
import PrivatePayments.Contracts.PublicKeyRegistry
import PrivatePayments.Prover.Flows

/-!
# PrivatePayments.Stellar.SorobanEncode

The arguments of `transact` and `register` (`stellar/src/soroban_encode.rs` and the pure part
of `stellar/src/tx_prepare.rs`), and what the contracts read from them. The client writes each
struct as a map that it sorts by name; the host hands a contract only a map that has exactly
the names of the struct, in order.
-/

namespace PrivatePayments

/-- The number of the host from the limbs of a `ScVal::U256`. -/
def U256.ofParts (parts : Stellar.UInt256Parts) : U256 :=
  Fin.ofNat u256Size (parts.hiHi.toNat * 2 ^ 192 + parts.hiLo.toNat * 2 ^ 128 +
    parts.loHi.toNat * 2 ^ 64 + parts.loLo.toNat)

theorem U256.ofParts_toParts (v : U256) : U256.ofParts v.toParts = v := by
  have hlt : v.val < 2 ^ 256 := v.isLt
  obtain ⟨h1, h2, h3, h4⟩ := Stellar.toParts_toNat v
  apply Fin.ext
  show (_ + _ + _ + _) % 2 ^ 256 = v.val
  rw [h1, h2, h3, h4]
  omega

namespace Stellar

/-! ## The client's side -/

/-- `groth16_proof_to_scval` -/
def groth16ProofToScval (proofUncompressed : List UInt8) : Except String ScVal :=
  if proofUncompressed.length ≠ 256 then
    .error s!"proof_uncompressed must be 256 bytes, got {proofUncompressed.length}"
  else do
    let a ← mapEntry "a" (← bytesToScval (proofUncompressed.take 64))
    let b ← mapEntry "b" (← bytesToScval ((proofUncompressed.drop 64).take 128))
    let c ← mapEntry "c" (← bytesToScval ((proofUncompressed.drop 192).take 64))
    sortedMap [a, b, c]

/-- `OnchainProofPublicInputs`; a `Field` wraps any 256-bit number. -/
structure OnchainProofPublicInputs where
  root : U256
  inputNullifiers : Fin 2 → U256
  outputCommitment0 : U256
  outputCommitment1 : U256
  publicAmount : U256
  extDataHashBe : Bytes32
  aspMembershipRoot : U256
  aspNonMembershipRoot : U256

/-- `xdr::ScVec::try_from` -/
def vecScval (items : List ScVal) : Except String ScVal :=
  if items.length < 2 ^ 32 then .ok (.vec items) else .error "length exceeds max"

/-- `pool_proof_to_scval` -/
def poolProofToScval (proofUncompressed : List UInt8) (root : U256) (inputNullifiers : List U256)
    (outputCommitment0 outputCommitment1 publicAmount : U256) (extDataHashBe : Bytes32)
    (aspMembershipRoot aspNonMembershipRoot : U256) : Except String ScVal := do
  let nullifiers ← vecScval (inputNullifiers.map fieldToScvalU256)
  let aspMembershipRoot ← mapEntry "asp_membership_root" (fieldToScvalU256 aspMembershipRoot)
  let aspNonMembershipRoot ←
    mapEntry "asp_non_membership_root" (fieldToScvalU256 aspNonMembershipRoot)
  let extDataHash ← mapEntry "ext_data_hash" (← bytesToScval extDataHashBe.val)
  let inputNullifiers ← mapEntry "input_nullifiers" nullifiers
  let outputCommitment0 ← mapEntry "output_commitment0" (fieldToScvalU256 outputCommitment0)
  let outputCommitment1 ← mapEntry "output_commitment1" (fieldToScvalU256 outputCommitment1)
  let proof ← mapEntry "proof" (← groth16ProofToScval proofUncompressed)
  let publicAmount ← mapEntry "public_amount" (fieldToScvalU256 publicAmount)
  let root ← mapEntry "root" (fieldToScvalU256 root)
  sortedMap [aspMembershipRoot, aspNonMembershipRoot, extDataHash, inputNullifiers,
    outputCommitment0, outputCommitment1, proof, publicAmount, root]

/-- `PoolTransactInput` -/
structure PoolTransactInput where
  proofUncompressed : List UInt8
  extData : ExtData
  pub : OnchainProofPublicInputs

variable (parseAddress : String → Option ScAddress)

/-- `register_account_to_scval` -/
def registerAccountToScval (owner : String) (encryptionKey noteKey : Bytes32) :
    Except String ScVal := do
  let encryptionKey ← mapEntry "encryption_key" (← bytesToScval encryptionKey.val)
  let noteKey ← mapEntry "note_key" (← bytesToScval noteKey.val)
  let owner ← mapEntry "owner" (← addressScval parseAddress owner)
  sortedMap [encryptionKey, noteKey, owner]

/-- `source_account.parse()?` of `prepare_pool_transact` -/
def senderScval (sourceAccount : String) : Except String ScVal :=
  match parseAddress sourceAccount with
  | some a => .ok (.address a)
  | none => .error "invalid source account: invalid address"

/-- The arguments of `transact` in `prepare_pool_transact`. -/
def poolTransactArgs (input : PoolTransactInput) (sourceAccount : String) :
    Except String (List ScVal) := do
  let proofScval ← poolProofToScval input.proofUncompressed input.pub.root
    (List.ofFn input.pub.inputNullifiers) input.pub.outputCommitment0 input.pub.outputCommitment1
    input.pub.publicAmount input.pub.extDataHashBe input.pub.aspMembershipRoot
    input.pub.aspNonMembershipRoot
  let extScval ← poolExtDataToScval parseAddress input.extData
  let senderScval ← senderScval parseAddress sourceAccount
  return [proofScval, extScval, senderScval]

/-! ## The contracts' side -/

/-- The values of a map with exactly these names, in order. -/
def unpackFields : List String → List (ScVal × ScVal) → Option (List ScVal)
  | [], [] => some []
  | name :: names, (.symbol name', v) :: entries =>
      if name = name' then (unpackFields names entries).map (v :: ·) else none
  | _, _ => none

/-- What the host does with a map that a contract unpacks as a struct. -/
def unpackMap (names : List String) : ScVal → Option (List ScVal)
  | .map entries => unpackFields names entries
  | _ => none

def u256OfScval : ScVal → Option U256
  | .u256 parts => some (U256.ofParts parts)
  | _ => none

/-- `Vec<U256>` -/
def u256VecOfScval : ScVal → Option (List U256)
  | .vec items => items.mapM u256OfScval
  | _ => none

/-- `BytesN<n>` -/
def bytesNOfScval (n : Nat) : ScVal → Option { bytes : List UInt8 // bytes.length = n }
  | .bytes bytes => if h : bytes.length = n then some ⟨bytes, h⟩ else none
  | _ => none

/-- `Bytes` -/
def bytesOfScval : ScVal → Option (List UInt8)
  | .bytes bytes => some bytes
  | _ => none

/-- `Groth16Proof`, from its values in the order of the names. -/
def groth16ProofOfFields : List ScVal → Option Pool.Groth16Proof
  | [a, b, c] => do
      let a ← bytesNOfScval 64 a
      let b ← bytesNOfScval 128 b
      let c ← bytesNOfScval 64 c
      return ⟨a.val, b.val, c.val⟩
  | _ => none

/-- `Groth16Proof` -/
def groth16ProofOfScval (v : ScVal) : Option Pool.Groth16Proof :=
  (unpackMap ["a", "b", "c"] v).bind groth16ProofOfFields

/-- The names of `Proof`, sorted. -/
def proofNames : List String :=
  ["asp_membership_root", "asp_non_membership_root", "ext_data_hash", "input_nullifiers",
   "output_commitment0", "output_commitment1", "proof", "public_amount", "root"]

/-- `Proof`, from its values in the order of the names. -/
def proofOfFields : List ScVal → Option Pool.Proof
  | [aspMembershipRoot, aspNonMembershipRoot, extDataHash, inputNullifiers, outputCommitment0,
      outputCommitment1, proof, publicAmount, root] => do
      let aspMembershipRoot ← u256OfScval aspMembershipRoot
      let aspNonMembershipRoot ← u256OfScval aspNonMembershipRoot
      let extDataHash ← bytesNOfScval 32 extDataHash
      let inputNullifiers ← u256VecOfScval inputNullifiers
      let outputCommitment0 ← u256OfScval outputCommitment0
      let outputCommitment1 ← u256OfScval outputCommitment1
      let proof ← groth16ProofOfScval proof
      let publicAmount ← u256OfScval publicAmount
      let root ← u256OfScval root
      return {
        proof := proof
        root := root
        inputNullifiers := inputNullifiers
        outputCommitment0 := outputCommitment0
        outputCommitment1 := outputCommitment1
        publicAmount := publicAmount
        extDataHash := U256.ofBeBytes extDataHash
        aspMembershipRoot := aspMembershipRoot
        aspNonMembershipRoot := aspNonMembershipRoot }
  | _ => none

/-- `Proof` -/
def proofOfScval (v : ScVal) : Option Pool.Proof := (unpackMap proofNames v).bind proofOfFields

variable (addresses : AddressTable)

/-- `Address` -/
def addressOfScval : ScVal → Option Pool.Address
  | .address a => addresses.ofScAddress a
  | _ => none

/-- The transaction that the pool is called with. -/
def transactionOfArgs : List ScVal → Option Pool.Transaction
  | [proof, extData, sender] => do
      let proof ← proofOfScval proof
      let extData ← extDataOfScval addresses extData
      let sender ← addressOfScval addresses sender
      return { proof, extData, sender }
  | _ => none

/-- `Account` of the registry, from its values in the order of the names. -/
def accountOfFields : List ScVal → Option PublicKeyRegistry.Account
  | [encryptionKey, noteKey, owner] => do
      let encryptionKey ← bytesOfScval encryptionKey
      let noteKey ← bytesOfScval noteKey
      let owner ← addressOfScval addresses owner
      return { owner, encryptionKey, noteKey }
  | _ => none

/-- `Account` of the registry. -/
def accountOfScval (v : ScVal) : Option PublicKeyRegistry.Account :=
  (unpackMap ["encryption_key", "note_key", "owner"] v).bind (accountOfFields addresses)

/-! ## Structs as maps -/

/-- The entries of a struct. -/
def symbolEntries (fields : List (String × ScVal)) : List (ScVal × ScVal) :=
  fields.map fun field => (.symbol field.1, field.2)

/-- Entries that are in order stay so. -/
theorem sortedMap_symbolEntries (fields : List (String × ScVal))
    (hsorted : (fields.map Prod.fst).Pairwise (· ≤ ·)) (hlen : fields.length < 2 ^ 32) :
    sortedMap (symbolEntries fields) = .ok (.map (symbolEntries fields)) := by
  have hpairwise : (symbolEntries fields).Pairwise fun a b => keyLe a.1 b.1 = true := by
    refine List.pairwise_map.mpr ((List.pairwise_map.mp hsorted).imp fun hle => ?_)
    exact decide_eq_true hle
  have hlen' : (symbolEntries fields).length < 2 ^ 32 := by rwa [symbolEntries, List.length_map]
  unfold sortedMap
  rw [hpairwise.insertionSort_eq]
  exact if_pos hlen'

/-- The host finds the values of a struct. -/
theorem unpackFields_symbolEntries (fields : List (String × ScVal)) :
    unpackFields (fields.map Prod.fst) (symbolEntries fields) = some (fields.map Prod.snd) := by
  induction fields with
  | nil => rfl
  | cons field fields ih =>
      show (if field.1 = field.1 then
        (unpackFields (fields.map Prod.fst) (symbolEntries fields)).map (field.2 :: ·)
        else none) = _
      rw [if_pos rfl, ih]
      rfl

theorem u256OfScval_fieldToScvalU256 (v : U256) : u256OfScval (fieldToScvalU256 v) = some v := by
  rw [fieldToScvalU256_eq]
  exact congrArg some (U256.ofParts_toParts v)

theorem u256VecOfScval_map (ns : List U256) :
    u256VecOfScval (.vec (ns.map fieldToScvalU256)) = some ns := by
  show (ns.map fieldToScvalU256).mapM u256OfScval = some ns
  induction ns with
  | nil => rfl
  | cons n ns ih =>
      rw [List.map_cons, List.mapM_cons, u256OfScval_fieldToScvalU256, ih]
      rfl

theorem bytesNOfScval_bytes {n : Nat} {bytes : List UInt8} (h : bytes.length = n) :
    bytesNOfScval n (.bytes bytes) = some ⟨bytes, h⟩ := dif_pos h

theorem bytesToScval_eq {bytes : List UInt8} (h : bytes.length < 2 ^ 32) :
    bytesToScval bytes = .ok (.bytes bytes) := if_pos h

/-! ## The proof -/

/-- The points of an uncompressed proof. -/
def groth16Fields (proofUncompressed : List UInt8) : List (String × ScVal) :=
  [("a", .bytes (proofUncompressed.take 64)), ("b", .bytes ((proofUncompressed.drop 64).take 128)),
   ("c", .bytes ((proofUncompressed.drop 192).take 64))]

section Proof

variable {proofUncompressed : List UInt8} (hlen : proofUncompressed.length = 256)

include hlen

theorem groth16ProofToScval_eq : groth16ProofToScval proofUncompressed =
    .ok (.map (symbolEntries (groth16Fields proofUncompressed))) := by
  have ha : (proofUncompressed.take 64).length < 2 ^ 32 := by simp
  have hb : ((proofUncompressed.drop 64).take 128).length < 2 ^ 32 := by simp
  have hc : ((proofUncompressed.drop 192).take 64).length < 2 ^ 32 := by simp
  unfold groth16ProofToScval
  rw [if_neg (not_not.mpr hlen)]
  simp only [bytesToScval_eq ha, bytesToScval_eq hb, bytesToScval_eq hc, Prover.ok_bind,
    mapEntry_eq (show ("a").utf8ByteSize ≤ 32 by decide +kernel),
    mapEntry_eq (show ("b").utf8ByteSize ≤ 32 by decide +kernel),
    mapEntry_eq (show ("c").utf8ByteSize ≤ 32 by decide +kernel)]
  refine sortedMap_symbolEntries (groth16Fields proofUncompressed) ?_ ?_
  · show ["a", "b", "c"].Pairwise (· ≤ ·)
    decide +kernel
  · simp [groth16Fields]

/-- The contract reads the points back. -/
theorem groth16ProofOfScval_eq :
    groth16ProofOfScval (.map (symbolEntries (groth16Fields proofUncompressed))) =
      some ⟨proofUncompressed.take 64, (proofUncompressed.drop 64).take 128,
        (proofUncompressed.drop 192).take 64⟩ := by
  have hunpack : unpackMap ["a", "b", "c"]
      (.map (symbolEntries (groth16Fields proofUncompressed))) =
        some ((groth16Fields proofUncompressed).map Prod.snd) :=
    unpackFields_symbolEntries (groth16Fields proofUncompressed)
  rw [groth16ProofOfScval, hunpack, Option.bind_some]
  show groth16ProofOfFields [_, _, _] = _
  rw [groth16ProofOfFields, bytesNOfScval_bytes (by simp; omega),
    bytesNOfScval_bytes (by simp; omega), bytesNOfScval_bytes (by simp; omega)]
  rfl

end Proof

/-- The fields of a proof with its public inputs. -/
def proofFields (proofUncompressed : List UInt8) (pub : OnchainProofPublicInputs) :
    List (String × ScVal) :=
  [("asp_membership_root", fieldToScvalU256 pub.aspMembershipRoot),
   ("asp_non_membership_root", fieldToScvalU256 pub.aspNonMembershipRoot),
   ("ext_data_hash", .bytes pub.extDataHashBe.val),
   ("input_nullifiers", .vec ((List.ofFn pub.inputNullifiers).map fieldToScvalU256)),
   ("output_commitment0", fieldToScvalU256 pub.outputCommitment0),
   ("output_commitment1", fieldToScvalU256 pub.outputCommitment1),
   ("proof", .map (symbolEntries (groth16Fields proofUncompressed))),
   ("public_amount", fieldToScvalU256 pub.publicAmount),
   ("root", fieldToScvalU256 pub.root)]

/-- The proof that the contract is called with. -/
def proofOf (proofUncompressed : List UInt8) (pub : OnchainProofPublicInputs) : Pool.Proof where
  proof := ⟨proofUncompressed.take 64, (proofUncompressed.drop 64).take 128,
    (proofUncompressed.drop 192).take 64⟩
  root := pub.root
  inputNullifiers := List.ofFn pub.inputNullifiers
  outputCommitment0 := pub.outputCommitment0
  outputCommitment1 := pub.outputCommitment1
  publicAmount := pub.publicAmount
  extDataHash := U256.ofBeBytes pub.extDataHashBe
  aspMembershipRoot := pub.aspMembershipRoot
  aspNonMembershipRoot := pub.aspNonMembershipRoot

theorem proofNames_sorted : proofNames.Pairwise (· ≤ ·) ∧
    ∀ name ∈ proofNames, name.utf8ByteSize ≤ 32 := by
  decide +kernel

section PoolProof

variable {proofUncompressed : List UInt8} (pub : OnchainProofPublicInputs)

theorem poolProofToScval_eq (hlen : proofUncompressed.length = 256) :
    poolProofToScval proofUncompressed pub.root (List.ofFn pub.inputNullifiers)
      pub.outputCommitment0 pub.outputCommitment1 pub.publicAmount pub.extDataHashBe
      pub.aspMembershipRoot pub.aspNonMembershipRoot =
      .ok (.map (symbolEntries (proofFields proofUncompressed pub))) := by
  obtain ⟨hsorted, hnames⟩ := proofNames_sorted
  have hvec : vecScval ((List.ofFn pub.inputNullifiers).map fieldToScvalU256) =
      .ok (.vec ((List.ofFn pub.inputNullifiers).map fieldToScvalU256)) :=
    if_pos (by simp)
  have hhash : bytesToScval pub.extDataHashBe.val = .ok (.bytes pub.extDataHashBe.val) :=
    bytesToScval_eq (by rw [pub.extDataHashBe.property]; decide)
  have hentry : ∀ name ∈ proofNames, ∀ val, mapEntry name val = .ok (.symbol name, val) :=
    fun name hname val => mapEntry_eq (hnames name hname) val
  simp only [proofNames, List.forall_mem_cons] at hentry
  obtain ⟨h1, h2, h3, h4, h5, h6, h7, h8, h9, -⟩ := hentry
  unfold poolProofToScval
  simp only [hvec, hhash, groth16ProofToScval_eq hlen, h1, h2, h3, h4, h5, h6, h7, h8, h9,
    Prover.ok_bind]
  exact sortedMap_symbolEntries (proofFields proofUncompressed pub) hsorted
    (by simp [proofFields])

/-- Another length is an error. -/
theorem poolProofToScval_length {v : ScVal}
    (h : poolProofToScval proofUncompressed pub.root (List.ofFn pub.inputNullifiers)
      pub.outputCommitment0 pub.outputCommitment1 pub.publicAmount pub.extDataHashBe
      pub.aspMembershipRoot pub.aspNonMembershipRoot = .ok v) : proofUncompressed.length = 256 := by
  by_contra hlen
  have hproof : groth16ProofToScval proofUncompressed =
      .error s!"proof_uncompressed must be 256 bytes, got {proofUncompressed.length}" :=
    if_pos hlen
  unfold poolProofToScval at h
  obtain ⟨_, -, h⟩ := Prover.exists_of_bind_ok h
  obtain ⟨_, -, h⟩ := Prover.exists_of_bind_ok h
  obtain ⟨_, -, h⟩ := Prover.exists_of_bind_ok h
  obtain ⟨_, -, h⟩ := Prover.exists_of_bind_ok h
  obtain ⟨_, -, h⟩ := Prover.exists_of_bind_ok h
  obtain ⟨_, -, h⟩ := Prover.exists_of_bind_ok h
  obtain ⟨_, -, h⟩ := Prover.exists_of_bind_ok h
  obtain ⟨_, -, h⟩ := Prover.exists_of_bind_ok h
  obtain ⟨_, hpoint, -⟩ := Prover.exists_of_bind_ok h
  rw [hproof] at hpoint
  cases hpoint

/-- The contract reads the proof back. -/
theorem proofOfScval_eq (hlen : proofUncompressed.length = 256) :
    proofOfScval (.map (symbolEntries (proofFields proofUncompressed pub))) =
      some (proofOf proofUncompressed pub) := by
  have hunpack : unpackMap proofNames (.map (symbolEntries (proofFields proofUncompressed pub))) =
      some ((proofFields proofUncompressed pub).map Prod.snd) :=
    unpackFields_symbolEntries (proofFields proofUncompressed pub)
  rw [proofOfScval, hunpack, Option.bind_some]
  show proofOfFields [_, _, _, _, _, _, _, _, _] = _
  simp only [proofOfFields, Option.bind_eq_bind, Option.bind_some, u256OfScval_fieldToScvalU256,
    u256VecOfScval_map, bytesNOfScval_bytes pub.extDataHashBe.property, groth16ProofOfScval_eq hlen]
  rfl

end PoolProof

/-! ## The arguments of a call -/

section Args

variable {parseAddress} {input : PoolTransactInput} {sourceAccount : String}

theorem extAmount_fits (n : ExtAmount) : -2 ^ 255 ≤ n.val ∧ n.val < 2 ^ 255 := by
  have hlow := n.property.1
  have hhigh := n.property.2
  omega

/-- The external data that the contract is called with. -/
def extDataOf (ext : ExtData) (recipient : Pool.Address) : Pool.ExtData where
  recipient := recipient
  extAmount := ⟨ext.extAmount.val, extAmount_fits ext.extAmount⟩
  encryptedOutput0 := ext.encryptedOutput0
  encryptedOutput1 := ext.encryptedOutput1

theorem extDataOf_extAmount (ext : ExtData) (recipient : Pool.Address) :
    (extDataOf ext recipient).extAmount.val = ext.extAmount.val :=
  Subtype.coe_mk ext.extAmount.val (extAmount_fits ext.extAmount)

theorem extDataOfScval_entries {ext : ExtData} {parts : Int256Parts} (a : ScAddress)
    (hparts : i128ToI256Scval ext.extAmount = .i256 parts) :
    extDataOfScval addresses
      (.map (extDataEntries ext.encryptedOutput0 ext.encryptedOutput1 parts a)) =
      (addresses.ofScAddress a).map (extDataOf ext) := by
  obtain ⟨parts', hparts', hval⟩ := i128ToI256Scval_eq ext.extAmount
  rw [hparts] at hparts'
  cases hparts'
  have hread : extDataOfScval addresses
      (.map (extDataEntries ext.encryptedOutput0 ext.encryptedOutput1 parts a)) =
      (addresses.ofScAddress a).map fun recipient =>
        { recipient, extAmount := I256.ofParts parts, encryptedOutput0 := ext.encryptedOutput0,
          encryptedOutput1 := ext.encryptedOutput1 } := by
    simp [extDataOfScval, extDataEntries]
  rw [hread]
  congr 1
  funext recipient
  have hamount : I256.ofParts parts = (extDataOf ext recipient).extAmount :=
    Subtype.ext (hval.trans (extDataOf_extAmount ext recipient).symm)
  rw [hamount]
  rfl

/-- What is written has fitted, and the recipient is an address. -/
theorem poolExtDataToScval_ok {ext : ExtData} {v : ScVal}
    (h : poolExtDataToScval parseAddress ext = .ok v) :
    (ext.encryptedOutput0.length < 2 ^ 32 ∧ ext.encryptedOutput1.length < 2 ^ 32) ∧
      ∃ a, parseAddress ext.recipient = some a := by
  constructor
  · by_contra hlong
    rw [(outputs_too_long (fun _ => []) (fun _ => ⟨List.replicate 32 0, List.length_replicate⟩)
      parseAddress hlong).1] at h
    cases h
  · unfold poolExtDataToScval at h
    obtain ⟨_, -, h⟩ := Prover.exists_of_bind_ok h
    obtain ⟨_, -, h⟩ := Prover.exists_of_bind_ok h
    obtain ⟨_, -, h⟩ := Prover.exists_of_bind_ok h
    obtain ⟨_, -, h⟩ := Prover.exists_of_bind_ok h
    obtain ⟨_, -, h⟩ := Prover.exists_of_bind_ok h
    obtain ⟨_, haddress, -⟩ := Prover.exists_of_bind_ok h
    unfold addressScval at haddress
    cases hparse : parseAddress ext.recipient with
    | some a => exact ⟨a, rfl⟩
    | none =>
        rw [hparse] at haddress
        cases haddress

/-- The arguments are written exactly if the proof has its length, the outputs fit and both
addresses are addresses. -/
theorem poolTransactArgs_ok_iff {args : List ScVal} :
    poolTransactArgs parseAddress input sourceAccount = .ok args ↔
      ∃ recipient sender parts, i128ToI256Scval input.extData.extAmount = .i256 parts ∧
        parseAddress input.extData.recipient = some recipient ∧
        parseAddress sourceAccount = some sender ∧
        input.proofUncompressed.length = 256 ∧
        input.extData.encryptedOutput0.length < 2 ^ 32 ∧
        input.extData.encryptedOutput1.length < 2 ^ 32 ∧
        args = [.map (symbolEntries (proofFields input.proofUncompressed input.pub)),
          .map (extDataEntries input.extData.encryptedOutput0 input.extData.encryptedOutput1 parts
            recipient), .address sender] := by
  obtain ⟨parts, hparts, -⟩ := i128ToI256Scval_eq input.extData.extAmount
  unfold poolTransactArgs
  constructor
  · intro h
    obtain ⟨proofScval, hproof, h⟩ := Prover.exists_of_bind_ok h
    obtain ⟨extScval, hext, h⟩ := Prover.exists_of_bind_ok h
    obtain ⟨_, hsender, h⟩ := Prover.exists_of_bind_ok h
    cases h
    unfold senderScval at hsender
    have hlen := poolProofToScval_length input.pub hproof
    obtain ⟨⟨h0, h1⟩, recipient, hrecipient⟩ := poolExtDataToScval_ok hext
    rw [poolProofToScval_eq input.pub hlen] at hproof
    rw [poolExtDataToScval_eq parseAddress h0 h1 hparts hrecipient] at hext
    cases hproof
    cases hext
    cases hparse : parseAddress sourceAccount with
    | none =>
        rw [hparse] at hsender
        cases hsender
    | some sender =>
        rw [hparse] at hsender
        cases hsender
        exact ⟨recipient, sender, parts, hparts, hrecipient, rfl, hlen, h0, h1, rfl⟩
  · rintro ⟨recipient, sender, parts', hparts', hrecipient, hsender, hlen, h0, h1, rfl⟩
    rw [poolProofToScval_eq input.pub hlen, Prover.ok_bind,
      poolExtDataToScval_eq parseAddress h0 h1 hparts' hrecipient, Prover.ok_bind, senderScval,
      hsender]
    rfl

end Args

/-- When the client builds the arguments of `transact`. -/
theorem poolTransactArgs_isOk_iff (input : PoolTransactInput) (sourceAccount : String) :
    (∃ args, poolTransactArgs parseAddress input sourceAccount = .ok args) ↔
      input.proofUncompressed.length = 256 ∧
      input.extData.encryptedOutput0.length < 2 ^ 32 ∧
      input.extData.encryptedOutput1.length < 2 ^ 32 ∧
      (parseAddress input.extData.recipient).isSome ∧ (parseAddress sourceAccount).isSome := by
  constructor
  · rintro ⟨args, hargs⟩
    obtain ⟨recipient, sender, parts, -, hrecipient, hsender, hlen, h0, h1, -⟩ :=
      poolTransactArgs_ok_iff.mp hargs
    exact ⟨hlen, h0, h1, by rw [hrecipient]; rfl, by rw [hsender]; rfl⟩
  · rintro ⟨hlen, h0, h1, hrecipient, hsender⟩
    obtain ⟨recipient, hrecipient⟩ := Option.isSome_iff_exists.mp hrecipient
    obtain ⟨sender, hsender⟩ := Option.isSome_iff_exists.mp hsender
    obtain ⟨parts, hparts, -⟩ := i128ToI256Scval_eq input.extData.extAmount
    exact ⟨_, poolTransactArgs_ok_iff.mpr
      ⟨recipient, sender, parts, hparts, hrecipient, hsender, hlen, h0, h1, rfl⟩⟩

/-- What the pool reads from the arguments of the client. -/
theorem transactionOfArgs_eq {input : PoolTransactInput} {sourceAccount : String}
    {args : List ScVal} (hargs : poolTransactArgs parseAddress input sourceAccount = .ok args) :
    transactionOfArgs addresses args =
      (do
        let recipient ← (parseAddress input.extData.recipient).bind addresses.ofScAddress
        let sender ← (parseAddress sourceAccount).bind addresses.ofScAddress
        return {
          proof := proofOf input.proofUncompressed input.pub
          extData := extDataOf input.extData recipient
          sender := sender }) := by
  obtain ⟨recipient, sender, parts, hparts, hrecipient, hsender, hlen, -, -, rfl⟩ :=
    poolTransactArgs_ok_iff.mp hargs
  simp only [transactionOfArgs, proofOfScval_eq input.pub hlen,
    extDataOfScval_entries addresses recipient hparts, addressOfScval, hrecipient, hsender,
    Option.bind_eq_bind, Option.bind_some, Option.bind_map]
  rfl

/-- The points of the proof, one after the other, are the bytes of the client. -/
theorem proofOf_append {proofUncompressed : List UInt8} (hlen : proofUncompressed.length = 256)
    (pub : OnchainProofPublicInputs) :
    (proofOf proofUncompressed pub).proof.a ++ (proofOf proofUncompressed pub).proof.b ++
      (proofOf proofUncompressed pub).proof.c = proofUncompressed := by
  show proofUncompressed.take 64 ++ (proofUncompressed.drop 64).take 128 ++
    (proofUncompressed.drop 192).take 64 = proofUncompressed
  have hrest : (proofUncompressed.drop 192).take 64 = (proofUncompressed.drop 64).drop 128 := by
    rw [List.drop_drop, List.take_of_length_le (by simp; omega)]
  rw [hrest, List.append_assoc, List.take_append_drop, List.take_append_drop]

/-- **What the client sends is what the pool is called with.** The client builds the arguments
of `transact` exactly if the proof has 256 bytes, the encrypted outputs fit into a contract
value and recipient and source are addresses. Then the host hands the pool the transaction of
these inputs, for any public inputs of 256 bits and any amount, if it can hold both addresses;
and the points of the proof, one after the other, are the bytes of the client. -/
theorem transact_args_round_trip (input : PoolTransactInput) (sourceAccount : String) :
    ((∃ args, poolTransactArgs parseAddress input sourceAccount = .ok args) ↔
      input.proofUncompressed.length = 256 ∧
      input.extData.encryptedOutput0.length < 2 ^ 32 ∧
      input.extData.encryptedOutput1.length < 2 ^ 32 ∧
      (parseAddress input.extData.recipient).isSome ∧ (parseAddress sourceAccount).isSome) ∧
    ∀ args, poolTransactArgs parseAddress input sourceAccount = .ok args →
      transactionOfArgs addresses args =
        (do
          let recipient ← (parseAddress input.extData.recipient).bind addresses.ofScAddress
          let sender ← (parseAddress sourceAccount).bind addresses.ofScAddress
          return {
            proof := proofOf input.proofUncompressed input.pub
            extData := extDataOf input.extData recipient
            sender := sender }) ∧
      (proofOf input.proofUncompressed input.pub).proof.a ++
        (proofOf input.proofUncompressed input.pub).proof.b ++
        (proofOf input.proofUncompressed input.pub).proof.c = input.proofUncompressed := by
  have hbuilds := poolTransactArgs_isOk_iff parseAddress input sourceAccount
  refine ⟨hbuilds, fun args hargs => ⟨transactionOfArgs_eq parseAddress addresses hargs, ?_⟩⟩
  exact proofOf_append (hbuilds.mp ⟨args, hargs⟩).1 input.pub

/-! ## Registration -/

/-- The entries of an account. -/
def accountFields (owner : ScAddress) (encryptionKey noteKey : Bytes32) : List (String × ScVal) :=
  [("encryption_key", .bytes encryptionKey.val), ("note_key", .bytes noteKey.val),
   ("owner", .address owner)]

theorem registerAccountToScval_eq {owner : String} {a : ScAddress}
    (ha : parseAddress owner = some a) (encryptionKey noteKey : Bytes32) :
    registerAccountToScval parseAddress owner encryptionKey noteKey =
      .ok (.map (symbolEntries (accountFields a encryptionKey noteKey))) := by
  have hencryption : bytesToScval encryptionKey.val = .ok (.bytes encryptionKey.val) :=
    bytesToScval_eq (by rw [encryptionKey.property]; decide)
  have hnote : bytesToScval noteKey.val = .ok (.bytes noteKey.val) :=
    bytesToScval_eq (by rw [noteKey.property]; decide)
  unfold registerAccountToScval
  simp only [hencryption, hnote, addressScval, ha, Prover.ok_bind,
    mapEntry_eq (show ("encryption_key").utf8ByteSize ≤ 32 by decide +kernel),
    mapEntry_eq (show ("note_key").utf8ByteSize ≤ 32 by decide +kernel),
    mapEntry_eq (show ("owner").utf8ByteSize ≤ 32 by decide +kernel)]
  refine sortedMap_symbolEntries (accountFields a encryptionKey noteKey) ?_ ?_
  · show ["encryption_key", "note_key", "owner"].Pairwise (· ≤ ·)
    decide +kernel
  · simp [accountFields]

theorem accountOfScval_eq (a : ScAddress) (encryptionKey noteKey : Bytes32) :
    accountOfScval addresses (.map (symbolEntries (accountFields a encryptionKey noteKey))) =
      (addresses.ofScAddress a).map fun owner => ⟨owner, encryptionKey.val, noteKey.val⟩ := by
  have hunpack : unpackMap ["encryption_key", "note_key", "owner"]
      (.map (symbolEntries (accountFields a encryptionKey noteKey))) =
        some ((accountFields a encryptionKey noteKey).map Prod.snd) :=
    unpackFields_symbolEntries (accountFields a encryptionKey noteKey)
  rw [accountOfScval, hunpack, Option.bind_some]
  show accountOfFields addresses [_, _, _] = _
  simp only [accountOfFields, bytesOfScval, addressOfScval, Option.bind_eq_bind, Option.bind_some]
  cases addresses.ofScAddress a with
  | none => rfl
  | some owner => rfl

/-- What a client registers is what the registry keeps for the owner, whatever it has kept. -/
theorem registered_as_sent {owner : String} {a : ScAddress} {x : Pool.Address}
    (ha : parseAddress owner = some a) (hx : addresses.ofScAddress a = some x)
    (encryptionKey noteKey : Bytes32) (s : PublicKeyRegistry.RegistryStorage) :
    ∃ v account s', registerAccountToScval parseAddress owner encryptionKey noteKey = .ok v ∧
      accountOfScval addresses v = some account ∧
      (PublicKeyRegistry.register true account).run s = .ok () s' ∧
      s'.registrations = Function.update s.registrations x
        (some ⟨encryptionKey.val, noteKey.val⟩) := by
  have hwritten := registerAccountToScval_eq parseAddress ha encryptionKey noteKey
  have hread := accountOfScval_eq addresses a encryptionKey noteKey
  rw [hx] at hread
  have hrun : (PublicKeyRegistry.register true ⟨x, encryptionKey.val, noteKey.val⟩).run s =
      (PublicKeyRegistry.storeRegistration ⟨x, encryptionKey.val, noteKey.val⟩).run s := by
    unfold PublicKeyRegistry.register PublicKeyRegistry.assertLength
    rw [if_pos encryptionKey.property, if_pos noteKey.property]
    rfl
  by_cases hsame : s.registrations x = some ⟨encryptionKey.val, noteKey.val⟩
  · refine ⟨_, _, s, hwritten, hread,
      hrun.trans (PublicKeyRegistry.storeRegistration_same hsame), ?_⟩
    rw [← hsame, Function.update_eq_self]
  · exact ⟨_, _, _, hwritten, hread,
      hrun.trans (PublicKeyRegistry.storeRegistration_other hsame), rfl⟩

end Stellar

end PrivatePayments
