import PrivatePayments.Stellar.ScVal
import PrivatePayments.Contracts.PoolSound
import PrivatePayments.Prover.Crypto

/-!
# PrivatePayments.Stellar.ExtDataHash

The hash of the external data (`stellar/src/ext_data_hash.rs`) and the public amount, on both
sides. The client assembles the map by hand; the contract decodes the map it is sent into its
`ExtData` and serialises that again.
-/

namespace PrivatePayments

/-! ## Numbers of the host -/

namespace I256

/-- The host's number from the limbs of a `ScVal::I256`. -/
def ofParts (parts : Stellar.Int256Parts) : I256 :=
  ⟨parts.hiHi.toInt * 2 ^ 192 + parts.hiLo.toNat * 2 ^ 128 + parts.loHi.toNat * 2 ^ 64 +
    parts.loLo.toNat, by
    have hlow := parts.hiHi.le_toInt
    have hhigh := parts.hiHi.toInt_lt
    have h1 := parts.hiLo.toNat_lt
    have h2 := parts.loHi.toNat_lt
    have h3 := parts.loLo.toNat_lt
    omega⟩

/-- The limbs of the host's number. -/
def toParts (v : I256) : Stellar.Int256Parts where
  hiHi := Int64.ofInt (v.val / 2 ^ 192)
  hiLo := UInt64.ofNat (v.val / 2 ^ 128 % 2 ^ 64).toNat
  loHi := UInt64.ofNat (v.val / 2 ^ 64 % 2 ^ 64).toNat
  loLo := UInt64.ofNat (v.val % 2 ^ 64).toNat

theorem toParts_ofParts (parts : Stellar.Int256Parts) : (ofParts parts).toParts = parts := by
  obtain ⟨hiHi, hiLo, loHi, loLo⟩ := parts
  have h1 := hiLo.toNat_lt
  have h2 := loHi.toNat_lt
  have h3 := loLo.toNat_lt
  have hhi : (hiHi.toInt * 2 ^ 192 + hiLo.toNat * 2 ^ 128 + loHi.toNat * 2 ^ 64 +
      loLo.toNat : Int) / 2 ^ 192 = hiHi.toInt := by omega
  have hlo1 : ((hiHi.toInt * 2 ^ 192 + hiLo.toNat * 2 ^ 128 + loHi.toNat * 2 ^ 64 +
      loLo.toNat : Int) / 2 ^ 128 % 2 ^ 64).toNat = hiLo.toNat := by omega
  have hlo2 : ((hiHi.toInt * 2 ^ 192 + hiLo.toNat * 2 ^ 128 + loHi.toNat * 2 ^ 64 +
      loLo.toNat : Int) / 2 ^ 64 % 2 ^ 64).toNat = loHi.toNat := by omega
  have hlo3 : ((hiHi.toInt * 2 ^ 192 + hiLo.toNat * 2 ^ 128 + loHi.toNat * 2 ^ 64 +
      loLo.toNat : Int) % 2 ^ 64).toNat = loLo.toNat := by omega
  simp only [toParts, ofParts, hhi, hlo1, hlo2, hlo3, Int64.ofInt_toInt, UInt64.ofNat_toNat]

end I256

namespace U256

/-- `U256::from_be_bytes` -/
def ofBeBytes (bytes : Bytes32) : U256 :=
  ⟨Prover.leValue bytes.val.reverse, by
    have hlt := Prover.leValue_lt bytes.val.reverse
    rw [List.length_reverse, bytes.property] at hlt
    exact lt_of_lt_of_le hlt (by decide)⟩

/-- `U256::to_be_bytes` -/
def toBeBytes (v : U256) : List UInt8 := (Prover.toLeBytes 32 v.val).reverse

end U256

/-! ## The contract's side -/

namespace Stellar

/-- The addresses that a contract can hold. -/
def ScAddress.isHost : ScAddress → Bool
  | .account _ => true
  | .contract _ => true
  | _ => false

/-- `soroban_sdk::Address`, a handle of the host. -/
structure AddressTable where
  scAddress : Pool.Address → ScAddress
  ofScAddress : ScAddress → Option Pool.Address
  ofScAddress_isSome : ∀ {a}, a.isHost = true → (ofScAddress a).isSome
  scAddress_of : ∀ {a x}, ofScAddress a = some x → scAddress x = a

variable (addresses : AddressTable)

/-- `ExtData` of the contract as a value. -/
def extDataToScval (ext : Pool.ExtData) : ScVal :=
  structScval
    [("recipient", .address (addresses.scAddress ext.recipient)),
     ("ext_amount", .i256 ext.extAmount.toParts),
     ("encrypted_output0", .bytes ext.encryptedOutput0),
     ("encrypted_output1", .bytes ext.encryptedOutput1)]

/-- The `ExtData` that the contract is called with. -/
def extDataOfScval : ScVal → Option Pool.ExtData
  | .map [(.symbol "encrypted_output0", .bytes encryptedOutput0),
      (.symbol "encrypted_output1", .bytes encryptedOutput1),
      (.symbol "ext_amount", .i256 parts), (.symbol "recipient", .address a)] =>
      (addresses.ofScAddress a).map fun recipient =>
        { recipient, extAmount := I256.ofParts parts, encryptedOutput0, encryptedOutput1 }
  | _ => none

variable (toXdr : ScVal → List UInt8) (keccak256 : List UInt8 → Bytes32)

/-- A host that serialises and hashes. -/
def xdrHost (host : Pool.Host) : Pool.Host :=
  { host with
    toXdr := fun ext => toXdr (extDataToScval addresses ext)
    keccak256 := fun payload => U256.ofBeBytes (keccak256 payload) }

/-! ## The client's side -/

variable (parseAddress : String → Option ScAddress)

/-- `hash_ext_data_offchain` -/
def hashExtDataOffchain (ext : ExtData) : Except String (List UInt8) := do
  let encryptedOutput0 ← bytesToScval ext.encryptedOutput0
  let encryptedOutput1 ← bytesToScval ext.encryptedOutput1
  let recipient ← addressScval parseAddress ext.recipient
  let entries := [("encrypted_output0", encryptedOutput0), ("encrypted_output1", encryptedOutput1),
    ("ext_amount", i128ToI256Scval ext.extAmount), ("recipient", recipient)]
  let entries := entries.insertionSort fun a b => a.1 ≤ b.1
  let mapEntries ← entries.mapM fun entry => mapEntry entry.1 entry.2
  let scMap ← if mapEntries.length < 2 ^ 32 then .ok mapEntries else .error "length exceeds max"
  let payload := toXdr (.map scMap)
  let digestU256 := U256.ofBeBytes (keccak256 payload)
  .ok digestU256.remEuclidModulus.toBeBytes

/-- `TryFrom<ExtAmount> for Field` -/
def fieldTryFromExtAmount (value : ExtAmount) : Except String Fr :=
  if 0 ≤ value.val then
    if h : value.val.toNat < bn256Modulus then .ok ⟨value.val.toNat, h⟩
    else .error "ext amount out of field range"
  else
    let abs := value.val.natAbs
    if abs ≥ bn256Modulus then .error "ext amount abs out of field range"
    else .ok (Fin.ofNat bn256Modulus (bn256Modulus - abs))

/-! ## Numbers -/

open Prover (toLeBytes leValue leValue_toLeBytes toLeBytes_add toLeBytes_mod)

/-- The halves of the bytes of an `i128` are its high and low limb. -/
theorem i128ToBeBytes_halves (n : ExtAmount) :
    ((u64FromBeBytes ((i128ToBeBytes n).take 8)).toNat : Int) = n.val % 2 ^ 128 / 2 ^ 64 ∧
      ((u64FromBeBytes ((i128ToBeBytes n).drop 8)).toNat : Int) = n.val % 2 ^ 128 % 2 ^ 64 := by
  obtain ⟨m, hm⟩ : ∃ m : Nat, n.val % 2 ^ 128 = m := ⟨(n.val % 2 ^ 128).toNat, by omega⟩
  have hlt : m < 2 ^ 128 := by omega
  have hbytes : i128ToBeBytes n = (toLeBytes 8 (m / 256 ^ 8)).reverse ++
      (toLeBytes 8 m).reverse := by
    rw [i128ToBeBytes, hm, Int.toNat_natCast, toLeBytes_add 8 8, List.reverse_append]
  have hhigh : leValue (toLeBytes 8 (m / 256 ^ 8)) = m / 2 ^ 64 :=
    leValue_toLeBytes (by omega)
  have hlow : leValue (toLeBytes 8 m) = m % 2 ^ 64 := by
    rw [← toLeBytes_mod]
    exact leValue_toLeBytes (Nat.mod_lt _ (by decide))
  rw [hbytes, List.take_left' (by simp), List.drop_left' (by simp), hm]
  unfold u64FromBeBytes
  rw [List.reverse_reverse, List.reverse_reverse, hhigh, hlow, UInt64.toNat_ofNat',
    UInt64.toNat_ofNat']
  constructor <;> omega

/-- The limbs of `i128_to_i256_scval` are those of the number. -/
theorem i128ToI256Scval_eq (n : ExtAmount) : ∃ parts, i128ToI256Scval n = .i256 parts ∧
    (I256.ofParts parts).val = n.val := by
  refine ⟨_, rfl, ?_⟩
  have hlow := n.property.1
  have hhigh := n.property.2
  obtain ⟨htop, hbottom⟩ := i128ToBeBytes_halves n
  simp only [I256.ofParts, htop, hbottom]
  by_cases hneg : n.val < 0
  · rw [if_pos hneg, show (-1 : Int64).toInt = -1 from rfl,
      show (-1 : Int64).toUInt64.toNat = 2 ^ 64 - 1 from rfl]
    omega
  · rw [if_neg hneg, show (0 : Int64).toInt = 0 from rfl,
      show (0 : Int64).toUInt64.toNat = 0 from rfl]
    omega

/-! ## Maps -/

/-- The entries of the external data, in order. -/
def extDataEntries (encryptedOutput0 encryptedOutput1 : List UInt8) (parts : Int256Parts)
    (a : ScAddress) : List (ScVal × ScVal) :=
  [(.symbol "encrypted_output0", .bytes encryptedOutput0),
   (.symbol "encrypted_output1", .bytes encryptedOutput1),
   (.symbol "ext_amount", .i256 parts), (.symbol "recipient", .address a)]

/-- The order of the field names. -/
theorem fieldNames_sorted :
    "encrypted_output0" ≤ "encrypted_output1" ∧ "encrypted_output1" ≤ "ext_amount" ∧
      "ext_amount" ≤ "recipient" ∧ ¬ "recipient" ≤ "ext_amount" ∧
      ¬ "recipient" ≤ "encrypted_output0" ∧ ¬ "ext_amount" ≤ "encrypted_output0" ∧
      ¬ "recipient" ≤ "encrypted_output1" ∧ ¬ "ext_amount" ≤ "encrypted_output1" := by
  decide +kernel

/-- The contract sorts its fields. -/
theorem extDataToScval_eq (ext : Pool.ExtData) :
    extDataToScval addresses ext = .map (extDataEntries ext.encryptedOutput0 ext.encryptedOutput1
      ext.extAmount.toParts (addresses.scAddress ext.recipient)) := by
  obtain ⟨h1, h2, h3, h4, h5, h6, h7, h8⟩ := fieldNames_sorted
  simp [extDataToScval, structScval, extDataEntries, List.insertionSort, List.orderedInsert, h1, h4,
    h5, h6, h7, h8]

theorem mapEntry_eq {key : String} (h : key.utf8ByteSize ≤ 32) (val : ScVal) :
    mapEntry key val = .ok (.symbol key, val) := by
  unfold mapEntry keySymbol
  rw [if_pos h]
  rfl

/-- The entries of the client are in the order of `sorted_map`. -/
theorem extDataEntries_insertionSort (encryptedOutput0 encryptedOutput1 : List UInt8)
    (parts : Int256Parts) (a : ScAddress) :
    (extDataEntries encryptedOutput0 encryptedOutput1 parts a).insertionSort
        (fun a b => keyLe a.1 b.1) =
      extDataEntries encryptedOutput0 encryptedOutput1 parts a := by
  obtain ⟨hs1, hs2, hs3, -⟩ := fieldNames_sorted
  simp [extDataEntries, List.insertionSort, List.orderedInsert, keyLe, hs1, hs2, hs3]

/-- The entries of the client are in the order of their names. -/
theorem hashEntries_insertionSort (encryptedOutput0 encryptedOutput1 extAmount recipient : ScVal) :
    [("encrypted_output0", encryptedOutput0), ("encrypted_output1", encryptedOutput1),
        ("ext_amount", extAmount), ("recipient", recipient)].insertionSort
        (fun a b => a.1 ≤ b.1) =
      [("encrypted_output0", encryptedOutput0), ("encrypted_output1", encryptedOutput1),
        ("ext_amount", extAmount), ("recipient", recipient)] := by
  obtain ⟨hs1, hs2, hs3, -⟩ := fieldNames_sorted
  simp [List.insertionSort, hs1, hs2, hs3]

section Client

variable {ext : ExtData} {parts : Int256Parts} {a : ScAddress}
  (h0 : ext.encryptedOutput0.length < 2 ^ 32) (h1 : ext.encryptedOutput1.length < 2 ^ 32)
  (hparts : i128ToI256Scval ext.extAmount = .i256 parts)
  (ha : parseAddress ext.recipient = some a)

include h0 h1 hparts ha

/-- The map that the client sends. -/
theorem poolExtDataToScval_eq : poolExtDataToScval parseAddress ext =
    .ok (.map (extDataEntries ext.encryptedOutput0 ext.encryptedOutput1 parts a)) := by
  simp only [poolExtDataToScval, bytesToScval, if_pos h0, if_pos h1, hparts, addressScval, ha,
    Prover.ok_bind, mapEntry_eq (show ("encrypted_output0").utf8ByteSize ≤ 32 by decide +kernel),
    mapEntry_eq (show ("encrypted_output1").utf8ByteSize ≤ 32 by decide +kernel),
    mapEntry_eq (show ("ext_amount").utf8ByteSize ≤ 32 by decide +kernel),
    mapEntry_eq (show ("recipient").utf8ByteSize ≤ 32 by decide +kernel)]
  unfold sortedMap
  rw [show [(ScVal.symbol "encrypted_output0", ScVal.bytes ext.encryptedOutput0),
    (.symbol "encrypted_output1", .bytes ext.encryptedOutput1),
    (.symbol "ext_amount", .i256 parts), (.symbol "recipient", .address a)] =
    extDataEntries ext.encryptedOutput0 ext.encryptedOutput1 parts a from rfl,
    extDataEntries_insertionSort]
  rfl

/-- The hash that the client computes is that of the same map. -/
theorem hashExtDataOffchain_eq : hashExtDataOffchain toXdr keccak256 parseAddress ext =
    .ok (U256.ofBeBytes (keccak256 (toXdr (.map (extDataEntries ext.encryptedOutput0
      ext.encryptedOutput1 parts a))))).remEuclidModulus.toBeBytes := by
  simp only [hashExtDataOffchain, bytesToScval, if_pos h0, if_pos h1, hparts, addressScval, ha,
    Prover.ok_bind, hashEntries_insertionSort, List.mapM_cons, List.mapM_nil,
    mapEntry_eq (show ("encrypted_output0").utf8ByteSize ≤ 32 by decide +kernel),
    mapEntry_eq (show ("encrypted_output1").utf8ByteSize ≤ 32 by decide +kernel),
    mapEntry_eq (show ("ext_amount").utf8ByteSize ≤ 32 by decide +kernel),
    mapEntry_eq (show ("recipient").utf8ByteSize ≤ 32 by decide +kernel)]
  rfl

end Client

/-- The hash is a canonical field element. -/
theorem hashExtDataOffchain_canonical {ext : ExtData} {be : List UInt8}
    (h : hashExtDataOffchain toXdr keccak256 parseAddress ext = .ok be) :
    be.length = 32 ∧ leValue be.reverse < bn256Modulus := by
  unfold hashExtDataOffchain at h
  obtain ⟨encryptedOutput0, -, h⟩ := Prover.exists_of_bind_ok h
  obtain ⟨encryptedOutput1, -, h⟩ := Prover.exists_of_bind_ok h
  obtain ⟨recipient, -, h⟩ := Prover.exists_of_bind_ok h
  obtain ⟨mapEntries, -, h⟩ := Prover.exists_of_bind_ok h
  dsimp only at h
  split at h
  · obtain ⟨scMap, -, h⟩ := Prover.exists_of_bind_ok h
    cases h
    have hlt := (U256.ofBeBytes (keccak256 (toXdr (.map scMap)))).toFr.isLt
    have hvalue := leValue_toLeBytes (hlt.trans (show bn256Modulus < 256 ^ 32 by decide))
    refine ⟨by simp [U256.toBeBytes], ?_⟩
    rw [U256.toBeBytes, List.reverse_reverse]
    exact lt_of_eq_of_lt hvalue hlt
  · cases h

/-- An output that is too long for a contract value is an error on the client. -/
theorem outputs_too_long {ext : ExtData}
    (h : ¬ (ext.encryptedOutput0.length < 2 ^ 32 ∧ ext.encryptedOutput1.length < 2 ^ 32)) :
    poolExtDataToScval parseAddress ext = .error "bytes too long for ScVal::Bytes" ∧
      hashExtDataOffchain toXdr keccak256 parseAddress ext =
        .error "bytes too long for ScVal::Bytes" := by
  unfold poolExtDataToScval hashExtDataOffchain bytesToScval
  by_cases h0 : ext.encryptedOutput0.length < 2 ^ 32
  · have h1 : ¬ ext.encryptedOutput1.length < 2 ^ 32 := fun h1 => h ⟨h0, h1⟩
    simp only [if_pos h0, if_neg h1, Prover.ok_bind,
      mapEntry_eq (show ("encrypted_output0").utf8ByteSize ≤ 32 by decide +kernel)]
    exact ⟨rfl, rfl⟩
  · simp only [if_neg h0]
    exact ⟨rfl, rfl⟩

/-! ## The public amount -/

theorem i256_neg {v : I256} (hneg : v.val < 0) (hlt : |v.val| < 2 ^ 248) :
    ∃ w, I256.zero.sub v = some w ∧ w.val = -v.val := by
  rw [abs_of_neg hneg] at hlt
  have hbounds : -2 ^ 255 ≤ (0 : Int) - v.val ∧ (0 : Int) - v.val < 2 ^ 255 := by omega
  refine ⟨⟨0 - v.val, hbounds⟩, dif_pos hbounds, ?_⟩
  simp

theorem i256AbsToU256_run {v : I256} (hlt : |v.val| < 2 ^ 248) (s : Pool.PoolStorage) :
    ∃ a, (Pool.i256AbsToU256 v).run s = .ok a s := by
  unfold Pool.i256AbsToU256
  by_cases hv : v.val ≥ 0
  · rw [if_pos hv]
    exact ⟨_, rfl⟩
  · obtain ⟨w, hsub, -⟩ := i256_neg (by omega) hlt
    rw [if_neg hv, hsub, Contract.hostCall_some]
    exact ⟨_, rfl⟩

/-- Amounts below the limit are accepted. -/
theorem calculatePublicAmount_run {v : I256} (hlt : |v.val| < 2 ^ 248) (s : Pool.PoolStorage) :
    ∃ a, (Pool.calculatePublicAmount v).run s = .ok a s := by
  obtain ⟨abs, habs⟩ := i256AbsToU256_run hlt s
  have habsVal := (Pool.i256AbsToU256_ok habs).2
  unfold Pool.calculatePublicAmount
  rw [Contract.run_bind_of_ok habs, Contract.failIf_neg (by
    rw [Pool.maxExtAmount_val]
    omega)]
  by_cases hv : v.val ≥ 0
  · rw [if_pos hv]
    exact ⟨_, rfl⟩
  · obtain ⟨w, hsub, hw⟩ := i256_neg (by omega) hlt
    have hbits := Pool.toU256Bits_val (v := w) (by omega)
    rw [abs_of_neg (by omega)] at hlt
    have hle : w.toU256Bits.val ≤ (Fin.ofNat u256Size bn256Modulus).val := by
      rw [show (Fin.ofNat u256Size bn256Modulus).val = bn256Modulus by decide]
      unfold bn256Modulus
      omega
    have hchecked : U256.checkedSub (Fin.ofNat u256Size bn256Modulus) w.toU256Bits =
        some (Fin.ofNat u256Size bn256Modulus - w.toU256Bits) := if_pos hle
    rw [if_neg hv, hsub, Contract.hostCall_some, pure_bind, pure_bind, hchecked]
    exact ⟨_, rfl⟩

/-- The client's field element of an amount. -/
theorem fieldTryFromExtAmount_eq (n : ExtAmount) : ∃ f : Fr,
    fieldTryFromExtAmount n = .ok f ∧ (f.val : Int) = Pool.encodeAmount n.val := by
  have hlow := n.property.1
  have hhigh := n.property.2
  unfold fieldTryFromExtAmount Pool.encodeAmount
  by_cases hn : 0 ≤ n.val
  · have hlt : n.val.toNat < bn256Modulus := by
      unfold bn256Modulus
      omega
    rw [if_pos hn, if_pos hn, dif_pos hlt]
    exact ⟨_, rfl, by simp only; omega⟩
  · have hlt : ¬ n.val.natAbs ≥ bn256Modulus := by
      unfold bn256Modulus
      omega
    rw [if_neg hn, if_neg hn]
    simp only [if_neg hlt]
    refine ⟨_, rfl, ?_⟩
    have hval : (Fin.ofNat bn256Modulus (bn256Modulus - n.val.natAbs)).val =
        bn256Modulus - n.val.natAbs := Nat.mod_eq_of_lt (by omega)
    rw [hval]
    omega

/-- Accepted amounts are told apart. -/
theorem encodeAmount_inj {v w : Int} (hv : |v| < 2 ^ 248) (hw : |w| < 2 ^ 248)
    (h : Pool.encodeAmount v = Pool.encodeAmount w) : v = w := by
  rw [abs_lt] at hv hw
  unfold Pool.encodeAmount at h
  unfold bn256Modulus at h
  split at h <;> split at h <;> omega

/-! ## Agreement -/

/-- **Client and contract agree.** The hash that the client computes is the hash that the pool
computes of the `ExtData` it is sent, for every amount and any two outputs that fit into a
contract value; the client's public amount is the contract's; and the contract's public
amount determines the amount. -/
theorem client_agrees (host : Pool.Host) :
    (∀ {ext : ExtData} {a : ScAddress}, parseAddress ext.recipient = some a → a.isHost = true →
      (ext.encryptedOutput0.length < 2 ^ 32 ∧ ext.encryptedOutput1.length < 2 ^ 32 →
        ∃ v e, poolExtDataToScval parseAddress ext = .ok v ∧
          extDataOfScval addresses v = some e ∧ addresses.scAddress e.recipient = a ∧
          e.extAmount.val = ext.extAmount.val ∧ e.encryptedOutput0 = ext.encryptedOutput0 ∧
          e.encryptedOutput1 = ext.encryptedOutput1 ∧
          hashExtDataOffchain toXdr keccak256 parseAddress ext =
            .ok (Pool.hashExtData (xdrHost addresses toXdr keccak256 host) e).toBeBytes) ∧
      (¬ (ext.encryptedOutput0.length < 2 ^ 32 ∧ ext.encryptedOutput1.length < 2 ^ 32) →
        poolExtDataToScval parseAddress ext = .error "bytes too long for ScVal::Bytes" ∧
        hashExtDataOffchain toXdr keccak256 parseAddress ext =
          .error "bytes too long for ScVal::Bytes")) ∧
    (∀ n : ExtAmount, ∃ f, fieldTryFromExtAmount n = .ok f ∧
      ∀ (v : I256) (s : Pool.PoolStorage), v.val = n.val →
        (Pool.calculatePublicAmount v).run s = .ok f.toU256 s) ∧
    ∀ {v w : I256} {amount : U256} {s s' t t' : Pool.PoolStorage},
      (Pool.calculatePublicAmount v).run s = .ok amount s' →
      (Pool.calculatePublicAmount w).run t = .ok amount t' → v = w := by
  refine ⟨fun {ext a} ha hhost => ⟨fun hlen => ?_, outputs_too_long toXdr keccak256 parseAddress⟩,
    fun n => ?_, fun {v w amount s s' t t'} hv hw => ?_⟩
  · obtain ⟨parts, hparts, hval⟩ := i128ToI256Scval_eq ext.extAmount
    obtain ⟨recipient, hrecipient⟩ :=
      Option.isSome_iff_exists.mp (addresses.ofScAddress_isSome hhost)
    have haddress := addresses.scAddress_of hrecipient
    refine ⟨_, ⟨recipient, I256.ofParts parts, ext.encryptedOutput0, ext.encryptedOutput1⟩,
      poolExtDataToScval_eq parseAddress hlen.1 hlen.2 hparts ha, ?_, haddress, hval, rfl, rfl, ?_⟩
    · simp [extDataOfScval, extDataEntries, hrecipient]
    · rw [hashExtDataOffchain_eq toXdr keccak256 parseAddress hlen.1 hlen.2 hparts ha]
      unfold Pool.hashExtData xdrHost
      simp only [extDataToScval_eq, I256.toParts_ofParts, haddress]
  · obtain ⟨f, hf, hfval⟩ := fieldTryFromExtAmount_eq n
    refine ⟨f, hf, fun v s hvn => ?_⟩
    have hlow := n.property.1
    have hhigh := n.property.2
    have hlt : |v.val| < 2 ^ 248 := abs_lt.mpr (by omega)
    obtain ⟨amount, hrun⟩ := calculatePublicAmount_run hlt s
    have hamount := (Pool.calculatePublicAmount_ok hrun).2.2
    have heq : amount = f.toU256 := by
      apply Fin.ext
      rw [Fr.toU256_val]
      rw [hvn, ← hfval] at hamount
      exact_mod_cast hamount
    rw [hrun, heq]
  · obtain ⟨-, hvlt, hvamount⟩ := Pool.calculatePublicAmount_ok hv
    obtain ⟨-, hwlt, hwamount⟩ := Pool.calculatePublicAmount_ok hw
    exact Subtype.ext (encodeAmount_inj hvlt hwlt (hvamount.symm.trans hwamount))

/-- Handles that number the accounts and the contracts in turn. -/
def exampleAddresses : AddressTable where
  scAddress x :=
    if x % 2 = 0 then .account ⟨toLeBytes 32 (x / 2), by simp⟩
    else .contract ⟨toLeBytes 32 (x / 2), by simp⟩
  ofScAddress
    | .account key => some (2 * leValue key.val)
    | .contract id => some (2 * leValue id.val + 1)
    | _ => none
  ofScAddress_isSome := by
    intro a ha
    cases a <;> first | rfl | cases ha
  scAddress_of := by
    intro a x hx
    have hbytes (key : Bytes32) : toLeBytes 32 (leValue key.val) = key.val := by
      have hlen := Prover.toLeBytes_leValue key.val
      rwa [key.property] at hlen
    cases a with
    | account key =>
        obtain rfl := Option.some.inj hx
        have hparity : 2 * leValue key.val % 2 = 0 := by omega
        rw [if_pos hparity]
        congr
        rw [Nat.mul_div_cancel_left _ (by decide), hbytes]
    | contract id =>
        obtain rfl := Option.some.inj hx
        have hparity : ¬ (2 * leValue id.val + 1) % 2 = 0 := by omega
        rw [if_neg hparity]
        congr
        rw [show (2 * leValue id.val + 1) / 2 = leValue id.val by omega, hbytes]
    | muxedAccount id key => cases hx
    | claimableBalance id => cases hx
    | liquidityPool id => cases hx

/-- A withdrawal of 42 to the account whose key is zero. -/
def exampleExtData : ExtData where
  recipient := "GAAAAAAAAAAAAAAAAAAAAAAAAAAAAAAAAAAAAAAAAAAAAAAAAAAAAWHF"
  extAmount := ⟨-42, by decide⟩
  encryptedOutput0 := [1, 2, 3]
  encryptedOutput1 := [4, 5]

theorem client_agrees_example :
    let parse := fun s : String =>
      if s = exampleExtData.recipient then
        some (ScAddress.account ⟨List.replicate 32 0, List.length_replicate⟩)
      else none
    let keccak : List UInt8 → Bytes32 := fun _ => ⟨List.replicate 32 7, List.length_replicate⟩
    ∃ v e, poolExtDataToScval parse exampleExtData = .ok v ∧
      extDataOfScval exampleAddresses v = some e ∧ e.extAmount.val = -42 ∧
      hashExtDataOffchain (fun _ => []) keccak parse exampleExtData =
        .ok (Pool.hashExtData (xdrHost exampleAddresses (fun _ => []) keccak
          ⟨fun _ => [], fun _ => 0, fun _ _ _ => none⟩) e).toBeBytes := by
  intro parse keccak
  have hparse : parse exampleExtData.recipient = some (.account _) := if_pos rfl
  obtain ⟨v, e, hv, he, -, hamount, -, -, hhash⟩ :=
    ((client_agrees exampleAddresses (fun _ => []) keccak parse
      ⟨fun _ => [], fun _ => 0, fun _ _ _ => none⟩).1 hparse rfl).1 ⟨by decide, by decide⟩
  exact ⟨v, e, hv, he, hamount, hhash⟩

end Stellar

end PrivatePayments
