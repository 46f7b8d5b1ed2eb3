import PrivatePayments.Disclosure.Verify

/-!
# PrivatePayments.Disclosure.Canonical

Every string that `parse_0x_hex` accepts is the only accepted spelling of its bytes. With the
injective encoding of a context, the bytes that are hashed determine every field of it, and a
payload has one context that names it.
-/

namespace PrivatePayments.Disclosure

open Prover (hexDigit hexByte exists_of_bind_ok mapError_ok)

/-! ## Digits -/

/-- The byte of a digit, in lower case. -/
def digitByte (d : UInt8) : UInt8 := if d < 10 then 48 + d else 87 + d

theorem utf8EncodeChar_hexDigit {d : UInt8} (h : d < 16) :
    String.utf8EncodeChar (hexDigit d.toNat) = [digitByte d] := by
  have hall : ∀ n : Fin 16, String.utf8EncodeChar (hexDigit (UInt8.ofNat n.val).toNat) =
      [digitByte (UInt8.ofNat n.val)] := by decide
  have hd := hall ⟨d.toNat, UInt8.lt_iff_toNat_lt.mp h⟩
  rwa [UInt8.ofNat_toNat] at hd

/-- A digit that is not in upper case is the one its value is written as. -/
theorem hexVal_ok {c v : UInt8} {index : Nat} (hc : ¬(65 ≤ c ∧ c ≤ 90))
    (h : hexVal c index = .ok v) : v < 16 ∧ digitByte v = c := by
  unfold hexVal at h
  by_cases hupper : 65 ≤ c ∧ c ≤ 70
  · exact absurd ⟨hupper.1, UInt8.le_trans hupper.2 (by decide)⟩ hc
  rw [if_neg hupper] at h
  by_cases hlower : 97 ≤ c ∧ c ≤ 102
  · rw [if_pos hlower] at h
    cases h
    unfold digitByte
    grind
  rw [if_neg hlower] at h
  by_cases hdecimal : 48 ≤ c ∧ c ≤ 57
  · rw [if_pos hdecimal] at h
    cases h
    unfold digitByte
    grind
  · rw [if_neg hdecimal] at h
    cases h

/-- The halves of a byte that is put together from two digits. -/
theorem halves_toNat {hi lo : UInt8} (hhi : hi < 16) (hlo : lo < 16) :
    (hi <<< 4 ||| lo).toNat / 16 = hi.toNat ∧ (hi <<< 4 ||| lo).toNat % 16 = lo.toNat := by
  have hall : ∀ a b : Fin 16,
      (UInt8.ofNat a.val <<< 4 ||| UInt8.ofNat b.val).toNat / 16 = a.val ∧
        (UInt8.ofNat a.val <<< 4 ||| UInt8.ofNat b.val).toNat % 16 = b.val := by
    decide +kernel
  have h := hall ⟨hi.toNat, UInt8.lt_iff_toNat_lt.mp hhi⟩ ⟨lo.toNat, UInt8.lt_iff_toNat_lt.mp hlo⟩
  simpa only [UInt8.ofNat_toNat] using h

/-! ## Strings of digits -/

/-- The bytes of the two digits of a byte. -/
theorem flatMap_hexByte {hi lo : UInt8} (hhi : hi < 16) (hlo : lo < 16) :
    (hexByte (hi <<< 4 ||| lo)).flatMap String.utf8EncodeChar = [digitByte hi, digitByte lo] := by
  obtain ⟨hdiv, hmod⟩ := halves_toNat hhi hlo
  rw [hexByte, hdiv, hmod, List.flatMap_cons, List.flatMap_cons, List.flatMap_nil,
    utf8EncodeChar_hexDigit hhi, utf8EncodeChar_hexDigit hlo]
  rfl

/-- Decoded digits are written again as they were read. -/
theorem hexPairs_ok {data : List UInt8} (hlower : ∀ c ∈ data, ¬(65 ≤ c ∧ c ≤ 90))
    (heven : data.length % 2 = 0) {index : Nat} {bytes : List UInt8}
    (h : hexPairs index data = .ok bytes) :
    (bytes.flatMap hexByte).flatMap String.utf8EncodeChar = data := by
  induction index, data using hexPairs.induct generalizing bytes with
  | case1 index hi lo rest ih =>
      rw [hexPairs] at h
      obtain ⟨a, ha, h⟩ := exists_of_bind_ok h
      obtain ⟨b, hb, h⟩ := exists_of_bind_ok h
      obtain ⟨more, hmore, h⟩ := exists_of_bind_ok h
      cases h
      have hhi := hexVal_ok (hlower hi (by simp)) ha
      have hlo := hexVal_ok (hlower lo (by simp)) hb
      have hrest := ih (fun c hc => hlower c (by simp [hc])) (by simp at heven; omega) hmore
      rw [List.flatMap_cons, List.flatMap_append, flatMap_hexByte hhi.1 hlo.1, hhi.2, hlo.2, hrest]
      rfl
  | case2 data index hshort =>
      rcases data with _ | ⟨c, _ | ⟨d, rest⟩⟩
      · cases h
        rfl
      · simp at heven
      · exact absurd rfl (hshort c d rest)

theorem stripPrefix0x_some {value rest : String} (h : stripPrefix0x value = some rest) :
    value = "0x" ++ rest := by
  unfold stripPrefix0x at h
  split at h
  · rename_i tail htail
    cases h
    apply String.toList_inj.mp
    rw [htail, String.toList_append]
    exact congrArg (fun l => '0' :: 'x' :: l) String.toList_ofList.symm
  · cases h

/-- **A canonical spelling.** An accepted string is the encoding of the bytes it stands for. -/
theorem parse0xHex_ok {name value : String} {bytes : List UInt8}
    (h : parse0xHex name value = .ok bytes) : value = "0x" ++ hexEncode bytes := by
  unfold parse0xHex at h
  cases hstrip : stripPrefix0x value with
  | none =>
      rw [hstrip] at h
      cases h
  | some hex =>
      simp only [hstrip] at h
      by_cases hempty : hex = ""
      · rw [if_pos hempty] at h
        cases h
      by_cases heven : hex.utf8ByteSize % 2 = 0
      · by_cases hupper : (asBytes hex).any (fun b => 65 ≤ b ∧ b ≤ 90)
        · rw [if_neg hempty, if_neg (not_not.mpr heven), if_pos hupper] at h
          cases h
        rw [if_neg hempty, if_neg (not_not.mpr heven), if_neg hupper] at h
        have hdecode := mapError_ok h
        unfold hexDecode at hdecode
        rw [length_asBytes, if_neg (not_not.mpr heven)] at hdecode
        have hlower : ∀ c ∈ asBytes hex, ¬(65 ≤ c ∧ c ≤ 90) := by simpa using hupper
        have hdigits := hexPairs_ok hlower heven hdecode
        have hspelled : hexEncode bytes = hex := by
          apply asBytes_injective
          rw [hexEncode, asBytes_ofList, hdigits]
        rw [hspelled]
        exact stripPrefix0x_some hstrip
      · rw [if_neg hempty, if_pos heven] at h
        cases h

/-! ## Writing and reading -/

theorem hexVal_digitByte {d : UInt8} (h : d < 16) (index : Nat) :
    hexVal (digitByte d) index = .ok d := by
  unfold hexVal digitByte
  grind

theorem digitByte_lower {d : UInt8} (h : d < 16) : ¬(65 ≤ digitByte d ∧ digitByte d ≤ 90) := by
  unfold digitByte
  grind

theorem toNat_div_lt (b : UInt8) : UInt8.ofNat (b.toNat / 16) < 16 := by
  have hb := b.toNat_lt
  rw [UInt8.lt_iff_toNat_lt, UInt8.toNat_ofNat']
  show b.toNat / 16 % 256 < 16
  omega

theorem toNat_mod_lt (b : UInt8) : UInt8.ofNat (b.toNat % 16) < 16 := by
  rw [UInt8.lt_iff_toNat_lt, UInt8.toNat_ofNat']
  show b.toNat % 16 % 256 < 16
  omega

/-- A byte is put together from its halves. -/
theorem halves_or (b : UInt8) :
    UInt8.ofNat (b.toNat / 16) <<< 4 ||| UInt8.ofNat (b.toNat % 16) = b := by
  obtain ⟨hdiv, hmod⟩ := halves_toNat (toNat_div_lt b) (toNat_mod_lt b)
  have hb := b.toNat_lt
  rw [UInt8.toNat_ofNat'] at hdiv hmod
  apply UInt8.toNat_inj.mp
  omega

theorem flatMap_hexByte_eq (b : UInt8) : (hexByte b).flatMap String.utf8EncodeChar =
    [digitByte (UInt8.ofNat (b.toNat / 16)), digitByte (UInt8.ofNat (b.toNat % 16))] := by
  conv_lhs => rw [← halves_or b]
  exact flatMap_hexByte (toNat_div_lt b) (toNat_mod_lt b)

theorem asBytes_hexEncode (bytes : List UInt8) : asBytes (hexEncode bytes) =
    bytes.flatMap fun b =>
      [digitByte (UInt8.ofNat (b.toNat / 16)), digitByte (UInt8.ofNat (b.toNat % 16))] := by
  rw [hexEncode, asBytes_ofList, List.flatMap_assoc]
  simp only [flatMap_hexByte_eq]

/-- The digits of bytes are read as these bytes. -/
theorem hexPairs_encode (bytes : List UInt8) (index : Nat) :
    hexPairs index (bytes.flatMap fun b =>
      [digitByte (UInt8.ofNat (b.toNat / 16)), digitByte (UInt8.ofNat (b.toNat % 16))]) =
        .ok bytes := by
  induction bytes generalizing index with
  | nil => rfl
  | cons b bytes ih =>
      rw [List.flatMap_cons, List.cons_append, List.cons_append, List.nil_append, hexPairs,
        hexVal_digitByte (toNat_div_lt b), hexVal_digitByte (toNat_mod_lt b), ih]
      exact congrArg (fun a => Except.ok (a :: bytes)) (halves_or b)

/-- Encoded bytes are read again. -/
theorem parse0xHex_hexEncode (name : String) {bytes : List UInt8} (h : bytes ≠ []) :
    parse0xHex name ("0x" ++ hexEncode bytes) = .ok bytes := by
  have hdigits := asBytes_hexEncode bytes
  have hlength : (hexEncode bytes).utf8ByteSize = 2 * bytes.length := by
    rw [← length_asBytes, hdigits]
    simp [List.length_flatMap, Nat.mul_comm]
  have hstrip : stripPrefix0x ("0x" ++ hexEncode bytes) = some (hexEncode bytes) := by
    unfold stripPrefix0x
    rw [String.toList_append]
    show some (String.ofList (hexEncode bytes).toList) = _
    rw [String.ofList_toList]
  have hempty : hexEncode bytes ≠ "" := by
    intro hnil
    rw [hnil, String.utf8ByteSize_empty] at hlength
    have := List.length_pos_iff.mpr h
    omega
  have hlower : ¬(asBytes (hexEncode bytes)).any (fun b => 65 ≤ b ∧ b ≤ 90) := by
    rw [hdigits]
    intro hany
    obtain ⟨c, hc, hupper⟩ := List.any_eq_true.mp hany
    obtain ⟨b, -, hc⟩ := List.mem_flatMap.mp hc
    rcases List.mem_pair.mp hc with rfl | rfl
    · exact digitByte_lower (toNat_div_lt b) (of_decide_eq_true hupper)
    · exact digitByte_lower (toNat_mod_lt b) (of_decide_eq_true hupper)
  unfold parse0xHex
  rw [hstrip]
  show (if _ then _ else _) = _
  rw [if_neg hempty, if_neg (by omega), if_neg hlower]
  unfold hexDecode
  rw [if_neg (by rw [length_asBytes]; omega), hdigits, hexPairs_encode]
  rfl

/-- The accepted strings are the encodings of bytes, one for each non-empty list of them. -/
theorem parse0xHex_eq_ok_iff {name value : String} {bytes : List UInt8} :
    parse0xHex name value = .ok bytes ↔ bytes ≠ [] ∧ value = "0x" ++ hexEncode bytes := by
  constructor
  · intro h
    have hvalue := parse0xHex_ok h
    refine ⟨?_, hvalue⟩
    rintro rfl
    have hempty : parse0xHex name ("0x" ++ hexEncode []) =
        .error s!"{name}: hex payload cannot be empty" := rfl
    rw [hvalue, hempty] at h
    cases h
  · rintro ⟨hne, rfl⟩
    exact parse0xHex_hexEncode name hne

/-- Encoded bytes are read again where their number is expected. -/
theorem parse0xHexExact_hexEncode (name : String) {bytes : List UInt8} {expectedBytes : Nat}
    (hpos : 0 < expectedBytes) (hlength : bytes.length = expectedBytes) :
    parse0xHexExact name ("0x" ++ hexEncode bytes) expectedBytes = .ok bytes := by
  have hne : bytes ≠ [] := List.ne_nil_of_length_pos (hlength ▸ hpos)
  unfold parse0xHexExact
  rw [parse0xHex_hexEncode name hne]
  exact if_neg (not_not.mpr hlength)

/-! ## Contexts -/

/-- **A context is bound without ambiguity.** Contexts whose hashed bytes are equal agree in
every field; an accepted string of digits is the one encoding of its bytes; so a payload has one
spelling in validated contexts, and such contexts that otherwise agree are identical. -/
theorem context_bound :
    (∀ a b : DisclosureContext U256, a.validate = .ok () → b.validate = .ok () →
      contextBytes a = contextBytes b →
        a.network = b.network ∧ a.poolAddress = b.poolAddress ∧
        a.authorityLabel = b.authorityLabel ∧
        a.authorityIdentityPayloadHex = b.authorityIdentityPayloadHex ∧
        a.purpose = b.purpose ∧ a.contextNonce = b.contextNonce) ∧
    (∀ (name value : String) (bytes : List UInt8),
      parse0xHex name value = .ok bytes ↔ bytes ≠ [] ∧ value = "0x" ++ hexEncode bytes) ∧
    (∀ (a b : DisclosureContext U256) (payload : List UInt8),
      a.validate = .ok () → b.validate = .ok () →
      parse0xHex "authority_identity_payload_hex" a.authorityIdentityPayloadHex.val =
        .ok payload →
      parse0xHex "authority_identity_payload_hex" b.authorityIdentityPayloadHex.val =
        .ok payload →
      a.authorityIdentityPayloadHex = b.authorityIdentityPayloadHex ∧
        (a.network = b.network → a.poolAddress = b.poolAddress →
          a.authorityLabel = b.authorityLabel → a.purpose = b.purpose →
          a.contextNonce = b.contextNonce → a = b)) := by
  refine ⟨?_, fun name value bytes => parse0xHex_eq_ok_iff, ?_⟩
  · intro a b _ _ h
    obtain rfl := contextBytes_injective h
    exact ⟨rfl, rfl, rfl, rfl, rfl, rfl⟩
  · intro a b payload _ _ ha hb
    have hpayload : a.authorityIdentityPayloadHex = b.authorityIdentityPayloadHex :=
      Subtype.ext ((parse0xHex_ok ha).trans (parse0xHex_ok hb).symm)
    refine ⟨hpayload, ?_⟩
    intro hnetwork hpool hlabel hpurpose hnonce
    cases a
    cases b
    simp only at hnetwork hpool hlabel hpayload hpurpose hnonce
    rw [hnetwork, hpool, hlabel, hpayload, hpurpose, hnonce]

def testnet : RustString := ⟨"testnet", by decide +kernel⟩

def testPool : RustString := ⟨"CPOOL", by decide +kernel⟩

/-- A context for an audit. -/
def auditContext (label : RustString) : DisclosureContext U256 where
  network := testnet
  poolAddress := testPool
  authorityLabel := label
  authorityIdentityPayloadHex := ⟨"0xab01", by decide +kernel⟩
  purpose := ⟨"audit", by decide +kernel⟩
  contextNonce := 7

theorem context_bound_audit :
    parse0xHex "authority_identity_payload_hex" "0xab01" = .ok [171, 1] ∧
      (auditContext ⟨"A", by decide +kernel⟩).authorityIdentityPayloadHex =
        (auditContext ⟨"B", by decide +kernel⟩).authorityIdentityPayloadHex ∧
      contextBytes (auditContext ⟨"A", by decide +kernel⟩) ≠
        contextBytes (auditContext ⟨"B", by decide +kernel⟩) := by
  obtain ⟨hfields, hspelling, hpayload⟩ := context_bound
  have hparse : parse0xHex "authority_identity_payload_hex" "0xab01" = .ok [171, 1] :=
    (hspelling _ _ _).mpr ⟨by decide, by decide +kernel⟩
  refine ⟨hparse, (hpayload (auditContext ⟨"A", by decide +kernel⟩)
    (auditContext ⟨"B", by decide +kernel⟩) [171, 1] rfl rfl hparse hparse).1, ?_⟩
  intro h
  have hlabel := (hfields _ _ rfl rfl h).2.2.1
  exact absurd (congrArg Subtype.val hlabel) (by decide)

end PrivatePayments.Disclosure
