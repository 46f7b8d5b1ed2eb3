import PrivatePayments.Disclosure.Receipt
import PrivatePayments.Prover.Flows

/-!
# PrivatePayments.Prover.HexScalar

Reading a scalar from a hexadecimal string (`hex_to_scalar` in `prover/src/serialization.rs`).

The string is padded to 64 characters and read two bytes at a time by the integer parser of the
standard library, which takes a plus sign. A pair of a plus sign and a digit is therefore read as
the digit (`SignedHex`), and only strings with such a pair are accepted without being
hexadecimal numbers (`acceptsHex_iff`).
-/

namespace PrivatePayments.Prover

open Disclosure (asBytes asBytes_ofList stripPrefix0x)

/-! ## The parser -/

/-- `core::str::from_utf8` -/
def fromUtf8 (bytes : List UInt8) : Option (List UInt8) :=
  if (ByteArray.mk bytes.toArray).IsValidUTF8 then some bytes else none

/-- A digit more, as long as the number fits a `u8`. -/
def pushByte (n : Nat) (b : UInt8) : Option Nat := do
  let n ← pushDigit 16 n (Char.ofNat b.toNat)
  if n < 256 then some n else none

/-- `u8::from_str_radix` with radix 16: a plus sign may come first, and no sign stands alone. -/
def u8FromStrRadix16 : List UInt8 → Option UInt8
  | [] => none
  | sign :: rest =>
      if (sign = 43 ∨ sign = 45) ∧ rest = [] then none
      else
        let digits := if sign = 43 then rest else sign :: rest
        (digits.foldlM pushByte 0).map UInt8.ofNat

/-- `chunks(2)` -/
def chunks2 : List UInt8 → List (List UInt8)
  | a :: b :: rest => [a, b] :: chunks2 rest
  | [a] => [[a]]
  | [] => []

/-- `format!("{:0>64}", hex)`; the width counts characters. -/
def pad64 (hex : String) : String :=
  String.ofList (List.replicate (64 - hex.length) '0' ++ hex.toList)

/-- The position of pair `i` in the little-endian bytes. -/
def byteIndex (i : Nat) : Option Nat := if i ≤ fieldSize - 1 then some (fieldSize - 1 - i) else none

/-- The loop of `hex_to_scalar` from pair `i` on. -/
def fillBytes : Nat → List (List UInt8) → List UInt8 → Except String (List UInt8)
  | _, [], bytes => .ok bytes
  | i, chunk :: chunks, bytes => do
      let byteStr ← okOr "Invalid hex character" (fromUtf8 chunk)
      let idx ← okOr "Index overflow" (byteIndex i)
      let byte ← okOr "Invalid hex character" (u8FromStrRadix16 byteStr)
      fillBytes (i + 1) chunks (bytes.set idx byte)

/-- `hex_to_scalar` -/
def hexToScalar (hex : String) : Except String Fr :=
  let hex := (stripPrefix0x hex).getD hex
  if hex.utf8ByteSize > 64 then .error "Hex string too long"
  else do
    let bytes ← fillBytes 0 (chunks2 (asBytes (pad64 hex))) (List.replicate fieldSize 0)
    .ok (scalarOf bytes)

/-! ## What the strings mean -/

/-- The characters behind at most one `0x`. -/
def digitsOf (hex : String) : List Char := ((stripPrefix0x hex).getD hex).toList

/-- The number that at most 64 digits behind at most one `0x` denote. -/
def hexValue (hex : String) : Option Nat :=
  let digits := digitsOf hex
  if digits.length ≤ 64 then digits.foldlM (pushDigit 16) 0 else none

/-- The parser accepts the string as a number exactly if it is one, and as the number it is. -/
def AcceptsHex (hex : String) : Prop :=
  ((∃ x, hexToScalar hex = .ok x) ↔ ∃ n, hexValue hex = some n) ∧
    ∀ x n, hexToScalar hex = .ok x → hexValue hex = some n → x = Fin.ofNat bn256Modulus n

/-- Digits, and plus signs that an odd number of characters follow. -/
def SignedHex : List Char → Prop
  | [] => True
  | c :: rest =>
      ((digitValue 16 c).isSome ∨ c = '+' ∧ rest.length % 2 = 1) ∧ SignedHex rest

/-- The string has a plus sign where the parser takes one. -/
def PlusSigned (hex : String) : Prop :=
  let digits := digitsOf hex
  digits.length ≤ 64 ∧ '+' ∈ digits ∧ SignedHex digits

/-! ## Bytes and characters -/

/-- The byte of an ASCII character. -/
def asciiByte (c : Char) : UInt8 := UInt8.ofNat c.toNat

theorem asciiByte_toNat {c : Char} (h : c.toNat < 128) : (asciiByte c).toNat = c.toNat :=
  UInt8.toNat_ofNat_of_lt' (show c.toNat < 256 by omega)

theorem ofNat_asciiByte {c : Char} (h : c.toNat < 128) : Char.ofNat (asciiByte c).toNat = c := by
  rw [asciiByte_toNat h, Char.ofNat_toNat]

theorem utf8EncodeChar_ascii {c : Char} (h : c.toNat < 128) :
    String.utf8EncodeChar c = [asciiByte c] := by
  have hle : c.val.toNat ≤ 0x7f := Nat.le_of_lt_succ h
  unfold String.utf8EncodeChar
  exact if_pos hle

/-- The first byte of any other character is not ASCII. -/
theorem exists_byte_of_not_ascii {c : Char} (h : ¬ c.toNat < 128) :
    ∃ b ∈ String.utf8EncodeChar c, 128 ≤ b.toNat := by
  have hfirst {v m : Nat} (hm : 0 < m) (hle : 2 * m ≤ 128) :
      128 ≤ (UInt8.ofNat (v % m + (256 - 2 * m))).toNat := by
    have hlt := Nat.mod_lt v hm
    rw [UInt8.toNat_ofNat_of_lt' (show _ < 256 by omega)]
    omega
  have hle : ¬ c.val.toNat ≤ 0x7f := fun hle => h (Nat.lt_succ_of_le hle)
  unfold String.utf8EncodeChar
  dsimp only
  rw [if_neg hle]
  split_ifs
  · exact ⟨_, List.mem_cons_self, hfirst (m := 32) (by decide) (by decide)⟩
  · exact ⟨_, List.mem_cons_self, hfirst (m := 16) (by decide) (by decide)⟩
  · exact ⟨_, List.mem_cons_self, hfirst (m := 8) (by decide) (by decide)⟩

theorem toNat_ofNat_byte (b : UInt8) : (Char.ofNat b.toNat).toNat = b.toNat := by
  have hall : ∀ n < 256, (Char.ofNat n).toNat = n := by decide +kernel
  exact hall _ b.toNat_lt

/-- Bytes of ASCII are a string. -/
theorem isValidUTF8_ascii {bytes : List UInt8} (h : ∀ b ∈ bytes, b.toNat < 128) :
    (ByteArray.mk bytes.toArray).IsValidUTF8 := by
  have hencode : (bytes.map fun b => Char.ofNat b.toNat).flatMap String.utf8EncodeChar = bytes := by
    induction bytes with
    | nil => rfl
    | cons b bytes ih =>
        have hnat := toNat_ofNat_byte b
        rw [List.map_cons, List.flatMap_cons, ih fun c hc => h c (List.mem_cons_of_mem _ hc),
          utf8EncodeChar_ascii (hnat.trans_lt (h b List.mem_cons_self)), asciiByte, hnat,
          UInt8.ofNat_toNat]
        rfl
  refine ⟨bytes.map fun b => Char.ofNat b.toNat, ?_⟩
  rw [List.utf8Encode, hencode]
  exact ByteArray.ext (by simp)

/-! ## One pair -/

theorem ascii_of_digit {c : Char} {d : Nat} (h : digitValue 16 c = some d) :
    c.toNat < 128 ∧ d < 16 := by
  have hbound {top : Char} (hle : c ≤ top) (htop : top.toNat < 128) : c.toNat < 128 :=
    Nat.lt_of_le_of_lt hle htop
  unfold digitValue at h
  dsimp only at h
  split_ifs at h with h1 hlt h2 hlt h3 hlt hlt
  · exact ⟨hbound h1.2 (by decide), Option.some.inj h ▸ hlt⟩
  · exact ⟨hbound h2.2 (by decide), Option.some.inj h ▸ hlt⟩
  · exact ⟨hbound h3.2 (by decide), Option.some.inj h ▸ hlt⟩
  · exact absurd hlt (lt_irrefl _)

theorem pushDigit_none {c : Char} (h : digitValue 16 c = none) (n : Nat) :
    pushDigit 16 n c = none := by
  rw [pushDigit, h]
  rfl

/-- Two digits fit a byte. -/
theorem pushByte_asciiByte {n : Nat} (hn : n < 16) {c : Char} (hc : c.toNat < 128) :
    pushByte n (asciiByte c) = pushDigit 16 n c := by
  unfold pushByte
  rw [ofNat_asciiByte hc]
  cases hdigit : digitValue 16 c with
  | none => rw [pushDigit_none hdigit]; rfl
  | some d =>
      have hd := (ascii_of_digit hdigit).2
      rw [pushDigit, hdigit]
      exact if_pos (show n * 16 + d < 256 by omega)

/-- The byte of a pair, as the integer parser reads it. -/
def pairByte (a b : Char) : Option UInt8 :=
  if a = '+' then (digitValue 16 b).map UInt8.ofNat
  else (pushDigit 16 0 a).bind fun n => (pushDigit 16 n b).map UInt8.ofNat

theorem u8FromStrRadix16_pair {a b : Char} (ha : a.toNat < 128) (hb : b.toNat < 128) :
    u8FromStrRadix16 [asciiByte a, asciiByte b] = pairByte a b := by
  have hplus : asciiByte a = 43 ↔ a = '+' := by
    constructor
    · intro h
      rw [← ofNat_asciiByte ha, h]
      rfl
    · rintro rfl
      rfl
  have hmore : ¬((asciiByte a = 43 ∨ asciiByte a = 45) ∧ [asciiByte b] = []) := fun h => by
    cases h.2
  rw [u8FromStrRadix16, if_neg hmore, pairByte]
  dsimp only
  by_cases h : a = '+'
  · rw [if_pos (hplus.mpr h), if_pos h]
    simp only [List.foldlM_cons, List.foldlM_nil, pushByte_asciiByte (show 0 < 16 by decide) hb,
      pushDigit]
    cases digitValue 16 b <;> simp
  · rw [if_neg (mt hplus.mp h), if_neg h]
    simp only [List.foldlM_cons, List.foldlM_nil, pushByte_asciiByte (show 0 < 16 by decide) ha]
    cases hdigit : digitValue 16 a with
    | none =>
        rw [pushDigit_none hdigit]
        rfl
    | some x =>
        have hx : 0 * 16 + x < 16 := by
          have := (ascii_of_digit hdigit).2
          omega
        rw [pushDigit, hdigit]
        simp only [Option.map_some, Option.bind_eq_bind, Option.bind_some, pushByte_asciiByte hx hb,
          Option.pure_def]
        cases pushDigit 16 (0 * 16 + x) b <;> rfl

theorem ascii_of_pushByte {n m : Nat} {b : UInt8} (h : pushByte n b = some m) : b.toNat < 128 := by
  unfold pushByte pushDigit at h
  cases hdigit : digitValue 16 (Char.ofNat b.toNat) with
  | none =>
      rw [hdigit] at h
      cases h
  | some d => exact toNat_ofNat_byte b ▸ (ascii_of_digit hdigit).1

theorem ascii_of_foldlM {bytes : List UInt8} {n m : Nat} (h : bytes.foldlM pushByte n = some m) :
    ∀ b ∈ bytes, b.toNat < 128 := by
  induction bytes generalizing n with
  | nil => exact fun b hb => absurd hb List.not_mem_nil
  | cons b bytes ih =>
      rw [List.foldlM_cons] at h
      obtain ⟨k, hk, hrest⟩ := Option.bind_eq_some_iff.mp h
      exact List.forall_mem_cons.mpr ⟨ascii_of_pushByte hk, ih hrest⟩

/-- Only ASCII is read. -/
theorem ascii_of_u8FromStrRadix16 {bytes : List UInt8} {value : UInt8}
    (h : u8FromStrRadix16 bytes = some value) : ∀ b ∈ bytes, b.toNat < 128 := by
  cases bytes with
  | nil => exact fun b hb => absurd hb List.not_mem_nil
  | cons sign rest =>
      rw [u8FromStrRadix16] at h
      split_ifs at h with hlone hplus
      · obtain ⟨n, hn, -⟩ := Option.map_eq_some_iff.mp h
        exact List.forall_mem_cons.mpr ⟨hplus ▸ by decide, ascii_of_foldlM hn⟩
      · obtain ⟨n, hn, -⟩ := Option.map_eq_some_iff.mp h
        exact ascii_of_foldlM hn

/-- The check for UTF-8 rejects nothing that the integer parser takes. -/
theorem fromUtf8_of_read {chunk : List UInt8} {value : UInt8}
    (h : u8FromStrRadix16 chunk = some value) : fromUtf8 chunk = some chunk :=
  if_pos (isValidUTF8_ascii (ascii_of_u8FromStrRadix16 h))

/-! ## All pairs -/

theorem set_replicate (n : Nat) (b : UInt8) (filled : List UInt8) :
    (List.replicate (n + 1) 0 ++ filled).set n b = List.replicate n 0 ++ b :: filled := by
  induction n with
  | zero => rfl
  | succ n ih =>
      rw [List.replicate_succ, List.cons_append, List.set_cons_succ, ih]
      rfl

theorem fillBytes_cons {i idx : Nat} {chunk : List UInt8} {value : UInt8}
    (h : u8FromStrRadix16 chunk = some value) (hidx : byteIndex i = some idx)
    (chunks : List (List UInt8)) (bytes : List UInt8) :
    fillBytes i (chunk :: chunks) bytes = fillBytes (i + 1) chunks (bytes.set idx value) := by
  rw [fillBytes, fromUtf8_of_read h, hidx]
  show (okOr _ (u8FromStrRadix16 chunk) >>= _) = _
  rw [h]
  rfl

/-- The loop goes through when every pair is read and there are no more than 32. -/
theorem fillBytes_ok {i : Nat} {chunks : List (List UInt8)} {values filled : List UInt8}
    (h : chunks.mapM u8FromStrRadix16 = some values) (hlen : i + values.length ≤ 32) :
    fillBytes i chunks (List.replicate (32 - i) 0 ++ filled) =
      .ok (List.replicate (32 - i - values.length) 0 ++ (values.reverse ++ filled)) := by
  induction chunks generalizing i values filled with
  | nil =>
      cases h
      rfl
  | cons chunk chunks ih =>
      rw [List.mapM_cons] at h
      obtain ⟨value, hvalue, h⟩ := Option.bind_eq_some_iff.mp h
      obtain ⟨rest, hrest, h⟩ := Option.bind_eq_some_iff.mp h
      cases h
      rw [List.length_cons] at hlen ⊢
      have hidx : byteIndex i = some (31 - i) := if_pos (show i ≤ 31 by omega)
      have hset := set_replicate (31 - i) value filled
      rw [show 31 - i + 1 = 32 - i by omega] at hset
      rw [fillBytes_cons hvalue hidx, hset, show 31 - i = 32 - (i + 1) by omega,
        ih hrest (by omega), List.reverse_cons, List.append_assoc, List.singleton_append,
        show 32 - (i + 1) - rest.length = 32 - i - (rest.length + 1) by omega]

/-- It is an error when a pair is not read. -/
theorem fillBytes_error {i : Nat} {chunks : List (List UInt8)} (bytes : List UInt8)
    (h : chunks.mapM u8FromStrRadix16 = none) : ∃ e, fillBytes i chunks bytes = .error e := by
  induction chunks generalizing i bytes with
  | nil => cases h
  | cons chunk chunks ih =>
      rw [List.mapM_cons] at h
      cases hvalue : u8FromStrRadix16 chunk with
      | none =>
          rw [fillBytes]
          cases hutf8 : fromUtf8 chunk with
          | none => exact ⟨_, rfl⟩
          | some s =>
              obtain rfl : chunk = s := by
                unfold fromUtf8 at hutf8
                split_ifs at hutf8
                exact Option.some.inj hutf8
              cases hidx : byteIndex i with
              | none => exact ⟨_, rfl⟩
              | some idx =>
                  refine ⟨"Invalid hex character", ?_⟩
                  show (okOr _ (u8FromStrRadix16 chunk) >>= _) = _
                  rw [hvalue]
                  rfl
      | some value =>
          cases hidx : byteIndex i with
          | none =>
              rw [fillBytes, fromUtf8_of_read hvalue, hidx]
              exact ⟨_, rfl⟩
          | some idx =>
              rw [fillBytes_cons hvalue hidx]
              refine ih _ ?_
              rw [hvalue] at h
              cases hrest : chunks.mapM u8FromStrRadix16 with
              | none => rfl
              | some rest =>
                  rw [hrest] at h
                  cases h

theorem ascii_of_chunks2 {bytes values : List UInt8}
    (h : (chunks2 bytes).mapM u8FromStrRadix16 = some values) : ∀ b ∈ bytes, b.toNat < 128 := by
  induction bytes using chunks2.induct generalizing values with
  | case1 a b rest ih =>
      rw [chunks2, List.mapM_cons] at h
      obtain ⟨value, hvalue, h⟩ := Option.bind_eq_some_iff.mp h
      obtain ⟨more, hmore, -⟩ := Option.bind_eq_some_iff.mp h
      have hpair := ascii_of_u8FromStrRadix16 hvalue
      exact List.forall_mem_cons.mpr ⟨hpair a (by simp),
        List.forall_mem_cons.mpr ⟨hpair b (by simp), ih hmore⟩⟩
  | case2 a =>
      rw [chunks2, List.mapM_cons] at h
      obtain ⟨value, hvalue, -⟩ := Option.bind_eq_some_iff.mp h
      exact ascii_of_u8FromStrRadix16 hvalue
  | case3 => exact fun b hb => absurd hb List.not_mem_nil

/-! ## Digits and plus signs -/

theorem ascii_of_signedHex {l : List Char} (h : SignedHex l) : ∀ c ∈ l, c.toNat < 128 := by
  induction l with
  | nil => exact fun c hc => absurd hc List.not_mem_nil
  | cons c l ih =>
      refine List.forall_mem_cons.mpr ⟨?_, ih h.2⟩
      rcases h.1 with hdigit | ⟨rfl, -⟩
      · obtain ⟨d, hd⟩ := Option.isSome_iff_exists.mp hdigit
        exact (ascii_of_digit hd).1
      · decide

theorem signedHex_zeros (k : Nat) (l : List Char) :
    SignedHex (List.replicate k '0' ++ l) ↔ SignedHex l := by
  induction k with
  | zero => rfl
  | succ k ih =>
      rw [List.replicate_succ, List.cons_append, SignedHex, ih]
      exact and_iff_right (Or.inl (by decide))

theorem pairByte_isSome {a b : Char} : (pairByte a b).isSome ↔
    ((digitValue 16 a).isSome ∨ a = '+') ∧ (digitValue 16 b).isSome := by
  unfold pairByte pushDigit
  by_cases hplus : a = '+'
  · rw [if_pos hplus]
    simp [hplus]
  · rw [if_neg hplus]
    cases digitValue 16 a <;> cases digitValue 16 b <;> simp [hplus]

/-- The two characters before an even number of others are one pair. -/
theorem signedHex_pair {a b : Char} {l : List Char} (heven : l.length % 2 = 0) :
    SignedHex (a :: b :: l) ↔ (pairByte a b).isSome ∧ SignedHex l := by
  have hodd : (b :: l).length % 2 = 1 := by
    rw [List.length_cons]
    omega
  simp only [SignedHex, hodd, heven, pairByte_isSome, and_true, Nat.zero_ne_one, and_false, or_false,
    and_assoc]

/-- Digits denote a number. -/
theorem digits_of_foldlM {l : List Char} {n m : Nat} (h : l.foldlM (pushDigit 16) n = some m) :
    SignedHex l ∧ '+' ∉ l := by
  induction l generalizing n with
  | nil => exact ⟨trivial, List.not_mem_nil⟩
  | cons c l ih =>
      rw [List.foldlM_cons] at h
      obtain ⟨k, hk, hrest⟩ := Option.bind_eq_some_iff.mp h
      obtain ⟨d, hd, -⟩ := Option.map_eq_some_iff.mp hk
      obtain ⟨hsigned, hplus⟩ := ih hrest
      refine ⟨⟨Or.inl (Option.isSome_of_eq_some hd), hsigned⟩, ?_⟩
      rw [List.mem_cons, not_or]
      refine ⟨?_, hplus⟩
      rintro rfl
      cases hd

/-- Pairs of digits are the bytes of the number. -/
theorem foldlM_pair {a b : Char} (ha : a ≠ '+') {value : UInt8} (h : pairByte a b = some value)
    (n : Nat) (l : List Char) :
    (a :: b :: l).foldlM (pushDigit 16) n = l.foldlM (pushDigit 16) (n * 256 + value.toNat) := by
  rw [pairByte, if_neg ha] at h
  obtain ⟨k, hk, h⟩ := Option.bind_eq_some_iff.mp h
  obtain ⟨m, hm, rfl⟩ := Option.map_eq_some_iff.mp h
  obtain ⟨x, hx, rfl⟩ := Option.map_eq_some_iff.mp hk
  obtain ⟨y, hy, rfl⟩ := Option.map_eq_some_iff.mp hm
  have hxlt := (ascii_of_digit hx).2
  have hylt := (ascii_of_digit hy).2
  have hvalue : (UInt8.ofNat ((0 * 16 + x) * 16 + y)).toNat = (0 * 16 + x) * 16 + y :=
    UInt8.toNat_ofNat_of_lt' (show _ < 256 by omega)
  have hsum : (n * 16 + x) * 16 + y = n * 256 + ((0 * 16 + x) * 16 + y) := by ring
  simp only [List.foldlM_cons, pushDigit, hx, hy, Option.map_some, Option.bind_eq_bind,
    Option.bind_some, hvalue, hsum]

/-- Signed digits are read, and without a sign as the bytes of their number. -/
theorem mapM_pairs : ∀ {l : List Char}, l.length % 2 = 0 → SignedHex l →
    ∃ values, (chunks2 (l.map asciiByte)).mapM u8FromStrRadix16 = some values ∧
      2 * values.length = l.length ∧
      ('+' ∉ l → ∀ n, l.foldlM (pushDigit 16) n =
        some (n * 256 ^ values.length + leValue values.reverse))
  | [], _, _ => ⟨[], rfl, rfl, fun _ n => by simp [leValue]⟩
  | [a], hodd, _ => by simp at hodd
  | a :: b :: l, heven, h => by
      have hrest : l.length % 2 = 0 := by
        simp only [List.length_cons] at heven
        omega
      have hascii := ascii_of_signedHex h
      obtain ⟨hpair, hl⟩ := (signedHex_pair hrest).mp h
      obtain ⟨value, hvalue⟩ := Option.isSome_iff_exists.mp hpair
      obtain ⟨values, hvalues, hlen, hnumber⟩ := mapM_pairs hrest hl
      refine ⟨value :: values, ?_, ?_, fun hplus n => ?_⟩
      · rw [List.map_cons, List.map_cons, chunks2, List.mapM_cons,
          u8FromStrRadix16_pair (hascii a (by simp)) (hascii b (by simp)), hvalue, hvalues]
        rfl
      · simp only [List.length_cons]
        omega
      · simp only [List.mem_cons, not_or] at hplus
        rw [foldlM_pair (Ne.symm hplus.1) hvalue, hnumber hplus.2.2, List.reverse_cons,
          leValue_append, List.length_reverse, List.length_cons, pow_succ]
        simp only [leValue]
        congr 1
        ring

/-- Anything else of ASCII is not read. -/
theorem mapM_pairs_none : ∀ {l : List Char}, l.length % 2 = 0 → (∀ c ∈ l, c.toNat < 128) →
    ¬ SignedHex l → (chunks2 (l.map asciiByte)).mapM u8FromStrRadix16 = none
  | [], _, _, h => absurd trivial h
  | [a], hodd, _, _ => by simp at hodd
  | a :: b :: l, heven, hascii, h => by
      have hrest : l.length % 2 = 0 := by
        simp only [List.length_cons] at heven
        omega
      rw [List.map_cons, List.map_cons, chunks2, List.mapM_cons,
        u8FromStrRadix16_pair (hascii a (by simp)) (hascii b (by simp))]
      cases hpair : pairByte a b with
      | none => rfl
      | some value =>
          have hl : ¬ SignedHex l := fun hl =>
            h ((signedHex_pair hrest).mpr ⟨Option.isSome_of_eq_some hpair, hl⟩)
          rw [mapM_pairs_none hrest (fun c hc => hascii c (by simp [hc])) hl]
          rfl

/-! ## The strings that are accepted -/

theorem flatMap_ascii {l : List Char} (h : ∀ c ∈ l, c.toNat < 128) :
    l.flatMap String.utf8EncodeChar = l.map asciiByte := by
  induction l with
  | nil => rfl
  | cons c l ih =>
      obtain ⟨hc, hl⟩ := List.forall_mem_cons.mp h
      rw [List.flatMap_cons, utf8EncodeChar_ascii hc, ih hl]
      rfl

theorem utf8ByteSize_eq (s : String) :
    s.utf8ByteSize = (s.toList.flatMap String.utf8EncodeChar).length := by
  rw [← asBytes_ofList, String.ofList_toList]
  rfl

/-- A string has at least as many bytes as characters. -/
theorem length_le_utf8ByteSize (s : String) : s.toList.length ≤ s.utf8ByteSize := by
  rw [utf8ByteSize_eq]
  induction s.toList with
  | nil => exact Nat.le_refl 0
  | cons c l ih =>
      have hc := List.length_pos_iff.mpr (String.utf8EncodeChar_ne_nil (c := c))
      rw [List.flatMap_cons, List.length_append, List.length_cons]
      omega

/-- The characters that are split into pairs. -/
def padded (hex : String) : List Char :=
  List.replicate (64 - (digitsOf hex).length) '0' ++ digitsOf hex

theorem asBytes_pad64 (hex : String) : asBytes (pad64 ((stripPrefix0x hex).getD hex)) =
    (padded hex).flatMap String.utf8EncodeChar := by
  rw [pad64, asBytes_ofList]
  rfl

theorem length_padded {hex : String} (h : (digitsOf hex).length ≤ 64) :
    (padded hex).length = 64 := by
  rw [padded, List.length_append, List.length_replicate]
  omega

theorem foldlM_zeros (k : Nat) (l : List Char) :
    (List.replicate k '0' ++ l).foldlM (pushDigit 16) 0 = l.foldlM (pushDigit 16) 0 := by
  induction k with
  | zero => rfl
  | succ k ih => exact ih

/-- At most 64 signed digits are read, and without a sign as the number they denote. -/
theorem hexToScalar_signed {hex : String} (hlen : (digitsOf hex).length ≤ 64)
    (h : SignedHex (digitsOf hex)) : ∃ x, hexToScalar hex = .ok x ∧
      ('+' ∉ digitsOf hex → ∃ n, hexValue hex = some n ∧ x = Fin.ofNat bn256Modulus n) := by
  have hsize : ¬ ((stripPrefix0x hex).getD hex).utf8ByteSize > 64 := by
    rw [utf8ByteSize_eq]
    show ¬ ((digitsOf hex).flatMap String.utf8EncodeChar).length > 64
    rw [flatMap_ascii (ascii_of_signedHex h), List.length_map]
    omega
  have hpadded : SignedHex (padded hex) := (signedHex_zeros _ _).mpr h
  obtain ⟨values, hvalues, hcount, hnumber⟩ :=
    mapM_pairs (by rw [length_padded hlen]) hpadded
  rw [length_padded hlen] at hcount
  have hfill := @fillBytes_ok 0 _ values [] hvalues (by omega)
  refine ⟨scalarOf values.reverse, ?_, fun hplus => ⟨leValue values.reverse, ?_, rfl⟩⟩
  · rw [List.append_nil, List.append_nil, show 32 - 0 - values.length = 0 by omega] at hfill
    unfold hexToScalar
    dsimp only
    rw [if_neg hsize, asBytes_pad64, flatMap_ascii (ascii_of_signedHex hpadded)]
    exact congrArg (· >>= fun bytes => Except.ok (scalarOf bytes)) hfill
  · have hzeros : '+' ∉ padded hex := by
      simp [padded, hplus]
    rw [hexValue, if_pos hlen, ← foldlM_zeros (64 - (digitsOf hex).length)]
    refine (hnumber hzeros 0).trans ?_
    rw [zero_mul, zero_add]

/-- Nothing else is read. -/
theorem hexToScalar_not_signed {hex : String}
    (h : (digitsOf hex).length ≤ 64 → ¬ SignedHex (digitsOf hex)) :
    ∃ e, hexToScalar hex = .error e := by
  unfold hexToScalar
  dsimp only
  by_cases hsize : ((stripPrefix0x hex).getD hex).utf8ByteSize > 64
  · exact ⟨_, if_pos hsize⟩
  have hlen : (digitsOf hex).length ≤ 64 := (length_le_utf8ByteSize _).trans (not_lt.mp hsize)
  have hnone : (chunks2 ((padded hex).flatMap String.utf8EncodeChar)).mapM u8FromStrRadix16 =
      none := by
    by_cases hascii : ∀ c ∈ padded hex, c.toNat < 128
    · rw [flatMap_ascii hascii]
      exact mapM_pairs_none (by rw [length_padded hlen]) hascii
        (mt (signedHex_zeros _ _).mp (h hlen))
    · rw [Option.eq_none_iff_forall_ne_some]
      intro values hvalues
      push Not at hascii
      obtain ⟨c, hc, hlarge⟩ := hascii
      obtain ⟨b, hb, hbyte⟩ := exists_byte_of_not_ascii (not_lt.mpr hlarge)
      have := ascii_of_chunks2 hvalues b (List.mem_flatMap.mpr ⟨c, hc, hb⟩)
      omega
  obtain ⟨e, he⟩ := fillBytes_error (i := 0) (List.replicate fieldSize 0) hnone
  refine ⟨e, ?_⟩
  rw [if_neg hsize, asBytes_pad64, he]
  rfl

/-- A string is accepted as the number it is, and only as a number, exactly if it has no plus
sign that the parser takes. -/
theorem acceptsHex_iff (hex : String) : AcceptsHex hex ↔ ¬ PlusSigned hex := by
  by_cases hsigned : (digitsOf hex).length ≤ 64 ∧ SignedHex (digitsOf hex)
  · obtain ⟨x, hx, hnumber⟩ := hexToScalar_signed hsigned.1 hsigned.2
    by_cases hplus : '+' ∈ digitsOf hex
    · refine iff_of_false (fun haccepts => ?_) (not_not.mpr ⟨hsigned.1, hplus, hsigned.2⟩)
      obtain ⟨n, hn⟩ := haccepts.1.mp ⟨x, hx⟩
      rw [hexValue, if_pos hsigned.1] at hn
      exact (digits_of_foldlM hn).2 hplus
    · obtain ⟨n, hn, rfl⟩ := hnumber hplus
      refine iff_of_true ⟨iff_of_true ⟨_, hx⟩ ⟨n, hn⟩, fun y m hy hm => ?_⟩ fun h => hplus h.2.1
      rw [hx] at hy
      rw [hn] at hm
      cases hy
      cases hm
      rfl
  · obtain ⟨e, he⟩ := hexToScalar_not_signed fun hlen hs => hsigned ⟨hlen, hs⟩
    have hvalue : ∀ n, hexValue hex ≠ some n := by
      intro n hn
      unfold hexValue at hn
      dsimp only at hn
      split_ifs at hn with hlen
      exact hsigned ⟨hlen, (digits_of_foldlM hn).1⟩
    refine iff_of_true ⟨iff_of_false ?_ ?_, fun x n hx => ?_⟩ fun h => hsigned ⟨h.1, h.2.2⟩
    · rintro ⟨x, hx⟩
      rw [he] at hx
      cases hx
    · rintro ⟨n, hn⟩
      exact hvalue n hn
    · rw [he] at hx
      cases hx

theorem digitsOf_scalarToHex (x : Fr) :
    digitsOf (scalarToHex x) = (scalarToBytes x).reverse.flatMap hexByte := by
  have hstrip : stripPrefix0x (scalarToHex x) =
      some (String.ofList ((scalarToBytes x).reverse.flatMap hexByte)) := by
    unfold stripPrefix0x
    rw [scalarToHex, be32To0xHex, String.toList_ofList]
    rfl
  rw [digitsOf, hstrip, Option.getD_some, String.toList_ofList]

theorem length_flatMap_hexByte (bytes : List UInt8) :
    (bytes.flatMap hexByte).length = 2 * bytes.length := by
  induction bytes with
  | nil => rfl
  | cons b bytes ih =>
      rw [List.flatMap_cons, List.length_append, ih, List.length_cons]
      simp only [hexByte, List.length_cons, List.length_nil]
      omega

theorem hexValue_scalarToHex (x : Fr) : hexValue (scalarToHex x) = some x.val := by
  have hlen : (digitsOf (scalarToHex x)).length ≤ 64 := by
    rw [digitsOf_scalarToHex, length_flatMap_hexByte, List.length_reverse, length_scalarToBytes]
  unfold hexValue
  dsimp only
  rw [if_pos hlen, digitsOf_scalarToHex, foldlM_hexBytes, List.reverse_reverse,
    leValue_scalarToBytes, zero_mul, zero_add]

/-- A scalar is read back. -/
theorem hexToScalar_scalarToHex (x : Fr) : hexToScalar (scalarToHex x) = .ok x := by
  have hvalue := hexValue_scalarToHex x
  have haccepts : AcceptsHex (scalarToHex x) := by
    refine (acceptsHex_iff _).mpr fun hplus => ?_
    rw [hexValue, if_pos hplus.1] at hvalue
    exact (digits_of_foldlM hvalue).2 hplus.2.1
  obtain ⟨y, hy⟩ := haccepts.1.mpr ⟨x.val, hvalue⟩
  rw [hy, haccepts.2 y x.val hy hvalue]
  exact congrArg Except.ok (Fin.ext (Nat.mod_eq_of_lt x.isLt))

/-- **Which strings the parser takes for what they are.** -/
theorem hexToScalar_exact (hex : String) : (AcceptsHex hex ↔ ¬ PlusSigned hex) ∧
    ∀ x, hexToScalar (scalarToHex x) = .ok x :=
  ⟨acceptsHex_iff hex, hexToScalar_scalarToHex⟩

/-- A plus sign is taken for part of a number. -/
theorem plus_accepted : hexToScalar "+f" = .ok 15 ∧ ¬ AcceptsHex "+f" := by
  have hread : hexToScalar "+f" = .ok 15 := by decide +kernel
  refine ⟨hread, fun haccepts => ?_⟩
  obtain ⟨n, hn⟩ := haccepts.1.mp ⟨15, hread⟩
  have hnone : hexValue "+f" = none := by decide +kernel
  rw [hnone] at hn
  cases hn

end PrivatePayments.Prover
