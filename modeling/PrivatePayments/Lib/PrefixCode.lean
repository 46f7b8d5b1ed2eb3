import Mathlib.Data.List.Basic
import Mathlib.Logic.Function.Basic

/-!
# PrivatePayments.Lib.PrefixCode

Encodings that can be read off the front of a longer word.

`IsPrefixCode encode` says that what follows the encoding of a value does not matter: two
words that start with encodings and are equal start with one value and go on alike. Words
made of such encodings one after the other are then told apart part by part.
-/

namespace PrefixCode

variable {α β γ : Type*}

/-- The encoding of a value determines the value and where it ends. -/
def IsPrefixCode (encode : α → List γ) : Prop :=
  ∀ ⦃a b : α⦄ ⦃x y : List γ⦄, encode a ++ x = encode b ++ y → a = b ∧ x = y

/-- Encodings of one length are a prefix code when they are distinct. -/
theorem isPrefixCode_of_length {encode : α → List γ} {n : ℕ}
    (hlen : ∀ a, (encode a).length = n) (hinj : Function.Injective encode) :
    IsPrefixCode encode := by
  intro a b x y h
  obtain ⟨hab, hxy⟩ := List.append_inj h (by rw [hlen, hlen])
  exact ⟨hinj hab, hxy⟩

/-- What comes before a code may be read through an injection. -/
theorem IsPrefixCode.comp {encode : β → List γ} (h : IsPrefixCode encode) {f : α → β}
    (hf : Function.Injective f) : IsPrefixCode fun a => encode (f a) := by
  intro a b x y hab
  obtain ⟨hfab, hxy⟩ := h hab
  exact ⟨hf hfab, hxy⟩

/-- Two codes, one after the other. -/
theorem IsPrefixCode.pair {first : α → List γ} {second : β → List γ}
    (hfirst : IsPrefixCode first) (hsecond : IsPrefixCode second) :
    IsPrefixCode fun p : α × β => first p.1 ++ second p.2 := by
  intro a b x y h
  rw [List.append_assoc, List.append_assoc] at h
  obtain ⟨h₁, h⟩ := hfirst h
  obtain ⟨h₂, hxy⟩ := hsecond h
  exact ⟨Prod.ext h₁ h₂, hxy⟩

/-- A word after its length, for words whose length the code of lengths can tell. -/
theorem isPrefixCode_lengthPrefixed {P : ℕ → Prop} {length : {n : ℕ // P n} → List γ}
    (h : IsPrefixCode length) :
    IsPrefixCode fun word : {l : List γ // P l.length} =>
      length ⟨word.val.length, word.property⟩ ++ word.val := by
  intro a b x y hab
  rw [List.append_assoc, List.append_assoc] at hab
  obtain ⟨hlen, hrest⟩ := h hab
  obtain ⟨hword, hxy⟩ := List.append_inj hrest (congrArg Subtype.val hlen)
  exact ⟨Subtype.ext hword, hxy⟩

end PrefixCode
