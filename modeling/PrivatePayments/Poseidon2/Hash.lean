import PrivatePayments.Poseidon2.Permutation
import Mathlib.Data.Set.Function

/-!
# PrivatePayments.Poseidon2.Hash

The three hash functions that the contracts, the circuits and the prover build from
the permutation: `PoseidonCompress` for the inner nodes of the trees, and
`Poseidon2(2)` and `Poseidon2(3)` with a domain separator for everything else.

No function from two field elements to one is injective, so an injectivity assumption
is made on a set of calls. A `Query` is one call; a set `S` of queries is free of
collisions when `Query.eval` is injective on it (`Set.InjOn Query.eval S`). Since the
function and the domain separator are part of the query, this also says that the
ranges of different functions and domains do not meet.
-/

namespace PrivatePayments

open Poseidon2 (permutation)

/-- `PoseidonCompress` (`poseidon2_compression` of the prover): the first output of the
width-2 permutation plus the left input. -/
@[irreducible] def poseidon2Compress (left right : Fr) : Fr :=
  (permutation [left, right]).headD 0 + left

/-- `Poseidon2(2)` (`poseidon2_hash2`): the first output of the width-3 permutation,
with the domain separator in the last place. -/
@[irreducible] def poseidon2Hash2 (a b domainSeparation : Fr) : Fr :=
  (permutation [a, b, domainSeparation]).headD 0

/-- `Poseidon2(3)` (`poseidon2_hash3_internal`): the same at width 4. -/
@[irreducible] def poseidon2Hash3 (a b c domainSeparation : Fr) : Fr :=
  (permutation [a, b, c, domainSeparation]).headD 0

/-- One call of a hash function. -/
inductive Query
  | compress (left right : Fr)
  | hash2 (a b domainSeparation : Fr)
  | hash3 (a b c domainSeparation : Fr)
  deriving DecidableEq

/-- The answer to a query. -/
def Query.eval : Query → Fr
  | .compress l r => poseidon2Compress l r
  | .hash2 a b d => poseidon2Hash2 a b d
  | .hash3 a b c d => poseidon2Hash3 a b c d

@[simp] theorem Query.eval_compress (l r : Fr) :
    (Query.compress l r).eval = poseidon2Compress l r := rfl

@[simp] theorem Query.eval_hash2 (a b d : Fr) :
    (Query.hash2 a b d).eval = poseidon2Hash2 a b d := rfl

@[simp] theorem Query.eval_hash3 (a b c d : Fr) :
    (Query.hash3 a b c d).eval = poseidon2Hash3 a b c d := rfl

/-! ### Reading a collision-free set -/

section CollisionFree

variable {S : Set Query} (hS : Set.InjOn Query.eval S)

include hS

theorem compress_inj {l r l' r' : Fr} (h₁ : .compress l r ∈ S) (h₂ : .compress l' r' ∈ S)
    (h : poseidon2Compress l r = poseidon2Compress l' r') : l = l' ∧ r = r' := by
  have hq := hS h₁ h₂ h
  exact ⟨(Query.compress.inj hq).1, (Query.compress.inj hq).2⟩

theorem hash2_inj {a b d a' b' d' : Fr} (h₁ : .hash2 a b d ∈ S) (h₂ : .hash2 a' b' d' ∈ S)
    (h : poseidon2Hash2 a b d = poseidon2Hash2 a' b' d') : a = a' ∧ b = b' ∧ d = d' :=
  Query.hash2.inj (hS h₁ h₂ h)

theorem hash3_inj {a b c d a' b' c' d' : Fr} (h₁ : .hash3 a b c d ∈ S)
    (h₂ : .hash3 a' b' c' d' ∈ S) (h : poseidon2Hash3 a b c d = poseidon2Hash3 a' b' c' d') :
    a = a' ∧ b = b' ∧ c = c' ∧ d = d' :=
  Query.hash3.inj (hS h₁ h₂ h)

end CollisionFree

/-! ### The zero subtrees -/

/-- `get_zeroes`: the hashes of the empty subtrees, by level. -/
def getZeroes : List Fr := [
    0x25302288db99350344974183ce310d63b53abb9ef0f8575753eed36e0118f9ce,
    0x21f4ea2492ade006a8ee7fb764060a95a4eef5ca931e037bcdf05fc28067d008,
    0x0ebfb4d2f05bb6a473c9bff72586fec806f1ac237015c570d7c78249cf7d7740,
    0x066882a5dab186d4d63fa6600f9ea3d5cdfef2a2811c89731128a729d7e8b897,
    0x065db3148d8da5329beaec5042785c69f2ce0709e26d468bda1e255c599b5686,
    0x19926faa23b0737d467f9476f0f84b2968ff6666e16a23e4d44898f884504764,
    0x287c485a72ccc8d4d80692d97eb62c164953a0422791f6af6214a9a7ad2279c0,
    0x1f729e103e7d415f728dc945e3b6e2c40ac0cb369e532ba50a569790cdde2acc,
    0x1887e71f92217ffe86620e6ea5a71ad3521fade4c83203ffa3e838fe3d6e7203,
    0x295aa78e56c7a09a864f2f4175100095f3e7b9ef2a911af87cb0f3f7eef27700,
    0x0517032a796b0340dc5f9df28b1fd320daba24d5a45335a137167300ee368828,
    0x15fadf4947d2a40c7b439e83ea3c979ff725aad11c47aaaf892aab413db2dcdd,
    0x00acb7236b6d87f4875b3b9d1720a9e0682c70e4bc6d54edf61faa2bc93841d6,
    0x09836dd9054d560ae60ea6a8033404b3e40309f6ee4d170acb92e6667e86c775,
    0x2198946b17f9ba035d7ee728741ca5f4e5875cb6afb29684a6f5f9a82feec482,
    0x15d4b16830604dbe0b3212e31f9574787c15b0f54e5e24b080687e7a6ef6d455,
    0x2d07f73e04cf0a538037ba07561651ac979bb00e1705c75ddc9516ec4b8a6a76,
    0x02f8731aea289a6b401000487e8c6925c922407eeca58f2e18cc8ad9b6c5d13f,
    0x0a30053c1787c79782e60bc8d825e9e323c8a902f93aa5923c24d17d16db925c,
    0x0ea3058d9958ba5fe441fbd79dc968f449215ddee66146161afcf34c34bfa490,
    0x27b9937e47a65983ad50a5b7f6b9cf0542c91a8dfa1714cef89013438a06f9b7,
    0x2d347be4e547c5837c1b2172322628a0c48d668193196791b310674b0453c039,
    0x03f2461b35b892fc8c589706283d1083f4d2d66be4f97e461abaf2f06f89cffd,
    0x259b8fa0082cf6066f005a0a49006712fe1dcfef6a98d68f7ab445f88adb61a7,
    0x1980a5f7eac09daac7b2d2179ba1d970fb3f0213dd90613128f5d55863d84414,
    0x1cfcd94aabc23cacd4ccab22e87d2303200d09b03042b2047f03d2e0def57e85,
    0x102bdc81acbf8c52d35871a21ff27516ddbe6e31ef51740c49bd2ee2b1980c21,
    0x2fad84f388a263e714c7b39fb0dd24be6158b9e21480aa3a60778707889f76ad,
    0x2ace942d30becb369f1cfd025b5394d6ee4c97f55930048a18fb501128c87777,
    0x0930feccbf762a6b239acee2c369de9a31bd3e232c90c64af141945c1c415463,
    0x1a59e2ba55f1e829bca2c6316a9ccd08017d2e9bf532942c26d82365ca604b58,
    0x1a8e840c84e2fb5212d61f09ad5f91d6a70a83074e942772ef74b42d12a11f50,
    0x134b50df02e2ccb98b59af2c2c55d7a41ff102681730c42ba364dbff1271cf62]

@[simp] theorem getZeroes_length : getZeroes.length = 33 := rfl

/-- The hash of the empty subtree at a level: `poseidon2("XLM")` with domain 0 at the
leaves, and the compression of two empty subtrees above. -/
def zeroNode : Nat → Fr
  | 0 => poseidon2Hash3 88 76 77 0
  | level + 1 => poseidon2Compress (zeroNode level) (zeroNode level)

/-- Each entry of the table is the compression of the entry before it with itself. -/
theorem getZeroes_chain :
    List.zipWith (fun z _ => poseidon2Compress z z) getZeroes (List.range 32) =
      getZeroes.tail := by
  decide +kernel

theorem getZeroes_head : getZeroes.head? = some (poseidon2Hash3 88 76 77 0) := by
  decide +kernel

/-- The table of the contracts holds the hashes of the empty subtrees. -/
theorem getZeroes_getElem? : ∀ {i : Nat}, i ≤ 32 → getZeroes[i]? = some (zeroNode i)
  | 0, _ => by rw [← List.head?_eq_getElem?, getZeroes_head, zeroNode]
  | i + 1, h => by
      have ih := getZeroes_getElem? (i := i) (by omega)
      rw [← List.getElem?_tail, ← getZeroes_chain, List.getElem?_zipWith, ih,
        List.getElem?_range (by omega)]
      rfl

end PrivatePayments
