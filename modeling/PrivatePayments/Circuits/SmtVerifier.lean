import PrivatePayments.Circuits.Circomlib
import PrivatePayments.Poseidon2.Hash

/-!
# PrivatePayments.Circuits.SmtVerifier

`SMTVerifier` (`smt/smtverifier.circom`, `smt/smtverifierlevel.circom`,
`smt/smthash_poseidon2.circom`): inclusion and non-inclusion in a sparse Merkle tree of
bounded depth. Components become existentially quantified signals; a component of this
repository is its constraints, one of circomlib is its relation.
-/

namespace PrivatePayments

/-- `SMTHash1`: the hash of a leaf. -/
def smtHash1 (key value : Fr) : Fr := poseidon2Hash2 key value 1

/-- `SMTHash2`: the hash of an inner node. -/
def smtHash2 (L R : Fr) : Fr := poseidon2Compress L R

namespace SmtVerifier

variable (lib : Circomlib)

/-- `SMTVerifierLevel` -/
def smtVerifierLevel (st : SMSignals) (sibling old1leaf new1leaf lrbit child root : Fr) : Prop :=
  ∃ outL outR, lib.switcher lrbit child sibling outL outR ∧
    root = smtHash2 outL outR * st.stTop + old1leaf * st.stIold + new1leaf * st.stInew

/-- The components `sm[i]`: each level reads the state of the level above. -/
def smChain (isOld0 fnc : Fr) : SMSignals → List Fr → List SMSignals → Prop
  | _, [], [] => True
  | prev, levIns :: rest, st :: sts =>
      lib.smtVerifierSM prev isOld0 levIns fnc st ∧ smChain isOld0 fnc st rest sts
  | _, _, _ => False

/-- The components `levels[i]`: each level reads the root of the level below, and the
lowest one reads 0. `lrbits` are the bits of the new key. -/
def levelChain (old1leaf new1leaf : Fr) : List SMSignals → List Fr → List Fr → Fr → Prop
  | [], [], _, root => root = 0
  | st :: sts, sibling :: siblings, lrbits, root =>
      ∃ child, levelChain old1leaf new1leaf sts siblings lrbits.tail child ∧
        smtVerifierLevel lib st sibling old1leaf new1leaf (lrbits.headD 0) child root
  | _, _, _, _ => False

/-- The signals before the first level. -/
def initialSignals (enabled : Fr) : SMSignals := ⟨enabled, 0, 0, 0, 1 - enabled⟩

/-- `sm[nLevels-1].st_na + sm[nLevels-1].st_iold + sm[nLevels-1].st_inew +
sm[nLevels-1].st_i0 === 1` -/
def finalState (sm : List SMSignals) : Prop :=
  ∃ st, sm.getLast? = some st ∧ st.stNa + st.stIold + st.stInew + st.stI0 = 1

end SmtVerifier

/-- The constraints of `SMTVerifier(nLevels)`, where `nLevels` is the number of siblings. -/
def smtVerifier (lib : Circomlib) (enabled root : Fr) (siblings : List Fr)
    (oldKey oldValue isOld0 key value fnc : Fr) : Prop :=
  ∃ n2bOld n2bNew levIns sm root0 areKeyEquals keysOk,
    lib.num2BitsStrict oldKey n2bOld ∧ lib.num2BitsStrict key n2bNew ∧
    lib.smtLevIns enabled siblings levIns ∧
    SmtVerifier.smChain lib isOld0 fnc (SmtVerifier.initialSignals enabled) levIns sm ∧
    SmtVerifier.finalState sm ∧
    SmtVerifier.levelChain lib (smtHash1 oldKey oldValue) (smtHash1 key value)
      sm siblings n2bNew root0 ∧
    lib.isEqual oldKey key areKeyEquals ∧
    lib.multiAND [fnc, 1 - isOld0, areKeyEquals, enabled] keysOk ∧ keysOk = 0 ∧
    lib.forceEqualIfEnabled enabled root0 root

end PrivatePayments
