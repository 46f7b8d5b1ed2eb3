import PrivatePayments.Poseidon2.Constants

/-!
# PrivatePayments.Poseidon2.Permutation

The Poseidon2 permutation as `poseidon2_perm.circom` computes it; the host function
`poseidon2_permutation` and the vendored `Poseidon2::permutation` compute the same
one. A state is the list of its `t` elements.
-/

namespace PrivatePayments.Poseidon2

/-- `SBox`: the fifth power. -/
def sBox (inp : Fr) : Fr :=
  let x2 := inp * inp
  let x4 := x2 * x2
  inp * x4

/-- `MatMul_M4`: the external matrix of width 4. -/
def matMulM4 : List Fr → List Fr
  | [i0, i1, i2, i3] =>
      let t0 := i0 + i1
      let t1 := i2 + i3
      let t2 := 2 * i1 + t1
      let t3 := 2 * i3 + t0
      let t4 := 4 * t1 + t3
      let t5 := 4 * t0 + t2
      [t3 + t5, t5, t2 + t4, t4]
  | inp => inp

/-- `LinearLayer`: the external matrix, which is also the last step of a full round. -/
def linearLayer (inp : List Fr) : List Fr :=
  if inp.length = 4 then matMulM4 inp else inp.map (inp.sum + ·)

/-- `ExternalRound`: one full round with the round's row of constants. -/
def externalRound (inp : List Fr) (roundConsts : List Fr) : List Fr :=
  linearLayer (List.zipWith (fun x c => sBox (x + c)) inp roundConsts)

/-- `InternalRound`: one partial round; only the first element passes the S-box. -/
def internalRound (internalMat : List Fr) (inp : List Fr) (roundConst : Fr) : List Fr :=
  match inp with
  | [] => []
  | x :: rest =>
      let sb := sBox (x + roundConst) :: rest
      List.zipWith (fun x d => sb.sum + x * d) sb internalMat

/-- `Permutation(t)` for `t = inputs.length`: four full rounds, 56 partial rounds and
four more full rounds after the first linear layer. -/
def permutation (inputs : List Fr) : List Fr :=
  let t := inputs.length
  let aux := ((poseidonFullRounds t).take 4).foldl externalRound (linearLayer inputs)
  let aux := (poseidonPartialRounds t).foldl (internalRound (poseidonInternalMatDiag t)) aux
  ((poseidonFullRounds t).drop 4).foldl externalRound aux

end PrivatePayments.Poseidon2
