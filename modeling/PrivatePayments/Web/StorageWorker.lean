import PrivatePayments.Prover.Flows
import PrivatePayments.State.WitnessReads

/-!
# PrivatePayments.Web.StorageWorker

The answer of the storage worker to a `Transact` request
(`platforms/web/src/workers/storage.rs`): it reads the user's keys, the proof of membership
and the notes to spend from the local database, compares what is there with the snapshot of
the chain that the request carries, and hands the prover its parameters.

The random blindings of the outputs are an argument.
-/

namespace PrivatePayments.Web

open State Prover

open Stellar (AspNonMembershipProof)

/-- `TransactRequest`: the state of the pool and of the association set, as they were read
from the chain, and what is to be spent and paid. -/
structure TransactRequest where
  userAddress : String
  poolRoot : Option Fr
  poolNextIndex : UInt32
  poolAddress : String
  extRecipient : String
  extAmount : ExtAmount
  aspmemRoot : Fr
  aspmemContractId : String
  aspmemLedger : UInt32
  inputCommitments : List Fr
  outputAmounts : Fin 2 → NoteAmount
  outRecipientNotePubkeys : Fin 2 → Option Bytes32
  outRecipientEncryptionPubkeys : Fin 2 → Option Bytes32
  smtDepth : UInt32
  treeDepth : UInt32
  nonMembershipProof : AspNonMembershipProof

/-- The answers to a `Transact` request, of `StorageWorkerResponse`. -/
inductive StorageWorkerResponse
  | transactParams (params : TransactParams)
  | aspMembershipSync (status : AspMembershipSync)
  | error (message : String)

/-- `load_user_key_material` -/
def loadUserKeyMaterial (s : Storage) (userAddress : String) : Except String StoredUserKeys :=
  match getUserKeys s userAddress with
  | some keys => .ok keys
  | none => .error s!"address {userAddress} should generate privacy keys and ASP secret first"

/-- `build_membership_proof`: the inner result is the status when the database is behind. -/
def buildMembershipProof (s : Storage) (syncMetadata : List SyncMetadata)
    (aspmemContractId : String) (notePubkey : Bytes32) (membershipBlinding aspmemRoot : Fr)
    (aspmemLedger treeDepth : UInt32) :
    Except String (Except AspMembershipSync AspMembershipProof) := do
  let userLeaf ← aspMembershipLeaf notePubkey.val membershipBlinding
  let status ← checkAspMembershipPrecondition s syncMetadata aspmemContractId userLeaf aspmemRoot
    aspmemLedger
  match status with
  | .userIndex userLeafIndex => do
      let leaves ← getAllAspMembershipLeavesOrdered s aspmemContractId
      let tree ← MerklePrefixTree.new treeDepth.toNat leaves
      let proof ← tree.build.proof userLeafIndex.toNat
      .ok (.ok
        { leaf := userLeaf
          blinding := membershipBlinding
          pathElements := proof.pathElements
          pathIndices := proof.pathIndices
          root := proof.root })
  | status => .ok (.error status)

/-- `build_validated_pool_tree` -/
def buildValidatedPoolTree (s : Storage) (poolAddress : String) (poolNextIndex treeDepth : UInt32)
    (expectedPoolRoot : Fr) : Except String (Except AspMembershipSync MerklePrefixTreeBuilt) := do
  let leaves ← getPoolCommitmentLeavesOrdered s poolAddress
  if leaves.length ≠ poolNextIndex.toNat then .ok (.error (.syncRequired none))
  else do
    let tree ← MerklePrefixTree.new treeDepth.toNat leaves
    let computedRoot ← tree.build.root
    if computedRoot ≠ expectedPoolRoot then
      .error "pool root mismatch: local computed root does not match on-chain root"
    else .ok (.ok tree.build)

/-- `build_pool_input_note` -/
def buildPoolInputNote (amount : NoteAmount) (blinding : Fr) (leafIndex : UInt32)
    (tree : MerklePrefixTreeBuilt) : Except String TransactInputNote := do
  let proof ← tree.proof leafIndex.toNat
  .ok
    { amount
      blinding
      merklePathElements := proof.pathElements
      merklePathIndices := proof.pathIndices }

/-- The loop of `build_pool_inputs` over the commitments. -/
def buildPoolInputNotes (s : Storage) (userAddress poolAddress : String)
    (tree : MerklePrefixTreeBuilt) :
    List Fr → Except String (Except AspMembershipSync (List TransactInputNote))
  | [] => .ok (.ok [])
  | commitment :: commitments => do
      let found ← getUnspentUserNoteByCommitment s poolAddress userAddress commitment
      match found with
      | none => .ok (.error (.syncRequired none))
      | some (amount, blinding, leafIndex) => do
          let note ← buildPoolInputNote amount blinding leafIndex tree
          let rest ← buildPoolInputNotes s userAddress poolAddress tree commitments
          .ok (rest.map (note :: ·))

/-- `build_pool_inputs` -/
def buildPoolInputs (s : Storage) (userAddress poolAddress : String)
    (poolNextIndex treeDepth : UInt32) (expectedPoolRoot : Fr) (inputCommitments : List Fr) :
    Except String (Except AspMembershipSync (List TransactInputNote)) :=
  if inputCommitments.isEmpty then .ok (.ok [])
  else do
    let validated ← buildValidatedPoolTree s poolAddress poolNextIndex treeDepth expectedPoolRoot
    match validated with
    | .error status => .ok (.error status)
    | .ok tree => buildPoolInputNotes s userAddress poolAddress tree inputCommitments

/-- Output `i` of the request: its keys are both set or both null. -/
def buildOutput (outputBlinding : Fin 2 → Fr) (req : TransactRequest) (i : Fin 2) :
    Except String TransactOutput :=
  let notePk := req.outRecipientNotePubkeys i
  let encPk := req.outRecipientEncryptionPubkeys i
  if notePk.isSome ≠ encPk.isSome then
    .error (s!"output {i}: recipient_note_pubkey and recipient_encryption_pubkey " ++
      "must both be set or both be null")
  else .ok
    { amount := req.outputAmounts i
      blinding := outputBlinding i
      recipientNotePubkey := notePk
      recipientEncryptionPubkey := encPk }

/-- The loop of the handler over the outputs. -/
def buildOutputs (outputBlinding : Fin 2 → Fr) (req : TransactRequest) :
    Except String (List TransactOutput) :=
  (List.finRange nOutputs).mapM (buildOutput outputBlinding req)

/-- The handler of `StorageWorkerRequest::Transact`. -/
def transactRequest (s : Storage) (syncMetadata : List SyncMetadata)
    (outputBlinding : Fin 2 → Fr) (req : TransactRequest) :
    Except String StorageWorkerResponse :=
  if req.inputCommitments.length > 2 then
    .ok (.error "transact input_commitments must have length 0..=2")
  else do
    let keys ← loadUserKeyMaterial s req.userAddress
    let membership ← buildMembershipProof s syncMetadata req.aspmemContractId
      keys.noteKeypair.publicKey keys.membershipBlinding req.aspmemRoot req.aspmemLedger
      req.treeDepth
    match membership with
    | .error status => .ok (.aspMembershipSync status)
    | .ok membershipProof => do
        let poolRoot ← okOr "missing pool_root" req.poolRoot
        let poolInputs ← buildPoolInputs s req.userAddress req.poolAddress req.poolNextIndex
          req.treeDepth poolRoot req.inputCommitments
        match poolInputs with
        | .error status => .ok (.aspMembershipSync status)
        | .ok inputs =>
            match buildOutputs outputBlinding req with
            | .error message => .ok (.error message)
            | .ok outputs => .ok (.transactParams
                { privKey := keys.noteKeypair.privateKey
                  encryptionPubkey := keys.encryptionKeypair.publicKey
                  poolRoot
                  extRecipient := req.extRecipient
                  extAmount := req.extAmount
                  inputs
                  outputs
                  membershipProof
                  nonMembershipProof := req.nonMembershipProof
                  treeDepth := req.treeDepth
                  smtDepth := req.smtDepth })

end PrivatePayments.Web
