import PrivatePayments.Lib.PerfectTree
import PrivatePayments.Bn254
import PrivatePayments.Poseidon2.Constants
import PrivatePayments.Poseidon2.Permutation
import PrivatePayments.Poseidon2.Hash
import PrivatePayments.Soroban
import PrivatePayments.Contracts.MerkleWithHistory
import PrivatePayments.Contracts.MerkleWithHistorySound
import PrivatePayments.Prover.Merkle
import PrivatePayments.Contracts.AspMembership
import PrivatePayments.Contracts.AspMembershipSound
import PrivatePayments.Circuits.Circomlib
import PrivatePayments.Circuits.SmtVerifier
import PrivatePayments.Circuits.PolicyTransaction
import PrivatePayments.Contracts.Pool
import PrivatePayments.Contracts.PoolSound
import PrivatePayments.Lib.NoteLedger
import PrivatePayments.Lib.Table
import PrivatePayments.Contracts.PoolLedger
import PrivatePayments.Contracts.PoolSafety
import PrivatePayments.Contracts.Groth16Verifier
import PrivatePayments.Contracts.PoolBinding
import PrivatePayments.Circuits.SmtVerifierSound
import PrivatePayments.Lib.SparseTree
import PrivatePayments.Contracts.AspNonMembership
import PrivatePayments.Contracts.AspNonMembershipSound
import PrivatePayments.Contracts.AspNonMembershipInsert
import PrivatePayments.Contracts.AspNonMembershipDelete
import PrivatePayments.Contracts.AspNonMembershipMap
import PrivatePayments.Contracts.NonMembershipProof
import PrivatePayments.Lib.Outcome
import PrivatePayments.Types
import PrivatePayments.State.Storage
import PrivatePayments.State.StorageSound
import PrivatePayments.State.CommitmentMirror
import PrivatePayments.State.EventsParsers
import PrivatePayments.State.Processor
import PrivatePayments.State.Drain
import PrivatePayments.Prover.Serialization
import PrivatePayments.Prover.CircuitInputs
import PrivatePayments.Prover.Crypto
import PrivatePayments.Prover.Encryption
import PrivatePayments.Prover.Notes
import PrivatePayments.Prover.Flows
import PrivatePayments.Prover.FlowsSound
import PrivatePayments.Prover.HonestWitness
import PrivatePayments.Prover.Delivery
import PrivatePayments.State.NoteDiscovery
import PrivatePayments.State.NoteScan
import PrivatePayments.State.NoteScanSound
import PrivatePayments.State.ReconcileSound
import PrivatePayments.State.SpentStatus
import PrivatePayments.State.Writes
import PrivatePayments.State.ClientRun
import PrivatePayments.State.WitnessReads
import PrivatePayments.State.WitnessReadsSound
import PrivatePayments.Web.StorageWorker
import PrivatePayments.Web.WitnessSound
import PrivatePayments.Stellar.ScVal
import PrivatePayments.Stellar.ExtDataHash
import PrivatePayments.Stellar.ContractState
import PrivatePayments.Stellar.NonMembershipUsable
import PrivatePayments.Prover.SparseMerkle
import PrivatePayments.Prover.SparseMerkleSound
import PrivatePayments.Stellar.Indexer
import PrivatePayments.Stellar.IndexerSound
import PrivatePayments.Lib.TopSums
import PrivatePayments.TxPlanner.Combination
import PrivatePayments.TxPlanner.CombinationSound
import PrivatePayments.TxPlanner.Plan
import PrivatePayments.TxPlanner.Session
import PrivatePayments.TxPlanner.PlanSound
import PrivatePayments.TxPlanner.SessionSound
import PrivatePayments.Contracts.VerifyNonMembership
import PrivatePayments.Contracts.MembershipHistory
import PrivatePayments.State.MembershipSync
import PrivatePayments.Contracts.PublicKeyRegistry
import PrivatePayments.State.AddressBook
import PrivatePayments.Stellar.Snapshot
import PrivatePayments.Stellar.SnapshotSound
import PrivatePayments.Stellar.Deployments
import PrivatePayments.Bootnode.Indexer
import PrivatePayments.Bootnode.Chain
import PrivatePayments.Bootnode.Rpc
import PrivatePayments.Bootnode.Handoff
import PrivatePayments.ProverApi.Chain
import PrivatePayments.ProverApi.ChainSound
import PrivatePayments.Lib.PrefixCode
import PrivatePayments.Circuits.SelectiveDisclosure
import PrivatePayments.Prover.Groth16
import PrivatePayments.Disclosure.Receipt
import PrivatePayments.Disclosure.Verify
import PrivatePayments.Prover.SelectiveDisclosure
import PrivatePayments.Stellar.PoolRoots
import PrivatePayments.Disclosure.ReceiptSound
import PrivatePayments.Disclosure.Canonical
import PrivatePayments.TxPlanner.CombinationComplete
import PrivatePayments.TxPlanner.PlanComplete
import PrivatePayments.TxPlanner.PlanChain
import PrivatePayments.TxPlanner.SessionFinal
import PrivatePayments.Circuits.Merkle
import PrivatePayments.Prover.MerkleAgree
import PrivatePayments.Prover.BulkWithdraw
import PrivatePayments.Prover.BulkWithdrawSound
import PrivatePayments.Contracts.AspNonMembershipNodes
import PrivatePayments.Circuits.SparseMerkleTree
import PrivatePayments.Prover.SparseMerkleReference
import PrivatePayments.Lib.Recording
import PrivatePayments.State.NoteVisits
import PrivatePayments.State.NoteVisitsOnce
import PrivatePayments.Stellar.Conversions
import PrivatePayments.Prover.HexScalar
import PrivatePayments.Lib.TwoPointers
import PrivatePayments.TxPlanner.TwoScanOptimal
import PrivatePayments.Lib.Worklist
import PrivatePayments.Lib.AppendMap
import PrivatePayments.Witness.FlattenInput
import PrivatePayments.Witness.FlattenInputSound
import PrivatePayments.Lib.Tape
import PrivatePayments.Prover.R1cs
import PrivatePayments.Prover.R1csCapacity
import PrivatePayments.Prover.R1csSound
import PrivatePayments.Contracts.PoolAcceptance
import PrivatePayments.OnChain.System
import PrivatePayments.SorobanRules
import PrivatePayments.Contracts.AspNonMembershipEvents
import PrivatePayments.Contracts.AspMembershipEvents
import PrivatePayments.OnChain.SystemSound
import PrivatePayments.OnChain.Custody
import PrivatePayments.OnChain.Contracts
import PrivatePayments.OnChain.Policy
import PrivatePayments.OnChain.Authority
import PrivatePayments.OnChain.Events
import PrivatePayments.Stellar.SorobanEncode
import PrivatePayments.OnChain.HonestTransaction
import PrivatePayments.Stellar.TxPrepare
import PrivatePayments.Stellar.Signer
import PrivatePayments.Stellar.SignerSound
import PrivatePayments.Relayer.Relay
import PrivatePayments.Relayer.RelaySound
import PrivatePayments.State.Portfolio
import PrivatePayments.State.NotesComplete
import PrivatePayments.Web.PortfolioSound
import PrivatePayments.State.Rounds
import PrivatePayments.Web.EventsProcessorSound
import PrivatePayments.Web.EventsProcessor
import PrivatePayments.Prover.ProofCircuit
import PrivatePayments.Prover.ProofCircuitSound
