import MetaVm.Lib.Numerals
import MetaVm.Lib.CoeffList
import MetaVm.Lib.Dft
import MetaVm.Lib.Outcome
import MetaVm.Lib.Words
import MetaVm.Zkp.Field
import MetaVm.Zkp.Fft
import MetaVm.Zkp.PolyArith
import MetaVm.Riscv.Rv64
import MetaVm.Riscv.Isa
import MetaVm.Riscv.Machine.Memory
import MetaVm.Riscv.Machine.Csr
import MetaVm.Riscv.Machine.Cpu
import MetaVm.Riscv.Machine.Mmu
import MetaVm.Riscv.Machine.Virtio
import MetaVm.Riscv.Machine.Mmio
import MetaVm.Riscv.Machine.Vm
import MetaVm.Riscv.Machine.Frame
import MetaVm.Riscv.Decode
import MetaVm.Riscv.Constraints.Columns
import MetaVm.Riscv.Trace.Encoding
import MetaVm.Riscv.Trace.Witness
import MetaVm.Riscv.Trace.TracingVm
import MetaVm.Riscv.Trace.Export
import MetaVm.Riscv.Constraints.Alu
import MetaVm.Riscv.Constraints.System
import MetaVm.Riscv.Constraints.OneHot
import MetaVm.Riscv.Constraints.Prover
import MetaVm.Riscv.Constraints.ProverVerifier
import MetaVm.Riscv.Constraints.Domain
import MetaVm.Riscv.Constraints.DomainAgreement
import MetaVm.Riscv.Constraints.Soundness.Accepted
import MetaVm.Riscv.Constraints.Soundness.Arithmetic
import MetaVm.Riscv.Constraints.Soundness.Jumps
import MetaVm.Riscv.Constraints.Completeness.Equations
import MetaVm.Riscv.Constraints.Completeness.Alu
import MetaVm.Riscv.Constraints.Completeness.ControlFlow
import MetaVm.Riscv.Constraints.Completeness.WordOps
import MetaVm.Riscv.Constraints.Completeness.MulDiv
import MetaVm.Riscv.Constraints.Completeness.Atomics
import MetaVm.Lib.RunningSum
import MetaVm.Lib.Digits
import MetaVm.Zkp.Lookup
import MetaVm.Zkp.LookupSoundness
import MetaVm.Zkp.LookupWitness
import MetaVm.Zkp.RangeChecks
import MetaVm.Zkp.LogupCompleteness
import MetaVm.Zkp.Bitwise
import MetaVm.Zkp.BitwiseSoundness
import MetaVm.Zkp.BitwiseWitness
import MetaVm.Zkp.BitwiseCorrect
import MetaVm.Lib.GrandProduct
import MetaVm.Lib.Chain
import MetaVm.Zkp.Permutation
import MetaVm.Zkp.MemoryAccesses
import MetaVm.Zkp.MemoryOrder
import MetaVm.Zkp.RegisterSoundness
import MetaVm.Lib.Framing
import MetaVm.Zkp.Proof
import MetaVm.Zkp.LayerChain
import MetaVm.Zkp.ProofCodec
import MetaVm.Lib.CarryStack
import MetaVm.Zkp.Transcript
import MetaVm.Zkp.Recursive
import MetaVm.Zkp.TreeFold
import MetaVm.Zkp.JointChallenges
import MetaVm.Zkp.CrossAirLogup
import MetaVm.Zkp.LinkageWitness
import MetaVm.Zkp.LinkageCompleteness
import MetaVm.Lib.Nesting
import MetaVm.Zkp.FrameStack
import MetaVm.Evm.Columns
import MetaVm.Evm.FrameRestoration
import MetaVm.Zkp.ConstraintPoly
import MetaVm.Evm.Constraints.Limbs
import MetaVm.Evm.Constraints.Bodies
import MetaVm.Evm.Constraints.System
import MetaVm.Evm.Constraints.Prover
import MetaVm.Evm.Constraints.ProverVerifier
import MetaVm.Evm.Constraints.Shifted
import MetaVm.Lib.LimbChain
import MetaVm.Evm.Word
import MetaVm.Evm.WordArith
import MetaVm.Evm.WordDivision
import MetaVm.Evm.ColumnCarries
import MetaVm.Evm.MulDivWitness
import MetaVm.Evm.Semantics
import MetaVm.Evm.Trace
import MetaVm.Evm.Constraints.DomainAgreement
import MetaVm.Evm.Constraints.Rows
import MetaVm.Evm.Constraints.Completeness.MulDiv
import MetaVm.Evm.Constraints.Completeness.Instructions
import MetaVm.Evm.Constraints.OneHot
import MetaVm.Lib.CasperFfg
import MetaVm.Zkp.Finality
import MetaVm.Zkp.FinalityStake
import MetaVm.Zkp.FinalityRun
import MetaVm.Zkp.AccountableSafety
import MetaVm.Lib.OfflineMemory
import MetaVm.Riscv.Machine.Registers
import MetaVm.Riscv.Constraints.PortHonesty
import MetaVm.Lib.SelectorSystem
import MetaVm.Sbf.Columns
import MetaVm.Sbf.Trace
import MetaVm.Sbf.Constraints.System
import MetaVm.Sbf.Constraints.Prover
import MetaVm.Sbf.Constraints.ProverVerifier
import MetaVm.Sbf.Constraints.Domain
import MetaVm.Sbf.Constraints.Rows
import MetaVm.Sbf.Constraints.DomainVectors
import MetaVm.Sbf.Constraints.DomainAgreement
import MetaVm.Zkp.WordScalars
import MetaVm.Sbf.Semantics
import MetaVm.Sbf.Constraints.Lookups
import MetaVm.Sbf.Constraints.Soundness.Alu
import MetaVm.Sbf.Constraints.Soundness.Branches
import MetaVm.Zkp.Rlp
import MetaVm.Zkp.RlpCanonical
import MetaVm.Riscv.Trace.MemoryHash
import MetaVm.Riscv.Trace.TracerAgreement
import MetaVm.Riscv.Trace.InstructionNaming
import MetaVm.Riscv.Trace.PcContinuity
import MetaVm.Riscv.Machine.Privilege
import MetaVm.Riscv.Machine.Interrupts
import MetaVm.Riscv.Machine.TrapReturn
import MetaVm.Lib.BitFields
import MetaVm.Riscv.Encode
import MetaVm.Riscv.DecodeEncode
import MetaVm.Lib.Reservation
import MetaVm.Riscv.Machine.Reservations
import MetaVm.Lib.ByteOrder
import MetaVm.Riscv.Machine.Bytes
import MetaVm.Riscv.Machine.Translation
import MetaVm.Riscv.Machine.AccessedDirty
import MetaVm.Zkp.GrandProductClosure
import MetaVm.Zkp.RlpSafety
import MetaVm.Zkp.Ssz
import MetaVm.Lib.MerkleTree
import MetaVm.Zkp.SszBinding
import MetaVm.Zkp.QuotientSplit
import MetaVm.Riscv.CanonicalEncoding
import MetaVm.Riscv.Machine.CsrIsolation
import MetaVm.Riscv.Machine.Sv39
import MetaVm.Riscv.Machine.DriverLoops
import MetaVm.Riscv.Machine.ByteAccess
import MetaVm.Riscv.Machine.PageCrossing
import MetaVm.Zkp.DepositTree
import MetaVm.Lib.SwapOrNot
import MetaVm.Zkp.LayerConsistency
import MetaVm.Zkp.Shuffle
import MetaVm.Core.Share
import MetaVm.Lib.Walk
import MetaVm.Zkp.ForkChoice
import MetaVm.Zkp.ForkChoiceHead
import MetaVm.Zkp.Mpt
import MetaVm.Zkp.MptCompleteness
import MetaVm.Zkp.Transaction
import MetaVm.Zkp.TransactionBinding
import MetaVm.Riscv.Machine.GuestPorts
import MetaVm.Riscv.Machine.RegisterBytes
import MetaVm.Riscv.Machine.GuestWords
import MetaVm.Zkp.ByteMemory
import MetaVm.Zkp.ByteMemoryExact
import MetaVm.Riscv.Machine.VirtioRequest
import MetaVm.Riscv.Machine.VirtioQueue
import MetaVm.Lib.Primality
import MetaVm.Zkp.NonnativeLimbs
import MetaVm.Zkp.NonnativeDivision
import MetaVm.Zkp.NonnativeFp
import MetaVm.Zkp.NonnativeArithmetic
import MetaVm.Zkp.NonnativeExtension
import MetaVm.Evm.Jumpdest
import MetaVm.Evm.BaseFee
import MetaVm.Evm.MemoryExpansion
import MetaVm.Evm.DivisionExact
import MetaVm.Zkp.TranscriptHistory
import MetaVm.Evm.StackDepth
import MetaVm.Evm.StorageAccess
import MetaVm.Zkp.DepositTreeWitness
import MetaVm.Zkp.DepositTreeSoundness
import MetaVm.Zkp.RegisterOrder
import MetaVm.Zkp.RegisterWitness
import MetaVm.Riscv.Machine.TlbSoundness
import MetaVm.Riscv.Machine.PageMarks
import MetaVm.Riscv.Trace.Evolution
import MetaVm.Riscv.Machine.InterruptController
import MetaVm.Riscv.Trace.ChunkChain
