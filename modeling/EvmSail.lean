import EvmSail.Lib.Fallible
import EvmSail.Lib.RadixBuild
import EvmSail.Prelude
import EvmSail.Mpt.Path
import EvmSail.Rlp.Encoding
import EvmSail.Rlp.Decoding
import EvmSail.Rlp.Values
import EvmSail.Mpt.HexPrefix
import EvmSail.Mpt.Canonical
import EvmSail.Mpt.Codec
import EvmSail.Mpt.CodecSound
import EvmSail.Mpt.Rekeying
import EvmSail.Mpt.Updates
import EvmSail.Mpt.Walker
import EvmSail.Mpt.FailClosed
import EvmSail.Mpt.Assembly
import EvmSail.Mpt.UpdateCursor
import EvmSail.Mpt.WalkerSound
import EvmSail.Mpt.KeyValueMap
import EvmSail.Mpt.RootSound
import EvmSail.Mpt.Consumption
import EvmSail.Mpt.IndexKeys
import EvmSail.Executor.PayloadRoots
import EvmSail.Executor.PayloadRootsSound
import EvmSail.Evm.MemoryGas
import EvmSail.Evm.ArenaBound
import EvmSail.Lib.Journal
import EvmSail.Optimised.HostState
import EvmSail.Optimised.HostView
import EvmSail.Optimised.Rollback
import EvmSail.Optimised.Lifecycle
import EvmSail.Tx.Acceptance
import EvmSail.Tx.AccessListWarming
import EvmSail.Ssz.InputSound
import EvmSail.Ssz.PayloadRequestRoot
import EvmSail.Ssz.WitnessHeadersSound
import EvmSail.Evm.BlobGasChain
import EvmSail.Evm.MemoryPrice
import EvmSail.Optimised.StatelessInput
import EvmSail.Kernel.Delegation
import EvmSail.Tx.Validity
import EvmSail.Runtime.Conversion
import EvmSail.Evm.AluSound
import EvmSail.Evm.StoreRefunds
import EvmSail.Evm.StateGasLedger
import EvmSail.Evm.ModexpGas
import EvmSail.Rlp.Sizes
import EvmSail.Executor.BlockTransactions
import EvmSail.Ssz.ListItems
import EvmSail.Evm.PrecompileGas
import EvmSail.Evm.Modexp
import EvmSail.Optimised.TransactionCosts
import EvmSail.Optimised.LogsBloom
import EvmSail.Optimised.HashTreeRoot
import EvmSail.Optimised.BlockAccessComplete
import EvmSail.Optimised.OrderedTrieRun
import EvmSail.Mpt.PathLaws
import EvmSail.Mpt.HexPrefixExact
import EvmSail.Optimised.WitnessAgreement
import EvmSail.Vm.OpcodeFailures
import EvmSail.Vm.Placement
import EvmSail.Vm.Isolation
import EvmSail.Vm.Refunds
import EvmSail.Vm.Termination
import EvmSail.Vm.GasMachine
import EvmSail.Vm.StateCredits
import EvmSail.Vm.FailedCalls
import EvmSail.Vm.FrameDiscipline
import EvmSail.Transition.Covered
