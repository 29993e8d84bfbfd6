/-
# `EvmSail.Transition.Transaction` — the step of one transaction

A transaction is checked, charged for all the gas and all the blobs it may
use, run, and settled: what is left goes back to the sender, the coinbase is
paid, and the rows of the transaction are merged into those of the block.

A transaction that is not accepted has no result at all.  Behind the check
everything is written over the operation that ether is paid with
(`processTransactionWith`); `processTransaction` pays with the kernel's.
-/
import EvmSail.Kernel.Lifecycle
import EvmSail.Transition.TopFrame

namespace EvmSail.Vm

open Fallible Kernel

section

variable (ctx : Context) (ecrecover : Hash → Fin 2 → Word → Word → AddressResult)

/-! ## Before the frame -/

/-- What the validity of a transaction is checked in. -/
def Context.validityEnv : ValidityEnv :=
  { kernel := ctx.kernel
    chainId := ctx.chainId
    baseFee := ctx.header.baseFee
    excessBlobGas := ctx.header.excessBlobGas
    ecrecover := ecrecover }

/-- Resets the kernel, checks the transaction and recovers its authorities. -/
def admitTransaction (tx : TransactionFields) (allowance : TransactionGasAllowance) :
    Exec (TxValidity × PreparedAuthorizationList) := do
  modify fun s => { s with kernel := kTxReset s.kernel }
  let v ← syscall (checkTransactionValidity (ctx.validityEnv ecrecover) tx allowance)
  let authorizations ← liftM (prepareAuthorizations ctx.kernel.keccak256 ecrecover
    tx.authorizations)
  pure (v, authorizations)

/-- `k_set_tx`. -/
def Context.withTx (tx : TransactionFields) (v : TxValidity) : Context :=
  { ctx with tx := { origin := tx.sender, gasPrice := v.gasPrice, blobHashes := tx.blobHashes } }

/-- Warms what a transaction names: itself, the coinbase from Shanghai on, and
its access list. -/
def prewarm (tx : TransactionFields) : Exec Unit := do
  syscall (kAccountMarkWarm ctx.kernel tx.sender)
  (if tx.isCreate then pure ()
    else syscall (kAccountMarkWarm ctx.kernel tx.recipient) : Exec Unit)
  (if .shanghai ≤ ctx.kernel.profile.fork then
      syscall (kAccountMarkWarm ctx.kernel ctx.header.feeRecipient)
    else pure () : Exec Unit)
  syscall (warmAccessList (kernelWarmSets ctx.kernel) tx.accessList.encoded)

/-- From Amsterdam on it is taken down whether a creation's account exists. -/
def createTargetEmpty (tx : TransactionFields) (v : TxValidity) : Exec Bool :=
  if ctx.amsterdam ∧ tx.isCreate then do
    let createTarget ← kCreateAddr ctx v.sender v.nonceBefore
    let targetExists ← syscall (kAccountExists ctx.kernel createTarget)
    pure (!targetExists)
  else pure false

/-- What persists when the frame fails: the charges for gas and blobs, the
nonce, the warm sets, and before Amsterdam the authorizations. -/
def applyTransactionUpfrontEffects (pay : Payment → Exec Unit) (tx : TransactionFields)
    (v : TxValidity) (authorizations : PreparedAuthorizationList) : Exec TxUpfrontResult := do
  let createTargetPrestateEmpty ← createTargetEmpty ctx tx v
  let gasDebit ← liftM (validatedWordProduct v.gasPrice v.gas.admittedLimit)
  pay (.debit v.sender gasDebit)
  (if v.blobFee ≠ 0 then pay (.debit v.sender (BitVec.ofNat 256 v.blobFee))
    else pure () : Exec Unit)
  syscall (kBumpNonce ctx.kernel v.sender)
  prewarm ctx tx
  let authorizationRefund ← (if ctx.amsterdam then pure 0
    else processAuthList ctx authorizations : Exec Nat)
  pure
    { authorizationRefund := authorizationRefund
      createTargetPrestateEmpty := createTargetPrestateEmpty }

/-! ## Behind the frame -/

structure TransactionReceipt where
  txType : TxType
  success : Bool
  gasUsed : Nat
  executionGas : Nat
  stateGas : Nat
  logs : LogSeriesRef

/-- Pays what is settled, merges the transaction, and writes the receipt. -/
def settleTransaction (pay : Payment → Exec Unit) (tx : TransactionFields) (v : TxValidity)
    (logsStart authorizationRefund : Nat) (fr : TxFrameResult v.gas) :
    Exec TransactionReceipt := do
  let settled := settleGas ctx.kernel.profile authorizationRefund fr
  let senderRefund ← liftM (validatedWordProduct v.gasPrice settled.left)
  pay (.credit v.sender senderRefund)
  let priorityPayment ← liftM (validatedWordProduct v.priorityFee settled.used)
  pay (.credit ctx.header.feeRecipient priorityPayment)
  journal (kTxMerge ctx.kernel.profile.fork)
  let s ← get
  if settled.used ≤ settled.execution + settled.state then
    pure
      { txType := tx.txType
        success := fr.success
        gasUsed := settled.used
        executionGas := settled.execution
        stateGas := settled.state
        logs := readLogs logsStart s.kernel }
  else liftM (fatalError .executionInvalid : Result TransactionReceipt)

/-! ## The whole step -/

/-- A transaction that has been admitted, in its own environment. -/
def runTransaction (pay : Payment → Exec Unit) (tx : TransactionFields) (v : TxValidity)
    (logsStart : Nat) (authorizations : PreparedAuthorizationList) : Exec TransactionReceipt := do
  let upfront ← applyTransactionUpfrontEffects ctx pay tx v authorizations
  let frameResult ← runTransactionFrame ctx tx v pay upfront authorizations
  settleTransaction ctx pay tx v logsStart upfront.authorizationRefund frameResult

def processTransactionWith (pay : Payment → Exec Unit) (tx : TransactionFields)
    (allowance : TransactionGasAllowance) : Exec TransactionReceipt := do
  let logsStart := (retainedLogs (← get).kernel).length
  let (v, authorizations) ← admitTransaction ctx ecrecover tx allowance
  runTransaction (ctx.withTx tx v) pay tx v logsStart authorizations

/-- `process_transaction`. -/
def processTransaction (tx : TransactionFields) (allowance : TransactionGasAllowance) :
    Exec TransactionReceipt :=
  processTransactionWith ctx ecrecover (kPay ctx.kernel) tx allowance

end

end EvmSail.Vm
