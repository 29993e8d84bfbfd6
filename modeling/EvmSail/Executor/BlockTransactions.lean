/-
# `EvmSail.Executor.BlockTransactions` — the transaction loop of a block

Each transaction is decoded, admitted against the gas that the block has
left, and processed; its receipt is retained, and from Prague on its logs
are compared with the deposit requests at once.  What the requests have
left after the last transaction must be nothing.

The processing of a transaction is a parameter here, and any receipts may
come from it.  What a transaction has emitted is bound to what its frames
did (`SettledTransaction.run`), so that the logs the comparison reads are
the ones that have survived.

The loop hands each transaction's logs over as it goes, and so compares
the requests with the deposits of the whole block
(`depositAuthentication_exact`).
-/
import EvmSail.Executor.Deposits
import EvmSail.Executor.PayloadRoots
import EvmSail.Evm.BlobGas
import EvmSail.Evm.TransactionGas
import EvmSail.Lib.Producing
import EvmSail.Rlp.Codecs
import EvmSail.Ssz.StatelessInput
import EvmSail.Tx.Codec

namespace EvmSail

open Fallible Kernel

/-! ## The gas of a block -/

/-- The exact gas accumulated under one header gas limit. -/
structure BlockGasUsage (limit : Nat) where
  execution : Nat
  state : Nat
  receipts : Nat
  execution_le : execution ≤ limit
  state_le : state ≤ limit
  receipts_le : receipts ≤ execution + state

def blockGasUsageEmpty (limit : Nat) : BlockGasUsage limit where
  execution := 0
  state := 0
  receipts := 0
  execution_le := Nat.zero_le _
  state_le := Nat.zero_le _
  receipts_le := Nat.le_refl _

/-- Adds contributions that the remaining budgets cover. -/
def blockGasUsageAdd {limit : Nat} (usage : BlockGasUsage limit)
    (addExecution addState addReceipt : Nat) (hexecution : addExecution ≤ limit - usage.execution)
    (hstate : addState ≤ limit - usage.state) (hreceipt : addReceipt ≤ addExecution + addState) :
    BlockGasUsage limit where
  execution := usage.execution + addExecution
  state := usage.state + addState
  receipts := usage.receipts + addReceipt
  execution_le := Nat.add_le_of_le_sub' usage.execution_le hexecution
  state_le := Nat.add_le_of_le_sub' usage.state_le hstate
  receipts_le := by
    have h := usage.receipts_le
    omega

/-! ## Settled transactions -/

/-- What is left of a transaction: its receipt, under the gas it was
admitted with, and the kernel.  The receipt's logs are the records that
its frames have left in the store. -/
structure SettledTransaction (env : Env) (before : Host) (allowance : TransactionGasAllowance) where
  txType : TxType
  success : Bool
  gasUsed : Nat
  executionGas : Nat
  stateGas : Nat
  gasUsed_le : gasUsed ≤ allowance.total
  executionGas_le : executionGas ≤ allowance.regular
  stateGas_le : stateGas ≤ allowance.total
  gasUsed_split : gasUsed ≤ executionGas + stateGas
  emitted : List LogRecord
  after : Host
  run : LogRun env ⟨[[]], kTxReset before⟩ ⟨[emitted], after⟩
  indexed : (retainedLogs after).length ≤ logStoreIndexBound

/-- The logs of a receipt, with the kernel whose store they are in. -/
structure EmittedLogs where
  host : Host
  series : LogSeriesRef
  records : List LogRecord
  holds : series.Holds host records

def SettledTransaction.logs {env : Env} {before : Host} {allowance : TransactionGasAllowance}
    (t : SettledTransaction env before allowance) : EmittedLogs where
  host := t.after
  series := readLogs (retainedLogs before).length t.after
  records := t.emitted
  holds := t.run.holds t.indexed

/-! ## The loop -/

def publicKeyLength : Nat := 65

/-- The variables of the loop, with the kernel and the start that the log
store was last reset to. -/
structure BlockProgress (limit : Nat) where
  cursor : BoundedSszListCursor
  keys : StatelessInputSlice
  usage : BlockGasUsage limit
  blobGas : Nat
  firstTxRecipient : Address
  receiptRecords : ScratchSlice
  logsStart : Nat
  logsTxStart : Nat
  host : Host

structure BlockExecutionResult where
  headerGasUsed : Nat
  executionGasUsed : Nat
  stateGasUsed : Nat
  blobGasUsed : Nat
  firstTxRecipient : Address
  receiptsRoot : Hash
  logs : LogSeriesRef

/-- The position behind the retained records. -/
def retainedLogsEnd (logsTxStart : Nat) (h : Host) : Result Nat :=
  let series := readLogs logsTxStart h
  logStoreIndexAdd series.start series.count

section

variable (env : Env) (nodedbLookup : Hash → StatelessInputSlice) (blockLimit : Nat)
  (processTransaction : Nat → TransactionFields → (allowance : TransactionGasAllowance) →
    (h : Host) → Result (SettledTransaction env h allowance))

/-- Decodes one envelope with its witnessed public key. -/
def decodeTransaction (transaction : StatelessInputSlice) (publicKey : Vector Byte 65) :
    Result TransactionFields :=
  if hlen : transaction.length ≤ transactionLengthBound then
    rlpDecodeTx env.keccak256 ⟨transaction, hlen⟩ publicKey env.profile.transactionBlobLimit
  else fatalError .invalidConfig

/-- Retains the receipt of a settled transaction under the new totals. -/
def retainTransaction (s : BlockProgress blockLimit) {allowance : TransactionGasAllowance}
    (t : SettledTransaction env s.host allowance) (usage : BlockGasUsage blockLimit)
    (blobGas : Nat) : Result (BlockProgress blockLimit × EmittedLogs) := do
  let record ← receiptRecordAppend env.keccak256 ⟨t.txType, t.success, t.emitted⟩ usage.receipts
  .ok ({ s with
    usage := usage
    blobGas := blobGas
    receiptRecords := s.receiptRecords ++ record
    logsTxStart := (retainedLogs s.host).length
    host := t.after }, t.logs)

/-- Amsterdam: execution gas and state gas have budgets of their own. -/
def executeAmsterdamTransaction (s : BlockProgress blockLimit) (epoch : Nat)
    (tx : TransactionFields) (allowance : TransactionGasAllowance) :
    Result (BlockProgress blockLimit × EmittedLogs) :=
  if hbudget : blockLimit - s.usage.execution < allowance.regular ∨
      blockLimit - s.usage.state < allowance.total then
    fatalError .gasUsedExceedsLimit
  else do
    let nextBlobGas ← blockBlobGasAdd env.profile.blobSchedule.max s.blobGas
      (gasPerBlob * tx.blobHashes.count)
    let receipt ← processTransaction epoch tx allowance s.host
    retainTransaction env blockLimit s receipt
      (blockGasUsageAdd s.usage receipt.executionGas receipt.stateGas receipt.gasUsed
        (Nat.le_trans receipt.executionGas_le (Nat.le_of_not_lt fun h => hbudget (.inl h)))
        (Nat.le_trans receipt.stateGas_le (Nat.le_of_not_lt fun h => hbudget (.inr h)))
        receipt.gasUsed_split)
      nextBlobGas

/-- Earlier forks: one budget, charged with the receipt's gas. -/
def executeEarlierTransaction (s : BlockProgress blockLimit) (epoch : Nat)
    (tx : TransactionFields) (allowance : TransactionGasAllowance) :
    Result (BlockProgress blockLimit × EmittedLogs) :=
  if hbudget : blockLimit - s.usage.execution < allowance.total then
    fatalError .gasUsedExceedsLimit
  else do
    let nextBlobGas ←
      (if env.profile.fork < .cancun then .ok s.blobGas
      else blockBlobGasAdd env.profile.blobSchedule.max s.blobGas
        (gasPerBlob * tx.blobHashes.count) : Result Nat)
    let receipt ← processTransaction epoch tx allowance s.host
    retainTransaction env blockLimit s receipt
      (blockGasUsageAdd s.usage receipt.gasUsed 0 receipt.gasUsed
        (Nat.le_trans receipt.gasUsed_le (Nat.le_of_not_lt hbudget)) (Nat.zero_le _)
        (Nat.le_refl _))
      nextBlobGas

/-- One round: the next transaction, up to the comparison of its logs. -/
def executeBlockTransaction (s : BlockProgress blockLimit) :
    Result (BlockProgress blockLimit × EmittedLogs) := do
  let i := s.cursor.index
  let popped ← sszListPop s.cursor
  if hkeys : publicKeyLength ≤ s.keys.length then do
    let publicKey : Vector Byte 65 :=
      ⟨(subSlice s.keys 0 65).toArray, by simpa using length_subSlice hkeys⟩
    let tx ← decodeTransaction env popped.1 publicKey
    let s := { s with
      cursor := popped.2
      keys := sliceSuffix s.keys publicKeyLength
      firstTxRecipient := if i = 0 then tx.recipient else s.firstTxRecipient }
    let gasLimits := gasLimitsFor env.profile blockLimit
    let allowance ← transactionGasAllowance tx.gasLimit gasLimits.transactionTotalLimit
      gasLimits.transactionRegularLimit
    if .amsterdam ≤ env.profile.fork then
      executeAmsterdamTransaction env blockLimit processTransaction s (i + 1) tx allowance
    else
      executeEarlierTransaction env blockLimit processTransaction s (i + 1) tx allowance
  else fatalError .witnessDeficient

/-- What a transaction's logs do to the deposit requests. -/
def authenticateTransactionDeposits (remaining : StatelessInputSlice) (logs : EmittedLogs) :
    Result StatelessInputSlice :=
  if .prague ≤ env.profile.fork then authenticateDepositLogs logs.host logs.series remaining
  else .ok remaining

def transactionsRemain (s : BlockProgress blockLimit) : Bool := !sszListCursorEmpty s.cursor

/-- What retaining a transaction leaves of the loop's variables: the store
has gained what the transaction has emitted. -/
structure Retained (s s' : BlockProgress blockLimit) (logs : EmittedLogs) : Prop where
  cursor : s'.cursor = s.cursor
  records : retainedLogs s'.host = retainedLogs s.host ++ logs.records

theorem retainTransaction_eq_ok {s s' : BlockProgress blockLimit}
    {allowance : TransactionGasAllowance} {t : SettledTransaction env s.host allowance}
    {usage : BlockGasUsage blockLimit} {blobGas : Nat} {logs : EmittedLogs}
    (h : retainTransaction env blockLimit s t usage blobGas = .ok (s', logs)) :
    Retained blockLimit s s' logs := by
  obtain ⟨_, _, h⟩ := bind_eq_ok.mp h
  cases h
  exact ⟨rfl, t.run.retained⟩

theorem executeAmsterdamTransaction_eq_ok {s s' : BlockProgress blockLimit} {epoch : Nat}
    {tx : TransactionFields} {allowance : TransactionGasAllowance} {logs : EmittedLogs}
    (h : executeAmsterdamTransaction env blockLimit processTransaction s epoch tx allowance =
      .ok (s', logs)) : Retained blockLimit s s' logs := by
  rw [executeAmsterdamTransaction] at h
  split at h
  · cases h
  · obtain ⟨_, _, h⟩ := bind_eq_ok.mp h
    obtain ⟨_, _, h⟩ := bind_eq_ok.mp h
    exact retainTransaction_eq_ok env blockLimit h

theorem executeEarlierTransaction_eq_ok {s s' : BlockProgress blockLimit} {epoch : Nat}
    {tx : TransactionFields} {allowance : TransactionGasAllowance} {logs : EmittedLogs}
    (h : executeEarlierTransaction env blockLimit processTransaction s epoch tx allowance =
      .ok (s', logs)) : Retained blockLimit s s' logs := by
  rw [executeEarlierTransaction] at h
  split at h
  · cases h
  · obtain ⟨_, _, h⟩ := bind_eq_ok.mp h
    obtain ⟨_, _, h⟩ := bind_eq_ok.mp h
    exact retainTransaction_eq_ok env blockLimit h

/-- A round takes one item off the list, and the store gains what the
transaction has emitted. -/
theorem executeBlockTransaction_eq_ok {s s' : BlockProgress blockLimit} {logs : EmittedLogs}
    (h : executeBlockTransaction env blockLimit processTransaction s = .ok (s', logs)) :
    (∃ item, sszListPop s.cursor = .ok (item, s'.cursor)) ∧
      retainedLogs s'.host = retainedLogs s.host ++ logs.records := by
  obtain ⟨⟨item, next⟩, hpop, h⟩ := bind_eq_ok.mp h
  split at h
  · obtain ⟨tx, _, h⟩ := bind_eq_ok.mp h
    obtain ⟨allowance, _, h⟩ := bind_eq_ok.mp h
    by_cases hfork : .amsterdam ≤ env.profile.fork
    · rw [if_pos hfork] at h
      have hretained := executeAmsterdamTransaction_eq_ok env blockLimit processTransaction h
      exact ⟨⟨item, hretained.cursor ▸ hpop⟩, hretained.records⟩
    · rw [if_neg hfork] at h
      have hretained := executeEarlierTransaction_eq_ok env blockLimit processTransaction h
      exact ⟨⟨item, hretained.cursor ▸ hpop⟩, hretained.records⟩
  · cases h

/-- The remaining transactions, each handed over to the comparison of
deposits. -/
def executeTransactions (s : BlockProgress blockLimit × StatelessInputSlice) :
    Result (BlockProgress blockLimit × StatelessInputSlice) :=
  loop (fun s => transactionsRemain blockLimit s.1)
    (handOver (executeBlockTransaction env blockLimit processTransaction)
      (authenticateTransactionDeposits env))
    (fun s => s.1.cursor.items.count - s.1.cursor.index)
    (by
      intro s s' _ h
      obtain ⟨_, hround, _⟩ := handOver_eq_ok.mp h
      obtain ⟨⟨_, hpop⟩, _⟩ :=
        executeBlockTransaction_eq_ok env blockLimit processTransaction hround
      obtain ⟨hlt, _, _, _, _, _, hnext⟩ := sszListPop_eq_ok.mp hpop
      rw [hnext]
      dsimp only
      omega)
    s

/-! ## The block -/

/-- Checks that there is a public key for each transaction, and notes where
the block's logs begin. -/
def beginBlockTransactions (transactions : TransactionListRef) (publicKeys : StatelessInputSlice)
    (logsTxStart : Nat) (h : Host) : Result (BlockProgress blockLimit) :=
  let publicKeyCount := publicKeys.length / publicKeyLength
  if publicKeyCount ≠ transactions.count ∨
      publicKeys.length ≠ publicKeyCount * publicKeyLength then
    fatalError .witnessDeficient
  else do
    let logsStart ← retainedLogsEnd logsTxStart h
    .ok {
      cursor := sszListCursor transactions
      keys := publicKeys
      usage := blockGasUsageEmpty blockLimit
      blobGas := 0
      firstTxRecipient := zeroAddress
      receiptRecords := []
      logsStart := logsStart
      logsTxStart := logsTxStart
      host := h }

/-- The result behind the last transaction. -/
def finishBlockTransactions (transactions : TransactionListRef) (s : BlockProgress blockLimit) :
    Result (BlockExecutionResult × Host) := do
  let headerGasUsed :=
    if .amsterdam ≤ env.profile.fork ∧ s.usage.execution < s.usage.state then s.usage.state
    else s.usage.execution
  let receiptsRoot ← indexedReceiptTrieRoot env.keccak256 nodedbLookup
    ⟨s.receiptRecords, transactions.count⟩
  let retained ← retainedLogsEnd s.logsTxStart s.host
  let logsCount := if s.logsStart ≤ retained then retained - s.logsStart else 0
  .ok ({
    headerGasUsed := headerGasUsed
    executionGasUsed := s.usage.execution
    stateGasUsed := s.usage.state
    blobGasUsed := s.blobGas
    firstTxRecipient := s.firstTxRecipient
    receiptsRoot := receiptsRoot
    logs := ⟨s.logsStart, logsCount⟩ }, s.host)

/-- Executes the transactions of a block in order. -/
def executeBlockTransactions (transactions : TransactionListRef)
    (publicKeys expectedDeposits : StatelessInputSlice) (logsTxStart : Nat) (h : Host) :
    Result (BlockExecutionResult × Host) := do
  let start ← beginBlockTransactions blockLimit transactions publicKeys logsTxStart h
  let done ← executeTransactions env blockLimit processTransaction (start, expectedDeposits)
  if .prague ≤ env.profile.fork ∧ done.2.length ≠ 0 then fatalError .invalidExecutionRequests
  else finishBlockTransactions env nodedbLookup blockLimit transactions done.1

/-! ## The deposits of a block -/

/-- The first transactions of a block have executed up to `s`, and this is
what each of them has emitted.  The deposit requests have no part in it. -/
structure BlockReaches (transactions : TransactionListRef) (publicKeys : StatelessInputSlice)
    (logsTxStart : Nat) (h : Host) (emitted : List EmittedLogs) (s : BlockProgress blockLimit) :
    Prop where
  run : ∃ start, beginBlockTransactions blockLimit transactions publicKeys logsTxStart h =
      .ok start ∧
    Produces (transactionsRemain blockLimit)
      (executeBlockTransaction env blockLimit processTransaction) start emitted s

/-- The logs of a block's transactions in the order of emission. -/
def emittedRecords (emitted : List EmittedLogs) : List LogRecord :=
  emitted.flatMap EmittedLogs.records

variable (transactions : TransactionListRef) (publicKeys expectedDeposits : StatelessInputSlice)
  (logsTxStart : Nat) (h : Host)

/-- What the check of the deposit requests comes to.  A deposit log is
compared as soon as its transaction has settled; the block passes when the
deposits of all of its logs are the requests, byte for byte. -/
structure DepositsExact : Prop where
  /-- The block executes when its transactions do, their deposits are the
  requests, and the result can be made. -/
  executes : ∀ result,
    executeBlockTransactions env nodedbLookup blockLimit processTransaction transactions publicKeys
        expectedDeposits logsTxStart h = .ok result ↔
      ∃ emitted s,
        BlockReaches env blockLimit processTransaction transactions publicKeys logsTxStart h
          emitted s ∧
        transactionsRemain blockLimit s = false ∧
        (.prague ≤ env.profile.fork →
          DepositRequests (emittedRecords emitted) expectedDeposits) ∧
        finishBlockTransactions env nodedbLookup blockLimit transactions s = .ok result
  /-- Once every transaction has executed, the check passes with nothing left
  for the right requests only. -/
  passes : ∀ {emitted s},
    BlockReaches env blockLimit processTransaction transactions publicKeys logsTxStart h
      emitted s →
    transactionsRemain blockLimit s = false → .prague ≤ env.profile.fork →
    (DepositRequests (emittedRecords emitted) expectedDeposits →
      executeBlockTransactions env nodedbLookup blockLimit processTransaction transactions
          publicKeys expectedDeposits logsTxStart h =
        finishBlockTransactions env nodedbLookup blockLimit transactions s) ∧
    (¬ DepositRequests (emittedRecords emitted) expectedDeposits →
      executeBlockTransactions env nodedbLookup blockLimit processTransaction transactions
          publicKeys expectedDeposits logsTxStart h = fatalError .invalidExecutionRequests)
  /-- The block is rejected as soon as the deposits so far are not what the
  requests begin with, whatever comes after. -/
  stops : ∀ {emitted s},
    BlockReaches env blockLimit processTransaction transactions publicKeys logsTxStart h
      emitted s → .prague ≤ env.profile.fork →
    (∀ d, DepositRequests (emittedRecords emitted) d → ¬ d <+: expectedDeposits) →
    executeBlockTransactions env nodedbLookup blockLimit processTransaction transactions publicKeys
      expectedDeposits logsTxStart h = fatalError .invalidExecutionRequests
  /-- A malformed deposit log is enough for that. -/
  malformed : ∀ {emitted s r},
    BlockReaches env blockLimit processTransaction transactions publicKeys logsTxStart h
      emitted s → .prague ≤ env.profile.fork →
    r ∈ emittedRecords emitted → IsDeposit r → (∀ e : DepositEvent, ¬ e.Encodes r.data) →
    executeBlockTransactions env nodedbLookup blockLimit processTransaction transactions publicKeys
      expectedDeposits logsTxStart h = fatalError .invalidExecutionRequests
  /-- The logs compared are the ones that the store has gained: those of
  reverted frames are not among them. -/
  survivors : ∀ {emitted s},
    BlockReaches env blockLimit processTransaction transactions publicKeys logsTxStart h
      emitted s →
    retainedLogs s.host = retainedLogs h ++ emittedRecords emitted

end

section

variable {env : Env} {nodedbLookup : Hash → StatelessInputSlice} {blockLimit : Nat}
  {processTransaction : Nat → TransactionFields → (allowance : TransactionGasAllowance) →
    (h : Host) → Result (SettledTransaction env h allowance)}
  {transactions : TransactionListRef} {publicKeys : StatelessInputSlice} {logsTxStart : Nat}
  {h : Host}

/-- Comparing the logs of one transaction after the other is comparing the
logs of the block. -/
theorem authenticateTransactionDeposits_foldlM (hfork : .prague ≤ env.profile.fork)
    (emitted : List EmittedLogs) (expected : List Byte) :
    emitted.foldlM (authenticateTransactionDeposits env) expected =
      (emittedRecords emitted).foldlM authenticateDepositLog expected := by
  induction emitted generalizing expected with
  | nil => rfl
  | cons logs emitted ih =>
    have hlogs : authenticateTransactionDeposits env expected logs =
        logs.records.foldlM authenticateDepositLog expected := by
      rw [authenticateTransactionDeposits, if_pos hfork]
      exact authenticateDepositLogs_eq logs.holds expected
    have hrecords : emittedRecords (logs :: emitted) = logs.records ++ emittedRecords emitted :=
      List.flatMap_cons
    rw [List.foldlM_cons, hlogs, hrecords, List.foldlM_append]
    exact bind_congr fun remaining => ih remaining

/-- Before Prague nothing is compared. -/
theorem authenticateTransactionDeposits_skipped (hfork : ¬ .prague ≤ env.profile.fork)
    (emitted : List EmittedLogs) (expected : List Byte) :
    emitted.foldlM (authenticateTransactionDeposits env) expected = .ok expected := by
  induction emitted with
  | nil => rfl
  | cons logs emitted ih =>
    rw [List.foldlM_cons, authenticateTransactionDeposits, if_neg hfork, ok_bind]
    exact ih

/-- The rounds so far are the comparison so far, and then the rest. -/
theorem BlockReaches.execute {emitted : List EmittedLogs} {s : BlockProgress blockLimit}
    (hreaches : BlockReaches env blockLimit processTransaction transactions publicKeys logsTxStart
      h emitted s) (expected : List Byte) :
    executeBlockTransactions env nodedbLookup blockLimit processTransaction transactions publicKeys
        expected logsTxStart h =
      emitted.foldlM (authenticateTransactionDeposits env) expected >>= fun remaining =>
        executeTransactions env blockLimit processTransaction (s, remaining) >>= fun done =>
          if .prague ≤ env.profile.fork ∧ done.2.length ≠ 0 then
            fatalError .invalidExecutionRequests
          else finishBlockTransactions env nodedbLookup blockLimit transactions done.1 := by
  obtain ⟨start, hstart, hproduces⟩ := hreaches.run
  have hrun : executeTransactions env blockLimit processTransaction (start, expected) =
      emitted.foldlM (authenticateTransactionDeposits env) expected >>= fun remaining =>
        executeTransactions env blockLimit processTransaction (s, remaining) :=
    handOver_loop hproduces expected
  rw [executeBlockTransactions, hstart, ok_bind, hrun, bind_assoc_except]

/-- When no transaction remains, neither may the requests. -/
theorem BlockReaches.execute_done {emitted : List EmittedLogs} {s : BlockProgress blockLimit}
    (hreaches : BlockReaches env blockLimit processTransaction transactions publicKeys logsTxStart
      h emitted s) (hdone : transactionsRemain blockLimit s = false)
    (hfork : .prague ≤ env.profile.fork) (expected : List Byte) :
    executeBlockTransactions env nodedbLookup blockLimit processTransaction transactions publicKeys
        expected logsTxStart h =
      (emittedRecords emitted).foldlM authenticateDepositLog expected >>= fun remaining =>
        if remaining.length ≠ 0 then fatalError .invalidExecutionRequests
        else finishBlockTransactions env nodedbLookup blockLimit transactions s := by
  rw [hreaches.execute expected, authenticateTransactionDeposits_foldlM hfork]
  refine bind_congr fun remaining => ?_
  have hloop : executeTransactions env blockLimit processTransaction (s, remaining) =
      .ok (s, remaining) := handOver_loop_done hdone
  rw [hloop, ok_bind]
  exact if_congr (and_iff_right hfork) rfl rfl

/-- A comparison that has failed ends the block. -/
theorem BlockReaches.execute_rejected {emitted : List EmittedLogs} {s : BlockProgress blockLimit}
    (hreaches : BlockReaches env blockLimit processTransaction transactions publicKeys logsTxStart
      h emitted s) (hfork : .prague ≤ env.profile.fork) {expected : List Byte}
    (hnone : ∀ d, DepositRequests (emittedRecords emitted) d → ¬ d <+: expected) :
    executeBlockTransactions env nodedbLookup blockLimit processTransaction transactions publicKeys
      expected logsTxStart h = fatalError .invalidExecutionRequests := by
  rw [hreaches.execute expected, authenticateTransactionDeposits_foldlM hfork]
  have hends := authenticateDepositLog_ends (emittedRecords emitted) expected
  cases hfold : (emittedRecords emitted).foldlM authenticateDepositLog expected with
  | error e =>
    have he := hends.of_error hfold
    rw [he]
    rfl
  | ok remaining =>
    obtain ⟨d, hd, happend⟩ := authenticateDepositLog_foldlM.mp hfold
    exact absurd ⟨remaining, happend.symm⟩ (hnone d (deposits_iff.mp hd))

theorem BlockReaches.execute_passes {emitted : List EmittedLogs} {s : BlockProgress blockLimit}
    (hreaches : BlockReaches env blockLimit processTransaction transactions publicKeys logsTxStart
      h emitted s) (hdone : transactionsRemain blockLimit s = false)
    (hfork : .prague ≤ env.profile.fork) {expected : List Byte}
    (hrequests : DepositRequests (emittedRecords emitted) expected) :
    executeBlockTransactions env nodedbLookup blockLimit processTransaction transactions publicKeys
        expected logsTxStart h =
      finishBlockTransactions env nodedbLookup blockLimit transactions s := by
  have hfold : (emittedRecords emitted).foldlM authenticateDepositLog expected = .ok [] :=
    authenticateDepositLog_foldlM.mpr
      ⟨expected, deposits_iff.mpr hrequests, (List.append_nil _).symm⟩
  rw [hreaches.execute_done hdone hfork, hfold, ok_bind]
  exact if_neg fun hne => hne rfl

/-- Deposits that are not all of the requests leave a rest. -/
theorem BlockReaches.execute_rest {emitted : List EmittedLogs} {s : BlockProgress blockLimit}
    (hreaches : BlockReaches env blockLimit processTransaction transactions publicKeys logsTxStart
      h emitted s) (hdone : transactionsRemain blockLimit s = false)
    (hfork : .prague ≤ env.profile.fork) {expected : List Byte}
    (hrequests : ¬ DepositRequests (emittedRecords emitted) expected) :
    executeBlockTransactions env nodedbLookup blockLimit processTransaction transactions publicKeys
      expected logsTxStart h = fatalError .invalidExecutionRequests := by
  by_cases hbegins : ∃ d, DepositRequests (emittedRecords emitted) d ∧ d <+: expected
  · obtain ⟨d, hd, remaining, happend⟩ := hbegins
    have hfold : (emittedRecords emitted).foldlM authenticateDepositLog expected =
        .ok remaining :=
      authenticateDepositLog_foldlM.mpr ⟨d, deposits_iff.mpr hd, happend.symm⟩
    rw [hreaches.execute_done hdone hfork, hfold, ok_bind]
    refine if_pos fun hnil => hrequests ?_
    rwa [← happend, List.eq_nil_of_length_eq_zero hnil, List.append_nil]
  · exact hreaches.execute_rejected hfork fun d hd hprefix => hbegins ⟨d, hd, hprefix⟩

theorem beginBlockTransactions_host {start : BlockProgress blockLimit}
    (hstart : beginBlockTransactions blockLimit transactions publicKeys logsTxStart h =
      .ok start) : start.host = h := by
  rw [beginBlockTransactions] at hstart
  split at hstart
  · cases hstart
  · obtain ⟨_, _, hstart⟩ := bind_eq_ok.mp hstart
    cases hstart
    rfl

/-- The store gains what the transactions emit. -/
theorem BlockReaches.retainedLogs_eq {emitted : List EmittedLogs} {s : BlockProgress blockLimit}
    (hreaches : BlockReaches env blockLimit processTransaction transactions publicKeys logsTxStart
      h emitted s) : retainedLogs s.host = retainedLogs h ++ emittedRecords emitted := by
  obtain ⟨start, hstart, hproduces⟩ := hreaches.run
  rw [← beginBlockTransactions_host hstart]
  refine hproduces.rel (R := fun s emitted s' =>
    retainedLogs s'.host = retainedLogs s.host ++ emittedRecords emitted) ?_ ?_
  · exact fun s => (List.append_nil _).symm
  · intro s s₁ s' logs emitted hround hrest
    have hrecords := (executeBlockTransaction_eq_ok env blockLimit processTransaction hround).2
    calc retainedLogs s'.host
        = retainedLogs s₁.host ++ emittedRecords emitted := hrest
      _ = (retainedLogs s.host ++ logs.records) ++ emittedRecords emitted := by rw [hrecords]
      _ = retainedLogs s.host ++ emittedRecords (logs :: emitted) := List.append_assoc _ _ _

/-- A block executes by executing all of its transactions. -/
theorem executeBlockTransactions_reaches {expected : List Byte}
    {result : BlockExecutionResult × Host}
    (hresult : executeBlockTransactions env nodedbLookup blockLimit processTransaction transactions
      publicKeys expected logsTxStart h = .ok result) :
    ∃ emitted s,
      BlockReaches env blockLimit processTransaction transactions publicKeys logsTxStart h
        emitted s ∧
      transactionsRemain blockLimit s = false ∧
      finishBlockTransactions env nodedbLookup blockLimit transactions s = .ok result := by
  obtain ⟨start, hstart, hresult⟩ := bind_eq_ok.mp hresult
  obtain ⟨⟨s, remaining⟩, hrun, hresult⟩ := bind_eq_ok.mp hresult
  obtain ⟨emitted, hproduces, hdone, _⟩ := handOver_loop_eq_ok.mp hrun
  split at hresult
  · cases hresult
  · exact ⟨emitted, s, ⟨start, hstart, hproduces⟩, hdone, hresult⟩

/-- Before Prague the requests are not looked at. -/
theorem BlockReaches.execute_skipped {emitted : List EmittedLogs} {s : BlockProgress blockLimit}
    (hreaches : BlockReaches env blockLimit processTransaction transactions publicKeys logsTxStart
      h emitted s) (hdone : transactionsRemain blockLimit s = false)
    (hfork : ¬ .prague ≤ env.profile.fork) (expected : List Byte) :
    executeBlockTransactions env nodedbLookup blockLimit processTransaction transactions publicKeys
        expected logsTxStart h =
      finishBlockTransactions env nodedbLookup blockLimit transactions s := by
  have hloop : executeTransactions env blockLimit processTransaction (s, expected) =
      .ok (s, expected) := handOver_loop_done hdone
  rw [hreaches.execute expected, authenticateTransactionDeposits_skipped hfork, ok_bind, hloop,
    ok_bind]
  exact if_neg fun hboth => hfork hboth.1

/-- Deposit authentication is exact across the transactions of a block. -/
theorem depositAuthentication_exact (env : Env) (nodedbLookup : Hash → StatelessInputSlice)
    (blockLimit : Nat)
    (processTransaction : Nat → TransactionFields → (allowance : TransactionGasAllowance) →
      (h : Host) → Result (SettledTransaction env h allowance))
    (transactions : TransactionListRef) (publicKeys expectedDeposits : StatelessInputSlice)
    (logsTxStart : Nat) (h : Host) :
    DepositsExact env nodedbLookup blockLimit processTransaction transactions publicKeys
      expectedDeposits logsTxStart h where
  executes result := by
    constructor
    · intro hresult
      obtain ⟨emitted, s, hreaches, hdone, hfinish⟩ := executeBlockTransactions_reaches hresult
      refine ⟨emitted, s, hreaches, hdone, fun hfork => ?_, hfinish⟩
      by_contra hrequests
      rw [hreaches.execute_rest hdone hfork hrequests] at hresult
      cases hresult
    · rintro ⟨emitted, s, hreaches, hdone, hrequests, hfinish⟩
      by_cases hfork : .prague ≤ env.profile.fork
      · rw [hreaches.execute_passes hdone hfork (hrequests hfork), hfinish]
      · rw [hreaches.execute_skipped hdone hfork, hfinish]
  passes hreaches hdone hfork :=
    ⟨hreaches.execute_passes hdone hfork, hreaches.execute_rest hdone hfork⟩
  stops hreaches hfork hnone := hreaches.execute_rejected hfork hnone
  malformed hreaches hfork hr hdeposit hmalformed :=
    hreaches.execute_rejected hfork fun d hd _ => by
      obtain ⟨e, hencodes⟩ := hd.encodes hr hdeposit
      exact hmalformed e hencodes
  survivors hreaches := hreaches.retainedLogs_eq

end

end EvmSail
