/-
# `EvmSail.Tx.Validity` — which transactions a block may contain

`checkTransactionValidity` authenticates the sender, prices the
transaction and checks it against the sender's account; a transaction that
it lets through starts with the gas it hands out.  The authorizations of a
set-code transaction are prepared after that, into a table whose size was
derived from the cheapest authorization under a capped transaction.

Prague has set-code transactions but no cap.  `authorizationsFit_iff` says
in which blocks a valid transaction can have more authorizations than the
table holds.
-/
import EvmSail.Evm.BlobGas
import EvmSail.Evm.MemoryGas
import EvmSail.Evm.TransactionGas
import EvmSail.Kernel.Code
import EvmSail.Tx.Codec

namespace EvmSail

open Fallible Kept Kernel

/-! ## Envelope types -/

inductive TxSignatureScheme where
  | legacySignature
  | typedSignature
  deriving DecidableEq

structure TxTypeSemantics where
  minimumFork : Fork
  signature : TxSignatureScheme
  blob : Bool
  setCode : Bool

def txTypeSemantics : TxType → TxTypeSemantics
  | .legacyTx => ⟨.frontier, .legacySignature, false, false⟩
  | .accessListTx => ⟨.berlin, .typedSignature, false, false⟩
  | .feeMarketTx => ⟨.london, .typedSignature, false, false⟩
  | .blobTx => ⟨.cancun, .typedSignature, true, false⟩
  | .setCodeTx => ⟨.prague, .typedSignature, false, true⟩

/-- What validation reads besides the state. -/
structure ValidityEnv where
  kernel : Env
  chainId : Nat
  baseFee : Word
  excessBlobGas : Nat
  ecrecover : Hash → Fin 2 → Word → Word → AddressResult

/-! ## Sender authentication -/

def txSignatureParity (chainId : Nat) (scheme : TxSignatureScheme) (v : Word) :
    Result (Fin 2) :=
  let even : Fin 2 := ⟨0, Nat.zero_lt_two⟩
  let odd : Fin 2 := ⟨1, Nat.one_lt_two⟩
  match scheme with
  | .legacySignature =>
    if v = 27 ∨ v = 28 ∨ (35 ≤ v ∧ legacySigChainId v = BitVec.ofNat 256 chainId) then
      .ok (if v &&& 1 = 1 then even else odd)
    else fatalError .invalidSignature
  | .typedSignature =>
    if v = 0 then .ok even
    else if v = 1 then .ok odd
    else fatalError .invalidSignature

def txAuthValid (ecrecover : Hash → Fin 2 → Word → Word → AddressResult) (sender : Address)
    (h : Hash) (parity : Fin 2) (r s : Word) : Bool :=
  if secpNHalf < s then false
  else
    let recovered := ecrecover h parity r s
    recovered.success && recovered.address == sender

/-! ## Intrinsic gas -/

def sliceCountNonzero (bytes : List Byte) : Nat := bytes.countP fun b => b != 0

/-- EIP-2028: 4 gas for a zero byte, 16 for any other. -/
def calldataCost (input : List Byte) : Result Nat :=
  let nonzeroes := sliceCountNonzero input
  if nonzeroes ≤ input.length then .ok (4 * (input.length - nonzeroes) + 16 * nonzeroes)
  else fatalError .executionInvalid

section

variable (profile : ProtocolProfile)

def transactionInitcodeGas (byteLen : Nat) : Nat :=
  if .shanghai ≤ profile.fork then memoryWordCount byteLen + memoryWordCount byteLen else 0

def initcodeSizeAllowed (size : Nat) : Bool :=
  profile.initcodeSizeLimit == 0 || decide (size ≤ profile.initcodeSizeLimit)

def legacyIntrinsicGas (tx : TransactionFields) : Result Nat := do
  let dataCost ← calldataCost tx.inputSrc
  let addressCost := 2400 * tx.accessList.addressCount
  let slotCost := 1900 * tx.accessList.slotCount
  let authCost := 25000 * tx.authorizations.count
  let common := dataCost + 21000 + addressCost + slotCost + authCost
  .ok
    (if tx.isCreate then common + 32000 + transactionInitcodeGas profile tx.inputSrc.length
    else common)

def legacyCalldataFloor (input : List Byte) : Result Nat :=
  let nonzeroes := sliceCountNonzero input
  if nonzeroes ≤ input.length then
    .ok (10 * (input.length - nonzeroes) + 40 * nonzeroes + 21000)
  else fatalError .executionInvalid

def amsterdamRecipientExecutionCost (tx : TransactionFields) : Nat :=
  if tx.isCreate then
    if tx.value ≠ 0 then 11000 + 1756 else 11000
  else if tx.recipient ≠ tx.sender then
    if tx.value ≠ 0 then 3000 + 4244 + 1756 else 3000
  else 0

structure IntrinsicGasCost where
  execution : Nat
  state : Nat
  calldataFloor : Nat

def intrinsicGas (tx : TransactionFields) : Result IntrinsicGasCost :=
  if profile.fork < .amsterdam then do
    let execution ← legacyIntrinsicGas profile tx
    let calldataFloor ← legacyCalldataFloor tx.inputSrc
    .ok { execution := execution, state := 0, calldataFloor := calldataFloor }
  else do
    let recipient := amsterdamRecipientExecutionCost tx
    let addressCount := tx.accessList.addressCount
    let slotCount := tx.accessList.slotCount
    let accessExecution :=
      3000 * addressCount + 3000 * slotCount + 1280 * addressCount + 2048 * slotCount
    let authorizationExecution := 7816 * tx.authorizations.count
    let createExecution :=
      if tx.isCreate then transactionInitcodeGas profile tx.inputSrc.length else 0
    let dataCost ← calldataCost tx.inputSrc
    .ok
      { execution :=
          dataCost + 12000 + recipient + accessExecution + authorizationExecution +
            createExecution
        state := 0
        calldataFloor :=
          64 * tx.inputSrc.length + 12000 + recipient + 1280 * addressCount + 2048 * slotCount }

/-- What the fees of a transaction depend on. -/
def feeFields (tx : TransactionFields) (gasLimit : Nat) : BlobTransaction :=
  { blobCount := tx.blobHashes.count
    maxFee := tx.maxFee.toNat
    gasLimit := gasLimit
    value := tx.value.toNat
    maxBlobFee := tx.maxBlobFee.toNat }

end

/-! ## Validity -/

/-- `min(max_fee, base_fee + max_priority_fee)` and what it leaves for the
coinbase. -/
def effGasPriceFor (baseFee maxFee maxPriorityFee : Word) : Word × Word :=
  let price :=
    if maxFee ≤ baseFee then maxFee
    else if maxPriorityFee ≤ maxFee - baseFee then baseFee + maxPriorityFee
    else maxFee
  (price, if baseFee ≤ price then price - baseFee else 0)

structure TxValidity where
  sender : Address
  nonceBefore : Nat
  gas : TransactionInitialGas
  blobFee : Nat
  gasPrice : Word
  priorityFee : Word

/-- One rule: the transaction is rejected when `c` holds. -/
def rejectIf {env : Env} (c : Prop) [Decidable c] : Kept (Reads env) Halt Unit :=
  query fun _ => if c then fatalError .executionInvalid else .ok ()

def checkTransactionValidity (ve : ValidityEnv) (tx : TransactionFields)
    (allowance : TransactionGasAllowance) : Kept (Reads ve.kernel) Halt TxValidity := do
  let profile := ve.kernel.profile
  let semantics := txTypeSemantics tx.txType
  let parity ← query fun _ => txSignatureParity ve.chainId semantics.signature tx.sigV
  query fun _ =>
    if txAuthValid ve.ecrecover tx.sender tx.signingHash parity tx.sigR tx.sigS then .ok ()
    else fatalError .invalidSignature
  let gasLimit := allowance.total
  let prices := effGasPriceFor ve.baseFee tx.maxFee tx.maxPriorityFee
  let nonceBefore ← kGetNonce ve.kernel tx.sender
  let intrinsic ← query fun _ => intrinsicGas profile tx
  let fees ← query fun _ => transactionCosts profile ve.excessBlobGas (feeFields tx gasLimit)
  rejectIf (tx.nonce ≠ BitVec.ofNat 256 nonceBefore)
  let senderDeleg ← kDelegTarget ve.kernel tx.sender
  rejectIf (semantics.blob = true ∧
    (profile.fork < .cancun ∨ tx.blobHashes.count = 0 ∨ tx.isCreate = true))
  rejectIf (.prague ≤ profile.fork ∧ gasLimit < intrinsic.calldataFloor)
  let senderBalance ← kGetBalance ve.kernel tx.sender
  rejectIf (senderBalance.toNat < fees.2)
  let senderCodeKey ← kCodeKey ve.kernel tx.sender
  rejectIf (senderCodeKey ≠ keccakEmpty ∧ senderDeleg = none)
  rejectIf (allowance.regular < intrinsic.calldataFloor)
  rejectIf (tx.maxFee < ve.baseFee)
  rejectIf (tx.isCreate = true ∧ initcodeSizeAllowed profile tx.inputSrc.length = false)
  rejectIf (tx.maxFee < tx.maxPriorityFee)
  rejectIf (profile.fork < semantics.minimumFork)
  rejectIf (semantics.setCode = true ∧ tx.isCreate = true)
  rejectIf (semantics.setCode = true ∧ tx.authorizations.count = 0)
  rejectIf (semantics.signature = .typedSignature ∧ tx.chainId ≠ ve.chainId)
  rejectIf (nonceBefore = accountNonceBound)
  let initialGas ← query fun _ =>
    transactionInitialGas allowance intrinsic.execution intrinsic.state intrinsic.calldataFloor
  pure
    { sender := tx.sender
      nonceBefore := nonceBefore
      gas := initialGas
      blobFee := fees.1
      gasPrice := prices.1
      priorityFee := prices.2 }

theorem rejectIf_run {env : Env} {c : Prop} [Decidable c] {h h' : Host} {u : Unit}
    (hh : (rejectIf c : Kept (Reads env) Halt Unit).run h = .ok (u, h')) : ¬ c := by
  rw [rejectIf, run_query] at hh
  obtain ⟨u', hc, -⟩ := bind_eq_ok.mp hh
  intro hcond
  rw [if_pos hcond] at hc
  cases hc

theorem query_run {env : Env} {α : Type} {x : Result α} {a : α} {h h' : Host}
    (hh : (query fun _ => x : Kept (Reads env) Halt α).run h = .ok (a, h')) : x = .ok a := by
  rw [run_query] at hh
  obtain ⟨a', hx, hh⟩ := bind_eq_ok.mp hh
  cases hh
  exact hx

/-- What an accepted transaction satisfies, as far as its gas goes. -/
structure Accepted (ve : ValidityEnv) (tx : TransactionFields)
    (allowance : TransactionGasAllowance) (gas : TransactionInitialGas) : Prop where
  fork : (txTypeSemantics tx.txType).minimumFork ≤ ve.kernel.profile.fork
  priced : ∃ intrinsic, intrinsicGas ve.kernel.profile tx = .ok intrinsic ∧
    transactionInitialGas allowance intrinsic.execution intrinsic.state
      intrinsic.calldataFloor = .ok gas

theorem checkTransactionValidity_accepted {ve : ValidityEnv} {tx : TransactionFields}
    {allowance : TransactionGasAllowance} {h h' : Host} {v : TxValidity}
    (hh : (checkTransactionValidity ve tx allowance).run h = .ok (v, h')) :
    Accepted ve tx allowance v.gas := by
  dsimp only [checkTransactionValidity] at hh
  obtain ⟨parity, _, -, hh⟩ := run_bind_eq_ok.mp hh
  obtain ⟨_, _, -, hh⟩ := run_bind_eq_ok.mp hh
  obtain ⟨nonceBefore, _, -, hh⟩ := run_bind_eq_ok.mp hh
  obtain ⟨intrinsic, _, hintrinsic, hh⟩ := run_bind_eq_ok.mp hh
  obtain ⟨fees, _, -, hh⟩ := run_bind_eq_ok.mp hh
  obtain ⟨_, _, -, hh⟩ := run_bind_eq_ok.mp hh
  obtain ⟨senderDeleg, _, -, hh⟩ := run_bind_eq_ok.mp hh
  obtain ⟨_, _, -, hh⟩ := run_bind_eq_ok.mp hh
  obtain ⟨_, _, -, hh⟩ := run_bind_eq_ok.mp hh
  obtain ⟨senderBalance, _, -, hh⟩ := run_bind_eq_ok.mp hh
  obtain ⟨_, _, -, hh⟩ := run_bind_eq_ok.mp hh
  obtain ⟨senderCodeKey, _, -, hh⟩ := run_bind_eq_ok.mp hh
  obtain ⟨_, _, -, hh⟩ := run_bind_eq_ok.mp hh
  obtain ⟨_, _, -, hh⟩ := run_bind_eq_ok.mp hh
  obtain ⟨_, _, -, hh⟩ := run_bind_eq_ok.mp hh
  obtain ⟨_, _, -, hh⟩ := run_bind_eq_ok.mp hh
  obtain ⟨_, _, -, hh⟩ := run_bind_eq_ok.mp hh
  obtain ⟨_, _, hfork, hh⟩ := run_bind_eq_ok.mp hh
  obtain ⟨_, _, -, hh⟩ := run_bind_eq_ok.mp hh
  obtain ⟨_, _, -, hh⟩ := run_bind_eq_ok.mp hh
  obtain ⟨_, _, -, hh⟩ := run_bind_eq_ok.mp hh
  obtain ⟨_, _, -, hh⟩ := run_bind_eq_ok.mp hh
  obtain ⟨initialGas, _, hgas, hh⟩ := run_bind_eq_ok.mp hh
  cases hh
  exact ⟨Nat.le_of_not_lt (rejectIf_run hfork), intrinsic, query_run hintrinsic, query_run hgas⟩

/-! ## The table of authorizations -/

/-- Every authorization is paid for. -/
theorem intrinsicGas_authorizations {profile : ProtocolProfile} {tx : TransactionFields}
    {intrinsic : IntrinsicGasCost} (h : intrinsicGas profile tx = .ok intrinsic) :
    (profile.fork < .amsterdam → 21000 + 25000 * tx.authorizations.count ≤ intrinsic.execution) ∧
      (¬ profile.fork < .amsterdam →
        12000 + 7816 * tx.authorizations.count ≤ intrinsic.execution) := by
  rw [intrinsicGas] at h
  split at h
  · next hfork =>
    obtain ⟨execution, hexecution, h⟩ := bind_eq_ok.mp h
    obtain ⟨floor, -, h⟩ := bind_eq_ok.mp h
    cases h
    refine ⟨fun _ => ?_, fun hnot => absurd hfork hnot⟩
    simp only [legacyIntrinsicGas] at hexecution
    obtain ⟨dataCost, -, hexecution⟩ := bind_eq_ok.mp hexecution
    cases hexecution
    simp only
    split
    · omega
    · omega
  · next hfork =>
    obtain ⟨dataCost, -, h⟩ := bind_eq_ok.mp h
    cases h
    refine ⟨fun hlt => absurd hlt hfork, fun _ => ?_⟩
    simp only
    omega

/-- The gas that 2147 authorizations cost before Amsterdam, one more than
the table holds. -/
def overfullTableGas : Nat := 21000 + 25000 * (preparedAuthorizationCountBound + 1)

theorem preparedAuthorizationCountBound_eq : preparedAuthorizationCountBound = 2146 := by
  decide +kernel

theorem overfullTableGas_eq : overfullTableGas = 53696000 := by decide +kernel

/-- Under a profile and a block gas limit, every valid set-code
transaction fits the table of prepared authorizations. -/
def AuthorizationsFit (profile : ProtocolProfile) (blockLimit : Nat) : Prop :=
  ∀ (ve : ValidityEnv) (tx : TransactionFields) (allowance : TransactionGasAllowance)
    (h h' : Host) (v : TxValidity), ve.kernel.profile = profile → tx.txType = .setCodeTx →
    transactionGasAllowance tx.gasLimit (gasLimitsFor profile blockLimit).transactionTotalLimit
      (gasLimitsFor profile blockLimit).transactionRegularLimit = .ok allowance →
    (checkTransactionValidity ve tx allowance).run h = .ok (v, h') →
    tx.authorizations.count ≤ preparedAuthorizationCountBound

/-- The regular gas of every profile with set-code transactions, Prague
apart, is capped. -/
theorem schemaProtocolProfile_capped {b : Byte} {profile : ProtocolProfile}
    (h : schemaProtocolProfile b = .ok profile) (hfork : .prague ≤ profile.fork) :
    profile.fork = .prague ∨
      profile.transactionRegularGasLimit = eip7825TransactionGasLimit := by
  unfold schemaProtocolProfile at h
  split at h <;> cases h <;>
    first | exact .inl rfl | exact .inr rfl | exact absurd hfork (by decide)

/-- A valid set-code transaction pays for its authorizations out of the
regular gas. -/
theorem authorizations_paid {ve : ValidityEnv} {tx : TransactionFields}
    {allowance : TransactionGasAllowance} {gas : TransactionInitialGas}
    (h : Accepted ve tx allowance gas) :
    (ve.kernel.profile.fork < .amsterdam →
        21000 + 25000 * tx.authorizations.count ≤ allowance.regular) ∧
      12000 + 7816 * tx.authorizations.count ≤ allowance.regular := by
  obtain ⟨intrinsic, hintrinsic, hgas⟩ := h.priced
  have hcovered := (transactionInitialGas_ok hgas).1
  obtain ⟨hlegacy, hamsterdam⟩ := intrinsicGas_authorizations hintrinsic
  refine ⟨fun hfork => (hlegacy hfork).trans hcovered, ?_⟩
  by_cases hfork : ve.kernel.profile.fork < .amsterdam
  · have := hlegacy hfork
    omega
  · exact (hamsterdam hfork).trans hcovered

theorem gasLimitsFor_regular_le (profile : ProtocolProfile) (blockLimit : Nat) :
    (gasLimitsFor profile blockLimit).transactionRegularLimit ≤ blockLimit ∧
      (gasLimitsFor profile blockLimit).transactionRegularLimit ≤
        profile.transactionRegularGasLimit := by
  simp only [gasLimitsFor]
  split
  · split
    · omega
    · omega
  · split
    · omega
    · omega

theorem authorizationsFit_of_condition {b : Byte} {profile : ProtocolProfile} {blockLimit : Nat}
    (hprofile : schemaProtocolProfile b = .ok profile)
    (hcond : profile.fork ≠ .prague ∨ blockLimit < overfullTableGas) :
    AuthorizationsFit profile blockLimit := by
  intro ve tx allowance h h' v hve htype hallowance hvalid
  have haccepted := checkTransactionValidity_accepted hvalid
  obtain ⟨hlegacy, hcheapest⟩ := authorizations_paid haccepted
  have hfork : .prague ≤ profile.fork := by
    have := haccepted.fork
    rwa [htype, hve] at this
  obtain ⟨-, -, hregular, -⟩ := transactionGasAllowance_regular hallowance
  obtain ⟨hblock, hcap⟩ := gasLimitsFor_regular_le profile blockLimit
  rcases schemaProtocolProfile_capped hprofile hfork with hprague | hcapped
  · have hsmall := hcond.resolve_left (not_not_intro hprague)
    have hlt : ve.kernel.profile.fork < .amsterdam := by
      rw [hve, hprague]
      decide
    have hpaid := hlegacy hlt
    rw [overfullTableGas_eq] at hsmall
    rw [preparedAuthorizationCountBound_eq]
    omega
  · rw [hcapped, eip7825TransactionGasLimit] at hcap
    rw [preparedAuthorizationCountBound_eq]
    omega

/-! ### A transaction with one authorization too many -/

def pragueProfile : ProtocolProfile :=
  packProtocolProfile .prague pragueBlobSchedule 24576 49152 sszUintBound sszUintBound 9 5

theorem schemaProtocolProfile_prague {b : Byte} {profile : ProtocolProfile}
    (h : schemaProtocolProfile b = .ok profile) (hfork : profile.fork = .prague) :
    profile = pragueProfile := by
  unfold schemaProtocolProfile at h
  split at h <;> cases h <;> first | rfl | cases hfork

/-- An authorization tuple: chain id 1, the zero address, nonce 0, an even
parity and a signature that recovers nothing. -/
def idleAuthorization : List Byte :=
  [0xda, 0x01, 0x94] ++ List.replicate 20 0 ++ [0x80, 0x80, 0x01, 0x01]

def overfullAuthorizations : AuthorizationListRef :=
  { encoded := (List.replicate 2147 idleAuthorization).flatten, count := 2147 }

/-- A set-code transaction that does nothing but carry them. -/
def overfullTransaction : TransactionFields :=
  { txType := .setCodeTx
    sender := 1
    raw := []
    nonce := 0
    chainId := 1
    gasLimit := 53696000
    isCreate := false
    recipient := 2
    value := 0
    inputSrc := []
    accessList := emptyAccessListRef
    maxFee := 7
    maxBlobFee := 0
    maxPriorityFee := 0
    authorizations := overfullAuthorizations
    blobHashes := emptyBlobHashes
    pubkey := []
    signingHash := zeroHash
    sigV := 0
    sigR := 1
    sigS := 1 }

/-- A chain on which every account is funded and has sent nothing. -/
def fundedEnv : ValidityEnv :=
  { kernel :=
      { profile := pragueProfile
        keccak256 := fun _ => zeroHash
        parentStateRoot := zeroHash
        statelessAccountByKey := fun _ _ =>
          .ok (accountFromInfo { emptyAccountInfo with balance := 0xffffffffffffffff })
        statelessStorageByKey := fun _ _ => .ok 0 }
    chainId := 1
    baseFee := 7
    excessBlobGas := 0
    ecrecover := fun _ _ _ _ => { success := true, address := 1 } }

/-- The host at the start of a block. -/
def freshHost : Host :=
  { state :=
      { effects := noEffects []
        warm := coldWarm
        acctTxRows := []
        storageTxRows := []
        nextGeneration := ⟨initialGeneration, Nat.le_refl _⟩
        block := { accounts := fun _ => none, storage := fun _ => none, storageRows := [] }
        bal := []
        codes := fun _ => none }
    journal := [] }

theorem overfullTransaction_admitted {blockLimit : Nat} (h : overfullTableGas ≤ blockLimit) :
    transactionGasAllowance overfullTransaction.gasLimit
      (gasLimitsFor pragueProfile blockLimit).transactionTotalLimit
      (gasLimitsFor pragueProfile blockLimit).transactionRegularLimit =
        .ok { total := 53696000, regular := 53696000 } := by
  rw [overfullTableGas_eq] at h
  have htotal : pragueProfile.transactionTotalGasLimit = 2 ^ 64 - 1 := rfl
  have hregular : pragueProfile.transactionRegularGasLimit = 2 ^ 64 - 1 := rfl
  have hgas : overfullTransaction.gasLimit = 53696000 := rfl
  simp only [gasLimitsFor, htotal, hregular, hgas, transactionGasAllowance]
  split
  · next hlimit =>
    rw [if_neg (by omega)]
    congr 2
    split <;> omega
  · next hlimit =>
    rw [if_neg (by omega), if_neg (Nat.lt_irrefl _), if_pos (by omega)]

theorem overfullTransaction_valid :
    ∃ v h', (checkTransactionValidity fundedEnv overfullTransaction
      { total := 53696000, regular := 53696000 }).run freshHost = .ok (v, h') := by
  have hok : ((checkTransactionValidity fundedEnv overfullTransaction
      { total := 53696000, regular := 53696000 }).run freshHost).isOk = true := by
    decide +kernel
  cases hrun : (checkTransactionValidity fundedEnv overfullTransaction
      { total := 53696000, regular := 53696000 }).run freshHost with
  | error e =>
    rw [hrun] at hok
    cases hok
  | ok r => exact ⟨r.1, r.2, rfl⟩

theorem not_authorizationsFit_prague {blockLimit : Nat} (h : overfullTableGas ≤ blockLimit) :
    ¬ AuthorizationsFit pragueProfile blockLimit := by
  intro hfit
  obtain ⟨v, h', hvalid⟩ := overfullTransaction_valid
  have hcount := hfit fundedEnv overfullTransaction _ freshHost h' v rfl rfl
    (overfullTransaction_admitted h) hvalid
  rw [preparedAuthorizationCountBound_eq] at hcount
  exact absurd hcount (by decide)

/-- The table is large enough under every admitted profile but Prague's,
and under Prague's in blocks of less than 53,696,000 gas. -/
theorem authorizationsFit_iff {b : Byte} {profile : ProtocolProfile}
    (hprofile : schemaProtocolProfile b = .ok profile) (blockLimit : Nat) :
    AuthorizationsFit profile blockLimit ↔
      profile.fork ≠ .prague ∨ blockLimit < overfullTableGas := by
  constructor
  · intro hfit
    rcases Nat.lt_or_ge blockLimit overfullTableGas with hsmall | hlarge
    · exact .inr hsmall
    · refine .inl fun hprague => ?_
      rw [schemaProtocolProfile_prague hprofile hprague] at hfit
      exact not_authorizationsFit_prague hlarge hfit
  · exact authorizationsFit_of_condition hprofile

theorem authorizationsFit_iff_prague :
    AuthorizationsFit pragueProfile 60000000 ↔
      pragueProfile.fork ≠ .prague ∨ 60000000 < overfullTableGas :=
  authorizationsFit_iff (rfl : schemaProtocolProfile 0x11 = .ok pragueProfile) 60000000

/-- A block of sixty million gas under Prague admits a valid transaction
that preparation refuses. -/
theorem not_authorizationsFit :
    ¬ ∀ (b : Byte) (profile : ProtocolProfile) (blockLimit : Nat),
      schemaProtocolProfile b = .ok profile → .prague ≤ profile.fork →
      blockLimit ≤ blockGasLimitBound → AuthorizationsFit profile blockLimit := by
  intro h
  have hfit : AuthorizationsFit pragueProfile 60000000 :=
    h 0x11 pragueProfile 60000000 rfl (by decide) (by decide)
  exact not_authorizationsFit_prague (by decide +kernel) hfit

end EvmSail
