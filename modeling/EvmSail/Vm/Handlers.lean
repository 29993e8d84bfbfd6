/-
# `EvmSail.Vm.Handlers` — the opcode handlers

Every opcode but those that enter a frame.  The handlers of one kind differ
in their price and in what they compute, and are one definition; those in
which the order of charges, reads and writes is their own have their own
body.

`executeOpcode` is the dispatch of the interpreter's loop.
-/
import EvmSail.Evm.Alu
import EvmSail.Vm.Machine

namespace EvmSail.Vm

open Fallible Kernel

/-! ## Instructions -/

/-- `ast`. -/
inductive Ast where
  | stop | add | mul | sub | div | sdiv | mod | smod | addmod | mulmod | exp | signextend
  | lt | gt | slt | sgt | eq | iszero | and | or | xor | not | byte | shl | shr | sar | clz
  | keccak256
  | address | balance | origin | caller | callvalue | calldataload | calldatasize | calldatacopy
  | codesize | codecopy | gasprice | extcodesize | extcodecopy | returndatasize | returndatacopy
  | extcodehash
  | blockhash | coinbase | timestamp | number | prevrandao | gaslimit | chainid | selfbalance
  | basefee | blobhash | blobbasefee | slotnum
  | pop | mload | mstore | mstore8 | sload | sstore | jump | jumpi | pc | msize | gas | jumpdest
  | tload | tstore | mcopy
  | push (n : Nat) (v : Word)
  | dup (n : Nat)
  | swap (n : Nat)
  | log (n : Nat)
  | dupn (immediate : Byte)
  | swapn (immediate : Byte)
  | exchange (immediate : Byte)
  | opcodeCreate | call | callcode | return_ | delegatecall | create2 | staticcall
  | revert | invalid | selfdestruct
  deriving DecidableEq

/-- `assert`. -/
def assertThat (condition : Bool) : Result Unit :=
  if condition then .ok () else .error .assertFailed

theorem assertThat_eq_ok {condition : Bool} {u : Unit} (h : assertThat condition = .ok u) :
    condition = true := by
  rw [assertThat] at h
  split at h
  · assumption
  · cases h

/-- The depth of `DUPN` and `SWAPN`, counted from one. -/
def decodeSingleStackIndex (immediate : Byte) : Result Nat := do
  assertThat (deepStackImmediateValid immediate)
  let value := immediate.toNat
  if value ≤ 90 then .ok (value + 145)
  else do
    assertThat (decide (128 ≤ value))
    .ok (value - 111)

/-- The depths that `EXCHANGE` exchanges, counted from zero. -/
def decodeExchangeStackIndices (immediate : Byte) : Result (Nat × Nat) := do
  assertThat (exchangeImmediateValid immediate)
  let shifted := immediate ^^^ 0x8f
  let quotient := (highNibble shifted).val
  let remainder := (lowNibble shifted).val
  if quotient < remainder then .ok (quotient + 1, remainder + 1)
  else .ok (remainder + 1, 29 - quotient)

abbrev Handler := Exec OpcodeOutcome

/-- The frame goes on. -/
def proceed : Handler := pure .continues

/-! ## Words -/

/-- An operation on the two words on top. -/
def binaryWord (cost : Nat) (op : Word → Word → Word) : Handler :=
  behind (guardStack 2 1) <| charge cost do
    let a ← popWord
    let b ← readStackWord
    writeStackWord (op a b)
    proceed

def ternaryWord (cost : Nat) (op : Word → Word → Word → Word) : Handler :=
  behind (guardStack 3 1) <| charge cost do
    let a ← popWord
    let b ← popWord
    let n ← readStackWord
    writeStackWord (op a b n)
    proceed

def unaryWord (cost : Nat) (op : Word → Word) : Handler :=
  behind (guardStack 1 1) <| charge cost do
    let a ← readStackWord
    writeStackWord (op a)
    proceed

def executeAdd : Handler := binaryWord gVerylow aluAdd
def executeMul : Handler := binaryWord gLow aluMul
def executeSub : Handler := binaryWord gVerylow aluSub
def executeDiv : Handler := binaryWord gLow aluDiv
def executeSdiv : Handler := binaryWord gLow aluSdiv
def executeMod : Handler := binaryWord gLow aluMod
def executeSmod : Handler := binaryWord gLow aluSmod
def executeAddmod : Handler := ternaryWord gMid aluAddmod
def executeMulmod : Handler := ternaryWord gMid aluMulmod
def executeSignextend : Handler := binaryWord gLow aluSignextend
def executeLt : Handler := binaryWord gVerylow aluLt
def executeGt : Handler := binaryWord gVerylow aluGt
def executeSlt : Handler := binaryWord gVerylow aluSlt
def executeSgt : Handler := binaryWord gVerylow aluSgt
def executeEq : Handler := binaryWord gVerylow aluEq
def executeIszero : Handler := unaryWord gVerylow aluIszero
def executeAnd : Handler := binaryWord gVerylow aluAnd
def executeOr : Handler := binaryWord gVerylow aluOr
def executeXor : Handler := binaryWord gVerylow aluXor
def executeNot : Handler := unaryWord gVerylow aluNot
def executeByte : Handler := binaryWord gVerylow aluByte
def executeShl : Handler := binaryWord gVerylow aluShl
def executeShr : Handler := binaryWord gVerylow aluShr
def executeSar : Handler := binaryWord gVerylow aluSar
def executeClz : Handler := unaryWord gLow aluClz

/-- The exponent is read before its price is known. -/
def executeExp : Handler :=
  behind (guardStack 2 1) do
    let a ← popWord
    let e ← readStackWord
    charge (expGas e) do
      writeStackWord (aluExp a e)
      proceed

/-! ## The stack -/

/-- Pushes a word that is computed behind the charge. -/
def pushValue (cost : Nat) (value : Exec Word) : Handler :=
  behind (guardStack 0 1) <| charge cost do
    let word ← value
    pushWord word
    proceed

/-- Replaces the word on top by what it stands for. -/
def replaceTop (cost : Nat) (value : Word → Exec Word) : Handler :=
  behind (guardStack 1 1) <| charge cost do
    let index ← popWord
    let word ← value index
    pushWord word
    proceed

def executePop : Handler :=
  behind (guardStack 1 0) <| charge gBase do
    let _ ← popWord
    proceed

def executePush (n : Nat) (v : Word) : Handler :=
  pushValue (if n = 0 then gBase else gVerylow) (pure v)

def executeDup (n : Nat) : Handler :=
  behind (guardStack n (n + 1)) <| charge gVerylow do
    let value ← stackSlotRead (n - 1)
    pushWord value
    proceed

/-- Exchanges two slots, the second of which is the deeper one. -/
def exchangeSlots (n m : Nat) : Handler :=
  behind (guardStack (m + 1) (m + 1)) <| charge gVerylow do
    let first ← stackSlotRead n
    let second ← stackSlotRead m
    stackSlotWrite n second
    stackSlotWrite m first
    proceed

def executeSwap (n : Nat) : Handler := exchangeSlots 0 n

/-- Unlike at any other failure, an invalid immediate keeps the gas. -/
def executeDupn (immediate : Byte) : Handler :=
  if deepStackImmediateValid immediate then do
    let n ← liftM (decodeSingleStackIndex immediate)
    executeDup n
  else fail .invalidOpcode

def executeSwapn (immediate : Byte) : Handler :=
  if deepStackImmediateValid immediate then do
    let n ← liftM (decodeSingleStackIndex immediate)
    executeSwap n
  else fail .invalidOpcode

def executeExchange (immediate : Byte) : Handler :=
  if exchangeImmediateValid immediate then do
    let depths ← liftM (decodeExchangeStackIndices immediate)
    exchangeSlots depths.1 depths.2
  else fail .invalidOpcode

section

variable (ctx : Context) (f : Frame)

/-! ## The environment -/

def executeAddress : Handler := pushValue gBase (pure (addressToWord f.message.address))
def executeOrigin : Handler := pushValue gBase (pure (kEnv ctx .fOrigin))
def executeCaller : Handler := pushValue gBase (pure (addressToWord f.message.caller))
def executeCallvalue : Handler := pushValue gBase (pure f.message.value)
def executeGasprice : Handler := pushValue gBase (pure (kEnv ctx .fGasPrice))
def executeCalldatasize : Handler :=
  pushValue gBase (liftM (wordOfNatByteCount f.calldata.length))
def executeCodesize : Handler :=
  pushValue gBase (liftM (wordOfNatByteCount f.code.bytes.length))
def executeReturndatasize : Handler :=
  pushValue gBase (liftM (wordOfNatByteCount f.returndata.len))
def executeCoinbase : Handler := pushValue gBase (pure (kEnv ctx .fCoinbase))
def executeTimestamp : Handler := pushValue gBase (pure (kEnv ctx .fTimestamp))
def executeNumber : Handler := pushValue gBase (pure (kEnv ctx .fNumber))
def executeSlotnum : Handler := pushValue gBase (pure (kEnv ctx .fSlotNumber))
def executePrevrandao : Handler := pushValue gBase (pure (kEnv ctx .fPrevRandao))
def executeGaslimit : Handler := pushValue gBase (pure (kEnv ctx .fGasLimit))
def executeChainid : Handler := pushValue gBase (pure (kEnv ctx .fChainId))
def executeBasefee : Handler := pushValue gBase (pure (kEnv ctx .fBaseFee))
def executeBlobbasefee : Handler := pushValue gBase (pure ctx.blobFee)

def executeSelfbalance : Handler :=
  pushValue gLow (syscall (kGetBalance ctx.kernel f.message.address))

/-- `slice_load_word_offset`. -/
def sliceLoadWordOffset (bytes : List Byte) (off : Word) : Word :=
  if off.toNat < bytes.length then sliceLoad bytes off.toNat else 0

def executeCalldataload : Handler :=
  replaceTop gVerylow fun off => do
    let s ← get
    pure (sliceLoadWordOffset (f.calldata.bytes s) off)

def executeBlockhash : Handler :=
  replaceTop gBlockhash fun number => do
    let hash ← liftM (kBlockhash ctx.header.number.val ctx.nHeaders ctx.ancestors number)
    pure (hashToWord hash)

def executeBlobhash : Handler := replaceTop gVerylow fun index => pure (kBlobhash ctx index)

/-! ## Accounts -/

def accountAccessCost (warm : Bool) : Nat := accountCost ctx.amsterdam warm

def codeAccessCost (warm : Bool) : Nat :=
  accountAccessCost ctx warm + externalCodeReadCost ctx.kernel.profile.fork

/-- Reads an account, which is marked warm once the access is paid for. -/
def readAccount (cost : Bool → Nat) (read : Address → Exec Word) : Handler :=
  behind (guardStack 1 1) do
    let addressWord ← popWord
    let a := wordToAddress addressWord
    let warm ← syscall (kAccountIsWarm ctx.kernel a)
    charge (cost warm) do
      syscall (kAccountMarkWarm ctx.kernel a)
      let word ← read a
      pushWord word
      proceed

def executeBalance : Handler :=
  readAccount ctx (accountAccessCost ctx) fun a => syscall (kGetBalance ctx.kernel a)

def executeExtcodesize : Handler :=
  readAccount ctx (codeAccessCost ctx) fun a => do
    let size ← syscall (kGetCodeSize ctx.kernel a)
    liftM (wordOfNatByteCount size)

def executeExtcodehash : Handler :=
  readAccount ctx (accountAccessCost ctx) fun a => do
    let hash ← syscall (kGetCodehash ctx.kernel a)
    pure (hashToWord hash)

/-! ## Memory -/

def executeKeccak256 : Handler :=
  behind (guardStack 2 1) do
    let offset ← popWord
    let length ← popWord
    chargeAffordable (keccakGasCost length) <| withOperand ctx f offset length fun access => do
      let digest ← memKeccak ctx f access
      pushWord digest
      proceed

/-- What is paid for copying `length` bytes to `destination`, and then the
copy. -/
def copyCharged (destination length : Word) (copy : Nat → Nat → Handler) : Handler :=
  chargeAffordable (copyGasCost length) <| withOperand ctx f destination length fun access => do
    let dst ← liftM (memoryAbsolute f.memoryBase access.off)
    copy dst access.len

/-- Copies a range of bytes the frame has. -/
def copyBytes (source : MachineState → List Byte) : Handler :=
  behind (guardStack 3 0) <| charge gVerylow do
    let destination ← popWord
    let offset ← popWord
    let length ← popWord
    copyCharged ctx f destination length fun dst len => do
      sliceCopyWordOffset ctx source dst offset len
      proceed

def executeCalldatacopy : Handler := copyBytes ctx f fun s => f.calldata.bytes s

def executeCodecopy : Handler := copyBytes ctx f fun _ => f.code.bytes

/-- The range has to be inside the data also when it is empty. -/
def executeReturndatacopy : Handler :=
  behind (guardStack 3 0) <| charge gVerylow do
    let destination ← popWord
    let offset ← popWord
    let length ← popWord
    let available := f.returndata.len
    if offset.toNat ≤ available then
      let remaining := available - offset.toNat
      if length.toNat ≤ remaining then
        copyCharged ctx f destination length fun dst _ => do
          sliceCopy ctx (fun s => s.outputBytes f.returndata) dst offset.toNat length.toNat
          proceed
      else failEmpty .invalidOpcode
    else failEmpty .invalidOpcode

/-- The account is marked warm behind the last charge. -/
def executeExtcodecopy : Handler :=
  behind (guardStack 4 0) do
    let addressWord ← popWord
    let a := wordToAddress addressWord
    let destination ← popWord
    let offset ← popWord
    let length ← popWord
    let warm ← syscall (kAccountIsWarm ctx.kernel a)
    charge (codeAccessCost ctx warm) <|
      chargeAffordable (copyGasCost length) <|
        withOperand ctx f destination length fun access => do
          syscall (kAccountMarkWarm ctx.kernel a)
          let dst ← liftM (memoryAbsolute f.memoryBase access.off)
          let code ← syscall (kCode ctx.kernel a)
          sliceCopyWordOffset ctx (fun _ => code.bytes) dst offset access.len
          proceed

def executeMload : Handler :=
  behind (guardStack 1 1) <| charge gVerylow do
    let offset ← popWord
    withOperand ctx f offset 32 fun access => do
      let value ← memLoad ctx f access.off
      pushWord value
      proceed

/-- Writes `size` bytes of a word. -/
def storeMemory (size : Word) (store : Nat → Word → Exec Unit) : Handler :=
  behind (guardStack 2 0) <| charge gVerylow do
    let offset ← popWord
    let v ← popWord
    withOperand ctx f offset size fun access => do
      store access.off v
      proceed

def executeMstore : Handler := storeMemory ctx f 32 (memStore ctx f)

def executeMstore8 : Handler := storeMemory ctx f 1 (memStoreByte ctx f)

def executeMsize : Handler :=
  pushValue gBase do
    let s ← get
    liftM (wordOfNatByteCount (memoryWordCount s.memoryHeight * 32))

/-- Establishes two operands of which the higher one has been paid for. -/
def reachBoth (a b : Operand) : Exec (MemoryAccess × MemoryAccess) := do
  let first ← liftM (memoryAccess a)
  let second ← liftM (memoryAccess b)
  let required :=
    if first.requestedHeight < second.requestedHeight then second.requestedHeight
    else first.requestedHeight
  growMemory ctx f required
  pure (first, second)

/-- Both ranges are paid for at once. -/
def executeMcopy : Handler :=
  behind (guardStack 3 0) <| charge gVerylow do
    let destination ← popWord
    let source ← popWord
    let length ← popWord
    let dst : Operand := { start := destination.toNat, size := length.toNat }
    let src : Operand := { start := source.toNat, size := length.toNat }
    chargeAffordable (copyGasCost length) <| chargeExpansion (operandsHeight dst src) do
      let (dstAccess, srcAccess) ← reachBoth ctx f dst src
      memMcopy ctx f dstAccess.off srcAccess.off dstAccess.len
      proceed

/-! ## Storage -/

def slotAccessCost (warm : Bool) : Nat := sloadCost ctx.kernel.profile.fork warm

def executeSload : Handler :=
  behind (guardStack 1 1) do
    let slot ← popWord
    let warm ← syscall (kSlotIsWarm ctx.kernel f.message.address slot)
    charge (slotAccessCost ctx warm) do
      syscall (kSlotMarkWarm ctx.kernel f.message.address slot)
      let entry ← syscall (kSload ctx.kernel f.message.address slot)
      pushWord entry.curr
      proceed

/-- Adds to the refund counter of the frame. -/
def countRefund (delta : Int) : Exec Unit := fun s => do
  let refund ← recordRefund s.refund delta
  .ok ((), { s with refund := refund })

/-- A slot is written when its value changes. -/
def storeSlot (slot v : Word) (entry : StorageValue) : Handler := do
  if entry.curr ≠ v then
    syscall
      (kSstore ctx.kernel f.message.address slot { curr := v, orig := entry.orig })
  else pure ()
  proceed

/-- A store that is paid for. -/
def applyStore (slot v : Word) (entry : StorageValue) (refund : Int) : Handler := do
  if refund = 0 then pure () else countRefund refund
  storeSlot ctx f slot v entry

/-- Credits state gas. -/
def creditState (amount : Nat) : Exec Unit := fun s => do
  let pools ← creditStateGasRefund s.toGasPools amount
  .ok ((), { s with toGasPools := pools })

/-- A store whose costs are known. -/
def payStore (slot v : Word) (entry : StorageValue) (costs : SstoreCosts) : Handler :=
  charge costs.execution <|
    chargeState costs.stateCharge <| applyStore ctx f slot v entry costs.refund

/-- The slot is marked warm and read before the store is paid for. -/
def chargeStore (slot v : Word) (warm : Bool) : Handler := do
  syscall (kSlotMarkWarm ctx.kernel f.message.address slot)
  let entry ← syscall (kSload ctx.kernel f.message.address slot)
  let costs := sstoreCosts ctx.kernel.profile.fork entry.orig entry.curr v (!warm)
  if costs.stateCredit ≠ 0 then creditState costs.stateCredit else pure ()
  payStore ctx f slot v entry costs

/-- Up to Osaka a store needs more than the call stipend, which is not
taken; from Amsterdam on it needs the price of its access. -/
def executeSstore : Handler :=
  behind (guardStack 2 0) <| behind (guardStatic f.message.isStatic) do
    let s ← get
    if ctx.kernel.profile.fork < .amsterdam ∧ s.gas ≤ callStipend then fail .outOfGas
    else do
      let slot ← popWord
      let v ← popWord
      let warm ← syscall (kSlotIsWarm ctx.kernel f.message.address slot)
      if .amsterdam ≤ ctx.kernel.profile.fork ∧ s.gas < sstoreSentryCost (!warm) then
        failEmpty .outOfGas
      else chargeStore ctx f slot v warm

def executeTload : Handler :=
  replaceTop gWarmAccess fun slot => syscall (kTload ctx.kernel f.message.address slot)

def executeTstore : Handler :=
  behind (guardStack 2 0) <| behind (guardStatic f.message.isStatic) <| charge gWarmAccess do
    let slot ← popWord
    let v ← popWord
    syscall (kTstore ctx.kernel f.message.address slot v)
    proceed

/-! ## Flow -/

def setPc (pc : Nat) : Exec Unit := modify fun s => { s with pc := pc }

def doJump (destination : Word) : Handler :=
  if destination.toNat < f.code.bytes.length then
    if destination.toNat ∈ f.code.jumpdests then do
      setPc destination.toNat
      proceed
    else failEmpty .invalidJump
  else failEmpty .invalidJump

def executeJump : Handler :=
  behind (guardStack 1 0) <| charge gMid do
    let dest ← popWord
    doJump f dest

def executeJumpi : Handler :=
  behind (guardStack 2 0) <| charge gHigh do
    let dest ← popWord
    let cond ← popWord
    if cond = 0 then proceed else doJump f dest

/-- The carried counter is already behind the opcode. -/
def executePc : Handler := pushValue gBase do
  let s ← get
  let nextPc ← liftM (wordOfNatByteCount s.pc)
  pure (aluSub nextPc 1)

def executeGas : Handler := pushValue gBase do
  let s ← get
  liftM (wordOfNatByteCount s.gas)

def executeJumpdest : Handler := charge gJumpdest proceed

/-! ## Logs -/

def popLogTopics : Nat → Exec (List Word)
  | 0 => pure []
  | n + 1 => do
    let topic ← popWord
    let topics ← popLogTopics n
    pure (topic :: topics)

def executeLog (n : Nat) : Handler :=
  behind (guardStack (n + 2) 0) <| behind (guardStatic f.message.isStatic) do
    let offset ← popWord
    let length ← popWord
    let topics ← popLogTopics n
    chargeAffordable (logGasCost n length) <| withOperand ctx f offset length fun access => do
      let data ← activeMemoryBytes ctx f access
      syscall (kLog ctx.kernel f.message.address topics data)
      proceed

/-! ## Ends of a frame -/

def executeStop : Exec FrameStatus := pure (.halted .haltStop)

def executeReturn : Exec FrameStatus :=
  behind (guardStack 2 0) do
    let offset ← popWord
    let length ← popWord
    withOperand ctx f offset length fun access => do
      let data ← activeMemorySlice ctx f access
      let output ← freezeOutput ctx data
      pure (.halted (.haltReturn output))

/-- From Amsterdam on the spill goes back to the gas it was taken from. -/
def revertPools (reservoir : Nat) (p : GasPools) : Result GasPools :=
  if ctx.amsterdam then do
    let gas ← conservedGasAdd p.gas p.stateSpill
    .ok { gas := gas, stateGas := reservoir, stateSpill := 0 }
  else .ok p

def giveBackPools : Exec Unit := fun s => do
  let pools ← revertPools ctx f.message.stateGasReservoir s.toGasPools
  .ok ((), { s with toGasPools := pools })

def executeRevert : Exec FrameStatus :=
  behind (guardStack 2 0) do
    let offset ← popWord
    let length ← popWord
    withOperand ctx f offset length fun access => do
      giveBackPools ctx f
      let data ← activeMemorySlice ctx f access
      let output ← freezeOutput ctx data
      pure (.halted (.haltRevert output))

def executeInvalid : Handler := fail .invalidOpcode

/-- The price of `SELFDESTRUCT` before anything is moved. -/
def beneficiaryAccessCost (warm : Bool) : Nat :=
  gSelfdestruct + if warm then 0 else gAmsterdamColdAccountAccess

/-- The end of `SELFDESTRUCT` from Amsterdam on. -/
def destroyAmsterdam (beneficiary : Address) (bal : Word) : Exec FrameStatus := do
  syscall (kTransfer ctx.kernel f.message.address beneficiary bal)
  let created ← syscall (kWasCreated ctx.kernel f.message.address)
  if created then syscall (kSelfdestruct ctx.kernel f.message.address) else pure ()
  pure (.halted .haltSelfDestruct)

/-- From Amsterdam on the access is paid for first, and recorded before the
rest is. -/
def selfdestructAmsterdam (beneficiary : Address) : Exec FrameStatus := do
  let warm ← syscall (kAccountIsWarm ctx.kernel beneficiary)
  let accessCost := beneficiaryAccessCost warm
  let s ← get
  if s.gas < accessCost then failEmpty .outOfGas
  else do
    syscall (kAccountMarkWarm ctx.kernel beneficiary)
    let bal ← syscall (kGetBalance ctx.kernel f.message.address)
    let beneficiaryEmpty ← syscall (kAccountIsEmpty ctx.kernel beneficiary)
    let createsAccount := decide (bal ≠ 0) && beneficiaryEmpty
    charge (if createsAccount then accessCost + gAmsterdamAccountWrite else accessCost) <|
      chargeState (if createsAccount then stateNewAccount else 0) <|
        destroyAmsterdam ctx f beneficiary bal

/-- From Cancun on only an account that the transaction has created is
destroyed. -/
def destroyAccount : Exec FrameStatus := do
  let destroyed ← (if ctx.kernel.profile.fork < .cancun then pure true
    else syscall (kWasCreated ctx.kernel f.message.address) : Exec Bool)
  if destroyed then do
    syscall (kZeroBalance ctx.kernel f.message.address)
    syscall (kSelfdestruct ctx.kernel f.message.address)
    pure (.halted .haltSelfDestruct)
  else pure (.halted .haltSelfDestruct)

def moveAndDestroy (beneficiary : Address) (bal : Word) : Exec FrameStatus := do
  syscall (kTransfer ctx.kernel f.message.address beneficiary bal)
  destroyAccount ctx f

/-- The end of `SELFDESTRUCT` up to Osaka. -/
def destroyLegacy (beneficiary : Address) (bal : Word) : Exec FrameStatus := do
  let selfdestructed ← syscall (kIsSelfdestructed ctx.kernel f.message.address)
  if ctx.kernel.profile.fork < .london ∧ selfdestructed = false then
    countRefund rSelfdestructPreLondon
  else pure ()
  moveAndDestroy ctx f beneficiary bal

def selfdestructLegacy (beneficiary : Address) : Exec FrameStatus := do
  let bal ← syscall (kGetBalance ctx.kernel f.message.address)
  let warm ← syscall (kAccountIsWarm ctx.kernel beneficiary)
  charge gSelfdestruct <| charge (if warm then 0 else gColdAccount) do
    syscall (kAccountMarkWarm ctx.kernel beneficiary)
    let beneficiaryEmpty ← syscall (kAccountIsEmpty ctx.kernel beneficiary)
    charge (if bal ≠ 0 ∧ beneficiaryEmpty then newAccountCost else 0) <|
      destroyLegacy ctx f beneficiary bal

def executeSelfdestruct : Exec FrameStatus :=
  behind (guardStack 1 0) <| behind (guardStatic f.message.isStatic) do
    let beneficiaryWord ← popWord
    let beneficiary := wordToAddress beneficiaryWord
    if .amsterdam ≤ ctx.kernel.profile.fork then selfdestructAmsterdam ctx f beneficiary
    else selfdestructLegacy ctx f beneficiary

/-! ## Dispatch -/

/-- A handler that does not end the frame. -/
def ordinary (handler : Handler) : Exec FrameStatus := do
  let result ← handler
  pure (opcodeFrameStatus result)

/-- The handler of an opcode.  The opcodes that enter a frame have none. -/
def executeOpcode : Ast → Exec FrameStatus
  | .stop => executeStop
  | .add => ordinary executeAdd
  | .mul => ordinary executeMul
  | .sub => ordinary executeSub
  | .div => ordinary executeDiv
  | .sdiv => ordinary executeSdiv
  | .mod => ordinary executeMod
  | .smod => ordinary executeSmod
  | .addmod => ordinary executeAddmod
  | .mulmod => ordinary executeMulmod
  | .exp => ordinary executeExp
  | .signextend => ordinary executeSignextend
  | .lt => ordinary executeLt
  | .gt => ordinary executeGt
  | .slt => ordinary executeSlt
  | .sgt => ordinary executeSgt
  | .eq => ordinary executeEq
  | .iszero => ordinary executeIszero
  | .and => ordinary executeAnd
  | .or => ordinary executeOr
  | .xor => ordinary executeXor
  | .not => ordinary executeNot
  | .byte => ordinary executeByte
  | .shl => ordinary executeShl
  | .shr => ordinary executeShr
  | .sar => ordinary executeSar
  | .clz => ordinary executeClz
  | .keccak256 => ordinary (executeKeccak256 ctx f)
  | .address => ordinary (executeAddress f)
  | .balance => ordinary (executeBalance ctx)
  | .origin => ordinary (executeOrigin ctx)
  | .caller => ordinary (executeCaller f)
  | .callvalue => ordinary (executeCallvalue f)
  | .calldataload => ordinary (executeCalldataload f)
  | .calldatasize => ordinary (executeCalldatasize f)
  | .calldatacopy => ordinary (executeCalldatacopy ctx f)
  | .codesize => ordinary (executeCodesize f)
  | .codecopy => ordinary (executeCodecopy ctx f)
  | .gasprice => ordinary (executeGasprice ctx)
  | .extcodesize => ordinary (executeExtcodesize ctx)
  | .extcodecopy => ordinary (executeExtcodecopy ctx f)
  | .returndatasize => ordinary (executeReturndatasize f)
  | .returndatacopy => ordinary (executeReturndatacopy ctx f)
  | .extcodehash => ordinary (executeExtcodehash ctx)
  | .blockhash => ordinary (executeBlockhash ctx)
  | .coinbase => ordinary (executeCoinbase ctx)
  | .timestamp => ordinary (executeTimestamp ctx)
  | .number => ordinary (executeNumber ctx)
  | .prevrandao => ordinary (executePrevrandao ctx)
  | .gaslimit => ordinary (executeGaslimit ctx)
  | .chainid => ordinary (executeChainid ctx)
  | .selfbalance => ordinary (executeSelfbalance ctx f)
  | .basefee => ordinary (executeBasefee ctx)
  | .blobhash => ordinary (executeBlobhash ctx)
  | .blobbasefee => ordinary (executeBlobbasefee ctx)
  | .slotnum => ordinary (executeSlotnum ctx)
  | .pop => ordinary executePop
  | .mload => ordinary (executeMload ctx f)
  | .mstore => ordinary (executeMstore ctx f)
  | .mstore8 => ordinary (executeMstore8 ctx f)
  | .sload => ordinary (executeSload ctx f)
  | .sstore => ordinary (executeSstore ctx f)
  | .jump => ordinary (executeJump f)
  | .jumpi => ordinary (executeJumpi f)
  | .pc => ordinary executePc
  | .msize => ordinary executeMsize
  | .gas => ordinary executeGas
  | .jumpdest => ordinary executeJumpdest
  | .tload => ordinary (executeTload ctx f)
  | .tstore => ordinary (executeTstore ctx f)
  | .mcopy => ordinary (executeMcopy ctx f)
  | .push n v => ordinary (executePush n v)
  | .dup n => ordinary (executeDup n)
  | .swap n => ordinary (executeSwap n)
  | .log n => ordinary (executeLog ctx f n)
  | .dupn immediate => ordinary (executeDupn immediate)
  | .swapn immediate => ordinary (executeSwapn immediate)
  | .exchange immediate => ordinary (executeExchange immediate)
  | .return_ => executeReturn ctx f
  | .revert => executeRevert ctx f
  | .invalid => ordinary executeInvalid
  | .selfdestruct => executeSelfdestruct ctx f
  | .opcodeCreate | .call | .callcode | .delegatecall | .create2 | .staticcall =>
    liftM (fatalError .executionInvalid : Result FrameStatus)

end

end EvmSail.Vm
