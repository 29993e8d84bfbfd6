/-
# `EvmSail.Vm.Frames` — entering a frame and coming back

The message calls and the creations share one implementation each, which
the kind of the instruction parametrises.  Either it does not enter a frame,
for one of several reasons, or it suspends the active frame and installs a
child; how the suspended frame goes on is a `FrameContinuation`.

The two instructions leave gas and state gas as they are when they fail:
that an exceptional halt empties the one and resets the other is done for
all instructions at once, by the interpreter.
-/
import EvmSail.Evm.PrecompileGas
import EvmSail.Tx.Validity
import EvmSail.Vm.Handlers

namespace EvmSail.Vm

open Fallible Kernel

/-! ## The instructions -/

inductive CallKind where
  | call
  | callCode
  | delegateCall
  | staticCall

/-- What the kind of a call decides. -/
structure CallSemantics where
  takesValue : Bool
  transfersValue : Bool
  usesTargetAddress : Bool
  inheritsCallerAndValue : Bool
  entersStaticContext : Bool

def callSemantics : CallKind → CallSemantics
  | .call => ⟨true, true, true, false, false⟩
  | .callCode => ⟨true, false, false, false, false⟩
  | .delegateCall => ⟨false, false, false, true, false⟩
  | .staticCall => ⟨false, false, true, false, true⟩

def callStackInputs : CallKind → Nat
  | .call => 7
  | .callCode => 7
  | .delegateCall => 6
  | .staticCall => 6

inductive CreateKind where
  | createByNonce
  | createBySalt

/-- `uses_salt`. -/
def CreateKind.usesSalt : CreateKind → Bool
  | .createByNonce => false
  | .createBySalt => true

def createStackInputs : CreateKind → Nat
  | .createByNonce => 3
  | .createBySalt => 4

/-! ## Suspended frames -/

/-- What a suspended frame keeps. -/
structure FrameCheckpoint extends GasPools where
  pc : Nat
  sp : Nat
  refund : Int
  status : FrameStatus
  message : Message
  code : Kernel.Code
  calldata : CalldataSlice
  memoryHeight : Nat

inductive FrameContinuation where
  | resumeCall (checkpoint : FrameCheckpoint) (returnOffset returnLength : Nat)
      (newAccountCharged : Bool)
  | resumeCreate (checkpoint : FrameCheckpoint) (address : Address) (newAccountCharged : Bool)

/-- What an instruction that may enter a frame comes to. -/
inductive FrameTransition where
  | failed (kind : ExceptionKind)
  | stays (returndata : OutputSlice)
  | enters (k : FrameContinuation) (child : Frame)

instance : Outcome FrameTransition := ⟨.failed⟩

/-! ## The stacks of the host -/

/-- `HS_MAXDEPTH`. -/
def operandRows : Nat := 1100

/-- Enters the next row; the last one is shared. -/
def operandStackPushEmptyFrame : Exec Unit :=
  modify fun s => { s with row := if s.row + 1 < operandRows then s.row + 1 else s.row, sp := 0 }

def operandStackPopFrame : Exec Unit :=
  modify fun s => { s with row := if 0 < s.row then s.row - 1 else s.row }

/-- An operation of the kernel's journal. -/
def journal (operation : Host → Result Host) : Exec Unit := fun s => do
  let h ← operation s.kernel
  .ok ((), { s with kernel := h })

/-! ## Shared steps -/

section

variable (ctx : Context) (f : Frame)

/-- What follows a charge of gas that is lent to the child. -/
def lend {S : Type} [Outcome S] (request : Nat) (k : Nat → Exec S) : Exec S := fun s =>
  let base := callGasCapWord s.gas request
  charge base (k base) s

/-- `refund_gas`. -/
def giveBack (amount : Nat) : Exec Unit := fun s => do
  let gas ← refundGas s.gas amount
  .ok ((), { s with gas := gas })

/-- The instruction has not entered a frame. -/
def stayWith (returned : Word) (returndata : OutputSlice) : Exec FrameTransition := do
  pushWord returned
  pure (.stays returndata)

/-- The instruction has not entered a frame: the charge for a new account
is taken back. -/
def refuse (newAccountCharged : Bool) : Exec FrameTransition := do
  (if newAccountCharged then creditState stateNewAccount else pure () : Exec Unit)
  stayWith 0 emptySlice

/-- `returndata_copy_prefix`, to an absolute position. -/
def returndataCopyPrefix (returndata : OutputSlice) (dst want : Nat) : Exec Unit :=
  sliceCopy ctx (fun s => s.outputBytes returndata) dst 0
    (if want < returndata.len then want else returndata.len)

/-- The checkpoint of the frame.  The state gas is the child's. -/
def frameCheckpoint (s : MachineState) : FrameCheckpoint :=
  { gas := s.gas
    stateGas := 0
    stateSpill := s.stateSpill
    pc := s.pc
    sp := s.sp
    refund := s.refund
    status := .running
    message := f.message
    code := f.code
    calldata := f.calldata
    memoryHeight := s.memoryHeight }

/-- `suspend_frame`: the checkpoint of the frame, and where its child's
memory starts. -/
def suspendFrame : Exec (FrameCheckpoint × Nat) := do
  journal stateJournalCheckpoint
  let s ← get
  operandStackPushEmptyFrame
  let childMemoryBase ← liftM (memoryAbsolute f.memoryBase s.memoryHeight)
  pure (frameCheckpoint f s, childMemoryBase)

/-- The registers of a frame that starts. -/
def startFrame (gas : Nat) : Exec Unit :=
  modify fun s => { s with gas := gas, stateSpill := 0, pc := 0, refund := 0, memoryHeight := 0 }

/-! ## Message calls -/

/-- `executable_code`. -/
def executableCode (target : Address) : Option Address → Exec Kernel.Code
  | none => syscall (kCode ctx.kernel target)
  | some delegate => do
    let code ← syscall (kCode ctx.kernel delegate)
    if precompileIdForAddress ctx.kernel.profile.fork delegate ≠ .notPrecompile then
      pure emptyCode
    else pure code

/-- The operands of a call. -/
structure CallOperands where
  gas : Word
  target : Address
  value : Word
  args : Operand
  ret : Operand

def popOperand : Exec Operand := do
  let start ← popWord
  let size ← popWord
  pure { start := start.toNat, size := size.toNat }

def popCallOperands (takesValue : Bool) : Exec CallOperands := do
  let gas ← popWord
  let targetWord ← popWord
  let value ← (if takesValue then popWord else pure 0 : Exec Word)
  let args ← popOperand
  let ret ← popOperand
  pure { gas := gas, target := wordToAddress targetWord, value := value, args := args, ret := ret }

/-- The price of looking at the delegate. -/
def delegationCost : Option Address → Exec Nat
  | none => pure 0
  | some delegate => do
    let warm ← syscall (kAccountIsWarm ctx.kernel delegate)
    pure (accountAccessCost ctx warm)

/-- The delegate is marked warm, and its code and its account are read. -/
def loadDelegate : Option Address → Exec Unit
  | none => pure ()
  | some delegate => do
    syscall (kAccountMarkWarm ctx.kernel delegate)
    let _ ← syscall (kCode ctx.kernel delegate)
    let _ ← syscall (kAload ctx.kernel delegate)
    pure ()

/-- The value of a call goes to its target. -/
def transferValue (semantics : CallSemantics) (o : CallOperands) : Exec Unit :=
  if semantics.transfersValue ∧ o.value ≠ 0 then
    syscall (kTransfer ctx.kernel f.message.address o.target o.value)
  else pure ()

/-- A precompile that has succeeded. -/
def finishPrecompile (semantics : CallSemantics) (o : CallOperands) (ret : MemoryAccess)
    (unused : Nat) (output : List Byte) : Exec FrameTransition := do
  modify fun s => { s with output := output }
  let returndata : OutputSlice := { off := 0, len := output.length }
  transferValue ctx f semantics o
  let returnDestination ← liftM (memoryAbsolute f.memoryBase ret.off)
  returndataCopyPrefix ctx returndata returnDestination ret.len
  giveBack unused
  stayWith 1 returndata

/-- The call of a precompile.  It is priced before it runs; a failure keeps
the child's gas. -/
def callPrecompile (semantics : CallSemantics) (o : CallOperands) (args ret : MemoryAccess)
    (id : PrecompileId) (childGas : Nat) (newAccountCharged : Bool) : Exec FrameTransition := do
  let input ← activeMemoryBytes ctx f args
  let charge := precompileGas ctx.kernel.profile.fork id input childGas
  if charge.affordable then
    match ctx.runPrecompile id input with
    | some output => finishPrecompile ctx f semantics o ret (gasSub childGas charge.cost) output
    | none => refuse newAccountCharged
  else refuse newAccountCharged

/-- The message of the child. -/
def childMessage (semantics : CallSemantics) (o : CallOperands) (stateGas : Nat) : Message :=
  { caller := if semantics.inheritsCallerAndValue then f.message.caller else f.message.address
    codeAddress := o.target
    address := if semantics.usesTargetAddress then o.target else f.message.address
    value := if semantics.inheritsCallerAndValue then f.message.value else o.value
    stateGasReservoir := stateGas
    isStatic := if semantics.entersStaticContext then true else f.message.isStatic
    depth := f.message.depth + 1 }

/-- The call of code. -/
def callCode (semantics : CallSemantics) (o : CallOperands) (args ret : MemoryAccess)
    (delegate : Option Address) (childGas : Nat) (newAccountCharged : Bool) :
    Exec FrameTransition := do
  let code ← executableCode ctx o.target delegate
  let bytes ← activeMemorySlice ctx f args
  let (checkpoint, childMemoryBase) ← suspendFrame f
  transferValue ctx f semantics o
  startFrame childGas
  let s ← get
  pure (.enters (.resumeCall checkpoint ret.off ret.len newAccountCharged)
    { message := childMessage f semantics o s.stateGas
      memoryBase := childMemoryBase
      code := code
      calldata := .memoryCalldata bytes
      returndata := emptySlice })

/-- The balance of the caller does not cover the value. -/
def insufficientBalance (semantics : CallSemantics) (o : CallOperands) : Exec Bool :=
  if semantics.takesValue ∧ o.value ≠ 0 then do
    let balance ← syscall (kGetBalance ctx.kernel f.message.address)
    pure (decide (balance < o.value))
  else pure false

/-- Behind the charges a call is entered, unless it is too deep or its
value not covered. -/
def enterCall (semantics : CallSemantics) (o : CallOperands) (delegate : Option Address)
    (newAccountCharged : Bool) (base : Nat) : Exec FrameTransition := do
  loadDelegate ctx delegate
  let (args, ret) ← reachBoth ctx f o.args o.ret
  let childGas ← liftM (conservedGasAdd base (if o.value ≠ 0 then callStipend else 0))
  let _ ← syscall (kAload ctx.kernel o.target)
  let insufficient ← insufficientBalance ctx f semantics o
  if insufficient ∨ f.message.depth = callDepthLimit then do
    giveBack childGas
    refuse newAccountCharged
  else
    let id := precompileIdForAddress ctx.kernel.profile.fork o.target
    if id ≠ .notPrecompile then
      callPrecompile ctx f semantics o args ret id childGas newAccountCharged
    else callCode ctx f semantics o args ret delegate childGas newAccountCharged

/-- The state gas for an account that the instruction creates. -/
def chargeNewAccount (newAccountCharged : Bool) (k : Exec FrameTransition) :
    Exec FrameTransition :=
  if newAccountCharged then chargeState stateNewAccount k else k

/-- The price of a call that can be told without looking at its target. -/
def callBaseCost (o : CallOperands) (warm : Bool) : Nat :=
  accountAccessCost ctx warm + if o.value ≠ 0 then callValueCost ctx.amsterdam else 0

/-- The rest of the price: it is known once the target is read. -/
def chargeTarget (semantics : CallSemantics) (o : CallOperands) : Exec FrameTransition := do
  syscall (kAccountMarkWarm ctx.kernel o.target)
  let delegate ← syscall (kDelegTarget ctx.kernel o.target)
  let delegateCost ← delegationCost ctx delegate
  let targetEmpty ← syscall (kAccountIsEmpty ctx.kernel o.target)
  let creates := decide (o.value ≠ 0) && semantics.transfersValue && targetEmpty
  let newAccountCharged := ctx.amsterdam && creates
  let createCost := if !ctx.amsterdam && creates then newAccountCost else 0
  charge (delegateCost + createCost) <| chargeNewAccount newAccountCharged <|
    lend o.gas.toNat fun base => enterCall ctx f semantics o delegate newAccountCharged base

/-- `run_call`. -/
def runCall (kind : CallKind) : Exec FrameTransition :=
  let semantics := callSemantics kind
  behind (guardStack (callStackInputs kind) 1) do
    let o ← popCallOperands semantics.takesValue
    if semantics.transfersValue ∧ o.value ≠ 0 ∧ f.message.isStatic then failEmpty .writeProtection
    else do
      let warm ← syscall (kAccountIsWarm ctx.kernel o.target)
      chargeExpansion (operandsHeight o.args o.ret) <| charge (callBaseCost ctx o warm) <|
        chargeTarget ctx f semantics o

/-! ## Creations -/

/-- `create2_address`. -/
def create2Address (sender : Address) (salt : Word) (initHash : Hash) : Address :=
  wordToAddress (hashToWord (ctx.kernel.keccak256
    ([0xff] ++ addressBytes sender ++ (wordToHash salt).toList ++ initHash.toList)))

/-- The address of the new account. -/
def newAddress (kind : CreateKind) (nonce : Nat) (salt : Word) (initcode : MemoryAccess) :
    Exec Address :=
  if kind.usesSalt then do
    let digest ← memKeccak ctx f initcode
    pure (create2Address ctx f.message.address salt (wordToHash digest))
  else liftM (createAddress ctx.kernel.keccak256 f.message.address nonce)

/-- All but a 64th of the gas is lent to the child. -/
def lendCreate : Exec Nat := fun s =>
  let retained := s.gas / 64
  .ok (gasSub s.gas retained, { s with gas := retained })

/-- What the new account starts with. -/
def prepareAccount (new : Address) (value : Word) : Exec Unit := do
  syscall (kMarkCreated ctx.kernel new)
  syscall (kClearStorage ctx.kernel new)
  syscall (kBumpNonce ctx.kernel new)
  syscall (kTransfer ctx.kernel f.message.address new value)

/-- The creation of an account that is free. -/
def createCode (value : Word) (initcode : MemoryAccess) (new : Address) (childGas : Nat)
    (newAccountCharged : Bool) : Exec FrameTransition := do
  let bytes ← activeMemoryBytes ctx f initcode
  let bytes ← liftM (validatedCodeSlice bytes)
  let hash ← syscall (kInternCode ctx.kernel bytes)
  let s ← get
  let code ← liftM (codeDbResolve s.kernel.state hash)
  let (checkpoint, childMemoryBase) ← suspendFrame f
  prepareAccount ctx f new value
  startFrame childGas
  let s ← get
  pure (.enters (.resumeCreate checkpoint new newAccountCharged)
    { message :=
        { caller := f.message.address
          codeAddress := new
          address := new
          value := value
          stateGasReservoir := s.stateGas
          isStatic := f.message.isStatic
          depth := f.message.depth + 1 }
      memoryBase := childMemoryBase
      code := code
      calldata := emptyCalldata
      returndata := emptySlice })

/-- The creator's nonce counts up, also when the new account is not free. -/
def createAccount (value : Word) (initcode : MemoryAccess) (new : Address) (childGas : Nat)
    (newAccountCharged : Bool) : Exec FrameTransition := do
  let occupied ← syscall (kAccountOccupied ctx.kernel new)
  syscall (kBumpNonce ctx.kernel f.message.address)
  if occupied then refuse newAccountCharged
  else createCode ctx f value initcode new childGas newAccountCharged

/-- From Amsterdam on the child's gas is what is left behind the charge for
the account; before, it has been lent already. -/
def enterCreate (value : Word) (initcode : MemoryAccess) (new : Address) (early : Nat) :
    Exec FrameTransition := do
  syscall (kAccountMarkWarm ctx.kernel new)
  let newAccountCharged ← (if ctx.amsterdam then syscall (kAccountIsEmpty ctx.kernel new)
    else pure false : Exec Bool)
  chargeNewAccount newAccountCharged do
    let childGas ← (if ctx.amsterdam then lendCreate else pure early : Exec Nat)
    createAccount ctx f value initcode new childGas newAccountCharged

/-- Behind the charges.  The guards give back what has been lent. -/
def guardCreate (kind : CreateKind) (value salt : Word) (initcode : MemoryAccess) :
    Exec FrameTransition := do
  let nonce ← syscall (kGetNonce ctx.kernel f.message.address)
  let new ← newAddress ctx f kind nonce salt initcode
  let early ← (if ctx.amsterdam then pure 0 else lendCreate : Exec Nat)
  let balance ← syscall (kGetBalance ctx.kernel f.message.address)
  if balance < value ∨ nonce = accountNonceBound ∨ f.message.depth = callDepthLimit then do
    (if ctx.amsterdam then pure () else giveBack early : Exec Unit)
    stayWith 0 emptySlice
  else enterCreate ctx f value initcode new early

/-- The price of initcode by its words. -/
def initcodeCost (words : Word) (available : Nat) : GasCharge :=
  if .shanghai ≤ ctx.kernel.profile.fork then wordScaledGasCost gInitcodeWord words available
  else gasCharge 0

/-- `CREATE2` hashes the initcode. -/
def hashingCost (kind : CreateKind) (words : Word) (available : Nat) : GasCharge :=
  if kind.usesSalt then wordScaledGasCost gKeccakWord words available else gasCharge 0

/-- `run_create`. -/
def runCreate (kind : CreateKind) : Exec FrameTransition :=
  behind (guardStack (createStackInputs kind) 1) do
    let value ← popWord
    let offset ← popWord
    let length ← popWord
    let salt ← (if kind.usesSalt then popWord else pure 0 : Exec Word)
    if f.message.isStatic then failEmpty .writeProtection
    else withOperand ctx f offset length fun initcode =>
      let words := memoryWordCountWord length
      charge (createAccessCost ctx.amsterdam) <| chargeAffordable (initcodeCost ctx words) <|
        chargeAffordable (hashingCost kind words) <|
          if initcodeSizeAllowed ctx.kernel.profile initcode.len then
            guardCreate ctx f kind value salt initcode
          else failEmpty .initCodeTooLarge

end

/-! ## Coming back -/

/-- A normal halt succeeds, a revert or an exceptional halt does not. -/
def FrameStatus.succeeded : FrameStatus → Bool
  | .halted (.haltRevert _) => false
  | .halted _ => true
  | .running => true
  | .exceptional _ => false

/-- `frame_output`. -/
def frameOutput : FrameStatus → OutputSlice
  | .halted (.haltReturn output) => output
  | .halted (.haltRevert output) => output
  | _ => emptySlice

section

variable (ctx : Context)

/-- `exceptional_state`, on the pools: no gas is left. -/
def exceptionalPools (reservoir : Nat) (p : GasPools) : GasPools :=
  if ctx.amsterdam then { gas := 0, stateGas := reservoir, stateSpill := 0 }
  else { p with gas := 0 }

/-- Takes back the registers of a suspended frame.  What the child has left
of its gas comes on top of the checkpoint's. -/
def restoreFrame (child : Frame) (c : FrameCheckpoint) : Exec Nat := fun s => do
  let parentMemoryBase ← memoryParentBase child.memoryBase c.memoryHeight
  let gas ← refundGas c.gas s.gas
  let stateGas ← returnChildStateGas c.stateGas c.stateSpill s.stateGas s.stateSpill
  .ok (parentMemoryBase,
    { s with
      gas := gas
      stateGas := stateGas.1
      stateSpill := stateGas.2
      pc := c.pc
      refund := c.refund
      sp := c.sp
      memoryHeight := c.memoryHeight })

/-- The parent as it goes on. -/
def parentFrame (c : FrameCheckpoint) (memoryBase : Nat) (returndata : OutputSlice) : Frame :=
  { message := c.message
    memoryBase := memoryBase
    code := c.code
    calldata := c.calldata
    returndata := returndata }

/-- The child has failed: its effects are taken back. -/
def undoChild (newAccountCharged : Bool) : Exec Unit := do
  journal stateJournalRevert
  (if newAccountCharged then creditState stateNewAccount else pure () : Exec Unit)
  pushWord 0

/-- The called child has succeeded: its refund counts and its effects stay. -/
def keepChild (childRefund : Int) : Exec Unit := do
  countRefund childRefund
  journal stateJournalCommit
  pushWord 1

/-- `resume_call`. -/
def resumeCall (child : Frame) (status : FrameStatus) (c : FrameCheckpoint)
    (returnOffset returnLength : Nat) (newAccountCharged : Bool) : Exec Frame := do
  let childRefund := (← get).refund
  operandStackPopFrame
  let parentMemoryBase ← restoreFrame child c
  let returnDestination ← liftM (memoryAbsolute parentMemoryBase returnOffset)
  returndataCopyPrefix ctx (frameOutput status) returnDestination returnLength
  (if status.succeeded then keepChild childRefund else undoChild newAccountCharged : Exec Unit)
  pure (parentFrame c parentMemoryBase (frameOutput status))

/-- The exceptional end of a creation. -/
def failDeployment (reservoir : Nat) : Exec Bool := fun s =>
  .ok (false, { s with toGasPools := exceptionalPools ctx reservoir s.toGasPools })

/-- The output of successful initcode is paid for.  Up to Frontier a
creation that cannot pay for its code succeeds with none. -/
def payDeployment (reservoir : Nat) (deployedSize : Nat) : Exec (Bool × Bool) := fun s => do
  let charge := codeDeploymentExecutionCost ctx.kernel.profile deployedSize s.gas
  if charge.affordable then do
    let stateCost ← codeDeploymentStateCost ctx.kernel.profile deployedSize
    let r ← chargeStateGas { s.toGasPools with gas := gasSub s.gas charge.cost } stateCost
    if r.1 then
      let r' ← failDeployment ctx reservoir { s with toGasPools := r.2 }
      .ok ((r'.1, false), r'.2)
    else .ok ((true, false), { s with toGasPools := r.2 })
  else if ctx.kernel.profile.fork < .homestead then .ok ((true, true), { s with gas := 0 })
  else do
    let r' ← failDeployment ctx reservoir s
    .ok ((r'.1, false), r'.2)

/-- Whether the code may be deployed (EIP-170, EIP-3541). -/
def deployableOutput (s : MachineState) (output : OutputSlice) : Bool :=
  let prohibitedPrefix := output.len ≠ 0 ∧ sliceByte (s.outputBytes output) 0 = 0xef
  deployedCodeSizeAllowed ctx.kernel.profile output.len &&
    !(decide (.london ≤ ctx.kernel.profile.fork) && decide prohibitedPrefix)

/-- Whether the creation succeeds, and whether it is left without code. -/
def settleDeployment (reservoir : Nat) (status : FrameStatus) : Exec (Bool × Bool) := do
  if status.succeeded then do
    let s ← get
    if deployableOutput ctx s (frameOutput status) then
      payDeployment ctx reservoir (frameOutput status).len
    else do
      let deployed ← failDeployment ctx reservoir
      pure (deployed, false)
  else pure (false, false)

/-- The creation has succeeded: the code is deployed before the effects are
committed. -/
def keepCreated (childRefund : Int) (address : Address) (output : MachineState → List Byte) :
    Exec Unit := do
  countRefund childRefund
  let s ← get
  let bytes ← liftM (validatedCodeSlice (output s))
  syscall (kDeployCode ctx.kernel address bytes)
  journal stateJournalCommit
  pushWord (addressToWord address)

/-- `resume_create`. -/
def resumeCreate (child : Frame) (status : FrameStatus) (c : FrameCheckpoint)
    (address : Address) (newAccountCharged : Bool) : Exec Frame := do
  let childRefund := (← get).refund
  let (deploySucceeds, frontierEmptyDeposit) ←
    settleDeployment ctx child.message.stateGasReservoir status
  operandStackPopFrame
  let parentMemoryBase ← restoreFrame child c
  (if deploySucceeds then
      keepCreated ctx childRefund address fun s =>
        if frontierEmptyDeposit then [] else s.outputBytes (frameOutput status)
    else undoChild newAccountCharged : Exec Unit)
  pure (parentFrame c parentMemoryBase (if status.succeeded then emptySlice
    else frameOutput status))

/-- `resume_frame`. -/
def resumeFrame (child : Frame) (status : FrameStatus) : FrameContinuation → Exec Frame
  | .resumeCall c returnOffset returnLength newAccountCharged =>
    resumeCall ctx child status c returnOffset returnLength newAccountCharged
  | .resumeCreate c address newAccountCharged =>
    resumeCreate ctx child status c address newAccountCharged

end

end EvmSail.Vm
