/-
# `EvmSail.Transition.TopFrame` — the frame of a transaction

A transaction runs one frame of its own, a call of its recipient or the
creation of an account.  Before Amsterdam everything that the frame needs is
looked up inside it.  From Amsterdam on a preparation comes first, which
applies the authorizations and pays for what the dispatch depends on; it has
a checkpoint of its own, so that a frame that fails leaves the authorizations
in place.

What comes out is a `FrameOutcome`: the gas that is left in both reservoirs,
the state gas that was used, and the refund.
-/
import EvmSail.Transition.Authorizing
import EvmSail.Transition.Payments
import EvmSail.Tx.Settlement
import EvmSail.Vm.Interpreter

namespace EvmSail.Vm

open Fallible Kernel

/-- What is established before the frame. -/
structure TxUpfrontResult where
  authorizationRefund : Nat
  createTargetPrestateEmpty : Bool

/-- What the frame is to run. -/
structure Dispatch where
  delegated : Bool
  codeAddress : Address
  code : Kernel.Code
  calldata : CalldataSlice

structure FrameOutcome where
  success : Bool
  execution : Nat
  state : Nat
  stateDelta : Int
  refund : Int

section

variable (ctx : Context)

/-! ## Registers -/

/-- Funds the frame, on an empty stack and without memory. -/
def enterTransactionFrame (initial : TransactionInitialGas) : Exec Unit :=
  modify fun s =>
    { s with
      gas := initial.executionRemaining
      stateGas := initial.stateRemaining
      stateSpill := 0
      refund := 0
      row := 0
      sp := 0
      memoryHeight := 0 }

/-- `interpret` on these registers.  The rounds that the loop declares
suffice (`interpret_suffices`), so it is never cut short. -/
def runInterpreter (f : Frame) : Exec FrameStatus := fun s => do
  match ← interpret ctx ⟨f, .running, { s with pc := 0 }⟩ with
  | some b => .ok (b.status, b.state)
  | none => .error .guestAbort

/-- The exceptional end of the frame. -/
def endExceptionally (reservoir : Nat) (kind : ExceptionKind) : Exec FrameStatus := fun s =>
  .ok (.exceptional kind, { s with toGasPools := exceptionalPools ctx reservoir s.toGasPools })

/-- `k_create_addr`. -/
def kCreateAddr (a : Address) (nonce : Nat) : Exec Address :=
  liftM (createAddress ctx.kernel.keccak256 a nonce)

/-- Initcode is interned and analyzed before it runs. -/
def internInitcode (input : List Byte) : Exec Kernel.Code := do
  let bytes ← liftM (validatedCodeSlice input)
  let hash ← syscall (kInternCode ctx.kernel bytes)
  let s ← get
  liftM (codeDbResolve s.kernel.state hash)

variable (tx : TransactionFields) (v : TxValidity)

/-! ## The preparation -/

/-- What follows the charge for looking at the delegate of the recipient. -/
def chargeDelegate (k : Exec (Option Dispatch)) : Option Address → Exec (Option Dispatch)
  | none => k
  | some delegate => do
    let warm ← syscall (kAccountIsWarm ctx.kernel delegate)
    charge (accountAccessCost ctx warm) do
      syscall (kAccountMarkWarm ctx.kernel delegate)
      k

/-- Pays for what the dispatch depends on, and selects the code; none when it
cannot be paid for. -/
def prepareAmsterdamTransactionDispatch (upfront : TxUpfrontResult) : Exec (Option Dispatch) :=
  if tx.isCreate then do
    let currentTarget ← kCreateAddr ctx v.sender v.nonceBefore
    chargeStateWhen upfront.createTargetPrestateEmpty stateNewAccount do
      let code ← internInitcode ctx tx.inputSrc
      pure (some
        { delegated := false
          codeAddress := currentTarget
          code := code
          calldata := emptyCalldata })
  else do
    let recipientEmpty ← syscall (kAccountIsEmpty ctx.kernel tx.recipient)
    chargeStateWhen (decide (tx.value ≠ 0) && recipientEmpty) stateNewAccount do
      let delegate ← syscall (kDelegTarget ctx.kernel tx.recipient)
      chargeDelegate ctx (do
        let code ← executableCode ctx tx.recipient delegate
        pure (some
          { delegated := delegate.isSome
            codeAddress := delegate.getD tx.recipient
            code := code
            calldata := .inputCalldata tx.inputSrc })) delegate

/-- Authorizations and dispatch.  The result says what state gas the
authorizations have used, and what the frame's reservoir is. -/
def prepareAmsterdamFrame (upfront : TxUpfrontResult)
    (authorizations : PreparedAuthorizationList) : Exec (Option (Int × Nat × Dispatch)) := do
  let preparationReservoir := (← get).stateGas
  let currentTarget ← (if tx.isCreate then kCreateAddr ctx v.sender v.nonceBefore
    else pure tx.recipient : Exec Address)
  let processed ← processAmsterdamAuthCursor ctx v.sender currentTarget (decide (tx.value ≠ 0))
    authorizations.entries authorizations.count emptyTracker
  if processed then do
    let s ← get
    modify fun s => { s with stateSpill := 0 }
    let dispatch ← prepareAmsterdamTransactionDispatch ctx tx v upfront
    pure (dispatch.map fun d =>
      (frameStateGasUsed preparationReservoir s.stateGas s.stateSpill, s.stateGas, d))
  else pure none

/-- Before Amsterdam the delegate is warmed, and not paid for. -/
def warmDelegate : Option Address → Exec Unit
  | none => pure ()
  | some delegate => do
    syscall (kAccountMarkWarm ctx.kernel delegate)
    let _ ← syscall (kAload ctx.kernel delegate)
    pure ()

/-- Before Amsterdam the frame looks its code up itself. -/
def legacyDispatch : Exec Dispatch := do
  let delegate ← syscall (kDelegTarget ctx.kernel tx.recipient)
  warmDelegate ctx delegate
  let code ← executableCode ctx tx.recipient delegate
  pure
    { delegated := false
      codeAddress := delegate.getD tx.recipient
      code := code
      calldata := .inputCalldata tx.inputSrc }

/-! ## The two kinds of frames -/

/-- The first frame, at depth 0 and not static. -/
def topFrame (address codeAddress : Address) (reservoir : Nat) (code : Kernel.Code)
    (calldata : CalldataSlice) : Frame :=
  { message :=
      { caller := v.sender
        codeAddress := codeAddress
        address := address
        value := tx.value
        stateGasReservoir := reservoir
        isStatic := false
        depth := 0 }
    memoryBase := 0
    code := code
    calldata := calldata
    returndata := emptySlice }

/-- The output of initcode that has succeeded is deployed. -/
def deployTop (address : Address) (reservoir : Nat) (status : FrameStatus) :
    Exec FrameStatus := do
  let (deploySucceeds, frontierEmptyDeposit) ← settleDeployment ctx reservoir status
  if deploySucceeds then do
    let s ← get
    let bytes ← liftM (validatedCodeSlice
      (if frontierEmptyDeposit then [] else s.outputBytes (frameOutput status)))
    syscall (kDeployCode ctx.kernel address bytes)
    pure status
  else pure (.exceptional .outOfGas)

/-- What the new account starts with. -/
def prepareCreated (pay : Payment → Exec Unit) (address : Address) : Exec Unit := do
  syscall (kMarkCreated ctx.kernel address)
  syscall (kClearStorage ctx.kernel address)
  syscall (kBumpNonce ctx.kernel address)
  if tx.value ≠ 0 then pay (.transfer v.sender address tx.value) else pure ()

/-- `run_create_transaction_frame`. -/
def runCreateTransactionFrame (pay : Payment → Exec Unit) (d : Dispatch) (reservoir : Nat) :
    Exec FrameStatus := do
  let address ← kCreateAddr ctx v.sender v.nonceBefore
  syscall (kAccountMarkWarm ctx.kernel address)
  let occupied ← syscall (kAccountOccupied ctx.kernel address)
  if occupied then endExceptionally ctx reservoir .addressCollision
  else do
    prepareCreated ctx tx v pay address
    let code ← (if ctx.amsterdam then pure d.code else internInitcode ctx tx.inputSrc :
      Exec Kernel.Code)
    let calldata := if ctx.amsterdam then d.calldata else emptyCalldata
    let status ← runInterpreter ctx (topFrame tx v address address reservoir code calldata)
    if status.succeeded then deployTop ctx address reservoir status else pure status

/-- A precompile as the recipient: it is priced before it runs. -/
def runDirectPrecompile (reservoir : Nat) (id : PrecompileId) : Exec FrameStatus := fun s =>
  let charge := precompileGas ctx.kernel.profile.fork id tx.inputSrc s.gas
  if charge.affordable then
    match ctx.runPrecompile id tx.inputSrc with
    | some output =>
      .ok (.halted (.haltReturn { off := 0, len := output.length }),
        { s with gas := gasSub s.gas charge.cost, output := output })
    | none => endExceptionally ctx reservoir .outOfGas s
  else endExceptionally ctx reservoir .outOfGas s

/-- `run_call_transaction_frame`. -/
def runCallTransactionFrame (pay : Payment → Exec Unit) (d : Dispatch) (reservoir : Nat) :
    Exec FrameStatus := do
  let _ ← syscall (kAload ctx.kernel tx.recipient)
  (if tx.value ≠ 0 then pay (.transfer v.sender tx.recipient tx.value) else pure () : Exec Unit)
  let id := precompileIdForAddress ctx.kernel.profile.fork tx.recipient
  if d.delegated = false ∧ id ≠ .notPrecompile then runDirectPrecompile ctx tx reservoir id
  else do
    let d ← (if ctx.amsterdam then pure d else legacyDispatch ctx tx : Exec Dispatch)
    runInterpreter ctx (topFrame tx v tx.recipient d.codeAddress reservoir d.code d.calldata)

def runTopFrame (pay : Payment → Exec Unit) (d : Dispatch) (reservoir : Nat) : Exec FrameStatus :=
  if tx.isCreate then runCreateTransactionFrame ctx tx v pay d reservoir
  else runCallTransactionFrame ctx tx v pay d reservoir

/-! ## The frame of a fork -/

/-- Keeps the effects of the frame or takes them back, and takes down what it
has left. -/
def closeTopFrame (reservoir : Nat) (authorizationStateGas : Int) (status : FrameStatus) :
    Exec FrameOutcome := do
  journal (if status.succeeded then stateJournalCommit else stateJournalRevert)
  let s ← get
  pure
    { success := status.succeeded
      execution := s.gas
      state := s.stateGas
      stateDelta := authorizationStateGas + frameStateGasUsed reservoir s.stateGas s.stateSpill
      refund := if status.succeeded then s.refund else 0 }

/-- The dispatch of a frame that looks its code up itself. -/
def noDispatch : Dispatch :=
  { delegated := false, codeAddress := tx.recipient, code := emptyCode, calldata := emptyCalldata }

def legacyFrameOutcome (pay : Payment → Exec Unit) : Exec FrameOutcome := do
  journal stateJournalCheckpoint
  enterTransactionFrame v.gas
  let status ← runTopFrame ctx tx v pay (noDispatch tx) v.gas.stateRemaining
  closeTopFrame v.gas.stateRemaining 0 status

/-- A preparation that could not be paid for leaves nothing, of either
reservoir. -/
def unpreparedOutcome : FrameOutcome :=
  { success := false, execution := 0, state := 0, stateDelta := 0, refund := 0 }

def amsterdamFrameOutcome (pay : Payment → Exec Unit) (upfront : TxUpfrontResult)
    (authorizations : PreparedAuthorizationList) : Exec FrameOutcome := do
  enterTransactionFrame v.gas
  journal stateJournalCheckpoint
  match ← prepareAmsterdamFrame ctx tx v upfront authorizations with
  | none => do
    journal stateJournalRevert
    pure unpreparedOutcome
  | some (authorizationStateGas, reservoir, d) => do
    journal stateJournalCheckpoint
    let status ← runTopFrame ctx tx v pay d reservoir
    let outcome ← closeTopFrame reservoir authorizationStateGas status
    -- the authorizations stay, whatever has become of the frame
    journal stateJournalCommit
    pure outcome

def frameOutcomeOf (pay : Payment → Exec Unit) (upfront : TxUpfrontResult)
    (authorizations : PreparedAuthorizationList) : Exec FrameOutcome :=
  if ctx.amsterdam then amsterdamFrameOutcome ctx tx v pay upfront authorizations
  else legacyFrameOutcome ctx tx v pay

/-- The outcome, as far as its figures fit. -/
def FrameOutcome.result (initial : TransactionInitialGas) (o : FrameOutcome) :
    Result (TxFrameResult initial) := do
  let gas ← txFrameGasSnapshot initial o.execution o.state o.stateDelta
  .ok { success := o.success, gas := gas, refund := o.refund }

/-- `run_transaction_frame`. -/
def runTransactionFrame (pay : Payment → Exec Unit) (upfront : TxUpfrontResult)
    (authorizations : PreparedAuthorizationList) : Exec (TxFrameResult v.gas) := do
  let o ← frameOutcomeOf ctx tx v pay upfront authorizations
  liftM (o.result v.gas)

end

end EvmSail.Vm
