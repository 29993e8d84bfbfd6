/-
# `EvmSail.Evm.MemoryGas` — what execution does to gas and frame memory

The part of the interpreter that decides how much memory is live: the gas
and state-gas pools, the price of memory, the forwarding cap, and the
suspension and resumption of frames.  An opcode handler is, as far as
these are concerned, a sequence of `Effect`s: charges, charged memory
operands, state-gas movements, at last perhaps an entry into a child
frame or the end of the frame.  What the handlers compute besides
(operands, warmth, balances) is data of the effects.

All frames share one host arena of `capacity` bytes, in which a child's
memory starts where its parent's ends.
-/
import EvmSail.Prelude

namespace EvmSail

open Fallible

/-! ## Gas pools -/

/-- The three carried pools of a frame. -/
structure GasPools where
  gas : Nat
  stateGas : Nat
  stateSpill : Nat

def gasSub (left right : Nat) : Nat := if right ≤ left then left - right else 0

def conservedGasAdd (available credit : Nat) : Result Nat :=
  if credit ≤ 2 ^ 64 - 1 - available then .ok (available + credit)
  else fatalError .executionInvalid

/-- Returns unused child gas to the parent. -/
def refundGas (g amount : Nat) : Result Nat := conservedGasAdd g amount

/-- The regular-gas limit of a transaction. -/
def transactionExecutionGasLimit : Nat := 16777216

def stateGasSpillAdd (left right : Nat) : Result Nat :=
  if right ≤ transactionExecutionGasLimit - left then .ok (left + right)
  else fatalError .executionInvalid

/-- Charges state gas from the reservoir first, then from execution gas;
true when the two cannot cover it. -/
def chargeStateGas (p : GasPools) (amount : Nat) : Result (Bool × GasPools) :=
  if amount = 0 then
    .ok (false, p)
  else if amount ≤ p.stateGas then
    .ok (false, { p with stateGas := p.stateGas - amount })
  else
    let remainder := amount - p.stateGas
    if remainder ≤ p.gas then do
      let spilled ← stateGasSpillAdd p.stateSpill remainder
      .ok (false, { gas := p.gas - remainder, stateGas := 0, stateSpill := spilled })
    else
      .ok (true, p)

/-- Credits a state-gas charge in reverse order: spill first, then the
reservoir. -/
def creditStateGasRefund (p : GasPools) (amount : Nat) : Result GasPools :=
  if amount ≤ p.stateSpill then
    if amount ≠ 0 then do
      let gas ← conservedGasAdd p.gas amount
      .ok { p with gas := gas, stateSpill := p.stateSpill - amount }
    else
      .ok p
  else do
    let credited ←
      (if p.stateSpill ≠ 0 then conservedGasAdd p.gas p.stateSpill else .ok p.gas : Result Nat)
    let toState := amount - p.stateSpill
    let stateGas ← conservedGasAdd p.stateGas toState
    .ok { gas := credited, stateGas := stateGas, stateSpill := 0 }

/-- A completed child's reservoir and spill, added to its parent's. -/
def returnChildStateGas (parentRemaining parentSpilled childRemaining childSpilled : Nat) :
    Result (Nat × Nat) :=
  if childRemaining ≤ 2 ^ 64 - 1 - parentRemaining then do
    let spilled ← stateGasSpillAdd parentSpilled childSpilled
    .ok (parentRemaining + childRemaining, spilled)
  else
    fatalError .executionInvalid

/-! ## The price of memory -/

/-- The number of words covering a byte length. -/
def memoryWordCount (byteLen : Nat) : Nat :=
  if byteLen % 32 = 0 then byteLen / 32 else byteLen / 32 + 1

/-- `C_mem`: the cumulative cost of `words` words. -/
def memCost (words : Nat) : Nat := 3 * words + words * words / 512

def memoryRegionBound : Nat := 4294967295

/-- The exclusive endpoint of one memory operand; a zero-sized operand
accesses nothing. -/
def memoryRequestedHeight (start size : Nat) : Nat :=
  if size = 0 then 0
  else if start ≤ memoryRegionBound then
    if size ≤ memoryRegionBound - start then start + size else memoryRegionBound + 1
  else memoryRegionBound + 1

/-- A charge, and whether it can be paid. -/
structure GasCharge where
  affordable : Bool
  cost : Nat

/-- The cost of extending memory to an endpoint. -/
def memoryExpansionGasCost (mem requestedHeight available : Nat) : GasCharge :=
  if requestedHeight ≤ memoryRegionBound then
    let newWords := memoryWordCount requestedHeight
    let oldWords := memoryWordCount mem
    if newWords ≤ oldWords then { affordable := true, cost := 0 }
    else
      let oldCost := memCost oldWords
      let newCost := memCost newWords
      if oldCost ≤ newCost then
        let exactCost := newCost - oldCost
        if exactCost ≤ available then { affordable := true, cost := exactCost }
        else { affordable := false, cost := 0 }
      else { affordable := true, cost := 0 }
  else { affordable := false, cost := 0 }

/-- The EIP-150 forwarding cap on a gas request. -/
def callGasCapWord (available requested : Nat) : Nat :=
  let retained := available / 64
  let allBut64th := gasSub available retained
  if requested < allBut64th then requested else allBut64th

/-! ## Memory operands -/

/-- A start and a size, as an opcode reads them from the stack. -/
structure Operand where
  start : Nat
  size : Nat

/-- The operand of an opcode that has only one. -/
def noOperand : Operand := { start := 0, size := 0 }

/-- A charged operand: the range it covers and where the range ends. -/
structure MemoryAccess where
  off : Nat
  len : Nat
  requestedHeight : Nat

def memoryAccess (o : Operand) : Result MemoryAccess :=
  if o.size = 0 then .ok { off := 0, len := 0, requestedHeight := 0 }
  else if o.start ≤ memoryRegionBound then
    if o.size ≤ memoryRegionBound - o.start then
      .ok { off := o.start, len := o.size, requestedHeight := o.start + o.size }
    else fatalError .executionInvalid
  else fatalError .executionInvalid

/-- The endpoint an opcode with two operands pays for. -/
def operandsHeight (a b : Operand) : Nat :=
  let aHeight := memoryRequestedHeight a.start a.size
  let bHeight := memoryRequestedHeight b.start b.size
  if aHeight < bHeight then bHeight else aHeight

/-! ## The arena -/

/-- `GUEST_EVM_MEMORY_BYTES`. -/
def guestEvmMemoryBytes : Nat := 16777216

/-- The host's `evm_memory_expand`, over an arena of `capacity` bytes. -/
def evmMemoryExpand (capacity pointer established required : Nat) : Result Nat :=
  if required < established ∨ capacity < pointer ∨ capacity - pointer < required then
    .error .guestAbort
  else
    .ok pointer

/-- The host's `absolute_region`: where every read or write of the arena
goes through. -/
def absoluteRegion (capacity off len : Nat) : Result Unit :=
  if capacity < off ∨ capacity - off < len then .error .guestAbort else .ok ()

/-- Materializes an already-charged high-water mark. -/
def expandMemory (capacity base height requestedHeight : Nat) : Result Nat :=
  if requestedHeight ≤ memoryRegionBound - base then
    if height < requestedHeight then do
      let _ ← evmMemoryExpand capacity base height requestedHeight
      .ok requestedHeight
    else
      .ok height
  else
    fatalError .executionInvalid

def memoryAbsolute (base relative : Nat) : Result Nat :=
  if relative ≤ memoryRegionBound - base then .ok (base + relative)
  else fatalError .executionInvalid

def memoryParentBase (childBase parentHeight : Nat) : Result Nat :=
  if parentHeight ≤ childBase then .ok (childBase - parentHeight)
  else fatalError .executionInvalid

/-- A range of the active frame, read or written in the arena. -/
def touchRange (capacity base off len : Nat) : Result Unit :=
  if len = 0 then .ok ()
  else do
    let absoluteOffset ← memoryAbsolute base off
    absoluteRegion capacity absoluteOffset len

/-- `returndata_copy_prefix`: at most `want` bytes of an output, written
to the arena. -/
def returndataCopyPrefix (capacity outputLen dst want : Nat) : Result Unit :=
  let copyLength := if want < outputLen then want else outputLen
  if copyLength = 0 then .ok () else absoluteRegion capacity dst copyLength

/-- Grows the frame to what two charged operands need, and hands back
their ranges. -/
def materialize (capacity base height : Nat) (a b : Operand) :
    Result (Nat × MemoryAccess × MemoryAccess) := do
  let first ← memoryAccess a
  let second ← memoryAccess b
  let required :=
    if first.requestedHeight < second.requestedHeight then second.requestedHeight
    else first.requestedHeight
  let height ← expandMemory capacity base height required
  .ok (height, first, second)

/-! ## Frames -/

inductive FrameStatus where
  | running
  | halted
  | haltRevert
  | exceptional
  deriving DecidableEq

/-- A normal halt succeeds, a revert and an exceptional halt do not. -/
def frameSucceeded : FrameStatus → Bool
  | .haltRevert => false
  | .halted => true
  | .running => true
  | .exceptional => false

/-- The active frame. -/
structure Frame where
  pools : GasPools
  status : FrameStatus
  memoryBase : Nat
  memoryHeight : Nat
  stateGasReservoir : Nat
  depth : Nat

/-- What a suspended parent is waiting for. -/
inductive Awaits where
  | call (returnOffset returnLength : Nat)
  | create
  deriving DecidableEq

/-- A suspended parent. -/
structure FrameCheckpoint where
  pools : GasPools
  memoryHeight : Nat
  stateGasReservoir : Nat
  depth : Nat
  awaits : Awaits
  newAccountCharged : Bool

/-- The active frame over its suspended ancestors, the innermost first. -/
structure Machine where
  frame : Frame
  suspended : List FrameCheckpoint

def callDepthLimit : Nat := 1024

/-! ## Charges -/

section

variable (amsterdam : Bool) (capacity : Nat)

def accountCost (warm : Bool) : Nat :=
  if warm then 100 else if amsterdam then 3000 else 2600

def callValueCost : Nat := if amsterdam then 10300 else 9000

def createAccessCost : Nat := if amsterdam then 11000 else 32000

def newAccountCost : Nat := 25000

def callStipend : Nat := 2300

def stateNewAccount : Nat := 183600

/-- An exceptional halt: no execution gas is left, and Amsterdam restores
the state-gas reservoir. -/
def exceptionalState (f : Frame) (p : GasPools) : Frame :=
  { f with
    status := .exceptional
    pools :=
      { gas := 0
        stateGas := if amsterdam then f.stateGasReservoir else p.stateGas
        stateSpill := if amsterdam then 0 else p.stateSpill } }

/-- Pays a flat cost; nothing when it cannot be paid. -/
def spend (p : GasPools) (cost : Nat) : Option GasPools :=
  if p.gas < cost then none else some { p with gas := gasSub p.gas cost }

/-- Pays for reaching `requestedHeight`. -/
def spendExpansion (p : GasPools) (height requestedHeight : Nat) : Option GasPools :=
  let expansion := memoryExpansionGasCost height requestedHeight p.gas
  if expansion.affordable then some { p with gas := gasSub p.gas expansion.cost } else none

/-- Pays a state-gas charge that some condition calls for. -/
def spendState (p : GasPools) (amount : Nat) : Result (Option GasPools) := do
  let (halt, p) ← chargeStateGas p amount
  .ok (if halt then none else some p)

/-- A charge, in the active frame. -/
def chargeGas (f : Frame) (cost : Nat) : Frame :=
  match spend f.pools cost with
  | none => exceptionalState amsterdam f f.pools
  | some p => { f with pools := p }

/-- The memory operands of an opcode: charged, materialized, then read or
written. -/
def accessMemory (f : Frame) (a b : Operand) : Result Frame :=
  match spendExpansion f.pools f.memoryHeight (operandsHeight a b) with
  | none => .ok (exceptionalState amsterdam f f.pools)
  | some p => do
    let (height, first, second) ← materialize capacity f.memoryBase f.memoryHeight a b
    let _ ← touchRange capacity f.memoryBase first.off first.len
    let _ ← touchRange capacity f.memoryBase second.off second.len
    .ok { f with pools := p, memoryHeight := height }

/-- A state-gas charge of `SSTORE` or `SELFDESTRUCT`. -/
def chargeState (f : Frame) (amount : Nat) : Result Frame := do
  match ← spendState f.pools amount with
  | none => .ok (exceptionalState amsterdam f f.pools)
  | some p => .ok { f with pools := p }

/-- The state-gas credit of `SSTORE`. -/
def creditState (f : Frame) (amount : Nat) : Result Frame := do
  let p ← creditStateGasRefund f.pools amount
  .ok { f with pools := p }

/-! ## Entering a frame -/

/-- Suspends `parent` and starts a child with `childGas` where the
parent's memory ends. -/
def enterFrame (parent : Frame) (suspended : List FrameCheckpoint) (awaits : Awaits)
    (newAccountCharged : Bool) (childGas : Nat) : Result Machine := do
  let childMemoryBase ← memoryAbsolute parent.memoryBase parent.memoryHeight
  .ok
    { frame :=
        { pools := { gas := childGas, stateGas := parent.pools.stateGas, stateSpill := 0 }
          status := .running
          memoryBase := childMemoryBase
          memoryHeight := 0
          stateGasReservoir := parent.pools.stateGas
          depth := parent.depth + 1 }
      suspended :=
        { pools := { parent.pools with stateGas := 0 }
          memoryHeight := parent.memoryHeight
          stateGasReservoir := parent.stateGasReservoir
          depth := parent.depth
          awaits := awaits
          newAccountCharged := newAccountCharged } :: suspended }

/-- Charges the state gas of an account that is about to be created. -/
def chargeNewAccount (p : GasPools) (newAccountCharged : Bool) : Result (Option GasPools) :=
  if newAccountCharged then spendState p stateNewAccount else .ok (some p)

/-- Gives back the state gas of an account that was not created. -/
def creditNewAccount (p : GasPools) (newAccountCharged : Bool) : Result GasPools :=
  if newAccountCharged then creditStateGasRefund p stateNewAccount else .ok p

/-- What a call finds at its target. -/
inductive Callee where
  | precompile (cost : Nat) (succeeds : Bool) (outputLen : Nat)
  | code

/-- The operands of a message call, and what the state says of its
target. -/
structure CallOperands where
  gasRequest : Nat
  valueNonzero : Bool
  transfersValue : Bool
  args : Operand
  ret : Operand
  warm : Bool
  /-- The warmth of the account the target delegates to. -/
  delegate : Option Bool
  targetEmpty : Bool
  insufficientBalance : Bool
  callee : Callee

/-- Amsterdam charges a transfer to an empty account as state growth. -/
def callChargesNewAccount (c : CallOperands) : Bool :=
  amsterdam && c.valueNonzero && c.transfersValue && c.targetEmpty

/-- The charges of a call, up to the gas its child can draw on. -/
def callCharges (f : Frame) (c : CallOperands) : Result (Option GasPools) :=
  match spendExpansion f.pools f.memoryHeight (operandsHeight c.args c.ret) with
  | none => .ok none
  | some p =>
    let targetCost := accountCost amsterdam c.warm
    let transferCost := if c.valueNonzero then callValueCost amsterdam else 0
    match spend p (targetCost + transferCost) with
    | none => .ok none
    | some p =>
      let delegationCost :=
        match c.delegate with
        | some warm => accountCost amsterdam warm
        | none => 0
      let createCost :=
        if ¬ amsterdam ∧ c.valueNonzero ∧ c.transfersValue ∧ c.targetEmpty
        then newAccountCost else 0
      match spend p (delegationCost + createCost) with
      | none => .ok none
      | some p =>
        chargeNewAccount p (callChargesNewAccount amsterdam c)

/-- `CALL`, `CALLCODE`, `DELEGATECALL` and `STATICCALL`. -/
def runCall (m : Machine) (c : CallOperands) : Result Machine := do
  let f := m.frame
  match ← callCharges amsterdam f c with
  | none => .ok { m with frame := exceptionalState amsterdam f f.pools }
  | some p =>
    let baseChild := callGasCapWord p.gas c.gasRequest
    match spend p baseChild with
    | none => .ok { m with frame := exceptionalState amsterdam f p }
    | some p =>
      let (height, args, ret) ← materialize capacity f.memoryBase f.memoryHeight c.args c.ret
      let childGas ← conservedGasAdd baseChild (if c.valueNonzero then callStipend else 0)
      let newAccountCharged := callChargesNewAccount amsterdam c
      let parent := { f with pools := p, memoryHeight := height }
      if c.insufficientBalance ∨ f.depth = callDepthLimit then do
        let gas ← refundGas p.gas childGas
        let p ← creditNewAccount { p with gas := gas } newAccountCharged
        .ok { m with frame := { parent with pools := p } }
      else
        match c.callee with
        | .precompile cost succeeds outputLen => do
          let _ ← touchRange capacity f.memoryBase args.off args.len
          if cost ≤ childGas ∧ succeeds then do
            let destination ← memoryAbsolute f.memoryBase ret.off
            let _ ← returndataCopyPrefix capacity outputLen destination ret.len
            let gas ← refundGas p.gas (gasSub childGas cost)
            .ok { m with frame := { parent with pools := { p with gas := gas } } }
          else do
            let p ← creditNewAccount p newAccountCharged
            .ok { m with frame := { parent with pools := p } }
        | .code => do
          let _ ← touchRange capacity f.memoryBase args.off args.len
          enterFrame parent m.suspended (.call ret.off ret.len) newAccountCharged childGas

/-- The operands of a creation, and what the state says of the creator
and of the new address. -/
structure CreateOperands where
  initcode : Operand
  /-- The word costs of the initcode: metering, and hashing for `CREATE2`. -/
  initcodeCost : Nat
  hashingCost : Nat
  initcodeSizeAllowed : Bool
  /-- The creator cannot pay the endowment or its nonce is at its limit. -/
  refused : Bool
  targetEmpty : Bool
  occupied : Bool

/-- The charges of a creation. -/
def createCharges (p : GasPools) (c : CreateOperands) : Option GasPools := do
  let p ← spend p (createAccessCost amsterdam)
  let p ← spend p c.initcodeCost
  let p ← spend p c.hashingCost
  if c.initcodeSizeAllowed then some p else none

/-- What `CREATE` keeps and what it lends to its child. -/
def lendCreateGas (p : GasPools) : GasPools × Nat :=
  let retained := p.gas / 64
  ({ p with gas := retained }, gasSub p.gas retained)

/-- `CREATE` and `CREATE2`. -/
def runCreate (m : Machine) (c : CreateOperands) : Result Machine := do
  let f := m.frame
  match spendExpansion f.pools f.memoryHeight (operandsHeight c.initcode noOperand) with
  | none => .ok { m with frame := exceptionalState amsterdam f f.pools }
  | some p =>
    let (height, initcode, _) ←
      materialize capacity f.memoryBase f.memoryHeight c.initcode noOperand
    let f := { f with memoryHeight := height }
    match createCharges amsterdam p c with
    | none => .ok { m with frame := exceptionalState amsterdam f p }
    | some p =>
      let _ ← touchRange capacity f.memoryBase initcode.off initcode.len
      -- Before Amsterdam the child's gas is set aside before the guards.
      if c.refused ∨ f.depth = callDepthLimit then
        if amsterdam then
          .ok { m with frame := { f with pools := p } }
        else do
          let (kept, childGas) := lendCreateGas p
          let gas ← refundGas kept.gas childGas
          .ok { m with frame := { f with pools := { kept with gas := gas } } }
      else
        let newAccountCharged := amsterdam && c.targetEmpty
        match ← chargeNewAccount p newAccountCharged with
        | none => .ok { m with frame := exceptionalState amsterdam f p }
        | some p =>
          let (kept, childGas) := lendCreateGas p
          if c.occupied then do
            let p ← creditNewAccount kept newAccountCharged
            .ok { m with frame := { f with pools := p } }
          else
            enterFrame { f with pools := kept } m.suspended .create newAccountCharged childGas

/-! ## Leaving a frame -/

/-- `REVERT`: the output is charged and read, and Amsterdam gives back the
frame's state gas. -/
def executeRevert (f : Frame) (output : Operand) : Result Frame := do
  let f ← accessMemory amsterdam capacity f output noOperand
  if f.status = .exceptional then
    .ok f
  else if amsterdam then do
    let gas ← conservedGasAdd f.pools.gas f.pools.stateSpill
    .ok
      { f with
        pools := { gas := gas, stateGas := f.stateGasReservoir, stateSpill := 0 }
        status := .haltRevert }
  else
    .ok { f with status := .haltRevert }

/-- `RETURN` and, with an empty output, `STOP`. -/
def executeReturn (f : Frame) (output : Operand) : Result Frame := do
  let f ← accessMemory amsterdam capacity f output noOperand
  if f.status = .exceptional then .ok f else .ok { f with status := .halted }

/-- A finished initcode's output, as far as the deposit charges depend on
it. -/
structure Deployment where
  outputLen : Nat
  codeAllowed : Bool
  executionDeposit : Nat
  stateDeposit : Nat
  homestead : Bool

/-- Charges a finished child for the code it deploys. -/
def settleCreate (child : Frame) (d : Deployment) : Result Frame :=
  if frameSucceeded child.status then
    if ¬ d.codeAllowed then
      .ok (exceptionalState amsterdam child child.pools)
    else
      match spend child.pools d.executionDeposit with
      | some p => do
        match ← spendState p d.stateDeposit with
        | some p => .ok { child with pools := p }
        | none => .ok (exceptionalState amsterdam child p)
      | none =>
        if d.homestead then .ok (exceptionalState amsterdam child child.pools)
        else .ok { child with pools := { child.pools with gas := 0 } }
  else
    .ok child

/-- Only a creation has something left to pay when its child is done. -/
def settleChild (child : Frame) (awaits : Awaits) (d : Deployment) : Result Frame :=
  match awaits with
  | .call _ _ => .ok child
  | .create => settleCreate amsterdam child d

/-- Only a call has its output written to the parent's memory. -/
def writeOutput (parentMemoryBase : Nat) (awaits : Awaits) (outputLen : Nat) : Result Unit :=
  match awaits with
  | .call returnOffset returnLength => do
    let destination ← memoryAbsolute parentMemoryBase returnOffset
    returndataCopyPrefix capacity outputLen destination returnLength
  | .create => .ok ()

/-- Restores the parent of a finished child; a finished outermost frame
stays where it is. -/
def resumeFrame (m : Machine) (d : Deployment) : Result Machine :=
  match m.suspended with
  | [] => .ok m
  | checkpoint :: suspended => do
    let child ← settleChild amsterdam m.frame checkpoint.awaits d
    let parentMemoryBase ← memoryParentBase child.memoryBase checkpoint.memoryHeight
    let gas ← refundGas checkpoint.pools.gas child.pools.gas
    let (stateGas, stateSpill) ←
      returnChildStateGas checkpoint.pools.stateGas checkpoint.pools.stateSpill
        child.pools.stateGas child.pools.stateSpill
    let _ ← writeOutput capacity parentMemoryBase checkpoint.awaits d.outputLen
    let pools ←
      creditNewAccount { gas := gas, stateGas := stateGas, stateSpill := stateSpill }
        (checkpoint.newAccountCharged && !frameSucceeded child.status)
    .ok
      { frame :=
          { pools := pools
            status := .running
            memoryBase := parentMemoryBase
            memoryHeight := checkpoint.memoryHeight
            stateGasReservoir := checkpoint.stateGasReservoir
            depth := checkpoint.depth }
        suspended := suspended }

/-! ## Runs -/

/-- What the handlers do to gas and memory. -/
inductive Effect where
  | charge (cost : Nat)
  | memory (a b : Operand)
  | stateCharge (amount : Nat)
  | stateCredit (amount : Nat)
  | call (c : CallOperands)
  | create (c : CreateOperands)
  | fail
  | stop (output : Operand)
  | revert (output : Operand)
  | resume (d : Deployment)

/-- One effect.  A running frame executes, a finished one is resumed over;
what remains of a handler that failed halfway does nothing. -/
def step (m : Machine) (e : Effect) : Result Machine :=
  if m.frame.status = .running then
    match e with
    | .charge cost => .ok { m with frame := chargeGas amsterdam m.frame cost }
    | .memory a b => do
      let f ← accessMemory amsterdam capacity m.frame a b
      .ok { m with frame := f }
    | .stateCharge amount => do
      let f ← chargeState amsterdam m.frame amount
      .ok { m with frame := f }
    | .stateCredit amount => do
      let f ← creditState m.frame amount
      .ok { m with frame := f }
    | .call c => runCall amsterdam capacity m c
    | .create c => runCreate amsterdam capacity m c
    | .fail => .ok { m with frame := exceptionalState amsterdam m.frame m.frame.pools }
    | .stop output => do
      let f ← executeReturn amsterdam capacity m.frame output
      .ok { m with frame := f }
    | .revert output => do
      let f ← executeRevert amsterdam capacity m.frame output
      .ok { m with frame := f }
    | .resume _ => .ok m
  else
    match e with
    | .resume d => resumeFrame amsterdam capacity m d
    | _ => .ok m

def run (m : Machine) : List Effect → Result Machine
  | [] => .ok m
  | e :: es => do
    let m ← step amsterdam capacity m e
    run m es

/-- A transaction's outermost frame. -/
def startMachine (p : GasPools) : Machine :=
  { frame :=
      { pools := p
        status := .running
        memoryBase := 0
        memoryHeight := 0
        stateGasReservoir := p.stateGas
        depth := 0 }
    suspended := [] }

end

end EvmSail
