/-
# `EvmSail.Vm.Machine` — what an opcode handler works on

A handler takes the values its frame carries and hands them back; behind it
are the operand stacks, the memory arena, the output buffer and the
kernel's host.  All of it is one `MachineState` here, which handlers thread.
The rows of the operand stacks and the arena are functions of the position,
a cursor of a stack is its height.

Calldata and return data are ranges of host regions, not bytes: calldata of
a nested frame stays where its caller has it in the arena, and all outputs
share one buffer.

A handler has failed when it returns so: failing is a result, not a halt
of the interpreter.  The steps by which handlers fail take what
follows them as an argument, as it is not reached.
-/
import EvmSail.Evm.Pools
import EvmSail.Evm.Schedule
import EvmSail.Kernel.Storage
import EvmSail.Primitives.Precompile
import EvmSail.Rlp.Codecs
import EvmSail.Ssz.WitnessHeaders

namespace EvmSail.Vm

open Fallible Kernel

/-! ## Outcomes -/

/-- Why a frame halts exceptionally. -/
inductive ExceptionKind where
  | stackUnderflow
  | stackOverflow
  | outOfGas
  | invalidOpcode
  | invalidJump
  | staticViolation
  | callDepthExceeded
  | insufficientBalance
  | writeProtection
  | initCodeTooLarge
  | nonceOverflow
  | addressCollision
  deriving DecidableEq

/-- The result of an opcode that does not end its frame. -/
inductive OpcodeOutcome where
  | continues
  | failed (kind : ExceptionKind)
  deriving DecidableEq

/-- A range of a host region. -/
structure Slice where
  off : Nat
  len : Nat
  deriving DecidableEq

/-- A range of the output buffer. -/
abbrev OutputSlice := Slice

def emptySlice : Slice := { off := 0, len := 0 }

/-- Ordinary frame stops. -/
inductive HaltKind where
  | haltStop
  | haltReturn (output : OutputSlice)
  | haltRevert (output : OutputSlice)
  | haltSelfDestruct
  deriving DecidableEq

inductive FrameStatus where
  | running
  | halted (kind : HaltKind)
  | exceptional (kind : ExceptionKind)
  deriving DecidableEq

def opcodeFrameStatus : OpcodeOutcome → FrameStatus
  | .continues => .running
  | .failed kind => .exceptional kind

/-- The types of results, by how they say that an opcode has failed. -/
class Outcome (S : Type) where
  failed : ExceptionKind → S

instance : Outcome OpcodeOutcome := ⟨.failed⟩

instance : Outcome FrameStatus := ⟨.exceptional⟩

/-! ## The environment -/

/-- The environment of a transaction. -/
structure TxEnv where
  origin : Address
  gasPrice : Word
  blobHashes : BlobHashes

/-- What handlers read that no frame changes.  The host takes outputs of
frames as `storesOutput` says; a precompile returns its output, or fails. -/
structure Context where
  kernel : Kernel.Env
  header : BlockHeader
  chainId : Fin (2 ^ 64)
  tx : TxEnv
  blobFee : Word
  nHeaders : Nat
  ancestors : AncestorTable
  memoryCapacity : Nat
  storesOutput : List Byte → Bool
  runPrecompile : PrecompileId → List Byte → Option (List Byte)

/-- The fork is Amsterdam or a later one. -/
def Context.amsterdam (ctx : Context) : Bool := ctx.kernel.atLeast .amsterdam

inductive EnvField where
  | fNumber
  | fTimestamp
  | fCoinbase
  | fBaseFee
  | fChainId
  | fGasLimit
  | fPrevRandao
  | fOrigin
  | fGasPrice
  | fSlotNumber

/-- `u256` of a number below 2^64. -/
def wordOfUint64 (n : Fin (2 ^ 64)) : Word := BitVec.ofNat 256 n.val

section

variable (ctx : Context)

def kEnv : EnvField → Word
  | .fNumber => wordOfUint64 ctx.header.number
  | .fTimestamp => wordOfUint64 ctx.header.timestamp
  | .fCoinbase => addressToWord ctx.header.feeRecipient
  | .fBaseFee => ctx.header.baseFee
  | .fChainId => wordOfUint64 ctx.chainId
  | .fGasLimit => wordOfUint64 ctx.header.gasLimit
  | .fPrevRandao => ctx.header.prevRandao
  | .fOrigin => addressToWord ctx.tx.origin
  | .fGasPrice => ctx.tx.gasPrice
  | .fSlotNumber => wordOfUint64 ctx.header.slotNumber

/-- `BLOBHASH`: each hash is encoded as a string of 32 bytes. -/
def kBlobhash (index : Word) : Word :=
  if index.toNat < ctx.tx.blobHashes.count then
    sliceLoadN ctx.tx.blobHashes.bytes (33 * index.toNat + 1) 32
  else 0

end

/-! ## Frames -/

/-- Calldata: the input of the transaction, or a range of the memory of the
suspended caller. -/
inductive CalldataSlice where
  | inputCalldata (bytes : List Byte)
  | memoryCalldata (range : Slice)

def emptyCalldata : CalldataSlice := .inputCalldata []

/-- The message of a frame. -/
structure Message where
  caller : Address
  codeAddress : Address
  address : Address
  value : Word
  stateGasReservoir : Nat
  isStatic : Bool
  depth : Nat

/-- What an opcode reads of its frame. -/
structure Frame where
  message : Message
  memoryBase : Nat
  code : Kernel.Code
  calldata : CalldataSlice
  returndata : OutputSlice

/-- What an opcode takes over and hands back, over what stands behind the
handlers.  `operands` has a row for every depth, of which `row` is the one
of the active frame. -/
structure MachineState extends GasPools where
  pc : Nat
  refund : Int
  sp : Nat
  memoryHeight : Nat
  kernel : Host
  row : Nat
  operands : Nat → Nat → Word
  memory : Nat → Byte
  output : List Byte

abbrev Exec := StateT MachineState Result

/-- A kernel program, run on the host. -/
def syscall {R : Host → Host → Prop} {α : Type} (x : Kept R Halt α) : Exec α := fun s => do
  let r ← x.run s.kernel
  .ok (r.1, { s with kernel := r.2 })

/-! ## The operand stack -/

def stackLimit : Nat := 1024

/-- The row with a slot overwritten. -/
def MachineState.setOperand (s : MachineState) (position : Nat) (value : Word) : MachineState :=
  { s with
    operands :=
      Function.update s.operands s.row (Function.update (s.operands s.row) position value) }

/-- The word `index` slots below the top. -/
def stackSlotRead (index : Nat) : Exec Word := fun s =>
  .ok (s.operands s.row (s.sp - 1 - index), s)

def stackSlotWrite (index : Nat) (value : Word) : Exec Unit := fun s =>
  .ok ((), s.setOperand (s.sp - 1 - index) value)

def readStackWord : Exec Word := stackSlotRead 0

def writeStackWord (value : Word) : Exec Unit := stackSlotWrite 0 value

def stackTopAdvance (sp count : Nat) : Nat := sp + count

def stackTopRetreat (sp count : Nat) : Nat := sp - count

/-- Reads the word on top and drops it. -/
def popWord : Exec Word := do
  let word ← readStackWord
  modify fun s => { s with sp := stackTopRetreat s.sp 1 }
  pure word

/-- Makes room for a word and writes it. -/
def pushWord (value : Word) : Exec Unit := do
  modify fun s => { s with sp := stackTopAdvance s.sp 1 }
  writeStackWord value

inductive StackValidation where
  | stackValid
  | stackUnderflowFailure
  | stackOverflowFailure

def validateStack (height inputs outputs : Nat) : StackValidation :=
  if height < inputs then .stackUnderflowFailure
  else if stackLimit < height - inputs + outputs then .stackOverflowFailure
  else .stackValid

/-! ## Failing -/

section

variable {S : Type} [Outcome S]

def fail (kind : ExceptionKind) : Exec S := pure (Outcome.failed kind)

/-- Fails with no gas left. -/
def failEmpty (kind : ExceptionKind) : Exec S := fun s =>
  .ok (Outcome.failed kind, { s with gas := 0 })

def guardStack (inputs outputs : Nat) (s : MachineState) : OpcodeOutcome :=
  match validateStack s.sp inputs outputs with
  | .stackValid => .continues
  | .stackUnderflowFailure => .failed .stackUnderflow
  | .stackOverflowFailure => .failed .stackOverflow

def guardStatic (isStatic : Bool) (_ : MachineState) : OpcodeOutcome :=
  if isStatic then .failed .writeProtection else .continues

/-- What follows a guard. -/
def behind (guarded : MachineState → OpcodeOutcome) (k : Exec S) : Exec S := fun s =>
  match guarded s with
  | .failed kind => failEmpty kind s
  | .continues => k s

/-- What follows a flat charge. -/
def charge (cost : Nat) (k : Exec S) : Exec S := fun s =>
  if s.gas < cost then failEmpty .outOfGas s else k { s with gas := gasSub s.gas cost }

/-- What follows a charge that the gas there is may not cover. -/
def chargeAffordable (cost : Nat → GasCharge) (k : Exec S) : Exec S := fun s =>
  if (cost s.gas).affordable then k { s with gas := gasSub s.gas (cost s.gas).cost }
  else failEmpty .outOfGas s

/-- What follows the price of memory up to `requestedHeight`. -/
def chargeExpansion (requestedHeight : Nat) (k : Exec S) : Exec S := fun s =>
  chargeAffordable (memoryExpansionGasCost s.memoryHeight requestedHeight) k s

/-- What follows a charge of state gas.  The gas stays when it cannot be
paid. -/
def chargeState (amount : Nat) (k : Exec S) : Exec S := fun s => do
  let r ← chargeStateGas s.toGasPools amount
  if r.1 then fail .outOfGas { s with toGasPools := r.2 } else k { s with toGasPools := r.2 }

end

/-! ## Frame memory -/

/-- The bytes at an absolute position. -/
def MachineState.bytesAt (s : MachineState) (off len : Nat) : List Byte :=
  (List.range len).map fun i => s.memory (off + i)

/-- The arena with `bytes` written at `off`. -/
def MachineState.withBytes (s : MachineState) (off : Nat) (bytes : List Byte) : MachineState :=
  { s with memory := fun i =>
      if off ≤ i ∧ i < off + bytes.length then sliceByte bytes (i - off) else s.memory i }

/-- The bytes of calldata, wherever they are. -/
def CalldataSlice.bytes (s : MachineState) : CalldataSlice → List Byte
  | .inputCalldata bytes => bytes
  | .memoryCalldata range => s.bytesAt range.off range.len

/-- `calldata_slice_length`. -/
def CalldataSlice.length : CalldataSlice → Nat
  | .inputCalldata bytes => bytes.length
  | .memoryCalldata range => range.len

/-- The bytes of an output. -/
def MachineState.outputBytes (s : MachineState) (o : OutputSlice) : List Byte :=
  (List.range o.len).map fun i => sliceByte s.output (o.off + i)

section

variable (ctx : Context) (f : Frame)

/-- `absolute_write_region`, for a range that is not empty. -/
def memoryRegion (off len : Nat) : Exec Unit :=
  if len = 0 then pure () else liftM (absoluteRegion ctx.memoryCapacity off len)

/-- Raises the high-water mark; the bytes gained read as zero. -/
def growMemory (requestedHeight : Nat) : Exec Unit := fun s => do
  let grown ← expandMemory ctx.memoryCapacity f.memoryBase s.memoryHeight requestedHeight
  .ok ((),
    { s.withBytes (f.memoryBase + s.memoryHeight) (List.replicate (grown - s.memoryHeight) 0) with
      memoryHeight := grown })

/-- `mem_view`: a frame's established range. -/
def memView (base established required : Nat) : Result Unit :=
  if established < required then .error .guestAbort
  else absoluteRegion ctx.memoryCapacity base established

/-- `active_memory_slice`. -/
def activeMemorySlice (access : MemoryAccess) : Exec Slice := fun s =>
  if access.len = 0 then .ok (emptySlice, s)
  else if s.memoryHeight ≤ memoryRegionBound - f.memoryBase ∧
      access.off + access.len ≤ s.memoryHeight then do
    let _ ← memView ctx f.memoryBase s.memoryHeight (access.off + access.len)
    .ok ({ off := f.memoryBase + access.off, len := access.len }, s)
  else fatalError .executionInvalid

/-- The bytes of a range of the active frame. -/
def activeMemoryBytes (access : MemoryAccess) : Exec (List Byte) := do
  let range ← activeMemorySlice ctx f access
  let s ← get
  pure (s.bytesAt range.off range.len)

def memLoad (off : Nat) : Exec Word := do
  let absoluteOffset ← liftM (memoryAbsolute f.memoryBase off)
  memoryRegion ctx absoluteOffset 32
  let s ← get
  pure (BitVec.ofNat 256 (natOfBytes (s.bytesAt absoluteOffset 32)))

/-- Writes bytes at an absolute position. -/
def writeBytes (off : Nat) (bytes : MachineState → List Byte) : Exec Unit :=
  modify fun s => s.withBytes off (bytes s)

/-- Writes bytes at a position of the frame. -/
def memWrite (off : Nat) (bytes : List Byte) : Exec Unit := do
  let absoluteOffset ← liftM (memoryAbsolute f.memoryBase off)
  memoryRegion ctx absoluteOffset bytes.length
  writeBytes absoluteOffset fun _ => bytes

def memStore (off : Nat) (w : Word) : Exec Unit := memWrite ctx f off (wordToHash w).toList

def memStoreByte (off : Nat) (w : Word) : Exec Unit := memWrite ctx f off [w.setWidth 8]

def memMcopy (dst src len : Nat) : Exec Unit :=
  if len ≠ 0 then do
    let absoluteDst ← liftM (memoryAbsolute f.memoryBase dst)
    let absoluteSrc ← liftM (memoryAbsolute f.memoryBase src)
    memoryRegion ctx absoluteDst len
    memoryRegion ctx absoluteSrc len
    writeBytes absoluteDst fun s => s.bytesAt absoluteSrc len
  else pure ()

def memKeccak (access : MemoryAccess) : Exec Word := do
  let bytes ← activeMemoryBytes ctx f access
  pure (hashToWord (ctx.kernel.keccak256 bytes))

/-- The `len` bytes of a slice at `off`, zero behind its end. -/
def paddedRange (bytes : List Byte) (off len : Nat) : List Byte :=
  (List.range len).map fun i => sliceByte bytes (off + i)

theorem length_paddedRange (bytes : List Byte) (off len : Nat) :
    (paddedRange bytes off len).length = len := by
  rw [paddedRange, List.length_map, List.length_range]

/-- `slice_copy`, to an absolute position. -/
def sliceCopy (bytes : MachineState → List Byte) (dst off len : Nat) : Exec Unit := do
  memoryRegion ctx dst len
  writeBytes dst fun s => paddedRange (bytes s) off len

/-- `slice_copy_word_offset`. -/
def sliceCopyWordOffset (bytes : MachineState → List Byte) (dst : Nat) (off : Word) (len : Nat) :
    Exec Unit := do
  let s ← get
  if off.toNat < (bytes s).length then sliceCopy ctx bytes dst off.toNat len
  else sliceCopy ctx (fun _ => []) dst 0 len

/-- `freeze_memory_output`. -/
def freezeOutput (data : Slice) : Exec OutputSlice := fun s =>
  if data.len = 0 then .ok (emptySlice, s)
  else if ctx.storesOutput (s.bytesAt data.off data.len) then
    .ok ({ off := 0, len := data.len }, { s with output := s.bytesAt data.off data.len })
  else .ok (emptySlice, s)

/-- Establishes an operand that has been paid for. -/
def reach (start size : Word) : Exec MemoryAccess := do
  let access ← liftM (memoryAccess { start := start.toNat, size := size.toNat })
  growMemory ctx f access.requestedHeight
  pure access

variable {S : Type} [Outcome S]

/-- What follows a memory operand: it is paid for, then established. -/
def withOperand (start size : Word) (k : MemoryAccess → Exec S) : Exec S :=
  chargeExpansion (memoryRequestedHeight start.toNat size.toNat) do
    let access ← reach ctx f start size
    k access

end

end EvmSail.Vm
