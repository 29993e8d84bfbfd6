/-
# `EvmSail.Ssz.WitnessHeaders` — the chain of witness headers

`index_witness_headers` walks the headers of the witness once, from the
oldest to the newest.  Every header but the first is decoded for its parent
hash, which has to be the hash of the header before it; the newest one is
also decoded for the fields that execution takes from the parent block.
The hashes go into the table of ancestors, which `k_blockhash` reads.

The table of the host is a function of the index; `keccak256` is the
accelerator of the host.
-/
import EvmSail.Primitives.Profile
import EvmSail.Rlp.Fields
import EvmSail.Ssz.Reading

namespace EvmSail

open Fallible

/-! ## The fields of a header -/

/-- The parent-header fields required to initialize execution context. -/
structure ParentHeaderFields where
  parentHash : Hash
  stateRoot : Hash
  baseFee : Word
  blobGasUsed : Nat
  excessBlobGas : Nat
  haveParent : Bool
  haveState : Bool
  haveBaseFee : Bool
  haveBlobGas : Bool
  haveExcessBlobGas : Bool
  deriving DecidableEq

def emptyParentHeaderFields : ParentHeaderFields where
  parentHash := zeroHash
  stateRoot := zeroHash
  baseFee := 0
  blobGasUsed := 0
  excessBlobGas := 0
  haveParent := false
  haveState := false
  haveBaseFee := false
  haveBlobGas := false
  haveExcessBlobGas := false

/-- Advances the field position, saturating at the unused-field sentinel. -/
def nextParentHeaderField (index : Nat) : Nat := if index < 19 then index + 1 else 19

/-- A hash field. -/
def decodeHeaderHash (field : RlpFieldRef) : Result Hash := do
  let hashWord ← rlpDecodeWord field
  .ok (wordToHash hashWord)

/-- The blob gas used, which is a number of blobs that the schedule allows. -/
def decodeHeaderBlobGasUsed (profile : ProtocolProfile) (field : RlpFieldRef) : Result Nat := do
  let value ← rlpDecodeUint64 field
  let count := value / gasPerBlob
  if count ≤ profile.blobSchedule.max ∧ value = gasPerBlob * count then .ok (gasPerBlob * count)
  else fatalError .rlpDecode

/-- The excess blob gas, within the ceiling of the profile. -/
def decodeHeaderExcessBlobGas (profile : ProtocolProfile) (field : RlpFieldRef) : Result Nat := do
  let value ← rlpDecodeUint64 field
  if value ≤ profile.excessBlobGasLimit then .ok value
  else fatalError .rlpDecode

/-- What one field of the header adds to the decoded fields. -/
def decodeParentHeaderField (profile : ProtocolProfile) (fieldIndex : Nat) (field : RlpFieldRef)
    (fields : ParentHeaderFields) : Result ParentHeaderFields :=
  if fieldIndex = 0 then do
    let parentHash ← decodeHeaderHash field
    .ok { fields with parentHash := parentHash, haveParent := true }
  else if fieldIndex = 3 then do
    let stateRoot ← decodeHeaderHash field
    .ok { fields with stateRoot := stateRoot, haveState := true }
  else if fieldIndex = 15 then do
    let baseFee ← rlpDecodeU256 field
    .ok { fields with baseFee := baseFee, haveBaseFee := true }
  else if fieldIndex = 17 then do
    let blobGasUsed ← decodeHeaderBlobGasUsed profile field
    .ok { fields with blobGasUsed := blobGasUsed, haveBlobGas := true }
  else if fieldIndex = 18 then do
    let excessBlobGas ← decodeHeaderExcessBlobGas profile field
    .ok { fields with excessBlobGas := excessBlobGas, haveExcessBlobGas := true }
  else .ok fields

/-- Extracts the execution-relevant fields while walking one header. -/
def decodeParentHeaderFields (profile : ProtocolProfile) (cursor : List Byte) (fieldIndex : Nat)
    (fields : ParentHeaderFields) : Result ParentHeaderFields :=
  if cursor.length = 0 then .ok fields
  else do
    let (field, ⟨next, _⟩) ← rlpTakeItem cursor
    let decoded ← decodeParentHeaderField profile fieldIndex field fields
    decodeParentHeaderFields profile next (nextParentHeaderField fieldIndex) decoded
termination_by cursor.length

/-! ## The walk over the headers -/

/-- The ancestors' hashes by their distance from the parent. -/
abbrev AncestorTable := Nat → Hash

def ancestorHashWrite (table : AncestorTable) (index : Nat) (h : Hash) : AncestorTable :=
  Function.update table index h

/-- The running authentication and execution context of the header chain. -/
structure WitnessHeaderIndex where
  cursor : BoundedSszListCursor
  previousHash : Hash
  valid : Bool
  parentStateRoot : Hash
  parentBaseFeePerGas : Word
  parentBlobGasUsed : Nat
  parentExcessBlobGas : Nat
  parentFieldsValid : Bool

/-- A header that is not the first names the one before it. -/
def linkHeader (index : Nat) (decoded : ParentHeaderFields) (state : WitnessHeaderIndex) :
    WitnessHeaderIndex :=
  if index ≠ 0 then
    if decoded.haveParent = false then { state with valid := false }
    else if decoded.parentHash ≠ state.previousHash then { state with valid := false }
    else state
  else state

/-- The fields that have to be there. -/
def parentFieldsValid (profile : ProtocolProfile) (decoded : ParentHeaderFields) : Bool :=
  if Fork.cancun ≤ profile.fork then
    decoded.haveState && decoded.haveBaseFee && decoded.haveBlobGas == decoded.haveExcessBlobGas
  else decoded.haveState

/-- Takes the execution context from the newest header. -/
def installParent (profile : ProtocolProfile) (isLast : Bool) (decoded : ParentHeaderFields)
    (state : WitnessHeaderIndex) : WitnessHeaderIndex :=
  if isLast then
    { state with
      parentStateRoot := decoded.stateRoot
      parentBaseFeePerGas := decoded.baseFee
      parentBlobGasUsed := decoded.blobGasUsed
      parentExcessBlobGas := decoded.excessBlobGas
      parentFieldsValid := parentFieldsValid profile decoded }
  else state

/-- Decodes a header that is linked or is the newest one. -/
def decodeWitnessHeader (profile : ProtocolProfile) (index : Nat) (isLast : Bool)
    (header : List Byte) (state : WitnessHeaderIndex) : Result WitnessHeaderIndex :=
  if index ≠ 0 ∨ isLast then do
    let fields ← rlpNodeCursor header
    let decoded ← decodeParentHeaderFields profile fields 0 emptyParentHeaderFields
    .ok (installParent profile isLast decoded (linkHeader index decoded state))
  else .ok state

/-- The distance of a header from the newest one. -/
def headerDistance (headerCount nextIndex : Nat) : Result Nat :=
  if nextIndex ≤ headerCount then .ok (headerCount - nextIndex) else fatalError .witnessDeficient

/-- Records the hash of an ancestor that is in the window. -/
def recordAncestor (table : AncestorTable) (distance : Nat) (h : Hash) : AncestorTable :=
  if distance < 256 then ancestorHashWrite table distance h else table

section

variable (keccak256 : List Byte → Hash) (profile : ProtocolProfile)

/-- Authenticates and indexes one header. -/
def indexWitnessHeader (s : WitnessHeaderIndex × AncestorTable) :
    Result (WitnessHeaderIndex × AncestorTable) := do
  let (header, next) ← sszListPop s.1.cursor
  let result ← decodeWitnessHeader profile s.1.cursor.index
    (next.index == s.1.cursor.items.count) header { s.1 with cursor := next }
  let currentHash := keccak256 header
  let distance ← headerDistance s.1.cursor.items.count next.index
  .ok ({ result with previousHash := currentHash }, recordAncestor s.2 distance currentHash)

theorem decodeWitnessHeader_cursor {index : Nat} {isLast : Bool} {header : List Byte}
    {state result : WitnessHeaderIndex}
    (h : decodeWitnessHeader profile index isLast header state = .ok result) :
    result.cursor = state.cursor := by
  rw [decodeWitnessHeader] at h
  split at h
  · obtain ⟨_, _, h⟩ := bind_eq_ok.mp h
    obtain ⟨_, _, h⟩ := bind_eq_ok.mp h
    cases h
    rw [installParent, linkHeader]
    split <;> split <;> (try split) <;> (try split) <;> rfl
  · cases h
    rfl

/-- A step takes one header. -/
theorem indexWitnessHeader_cursor {s s' : WitnessHeaderIndex × AncestorTable}
    (h : indexWitnessHeader keccak256 profile s = .ok s') :
    ∃ header, sszListPop s.1.cursor = .ok (header, s'.1.cursor) := by
  obtain ⟨⟨header, next⟩, hpop, h⟩ := bind_eq_ok.mp h
  obtain ⟨result, hresult, h⟩ := bind_eq_ok.mp h
  obtain ⟨_, _, h⟩ := bind_eq_ok.mp h
  cases h
  have hcursor : result.cursor = next := decodeWitnessHeader_cursor profile hresult
  exact ⟨header, by rw [hpop, ← hcursor]⟩

/-- Authenticates and indexes the remaining headers in chain order. -/
def indexWitnessHeaderCursor (s : WitnessHeaderIndex × AncestorTable) :
    Result (WitnessHeaderIndex × AncestorTable) :=
  loop (fun s => !sszListCursorEmpty s.1.cursor) (indexWitnessHeader keccak256 profile)
    (fun s => s.1.cursor.items.count - s.1.cursor.index)
    (by
      intro s s' _ h
      obtain ⟨header, hpop⟩ := indexWitnessHeader_cursor keccak256 profile h
      obtain ⟨hlt, _, _, _, _, _, hnext⟩ := sszListPop_eq_ok.mp hpop
      rw [hnext]
      simp only
      omega)
    s

/-- The authenticated facts about the parent block. -/
structure WitnessContext where
  parentHash : Hash
  parentStateRoot : Hash
  parentBaseFeePerGas : Word
  parentBlobGasUsed : Nat
  parentExcessBlobGas : Nat
  deriving DecidableEq

/-- The context, with the number of headers and the table of ancestors that
are left in the kernel. -/
structure IndexedHeaders where
  context : WitnessContext
  nHeaders : Nat
  ancestors : AncestorTable

/-- Where the walk over the headers starts. -/
def witnessHeaderStart (headers : BoundedSszListRef) : WitnessHeaderIndex where
  cursor := sszListCursor headers
  previousHash := zeroHash
  valid := headers.count ≠ 0
  parentStateRoot := zeroHash
  parentBaseFeePerGas := 0
  parentBlobGasUsed := 0
  parentExcessBlobGas := 0
  parentFieldsValid := false

/-- The context of a walk that is over. -/
def witnessContext (headers : BoundedSszListRef) (s : WitnessHeaderIndex × AncestorTable) :
    Result IndexedHeaders :=
  if s.1.valid = false then fatalError .witnessDeficient
  else if s.1.parentFieldsValid = false then fatalError .rlpDecode
  else
    .ok
      { context :=
          { parentHash := s.1.previousHash
            parentStateRoot := s.1.parentStateRoot
            parentBaseFeePerGas := s.1.parentBaseFeePerGas
            parentBlobGasUsed := s.1.parentBlobGasUsed
            parentExcessBlobGas := s.1.parentExcessBlobGas }
        nHeaders := headers.count
        ancestors := s.2 }

/-- Parses the witness header chain once. -/
def indexWitnessHeaders (headers : BoundedSszListRef) (ancestors : AncestorTable) :
    Result IndexedHeaders := do
  let indexed ← indexWitnessHeaderCursor keccak256 profile (witnessHeaderStart headers, ancestors)
  witnessContext headers indexed

end

/-! ## Reading the table -/

/-- `BLOCKHASH`: the hash of ancestor `number`, zero outside the window. -/
def kBlockhash (number nHeaders : Nat) (ancestors : AncestorTable) (numberWord : Word) :
    Result Hash :=
  let currentWord : Word := BitVec.ofNat 256 number
  if numberWord < currentWord then
    let distance := currentWord.toNat - numberWord.toNat
    if distance ≤ 256 then
      if nHeaders < distance then fatalError .witnessDeficient
      else .ok (ancestors (distance - 1))
    else .ok zeroHash
  else .ok zeroHash

/-- The checks of `validate_execution_payload` that read the parent hash, in
front of the commitments of the payload. -/
def checkParentLinkage (gasLimit gasUsed : Nat) (parentHash : Hash) (witness : WitnessContext) :
    Result Unit :=
  if gasLimit < gasUsed then fatalError .invalidGasUsed
  else if witness.parentHash ≠ parentHash then fatalError .invalidParentHash
  else .ok ()

end EvmSail
