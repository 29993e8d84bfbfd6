/-
# `EvmSail.Ssz.StatelessInput` — the stateless input decoder

`decode_stateless_input_ref` resolves the offset tables of the five nested
containers of the input (the body, the new payload request, the execution
payload, the execution requests, the execution witness) and hands out the
variable regions as slices.  The source is one function; here each
container has its own definition, in the order of the source.

An offset is read from a container that is known to be long enough.  The
model makes that a check of its own (`sszFieldU32`), which stops with
`assertFailed`; the decoder never does (`decodeStatelessInputRef_ends`).
The activation record of the chain config, whose offsets are resolved with
the payload's number and timestamp at hand, has its decoder at the end.
-/
import EvmSail.Primitives.Profile
import EvmSail.Ssz.Reading

namespace EvmSail

open Fallible

/-! ## Schema bounds -/

def withdrawalCountBound : Nat := 2 ^ 4
def blobCommitmentCountBound : Nat := 2 ^ 12
def witnessNodeCountBound : Nat := 2 ^ 22
def witnessCodeCountBound : Nat := 2 ^ 18
def witnessHeaderCountBound : Nat := 2 ^ 8
def publicKeyCountBound : Nat := 2 ^ 15
def extraDataLengthBound : Nat := 2 ^ 5
def blockAccessListLengthBound : Nat := 2 ^ 30
def maxTransactionLength : Nat := 2 ^ 30
def maxWitnessNodeLength : Nat := 2 ^ 10
def maxWitnessCodeLength : Nat := 2 ^ 16
def maxWitnessHeaderLength : Nat := 2 ^ 10

abbrev TransactionListRef := BoundedSszListRef
abbrev WithdrawalListRef := BoundedSszListRef
abbrev WitnessNodeListRef := BoundedSszListRef
abbrev WitnessCodeListRef := BoundedSszListRef
abbrev WitnessHeaderListRef := BoundedSszListRef

/-- Every variable region of the input. -/
structure StatelessInputRef where
  protocol : ProtocolProfile
  newPayloadRequest : List Byte
  executionPayload : List Byte
  versionedHashes : List Byte
  deposits : List Byte
  withdrawalRequests : List Byte
  consolidationRequests : List Byte
  builderDepositRequests : List Byte
  builderExitRequests : List Byte
  extraData : List Byte
  transactions : TransactionListRef
  withdrawals : WithdrawalListRef
  blockAccessList : List Byte
  witnessState : WitnessNodeListRef
  witnessCodes : WitnessCodeListRef
  witnessHeaders : WitnessHeaderListRef
  chainConfig : List Byte
  publicKeys : List Byte

/-! ## Containers -/

/-- A check of the decoder. -/
def ensure (p : Prop) [Decidable p] : Result Unit :=
  if p then .ok () else fatalError .invalidConfig

/-- A container is at least as long as its fixed part. -/
def sszContainerBytes (bytes : List Byte) (minimum : Nat) : Result (List Byte) := do
  ensure (minimum ≤ bytes.length)
  .ok bytes

/-- An offset in the fixed part of a container. -/
def sszFieldU32 (bytes : List Byte) (offset : Nat) : Result Nat :=
  if offset + 4 ≤ bytes.length then .ok (sszU32At bytes offset) else .error .assertFailed

/-- A position within the variable part of a container. -/
structure SszContainerCursor where
  bytes : List Byte
  current : Nat

/-- The next variable field, which ends at the offset `stop`. -/
def sszTake (cursor : SszContainerCursor) (stop : Nat) :
    Result (List Byte × SszContainerCursor) :=
  if cursor.current ≤ stop ∧ stop ≤ cursor.bytes.length then
    .ok (subSlice cursor.bytes cursor.current (stop - cursor.current), ⟨cursor.bytes, stop⟩)
  else fatalError .invalidConfig

/-- What remains behind the last offset. -/
def sszFinish (cursor : SszContainerCursor) : Result (List Byte) :=
  if cursor.current ≤ cursor.bytes.length then
    .ok (subSlice cursor.bytes cursor.current (cursor.bytes.length - cursor.current))
  else fatalError .invalidConfig

/-! ## The input -/

/-- The regions of the body, `SszStatelessInput`. -/
structure BodyRegions where
  newPayloadRequest : List Byte
  executionWitness : List Byte
  chainConfig : List Byte
  publicKeys : List Byte

def decodeBody (bodyBytes : List Byte) : Result BodyRegions := do
  let body ← sszContainerBytes bodyBytes 16
  let newPayloadRequestOffset ← sszFieldU32 body 0
  let witnessOffset ← sszFieldU32 body 4
  let chainConfigOffset ← sszFieldU32 body 8
  let publicKeysOffset ← sszFieldU32 body 12
  ensure (newPayloadRequestOffset = 16)
  let (newPayloadRequest, afterPayloadRequest) ← sszTake ⟨body, 16⟩ witnessOffset
  let newPayloadRequest ← sszContainerBytes newPayloadRequest 44
  let (executionWitness, afterWitness) ← sszTake afterPayloadRequest chainConfigOffset
  let executionWitness ← sszContainerBytes executionWitness 12
  let (chainConfig, afterChainConfig) ← sszTake afterWitness publicKeysOffset
  let publicKeys ← sszFinish afterChainConfig
  .ok ⟨newPayloadRequest, executionWitness, chainConfig, publicKeys⟩

/-- The regions of `SszNewPayloadRequest`. -/
structure PayloadRequestRegions where
  executionPayload : List Byte
  versionedHashes : List Byte
  executionRequests : List Byte

def decodePayloadRequest (newPayloadRequest : List Byte) : Result PayloadRequestRegions := do
  let payloadOffset ← sszFieldU32 newPayloadRequest 0
  let versionedHashesOffset ← sszFieldU32 newPayloadRequest 4
  let requestsOffset ← sszFieldU32 newPayloadRequest 40
  ensure (payloadOffset = 44)
  let (executionPayload, afterPayload) ← sszTake ⟨newPayloadRequest, 44⟩ versionedHashesOffset
  let (versionedHashes, afterVersionedHashes) ← sszTake afterPayload requestsOffset
  let executionRequests ← sszFinish afterVersionedHashes
  let executionRequests ← sszContainerBytes executionRequests 20
  .ok ⟨executionPayload, versionedHashes, executionRequests⟩

/-- The regions of `SszExecutionPayload`. -/
structure PayloadRegions where
  extraData : List Byte
  transactions : TransactionListRef
  withdrawals : WithdrawalListRef
  blockAccessList : List Byte

def decodePayload (executionPayloadBytes : List Byte) : Result PayloadRegions := do
  let executionPayload ← sszContainerBytes executionPayloadBytes 540
  let extraDataOffset ← sszFieldU32 executionPayload 436
  let transactionsOffset ← sszFieldU32 executionPayload 504
  let withdrawalsOffset ← sszFieldU32 executionPayload 508
  let blockAccessListOffset ← sszFieldU32 executionPayload 528
  ensure (extraDataOffset = 540)
  let (extraData, afterExtraData) ← sszTake ⟨executionPayload, 540⟩ transactionsOffset
  let (transactionBytes, afterTransactions) ← sszTake afterExtraData withdrawalsOffset
  let transactions ← sszBoundedVariableListRef transactionBytes transactionCountBound
    maxTransactionLength
  let (withdrawalBytes, afterWithdrawals) ← sszTake afterTransactions blockAccessListOffset
  let withdrawals ← sszBoundedFixedListRef withdrawalBytes 44 withdrawalCountBound
  let blockAccessList ← sszFinish afterWithdrawals
  ensure (extraData.length ≤ extraDataLengthBound)
  ensure (blockAccessList.length ≤ blockAccessListLengthBound)
  .ok ⟨extraData, transactions, withdrawals, blockAccessList⟩

/-- The regions of `SszExecutionRequests`. -/
structure RequestRegions where
  deposits : List Byte
  withdrawalRequests : List Byte
  consolidationRequests : List Byte
  builderDepositRequests : List Byte
  builderExitRequests : List Byte

def decodeRequests (executionRequests : List Byte) : Result RequestRegions := do
  let depositsOffset ← sszFieldU32 executionRequests 0
  let withdrawalRequestsOffset ← sszFieldU32 executionRequests 4
  let consolidationRequestsOffset ← sszFieldU32 executionRequests 8
  let builderDepositRequestsOffset ← sszFieldU32 executionRequests 12
  let builderExitRequestsOffset ← sszFieldU32 executionRequests 16
  ensure (depositsOffset = 20)
  let (deposits, afterDeposits) ← sszTake ⟨executionRequests, 20⟩ withdrawalRequestsOffset
  let (withdrawalRequests, afterWithdrawals) ← sszTake afterDeposits consolidationRequestsOffset
  let (consolidationRequests, afterConsolidations) ←
    sszTake afterWithdrawals builderDepositRequestsOffset
  let (builderDepositRequests, afterBuilderDeposits) ←
    sszTake afterConsolidations builderExitRequestsOffset
  let builderExitRequests ← sszFinish afterBuilderDeposits
  .ok ⟨deposits, withdrawalRequests, consolidationRequests, builderDepositRequests,
    builderExitRequests⟩

/-- The regions of `SszExecutionWitness`. -/
structure WitnessRegions where
  state : WitnessNodeListRef
  codes : WitnessCodeListRef
  headers : WitnessHeaderListRef

def decodeWitness (executionWitness : List Byte) : Result WitnessRegions := do
  let stateOffset ← sszFieldU32 executionWitness 0
  let codesOffset ← sszFieldU32 executionWitness 4
  let headersOffset ← sszFieldU32 executionWitness 8
  ensure (stateOffset = 12)
  let (stateBytes, afterState) ← sszTake ⟨executionWitness, 12⟩ codesOffset
  let state ← sszBoundedVariableListRef stateBytes witnessNodeCountBound maxWitnessNodeLength
  let (codeBytes, afterCodes) ← sszTake afterState headersOffset
  let codes ← sszBoundedVariableListRef codeBytes witnessCodeCountBound maxWitnessCodeLength
  let headerBytes ← sszFinish afterCodes
  let headers ← sszBoundedVariableListRef headerBytes witnessHeaderCountBound
    maxWitnessHeaderLength
  .ok ⟨state, codes, headers⟩

/-- The public keys are whole, and not too many. -/
def checkPublicKeys (publicKeys : List Byte) : Result Unit := do
  let publicKeyCount := publicKeys.length / 65
  ensure (publicKeys.length = publicKeyCount * 65)
  ensure (publicKeyCount ≤ publicKeyCountBound)

/-- The schema prefix, `[fork, 0x01]`. -/
def decodeSchema (input : List Byte) : Result ProtocolProfile := do
  ensure (18 ≤ input.length)
  ensure (sliceByte input 1 = 0x01)
  ensure (schemaProtocolProfileForwardsMatches (sliceByte input 0) = true)
  schemaProtocolProfile (sliceByte input 0)

/-- Resolves the input's offset tables into its regions. -/
def decodeStatelessInputRef (input : List Byte) : Result StatelessInputRef := do
  let protocol ← decodeSchema input
  let body ← decodeBody (sliceSuffix input 2)
  let request ← decodePayloadRequest body.newPayloadRequest
  let payload ← decodePayload request.executionPayload
  let requests ← decodeRequests request.executionRequests
  let witness ← decodeWitness body.executionWitness
  checkPublicKeys body.publicKeys
  let _ ← sszBoundedFixedListRef request.versionedHashes 32 blobCommitmentCountBound
  .ok
    { protocol := protocol
      newPayloadRequest := body.newPayloadRequest
      executionPayload := request.executionPayload
      versionedHashes := request.versionedHashes
      deposits := requests.deposits
      withdrawalRequests := requests.withdrawalRequests
      consolidationRequests := requests.consolidationRequests
      builderDepositRequests := requests.builderDepositRequests
      builderExitRequests := requests.builderExitRequests
      extraData := payload.extraData
      transactions := payload.transactions
      withdrawals := payload.withdrawals
      blockAccessList := payload.blockAccessList
      witnessState := witness.state
      witnessCodes := witness.codes
      witnessHeaders := witness.headers
      chainConfig := body.chainConfig
      publicKeys := body.publicKeys }

/-! ## The chain config -/

structure ChainConfig where
  chainId : Nat
  deriving DecidableEq, Repr

/-- Decodes `SszChainConfig`: the chain id, and the activation of the fork,
which the payload must have reached. -/
def decodeChainConfig (cc : List Byte) (number timestamp : Nat) : Result ChainConfig := do
  ensure (12 ≤ cc.length)
  let fOffset ← sszFieldU32 cc 8
  ensure (fOffset = 12 ∧ 24 ≤ cc.length)
  let activationOffset ← sszFieldU32 cc 12
  ensure (activationOffset = 4)
  let blockNumberOffset ← sszFieldU32 cc 16
  let timestampOffset ← sszFieldU32 cc 20
  ensure (blockNumberOffset ≤ cc.length - 16)
  let blockNumberStart := 16 + blockNumberOffset
  ensure (timestampOffset ≤ cc.length - 16)
  let timestampStart := 16 + timestampOffset
  ensure (24 = blockNumberStart)
  ensure (blockNumberStart ≤ timestampStart)
  ensure (timestampStart ≤ cc.length)
  let bnLength := timestampStart - blockNumberStart
  let tsLength := cc.length - timestampStart
  ensure ((bnLength = 0 ∨ bnLength = 8) ∧ (tsLength = 0 ∨ tsLength = 8))
  ensure (¬ (bnLength = 0 ∧ tsLength = 0))
  ensure (bnLength = 8 → decodeSszUint cc blockNumberStart ≤ number)
  ensure (tsLength = 8 → decodeSszUint cc timestampStart ≤ timestamp)
  .ok ⟨decodeSszUint cc 0⟩

end EvmSail
