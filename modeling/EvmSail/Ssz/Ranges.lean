/-
# `EvmSail.Ssz.Ranges` — the stateless input decoder on coordinates

A slice of the stateless input is a coordinate and a length
(`primitives/bytes.sail`), and subslicing is addition.  `Ssz.StatelessInput`
takes a slice to be the bytes it denotes; here the decoder is read again
with the coordinates kept, so that two regions with equal bytes are still
told apart.  `decodeStatelessInputRef_read` says that the two readings are
one: the bytes of the ranges are the slices.

Beside each container stands what its decoder accepts, as a condition on
the container's offset table alone (`Follows`).
-/
import EvmSail.Ssz.InputSound

namespace EvmSail

open Fallible

/-- A range in the immutable stateless-input envelope. -/
structure InputRange (input : List Byte) where
  bytes : Nat
  len : Nat
  valid : bytes + len ≤ input.length

namespace InputRange

variable {input : List Byte}

/-- The bytes of a range. -/
def read (s : InputRange input) : List Byte := subSlice input s.bytes s.len

@[simp] theorem length_read (s : InputRange input) : s.read.length = s.len :=
  length_subSlice s.valid

/-- The envelope itself. -/
def whole (input : List Byte) : InputRange input := ⟨0, input.length, by rw [Nat.zero_add]⟩

@[simp] theorem read_whole : (whole input).read = input := List.take_length

/-- `stateless_input_sub_slice`. -/
def sub (s : InputRange input) (off len : Nat) (h : off + len ≤ s.len) : InputRange input :=
  ⟨s.bytes + off, len, by have := s.valid; omega⟩

theorem read_sub (s : InputRange input) {off len : Nat} (h : off + len ≤ s.len) :
    (s.sub off len h).read = subSlice s.read off len := by
  simp only [read, sub, subSlice, List.drop_take, List.take_take, List.drop_drop]
  rw [Nat.min_eq_left (by omega)]

theorem ext {s t : InputRange input} (hbytes : s.bytes = t.bytes) (hlen : s.len = t.len) :
    s = t := by
  cases s
  cases t
  cases hbytes
  cases hlen
  rfl

/-- A byte of a range is the byte at its coordinate. -/
theorem sliceByte_read (s : InputRange input) {i : Nat} (h : i < s.len) :
    input[s.bytes + i]? = some (sliceByte s.read i) := by
  rw [read, sliceByte_subSlice, if_pos h, sliceByte]
  have hin : s.bytes + i < input.length := Nat.lt_of_lt_of_le (by omega) s.valid
  rw [List.getElem?_eq_getElem hin, Option.getD_some]

end InputRange

namespace Ranged

variable {input : List Byte}

/-! ## Lists -/

structure BoundedSszListRef (input : List Byte) where
  bytes : InputRange input
  count : Nat
  maxItemLength : Nat

def BoundedSszListRef.read (items : BoundedSszListRef input) : EvmSail.BoundedSszListRef :=
  ⟨items.bytes.read, items.count, items.maxItemLength⟩

def sszBoundedVariableListRef (bytes : InputRange input) (maximumCount maximumItemLength : Nat) :
    Result (BoundedSszListRef input) := do
  let rawCount ← sszRawCount bytes.read
  if rawCount ≤ maximumCount then .ok ⟨bytes, rawCount, maximumItemLength⟩
  else fatalError .invalidConfig

def sszBoundedFixedListRef (bytes : InputRange input) (itemSize maximumCount : Nat) :
    Result (BoundedSszListRef input) :=
  if 0 < itemSize then
    let span := bytes.len
    let rawCount := span / itemSize
    if span ≠ rawCount * itemSize then fatalError .invalidConfig
    else if rawCount ≤ maximumCount then .ok ⟨bytes, rawCount, itemSize⟩
    else fatalError .invalidConfig
  else fatalError .invalidConfig

/-! ## Containers -/

def sszContainerBytes (bytes : InputRange input) (minimum : Nat) : Result (InputRange input) := do
  ensure (minimum ≤ bytes.len)
  .ok bytes

def sszFieldU32 (bytes : InputRange input) (offset : Nat) : Result Nat :=
  EvmSail.sszFieldU32 bytes.read offset

/-- A position within the variable part of a container. -/
structure SszContainerCursor (input : List Byte) where
  bytes : InputRange input
  current : Nat

def SszContainerCursor.read (cursor : SszContainerCursor input) : EvmSail.SszContainerCursor :=
  ⟨cursor.bytes.read, cursor.current⟩

def sszTake (cursor : SszContainerCursor input) (stop : Nat) :
    Result (InputRange input × SszContainerCursor input) :=
  if h : cursor.current ≤ stop ∧ stop ≤ cursor.bytes.len then
    .ok (cursor.bytes.sub cursor.current (stop - cursor.current) (by omega), ⟨cursor.bytes, stop⟩)
  else fatalError .invalidConfig

def sszFinish (cursor : SszContainerCursor input) : Result (InputRange input) :=
  if h : cursor.current ≤ cursor.bytes.len then
    .ok (cursor.bytes.sub cursor.current (cursor.bytes.len - cursor.current) (by omega))
  else fatalError .invalidConfig

/-! ## The input -/

structure BodyRegions (input : List Byte) where
  newPayloadRequest : InputRange input
  executionWitness : InputRange input
  chainConfig : InputRange input
  publicKeys : InputRange input

def decodeBody (bodyBytes : InputRange input) : Result (BodyRegions input) := do
  let body ← sszContainerBytes bodyBytes 16
  let newPayloadRequestOffset ← sszFieldU32 body 0
  let witnessOffset ← sszFieldU32 body 4
  let chainConfigOffset ← sszFieldU32 body 8
  let publicKeysOffset ← sszFieldU32 body 12
  ensure (newPayloadRequestOffset = 16)
  let (newPayloadRequest, afterPayloadRequest) ← sszTake ⟨body, 16⟩ witnessOffset
  let newPayloadRequest ← sszContainerBytes newPayloadRequest 44
  let (executionWitness, afterWitness) ← sszTake afterPayloadRequest chainConfigOffset
  let executionWitness ← sszContainerBytes executionWitness 12
  let (chainConfig, afterChainConfig) ← sszTake afterWitness publicKeysOffset
  let publicKeys ← sszFinish afterChainConfig
  .ok ⟨newPayloadRequest, executionWitness, chainConfig, publicKeys⟩

structure PayloadRequestRegions (input : List Byte) where
  executionPayload : InputRange input
  versionedHashes : InputRange input
  executionRequests : InputRange input

def decodePayloadRequest (newPayloadRequest : InputRange input) :
    Result (PayloadRequestRegions input) := do
  let payloadOffset ← sszFieldU32 newPayloadRequest 0
  let versionedHashesOffset ← sszFieldU32 newPayloadRequest 4
  let requestsOffset ← sszFieldU32 newPayloadRequest 40
  ensure (payloadOffset = 44)
  let (executionPayload, afterPayload) ← sszTake ⟨newPayloadRequest, 44⟩ versionedHashesOffset
  let (versionedHashes, afterVersionedHashes) ← sszTake afterPayload requestsOffset
  let executionRequests ← sszFinish afterVersionedHashes
  let executionRequests ← sszContainerBytes executionRequests 20
  .ok ⟨executionPayload, versionedHashes, executionRequests⟩

structure PayloadRegions (input : List Byte) where
  extraData : InputRange input
  transactions : BoundedSszListRef input
  withdrawals : BoundedSszListRef input
  blockAccessList : InputRange input

def decodePayload (executionPayloadBytes : InputRange input) :
    Result (PayloadRegions input) := do
  let executionPayload ← sszContainerBytes executionPayloadBytes 540
  let extraDataOffset ← sszFieldU32 executionPayload 436
  let transactionsOffset ← sszFieldU32 executionPayload 504
  let withdrawalsOffset ← sszFieldU32 executionPayload 508
  let blockAccessListOffset ← sszFieldU32 executionPayload 528
  ensure (extraDataOffset = 540)
  let (extraData, afterExtraData) ← sszTake ⟨executionPayload, 540⟩ transactionsOffset
  let (transactionBytes, afterTransactions) ← sszTake afterExtraData withdrawalsOffset
  let transactions ← sszBoundedVariableListRef transactionBytes transactionCountBound
    maxTransactionLength
  let (withdrawalBytes, afterWithdrawals) ← sszTake afterTransactions blockAccessListOffset
  let withdrawals ← sszBoundedFixedListRef withdrawalBytes 44 withdrawalCountBound
  let blockAccessList ← sszFinish afterWithdrawals
  ensure (extraData.len ≤ extraDataLengthBound)
  ensure (blockAccessList.len ≤ blockAccessListLengthBound)
  .ok ⟨extraData, transactions, withdrawals, blockAccessList⟩

structure RequestRegions (input : List Byte) where
  deposits : InputRange input
  withdrawalRequests : InputRange input
  consolidationRequests : InputRange input
  builderDepositRequests : InputRange input
  builderExitRequests : InputRange input

def decodeRequests (executionRequests : InputRange input) : Result (RequestRegions input) := do
  let depositsOffset ← sszFieldU32 executionRequests 0
  let withdrawalRequestsOffset ← sszFieldU32 executionRequests 4
  let consolidationRequestsOffset ← sszFieldU32 executionRequests 8
  let builderDepositRequestsOffset ← sszFieldU32 executionRequests 12
  let builderExitRequestsOffset ← sszFieldU32 executionRequests 16
  ensure (depositsOffset = 20)
  let (deposits, afterDeposits) ← sszTake ⟨executionRequests, 20⟩ withdrawalRequestsOffset
  let (withdrawalRequests, afterWithdrawals) ← sszTake afterDeposits consolidationRequestsOffset
  let (consolidationRequests, afterConsolidations) ←
    sszTake afterWithdrawals builderDepositRequestsOffset
  let (builderDepositRequests, afterBuilderDeposits) ←
    sszTake afterConsolidations builderExitRequestsOffset
  let builderExitRequests ← sszFinish afterBuilderDeposits
  .ok ⟨deposits, withdrawalRequests, consolidationRequests, builderDepositRequests,
    builderExitRequests⟩

structure WitnessRegions (input : List Byte) where
  state : BoundedSszListRef input
  codes : BoundedSszListRef input
  headers : BoundedSszListRef input

def decodeWitness (executionWitness : InputRange input) : Result (WitnessRegions input) := do
  let stateOffset ← sszFieldU32 executionWitness 0
  let codesOffset ← sszFieldU32 executionWitness 4
  let headersOffset ← sszFieldU32 executionWitness 8
  ensure (stateOffset = 12)
  let (stateBytes, afterState) ← sszTake ⟨executionWitness, 12⟩ codesOffset
  let state ← sszBoundedVariableListRef stateBytes witnessNodeCountBound maxWitnessNodeLength
  let (codeBytes, afterCodes) ← sszTake afterState headersOffset
  let codes ← sszBoundedVariableListRef codeBytes witnessCodeCountBound maxWitnessCodeLength
  let headerBytes ← sszFinish afterCodes
  let headers ← sszBoundedVariableListRef headerBytes witnessHeaderCountBound
    maxWitnessHeaderLength
  .ok ⟨state, codes, headers⟩

/-- Every variable region of the input. -/
structure StatelessInputRef (input : List Byte) where
  protocol : ProtocolProfile
  newPayloadRequest : InputRange input
  executionPayload : InputRange input
  versionedHashes : InputRange input
  deposits : InputRange input
  withdrawalRequests : InputRange input
  consolidationRequests : InputRange input
  builderDepositRequests : InputRange input
  builderExitRequests : InputRange input
  extraData : InputRange input
  transactions : BoundedSszListRef input
  withdrawals : BoundedSszListRef input
  blockAccessList : InputRange input
  witnessState : BoundedSszListRef input
  witnessCodes : BoundedSszListRef input
  witnessHeaders : BoundedSszListRef input
  chainConfig : InputRange input
  publicKeys : InputRange input

/-- The body starts behind the schema prefix. -/
def bodyRange (input : List Byte) (h : 18 ≤ input.length) : InputRange input :=
  (InputRange.whole input).sub 2 (input.length - 2) (by simp only [InputRange.whole]; omega)

/-- Resolves the input's offset tables into its ranges. -/
def decodeStatelessInputRef (input : List Byte) : Result (StatelessInputRef input) := do
  let protocol ← decodeSchema input
  if h : 18 ≤ input.length then do
    let body ← decodeBody (bodyRange input h)
    let request ← decodePayloadRequest body.newPayloadRequest
    let payload ← decodePayload request.executionPayload
    let requests ← decodeRequests request.executionRequests
    let witness ← decodeWitness body.executionWitness
    checkPublicKeys body.publicKeys.read
    let _ ← sszBoundedFixedListRef request.versionedHashes 32 blobCommitmentCountBound
    .ok
      { protocol := protocol
        newPayloadRequest := body.newPayloadRequest
        executionPayload := request.executionPayload
        versionedHashes := request.versionedHashes
        deposits := requests.deposits
        withdrawalRequests := requests.withdrawalRequests
        consolidationRequests := requests.consolidationRequests
        builderDepositRequests := requests.builderDepositRequests
        builderExitRequests := requests.builderExitRequests
        extraData := payload.extraData
        transactions := payload.transactions
        withdrawals := payload.withdrawals
        blockAccessList := payload.blockAccessList
        witnessState := witness.state
        witnessCodes := witness.codes
        witnessHeaders := witness.headers
        chainConfig := body.chainConfig
        publicKeys := body.publicKeys }
  else fatalError .invalidConfig

/-! ## The two readings agree -/

section Reading

variable {α β γ : Type}

theorem bind_of_map {x : Result α} {y : Result β} {f : α → β} (h : y = x.map f)
    (k : β → Result γ) : y >>= k = x >>= fun a => k (f a) := by
  cases h
  cases x <;> rfl

theorem map_of_bind (x : Result α) (k : α → Result β) (f : β → γ) :
    (x >>= k).map f = x >>= fun a => (k a).map f := by
  cases x <;> rfl

theorem map_ok (a : α) (f : α → β) : (.ok a : Result α).map f = .ok (f a) := rfl

end Reading

theorem sszContainerBytes_read (s : InputRange input) (minimum : Nat) :
    EvmSail.sszContainerBytes s.read minimum =
      (sszContainerBytes s minimum).map InputRange.read := by
  rw [EvmSail.sszContainerBytes, sszContainerBytes, map_of_bind, InputRange.length_read]
  rfl

theorem sszTake_read (s : InputRange input) (current stop : Nat) :
    EvmSail.sszTake ⟨s.read, current⟩ stop =
      (sszTake ⟨s, current⟩ stop).map fun r => (r.1.read, ⟨r.2.bytes.read, r.2.current⟩) := by
  simp only [EvmSail.sszTake, sszTake, InputRange.length_read]
  split
  · rw [map_ok, InputRange.read_sub]
  · rfl

theorem sszFinish_read (s : InputRange input) (current : Nat) :
    EvmSail.sszFinish ⟨s.read, current⟩ =
      (sszFinish ⟨s, current⟩).map InputRange.read := by
  simp only [EvmSail.sszFinish, sszFinish, InputRange.length_read]
  split
  · rw [map_ok, InputRange.read_sub]
  · rfl

theorem sszBoundedVariableListRef_read (s : InputRange input) (maximumCount maximumLength : Nat) :
    EvmSail.sszBoundedVariableListRef s.read maximumCount maximumLength =
      (sszBoundedVariableListRef s maximumCount maximumLength).map BoundedSszListRef.read := by
  rw [EvmSail.sszBoundedVariableListRef, sszBoundedVariableListRef, map_of_bind]
  congr 1
  funext rawCount
  split <;> rfl

theorem sszBoundedFixedListRef_read (s : InputRange input) (itemSize maximumCount : Nat) :
    EvmSail.sszBoundedFixedListRef s.read itemSize maximumCount =
      (sszBoundedFixedListRef s itemSize maximumCount).map BoundedSszListRef.read := by
  simp only [EvmSail.sszBoundedFixedListRef, sszBoundedFixedListRef, InputRange.length_read]
  split
  · split
    · rfl
    · split <;> rfl
  · rfl

def BodyRegions.read (r : BodyRegions input) : EvmSail.BodyRegions :=
  ⟨r.newPayloadRequest.read, r.executionWitness.read, r.chainConfig.read, r.publicKeys.read⟩

theorem decodeBody_read (s : InputRange input) :
    EvmSail.decodeBody s.read = (decodeBody s).map BodyRegions.read := by
  simp only [EvmSail.decodeBody, decodeBody, map_of_bind, bind_of_map (sszContainerBytes_read _ _),
    bind_of_map (sszTake_read _ _ _), bind_of_map (sszFinish_read _ _), map_ok, sszFieldU32]
  rfl

def PayloadRequestRegions.read (r : PayloadRequestRegions input) :
    EvmSail.PayloadRequestRegions :=
  ⟨r.executionPayload.read, r.versionedHashes.read, r.executionRequests.read⟩

theorem decodePayloadRequest_read (s : InputRange input) :
    EvmSail.decodePayloadRequest s.read =
      (decodePayloadRequest s).map PayloadRequestRegions.read := by
  simp only [EvmSail.decodePayloadRequest, decodePayloadRequest, map_of_bind,
    bind_of_map (sszContainerBytes_read _ _), bind_of_map (sszTake_read _ _ _),
    bind_of_map (sszFinish_read _ _), map_ok, sszFieldU32]
  rfl

def PayloadRegions.read (r : PayloadRegions input) : EvmSail.PayloadRegions :=
  ⟨r.extraData.read, r.transactions.read, r.withdrawals.read, r.blockAccessList.read⟩

theorem decodePayload_read (s : InputRange input) :
    EvmSail.decodePayload s.read = (decodePayload s).map PayloadRegions.read := by
  simp only [EvmSail.decodePayload, decodePayload, map_of_bind,
    bind_of_map (sszContainerBytes_read _ _), bind_of_map (sszTake_read _ _ _),
    bind_of_map (sszFinish_read _ _), bind_of_map (sszBoundedVariableListRef_read _ _ _),
    bind_of_map (sszBoundedFixedListRef_read _ _ _), map_ok, sszFieldU32,
    InputRange.length_read]
  rfl

def RequestRegions.read (r : RequestRegions input) : EvmSail.RequestRegions :=
  ⟨r.deposits.read, r.withdrawalRequests.read, r.consolidationRequests.read,
    r.builderDepositRequests.read, r.builderExitRequests.read⟩

theorem decodeRequests_read (s : InputRange input) :
    EvmSail.decodeRequests s.read = (decodeRequests s).map RequestRegions.read := by
  simp only [EvmSail.decodeRequests, decodeRequests, map_of_bind, bind_of_map (sszTake_read _ _ _),
    bind_of_map (sszFinish_read _ _), map_ok, sszFieldU32]
  rfl

def WitnessRegions.read (r : WitnessRegions input) : EvmSail.WitnessRegions :=
  ⟨r.state.read, r.codes.read, r.headers.read⟩

theorem decodeWitness_read (s : InputRange input) :
    EvmSail.decodeWitness s.read = (decodeWitness s).map WitnessRegions.read := by
  simp only [EvmSail.decodeWitness, decodeWitness, map_of_bind, bind_of_map (sszTake_read _ _ _),
    bind_of_map (sszFinish_read _ _), bind_of_map (sszBoundedVariableListRef_read _ _ _), map_ok,
    sszFieldU32]
  rfl

def StatelessInputRef.read (r : StatelessInputRef input) : EvmSail.StatelessInputRef where
  protocol := r.protocol
  newPayloadRequest := r.newPayloadRequest.read
  executionPayload := r.executionPayload.read
  versionedHashes := r.versionedHashes.read
  deposits := r.deposits.read
  withdrawalRequests := r.withdrawalRequests.read
  consolidationRequests := r.consolidationRequests.read
  builderDepositRequests := r.builderDepositRequests.read
  builderExitRequests := r.builderExitRequests.read
  extraData := r.extraData.read
  transactions := r.transactions.read
  withdrawals := r.withdrawals.read
  blockAccessList := r.blockAccessList.read
  witnessState := r.witnessState.read
  witnessCodes := r.witnessCodes.read
  witnessHeaders := r.witnessHeaders.read
  chainConfig := r.chainConfig.read
  publicKeys := r.publicKeys.read

theorem decodeSchema_length {protocol : ProtocolProfile}
    (h : decodeSchema input = .ok protocol) : 18 ≤ input.length := by
  obtain ⟨_, hlen, -⟩ := bind_eq_ok.mp h
  exact ensure_eq_ok.mp hlen

theorem read_bodyRange (input : List Byte) (h : 18 ≤ input.length) :
    (bodyRange input h).read = sliceSuffix input 2 := by
  rw [bodyRange, InputRange.read_sub, InputRange.read_whole, subSlice, sliceSuffix]
  exact List.take_of_length_le (Nat.le_of_eq List.length_drop)

/-- The slices of the decoder are the bytes of the ranges. -/
theorem decodeStatelessInputRef_read (input : List Byte) :
    EvmSail.decodeStatelessInputRef input =
      (decodeStatelessInputRef input).map StatelessInputRef.read := by
  rw [EvmSail.decodeStatelessInputRef, decodeStatelessInputRef, map_of_bind]
  cases hschema : decodeSchema input with
  | error e => rfl
  | ok protocol =>
    have hlen : 18 ≤ input.length := decodeSchema_length hschema
    simp only [ok_bind, dif_pos hlen, ← read_bodyRange input hlen, map_of_bind,
      bind_of_map (decodeBody_read _), BodyRegions.read,
      bind_of_map (decodePayloadRequest_read _), PayloadRequestRegions.read,
      bind_of_map (decodePayload_read _), PayloadRegions.read,
      bind_of_map (decodeRequests_read _), RequestRegions.read,
      bind_of_map (decodeWitness_read _), WitnessRegions.read,
      bind_of_map (sszBoundedFixedListRef_read _ _ _), map_ok]
    rfl

/-! ## What the containers accept -/

/-- The range `r` goes from `start` to `stop` in `s`. -/
structure Between (s : InputRange input) (start stop : Nat) (r : InputRange input) : Prop where
  bytes : r.bytes = s.bytes + start
  len : start + r.len = stop
  inside : stop ≤ s.len

theorem exists_between (s : InputRange input) {start stop : Nat} (h : start ≤ stop)
    (h' : stop ≤ s.len) : ∃ r, Between s start stop r :=
  ⟨s.sub start (stop - start) (by omega), rfl, Nat.add_sub_cancel' h, h'⟩

/-- The offset at a position of the fixed part. -/
def offsetAt (s : InputRange input) (position : Nat) : Nat := sszU32At s.read position

theorem sszFieldU32_ok {s : InputRange input} {position : Nat} (h : position + 4 ≤ s.len) :
    sszFieldU32 s position = .ok (offsetAt s position) := by
  rw [sszFieldU32, EvmSail.sszFieldU32, InputRange.length_read, if_pos h, offsetAt]

theorem sszFieldU32_eq_ok {s : InputRange input} {position n : Nat}
    (h : sszFieldU32 s position = .ok n) : n = offsetAt s position :=
  EvmSail.sszFieldU32_eq_ok h

theorem sszContainerBytes_ok {s : InputRange input} {minimum : Nat} (h : minimum ≤ s.len) :
    sszContainerBytes s minimum = .ok s := by
  rw [sszContainerBytes, ensure, if_pos h, ok_bind]

theorem sszContainerBytes_eq_ok {s r : InputRange input} {minimum : Nat}
    (h : sszContainerBytes s minimum = .ok r) : r = s ∧ minimum ≤ s.len := by
  obtain ⟨_, hlen, h⟩ := bind_eq_ok.mp h
  cases h
  exact ⟨rfl, ensure_eq_ok.mp hlen⟩

theorem Between.take {s r : InputRange input} {start stop : Nat} (h : Between s start stop r) :
    sszTake ⟨s, start⟩ stop = .ok (r, ⟨s, stop⟩) := by
  have hlen := h.len
  rw [sszTake, dif_pos ⟨(by omega : start ≤ stop), h.inside⟩]
  congr 2
  exact InputRange.ext h.bytes.symm (by simp only [InputRange.sub]; omega)

theorem sszTake_eq_ok {s r : InputRange input} {start stop : Nat}
    {cursor : SszContainerCursor input} (h : sszTake ⟨s, start⟩ stop = .ok (r, cursor)) :
    cursor = ⟨s, stop⟩ ∧ Between s start stop r := by
  rw [sszTake] at h
  split at h
  · rename_i hin
    cases h
    exact ⟨rfl, rfl, Nat.add_sub_cancel' hin.1, hin.2⟩
  · cases h

theorem Between.finish {s r : InputRange input} {start : Nat} (h : Between s start s.len r) :
    sszFinish ⟨s, start⟩ = .ok r := by
  have hlen := h.len
  rw [sszFinish, dif_pos (by omega : start ≤ s.len)]
  congr 1
  exact InputRange.ext h.bytes.symm (by simp only [InputRange.sub]; omega)

theorem sszFinish_eq_ok {s r : InputRange input} {start : Nat}
    (h : sszFinish ⟨s, start⟩ = .ok r) : Between s start s.len r := by
  rw [sszFinish] at h
  split at h
  · rename_i hin
    cases h
    exact ⟨rfl, Nat.add_sub_cancel' hin, Nat.le_refl _⟩
  · cases h

/-- The body's regions and what is checked about them. -/
structure BodyAt (s : InputRange input) (r : BodyRegions input) : Prop where
  fixed : 16 ≤ s.len
  first : offsetAt s 0 = 16
  newPayloadRequest : Between s 16 (offsetAt s 4) r.newPayloadRequest
  executionWitness : Between s (offsetAt s 4) (offsetAt s 8) r.executionWitness
  chainConfig : Between s (offsetAt s 8) (offsetAt s 12) r.chainConfig
  publicKeys : Between s (offsetAt s 12) s.len r.publicKeys
  requestLen : 44 ≤ r.newPayloadRequest.len
  witnessLen : 12 ≤ r.executionWitness.len

theorem decodeBody_eq_ok {s : InputRange input} {r : BodyRegions input} :
    decodeBody s = .ok r ↔ BodyAt s r := by
  constructor
  · intro h
    rw [decodeBody] at h
    obtain ⟨_, hbytes, h⟩ := bind_eq_ok.mp h
    obtain ⟨o₀, h₀, h⟩ := bind_eq_ok.mp h
    obtain ⟨o₁, h₁, h⟩ := bind_eq_ok.mp h
    obtain ⟨o₂, h₂, h⟩ := bind_eq_ok.mp h
    obtain ⟨o₃, h₃, h⟩ := bind_eq_ok.mp h
    obtain ⟨_, hfirst, h⟩ := bind_eq_ok.mp h
    obtain ⟨⟨r₀, c₀⟩, t₀, h⟩ := bind_eq_ok.mp h
    obtain ⟨_, hrequest, h⟩ := bind_eq_ok.mp h
    obtain ⟨⟨r₁, c₁⟩, t₁, h⟩ := bind_eq_ok.mp h
    obtain ⟨_, hwitness, h⟩ := bind_eq_ok.mp h
    obtain ⟨⟨r₂, c₂⟩, t₂, h⟩ := bind_eq_ok.mp h
    obtain ⟨r₃, t₃, h⟩ := bind_eq_ok.mp h
    cases h
    obtain ⟨rfl, hfixed⟩ := sszContainerBytes_eq_ok hbytes
    cases sszFieldU32_eq_ok h₀
    cases sszFieldU32_eq_ok h₁
    cases sszFieldU32_eq_ok h₂
    cases sszFieldU32_eq_ok h₃
    obtain ⟨rfl, b₀⟩ := sszTake_eq_ok t₀
    obtain ⟨rfl, hrequest⟩ := sszContainerBytes_eq_ok hrequest
    obtain ⟨rfl, b₁⟩ := sszTake_eq_ok t₁
    obtain ⟨rfl, hwitness⟩ := sszContainerBytes_eq_ok hwitness
    obtain ⟨rfl, b₂⟩ := sszTake_eq_ok t₂
    exact ⟨hfixed, ensure_eq_ok.mp hfirst, b₀, b₁, b₂, sszFinish_eq_ok t₃, hrequest, hwitness⟩
  · intro h
    have hfixed := h.fixed
    simp (disch := omega) only [decodeBody, sszContainerBytes_ok, sszFieldU32_ok, ensure,
      h.first, if_true, ok_bind, h.newPayloadRequest.take, h.executionWitness.take,
      h.chainConfig.take, h.publicKeys.finish, sszContainerBytes_ok h.requestLen,
      sszContainerBytes_ok h.witnessLen]

structure PayloadRequestAt (s : InputRange input) (r : PayloadRequestRegions input) : Prop where
  first : offsetAt s 0 = 44
  executionPayload : Between s 44 (offsetAt s 4) r.executionPayload
  versionedHashes : Between s (offsetAt s 4) (offsetAt s 40) r.versionedHashes
  executionRequests : Between s (offsetAt s 40) s.len r.executionRequests
  requestsLen : 20 ≤ r.executionRequests.len

theorem decodePayloadRequest_eq_ok {s : InputRange input} {r : PayloadRequestRegions input}
    (hfixed : 44 ≤ s.len) : decodePayloadRequest s = .ok r ↔ PayloadRequestAt s r := by
  constructor
  · intro h
    rw [decodePayloadRequest] at h
    obtain ⟨o₀, h₀, h⟩ := bind_eq_ok.mp h
    obtain ⟨o₁, h₁, h⟩ := bind_eq_ok.mp h
    obtain ⟨o₂, h₂, h⟩ := bind_eq_ok.mp h
    obtain ⟨_, hfirst, h⟩ := bind_eq_ok.mp h
    obtain ⟨⟨r₀, c₀⟩, t₀, h⟩ := bind_eq_ok.mp h
    obtain ⟨⟨r₁, c₁⟩, t₁, h⟩ := bind_eq_ok.mp h
    obtain ⟨r₂, t₂, h⟩ := bind_eq_ok.mp h
    obtain ⟨_, hrequests, h⟩ := bind_eq_ok.mp h
    cases h
    cases sszFieldU32_eq_ok h₀
    cases sszFieldU32_eq_ok h₁
    cases sszFieldU32_eq_ok h₂
    obtain ⟨rfl, b₀⟩ := sszTake_eq_ok t₀
    obtain ⟨rfl, b₁⟩ := sszTake_eq_ok t₁
    obtain ⟨rfl, hrequests⟩ := sszContainerBytes_eq_ok hrequests
    exact ⟨ensure_eq_ok.mp hfirst, b₀, b₁, sszFinish_eq_ok t₂, hrequests⟩
  · intro h
    simp (disch := omega) only [decodePayloadRequest, sszFieldU32_ok, ensure, h.first, if_true,
      ok_bind, h.executionPayload.take, h.versionedHashes.take, h.executionRequests.finish,
      sszContainerBytes_ok h.requestsLen]

structure PayloadAt (s : InputRange input) (transactionBytes withdrawalBytes : InputRange input)
    (r : PayloadRegions input) : Prop where
  fixed : 540 ≤ s.len
  first : offsetAt s 436 = 540
  extraData : Between s 540 (offsetAt s 504) r.extraData
  transactionSpan : Between s (offsetAt s 504) (offsetAt s 508) transactionBytes
  withdrawalSpan : Between s (offsetAt s 508) (offsetAt s 528) withdrawalBytes
  blockAccessList : Between s (offsetAt s 528) s.len r.blockAccessList
  transactions : sszBoundedVariableListRef transactionBytes transactionCountBound
    maxTransactionLength = .ok r.transactions
  withdrawals : sszBoundedFixedListRef withdrawalBytes 44 withdrawalCountBound = .ok r.withdrawals
  extraDataLen : r.extraData.len ≤ extraDataLengthBound
  blockAccessListLen : r.blockAccessList.len ≤ blockAccessListLengthBound

theorem decodePayload_eq_ok {s : InputRange input} {r : PayloadRegions input} :
    decodePayload s = .ok r ↔
      ∃ transactionBytes withdrawalBytes, PayloadAt s transactionBytes withdrawalBytes r := by
  constructor
  · intro h
    rw [decodePayload] at h
    obtain ⟨_, hbytes, h⟩ := bind_eq_ok.mp h
    obtain ⟨o₀, h₀, h⟩ := bind_eq_ok.mp h
    obtain ⟨o₁, h₁, h⟩ := bind_eq_ok.mp h
    obtain ⟨o₂, h₂, h⟩ := bind_eq_ok.mp h
    obtain ⟨o₃, h₃, h⟩ := bind_eq_ok.mp h
    obtain ⟨_, hfirst, h⟩ := bind_eq_ok.mp h
    obtain ⟨⟨r₀, c₀⟩, t₀, h⟩ := bind_eq_ok.mp h
    obtain ⟨⟨r₁, c₁⟩, t₁, h⟩ := bind_eq_ok.mp h
    obtain ⟨transactions, htransactions, h⟩ := bind_eq_ok.mp h
    obtain ⟨⟨r₂, c₂⟩, t₂, h⟩ := bind_eq_ok.mp h
    obtain ⟨withdrawals, hwithdrawals, h⟩ := bind_eq_ok.mp h
    obtain ⟨r₃, t₃, h⟩ := bind_eq_ok.mp h
    obtain ⟨_, hextra, h⟩ := bind_eq_ok.mp h
    obtain ⟨_, haccess, h⟩ := bind_eq_ok.mp h
    cases h
    obtain ⟨rfl, hfixed⟩ := sszContainerBytes_eq_ok hbytes
    cases sszFieldU32_eq_ok h₀
    cases sszFieldU32_eq_ok h₁
    cases sszFieldU32_eq_ok h₂
    cases sszFieldU32_eq_ok h₃
    obtain ⟨rfl, b₀⟩ := sszTake_eq_ok t₀
    obtain ⟨rfl, b₁⟩ := sszTake_eq_ok t₁
    obtain ⟨rfl, b₂⟩ := sszTake_eq_ok t₂
    exact ⟨r₁, r₂, hfixed, ensure_eq_ok.mp hfirst, b₀, b₁, b₂, sszFinish_eq_ok t₃, htransactions,
      hwithdrawals, ensure_eq_ok.mp hextra, ensure_eq_ok.mp haccess⟩
  · rintro ⟨transactionBytes, withdrawalBytes, h⟩
    have hfixed := h.fixed
    simp (disch := omega) only [decodePayload, sszContainerBytes_ok, sszFieldU32_ok, ensure,
      h.first, if_true, ok_bind, h.extraData.take, h.transactionSpan.take, h.transactions,
      h.withdrawalSpan.take, h.withdrawals, h.blockAccessList.finish, h.extraDataLen,
      h.blockAccessListLen]

structure RequestsAt (s : InputRange input) (r : RequestRegions input) : Prop where
  first : offsetAt s 0 = 20
  deposits : Between s 20 (offsetAt s 4) r.deposits
  withdrawalRequests : Between s (offsetAt s 4) (offsetAt s 8) r.withdrawalRequests
  consolidationRequests : Between s (offsetAt s 8) (offsetAt s 12) r.consolidationRequests
  builderDepositRequests : Between s (offsetAt s 12) (offsetAt s 16) r.builderDepositRequests
  builderExitRequests : Between s (offsetAt s 16) s.len r.builderExitRequests

theorem decodeRequests_eq_ok {s : InputRange input} {r : RequestRegions input}
    (hfixed : 20 ≤ s.len) : decodeRequests s = .ok r ↔ RequestsAt s r := by
  constructor
  · intro h
    rw [decodeRequests] at h
    obtain ⟨o₀, h₀, h⟩ := bind_eq_ok.mp h
    obtain ⟨o₁, h₁, h⟩ := bind_eq_ok.mp h
    obtain ⟨o₂, h₂, h⟩ := bind_eq_ok.mp h
    obtain ⟨o₃, h₃, h⟩ := bind_eq_ok.mp h
    obtain ⟨o₄, h₄, h⟩ := bind_eq_ok.mp h
    obtain ⟨_, hfirst, h⟩ := bind_eq_ok.mp h
    obtain ⟨⟨r₀, c₀⟩, t₀, h⟩ := bind_eq_ok.mp h
    obtain ⟨⟨r₁, c₁⟩, t₁, h⟩ := bind_eq_ok.mp h
    obtain ⟨⟨r₂, c₂⟩, t₂, h⟩ := bind_eq_ok.mp h
    obtain ⟨⟨r₃, c₃⟩, t₃, h⟩ := bind_eq_ok.mp h
    obtain ⟨r₄, t₄, h⟩ := bind_eq_ok.mp h
    cases h
    cases sszFieldU32_eq_ok h₀
    cases sszFieldU32_eq_ok h₁
    cases sszFieldU32_eq_ok h₂
    cases sszFieldU32_eq_ok h₃
    cases sszFieldU32_eq_ok h₄
    obtain ⟨rfl, b₀⟩ := sszTake_eq_ok t₀
    obtain ⟨rfl, b₁⟩ := sszTake_eq_ok t₁
    obtain ⟨rfl, b₂⟩ := sszTake_eq_ok t₂
    obtain ⟨rfl, b₃⟩ := sszTake_eq_ok t₃
    exact ⟨ensure_eq_ok.mp hfirst, b₀, b₁, b₂, b₃, sszFinish_eq_ok t₄⟩
  · intro h
    simp (disch := omega) only [decodeRequests, sszFieldU32_ok, ensure, h.first, if_true, ok_bind,
      h.deposits.take, h.withdrawalRequests.take, h.consolidationRequests.take,
      h.builderDepositRequests.take, h.builderExitRequests.finish]

structure WitnessAt (s : InputRange input) (stateBytes codeBytes headerBytes : InputRange input)
    (r : WitnessRegions input) : Prop where
  first : offsetAt s 0 = 12
  stateSpan : Between s 12 (offsetAt s 4) stateBytes
  codeSpan : Between s (offsetAt s 4) (offsetAt s 8) codeBytes
  headerSpan : Between s (offsetAt s 8) s.len headerBytes
  state : sszBoundedVariableListRef stateBytes witnessNodeCountBound maxWitnessNodeLength =
    .ok r.state
  codes : sszBoundedVariableListRef codeBytes witnessCodeCountBound maxWitnessCodeLength =
    .ok r.codes
  headers : sszBoundedVariableListRef headerBytes witnessHeaderCountBound
    maxWitnessHeaderLength = .ok r.headers

theorem decodeWitness_eq_ok {s : InputRange input} {r : WitnessRegions input}
    (hfixed : 12 ≤ s.len) : decodeWitness s = .ok r ↔
      ∃ stateBytes codeBytes headerBytes, WitnessAt s stateBytes codeBytes headerBytes r := by
  constructor
  · intro h
    rw [decodeWitness] at h
    obtain ⟨o₀, h₀, h⟩ := bind_eq_ok.mp h
    obtain ⟨o₁, h₁, h⟩ := bind_eq_ok.mp h
    obtain ⟨o₂, h₂, h⟩ := bind_eq_ok.mp h
    obtain ⟨_, hfirst, h⟩ := bind_eq_ok.mp h
    obtain ⟨⟨r₀, c₀⟩, t₀, h⟩ := bind_eq_ok.mp h
    obtain ⟨state, hstate, h⟩ := bind_eq_ok.mp h
    obtain ⟨⟨r₁, c₁⟩, t₁, h⟩ := bind_eq_ok.mp h
    obtain ⟨codes, hcodes, h⟩ := bind_eq_ok.mp h
    obtain ⟨r₂, t₂, h⟩ := bind_eq_ok.mp h
    obtain ⟨headers, hheaders, h⟩ := bind_eq_ok.mp h
    cases h
    cases sszFieldU32_eq_ok h₀
    cases sszFieldU32_eq_ok h₁
    cases sszFieldU32_eq_ok h₂
    obtain ⟨rfl, b₀⟩ := sszTake_eq_ok t₀
    obtain ⟨rfl, b₁⟩ := sszTake_eq_ok t₁
    exact ⟨r₀, r₁, r₂, ensure_eq_ok.mp hfirst, b₀, b₁, sszFinish_eq_ok t₂, hstate, hcodes,
      hheaders⟩
  · rintro ⟨stateBytes, codeBytes, headerBytes, h⟩
    simp (disch := omega) only [decodeWitness, sszFieldU32_ok, ensure, h.first, if_true, ok_bind,
      h.stateSpan.take, h.state, h.codeSpan.take, h.codes, h.headerSpan.finish, h.headers]

end Ranged

end EvmSail
