/-
# `EvmSail.Optimised.StatelessInput` — the optimised input decoder

The optimised host resolves the offset tables of the stateless input with
pointers and 32-bit lengths: a span is a pointer and a `uint32_t`, its
length is a difference that may wrap, and an offset table is checked as a
whole before any of its regions is looked at.  The order of the checks is
not that of the specification.

`decodeStatelessInputRef_optimised` says that none of this shows.  On every
input the two decoders accept or reject together, and every region and
every count is the same.  In particular no load leaves the input: a load
outside it, which C does not define, stops the model with `assertFailed`,
and the specification never stops so.
-/
import EvmSail.Ssz.Ranges

namespace EvmSail.Optimised

open Fallible

/-! ## Spans -/

/-- `struct Bytes`: a pointer into the input and a length. -/
structure Bytes where
  bytes : Nat
  len : BitVec 32
  deriving DecidableEq, Repr

/-- `struct BoundedSszListRef`. -/
structure BoundedSszListRef where
  bytes : Bytes
  count : BitVec 32
  maxItemLength : BitVec 32
  deriving DecidableEq, Repr

section Loads

variable (input : List Byte)

def loadByte (pointer : Nat) : Result Byte :=
  match input[pointer]? with
  | some b => .ok b
  | none => .error .assertFailed

def loadLeU32 (pointer : Nat) : Result (BitVec 32) := do
  let b0 ← loadByte input pointer
  let b1 ← loadByte input (pointer + 1)
  let b2 ← loadByte input (pointer + 2)
  let b3 ← loadByte input (pointer + 3)
  .ok (b0.zeroExtend 32 ||| b1.zeroExtend 32 <<< 8 ||| b2.zeroExtend 32 <<< 16 |||
    b3.zeroExtend 32 <<< 24)

end Loads

def sourceSpan (container : Bytes) (start stop : BitVec 32) : Bytes :=
  ⟨container.bytes + start.toNat, stop - start⟩

/-- The loop of `offsets_ordered`, from its index 1 on. -/
def offsetsFollow (length : BitVec 32) : BitVec 32 → List (BitVec 32) → Bool
  | _, [] => true
  | previous, offset :: offsets =>
    if length < offset ∨ offset < previous then false else offsetsFollow length offset offsets

def offsetsOrdered (offset : BitVec 32) (offsets : List (BitVec 32)) (first length : BitVec 32) :
    Bool :=
  if offset ≠ first then false else offsetsFollow length offset offsets

/-! ## Lists

`variable_list_ref` and `fixed_list_ref` return whether they accept, and
every caller turns `false` into `fatal_error(InvalidConfig)` at once. -/

def variableListCount (input : List Byte) (bytes : Bytes) : Result (BitVec 32) :=
  if bytes.len ≠ 0 then
    if bytes.len < 4 then fatalError .invalidConfig
    else do
      let firstOffset ← loadLeU32 input bytes.bytes
      if firstOffset = 0 ∨ firstOffset &&& 3 ≠ 0 ∨ bytes.len < firstOffset then
        fatalError .invalidConfig
      else .ok (firstOffset / 4)
  else .ok 0

def variableListRef (input : List Byte) (bytes : Bytes)
    (maximumCount maximumItemLength : BitVec 32) : Result BoundedSszListRef := do
  let count ← variableListCount input bytes
  if maximumCount < count then fatalError .invalidConfig
  else .ok ⟨bytes, count, maximumItemLength⟩

def fixedListRef (bytes : Bytes) (width maximumCount : BitVec 32) : Result BoundedSszListRef :=
  if bytes.len % width ≠ 0 then fatalError .invalidConfig
  else
    let count := bytes.len / width
    if maximumCount < count then fatalError .invalidConfig
    else .ok ⟨bytes, count, width⟩

/-! ## The decoder -/

def maxTransactions : BitVec 32 := 1 <<< 20
def maxTransactionLength : BitVec 32 := 1 <<< 30
def maxWithdrawals : BitVec 32 := 1 <<< 4
def maxExtraDataLength : BitVec 32 := 1 <<< 5
def maxBlockAccessListLength : BitVec 32 := 1 <<< 30
def maxBlobCommitments : BitVec 32 := 1 <<< 12
def maxWitnessNodes : BitVec 32 := 1 <<< 22
def maxWitnessNodeLength : BitVec 32 := 1 <<< 10
def maxWitnessCodes : BitVec 32 := 1 <<< 18
def maxWitnessCodeLength : BitVec 32 := 1 <<< 16
def maxWitnessHeaders : BitVec 32 := 1 <<< 8
def maxWitnessHeaderLength : BitVec 32 := 1 <<< 10
def maxPublicKeys : BitVec 32 := 1 <<< 15

/-- `struct StatelessInputRef`. -/
structure StatelessInputRef where
  protocol : ProtocolProfile
  newPayloadRequest : Bytes
  executionPayload : Bytes
  versionedHashes : Bytes
  deposits : Bytes
  withdrawalRequests : Bytes
  consolidationRequests : Bytes
  builderDepositRequests : Bytes
  builderExitRequests : Bytes
  extraData : Bytes
  transactions : BoundedSszListRef
  withdrawals : BoundedSszListRef
  blockAccessList : Bytes
  witnessState : BoundedSszListRef
  witnessCodes : BoundedSszListRef
  witnessHeaders : BoundedSszListRef
  chainConfig : Bytes
  publicKeys : Bytes

structure BodySpans where
  newPayloadRequest : Bytes
  witness : Bytes
  chainConfig : Bytes
  publicKeys : Bytes

structure PayloadRequestSpans where
  executionPayload : Bytes
  versionedHashes : Bytes
  requests : Bytes

structure PayloadSpans where
  extraData : Bytes
  transactions : BoundedSszListRef
  withdrawals : BoundedSszListRef
  blockAccessList : Bytes

structure RequestSpans where
  deposits : Bytes
  withdrawalRequests : Bytes
  consolidationRequests : Bytes
  builderDepositRequests : Bytes
  builderExitRequests : Bytes

structure WitnessSpans where
  state : BoundedSszListRef
  codes : BoundedSszListRef
  headers : BoundedSszListRef

section Decoder

variable (input : List Byte)

/-- The schema prefix.  A null source has length zero. -/
def schemaProfile (source : Bytes) : Result ProtocolProfile := do
  ensure (18 ≤ source.len)
  let version ← loadByte input (source.bytes + 1)
  ensure (version = 0x01)
  let schemaFork ← loadByte input source.bytes
  ensure (0x0a ≤ schemaFork ∧ schemaFork ≤ 0x15)
  schemaProtocolProfile schemaFork

def bodySpans (body : Bytes) : Result BodySpans := do
  let o₀ ← loadLeU32 input body.bytes
  let o₁ ← loadLeU32 input (body.bytes + 4)
  let o₂ ← loadLeU32 input (body.bytes + 8)
  let o₃ ← loadLeU32 input (body.bytes + 12)
  ensure (offsetsOrdered o₀ [o₁, o₂, o₃] 16 body.len = true)
  .ok ⟨sourceSpan body o₀ o₁, sourceSpan body o₁ o₂, sourceSpan body o₂ o₃,
    sourceSpan body o₃ body.len⟩

def payloadRequestSpans (newPayloadRequest : Bytes) : Result PayloadRequestSpans := do
  ensure (44 ≤ newPayloadRequest.len)
  let o₀ ← loadLeU32 input newPayloadRequest.bytes
  let o₁ ← loadLeU32 input (newPayloadRequest.bytes + 4)
  let o₂ ← loadLeU32 input (newPayloadRequest.bytes + 40)
  ensure (offsetsOrdered o₀ [o₁, o₂] 44 newPayloadRequest.len = true)
  .ok ⟨sourceSpan newPayloadRequest o₀ o₁, sourceSpan newPayloadRequest o₁ o₂,
    sourceSpan newPayloadRequest o₂ newPayloadRequest.len⟩

def payloadSpans (executionPayload : Bytes) : Result PayloadSpans := do
  ensure (540 ≤ executionPayload.len)
  let o₀ ← loadLeU32 input (executionPayload.bytes + 436)
  let o₁ ← loadLeU32 input (executionPayload.bytes + 504)
  let o₂ ← loadLeU32 input (executionPayload.bytes + 508)
  let o₃ ← loadLeU32 input (executionPayload.bytes + 528)
  ensure (offsetsOrdered o₀ [o₁, o₂, o₃] 540 executionPayload.len = true)
  let extraData := sourceSpan executionPayload o₀ o₁
  let transactions := sourceSpan executionPayload o₁ o₂
  let withdrawals := sourceSpan executionPayload o₂ o₃
  let blockAccessList := sourceSpan executionPayload o₃ executionPayload.len
  ensure (extraData.len ≤ maxExtraDataLength)
  ensure (blockAccessList.len ≤ maxBlockAccessListLength)
  let transactions ← variableListRef input transactions maxTransactions maxTransactionLength
  let withdrawals ← fixedListRef withdrawals 44 maxWithdrawals
  .ok ⟨extraData, transactions, withdrawals, blockAccessList⟩

def requestSpans (requests : Bytes) : Result RequestSpans := do
  ensure (20 ≤ requests.len)
  let o₀ ← loadLeU32 input requests.bytes
  let o₁ ← loadLeU32 input (requests.bytes + 4)
  let o₂ ← loadLeU32 input (requests.bytes + 8)
  let o₃ ← loadLeU32 input (requests.bytes + 12)
  let o₄ ← loadLeU32 input (requests.bytes + 16)
  ensure (offsetsOrdered o₀ [o₁, o₂, o₃, o₄] 20 requests.len = true)
  .ok ⟨sourceSpan requests o₀ o₁, sourceSpan requests o₁ o₂, sourceSpan requests o₂ o₃,
    sourceSpan requests o₃ o₄, sourceSpan requests o₄ requests.len⟩

def witnessSpans (witness : Bytes) : Result WitnessSpans := do
  ensure (12 ≤ witness.len)
  let o₀ ← loadLeU32 input witness.bytes
  let o₁ ← loadLeU32 input (witness.bytes + 4)
  let o₂ ← loadLeU32 input (witness.bytes + 8)
  ensure (offsetsOrdered o₀ [o₁, o₂] 12 witness.len = true)
  let state ← variableListRef input (sourceSpan witness o₀ o₁) maxWitnessNodes
    maxWitnessNodeLength
  let codes ← variableListRef input (sourceSpan witness o₁ o₂) maxWitnessCodes
    maxWitnessCodeLength
  let headers ← variableListRef input (sourceSpan witness o₂ witness.len) maxWitnessHeaders
    maxWitnessHeaderLength
  .ok ⟨state, codes, headers⟩

/-- `decode_stateless_input_ref`, on the span of the whole input. -/
def decodeStatelessInputRef (source : Bytes) : Result StatelessInputRef := do
  let protocol ← schemaProfile input source
  let body ← bodySpans input (sourceSpan source 2 source.len)
  let request ← payloadRequestSpans input body.newPayloadRequest
  let payload ← payloadSpans input request.executionPayload
  let requests ← requestSpans input request.requests
  let witness ← witnessSpans input body.witness
  ensure (body.publicKeys.len % 65 = 0)
  ensure (body.publicKeys.len / 65 ≤ maxPublicKeys)
  let _ ← fixedListRef request.versionedHashes 32 maxBlobCommitments
  .ok
    { protocol := protocol
      newPayloadRequest := body.newPayloadRequest
      executionPayload := request.executionPayload
      versionedHashes := request.versionedHashes
      deposits := requests.deposits
      withdrawalRequests := requests.withdrawalRequests
      consolidationRequests := requests.consolidationRequests
      builderDepositRequests := requests.builderDepositRequests
      builderExitRequests := requests.builderExitRequests
      extraData := payload.extraData
      transactions := payload.transactions
      withdrawals := payload.withdrawals
      blockAccessList := payload.blockAccessList
      witnessState := witness.state
      witnessCodes := witness.codes
      witnessHeaders := witness.headers
      chainConfig := body.chainConfig
      publicKeys := body.publicKeys }

end Decoder

/-! ## Ranges as spans -/

section Spans

variable {input : List Byte}

def Bytes.of (s : InputRange input) : Bytes := ⟨s.bytes, BitVec.ofNat 32 s.len⟩

def BoundedSszListRef.of (items : Ranged.BoundedSszListRef input) : BoundedSszListRef :=
  ⟨.of items.bytes, BitVec.ofNat 32 items.count, BitVec.ofNat 32 items.maxItemLength⟩

/-- An offset as C loads it. -/
def offsetWord (s : InputRange input) (position : Nat) : BitVec 32 :=
  BitVec.ofNat 32 (Ranged.offsetAt s position)

theorem toNat_offsetWord (s : InputRange input) (position : Nat) :
    (offsetWord s position).toNat = Ranged.offsetAt s position := by
  rw [offsetWord, BitVec.toNat_ofNat, Nat.mod_eq_of_lt]
  rw [Ranged.offsetAt, sszU32At]
  exact BitVec.isLt _

theorem loadByte_of (s : InputRange input) {i : Nat} (h : i < s.len) :
    loadByte input ((Bytes.of s).bytes + i) = .ok (sliceByte s.read i) := by
  rw [loadByte, Bytes.of, s.sliceByte_read h]

/-- A load inside a range is the offset that the range has there. -/
theorem loadLeU32_of (s : InputRange input) {i : Nat} (h : i + 4 ≤ s.len) :
    loadLeU32 input ((Bytes.of s).bytes + i) = .ok (offsetWord s i) := by
  have h₀ := loadByte_of s (show i < s.len by omega)
  have h₁ := loadByte_of s (show i + 1 < s.len by omega)
  have h₂ := loadByte_of s (show i + 2 < s.len by omega)
  have h₃ := loadByte_of s (show i + 3 < s.len by omega)
  simp only [loadLeU32, Nat.add_assoc, h₀, h₁, h₂, h₃, ok_bind]
  rw [offsetWord, Ranged.offsetAt, sszU32At, BitVec.ofNat_toNat, BitVec.setWidth_eq,
    BitVec.or_assoc, BitVec.or_assoc]

section Bounded

variable (hlen : input.length < 2 ^ 32)

include hlen

theorem toNat_len (s : InputRange input) : (Bytes.of s).len.toNat = s.len := by
  have := s.valid
  exact Nat.mod_eq_of_lt (by omega)

/-- The difference of the ends of a range does not wrap. -/
theorem sourceSpan_of {s r : InputRange input} {start stop : Nat}
    (h : Ranged.Between s start stop r) :
    sourceSpan (.of s) (BitVec.ofNat 32 start) (BitVec.ofNat 32 stop) = .of r := by
  obtain ⟨hbytes, rfl, hinside⟩ := h
  have hvalid := s.valid
  rw [sourceSpan, Bytes.of, Bytes.of, hbytes, BitVec.toNat_ofNat, Nat.mod_eq_of_lt (by omega),
    BitVec.ofNat_add, BitVec.add_comm, BitVec.add_sub_cancel]

end Bounded

/-- From `start` on the offsets do not descend and stay within `stop`. -/
def Follows (stop : Nat) : Nat → List Nat → Prop
  | _, [] => True
  | start, offset :: offsets => (start ≤ offset ∧ offset ≤ stop) ∧ Follows stop offset offsets

theorem offsetsFollow_iff (length : BitVec 32) (offsets : List (BitVec 32)) :
    ∀ previous, offsetsFollow length previous offsets = true ↔
      Follows length.toNat previous.toNat (offsets.map BitVec.toNat) := by
  induction offsets with
  | nil =>
    intro previous
    exact iff_of_true rfl trivial
  | cons offset offsets ih =>
    intro previous
    rw [offsetsFollow, List.map_cons, Follows]
    split
    · rename_i hout
      refine iff_of_false Bool.false_ne_true ?_
      rintro ⟨⟨hprevious, hlength⟩, -⟩
      rcases hout with hout | hout
      · exact absurd hlength (Nat.not_le.mpr hout)
      · exact absurd hprevious (Nat.not_le.mpr hout)
    · rename_i hin
      obtain ⟨hlength, hprevious⟩ := not_or.mp hin
      rw [ih offset]
      exact (and_iff_right ⟨Nat.not_lt.mp hprevious, Nat.not_lt.mp hlength⟩).symm

theorem offsetsOrdered_iff (hlen : input.length < 2 ^ 32) (s : InputRange input) {first : Nat}
    (hfirst : first < 2 ^ 32) (position : Nat) (positions : List Nat) :
    offsetsOrdered (offsetWord s position) (positions.map (offsetWord s))
        (BitVec.ofNat 32 first) (Bytes.of s).len = true ↔
      Ranged.offsetAt s position = first ∧
        Follows s.len first (positions.map (Ranged.offsetAt s)) := by
  have hword : offsetWord s position = BitVec.ofNat 32 first ↔
      Ranged.offsetAt s position = first := by
    rw [← BitVec.toNat_inj, toNat_offsetWord, BitVec.toNat_ofNat, Nat.mod_eq_of_lt hfirst]
  have hoffsets : (positions.map (offsetWord s)).map BitVec.toNat =
      positions.map (Ranged.offsetAt s) := by
    rw [List.map_map]
    exact List.map_congr_left fun position _ => toNat_offsetWord s position
  rw [offsetsOrdered]
  split
  · rename_i hne
    refine iff_of_false Bool.false_ne_true ?_
    rintro ⟨heq, -⟩
    exact hne (hword.mpr heq)
  · rename_i heq
    rw [offsetsFollow_iff, toNat_offsetWord, hoffsets, toNat_len hlen]
    have hstart := hword.mp (not_not.mp heq)
    rw [hstart, and_iff_right rfl]

/-! ## The lists -/

theorem ofNat_le_iff {a : Nat} {bound : BitVec 32} (ha : a < 2 ^ 32) :
    BitVec.ofNat 32 a ≤ bound ↔ a ≤ bound.toNat := by
  rw [BitVec.le_def, BitVec.toNat_ofNat, Nat.mod_eq_of_lt ha]

theorem lt_ofNat_iff {a : Nat} {bound : BitVec 32} (ha : a < 2 ^ 32) :
    bound < BitVec.ofNat 32 a ↔ bound.toNat < a := by
  rw [BitVec.lt_def, BitVec.toNat_ofNat, Nat.mod_eq_of_lt ha]

theorem and_three_eq_zero {a : Nat} (ha : a < 2 ^ 32) :
    BitVec.ofNat 32 a &&& 3 = 0 ↔ a % 4 = 0 := by
  have hand : (BitVec.ofNat 32 a &&& 3).toNat = a % 4 := by
    rw [BitVec.toNat_and, BitVec.toNat_ofNat, Nat.mod_eq_of_lt ha]
    exact Nat.and_two_pow_sub_one_eq_mod a 2
  rw [← BitVec.toNat_inj, hand]
  rfl

theorem ofNat_div {a : Nat} (ha : a < 2 ^ 32) (width : BitVec 32) :
    BitVec.ofNat 32 a / width = BitVec.ofNat 32 (a / width.toNat) := by
  apply BitVec.eq_of_toNat_eq
  have hle : a / width.toNat ≤ a := Nat.div_le_self _ _
  rw [BitVec.toNat_udiv, BitVec.toNat_ofNat, BitVec.toNat_ofNat, Nat.mod_eq_of_lt ha,
    Nat.mod_eq_of_lt (by omega)]

section Lists

variable (hlen : input.length < 2 ^ 32)

include hlen

theorem ofNat_len_ne_zero (s : InputRange input) :
    (Bytes.of s).len = 0 ↔ s.len = 0 := by
  rw [← BitVec.toNat_inj, toNat_len hlen]
  rfl

/-- Both decoders read the same count off the first offset. -/
theorem variableListCount_of (s : InputRange input) :
    variableListCount input (.of s) = (sszRawCount s.read).map (BitVec.ofNat 32) := by
  have hin := s.valid
  have hfirst : Ranged.offsetAt s 0 < 2 ^ 32 := by
    rw [← toNat_offsetWord]
    exact BitVec.isLt _
  rw [variableListCount, sszRawCount]
  simp only [InputRange.length_read, ne_eq, ofNat_len_ne_zero hlen, ite_not]
  split
  · rfl
  · have hlt : (Bytes.of s).len < 4 ↔ s.len < 4 := by
      rw [BitVec.lt_def, toNat_len hlen]
      rfl
    simp only [hlt]
    split
    · rfl
    · have hload := loadLeU32_of s (show 0 + 4 ≤ s.len by omega)
      have hzero : offsetWord s 0 = 0 ↔ Ranged.offsetAt s 0 = 0 := by
        rw [← BitVec.toNat_inj, toNat_offsetWord]
        rfl
      have hmask : offsetWord s 0 &&& 3 = 0 ↔ Ranged.offsetAt s 0 % 4 = 0 :=
        and_three_eq_zero hfirst
      have hpast : (Bytes.of s).len < offsetWord s 0 ↔ s.len < Ranged.offsetAt s 0 := by
        rw [BitVec.lt_def, toNat_len hlen, toNat_offsetWord]
      have hcond : (offsetWord s 0 = 0 ∨ ¬ offsetWord s 0 &&& 3 = 0 ∨
            (Bytes.of s).len < offsetWord s 0) ↔
          (¬ sszU32At s.read 0 % 4 = 0 ∨ sszU32At s.read 0 / 4 = 0 ∨
            sszU32At s.read 0 > s.len) := by
        rw [hzero, hmask, hpast, Ranged.offsetAt]
        omega
      rw [Nat.add_zero] at hload
      simp only [hload, ok_bind, hcond]
      split
      · rfl
      · exact congrArg Except.ok (ofNat_div hfirst 4)

omit hlen in
theorem sszRawCount_le {bytes : List Byte} {n : Nat} (h : sszRawCount bytes = .ok n) :
    n ≤ bytes.length := by
  simp only [sszRawCount] at h
  split at h
  · cases h
    exact Nat.zero_le _
  · split at h
    · cases h
    · split at h
      · cases h
      · rename_i hok
        cases h
        omega

/-- Both decoders accept a list of variable-size items by its first offset. -/
theorem variableListRef_of (s : InputRange input) (maximumCount maximumLength : BitVec 32) :
    variableListRef input (.of s) maximumCount maximumLength =
      (Ranged.sszBoundedVariableListRef s maximumCount.toNat maximumLength.toNat).map .of := by
  have hmax : BitVec.ofNat 32 maximumLength.toNat = maximumLength := by
    rw [BitVec.ofNat_toNat, BitVec.setWidth_eq]
  rw [variableListRef, variableListCount_of hlen, Ranged.sszBoundedVariableListRef]
  cases hcount : sszRawCount s.read with
  | error e => rfl
  | ok n =>
    have hle := sszRawCount_le hcount
    have hin := s.valid
    rw [InputRange.length_read] at hle
    rw [Ranged.map_ok, ok_bind, ok_bind]
    simp only [lt_ofNat_iff (show n < 2 ^ 32 by omega)]
    split
    · rename_i hmany
      rw [if_neg (Nat.not_le.mpr hmany)]
      rfl
    · rename_i hfew
      rw [if_pos (Nat.not_lt.mp hfew), Ranged.map_ok, BoundedSszListRef.of, hmax]

theorem fixedListRef_of (s : InputRange input) (width maximumCount : BitVec 32)
    (hwidth : 0 < width.toNat) :
    fixedListRef (.of s) width maximumCount =
      (Ranged.sszBoundedFixedListRef s width.toNat maximumCount.toNat).map .of := by
  have hin := s.valid
  have hslen : s.len < 2 ^ 32 := by omega
  have hmax : BitVec.ofNat 32 width.toNat = width := by
    rw [BitVec.ofNat_toNat, BitVec.setWidth_eq]
  have hcount : (Bytes.of s).len / width = BitVec.ofNat 32 (s.len / width.toNat) :=
    ofNat_div hslen width
  have hrest : (Bytes.of s).len % width = 0 ↔ s.len = s.len / width.toNat * width.toNat := by
    have hsplit := Nat.div_add_mod' s.len width.toNat
    rw [← BitVec.toNat_inj, BitVec.toNat_umod, toNat_len hlen]
    show s.len % width.toNat = 0 ↔ _
    omega
  have hle : s.len / width.toNat ≤ s.len := Nat.div_le_self _ _
  simp only [fixedListRef, Ranged.sszBoundedFixedListRef, if_pos hwidth, ne_eq, hrest, hcount,
    lt_ofNat_iff (show s.len / width.toNat < 2 ^ 32 by omega)]
  split
  · rfl
  · split
    · rename_i hmany
      rw [if_neg (Nat.not_le.mpr hmany)]
      rfl
    · rename_i hfew
      rw [if_pos (Nat.not_lt.mp hfew), Ranged.map_ok, BoundedSszListRef.of, hmax]

theorem transactionListRef_of (s : InputRange input) :
    variableListRef input (.of s) maxTransactions maxTransactionLength =
      (Ranged.sszBoundedVariableListRef s transactionCountBound EvmSail.maxTransactionLength).map
        .of :=
  variableListRef_of hlen s maxTransactions maxTransactionLength

theorem withdrawalListRef_of (s : InputRange input) :
    fixedListRef (.of s) 44 maxWithdrawals =
      (Ranged.sszBoundedFixedListRef s 44 withdrawalCountBound).map .of :=
  fixedListRef_of hlen s 44 maxWithdrawals (by decide)

theorem hashListRef_of (s : InputRange input) :
    fixedListRef (.of s) 32 maxBlobCommitments =
      (Ranged.sszBoundedFixedListRef s 32 blobCommitmentCountBound).map .of :=
  fixedListRef_of hlen s 32 maxBlobCommitments (by decide)

theorem nodeListRef_of (s : InputRange input) :
    variableListRef input (.of s) maxWitnessNodes maxWitnessNodeLength =
      (Ranged.sszBoundedVariableListRef s witnessNodeCountBound
        EvmSail.maxWitnessNodeLength).map .of :=
  variableListRef_of hlen s maxWitnessNodes maxWitnessNodeLength

theorem codeListRef_of (s : InputRange input) :
    variableListRef input (.of s) maxWitnessCodes maxWitnessCodeLength =
      (Ranged.sszBoundedVariableListRef s witnessCodeCountBound
        EvmSail.maxWitnessCodeLength).map .of :=
  variableListRef_of hlen s maxWitnessCodes maxWitnessCodeLength

theorem headerListRef_of (s : InputRange input) :
    variableListRef input (.of s) maxWitnessHeaders maxWitnessHeaderLength =
      (Ranged.sszBoundedVariableListRef s witnessHeaderCountBound
        EvmSail.maxWitnessHeaderLength).map .of :=
  variableListRef_of hlen s maxWitnessHeaders maxWitnessHeaderLength

omit hlen in
theorem ends_of_map {α β γ : Type} {x : Result α} {y : Result β} {f : α → β} {g : α → γ}
    {z : Result γ} (hy : y = x.map f) (hz : z = x.map g) {P : γ → Prop} (h : Ends P Rejected z) :
    Ends (fun b => ∃ a, x = .ok a ∧ b = f a) Rejected y := by
  cases x with
  | ok a =>
    cases hy
    exact ⟨a, rfl, rfl⟩
  | error e =>
    cases hy
    cases hz
    exact h

end Lists

/-! ## The containers -/

def BodySpans.of (r : Ranged.BodyRegions input) : BodySpans :=
  ⟨.of r.newPayloadRequest, .of r.executionWitness, .of r.chainConfig, .of r.publicKeys⟩

def PayloadRequestSpans.of (r : Ranged.PayloadRequestRegions input) : PayloadRequestSpans :=
  ⟨.of r.executionPayload, .of r.versionedHashes, .of r.executionRequests⟩

def PayloadSpans.of (r : Ranged.PayloadRegions input) : PayloadSpans :=
  ⟨.of r.extraData, .of r.transactions, .of r.withdrawals, .of r.blockAccessList⟩

def RequestSpans.of (r : Ranged.RequestRegions input) : RequestSpans :=
  ⟨.of r.deposits, .of r.withdrawalRequests, .of r.consolidationRequests,
    .of r.builderDepositRequests, .of r.builderExitRequests⟩

def WitnessSpans.of (r : Ranged.WitnessRegions input) : WitnessSpans :=
  ⟨.of r.state, .of r.codes, .of r.headers⟩

section Containers

variable (hlen : input.length < 2 ^ 32)

include hlen

theorem le_len_iff (s : InputRange input) (minimum : BitVec 32) :
    minimum ≤ (Bytes.of s).len ↔ minimum.toNat ≤ s.len := by
  rw [BitVec.le_def, toNat_len hlen]

omit hlen in
theorem within_of_between {s r : InputRange input} {start stop : Nat}
    (h : Ranged.Between s start stop r) : start ≤ stop ∧ stop ≤ s.len :=
  ⟨by have := h.len; omega, h.inside⟩

theorem span_of {s r : InputRange input} {i j : Nat}
    (h : Ranged.Between s (Ranged.offsetAt s i) (Ranged.offsetAt s j) r) :
    sourceSpan (.of s) (offsetWord s i) (offsetWord s j) = .of r :=
  sourceSpan_of hlen h

theorem span_first {s r : InputRange input} {first i j : Nat} (hfirst : Ranged.offsetAt s i = first)
    (h : Ranged.Between s first (Ranged.offsetAt s j) r) :
    sourceSpan (.of s) (offsetWord s i) (offsetWord s j) = .of r := by
  cases hfirst
  exact sourceSpan_of hlen h

theorem span_last {s r : InputRange input} {i : Nat}
    (h : Ranged.Between s (Ranged.offsetAt s i) s.len r) :
    sourceSpan (.of s) (offsetWord s i) (Bytes.of s).len = .of r :=
  sourceSpan_of hlen h

theorem bodySpans_of {s : InputRange input} {r : Ranged.BodyRegions input}
    (h : Ranged.BodyAt s r) : bodySpans input (.of s) = .ok (.of r) := by
  have hfixed := h.fixed
  have hordered : offsetsOrdered (offsetWord s 0) [offsetWord s 4, offsetWord s 8,
      offsetWord s 12] 16 (Bytes.of s).len = true :=
    (offsetsOrdered_iff hlen s (show 16 < 2 ^ 32 by decide) 0 [4, 8, 12]).mpr
      ⟨h.first, within_of_between h.newPayloadRequest, within_of_between h.executionWitness,
        within_of_between h.chainConfig, trivial⟩
  have hload := loadLeU32_of s (show 0 + 4 ≤ s.len by omega)
  rw [Nat.add_zero] at hload
  simp only [bodySpans, hload, loadLeU32_of s (show 4 + 4 ≤ s.len by omega),
    loadLeU32_of s (show 8 + 4 ≤ s.len by omega), loadLeU32_of s (show 12 + 4 ≤ s.len by omega),
    ok_bind, hordered, ensure, if_true, span_first hlen h.first h.newPayloadRequest,
    span_of hlen h.executionWitness, span_of hlen h.chainConfig, span_last hlen h.publicKeys]
  rfl

theorem bodySpans_ends {s : InputRange input} (hfixed : 16 ≤ s.len) :
    Ends (fun c => ∃ r : Ranged.BodyRegions input, c = .of r ∧
        (44 ≤ r.newPayloadRequest.len → 12 ≤ r.executionWitness.len → Ranged.BodyAt s r))
      Rejected (bodySpans input (.of s)) := by
  have hload := loadLeU32_of s (show 0 + 4 ≤ s.len by omega)
  rw [Nat.add_zero] at hload
  simp only [bodySpans, hload, loadLeU32_of s (show 4 + 4 ≤ s.len by omega),
    loadLeU32_of s (show 8 + 4 ≤ s.len by omega), loadLeU32_of s (show 12 + 4 ≤ s.len by omega),
    ok_bind]
  refine ensure_ends.bind fun _ hordered => ?_
  obtain ⟨hfirst, ⟨ho₁, hi₁⟩, ⟨ho₂, hi₂⟩, ⟨ho₃, hi₃⟩, -⟩ :=
    (offsetsOrdered_iff hlen s (show 16 < 2 ^ 32 by decide) 0 [4, 8, 12]).mp hordered
  obtain ⟨r₀, b₀⟩ := Ranged.exists_between s ho₁ hi₁
  obtain ⟨r₁, b₁⟩ := Ranged.exists_between s ho₂ hi₂
  obtain ⟨r₂, b₂⟩ := Ranged.exists_between s ho₃ hi₃
  obtain ⟨r₃, b₃⟩ := Ranged.exists_between s hi₃ (Nat.le_refl _)
  refine ⟨⟨r₀, r₁, r₂, r₃⟩, ?_, fun h₀ h₁ => ⟨hfixed, hfirst, b₀, b₁, b₂, b₃, h₀, h₁⟩⟩
  rw [span_first hlen hfirst b₀, span_of hlen b₁, span_of hlen b₂, span_last hlen b₃]
  rfl

theorem payloadRequestSpans_of {s : InputRange input} {r : Ranged.PayloadRequestRegions input}
    (hfixed : 44 ≤ s.len) (h : Ranged.PayloadRequestAt s r) :
    payloadRequestSpans input (.of s) = .ok (.of r) := by
  have hordered : offsetsOrdered (offsetWord s 0) [offsetWord s 4, offsetWord s 40] 44
      (Bytes.of s).len = true :=
    (offsetsOrdered_iff hlen s (show 44 < 2 ^ 32 by decide) 0 [4, 40]).mpr
      ⟨h.first, within_of_between h.executionPayload, within_of_between h.versionedHashes,
        trivial⟩
  have hload := loadLeU32_of s (show 0 + 4 ≤ s.len by omega)
  rw [Nat.add_zero] at hload
  have hmin := (le_len_iff hlen s 44).mpr hfixed
  simp only [payloadRequestSpans, hmin, hload, loadLeU32_of s (show 4 + 4 ≤ s.len by omega),
    loadLeU32_of s (show 40 + 4 ≤ s.len by omega), ok_bind, hordered, ensure, if_true,
    span_first hlen h.first h.executionPayload, span_of hlen h.versionedHashes,
    span_last hlen h.executionRequests]
  rfl

theorem payloadRequestSpans_ends (s : InputRange input) :
    Ends (fun c => 44 ≤ s.len ∧ ∃ r : Ranged.PayloadRequestRegions input, c = .of r ∧
        (20 ≤ r.executionRequests.len → Ranged.PayloadRequestAt s r))
      Rejected (payloadRequestSpans input (.of s)) := by
  refine ensure_ends.bind fun _ hmin => ?_
  have hfixed := (le_len_iff hlen s 44).mp hmin
  replace hfixed : 44 ≤ s.len := hfixed
  have hload := loadLeU32_of s (show 0 + 4 ≤ s.len by omega)
  rw [Nat.add_zero] at hload
  simp only [hload, loadLeU32_of s (show 4 + 4 ≤ s.len by omega),
    loadLeU32_of s (show 40 + 4 ≤ s.len by omega), ok_bind]
  refine ensure_ends.bind fun _ hordered => ?_
  obtain ⟨hfirst, ⟨ho₁, hi₁⟩, ⟨ho₂, hi₂⟩, -⟩ :=
    (offsetsOrdered_iff hlen s (show 44 < 2 ^ 32 by decide) 0 [4, 40]).mp hordered
  obtain ⟨r₀, b₀⟩ := Ranged.exists_between s ho₁ hi₁
  obtain ⟨r₁, b₁⟩ := Ranged.exists_between s ho₂ hi₂
  obtain ⟨r₂, b₂⟩ := Ranged.exists_between s hi₂ (Nat.le_refl _)
  refine ⟨hfixed, ⟨r₀, r₁, r₂⟩, ?_, fun h₀ => ⟨hfirst, b₀, b₁, b₂, h₀⟩⟩
  rw [span_first hlen hfirst b₀, span_of hlen b₁, span_last hlen b₂]
  rfl

theorem requestSpans_of {s : InputRange input} {r : Ranged.RequestRegions input}
    (hfixed : 20 ≤ s.len) (h : Ranged.RequestsAt s r) :
    requestSpans input (.of s) = .ok (.of r) := by
  have hordered : offsetsOrdered (offsetWord s 0) [offsetWord s 4, offsetWord s 8,
      offsetWord s 12, offsetWord s 16] 20 (Bytes.of s).len = true :=
    (offsetsOrdered_iff hlen s (show 20 < 2 ^ 32 by decide) 0 [4, 8, 12, 16]).mpr
      ⟨h.first, within_of_between h.deposits, within_of_between h.withdrawalRequests,
        within_of_between h.consolidationRequests, within_of_between h.builderDepositRequests,
        trivial⟩
  have hload := loadLeU32_of s (show 0 + 4 ≤ s.len by omega)
  rw [Nat.add_zero] at hload
  have hmin := (le_len_iff hlen s 20).mpr hfixed
  simp only [requestSpans, hmin, hload, loadLeU32_of s (show 4 + 4 ≤ s.len by omega),
    loadLeU32_of s (show 8 + 4 ≤ s.len by omega), loadLeU32_of s (show 12 + 4 ≤ s.len by omega),
    loadLeU32_of s (show 16 + 4 ≤ s.len by omega), ok_bind, hordered, ensure, if_true,
    span_first hlen h.first h.deposits, span_of hlen h.withdrawalRequests,
    span_of hlen h.consolidationRequests, span_of hlen h.builderDepositRequests,
    span_last hlen h.builderExitRequests]
  rfl

theorem requestSpans_ends (s : InputRange input) :
    Ends (fun c => 20 ≤ s.len ∧ ∃ r : Ranged.RequestRegions input, c = .of r ∧
        Ranged.RequestsAt s r)
      Rejected (requestSpans input (.of s)) := by
  refine ensure_ends.bind fun _ hmin => ?_
  have hfixed := (le_len_iff hlen s 20).mp hmin
  replace hfixed : 20 ≤ s.len := hfixed
  have hload := loadLeU32_of s (show 0 + 4 ≤ s.len by omega)
  rw [Nat.add_zero] at hload
  simp only [hload, loadLeU32_of s (show 4 + 4 ≤ s.len by omega),
    loadLeU32_of s (show 8 + 4 ≤ s.len by omega), loadLeU32_of s (show 12 + 4 ≤ s.len by omega),
    loadLeU32_of s (show 16 + 4 ≤ s.len by omega), ok_bind]
  refine ensure_ends.bind fun _ hordered => ?_
  obtain ⟨hfirst, ⟨ho₁, hi₁⟩, ⟨ho₂, hi₂⟩, ⟨ho₃, hi₃⟩, ⟨ho₄, hi₄⟩, -⟩ :=
    (offsetsOrdered_iff hlen s (show 20 < 2 ^ 32 by decide) 0 [4, 8, 12, 16]).mp hordered
  obtain ⟨r₀, b₀⟩ := Ranged.exists_between s ho₁ hi₁
  obtain ⟨r₁, b₁⟩ := Ranged.exists_between s ho₂ hi₂
  obtain ⟨r₂, b₂⟩ := Ranged.exists_between s ho₃ hi₃
  obtain ⟨r₃, b₃⟩ := Ranged.exists_between s ho₄ hi₄
  obtain ⟨r₄, b₄⟩ := Ranged.exists_between s hi₄ (Nat.le_refl _)
  refine ⟨hfixed, ⟨r₀, r₁, r₂, r₃, r₄⟩, ?_, ⟨hfirst, b₀, b₁, b₂, b₃, b₄⟩⟩
  rw [span_first hlen hfirst b₀, span_of hlen b₁, span_of hlen b₂, span_of hlen b₃,
    span_last hlen b₄]
  rfl

theorem len_le_iff (s : InputRange input) (maximum : BitVec 32) :
    (Bytes.of s).len ≤ maximum ↔ s.len ≤ maximum.toNat := by
  rw [BitVec.le_def, toNat_len hlen]

theorem payloadSpans_of {s t w : InputRange input} {r : Ranged.PayloadRegions input}
    (h : Ranged.PayloadAt s t w r) : payloadSpans input (.of s) = .ok (.of r) := by
  have hfixed := h.fixed
  have hordered : offsetsOrdered (offsetWord s 436) [offsetWord s 504, offsetWord s 508,
      offsetWord s 528] 540 (Bytes.of s).len = true :=
    (offsetsOrdered_iff hlen s (show 540 < 2 ^ 32 by decide) 436 [504, 508, 528]).mpr
      ⟨h.first, within_of_between h.extraData, within_of_between h.transactionSpan,
        within_of_between h.withdrawalSpan, trivial⟩
  have hmin := (le_len_iff hlen s 540).mpr hfixed
  have hextra := (len_le_iff hlen r.extraData maxExtraDataLength).mpr h.extraDataLen
  have haccess := (len_le_iff hlen r.blockAccessList maxBlockAccessListLength).mpr
    h.blockAccessListLen
  simp only [payloadSpans, hmin, loadLeU32_of s (show 436 + 4 ≤ s.len by omega),
    loadLeU32_of s (show 504 + 4 ≤ s.len by omega), loadLeU32_of s (show 508 + 4 ≤ s.len by omega),
    loadLeU32_of s (show 528 + 4 ≤ s.len by omega), ok_bind, hordered, ensure, if_true,
    span_first hlen h.first h.extraData, span_of hlen h.transactionSpan,
    span_of hlen h.withdrawalSpan, span_last hlen h.blockAccessList, hextra, haccess,
    transactionListRef_of hlen, withdrawalListRef_of hlen, h.transactions, h.withdrawals,
    Ranged.map_ok]
  rfl

theorem payloadSpans_ends (s : InputRange input) :
    Ends (fun c => ∃ (r : Ranged.PayloadRegions input) (t w : InputRange input), c = .of r ∧
        Ranged.PayloadAt s t w r)
      Rejected (payloadSpans input (.of s)) := by
  refine ensure_ends.bind fun _ hmin => ?_
  have hfixed := (le_len_iff hlen s 540).mp hmin
  replace hfixed : 540 ≤ s.len := hfixed
  simp only [loadLeU32_of s (show 436 + 4 ≤ s.len by omega),
    loadLeU32_of s (show 504 + 4 ≤ s.len by omega), loadLeU32_of s (show 508 + 4 ≤ s.len by omega),
    loadLeU32_of s (show 528 + 4 ≤ s.len by omega), ok_bind]
  refine ensure_ends.bind fun _ hordered => ?_
  obtain ⟨hfirst, ⟨ho₁, hi₁⟩, ⟨ho₂, hi₂⟩, ⟨ho₃, hi₃⟩, -⟩ :=
    (offsetsOrdered_iff hlen s (show 540 < 2 ^ 32 by decide) 436 [504, 508, 528]).mp hordered
  obtain ⟨r₀, b₀⟩ := Ranged.exists_between s ho₁ hi₁
  obtain ⟨r₁, b₁⟩ := Ranged.exists_between s ho₂ hi₂
  obtain ⟨r₂, b₂⟩ := Ranged.exists_between s ho₃ hi₃
  obtain ⟨r₃, b₃⟩ := Ranged.exists_between s hi₃ (Nat.le_refl _)
  rw [span_first hlen hfirst b₀, span_of hlen b₁, span_of hlen b₂, span_last hlen b₃]
  refine ensure_ends.bind fun _ hextra => ensure_ends.bind fun _ haccess => ?_
  refine (ends_of_map (transactionListRef_of hlen r₁)
    (Ranged.sszBoundedVariableListRef_read r₁ _ _) sszBoundedVariableListRef_ends).bind ?_
  rintro _ ⟨transactions, htransactions, rfl⟩
  refine (ends_of_map (withdrawalListRef_of hlen r₂)
    (Ranged.sszBoundedFixedListRef_read r₂ _ _) sszBoundedFixedListRef_ends).bind ?_
  rintro _ ⟨withdrawals, hwithdrawals, rfl⟩
  exact ⟨⟨r₀, transactions, withdrawals, r₃⟩, r₁, r₂, rfl, hfixed, hfirst, b₀, b₁, b₂, b₃,
    htransactions, hwithdrawals, (len_le_iff hlen r₀ maxExtraDataLength).mp hextra,
    (len_le_iff hlen r₃ maxBlockAccessListLength).mp haccess⟩

theorem witnessSpans_of {s state codes headers : InputRange input}
    {r : Ranged.WitnessRegions input} (hfixed : 12 ≤ s.len)
    (h : Ranged.WitnessAt s state codes headers r) :
    witnessSpans input (.of s) = .ok (.of r) := by
  have hordered : offsetsOrdered (offsetWord s 0) [offsetWord s 4, offsetWord s 8] 12
      (Bytes.of s).len = true :=
    (offsetsOrdered_iff hlen s (show 12 < 2 ^ 32 by decide) 0 [4, 8]).mpr
      ⟨h.first, within_of_between h.stateSpan, within_of_between h.codeSpan, trivial⟩
  have hload := loadLeU32_of s (show 0 + 4 ≤ s.len by omega)
  rw [Nat.add_zero] at hload
  have hmin := (le_len_iff hlen s 12).mpr hfixed
  simp only [witnessSpans, hmin, hload, loadLeU32_of s (show 4 + 4 ≤ s.len by omega),
    loadLeU32_of s (show 8 + 4 ≤ s.len by omega), ok_bind, hordered, ensure, if_true,
    span_first hlen h.first h.stateSpan, span_of hlen h.codeSpan, span_last hlen h.headerSpan,
    nodeListRef_of hlen, codeListRef_of hlen, headerListRef_of hlen, h.state, h.codes, h.headers,
    Ranged.map_ok]
  rfl

theorem witnessSpans_ends (s : InputRange input) :
    Ends (fun c => 12 ≤ s.len ∧ ∃ (r : Ranged.WitnessRegions input)
        (state codes headers : InputRange input), c = .of r ∧
          Ranged.WitnessAt s state codes headers r)
      Rejected (witnessSpans input (.of s)) := by
  refine ensure_ends.bind fun _ hmin => ?_
  have hfixed := (le_len_iff hlen s 12).mp hmin
  replace hfixed : 12 ≤ s.len := hfixed
  have hload := loadLeU32_of s (show 0 + 4 ≤ s.len by omega)
  rw [Nat.add_zero] at hload
  simp only [hload, loadLeU32_of s (show 4 + 4 ≤ s.len by omega),
    loadLeU32_of s (show 8 + 4 ≤ s.len by omega), ok_bind]
  refine ensure_ends.bind fun _ hordered => ?_
  obtain ⟨hfirst, ⟨ho₁, hi₁⟩, ⟨ho₂, hi₂⟩, -⟩ :=
    (offsetsOrdered_iff hlen s (show 12 < 2 ^ 32 by decide) 0 [4, 8]).mp hordered
  obtain ⟨r₀, b₀⟩ := Ranged.exists_between s ho₁ hi₁
  obtain ⟨r₁, b₁⟩ := Ranged.exists_between s ho₂ hi₂
  obtain ⟨r₂, b₂⟩ := Ranged.exists_between s hi₂ (Nat.le_refl _)
  rw [span_first hlen hfirst b₀, span_of hlen b₁, span_last hlen b₂]
  refine (ends_of_map (nodeListRef_of hlen r₀)
    (Ranged.sszBoundedVariableListRef_read r₀ _ _) sszBoundedVariableListRef_ends).bind ?_
  rintro _ ⟨state, hstate, rfl⟩
  refine (ends_of_map (codeListRef_of hlen r₁)
    (Ranged.sszBoundedVariableListRef_read r₁ _ _) sszBoundedVariableListRef_ends).bind ?_
  rintro _ ⟨codes, hcodes, rfl⟩
  refine (ends_of_map (headerListRef_of hlen r₂)
    (Ranged.sszBoundedVariableListRef_read r₂ _ _) sszBoundedVariableListRef_ends).bind ?_
  rintro _ ⟨headers, hheaders, rfl⟩
  exact ⟨hfixed, ⟨state, codes, headers⟩, r₀, r₁, r₂, rfl, hfirst, b₀, b₁, b₂, hstate, hcodes,
    hheaders⟩

omit hlen in
theorem forwardsMatches_iff (b : Byte) :
    schemaProtocolProfileForwardsMatches b = true ↔ 0x0a ≤ b ∧ b ≤ 0x15 := by
  revert b
  decide

theorem schemaProfile_of : schemaProfile input (.of (.whole input)) = decodeSchema input := by
  have hmin : 18 ≤ (Bytes.of (InputRange.whole input)).len ↔ 18 ≤ input.length :=
    le_len_iff hlen (.whole input) 18
  simp only [schemaProfile, decodeSchema, ensure, hmin]
  split
  · rename_i hfixed
    have h₁ := loadByte_of (.whole input) (show 1 < (InputRange.whole input).len from by
      simp only [InputRange.whole]; omega)
    have h₀ := loadByte_of (.whole input) (show 0 < (InputRange.whole input).len from by
      simp only [InputRange.whole]; omega)
    rw [InputRange.read_whole] at h₀ h₁
    rw [Nat.add_zero] at h₀
    simp only [h₀, h₁, ok_bind, forwardsMatches_iff]
  · rfl

/-- The two decoders' checks of the public keys. -/
theorem publicKeys_iff (s : InputRange input) :
    ((Bytes.of s).len % 65 = 0 ∧ (Bytes.of s).len / 65 ≤ maxPublicKeys) ↔
      s.len = s.len / 65 * 65 ∧ s.len / 65 ≤ publicKeyCountBound := by
  have hin := s.valid
  have hsplit := Nat.div_add_mod' s.len 65
  have hcount : (Bytes.of s).len / 65 = BitVec.ofNat 32 (s.len / 65) :=
    ofNat_div (show s.len < 2 ^ 32 by omega) 65
  have hbound : BitVec.ofNat 32 (s.len / 65) ≤ maxPublicKeys ↔ s.len / 65 ≤ publicKeyCountBound :=
    ofNat_le_iff (show s.len / 65 < 2 ^ 32 by omega)
  have hrest : (Bytes.of s).len % 65 = 0 ↔ s.len = s.len / 65 * 65 := by
    rw [← BitVec.toNat_inj, BitVec.toNat_umod, toNat_len hlen]
    show s.len % 65 = 0 ↔ _
    omega
  rw [hcount, hbound, hrest]

theorem span_body (h : 18 ≤ input.length) :
    sourceSpan (.of (.whole input)) 2 (Bytes.of (InputRange.whole input)).len =
      .of (Ranged.bodyRange input h) := by
  have hbetween : Ranged.Between (.whole input) 2 input.length (Ranged.bodyRange input h) :=
    ⟨rfl, Nat.add_sub_cancel' (by omega), Nat.le_refl _⟩
  exact sourceSpan_of hlen hbetween

end Containers

/-! ## The whole input -/

def StatelessInputRef.of (r : Ranged.StatelessInputRef input) : StatelessInputRef where
  protocol := r.protocol
  newPayloadRequest := .of r.newPayloadRequest
  executionPayload := .of r.executionPayload
  versionedHashes := .of r.versionedHashes
  deposits := .of r.deposits
  withdrawalRequests := .of r.withdrawalRequests
  consolidationRequests := .of r.consolidationRequests
  builderDepositRequests := .of r.builderDepositRequests
  builderExitRequests := .of r.builderExitRequests
  extraData := .of r.extraData
  transactions := .of r.transactions
  withdrawals := .of r.withdrawals
  blockAccessList := .of r.blockAccessList
  witnessState := .of r.witnessState
  witnessCodes := .of r.witnessCodes
  witnessHeaders := .of r.witnessHeaders
  chainConfig := .of r.chainConfig
  publicKeys := .of r.publicKeys

/-- What the specification accepts, the optimised decoder accepts. -/
theorem decodeStatelessInputRef_of (hlen : input.length < 2 ^ 32)
    {r : Ranged.StatelessInputRef input} (h : Ranged.decodeStatelessInputRef input = .ok r) :
    decodeStatelessInputRef input (.of (.whole input)) = .ok (.of r) := by
  rw [Ranged.decodeStatelessInputRef] at h
  obtain ⟨protocol, hschema, h⟩ := bind_eq_ok.mp h
  have hfixed := Ranged.decodeSchema_length hschema
  rw [dif_pos hfixed] at h
  obtain ⟨body, hbody, h⟩ := bind_eq_ok.mp h
  obtain ⟨request, hrequest, h⟩ := bind_eq_ok.mp h
  obtain ⟨payload, hpayload, h⟩ := bind_eq_ok.mp h
  obtain ⟨requests, hrequests, h⟩ := bind_eq_ok.mp h
  obtain ⟨witness, hwitness, h⟩ := bind_eq_ok.mp h
  obtain ⟨_, hkeys, h⟩ := bind_eq_ok.mp h
  obtain ⟨hashes, hhashes, h⟩ := bind_eq_ok.mp h
  cases h
  have bodyAt := Ranged.decodeBody_eq_ok.mp hbody
  have requestAt := (Ranged.decodePayloadRequest_eq_ok bodyAt.requestLen).mp hrequest
  obtain ⟨t, w, payloadAt⟩ := Ranged.decodePayload_eq_ok.mp hpayload
  have requestsAt := (Ranged.decodeRequests_eq_ok requestAt.requestsLen).mp hrequests
  obtain ⟨s, c, d, witnessAt⟩ := (Ranged.decodeWitness_eq_ok bodyAt.witnessLen).mp hwitness
  obtain ⟨_, hwhole, hcount⟩ := bind_eq_ok.mp hkeys
  obtain ⟨hrest, hmany⟩ := (publicKeys_iff hlen body.publicKeys).mpr
    ⟨by simpa only [InputRange.length_read] using ensure_eq_ok.mp hwhole,
      by simpa only [InputRange.length_read] using ensure_eq_ok.mp hcount⟩
  simp only [decodeStatelessInputRef, schemaProfile_of hlen, hschema, ok_bind,
    span_body hlen hfixed, bodySpans_of hlen bodyAt, BodySpans.of,
    payloadRequestSpans_of hlen bodyAt.requestLen requestAt, PayloadRequestSpans.of,
    payloadSpans_of hlen payloadAt, requestSpans_of hlen requestAt.requestsLen requestsAt,
    witnessSpans_of hlen bodyAt.witnessLen witnessAt, ensure, if_pos hrest, if_pos hmany,
    hashListRef_of hlen, hhashes, Ranged.map_ok]
  rfl

/-- What the optimised decoder accepts, the specification accepts; every
other input is rejected, and no load leaves it. -/
theorem decodeStatelessInputRef_ends (hlen : input.length < 2 ^ 32) :
    Ends (fun _ => ∃ r, Ranged.decodeStatelessInputRef input = .ok r) Rejected
      (decodeStatelessInputRef input (.of (.whole input))) := by
  rw [decodeStatelessInputRef, schemaProfile_of hlen]
  cases hschema : decodeSchema input with
  | error e => exact decodeSchema_ends.of_error hschema
  | ok protocol =>
    have hfixed := Ranged.decodeSchema_length hschema
    rw [ok_bind, span_body hlen hfixed]
    have hbodyLen : 16 ≤ (Ranged.bodyRange input hfixed).len := by
      simp only [Ranged.bodyRange, InputRange.sub]
      omega
    refine (bodySpans_ends hlen hbodyLen).bind ?_
    rintro _ ⟨body, rfl, bodyAt⟩
    refine (payloadRequestSpans_ends hlen body.newPayloadRequest).bind ?_
    rintro _ ⟨hrequestLen, request, rfl, requestAt⟩
    refine (payloadSpans_ends hlen request.executionPayload).bind ?_
    rintro _ ⟨payload, t, w, rfl, payloadAt⟩
    refine (requestSpans_ends hlen request.executionRequests).bind ?_
    rintro _ ⟨hrequestsLen, requests, rfl, requestsAt⟩
    refine (witnessSpans_ends hlen body.executionWitness).bind ?_
    rintro _ ⟨hwitnessLen, witness, s, c, d, rfl, witnessAt⟩
    refine ensure_ends.bind fun _ hrest => ensure_ends.bind fun _ hmany => ?_
    refine (ends_of_map (hashListRef_of hlen request.versionedHashes)
      (Ranged.sszBoundedFixedListRef_read _ _ _) sszBoundedFixedListRef_ends).bind ?_
    rintro _ ⟨hashes, hhashes, rfl⟩
    obtain ⟨hwhole, hcount⟩ := (publicKeys_iff hlen body.publicKeys).mp ⟨hrest, hmany⟩
    refine ⟨?_, ?_⟩
    swap
    · rw [Ranged.decodeStatelessInputRef, hschema, ok_bind, dif_pos hfixed,
        Ranged.decodeBody_eq_ok.mpr (bodyAt hrequestLen hwitnessLen), ok_bind,
        (Ranged.decodePayloadRequest_eq_ok hrequestLen).mpr (requestAt hrequestsLen), ok_bind,
        Ranged.decodePayload_eq_ok.mpr ⟨t, w, payloadAt⟩, ok_bind,
        (Ranged.decodeRequests_eq_ok hrequestsLen).mpr requestsAt, ok_bind,
        (Ranged.decodeWitness_eq_ok hwitnessLen).mpr ⟨s, c, d, witnessAt⟩, ok_bind]
      simp only [checkPublicKeys, ensure, InputRange.length_read, if_pos hwhole, if_pos hcount,
        ok_bind, hhashes]
      rfl

/-- On every input the optimised decoder does what the specification does:
it accepts the same inputs, and every region is the same range and every
list has the same count and the same limit. -/
theorem decodeStatelessInputRef_optimised (input : List Byte) (hlen : input.length < 2 ^ 32) :
    decodeStatelessInputRef input ⟨0, BitVec.ofNat 32 input.length⟩ =
      (Ranged.decodeStatelessInputRef input).map StatelessInputRef.of := by
  have hends := decodeStatelessInputRef_ends hlen
  cases hspec : Ranged.decodeStatelessInputRef input with
  | ok r => exact decodeStatelessInputRef_of hlen hspec
  | error e =>
    have hrejected : Rejected e := by
      have h := EvmSail.decodeStatelessInputRef_ends input
      rw [Ranged.decodeStatelessInputRef_read, hspec] at h
      exact h
    cases hopt : decodeStatelessInputRef input (.of (.whole input)) with
    | ok c =>
      obtain ⟨r, hr⟩ := hends.of_ok hopt
      rw [hspec] at hr
      cases hr
    | error e' =>
      have hrejected' : Rejected e' := hends.of_error hopt
      cases hrejected
      cases hrejected'
      exact hopt

end Spans

/-- An Amsterdam input without transactions, withdrawals, requests, witness
entries or keys. -/
def smallestInput : List Byte :=
  let zeros (n : Nat) : List Byte := List.replicate n 0
  let payload := zeros 436 ++ u32Bytes 540 ++ zeros 64 ++ u32Bytes 540 ++ u32Bytes 540 ++
    zeros 16 ++ u32Bytes 540 ++ zeros 8
  let requests := u32Bytes 20 ++ u32Bytes 20 ++ u32Bytes 20 ++ u32Bytes 20 ++ u32Bytes 20
  let request := u32Bytes 44 ++ u32Bytes 584 ++ zeros 32 ++ u32Bytes 584 ++ payload ++ requests
  let witness := u32Bytes 12 ++ u32Bytes 12 ++ u32Bytes 12
  [0x15, 0x01] ++ u32Bytes 16 ++ u32Bytes 620 ++ u32Bytes 632 ++ u32Bytes 632 ++ request ++
    witness

/-- Both decoders accept the smallest input. -/
theorem decodeStatelessInputRef_optimised_smallest :
    decodeStatelessInputRef smallestInput ⟨0, BitVec.ofNat 32 smallestInput.length⟩ =
        (Ranged.decodeStatelessInputRef smallestInput).map StatelessInputRef.of ∧
      (decodeStatelessInputRef smallestInput ⟨0, 634⟩).isOk = true :=
  ⟨decodeStatelessInputRef_optimised smallestInput (by decide +kernel), by decide +kernel⟩

end EvmSail.Optimised
