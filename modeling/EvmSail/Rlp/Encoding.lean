/-
# `EvmSail.Rlp.Encoding` — Recursive Length Prefix writers

The size functions and the writers of the source, with the bytes a writer
appends to the scratch arena as its result.  How full the arena is does
not enter: a reservation is taken to succeed, and an encoding that could
not be addressed in the region at all is rejected by
`rlpScratchLengthAdd`.

`rlpBytes` and `rlpList` are Appendix B of the Yellow Paper for one byte
string and for one list over an already encoded payload; the writers emit
exactly these (`rlpWriteSlice_eq`, `rlpWriteListPrefix_append`), and every
size function is the length of what its writer emits.
-/
import EvmSail.Prelude

namespace EvmSail

open Fallible

/-! ## The encoding -/

/-- The header of a string (`band = 0x80`) or list (`band = 0xc0`) of
`len` payload bytes. -/
def rlpHeader (band len : Nat) : List Byte :=
  if len ≤ 55 then [BitVec.ofNat 8 (band + len)]
  else BitVec.ofNat 8 (band + 55 + byteLength len) :: bigEndian len

/-- The encoding of a byte string. -/
def rlpBytes (b : List Byte) : List Byte :=
  match b with
  | [x] => if x.toNat < 0x80 then [x] else rlpHeader 0x80 1 ++ [x]
  | b => rlpHeader 0x80 b.length ++ b

/-- The encoding of a list with the given encoded items. -/
def rlpList (payload : List Byte) : List Byte :=
  rlpHeader 0xc0 payload.length ++ payload

/-- A byte string that is its own encoding. -/
def SelfEncoded (b : List Byte) : Prop := ∃ x : Byte, b = [x] ∧ x.toNat < 0x80

theorem rlpBytes_of_selfEncoded {b : List Byte} (h : SelfEncoded b) : rlpBytes b = b := by
  obtain ⟨x, rfl, hx⟩ := h
  simp [rlpBytes, hx]

theorem rlpBytes_of_not_selfEncoded {b : List Byte} (h : ¬ SelfEncoded b) :
    rlpBytes b = rlpHeader 0x80 b.length ++ b := by
  match b with
  | [] => rfl
  | [x] =>
    have hx : ¬ x.toNat < 0x80 := fun hx => h ⟨x, rfl, hx⟩
    simp [rlpBytes, hx]
  | _ :: _ :: _ => rfl

/-! ## Sizes -/

/-- Adds two scratch lengths. -/
def scratchLengthAdd (left right : Nat) : Result Nat :=
  if right ≤ scratchRegionBound - left then .ok (left + right) else .error .assertFailed

/-- Adds two materializable RLP byte counts. -/
def rlpScratchLengthAdd (left right : Nat) : Result Nat :=
  if left + right ≤ scratchRegionBound then .ok (left + right) else fatalError .rlpDecode

/-- The RLP header width for a string or list payload length. -/
def rlpLengthPrefixLen (len : Nat) : Nat :=
  if len ≤ 55 then 1 else 1 + byteLength len

/-- The encoded width of a byte string from its length and first byte. -/
def rlpStringSize (len : Nat) (first : Byte) : Nat :=
  if len = 1 ∧ first.msb = false then 1 else rlpLengthPrefixLen len + len

/-- The encoded width of a byte slice whose first byte is known. -/
def rlpMaterializedSliceSize (length : Nat) (first : Byte) : Result Nat :=
  if length = 1 ∧ first.msb = false then .ok 1
  else rlpScratchLengthAdd length (rlpLengthPrefixLen length)

/-- The encoded width of a byte slice. -/
def rlpScratchSliceSize (data : List Byte) : Result Nat :=
  rlpMaterializedSliceSize data.length (sliceByte data 0)

/-- The encoded width of a byte slice of the input. -/
def rlpInputSliceSize (data : List Byte) : Nat := rlpStringSize data.length (sliceByte data 0)

/-- The encoded width of a number below `2^256`. -/
def rlpUintSize (w : Nat) : Nat :=
  let len := byteLength w
  let first : Byte := if len = 1 then BitVec.ofNat 8 w else 0
  if len = 1 ∧ first.msb = false then 1 else 1 + len

def rlpWordSize : Nat := 33

/-- The encoded size of a list with `contentLen` payload bytes. -/
def rlpListSize (contentLen : Nat) : Nat := rlpLengthPrefixLen contentLen + contentLen

/-- Adds the list prefix to a materializable content length. -/
def rlpScratchListSize (contentLen : Nat) : Result Nat :=
  rlpScratchLengthAdd contentLen (rlpLengthPrefixLen contentLen)

/-! ## Writers -/

/-- The prefix of a byte-string payload. -/
def rlpWriteStringPrefix (len : Nat) (first : Byte) : List Byte :=
  if len = 1 ∧ first.msb = false then []
  else if len ≤ 55 then [BitVec.ofNat 8 (0x80 + len)]
  else BitVec.ofNat 8 (0xb7 + byteLength len) :: bytesOfNat (byteLength len) len

/-- The prefix of a list payload. -/
def rlpWriteListPrefix (contentLen : Nat) : List Byte :=
  if contentLen ≤ 55 then [BitVec.ofNat 8 (0xc0 + contentLen)]
  else
    BitVec.ofNat 8 (0xf7 + byteLength contentLen) :: bytesOfNat (byteLength contentLen) contentLen

/-- A byte slice as an RLP string. -/
def rlpWriteSlice (data : List Byte) : List Byte :=
  rlpWriteStringPrefix data.length (sliceByte data 0) ++ data

/-- One full-width word as an RLP byte string. -/
def rlpWriteWord (w : Word) : List Byte :=
  rlpWriteStringPrefix 32 0 ++ bytesOfNat 32 w.toNat

/-- A number below `2^256` as a minimal RLP integer. -/
def rlpWriteUint (w : Nat) : List Byte :=
  let len := byteLength w
  let first : Byte := if len = 1 then BitVec.ofNat 8 w else 0
  rlpWriteStringPrefix len first ++ bytesOfNat len w

/-- Finishes an exact-size construction and retains its encoded bytes. -/
def rlpEncoderFinish (expectedLen : Nat) (written : List Byte) : Result ScratchSlice :=
  if written.length = expectedLen then .ok written else .error .assertFailed

/-! ## The writers emit the encoding -/

theorem msb_eq_false_iff (b : Byte) : b.msb = false ↔ b.toNat < 0x80 := by
  rw [← Bool.not_eq_true, BitVec.msb_eq_true_iff_two_mul_ge]
  omega

/-- The source's test for a one-byte string that needs no prefix. -/
theorem selfEncoded_iff (b : List Byte) :
    SelfEncoded b ↔ b.length = 1 ∧ (sliceByte b 0).msb = false := by
  rw [msb_eq_false_iff]
  match b with
  | [] => simp [SelfEncoded]
  | [x] => simp [SelfEncoded, sliceByte]
  | _ :: _ :: _ => simp [SelfEncoded]

theorem length_rlpHeader (band len : Nat) :
    (rlpHeader band len).length = rlpLengthPrefixLen len := by
  rw [rlpHeader, rlpLengthPrefixLen]
  split
  · rfl
  · simp [Nat.add_comm]

theorem rlpWriteListPrefix_eq (len : Nat) : rlpWriteListPrefix len = rlpHeader 0xc0 len := rfl

theorem rlpWriteListPrefix_append (payload : List Byte) :
    rlpWriteListPrefix payload.length ++ payload = rlpList payload := rfl

theorem length_rlpList (payload : List Byte) :
    (rlpList payload).length = rlpListSize payload.length := by
  rw [rlpList, List.length_append, length_rlpHeader, rlpListSize]

theorem rlpWriteStringPrefix_append {b : List Byte} {first : Byte}
    (hf : first = sliceByte b 0) :
    rlpWriteStringPrefix b.length first ++ b = rlpBytes b := by
  subst hf
  by_cases h : SelfEncoded b
  · rw [rlpWriteStringPrefix, if_pos ((selfEncoded_iff b).mp h), rlpBytes_of_selfEncoded h,
      List.nil_append]
  · rw [rlpWriteStringPrefix, if_neg fun hs => h ((selfEncoded_iff b).mpr hs),
      rlpBytes_of_not_selfEncoded h]
    rfl

theorem rlpWriteSlice_eq (data : List Byte) : rlpWriteSlice data = rlpBytes data :=
  rlpWriteStringPrefix_append rfl

theorem length_rlpBytes (b : List Byte) :
    (rlpBytes b).length = rlpStringSize b.length (sliceByte b 0) := by
  by_cases h : SelfEncoded b
  · rw [rlpBytes_of_selfEncoded h, rlpStringSize, if_pos ((selfEncoded_iff b).mp h)]
    exact ((selfEncoded_iff b).mp h).1
  · rw [rlpBytes_of_not_selfEncoded h, rlpStringSize,
      if_neg fun hs => h ((selfEncoded_iff b).mpr hs), List.length_append, length_rlpHeader]

theorem rlpWriteWord_hashToWord (h : Hash) : rlpWriteWord (hashToWord h) = rlpBytes h.toList := by
  have hlen : h.toList.length = 32 := by simp
  have hns : ¬ SelfEncoded h.toList := by
    rintro ⟨x, hx, _⟩
    rw [hx] at hlen
    simp at hlen
  rw [rlpWriteWord, ← toList_wordToHash, wordToHash_hashToWord, rlpBytes_of_not_selfEncoded hns,
    hlen]
  rfl

theorem sliceByte_bigEndian {w : Nat} (h : byteLength w = 1) :
    sliceByte (bigEndian w) 0 = BitVec.ofNat 8 w := by
  rw [bigEndian, h]
  rfl

/-- A number is written as its big-endian form. -/
theorem rlpWriteUint_eq (w : Nat) : rlpWriteUint w = rlpBytes (bigEndian w) := by
  rw [← rlpWriteSlice_eq, rlpWriteSlice, length_bigEndian]
  by_cases h : byteLength w = 1
  · simp only [rlpWriteUint, if_pos h, sliceByte_bigEndian h]
    rfl
  · simp only [rlpWriteUint, rlpWriteStringPrefix, h, false_and, if_false]
    rfl

theorem length_rlpBytes_bigEndian {w : Nat} (hw : w < 2 ^ 256) :
    (rlpBytes (bigEndian w)).length = rlpUintSize w := by
  have hlen : byteLength w ≤ 32 := byteLength_le_iff.mpr hw
  rw [length_rlpBytes, rlpStringSize, length_bigEndian, rlpLengthPrefixLen,
    if_pos (show byteLength w ≤ 55 by omega)]
  by_cases h : byteLength w = 1
  · simp only [rlpUintSize, if_pos h, sliceByte_bigEndian h]
  · simp only [rlpUintSize, h, false_and, if_false]

theorem rlpScratchLengthAdd_ok {l r : Nat} (h : l + r ≤ scratchRegionBound) :
    rlpScratchLengthAdd l r = .ok (l + r) := by
  rw [rlpScratchLengthAdd, if_pos h]

theorem rlpEncoderFinish_ok {n : Nat} {bs : List Byte} (h : bs.length = n) :
    rlpEncoderFinish n bs = .ok bs := by
  rw [rlpEncoderFinish, if_pos h]

/-- The size of a slice is the length of its encoding, where that is
addressable. -/
theorem rlpScratchSliceSize_ok {data : List Byte}
    (h : (rlpBytes data).length ≤ scratchRegionBound) :
    rlpScratchSliceSize data = .ok (rlpBytes data).length := by
  rw [rlpScratchSliceSize, rlpMaterializedSliceSize, length_rlpBytes, rlpStringSize]
  rw [length_rlpBytes, rlpStringSize] at h
  split
  · rfl
  · rename_i hs
    rw [if_neg hs, Nat.add_comm] at h
    rw [rlpScratchLengthAdd_ok h, Nat.add_comm]

theorem rlpScratchListSize_ok {payload : List Byte}
    (h : (rlpList payload).length ≤ scratchRegionBound) :
    rlpScratchListSize payload.length = .ok (rlpList payload).length := by
  rw [length_rlpList, rlpListSize, Nat.add_comm] at h
  rw [rlpScratchListSize, rlpScratchLengthAdd_ok h, length_rlpList, rlpListSize, Nat.add_comm]

/-! ## Bounds on encoded lengths -/

theorem byteLength_le_four {n : Nat} (h : n ≤ scratchRegionBound) : byteLength n ≤ 4 := by
  rw [byteLength_le_iff]
  rw [scratchRegionBound_eq] at h
  omega

theorem rlpLengthPrefixLen_le {n : Nat} (h : n ≤ scratchRegionBound) :
    rlpLengthPrefixLen n ≤ 5 := by
  rw [rlpLengthPrefixLen]
  have := byteLength_le_four h
  split <;> omega

theorem rlpLengthPrefixLen_pos (n : Nat) : 1 ≤ rlpLengthPrefixLen n := by
  rw [rlpLengthPrefixLen]
  split <;> omega

theorem length_rlpBytes_le {b : List Byte} (h : b.length ≤ scratchRegionBound) :
    (rlpBytes b).length ≤ b.length + 5 := by
  rw [length_rlpBytes, rlpStringSize]
  have := rlpLengthPrefixLen_le h
  split <;> omega

theorem length_rlpBytes_short {b : List Byte} (h : b.length ≤ 55) :
    (rlpBytes b).length ≤ b.length + 1 := by
  rw [length_rlpBytes, rlpStringSize, rlpLengthPrefixLen, if_pos h]
  split <;> omega

theorem length_rlpBytes_hash (h : Hash) : (rlpBytes h.toList).length = 33 := by
  rw [← rlpWriteWord_hashToWord]
  simp [rlpWriteWord, rlpWriteStringPrefix]

theorem rlpBytes_ne_nil (b : List Byte) : rlpBytes b ≠ [] := by
  by_cases h : SelfEncoded b
  · rw [rlpBytes_of_selfEncoded h]
    obtain ⟨x, rfl, _⟩ := h
    simp
  · rw [rlpBytes_of_not_selfEncoded h, rlpHeader]
    split <;> simp

theorem rlpList_ne_nil (payload : List Byte) : rlpList payload ≠ [] := by
  rw [rlpList, rlpHeader]
  split <;> simp

end EvmSail
