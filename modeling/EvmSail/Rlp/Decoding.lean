/-
# `EvmSail.Rlp.Decoding` — Recursive Length Prefix cursors

Decoding proceeds one item at a time: a cursor is the slice still to be
read, a field reference keeps the complete encoded item and the length of
its content, which is always the matching suffix.  The source duplicates
these functions for input-backed and scratch-backed slices; here a slice
is its bytes, so there is one of each.

The last section reads encodings back: `rlpDecodeItem` at the front of an
encoded string or list returns that item (`rlpDecodeItem_bytes`,
`rlpDecodeItem_list`).
-/
import EvmSail.Rlp.Encoding

namespace EvmSail

open Fallible

/-! ## Fields and cursors -/

/-- A decoded item: its complete encoding and its content length. -/
structure RlpFieldRef where
  source : List Byte
  isList : Bool
  contentLen : Nat
  content_le : contentLen ≤ source.length

/-- Exactly `width` big-endian bytes as a number. -/
def rlpUint64Width (content : List Byte) : Nat → Nat
  | 0 => 0
  | width + 1 => rlpUint64Width content width * 256 + (sliceByte content width).toNat

/-- The first header of a slice: `(is_list, content_offset, content_length)`. -/
def rlpRefHdr (b : List Byte) : Result (Bool × Nat × Nat) :=
  let sourceLen := b.length
  if sourceLen = 0 then
    fatalError .rlpDecode
  else
    let h := (sliceByte b 0).toNat
    if h < 128 then
      .ok (false, 0, 1)
    else if h < 184 then
      .ok (false, 1, h - 128)
    else if h < 192 then
      let lengthWidth := h - 183
      if lengthWidth ≤ sourceLen - 1 then
        .ok (false, 1 + lengthWidth, rlpUint64Width (subSlice b 1 lengthWidth) lengthWidth)
      else
        fatalError .rlpDecode
    else if h < 248 then
      .ok (true, 1, h - 192)
    else
      let lengthWidth := h - 247
      if lengthWidth ≤ sourceLen - 1 then
        .ok (true, 1 + lengthWidth, rlpUint64Width (subSlice b 1 lengthWidth) lengthWidth)
      else
        fatalError .rlpDecode

/-- The content of a list field; fails if the field is not a list. -/
def rlpDecodeList (f : RlpFieldRef) : Result (List Byte) :=
  if f.isList then
    .ok (subSlice f.source (f.source.length - f.contentLen) f.contentLen)
  else
    fatalError .rlpDecode

/-- The item at the head of a cursor, without advancing it. -/
def rlpDecodeItem (cursor : List Byte) : Result RlpFieldRef :=
  if cursor.length = 0 then
    fatalError .rlpDecode
  else do
    let (isList, contentOff, contentLen) ← rlpRefHdr cursor
    if cursor.length < contentOff then
      fatalError .rlpDecode
    else if cursor.length - contentOff < contentLen then
      fatalError .rlpDecode
    else
      let fullLen := contentOff + contentLen
      if h : 0 < fullLen ∧ fullLen ≤ cursor.length then
        .ok
          { source := subSlice cursor 0 fullLen
            isList := isList
            contentLen := contentLen
            content_le := by
              simp only [subSlice, List.drop_zero, List.length_take]
              omega }
      else
        fatalError .rlpDecode

/-- Consumes a decoded item's complete length. -/
def rlpCursorAdvance (cursor : List Byte) (consumed : Nat) : List Byte :=
  sliceSuffix cursor consumed

/-- Trailing bytes are a decode error. -/
def rlpCursorExpectEnd (cursor : List Byte) : Result Unit :=
  if cursor.length = 0 then .ok () else fatalError .rlpDecode

/-- A byte sequence that must be exactly one item. -/
def rlpSingleRef (item : List Byte) : Result RlpFieldRef :=
  if item.length = 0 then
    fatalError .rlpDecode
  else do
    let (isList, contentOff, contentLen) ← rlpRefHdr item
    if h : contentOff ≤ item.length ∧ contentLen = item.length - contentOff then
      .ok { source := item, isList := isList, contentLen := contentLen, content_le := by omega }
    else
      fatalError .rlpDecode

/-- A cursor over the children of a byte sequence that must be exactly one
list. -/
def rlpNodeCursor (node : List Byte) : Result (List Byte) :=
  if node.length = 0 then
    fatalError .rlpDecode
  else do
    let item ← rlpSingleRef node
    rlpDecodeList item

/-- The content span of a field. -/
def rlpItemContent (f : RlpFieldRef) : List Byte :=
  subSlice f.source (f.source.length - f.contentLen) f.contentLen

/-- A string field of at most 32 bytes as a word. -/
def rlpDecodeWord (f : RlpFieldRef) : Result Word :=
  if f.isList ∨ 32 < f.contentLen then
    fatalError .rlpDecode
  else
    .ok (sliceLoadN f.source (f.source.length - f.contentLen) f.contentLen)

/-! ## Reading encodings back -/

theorem rlpUint64Width_eq (content : List Byte) :
    rlpUint64Width content content.length = natOfBytes content := by
  suffices h : ∀ n, n ≤ content.length →
      rlpUint64Width content n = natOfBytes (content.take n) by
    rw [h _ (Nat.le_refl _), List.take_length]
  intro n
  induction n with
  | zero => intro _; rfl
  | succ n ih =>
    intro hn
    rw [rlpUint64Width, ih (by omega), List.take_add_one, List.getElem?_eq_getElem hn,
      Option.toList_some, natOfBytes_append_singleton, sliceByte, List.getElem?_eq_getElem hn]
    rfl

theorem subSlice_tail (x : Byte) (l rest : List Byte) :
    subSlice (x :: (l ++ rest)) 1 l.length = l := by
  simp [subSlice]

theorem byteLength_bounds {n : Nat} (h : ¬ n ≤ 55) (hn : n ≤ scratchRegionBound) :
    1 ≤ byteLength n ∧ byteLength n ≤ 4 :=
  ⟨byteLength_pos (by omega), byteLength_le_four hn⟩

/-- The header of a string that does not encode itself. -/
theorem rlpRefHdr_string {n : Nat} (hn : n ≤ scratchRegionBound) (rest : List Byte) :
    rlpRefHdr (rlpHeader 0x80 n ++ rest) = .ok (false, (rlpHeader 0x80 n).length, n) := by
  rw [rlpHeader]
  by_cases h : n ≤ 55
  · rw [if_pos h]
    have hb : (BitVec.ofNat 8 (0x80 + n)).toNat = 128 + n := by
      rw [BitVec.toNat_ofNat]
      omega
    simp only [rlpRefHdr, sliceByte, List.cons_append, List.nil_append, List.length_cons,
      List.getElem?_cons_zero, Option.getD_some, hb]
    rw [if_neg (by omega), if_neg (by omega), if_pos (by omega)]
    simp
  · rw [if_neg h]
    obtain ⟨h1, h4⟩ := byteLength_bounds h hn
    have hb : (BitVec.ofNat 8 (0x80 + 55 + byteLength n)).toNat = 183 + byteLength n := by
      rw [BitVec.toNat_ofNat]
      omega
    have hw := rlpUint64Width_eq (bigEndian n)
    rw [length_bigEndian, natOfBytes_bigEndian] at hw
    have hs := subSlice_tail (BitVec.ofNat 8 (0x80 + 55 + byteLength n)) (bigEndian n) rest
    rw [length_bigEndian] at hs
    simp only [rlpRefHdr, List.cons_append]
    rw [show sliceByte (BitVec.ofNat 8 (0x80 + 55 + byteLength n) :: (bigEndian n ++ rest)) 0 =
      BitVec.ofNat 8 (0x80 + 55 + byteLength n) from rfl, hb]
    rw [if_neg (by simp), if_neg (by omega), if_neg (by omega), if_pos (by omega),
      if_pos (by simp), show 183 + byteLength n - 183 = byteLength n by omega, hs, hw,
      List.length_cons, length_bigEndian, Nat.add_comm 1]

/-- The header of a list. -/
theorem rlpRefHdr_list {n : Nat} (hn : n ≤ scratchRegionBound) (rest : List Byte) :
    rlpRefHdr (rlpHeader 0xc0 n ++ rest) = .ok (true, (rlpHeader 0xc0 n).length, n) := by
  rw [rlpHeader]
  by_cases h : n ≤ 55
  · rw [if_pos h]
    have hb : (BitVec.ofNat 8 (0xc0 + n)).toNat = 192 + n := by
      rw [BitVec.toNat_ofNat]
      omega
    simp only [rlpRefHdr, sliceByte, List.cons_append, List.nil_append, List.length_cons,
      List.getElem?_cons_zero, Option.getD_some, hb]
    rw [if_neg (by omega), if_neg (by omega), if_neg (by omega), if_neg (by omega),
      if_pos (by omega)]
    simp
  · rw [if_neg h]
    obtain ⟨h1, h4⟩ := byteLength_bounds h hn
    have hb : (BitVec.ofNat 8 (0xc0 + 55 + byteLength n)).toNat = 247 + byteLength n := by
      rw [BitVec.toNat_ofNat]
      omega
    have hw := rlpUint64Width_eq (bigEndian n)
    rw [length_bigEndian, natOfBytes_bigEndian] at hw
    have hs := subSlice_tail (BitVec.ofNat 8 (0xc0 + 55 + byteLength n)) (bigEndian n) rest
    rw [length_bigEndian] at hs
    simp only [rlpRefHdr, List.cons_append]
    rw [show sliceByte (BitVec.ofNat 8 (0xc0 + 55 + byteLength n) :: (bigEndian n ++ rest)) 0 =
      BitVec.ofNat 8 (0xc0 + 55 + byteLength n) from rfl, hb]
    rw [if_neg (by simp), if_neg (by omega), if_neg (by omega), if_neg (by omega),
      if_neg (by omega), if_pos (by simp), show 247 + byteLength n - 247 = byteLength n by omega,
      hs, hw, List.length_cons, length_bigEndian, Nat.add_comm 1]

/-- The header of a byte that encodes itself. -/
theorem rlpRefHdr_self {x : Byte} (hx : x.toNat < 0x80) (rest : List Byte) :
    rlpRefHdr (x :: rest) = .ok (false, 0, 1) := by
  have hs : sliceByte (x :: rest) 0 = x := rfl
  rw [rlpRefHdr]
  simp only [hs]
  rw [if_neg (by simp), if_pos hx]

/-- The field of an encoded byte string. -/
def bytesField (b : List Byte) : RlpFieldRef where
  source := rlpBytes b
  isList := false
  contentLen := b.length
  content_le := by
    by_cases h : SelfEncoded b
    · rw [rlpBytes_of_selfEncoded h]
    · simp [rlpBytes_of_not_selfEncoded h]

/-- The field of an encoded list. -/
def listField (payload : List Byte) : RlpFieldRef where
  source := rlpList payload
  isList := true
  contentLen := payload.length
  content_le := by simp [rlpList]

/-- Decoding at a header that announces exactly the following payload. -/
theorem rlpDecodeItem_of_hdr (isList : Bool) (hdr payload rest : List Byte)
    (hne : hdr ++ payload ≠ [])
    (h : rlpRefHdr (hdr ++ payload ++ rest) = .ok (isList, hdr.length, payload.length)) :
    ∃ hle, rlpDecodeItem (hdr ++ payload ++ rest) =
      .ok ⟨hdr ++ payload, isList, payload.length, hle⟩ := by
  have hpos : 0 < hdr.length + payload.length := by
    rw [← List.length_append]
    exact List.length_pos_iff.mpr hne
  have hsub : subSlice (hdr ++ payload ++ rest) 0 (hdr.length + payload.length) =
      hdr ++ payload := by
    rw [subSlice, List.drop_zero, ← List.length_append, List.take_left]
  refine ⟨by simp, ?_⟩
  rw [rlpDecodeItem, if_neg (by simp only [List.length_append]; omega), h, ok_bind]
  simp only [List.length_append]
  rw [if_neg (by omega), if_neg (by omega), dif_pos (by omega)]
  simp only [hsub]

theorem rlpDecodeItem_bytes {b : List Byte} (hb : b.length ≤ scratchRegionBound)
    (rest : List Byte) : rlpDecodeItem (rlpBytes b ++ rest) = .ok (bytesField b) := by
  by_cases h : SelfEncoded b
  · obtain ⟨x, rfl, hx⟩ := h
    obtain ⟨hle, hd⟩ := rlpDecodeItem_of_hdr false [] [x] rest (by simp)
      (rlpRefHdr_self hx rest)
    have hself : rlpBytes [x] = [] ++ [x] := rlpBytes_of_selfEncoded ⟨x, rfl, hx⟩
    rw [hself, hd]
    refine congrArg Except.ok ?_
    rw [bytesField]
    congr 1
    exact hself.symm
  · obtain ⟨hle, hd⟩ := rlpDecodeItem_of_hdr false (rlpHeader 0x80 b.length) b rest
      (by rw [← rlpBytes_of_not_selfEncoded h]; exact rlpBytes_ne_nil b)
      (by rw [List.append_assoc]; exact rlpRefHdr_string hb _)
    have hns := rlpBytes_of_not_selfEncoded h
    rw [hns, hd]
    refine congrArg Except.ok ?_
    rw [bytesField]
    congr 1
    exact hns.symm

theorem rlpDecodeItem_list {payload : List Byte} (hp : payload.length ≤ scratchRegionBound)
    (rest : List Byte) : rlpDecodeItem (rlpList payload ++ rest) = .ok (listField payload) := by
  obtain ⟨hle, hd⟩ := rlpDecodeItem_of_hdr true (rlpHeader 0xc0 payload.length) payload rest
    (rlpList_ne_nil payload) (by rw [List.append_assoc]; exact rlpRefHdr_list hp _)
  exact hd

@[simp] theorem rlpCursorAdvance_append (a b : List Byte) :
    rlpCursorAdvance (a ++ b) a.length = b := by
  simp [rlpCursorAdvance, sliceSuffix]

theorem rlpNodeCursor_list {payload : List Byte} (hp : payload.length ≤ scratchRegionBound) :
    rlpNodeCursor (rlpList payload) = .ok payload := by
  have hlen : ¬ (rlpList payload).length = 0 := by
    simpa using rlpList_ne_nil payload
  have hh := rlpRefHdr_list hp payload
  have hfull : (rlpList payload).length =
      (rlpHeader 0xc0 payload.length).length + payload.length := List.length_append
  rw [rlpNodeCursor, if_neg hlen, rlpSingleRef, if_neg hlen, rlpList, hh, ok_bind]
  simp only [List.length_append]
  rw [dif_pos (by omega), ok_bind, rlpDecodeList]
  simp [subSlice]

/-- The suffix of an encoding that its content length selects. -/
theorem subSlice_suffix (hdr payload : List Byte) :
    subSlice (hdr ++ payload) ((hdr ++ payload).length - payload.length) payload.length =
      payload := by
  simp [subSlice]

@[simp] theorem rlpItemContent_bytesField (b : List Byte) :
    rlpItemContent (bytesField b) = b := by
  by_cases h : SelfEncoded b
  · simp only [rlpItemContent, bytesField, rlpBytes_of_selfEncoded h]
    exact subSlice_suffix [] b
  · simp only [rlpItemContent, bytesField, rlpBytes_of_not_selfEncoded h]
    exact subSlice_suffix _ b

theorem rlpDecodeWord_hash (h : Hash) :
    ∃ w, rlpDecodeWord (bytesField h.toList) = .ok w ∧ wordToHash w = h := by
  have hlen : h.toList.length = 32 := by simp
  have hc : subSlice (bytesField h.toList).source ((bytesField h.toList).source.length -
      h.toList.length) h.toList.length = h.toList := rlpItemContent_bytesField h.toList
  rw [hlen] at hc
  refine ⟨sliceLoadN (bytesField h.toList).source
    ((bytesField h.toList).source.length - 32) 32, ?_, wordToHash_sliceLoadN hc⟩
  rw [rlpDecodeWord, if_neg (by simp [bytesField])]
  simp [bytesField]

end EvmSail
