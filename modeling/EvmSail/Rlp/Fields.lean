/-
# `EvmSail.Rlp.Fields` — canonical framing and typed scalar fields

The predicates and scalar decoders that the structured codecs (transaction
envelopes, block access lists) apply to a field, and what they mean.  A
field that a decoder produced is *announced*: its own bytes decode to it.
An announced field with canonical framing is `bytesField` or `listField`
of its content (`rlpRefFramingCanonical_iff`), and the integer decoders
return `n` on exactly one field, `bytesField (bigEndian n)`.

`Fields c fs` says that the cursor `c` is the sequence of items `fs`.  A
cursor is such a sequence in at most one way, and every decoder that walks
a cursor to its end returns only if there is one.
-/
import EvmSail.Rlp.Decoding

namespace EvmSail

open Fallible

/-! ## Predicates and decoders of the source -/

/-- The header check shared by lists (`0xc0`, `0xf7`) and strings (`0x80`,
`0xb7`). -/
def rlpHeaderCanonical (short long : Byte) (f : RlpFieldRef) : Bool :=
  let n := f.contentLen
  if n ≤ 55 then
    f.source.length == n + 1 && sliceByte f.source 0 == short + BitVec.ofNat 8 n
  else
    let lengthWidth := byteLength n
    f.source.length == 1 + lengthWidth + n &&
      (sliceByte f.source 0 == long + BitVec.ofNat 8 lengthWidth &&
        sliceLoadN f.source 1 lengthWidth == BitVec.ofNat 256 n)

/-- Whether a field uses the unique canonical framing for its payload. -/
def rlpRefFramingCanonical (f : RlpFieldRef) : Bool :=
  let n := f.contentLen
  if f.source.length = 0 then false
  else if f.isList then rlpHeaderCanonical 0xc0 0xf7 f
  else if n = 0 then f.source.length == 1 && sliceByte f.source 0 == 0x80
  else
    let first := sliceByte f.source (f.source.length - n)
    if n = 1 ∧ first.msb = false then f.source.length == 1 && sliceByte f.source 0 == first
    else rlpHeaderCanonical 0x80 0xb7 f

/-- Whether a field is a byte string with canonical framing. -/
def rlpRefBytesCanonical (f : RlpFieldRef) : Bool := !f.isList && rlpRefFramingCanonical f

/-- Whether a field is the canonical encoding of a non-negative integer. -/
def rlpItemUintCanonical (f : RlpFieldRef) : Bool :=
  rlpRefBytesCanonical f &&
    (f.contentLen == 0 || sliceByte f.source (f.source.length - f.contentLen) != 0x00)

/-- A canonical unsigned integer field as a word. -/
def rlpDecodeU256 (f : RlpFieldRef) : Result Word :=
  if rlpItemUintCanonical f then rlpDecodeWord f else fatalError .rlpDecode

/-- A canonical unsigned integer field as a 64-bit quantity. -/
def rlpDecodeUint64 (f : RlpFieldRef) : Result Nat :=
  if !rlpItemUintCanonical f || 8 < f.contentLen then fatalError .rlpDecode
  else .ok (rlpUint64Width (rlpItemContent f) (f.contentLen % 9))

/-- `RlpResult`: a value, or an integer outside the value's range. -/
inductive RlpResult (α : Type) where
  | rlpOk (a : α)
  | rlpInvalidValue
  deriving DecidableEq, Repr

/-- One canonical integer as `0`/`1`. -/
def rlpDecodeBool (f : RlpFieldRef) : Result (RlpResult Bool) := do
  let value ← rlpDecodeUint64 f
  match value with
  | 0 => .ok (.rlpOk false)
  | 1 => .ok (.rlpOk true)
  | _ => .ok .rlpInvalidValue

/-! ## Taking items -/

/-- A field is its source, its kind and its content length. -/
theorem RlpFieldRef.eq_of {f g : RlpFieldRef} (hsource : f.source = g.source)
    (hkind : f.isList = g.isList) (hlen : f.contentLen = g.contentLen) : f = g := by
  cases f
  cases g
  cases hsource
  cases hkind
  cases hlen
  rfl

/-- What the decoder of one item returns. -/
theorem rlpDecodeItem_eq_ok {c : List Byte} {f : RlpFieldRef} :
    rlpDecodeItem c = .ok f ↔ ∃ off, rlpRefHdr c = .ok (f.isList, off, f.contentLen) ∧
      0 < off + f.contentLen ∧ off + f.contentLen ≤ c.length ∧
      f.source = c.take (off + f.contentLen) := by
  constructor
  · intro h
    rw [rlpDecodeItem] at h
    split at h
    · cases h
    · obtain ⟨⟨isList, off, len⟩, hhdr, h⟩ := bind_eq_ok.mp h
      simp only at h
      split at h
      · cases h
      · split at h
        · cases h
        · split at h
          · rename_i hlen
            cases h
            exact ⟨off, hhdr, hlen.1, hlen.2, rfl⟩
          · cases h
  · rintro ⟨off, hhdr, hpos, hle, hsource⟩
    rw [rlpDecodeItem, if_neg (by omega), hhdr, ok_bind]
    simp only
    rw [if_neg (by omega), if_neg (by omega), dif_pos ⟨hpos, hle⟩]
    exact congrArg Except.ok (RlpFieldRef.eq_of hsource.symm rfl rfl)

theorem rlpDecodeItem_length {c : List Byte} {f : RlpFieldRef} (h : rlpDecodeItem c = .ok f) :
    0 < f.source.length ∧ f.source.length ≤ c.length := by
  obtain ⟨off, _, hpos, hle, hsource⟩ := rlpDecodeItem_eq_ok.mp h
  have hlen := congrArg List.length hsource
  rw [List.length_take, Nat.min_eq_left hle] at hlen
  rw [hlen]
  exact ⟨hpos, hle⟩

/-- `rlp_decode_item` and `rlp_cursor_advance` over the decoded item: the
cursor behind an item is strictly shorter. -/
def rlpTakeItem (cursor : List Byte) :
    Result (RlpFieldRef × { next : List Byte // next.length < cursor.length }) :=
  match h : rlpDecodeItem cursor with
  | .error e => .error e
  | .ok item =>
    .ok (item, ⟨rlpCursorAdvance cursor item.source.length, by
      have := rlpDecodeItem_length h
      simp only [rlpCursorAdvance, sliceSuffix, List.length_drop]
      omega⟩)

/-- The next `n` items of a cursor, which must end there. -/
def rlpTakeFields : (n : Nat) → List Byte → Result (Vector RlpFieldRef n)
  | 0, cursor => do
    rlpCursorExpectEnd cursor
    .ok #v[]
  | n + 1, cursor => do
    let item ← rlpDecodeItem cursor
    let rest ← rlpTakeFields n (rlpCursorAdvance cursor item.source.length)
    .ok ((#v[item] ++ rest).cast (Nat.add_comm 1 n))

/-! ## Announced fields -/

/-- A field that its own bytes decode to. -/
def RlpFieldRef.Announced (f : RlpFieldRef) : Prop := rlpDecodeItem f.source = .ok f

/-- What the header byte `h` of a slice announces. -/
inductive HeaderOf (c : List Byte) (h : Nat) : Bool → Nat → Nat → Prop
  | byte : h < 128 → HeaderOf c h false 0 1
  | string : 128 ≤ h → h < 184 → HeaderOf c h false 1 (h - 128)
  | longString : 184 ≤ h → h < 192 → h - 183 ≤ c.length - 1 →
      HeaderOf c h false (1 + (h - 183)) (rlpUint64Width (subSlice c 1 (h - 183)) (h - 183))
  | list : 192 ≤ h → h < 248 → HeaderOf c h true 1 (h - 192)
  | longList : 248 ≤ h → h - 247 ≤ c.length - 1 →
      HeaderOf c h true (1 + (h - 247)) (rlpUint64Width (subSlice c 1 (h - 247)) (h - 247))

theorem rlpRefHdr_eq_ok {c : List Byte} {isList : Bool} {off len : Nat} :
    rlpRefHdr c = .ok (isList, off, len) ↔
      c.length ≠ 0 ∧ HeaderOf c (sliceByte c 0).toNat isList off len := by
  constructor
  · intro h
    rw [rlpRefHdr] at h
    simp only at h
    split at h
    · cases h
    rename_i hne
    refine ⟨hne, ?_⟩
    split at h
    · rename_i h₁
      cases h
      exact .byte h₁
    split at h
    · rename_i h₁ h₂
      cases h
      exact .string (by omega) h₂
    split at h
    · rename_i h₁ h₂ h₃
      split at h
      · rename_i hw
        simp only [Except.ok.injEq, Prod.mk.injEq] at h
        obtain ⟨rfl, rfl, rfl⟩ := h
        exact .longString (by omega) h₃ hw
      · cases h
    split at h
    · rename_i h₁ h₂ h₃ h₄
      cases h
      exact .list (by omega) h₄
    · rename_i h₁ h₂ h₃ h₄
      split at h
      · rename_i hw
        simp only [Except.ok.injEq, Prod.mk.injEq] at h
        obtain ⟨rfl, rfl, rfl⟩ := h
        exact .longList (by omega) hw
      · cases h
  · rintro ⟨hne, h⟩
    rw [rlpRefHdr]
    simp only
    rw [if_neg hne]
    cases h with
    | byte h₁ => rw [if_pos h₁]
    | string h₁ h₂ => rw [if_neg (by omega), if_pos h₂]
    | longString h₁ h₂ hw => rw [if_neg (by omega), if_neg (by omega), if_pos h₂, if_pos hw]
    | list h₁ h₂ => rw [if_neg (by omega), if_neg (by omega), if_neg (by omega), if_pos h₂]
    | longList h₁ hw =>
      rw [if_neg (by omega), if_neg (by omega), if_neg (by omega), if_neg (by omega), if_pos hw]

/-- The header is read from the item's own bytes. -/
theorem rlpRefHdr_take {c : List Byte} {isList : Bool} {off len : Nat}
    (h : rlpRefHdr c = .ok (isList, off, len)) (hpos : 0 < off + len)
    (hle : off + len ≤ c.length) (rest : List Byte) :
    rlpRefHdr (c.take (off + len) ++ rest) = .ok (isList, off, len) := by
  have hbyte : sliceByte (c.take (off + len) ++ rest) 0 = sliceByte c 0 := by
    rw [sliceByte, sliceByte, List.getElem?_append_left (by simp; omega),
      List.getElem?_take_of_lt hpos]
  have hsub : ∀ w, 1 + w ≤ off + len →
      subSlice (c.take (off + len) ++ rest) 1 w = subSlice c 1 w := by
    intro w hw
    rw [subSlice, subSlice, List.drop_append_of_le_length (by simp; omega),
      List.take_append_of_le_length (by simp; omega), List.drop_take, List.take_take,
      Nat.min_eq_left (by omega)]
  have hlen : off + len ≤ (c.take (off + len) ++ rest).length := by
    simp
    omega
  obtain ⟨_, hcase⟩ := rlpRefHdr_eq_ok.mp h
  refine rlpRefHdr_eq_ok.mpr ⟨by omega, ?_⟩
  rw [hbyte]
  generalize hc' : c.take (off + len) ++ rest = c' at hsub hlen ⊢
  clear hc' hbyte h
  cases hcase with
  | byte h₁ => exact .byte h₁
  | string h₁ h₂ => exact .string h₁ h₂
  | longString h₁ h₂ hw =>
    rw [← hsub _ (Nat.le_add_right _ _)]
    exact .longString h₁ h₂ (by omega)
  | list h₁ h₂ => exact .list h₁ h₂
  | longList h₁ hw =>
    rw [← hsub _ (Nat.le_add_right _ _)]
    exact .longList h₁ (by omega)

/-- A decoded item is announced, and the cursor continues behind it. -/
theorem rlpDecodeItem_announced {c : List Byte} {f : RlpFieldRef} (h : rlpDecodeItem c = .ok f) :
    f.Announced ∧ ∃ rest, c = f.source ++ rest := by
  obtain ⟨off, hhdr, hpos, hle, hsource⟩ := rlpDecodeItem_eq_ok.mp h
  have htake := rlpRefHdr_take hhdr hpos hle []
  rw [List.append_nil, ← hsource] at htake
  have hlen : f.source.length = off + f.contentLen := by
    rw [hsource, List.length_take, Nat.min_eq_left hle]
  refine ⟨rlpDecodeItem_eq_ok.mpr ⟨off, htake, hpos, hlen.ge, ?_⟩, c.drop (off + f.contentLen), ?_⟩
  · rw [← hlen, List.take_length]
  · rw [hsource, List.take_append_drop]

namespace RlpFieldRef.Announced

variable {f : RlpFieldRef}

/-- An announced field is decoded wherever its bytes come first. -/
theorem decode (h : f.Announced) (rest : List Byte) :
    rlpDecodeItem (f.source ++ rest) = .ok f := by
  obtain ⟨off, hhdr, hpos, hle, hsource⟩ := rlpDecodeItem_eq_ok.mp h
  have htake := rlpRefHdr_take hhdr hpos hle rest
  have hlen : f.source.length = off + f.contentLen := by
    have := congrArg List.length hsource
    rwa [List.length_take, Nat.min_eq_left hle] at this
  rw [← hlen, List.take_length] at htake
  refine rlpDecodeItem_eq_ok.mpr ⟨off, htake, hpos, ?_, ?_⟩
  · rw [List.length_append]
    omega
  · rw [← hlen, List.take_left]

theorem source_ne_nil (h : f.Announced) : f.source ≠ [] := by
  have := (rlpDecodeItem_length h).1
  intro hnil
  rw [hnil] at this
  exact Nat.lt_irrefl 0 this

end RlpFieldRef.Announced

/-! ## What canonical framing means -/

theorem length_rlpItemContent (f : RlpFieldRef) : (rlpItemContent f).length = f.contentLen := by
  have := f.content_le
  rw [rlpItemContent, subSlice, List.length_take, List.length_drop]
  omega

/-- A field is its header followed by its content. -/
theorem RlpFieldRef.source_eq (f : RlpFieldRef) :
    f.source = f.source.take (f.source.length - f.contentLen) ++ rlpItemContent f := by
  have hle := f.content_le
  have hcontent : rlpItemContent f = f.source.drop (f.source.length - f.contentLen) := by
    rw [rlpItemContent, subSlice, List.take_of_length_le]
    rw [List.length_drop]
    omega
  rw [hcontent, List.take_append_drop]

/-- The number in the bytes behind the first, of a slice that starts with
these. -/
theorem sliceLoadN_one {x : Byte} {ds rest : List Byte} {n : Nat} (hn : n < 2 ^ 256)
    (hds : ds.length ≤ 32) :
    sliceLoadN (x :: ds ++ rest) 1 ds.length = BitVec.ofNat 256 n ↔ natOfBytes ds = n := by
  have hlt : natOfBytes ds < 2 ^ 256 := by
    have h₁ := natOfBytes_lt ds
    have h₂ : (256 : Nat) ^ ds.length ≤ 256 ^ 32 := Nat.pow_le_pow_right (by omega) hds
    have h₃ : (256 : Nat) ^ 32 = 2 ^ 256 := by norm_num
    omega
  have htake : ((x :: ds ++ rest).drop 1).take ds.length = ds := by simp
  rw [sliceLoadN, htake, List.rightpad, Nat.sub_self, List.replicate_zero, List.append_nil]
  constructor
  · intro h
    have hnat := congrArg BitVec.toNat h
    rwa [BitVec.toNat_ofNat, BitVec.toNat_ofNat, Nat.mod_eq_of_lt hlt, Nat.mod_eq_of_lt hn]
      at hnat
  · intro h
    rw [h]

/-- The header check accepts the shortest header and no other. -/
theorem rlpHeaderCanonical_iff {f : RlpFieldRef} (band : Nat)
    (hlen : f.contentLen ≤ scratchRegionBound) :
    rlpHeaderCanonical (BitVec.ofNat 8 band) (BitVec.ofNat 8 (band + 55)) f = true ↔
      f.source = rlpHeader band f.contentLen ++ rlpItemContent f := by
  have hsplit := f.source_eq
  have hle := f.content_le
  have hhdr : (f.source.take (f.source.length - f.contentLen)).length =
      f.source.length - f.contentLen := by
    rw [List.length_take]
    omega
  generalize f.source.take (f.source.length - f.contentLen) = hdr at hsplit hhdr
  have hright : f.source = rlpHeader band f.contentLen ++ rlpItemContent f ↔
      hdr = rlpHeader band f.contentLen := by
    rw [hsplit]
    exact List.append_left_inj _
  rw [hright, rlpHeader, rlpHeaderCanonical]
  simp only
  by_cases hn : f.contentLen ≤ 55
  · rw [if_pos hn, if_pos hn, Bool.and_eq_true, beq_iff_eq, beq_iff_eq, ← BitVec.ofNat_add]
    constructor
    · rintro ⟨hL, hbyte⟩
      obtain ⟨x, rfl⟩ := List.length_eq_one_iff.mp (show hdr.length = 1 by omega)
      rw [hsplit] at hbyte
      rw [show x = BitVec.ofNat 8 (band + f.contentLen) from hbyte]
    · rintro rfl
      rw [List.length_singleton] at hhdr
      refine ⟨by omega, ?_⟩
      rw [hsplit]
      rfl
  · have hw := byteLength_le_four hlen
    have hlt : f.contentLen < 2 ^ 256 := by
      rw [scratchRegionBound_eq] at hlen
      omega
    rw [if_neg hn, if_neg hn, Bool.and_eq_true, Bool.and_eq_true, beq_iff_eq, beq_iff_eq,
      beq_iff_eq, ← BitVec.ofNat_add]
    constructor
    · rintro ⟨hL, hbyte, hload⟩
      obtain ⟨x, ds, rfl⟩ := List.exists_cons_of_length_pos (show 0 < hdr.length by omega)
      rw [List.length_cons] at hhdr
      have hds : ds.length = byteLength f.contentLen := by omega
      rw [hsplit] at hbyte hload
      rw [← hds, sliceLoadN_one hlt (by omega)] at hload
      rw [show x = BitVec.ofNat 8 (band + 55 + byteLength f.contentLen) from hbyte, bigEndian,
        ← hds, ← hload, bytesOfNat_natOfBytes]
    · rintro rfl
      rw [List.length_cons, length_bigEndian] at hhdr
      refine ⟨by omega, ?_, ?_⟩
      · rw [hsplit]
        rfl
      · have hds : (bigEndian f.contentLen).length ≤ 32 := by
          rw [length_bigEndian]
          omega
        rw [hsplit, ← length_bigEndian f.contentLen]
        exact (sliceLoadN_one hlt hds).mpr (natOfBytes_bigEndian _)

theorem sliceByte_content {f : RlpFieldRef} (h : f.contentLen ≠ 0) :
    sliceByte f.source (f.source.length - f.contentLen) = sliceByte (rlpItemContent f) 0 := by
  have hle := f.content_le
  rw [sliceByte, sliceByte, rlpItemContent, subSlice, List.getElem?_take_of_lt (by omega),
    List.getElem?_drop, Nat.add_zero]

/-- The source's test for a byte that frames itself. -/
theorem selfFramed_iff {f : RlpFieldRef} (h : f.contentLen ≠ 0) :
    (f.contentLen = 1 ∧
      (sliceByte f.source (f.source.length - f.contentLen)).msb = false) ↔
      SelfEncoded (rlpItemContent f) := by
  rw [selfEncoded_iff, length_rlpItemContent, sliceByte_content h]

/-- A field without a header is its content. -/
theorem source_eq_content_iff {f : RlpFieldRef} :
    f.source = rlpItemContent f ↔ f.source.length = f.contentLen := by
  constructor
  · intro h
    rw [h, length_rlpItemContent]
  · intro h
    have hsplit := f.source_eq
    rwa [h, Nat.sub_self, List.take_zero, List.nil_append] at hsplit

/-- Canonical framing is the shortest encoding of the content. -/
theorem rlpRefFramingCanonical_iff {f : RlpFieldRef} (hlen : f.contentLen ≤ scratchRegionBound) :
    rlpRefFramingCanonical f = true ↔
      f.source = if f.isList then rlpList (rlpItemContent f) else rlpBytes (rlpItemContent f) := by
  have hcontent := length_rlpItemContent f
  have hle := f.content_le
  rw [rlpRefFramingCanonical]
  simp only
  by_cases hempty : f.source.length = 0
  · rw [if_pos hempty]
    have hnil := List.eq_nil_of_length_eq_zero hempty
    rw [hnil]
    constructor
    · intro h
      cases h
    · intro h
      split at h
      · exact absurd h.symm (rlpList_ne_nil _)
      · exact absurd h.symm (rlpBytes_ne_nil _)
  rw [if_neg hempty]
  cases hkind : f.isList with
  | true =>
    rw [if_pos rfl, if_pos rfl, rlpList, hcontent]
    exact rlpHeaderCanonical_iff 0xc0 hlen
  | false =>
    rw [if_neg Bool.false_ne_true, if_neg Bool.false_ne_true]
    by_cases hn : f.contentLen = 0
    · have hcnil : rlpItemContent f = [] := List.eq_nil_of_length_eq_zero (hcontent.trans hn)
      rw [if_pos hn, hcnil, Bool.and_eq_true, beq_iff_eq, beq_iff_eq]
      constructor
      · rintro ⟨hL, hbyte⟩
        obtain ⟨x, hx⟩ := List.length_eq_one_iff.mp hL
        rw [hx] at hbyte ⊢
        rw [show x = 0x80 from hbyte]
        rfl
      · intro h
        rw [h]
        exact ⟨rfl, rfl⟩
    · rw [if_neg hn]
      by_cases hself : SelfEncoded (rlpItemContent f)
      · have hone := ((selfFramed_iff hn).mpr hself).1
        rw [if_pos ((selfFramed_iff hn).mpr hself), rlpBytes_of_selfEncoded hself,
          source_eq_content_iff, Bool.and_eq_true, beq_iff_eq, beq_iff_eq, hone]
        constructor
        · rintro ⟨hL, _⟩
          exact hL
        · intro hL
          rw [hL]
          exact ⟨rfl, rfl⟩
      · rw [if_neg fun h => hself ((selfFramed_iff hn).mp h), rlpBytes_of_not_selfEncoded hself,
          hcontent]
        exact rlpHeaderCanonical_iff 0x80 hlen

theorem rlpBytesCanonical_iff {f : RlpFieldRef} (hlen : f.contentLen ≤ scratchRegionBound) :
    rlpRefBytesCanonical f = true ↔ f = bytesField (rlpItemContent f) := by
  rw [rlpRefBytesCanonical, Bool.and_eq_true, rlpRefFramingCanonical_iff hlen]
  constructor
  · rintro ⟨hkind, hsource⟩
    have hkind : f.isList = false := by simpa using hkind
    rw [if_neg (by simp [hkind])] at hsource
    exact RlpFieldRef.eq_of hsource hkind (length_rlpItemContent f).symm
  · intro h
    have hkind : f.isList = false := congrArg RlpFieldRef.isList h
    refine ⟨by simp [hkind], ?_⟩
    rw [if_neg (by simp [hkind])]
    exact congrArg RlpFieldRef.source h

theorem rlpListCanonical_iff {f : RlpFieldRef} (hlen : f.contentLen ≤ scratchRegionBound)
    (hkind : f.isList = true) :
    rlpRefFramingCanonical f = true ↔ f = listField (rlpItemContent f) := by
  rw [rlpRefFramingCanonical_iff hlen, if_pos hkind]
  constructor
  · intro hsource
    exact RlpFieldRef.eq_of hsource hkind (length_rlpItemContent f).symm
  · intro h
    exact congrArg RlpFieldRef.source h

@[simp] theorem rlpItemContent_listField (payload : List Byte) :
    rlpItemContent (listField payload) = payload :=
  subSlice_suffix _ payload

/-! ## Integers -/

/-- A byte string is a minimal integer when it does not start with a zero
byte. -/
theorem eq_bigEndian_iff (bs : List Byte) :
    bs = bigEndian (natOfBytes bs) ↔ bs.length = 0 ∨ sliceByte bs 0 ≠ 0 := by
  cases bs with
  | nil => simp [bigEndian, bytesOfNat]
  | cons x ds =>
    have hle : byteLength (natOfBytes (x :: ds)) ≤ (x :: ds).length :=
      byteLength_le_iff.mpr (natOfBytes_lt _)
    have hlt := natOfBytes_lt ds
    have hcons := natOfBytes_cons x ds
    constructor
    · intro h
      refine Or.inr fun (hzero : x = 0) => ?_
      have hlen := congrArg List.length h
      rw [length_bigEndian] at hlen
      have hshort : byteLength (natOfBytes (x :: ds)) ≤ ds.length := by
        rw [byteLength_le_iff, hcons, hzero]
        simpa using hlt
      rw [← hlen, List.length_cons] at hshort
      omega
    · rintro (hnil | hx)
      · cases hnil
      · have hpos : 0 < x.toNat := by
          refine Nat.pos_of_ne_zero fun h => hx ?_
          exact BitVec.eq_of_toNat_eq h
        have hge : ¬ byteLength (natOfBytes (x :: ds)) ≤ ds.length := by
          rw [byteLength_le_iff, hcons]
          have := Nat.le_mul_of_pos_left (256 ^ ds.length) hpos
          omega
        rw [List.length_cons] at hle
        rw [bigEndian, show byteLength (natOfBytes (x :: ds)) = (x :: ds).length by
          rw [List.length_cons]; omega, bytesOfNat_natOfBytes]

theorem rlpUintCanonical_iff {f : RlpFieldRef} (hlen : f.contentLen ≤ scratchRegionBound) :
    rlpItemUintCanonical f = true ↔ f = bytesField (bigEndian (natOfBytes (rlpItemContent f))) := by
  have hmin : (f.contentLen == 0 ||
      sliceByte f.source (f.source.length - f.contentLen) != 0x00) = true ↔
      rlpItemContent f = bigEndian (natOfBytes (rlpItemContent f)) := by
    rw [eq_bigEndian_iff, length_rlpItemContent, Bool.or_eq_true, beq_iff_eq, bne_iff_ne]
    by_cases hn : f.contentLen = 0
    · exact ⟨fun _ => Or.inl hn, fun _ => Or.inl hn⟩
    · rw [sliceByte_content hn]
  rw [rlpItemUintCanonical, Bool.and_eq_true, rlpBytesCanonical_iff hlen, hmin]
  constructor
  · rintro ⟨hf, hc⟩
    rwa [← hc]
  · intro hf
    have hc : rlpItemContent f = bigEndian (natOfBytes (rlpItemContent f)) := by
      have hcontent := congrArg rlpItemContent hf
      rwa [rlpItemContent_bytesField] at hcontent
    exact ⟨by rwa [← hc] at hf, hc⟩

theorem rlpDecodeWord_eq_ok {f : RlpFieldRef} {w : Word} :
    rlpDecodeWord f = .ok w ↔ f.isList = false ∧ f.contentLen ≤ 32 ∧
      w = BitVec.ofNat 256 (natOfBytes (rlpItemContent f)) := by
  have hload : sliceLoadN f.source (f.source.length - f.contentLen) f.contentLen =
      BitVec.ofNat 256 (natOfBytes (rlpItemContent f)) := by
    have hlen := length_rlpItemContent f
    rw [rlpItemContent, subSlice] at hlen
    rw [sliceLoadN, rlpItemContent, subSlice, List.rightpad, hlen, Nat.sub_self,
      List.replicate_zero, List.append_nil]
  rw [rlpDecodeWord, hload]
  constructor
  · intro h
    split at h
    · cases h
    · rename_i hno
      rw [not_or, Bool.not_eq_true, Nat.not_lt] at hno
      exact ⟨hno.1, hno.2, (Except.ok.inj h).symm⟩
  · rintro ⟨hkind, hlen, rfl⟩
    rw [if_neg (by simp [hkind, hlen])]

theorem natOfBytes_content_lt {f : RlpFieldRef} {n : Nat} (h : f.contentLen ≤ n) :
    natOfBytes (rlpItemContent f) < 256 ^ n := by
  have hlt := natOfBytes_lt (rlpItemContent f)
  rw [length_rlpItemContent] at hlt
  exact hlt.trans_le (Nat.pow_le_pow_right (by omega) h)

/-- The integer fields of one word are the encodings of words. -/
theorem rlpDecodeU256_eq_ok {f : RlpFieldRef} {w : Word}
    (hlen : f.contentLen ≤ scratchRegionBound) :
    rlpDecodeU256 f = .ok w ↔ f = bytesField (bigEndian w.toNat) := by
  rw [rlpDecodeU256]
  constructor
  · intro h
    split at h
    · rename_i hcanon
      obtain ⟨_, hle, rfl⟩ := rlpDecodeWord_eq_ok.mp h
      have hlt := natOfBytes_content_lt hle
      rw [BitVec.toNat_ofNat, Nat.mod_eq_of_lt (by simpa using hlt)]
      exact (rlpUintCanonical_iff hlen).mp hcanon
    · cases h
  · intro h
    have hcontent : rlpItemContent f = bigEndian w.toNat := by
      rw [h, rlpItemContent_bytesField]
    have hwidth : f.contentLen ≤ 32 := by
      rw [← length_rlpItemContent, hcontent, length_bigEndian, byteLength_le_iff]
      exact w.isLt
    rw [if_pos]
    · refine rlpDecodeWord_eq_ok.mpr ⟨congrArg RlpFieldRef.isList h, hwidth, ?_⟩
      rw [hcontent, natOfBytes_bigEndian, BitVec.ofNat_toNat, BitVec.setWidth_eq]
    · rw [rlpUintCanonical_iff hlen, hcontent, natOfBytes_bigEndian]
      exact h

/-- The integer fields of 64 bits are the encodings of 64-bit quantities. -/
theorem rlpDecodeUint64_eq_ok {f : RlpFieldRef} {n : Nat}
    (hlen : f.contentLen ≤ scratchRegionBound) :
    rlpDecodeUint64 f = .ok n ↔ n < 2 ^ 64 ∧ f = bytesField (bigEndian n) := by
  have hvalue : f.contentLen ≤ 8 →
      rlpUint64Width (rlpItemContent f) (f.contentLen % 9) = natOfBytes (rlpItemContent f) := by
    intro hle
    rw [Nat.mod_eq_of_lt (by omega), ← length_rlpItemContent f, rlpUint64Width_eq]
  rw [rlpDecodeUint64]
  constructor
  · intro h
    split at h
    · cases h
    · rename_i hno
      rw [Bool.not_eq_true, Bool.or_eq_false_iff, Bool.not_eq_false', decide_eq_false_iff_not,
        Nat.not_lt] at hno
      obtain ⟨hcanon, hle⟩ := hno
      obtain rfl := Except.ok.inj h
      rw [hvalue hle]
      exact ⟨natOfBytes_content_lt hle, (rlpUintCanonical_iff hlen).mp hcanon⟩
  · rintro ⟨hn, h⟩
    have hcontent : rlpItemContent f = bigEndian n := by
      rw [h, rlpItemContent_bytesField]
    have hle : f.contentLen ≤ 8 := by
      rw [← length_rlpItemContent, hcontent, length_bigEndian, byteLength_le_iff]
      exact hn
    have hcanon : rlpItemUintCanonical f = true := by
      rw [rlpUintCanonical_iff hlen, hcontent, natOfBytes_bigEndian]
      exact h
    rw [if_neg (by simp [hcanon, hle]), hvalue hle, hcontent, natOfBytes_bigEndian]

/-! ## Sequences of items -/

theorem announced_bytesField {b : List Byte} (hb : b.length ≤ scratchRegionBound) :
    (bytesField b).Announced := by
  have h := rlpDecodeItem_bytes hb []
  rwa [List.append_nil] at h

theorem announced_listField {payload : List Byte} (hp : payload.length ≤ scratchRegionBound) :
    (listField payload).Announced := by
  have h := rlpDecodeItem_list hp []
  rwa [List.append_nil] at h

/-- The bytes of a sequence of items. -/
def sourcesOf (fs : List RlpFieldRef) : List Byte := (fs.map RlpFieldRef.source).flatten

@[simp] theorem sourcesOf_nil : sourcesOf [] = [] := rfl

@[simp] theorem sourcesOf_cons (f : RlpFieldRef) (fs : List RlpFieldRef) :
    sourcesOf (f :: fs) = f.source ++ sourcesOf fs := rfl

/-- A cursor is the sequence of items `fs`. -/
structure Fields (c : List Byte) (fs : List RlpFieldRef) : Prop where
  announced : ∀ f ∈ fs, f.Announced
  bytes : c = sourcesOf fs

namespace Fields

theorem nil : Fields [] [] := ⟨by simp, rfl⟩

theorem cons {f : RlpFieldRef} {c : List Byte} {fs : List RlpFieldRef} (hf : f.Announced)
    (h : Fields c fs) : Fields (f.source ++ c) (f :: fs) :=
  ⟨List.forall_mem_cons.mpr ⟨hf, h.announced⟩, by rw [sourcesOf_cons, ← h.bytes]⟩

/-- The sequence behind the first item. -/
theorem tail {f : RlpFieldRef} {c : List Byte} {fs : List RlpFieldRef} (h : Fields c (f :: fs)) :
    f.Announced ∧ c = f.source ++ sourcesOf fs ∧ Fields (sourcesOf fs) fs := by
  obtain ⟨hf, hfs⟩ := List.forall_mem_cons.mp h.announced
  exact ⟨hf, h.bytes, hfs, rfl⟩

theorem eq_nil {fs : List RlpFieldRef} (h : Fields [] fs) : fs = [] := by
  cases fs with
  | nil => rfl
  | cons f fs =>
    obtain ⟨hf, hc, _⟩ := h.tail
    exact absurd (List.append_eq_nil_iff.mp hc.symm).1 hf.source_ne_nil

/-- A cursor is a sequence of items in at most one way. -/
theorem unique {c : List Byte} {fs gs : List RlpFieldRef} (h : Fields c fs) (h' : Fields c gs) :
    fs = gs := by
  induction fs generalizing c gs with
  | nil =>
    rw [show c = [] from h.bytes] at h'
    exact (eq_nil h').symm
  | cons f fs ih =>
    obtain ⟨hf, hc, hrest⟩ := h.tail
    cases gs with
    | nil =>
      rw [h'.bytes] at hc
      exact absurd (List.append_eq_nil_iff.mp hc.symm).1 hf.source_ne_nil
    | cons g gs =>
      obtain ⟨hg, hc', hrest'⟩ := h'.tail
      have hfg : f = g := by
        have hd := hf.decode (sourcesOf fs)
        rw [← hc, hc', hg.decode] at hd
        exact (Except.ok.inj hd).symm
      subst hfg
      rw [hc] at hc'
      rw [ih hrest (List.append_cancel_left hc' ▸ hrest')]

/-- The items of a bounded cursor are bounded. -/
theorem length_le {c : List Byte} {fs : List RlpFieldRef} (h : Fields c fs) {f : RlpFieldRef}
    (hf : f ∈ fs) : f.source.length ≤ c.length := by
  rw [h.bytes]
  clear h
  induction fs with
  | nil => cases hf
  | cons g fs ih =>
    rw [sourcesOf_cons, List.length_append]
    rcases List.mem_cons.mp hf with rfl | hmem
    · exact Nat.le_add_right _ _
    · exact (ih hmem).trans (Nat.le_add_left _ _)

end Fields

theorem rlpTakeItem_append {f : RlpFieldRef} (hf : f.Announced) (rest : List Byte) :
    ∃ hlt, rlpTakeItem (f.source ++ rest) = .ok (f, ⟨rest, hlt⟩) := by
  have hlt : rest.length < (f.source ++ rest).length := by
    have := List.length_pos_iff.mpr hf.source_ne_nil
    rw [List.length_append]
    omega
  refine ⟨hlt, ?_⟩
  rw [rlpTakeItem]
  split
  · rename_i e h
    rw [hf.decode] at h
    cases h
  · rename_i item h
    rw [hf.decode] at h
    cases h
    simp only [rlpCursorAdvance_append]

theorem rlpTakeItem_eq_ok {c : List Byte} {f : RlpFieldRef}
    {next : { next : List Byte // next.length < c.length }} (h : rlpTakeItem c = .ok (f, next)) :
    f.Announced ∧ c = f.source ++ next.val := by
  have hitem : rlpDecodeItem c = .ok f := by
    rw [rlpTakeItem] at h
    split at h
    · cases h
    · rename_i item hitem
      cases h
      exact hitem
  obtain ⟨hf, rest, rfl⟩ := rlpDecodeItem_announced hitem
  obtain ⟨hlt, htake⟩ := rlpTakeItem_append hf rest
  rw [htake] at h
  cases h
  exact ⟨hf, rfl⟩

/-- Taking a fixed number of fields. -/
theorem rlpTakeFields_eq_ok {n : Nat} {c : List Byte} {v : Vector RlpFieldRef n} :
    rlpTakeFields n c = .ok v ↔ Fields c v.toList := by
  induction n generalizing c with
  | zero =>
    obtain rfl : v = #v[] := by simp
    rw [rlpTakeFields, rlpCursorExpectEnd]
    constructor
    · intro h
      split at h
      · rename_i hc
        rw [List.eq_nil_of_length_eq_zero hc]
        exact Fields.nil
      · cases h
    · intro h
      rw [show c = [] from h.bytes]
      rfl
  | succ n ih =>
    rw [rlpTakeFields]
    constructor
    · intro h
      obtain ⟨f, hitem, hfields⟩ := bind_eq_ok.mp h
      obtain ⟨rest, hrest, hv⟩ := bind_eq_ok.mp hfields
      obtain ⟨hf, next, rfl⟩ := rlpDecodeItem_announced hitem
      rw [rlpCursorAdvance_append] at hrest
      obtain rfl := Except.ok.inj hv
      have hlist : ((#v[f] ++ rest).cast (Nat.add_comm 1 n)).toList = f :: rest.toList := by
        rw [Vector.toList_cast, Vector.toList_append]
        rfl
      rw [hlist]
      exact (ih.mp hrest).cons hf
    · intro h
      have hlen : v.toList.length = n + 1 := by simp
      obtain ⟨f, fs, hv⟩ := List.exists_cons_of_length_pos (show 0 < v.toList.length by omega)
      rw [hv] at h
      obtain ⟨hf, rfl, hfs⟩ := h.tail
      have hfslen : fs.length = n := by
        rw [hv, List.length_cons] at hlen
        omega
      have hrest : rlpTakeFields n (sourcesOf fs) = .ok ⟨fs.toArray, by simpa using hfslen⟩ :=
        ih.mpr hfs
      rw [hf.decode, ok_bind, rlpCursorAdvance_append, hrest, ok_bind]
      refine congrArg Except.ok ?_
      rw [← Vector.toList_inj, hv]
      simp

/-- A decoder that walks a cursor to its end returns only on a sequence of
items. -/
theorem exists_fields {Good : List Byte → Prop}
    (h : ∀ c, c ≠ [] → Good c → ∃ (f : RlpFieldRef) (rest : List Byte),
      f.Announced ∧ c = f.source ++ rest ∧ Good rest)
    {c : List Byte} (hc : Good c) : ∃ fs, Fields c fs := by
  induction hn : c.length using Nat.strongRecOn generalizing c with
  | _ n ih =>
    by_cases hnil : c = []
    · exact ⟨[], hnil ▸ Fields.nil⟩
    · obtain ⟨f, rest, hf, rfl, hrest⟩ := h c hnil hc
      have hpos := List.length_pos_iff.mpr hf.source_ne_nil
      rw [List.length_append] at hn
      obtain ⟨fs, hfs⟩ := ih rest.length (by omega) hrest rfl
      exact ⟨f :: fs, hfs.cons hf⟩

/-- A decoder that walks a cursor item by item, by what it does at the end
of the cursor and at one item. -/
theorem walk_iff {σ ρ : Type} {W : List Byte → σ → Result ρ}
    {R : List RlpFieldRef → σ → ρ → Prop}
    (hnil : ∀ s r, W [] s = .ok r ↔ R [] s r)
    (hstuck : ∀ c s r, c ≠ [] → W c s = .ok r → ∃ (f : RlpFieldRef) (rest : List Byte),
      f.Announced ∧ c = f.source ++ rest ∧ ∃ s' r', W rest s' = .ok r')
    (hcons : ∀ f rest fs, f.Announced → (∀ s r, W rest s = .ok r ↔ R fs s r) →
      ∀ s r, W (f.source ++ rest) s = .ok r ↔ R (f :: fs) s r)
    {c : List Byte} {s : σ} {r : ρ} :
    W c s = .ok r ↔ ∃ fs, Fields c fs ∧ R fs s r := by
  have hfields : ∀ (fs : List RlpFieldRef) (c : List Byte), Fields c fs →
      ∀ s r, W c s = .ok r ↔ R fs s r := by
    intro fs
    induction fs with
    | nil =>
      intro c h
      rw [show c = [] from h.bytes]
      exact hnil
    | cons f fs ih =>
      intro c h
      obtain ⟨hf, rfl, hrest⟩ := h.tail
      exact hcons f _ fs hf (ih _ hrest)
  constructor
  · intro hw
    have hgood : ∀ c, c ≠ [] → (∃ s r, W c s = .ok r) → ∃ (f : RlpFieldRef) (rest : List Byte),
        f.Announced ∧ c = f.source ++ rest ∧ ∃ s r, W rest s = .ok r := by
      intro c hc hok
      obtain ⟨s, r, hw⟩ := hok
      exact hstuck c s r hc hw
    obtain ⟨fs, hfs⟩ := exists_fields hgood ⟨s, r, hw⟩
    exact ⟨fs, hfs, (hfields fs c hfs s r).mp hw⟩
  · rintro ⟨fs, hfs, hr⟩
    exact (hfields fs c hfs s r).mpr hr

end EvmSail
