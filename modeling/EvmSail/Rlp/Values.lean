/-
# `EvmSail.Rlp.Values` — values and the walk that reads them back

An RLP value is a byte string or a list of values; `encodeValues` is what
the source's writers emit for a sequence of them.  `rlpValues` walks a
cursor to its end with `rlp_decode_item`, `rlp_cursor_advance` and, below
a list, `rlp_decode_list`.  Every sequence of values that fits a slice is
read back from its encoding (`rlpValues_encodeValues`).

Framing is decided exactly.  Among the items that announce a content there
is one shortest, the one the writers emit, and `rlp_ref_framing_canonical`
holds of it alone (`rlpRefFramingCanonical_iff_shortest`); the integer
decoders accept the items that `rlp_write_uint` emits and no other
(`rlpFraming_exact`).
-/
import EvmSail.Rlp.Fields

namespace EvmSail

open Fallible

/-! ## Values -/

/-- A byte string, or a list of values. -/
inductive RlpValue where
  | bytes (b : List Byte)
  | list (vs : List RlpValue)

mutual

/-- What the writers emit for a value. -/
def RlpValue.encode : RlpValue → List Byte
  | .bytes b => rlpWriteSlice b
  | .list vs => rlpWriteListPrefix (encodeValues vs).length ++ encodeValues vs

/-- The encodings of a sequence of values, one behind the other. -/
def encodeValues : List RlpValue → List Byte
  | [] => []
  | v :: vs => v.encode ++ encodeValues vs

end

/-- What the writers emit around a content. -/
def rlpFrame (isList : Bool) (content : List Byte) : List Byte :=
  if isList then rlpWriteListPrefix content.length ++ content else rlpWriteSlice content

theorem HeaderOf.list_off_pos {c : List Byte} {h off len : Nat} (hhdr : HeaderOf c h true off len) :
    0 < off := by
  cases hhdr with
  | list => exact Nat.one_pos
  | longList => exact Nat.add_pos_left Nat.one_pos _

/-- The content of a list item is shorter than the cursor it is read from. -/
theorem listContent_lt {cursor : List Byte} {item : RlpFieldRef}
    {next : { next : List Byte // next.length < cursor.length }}
    (h : rlpTakeItem cursor = .ok (item, next)) (hlist : item.isList = true) :
    (rlpItemContent item).length < cursor.length := by
  obtain ⟨hannounced, hcursor⟩ := rlpTakeItem_eq_ok h
  obtain ⟨off, hhdr, _, hle, _⟩ := rlpDecodeItem_eq_ok.mp hannounced
  obtain ⟨_, hheader⟩ := rlpRefHdr_eq_ok.mp hhdr
  rw [hlist] at hheader
  have hoff := hheader.list_off_pos
  rw [length_rlpItemContent, hcursor, List.length_append]
  omega

/-- The values of a cursor, read to its end. -/
def rlpValues (cursor : List Byte) : Result (List RlpValue) :=
  if cursor.length = 0 then .ok []
  else
    match h : rlpTakeItem cursor with
    | .error e => .error e
    | .ok (item, ⟨next, _⟩) =>
      if hlist : item.isList = true then do
        have := listContent_lt h hlist
        let children ← rlpValues (rlpItemContent item)
        let rest ← rlpValues next
        .ok (.list children :: rest)
      else do
        let rest ← rlpValues next
        .ok (.bytes (rlpItemContent item) :: rest)
termination_by cursor.length

/-! ## Reading a sequence of values back -/

theorem rlpFrame_eq (isList : Bool) (content : List Byte) :
    rlpFrame isList content = if isList then rlpList content else rlpBytes content := by
  rw [rlpFrame, rlpWriteSlice_eq]
  rfl

/-- The item that the writers emit around a content. -/
def frameField (isList : Bool) (content : List Byte) : RlpFieldRef :=
  if isList then listField content else bytesField content

theorem frameField_spec (isList : Bool) (content : List Byte) :
    (frameField isList content).source = rlpFrame isList content ∧
      (frameField isList content).isList = isList ∧
      rlpItemContent (frameField isList content) = content := by
  rw [rlpFrame_eq]
  cases isList with
  | true => exact ⟨rfl, rfl, rlpItemContent_listField content⟩
  | false => exact ⟨rfl, rfl, rlpItemContent_bytesField content⟩

theorem announced_frameField {isList : Bool} {content : List Byte}
    (h : content.length ≤ scratchRegionBound) : (frameField isList content).Announced := by
  cases isList with
  | true => exact announced_listField h
  | false => exact announced_bytesField h

/-- One step of the walk, at an item that the writers emitted. -/
theorem rlpValues_frame {isList : Bool} {content : List Byte}
    (h : content.length ≤ scratchRegionBound) (rest : List Byte) :
    rlpValues (rlpFrame isList content ++ rest) =
      if isList = true then
        rlpValues content >>= fun vs => rlpValues rest >>= fun ws => .ok (.list vs :: ws)
      else rlpValues rest >>= fun ws => .ok (.bytes content :: ws) := by
  obtain ⟨hsource, hkind, hcontent⟩ := frameField_spec isList content
  have hannounced : (frameField isList content).Announced := announced_frameField h
  obtain ⟨hlt, htake⟩ := rlpTakeItem_append hannounced rest
  have hne : ¬ ((frameField isList content).source ++ rest).length = 0 := by omega
  rw [← hsource, rlpValues, if_neg hne]
  split
  · rename_i e herror
    rw [htake] at herror
    cases herror
  · rename_i item next hnext hitem
    rw [htake] at hitem
    cases hitem
    simp only [hkind, hcontent, dite_eq_ite]

theorem encode_bytes (b : List Byte) : RlpValue.encode (.bytes b) = rlpFrame false b := rfl

theorem encode_list (vs : List RlpValue) :
    RlpValue.encode (.list vs) = rlpFrame true (encodeValues vs) := rfl

theorem length_le_rlpFrame (isList : Bool) (content : List Byte) :
    content.length ≤ (rlpFrame isList content).length := by
  rw [rlpFrame, rlpWriteSlice]
  split <;> rw [List.length_append] <;> exact Nat.le_add_left _ _

mutual

/-- Walking an encoded value and what follows it. -/
theorem rlpValues_encode (v : RlpValue) (rest : List Byte)
    (h : v.encode.length ≤ scratchRegionBound) :
    rlpValues (v.encode ++ rest) = rlpValues rest >>= fun vs => .ok (v :: vs) := by
  cases v with
  | bytes b =>
    rw [encode_bytes] at h ⊢
    rw [rlpValues_frame ((length_le_rlpFrame false b).trans h), if_neg Bool.false_ne_true]
  | list vs =>
    rw [encode_list] at h ⊢
    have hchildren := (length_le_rlpFrame true (encodeValues vs)).trans h
    rw [rlpValues_frame hchildren, if_pos rfl, rlpValues_encodeValues vs hchildren, ok_bind]

/-- Walking an encoded sequence of values returns it and ends at its end. -/
theorem rlpValues_encodeValues (vs : List RlpValue)
    (h : (encodeValues vs).length ≤ scratchRegionBound) :
    rlpValues (encodeValues vs) = .ok vs := by
  cases vs with
  | nil =>
    rw [encodeValues, rlpValues, if_pos List.length_nil]
  | cons v vs =>
    rw [encodeValues, List.length_append] at h
    rw [encodeValues, rlpValues_encode v _ (by omega), rlpValues_encodeValues vs (by omega),
      ok_bind]

end

/-! ## The shortest framing -/

/-- A header that announces `n` in the two ways a band has is the one the
writers emit, or longer. -/
theorem header_shortest {hdr : List Byte} {n : Nat} (band : Nat)
    (h : n ≤ 55 ∧ hdr = [BitVec.ofNat 8 (band + n)] ∨
      ∃ ds, 1 ≤ ds.length ∧ natOfBytes ds = n ∧
        hdr = BitVec.ofNat 8 (band + 55 + ds.length) :: ds) :
    hdr = rlpHeader band n ∨ (rlpHeader band n).length < hdr.length := by
  rw [rlpHeader]
  rcases h with ⟨hn, rfl⟩ | ⟨ds, hpos, hds, rfl⟩
  · rw [if_pos hn]
    exact Or.inl rfl
  · split
    · refine Or.inr ?_
      rw [List.length_cons, List.length_cons, List.length_nil]
      omega
    · have hle : byteLength n ≤ ds.length := by
        rw [← hds]
        exact byteLength_le_iff.mpr (natOfBytes_lt ds)
      rcases Nat.lt_or_eq_of_le hle with hlt | heq
      · refine Or.inr ?_
        rw [List.length_cons, List.length_cons, length_bigEndian]
        omega
      · refine Or.inl ?_
        rw [bigEndian, heq, ← hds, bytesOfNat_natOfBytes]

/-- The header of an item that starts a slice, by the band of its kind. -/
theorem HeaderOf.shape {c : List Byte} {isList : Bool} {off len : Nat}
    (hc : c ≠ []) (h : HeaderOf c (sliceByte c 0).toNat isList off len) (hle : off ≤ c.length) :
    (isList = false ∧ off = 0 ∧ len = 1 ∧ (sliceByte c 0).toNat < 128) ∨
      (len ≤ 55 ∧ c.take off = [BitVec.ofNat 8 ((if isList then 0xc0 else 0x80) + len)] ∨
        ∃ ds, 1 ≤ ds.length ∧ natOfBytes ds = len ∧ c.take off =
          BitVec.ofNat 8 ((if isList then 0xc0 else 0x80) + 55 + ds.length) :: ds) := by
  obtain ⟨x, tail, rfl⟩ := List.exists_cons_of_ne_nil hc
  have hx : sliceByte (x :: tail) 0 = x := rfl
  have hbyte : ∀ b : Nat, b = x.toNat → x = BitVec.ofNat 8 b := by
    rintro b rfl
    rw [BitVec.ofNat_toNat, BitVec.setWidth_eq]
  have hlong : ∀ w, 1 ≤ w → 1 + w ≤ (x :: tail).length →
      ∃ ds : List Byte, ds.length = w ∧
        rlpUint64Width (subSlice (x :: tail) 1 w) w = natOfBytes ds ∧
        (x :: tail).take (1 + w) = x :: ds := by
    intro w hw hwle
    rw [List.length_cons] at hwle
    have hlen : (tail.take w).length = w := by
      rw [List.length_take]
      omega
    refine ⟨tail.take w, hlen, ?_, ?_⟩
    · have hval := rlpUint64Width_eq (tail.take w)
      rwa [hlen] at hval
    · rw [Nat.add_comm, List.take_succ_cons]
  rw [hx] at h ⊢
  cases h with
  | byte h₁ => exact Or.inl ⟨rfl, rfl, rfl, h₁⟩
  | string h₁ h₂ =>
    refine Or.inr (Or.inl ⟨by omega, ?_⟩)
    rw [← hbyte _ (by simp; omega)]
    rfl
  | longString h₁ h₂ hw =>
    obtain ⟨ds, hds, hval, htake⟩ := hlong _ (by omega) hle
    refine Or.inr (Or.inr ⟨ds, by omega, hval.symm, ?_⟩)
    rw [htake, ← hbyte _ (by simp; omega)]
  | list h₁ h₂ =>
    refine Or.inr (Or.inl ⟨by omega, ?_⟩)
    rw [← hbyte _ (by simp; omega)]
    rfl
  | longList h₁ hw =>
    obtain ⟨ds, hds, hval, htake⟩ := hlong _ (by omega) hle
    refine Or.inr (Or.inr ⟨ds, by omega, hval.symm, ?_⟩)
    rw [htake, ← hbyte _ (by simp; omega)]

/-- The header and the content of an announced field. -/
theorem RlpFieldRef.Announced.header {f : RlpFieldRef} (h : f.Announced) :
    ∃ hdr, f.source = hdr ++ rlpItemContent f ∧
      (f.isList = false ∧ hdr = [] ∧ SelfEncoded (rlpItemContent f) ∨
        f.contentLen ≤ 55 ∧
            hdr = [BitVec.ofNat 8 ((if f.isList then 0xc0 else 0x80) + f.contentLen)] ∨
          ∃ ds, 1 ≤ ds.length ∧ natOfBytes ds = f.contentLen ∧ hdr =
            BitVec.ofNat 8 ((if f.isList then 0xc0 else 0x80) + 55 + ds.length) :: ds) := by
  obtain ⟨off, hhdr, _, hle, hsource⟩ := rlpDecodeItem_eq_ok.mp h
  obtain ⟨_, hheader⟩ := rlpRefHdr_eq_ok.mp hhdr
  have hlen := congrArg List.length hsource
  rw [List.length_take, Nat.min_eq_left hle] at hlen
  have hsplit := f.source_eq
  have hoff : f.source.length - f.contentLen = off := by omega
  rw [hoff] at hsplit
  refine ⟨f.source.take off, hsplit, ?_⟩
  rcases hheader.shape h.source_ne_nil (by omega) with ⟨hkind, hzero, hone, hlow⟩ | hshape
  · refine Or.inl ⟨hkind, by rw [hzero, List.take_zero], ?_⟩
    rw [hzero, List.take_zero, List.nil_append] at hsplit
    refine (selfEncoded_iff _).mpr ⟨(length_rlpItemContent f).trans hone, ?_⟩
    rw [← hsplit]
    exact (msb_eq_false_iff _).mpr hlow
  · exact Or.inr hshape

/-- An announced field is what the writers emit around its content, or it
is longer. -/
theorem RlpFieldRef.Announced.shortest {f : RlpFieldRef} (h : f.Announced) :
    f.source = rlpFrame f.isList (rlpItemContent f) ∨
      (rlpFrame f.isList (rlpItemContent f)).length < f.source.length := by
  have hcontent := length_rlpItemContent f
  obtain ⟨hdr, hsource, hshape⟩ := h.header
  rw [rlpFrame_eq, hsource]
  rcases hshape with ⟨hkind, rfl, hself⟩ | hshape
  · rw [hkind, if_neg Bool.false_ne_true, rlpBytes_of_selfEncoded hself]
    exact Or.inl rfl
  · have hpos : 0 < hdr.length := by
      rcases hshape with ⟨_, rfl⟩ | ⟨ds, _, _, rfl⟩ <;> simp
    have hheader := header_shortest _ hshape
    rw [List.length_append]
    cases hkind : f.isList with
    | true =>
      rw [hkind] at hheader
      rw [if_pos rfl, rlpList, hcontent, List.length_append, hcontent]
      rcases hheader with heq | hlt
      · exact Or.inl (by rw [heq]; rfl)
      · exact Or.inr (Nat.add_lt_add_right hlt _)
    | false =>
      rw [hkind] at hheader
      rw [if_neg Bool.false_ne_true]
      by_cases hself : SelfEncoded (rlpItemContent f)
      · rw [rlpBytes_of_selfEncoded hself]
        exact Or.inr (Nat.lt_add_of_pos_left hpos)
      · rw [rlpBytes_of_not_selfEncoded hself, hcontent, List.length_append, hcontent]
        rcases hheader with heq | hlt
        · exact Or.inl (by rw [heq]; rfl)
        · exact Or.inr (Nat.add_lt_add_right hlt _)

/-- Canonical framing is what the writers emit. -/
theorem rlpRefFramingCanonical_iff_frame {f : RlpFieldRef}
    (hlen : f.source.length ≤ scratchRegionBound) :
    rlpRefFramingCanonical f = true ↔ f.source = rlpFrame f.isList (rlpItemContent f) := by
  rw [rlpRefFramingCanonical_iff (f.content_le.trans hlen), rlpFrame_eq]

/-- Canonical framing is the shortest framing: no item with the same kind
and content is shorter. -/
theorem rlpRefFramingCanonical_iff_shortest {f : RlpFieldRef}
    (hlen : f.source.length ≤ scratchRegionBound) (hf : f.Announced) :
    rlpRefFramingCanonical f = true ↔ ∀ g : RlpFieldRef, g.Announced → g.isList = f.isList →
      rlpItemContent g = rlpItemContent f → f.source.length ≤ g.source.length := by
  rw [rlpRefFramingCanonical_iff_frame hlen]
  constructor
  · intro heq g hg hkind hcontent
    have hshort := hg.shortest
    rw [hkind, hcontent, ← heq] at hshort
    rcases hshort with hsame | hlt
    · rw [hsame]
    · exact hlt.le
  · intro hmin
    have hbound : (rlpItemContent f).length ≤ scratchRegionBound := by
      rw [length_rlpItemContent]
      exact f.content_le.trans hlen
    obtain ⟨hsource, hkind, hcontent⟩ := frameField_spec f.isList (rlpItemContent f)
    have hle := hmin _ (announced_frameField hbound) hkind hcontent
    rw [hsource] at hle
    rcases hf.shortest with heq | hlt
    · exact heq
    · exact absurd hlt (Nat.not_lt.mpr hle)

/-! ## Integers -/

/-- An announced field is the writers' integer `n` when its bytes are. -/
theorem eq_uint_iff {f : RlpFieldRef} {n : Nat} (hlen : f.source.length ≤ scratchRegionBound)
    (hf : f.Announced) : f = bytesField (bigEndian n) ↔ f.source = rlpWriteUint n := by
  rw [rlpWriteUint_eq]
  constructor
  · intro h
    exact congrArg RlpFieldRef.source h
  · intro h
    have hbound : (bigEndian n).length ≤ scratchRegionBound := by
      refine le_trans ?_ hlen
      rw [h]
      exact (bytesField (bigEndian n)).content_le
    have hback : (bytesField (bigEndian n)).Announced := announced_bytesField hbound
    rw [RlpFieldRef.Announced, h] at hf
    exact Except.ok.inj (hf.symm.trans hback)

/-! ## The result -/

/-- The unconsumed suffix of a source, which a host region holds. -/
structure RlpCursor where
  bytes : List Byte
  length_le : bytes.length ≤ scratchRegionBound

/-- Framing is decided exactly, encoded sequences of values are read back,
and the integer decoders accept exactly the written integers. -/
theorem rlpFraming_exact :
    (∀ (c : RlpCursor) f, rlpDecodeItem c.bytes = .ok f →
      (rlpRefFramingCanonical f = true ↔ f.source = rlpFrame f.isList (rlpItemContent f)) ∧
      (rlpRefFramingCanonical f = true ↔ ∀ g : RlpFieldRef, rlpDecodeItem g.source = .ok g →
        g.isList = f.isList → rlpItemContent g = rlpItemContent f →
          f.source.length ≤ g.source.length) ∧
      (∀ n, rlpDecodeUint64 f = .ok n ↔ n < 2 ^ 64 ∧ f.source = rlpWriteUint n) ∧
      (∀ w, rlpDecodeU256 f = .ok w ↔ f.source = rlpWriteUint w.toNat)) ∧
    (∀ (c : RlpCursor) vs, c.bytes = encodeValues vs → rlpValues c.bytes = .ok vs) := by
  constructor
  · intro c f h
    obtain ⟨hf, _⟩ := rlpDecodeItem_announced h
    have hlen := (rlpDecodeItem_length h).2.trans c.length_le
    have hcontent := f.content_le.trans hlen
    refine ⟨rlpRefFramingCanonical_iff_frame hlen, rlpRefFramingCanonical_iff_shortest hlen hf,
      ?_, ?_⟩
    · intro n
      rw [rlpDecodeUint64_eq_ok hcontent, eq_uint_iff hlen hf]
    · intro w
      rw [rlpDecodeU256_eq_ok hcontent, eq_uint_iff hlen hf]
  · intro c vs hc
    have hlen := c.length_le
    rw [hc] at hlen ⊢
    exact rlpValues_encodeValues vs hlen

end EvmSail
