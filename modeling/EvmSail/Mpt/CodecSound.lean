/-
# `EvmSail.Mpt.CodecSound` — the codec against the canonical encoding

`RefOf r enc` says that the reference `r` denotes the node encoded as
`enc`.  The encoders of `EvmSail.Mpt.Codec` return a reference to exactly
the canonical encoding of their node, the decoders return the node they
were given the encoding of, and re-keying (`mergeExtNode`, `mergeExtRef`)
is `Trie.prepend` on the node behind the reference.
-/
import EvmSail.Mpt.Codec

namespace EvmSail

open Fallible Radix

variable {keccak256 : List Byte → Hash}

/-! ## References and what they denote -/

/-- The reference denotes the node with this encoding. -/
inductive RefOf (keccak256 : List Byte → Hash) : NodeRef → List Byte → Prop
  | empty : RefOf keccak256 .emptyRef []
  | input (node : InlineNode) : node.bytes ≠ [] →
      RefOf keccak256 (.inputInlineRef node) node.bytes
  | scratch (node : InlineNode) : node.bytes ≠ [] →
      RefOf keccak256 (.scratchInlineRef node) node.bytes
  | hash (enc : List Byte) : 32 ≤ enc.length → RefOf keccak256 (.hashRef (keccak256 enc)) enc

theorem nodeField_inline {node : InlineNode} (h : node.bytes ≠ []) :
    nodeField keccak256 node.bytes = node.bytes := by
  have := node.len_le
  rw [nodeField, if_neg h, if_pos (by omega)]

theorem nodeField_hash {enc : List Byte} (h : 32 ≤ enc.length) :
    nodeField keccak256 enc = rlpBytes (keccak256 enc).toList := by
  rw [nodeField, if_neg, if_neg (by omega)]
  rintro rfl
  simp at h

theorem RefOf.size_eq {r : NodeRef} {enc : List Byte} (h : RefOf keccak256 r enc) :
    nodeRefSize r = (nodeField keccak256 enc).length := by
  cases h with
  | empty => rfl
  | input node hne => rw [nodeField_inline hne, nodeRefSize]
  | scratch node hne => rw [nodeField_inline hne, nodeRefSize]
  | hash _ hlen => rw [nodeField_hash hlen, length_rlpBytes_hash, nodeRefSize, rlpWordSize]

theorem RefOf.write_eq {r : NodeRef} {enc : List Byte} (h : RefOf keccak256 r enc) :
    rlpWriteNodeRef r = nodeField keccak256 enc := by
  cases h with
  | empty => rfl
  | input node hne => rw [nodeField_inline hne, rlpWriteNodeRef]
  | scratch node hne => rw [nodeField_inline hne, rlpWriteNodeRef]
  | hash _ hlen => rw [nodeField_hash hlen, rlpWriteNodeRef, rlpWriteWord_hashToWord]

theorem refOf_childRef {enc : List Byte} (h : enc ≠ []) :
    RefOf keccak256 (childRef keccak256 enc) enc := by
  rw [childRef]
  split
  · exact .scratch ⟨enc, _⟩ h
  · exact .hash enc (by omega)

theorem refOf_inputNodeToRef (enc : List Byte) :
    RefOf keccak256 (inputNodeToRef keccak256 enc) enc := by
  rw [inputNodeToRef]
  split
  · rename_i h
    obtain rfl := List.eq_nil_of_length_eq_zero h
    exact .empty
  · rename_i h
    split
    · exact .input ⟨enc, _⟩ fun hnil => h (by simpa using hnil)
    · exact .hash enc (by omega)

/-- The empty node is the only one without a reference. -/
theorem RefOf.eq_nil_iff {r : NodeRef} {enc : List Byte} (h : RefOf keccak256 r enc) :
    enc = [] ↔ r = .emptyRef := by
  cases h with
  | empty => simp
  | input node hne => simp [hne]
  | scratch node hne => simp [hne]
  | hash enc hlen =>
    constructor
    · rintro rfl
      simp at hlen
    · intro h
      cases h

/-! ## The encoders -/

theorem rlpList_ok {payload : List Byte} (h : payload.length + 5 ≤ scratchRegionBound) :
    (rlpList payload).length ≤ scratchRegionBound := by
  have := rlpLengthPrefixLen_le (n := payload.length) (by omega)
  rw [length_rlpList, rlpListSize]
  omega

variable (keccak256) in
theorem sliceLeafChildRef_eq (key : TriePath) {value : List Byte} (hv : ValueFits value) :
    sliceLeafChildRef keccak256 key value =
      .ok (childRef keccak256 (encodeNode keccak256 (.leaf key.nibbles value))) := by
  have hb := scratchRegionBound_ge
  have hkey := key.length_nibbles_le
  have hpay := length_leafPayload_le hkey hv
  have hval := length_rlpBytes_le (b := value) (by unfold ValueFits at hv; omega)
  unfold ValueFits at hv
  have hsum : (rlpBytes (hexPrefix key.nibbles true)).length + (rlpBytes value).length =
      (rlpBytes (hexPrefix key.nibbles true) ++ rlpBytes value).length := by simp
  rw [sliceLeafChildRef, rlpScratchSliceSize_ok (by omega), ok_bind, rlpHexPrefixSize_eq,
    rlpScratchLengthAdd_ok (by omega), ok_bind, hsum, rlpScratchListSize_ok (rlpList_ok (by omega)),
    ok_bind, rlpWriteHexPrefix_eq, rlpWriteSlice_eq, rlpWriteListPrefix_append,
    rlpEncoderFinish_ok rfl, ok_bind, encodeNode]

variable (keccak256) in
theorem sliceLeafChildRef_spec (key : TriePath) {value : List Byte} (hv : ValueFits value) :
    ∃ r, sliceLeafChildRef keccak256 key value = .ok r ∧
      RefOf keccak256 r (encodeNode keccak256 (.leaf key.nibbles value)) :=
  ⟨_, sliceLeafChildRef_eq keccak256 key hv, refOf_childRef (rlpList_ne_nil _)⟩

variable (keccak256) in
theorem leafChildRef_spec (key : TriePath) {value : TrieLeafValue} {v : List Byte}
    (hvalue : value = .inputTrieLeaf v ∨ value = .scratchTrieLeaf v) (hv : ValueFits v) :
    ∃ r, leafChildRef keccak256 key value = .ok r ∧
      RefOf keccak256 r (encodeNode keccak256 (.leaf key.nibbles v)) := by
  rcases hvalue with rfl | rfl
  · exact sliceLeafChildRef_spec keccak256 key hv
  · exact sliceLeafChildRef_spec keccak256 key hv

theorem extensionChildRef_eq (key : TriePath) {child : NodeRef} {c : NibbleTrie}
    (hc : RefOf keccak256 child (encodeNode keccak256 c)) :
    extensionChildRef keccak256 key child =
      .ok (childRef keccak256 (encodeNode keccak256 (.ext key.nibbles c))) := by
  have hsum : (rlpBytes (hexPrefix key.nibbles false)).length +
      (nodeField keccak256 (encodeNode keccak256 c)).length =
      (rlpBytes (hexPrefix key.nibbles false) ++
        nodeField keccak256 (encodeNode keccak256 c)).length := by simp
  rw [extensionChildRef]
  simp only [rlpHexPrefixSize_eq, hc.size_eq, hc.write_eq, rlpWriteHexPrefix_eq, hsum]
  rw [rlpWriteListPrefix_append, rlpEncoderFinish_ok (length_rlpList _), ok_bind, encodeNode]

theorem extensionChildRef_spec (key : TriePath) {child : NodeRef} {c : NibbleTrie}
    (hc : RefOf keccak256 child (encodeNode keccak256 c)) :
    ∃ r, extensionChildRef keccak256 key child = .ok r ∧
      RefOf keccak256 r (encodeNode keccak256 (.ext key.nibbles c)) :=
  ⟨_, extensionChildRef_eq key hc, refOf_childRef (rlpList_ne_nil _)⟩

/-- Sizing and writing a list of fields agree. -/
theorem foreach_branchContentLength (size : Fin 16 → Nat) (h : ∀ i, size i ≤ 33) :
    foreach 16 (fun i n => branchContentLengthAdd n (size i)) 1 =
      .ok (1 + ((List.finRange 16).map size).sum) := by
  have hsum : ∀ k, (((List.finRange 16).take k).map size).sum ≤ min k 16 * 33 := by
    intro k
    induction k with
    | zero => simp
    | succ k ih =>
      by_cases hk : k < 16
      · have hlt : k < (List.finRange 16).length := by simpa using hk
        rw [List.take_add_one, List.getElem?_eq_getElem hlt]
        have := h (List.finRange 16)[k]
        simp only [Option.toList_some, List.map_append, List.map_cons, List.map_nil,
          List.sum_append, List.sum_cons, List.sum_nil]
        omega
      · rw [List.take_of_length_le (by simp; omega)]
        rw [List.take_of_length_le (by simp; omega)] at ih
        omega
  obtain ⟨n, hn, hI⟩ := foreach_inv
    (fun (i : Fin 16) (n : Nat) => branchContentLengthAdd n (size i))
    (fun k n => n = 1 + (((List.finRange 16).take k).map size).sum)
    (by
      intro i n hn
      refine ⟨n + size i, ?_, ?_⟩
      · have h1 := hsum i
        have h2 := h i
        have h3 := i.isLt
        rw [branchContentLengthAdd, if_pos (by omega)]
      · rw [hn, List.take_add_one, List.getElem?_eq_getElem (by simp)]
        simp [Nat.add_assoc])
    1 (by simp)
  rw [hn, hI, List.take_of_length_le (by simp)]

theorem length_flatMap_eq_sum (f : Nibble → List Byte) (l : List Nibble) :
    (l.flatMap f).length = (l.map fun x => (f x).length).sum := by
  simp [List.length_flatMap]

theorem branchChildRef_spec {mask : BranchMask} {children : BranchRefs}
    {cs : Nibble → NibbleTrie}
    (hmask : ∀ x, branchMaskHas mask x = true ↔ cs x ≠ .empty)
    (hrefs : ∀ x, cs x ≠ .empty →
      RefOf keccak256 (branchRefsGet children x) (encodeNode keccak256 (cs x))) :
    ∃ r, branchChildRef keccak256 mask children = .ok r ∧
      RefOf keccak256 r (encodeNode keccak256 (.branch cs)) := by
  have hb := scratchRegionBound_ge
  have hsize : ∀ (i : Fin 16) (n : Nat), (if branchMaskHas mask i then
        branchContentLengthAdd n (nodeRefSize (branchRefsGet children i))
      else branchContentLengthAdd n 1) =
      branchContentLengthAdd n (nodeField keccak256 (encodeNode keccak256 (cs i))).length := by
    intro i n
    by_cases hi : cs i = .empty
    · rw [if_neg fun h => (hmask i).mp h hi, hi]
      rfl
    · rw [if_pos ((hmask i).mpr hi), (hrefs i hi).size_eq]
  have hwrite : ((List.finRange 16).flatMap fun i =>
      if branchMaskHas mask i then rlpWriteNodeRef (branchRefsGet children i) else [0x80]) =
      (List.finRange 16).flatMap fun i => nodeField keccak256 (encodeNode keccak256 (cs i)) := by
    refine List.flatMap_congr fun i _ => ?_
    by_cases hi : cs i = .empty
    · rw [if_neg fun h => (hmask i).mp h hi, hi]
      rfl
    · rw [if_pos ((hmask i).mpr hi), (hrefs i hi).write_eq]
  have hlen : 1 + ((List.finRange 16).map fun i =>
      (nodeField keccak256 (encodeNode keccak256 (cs i))).length).sum =
      (((List.finRange 16).flatMap fun i =>
        nodeField keccak256 (encodeNode keccak256 (cs i))) ++ [0x80]).length := by
    rw [List.length_append, length_flatMap_eq_sum, List.length_singleton, Nat.add_comm]
  have hle := length_branchPayload_le
    (fun x => nodeField keccak256 (encodeNode keccak256 (cs x)))
    (fun x => length_nodeField_le keccak256 _)
  refine ⟨childRef keccak256 (encodeNode keccak256 (.branch cs)), ?_,
    refOf_childRef (rlpList_ne_nil _)⟩
  rw [branchChildRef]
  simp only [hsize, hwrite]
  rw [foreach_branchContentLength _ fun i => length_nodeField_le keccak256 _, ok_bind, hlen,
    rlpScratchLengthAdd_ok (by omega), ok_bind, Nat.add_zero,
    rlpScratchListSize_ok (rlpList_ok (by omega)), ok_bind, rlpWriteListPrefix_append,
    rlpEncoderFinish_ok rfl, ok_bind, encodeNode]

/-! ## The decoders -/

/-- A reference as read from authenticated input. -/
structure InputRefOf (keccak256 : List Byte → Hash) (r : NodeRef) (enc : List Byte) : Prop where
  refOf : RefOf keccak256 r enc
  notScratch : ∀ node, r ≠ .scratchInlineRef node

/-- A field decoder that reads every node field as a reference `R`-related
to its encoding. -/
def FieldReads (keccak256 : List Byte → Hash) (R : NodeRef → List Byte → Prop)
    (fieldToRef : RlpFieldRef → Result NodeRef) : Prop :=
  ∀ enc, IsNodeEncoding enc → ∀ rest, ∃ f r,
    rlpDecodeItem (nodeField keccak256 enc ++ rest) = .ok f ∧
    f.source = nodeField keccak256 enc ∧ fieldToRef f = .ok r ∧ R r enc

variable (keccak256) in
/-- The field of a node, as the decoder sees it. -/
theorem decodeItem_nodeField {enc : List Byte} (h : IsNodeEncoding enc) (rest : List Byte) :
    ∃ f, rlpDecodeItem (nodeField keccak256 enc ++ rest) = .ok f ∧
      f.source = nodeField keccak256 enc ∧
      ((enc = [] ∧ f = bytesField []) ∨
       (enc ≠ [] ∧ enc.length < 32 ∧ f.isList = true ∧ f.source = enc) ∨
       (32 ≤ enc.length ∧ f = bytesField (keccak256 enc).toList)) := by
  by_cases hnil : enc = []
  · subst hnil
    refine ⟨bytesField [], ?_, rfl, Or.inl ⟨rfl, rfl⟩⟩
    exact rlpDecodeItem_bytes (b := []) (Nat.zero_le _) rest
  · by_cases hshort : enc.length < 32
    · obtain ⟨payload, rfl, hlen⟩ := h.resolve_left hnil
      have hf : nodeField keccak256 (rlpList payload) = rlpList payload := by
        rw [nodeField, if_neg hnil, if_pos hshort]
      refine ⟨listField payload, ?_, ?_, Or.inr (Or.inl ⟨hnil, hshort, rfl, rfl⟩)⟩
      · rw [hf]
        exact rlpDecodeItem_list hlen rest
      · rw [hf]
        rfl
    · refine ⟨bytesField (keccak256 enc).toList, ?_, ?_, Or.inr (Or.inr ⟨by omega, rfl⟩)⟩
      · rw [nodeField_hash (by omega)]
        refine rlpDecodeItem_bytes ?_ rest
        have := scratchRegionBound_ge
        simp only [Vector.length_toList]
        omega
      · rw [nodeField_hash (by omega)]
        rfl

variable (keccak256) in
theorem inputFieldToRef_reads :
    FieldReads keccak256 (InputRefOf keccak256) inputFieldToRef := by
  intro enc h rest
  obtain ⟨f, hf, hs, hcase⟩ := decodeItem_nodeField keccak256 h rest
  rcases hcase with ⟨rfl, rfl⟩ | ⟨hne, hlt, hl, hsrc⟩ | ⟨hlen, rfl⟩
  · exact ⟨_, .emptyRef, hf, hs, by simp [inputFieldToRef, bytesField], .empty, by simp⟩
  · refine ⟨f, .inputInlineRef ⟨f.source, by rw [hsrc]; omega⟩, hf, hs, ?_, ?_⟩
    · rw [inputFieldToRef, if_pos hl, dif_pos (by rw [hsrc]; exact hlt)]
    · have : RefOf keccak256 (.inputInlineRef ⟨f.source, by rw [hsrc]; omega⟩) f.source :=
        .input ⟨f.source, by rw [hsrc]; omega⟩ fun h => hne (hsrc.symm.trans h)
      exact ⟨by simpa only [hsrc] using this, by simp⟩
  · obtain ⟨w, hw, hh⟩ := rlpDecodeWord_hash (keccak256 enc)
    refine ⟨_, .hashRef (keccak256 enc), hf, hs, ?_, .hash enc hlen, by simp⟩
    rw [inputFieldToRef, if_neg (by simp [bytesField]), if_pos (by simp [bytesField]), hw,
      ok_bind, hh]

variable (keccak256) in
theorem scratchFieldToRef_reads :
    FieldReads keccak256 (RefOf keccak256) scratchFieldToRef := by
  intro enc h rest
  obtain ⟨f, hf, hs, hcase⟩ := decodeItem_nodeField keccak256 h rest
  rcases hcase with ⟨rfl, rfl⟩ | ⟨hne, hlt, hl, hsrc⟩ | ⟨hlen, rfl⟩
  · exact ⟨_, .emptyRef, hf, hs, by simp [scratchFieldToRef, bytesField], .empty⟩
  · refine ⟨f, .scratchInlineRef ⟨f.source, by rw [hsrc]; omega⟩, hf, hs, ?_, ?_⟩
    · rw [scratchFieldToRef, if_pos hl, inlineNodeFromSlice, dif_pos (by rw [hsrc]; exact hlt),
        ok_bind]
    · have : RefOf keccak256 (.scratchInlineRef ⟨f.source, by rw [hsrc]; omega⟩) f.source :=
        .scratch ⟨f.source, by rw [hsrc]; omega⟩ fun h => hne (hsrc.symm.trans h)
      simpa only [hsrc] using this
  · obtain ⟨w, hw, hh⟩ := rlpDecodeWord_hash (keccak256 enc)
    refine ⟨_, .hashRef (keccak256 enc), hf, hs, ?_, .hash enc hlen⟩
    rw [scratchFieldToRef, if_neg (by simp [bytesField]), if_pos (by simp [bytesField]), hw,
      ok_bind, hh]

/-- The decoded node has the form of the trie, its references `R`-related
to the encodings of the children. -/
inductive Decodes (keccak256 : List Byte → Hash) (R : NodeRef → List Byte → Prop) :
    TrieNode → NibbleTrie → Prop
  | leaf (p : List Nibble) (v : List Byte) : p.length ≤ 64 →
      Decodes keccak256 R (.leafNode (.ofNibbles p) v) (.leaf p v)
  | ext (p : List Nibble) (c : NibbleTrie) (r : NodeRef) : p.length ≤ 64 →
      R r (encodeNode keccak256 c) →
      Decodes keccak256 R (.extensionNode (.ofNibbles p) r) (.ext p c)
  | branch (cs : Nibble → NibbleTrie) (children : BranchRefs) :
      (∀ x : Nibble, R (branchRefsGet children x) (encodeNode keccak256 (cs x))) →
      Decodes keccak256 R (.branchNode children []) (.branch cs)

section

variable {fieldToRef : RlpFieldRef → Result NodeRef} {R : NodeRef → List Byte → Prop}

/-- The loop over the remaining children of a branch. -/
theorem decodeBranchNode_spec (hread : FieldReads keccak256 R fieldToRef)
    {encs : Nibble → List Byte} (henc : ∀ x, IsNodeEncoding (encs x)) (index : Nat)
    (children : BranchRefs) :
    ∃ children', decodeBranchNode fieldToRef
        (((List.finRange 16).drop index).flatMap (fun x => nodeField keccak256 (encs x)) ++ [0x80])
        index children = .ok (.branchNode children' []) ∧
      ∀ x : Nibble, (index ≤ x.val → R (branchRefsGet children' x) (encs x)) ∧
        (x.val < index → branchRefsGet children' x = branchRefsGet children x) := by
  induction hn : 16 - index generalizing index children with
  | zero =>
    have hend : ¬ index < 16 := by omega
    refine ⟨children, ?_, fun x => ⟨fun hx => by have := x.isLt; omega, fun _ => rfl⟩⟩
    have hvalue := rlpDecodeItem_bytes (b := []) (Nat.zero_le _) []
    rw [decodeBranchNode, dif_neg hend, List.drop_eq_nil_of_le (by simp; omega),
      List.flatMap_nil, List.nil_append, show ([0x80] : List Byte) = rlpBytes [] ++ [] from rfl,
      hvalue, ok_bind]
    simp only [show (bytesField []).source = rlpBytes [] from rfl, rlpCursorAdvance_append,
      rlpItemContent_bytesField]
    rfl
  | succ n ih =>
    have hlt : index < 16 := by omega
    obtain ⟨f, r, hf, hs, hr, hro⟩ := hread (encs ⟨index, hlt⟩) (henc _)
      (((List.finRange 16).drop (index + 1)).flatMap
        (fun x => nodeField keccak256 (encs x)) ++ [0x80])
    obtain ⟨children', hd, hspec⟩ :=
      ih (index + 1) (branchRefsSet children ⟨index, hlt⟩ r) (by omega)
    refine ⟨children', ?_, fun x => ⟨fun hx => ?_, fun hx => ?_⟩⟩
    · rw [decodeBranchNode, dif_pos hlt, List.drop_eq_getElem_cons (by simpa using hlt),
        List.flatMap_cons, List.append_assoc]
      simp only [List.getElem_finRange, Fin.cast_mk]
      rw [hf, ok_bind, hs, rlpCursorAdvance_append, hr, ok_bind]
      exact hd
    · rcases Nat.lt_or_ge index x.val with hlt' | hge
      · exact (hspec x).1 hlt'
      · obtain rfl : x = ⟨index, hlt⟩ := Fin.ext (by simp only; omega)
        rw [(hspec _).2 (by simp)]
        simpa using hro
    · rw [(hspec x).2 (by omega)]
      rw [branchRefsGet_set, if_neg]
      rintro rfl
      exact Nat.lt_irrefl _ hx

theorem finRange_sixteen (f : Nibble → List Byte) :
    (List.finRange 16).flatMap f = f 0 ++ (f 1 ++ ((List.finRange 16).drop 2).flatMap f) := by
  rfl

/-- Decoding the encoding of a branch. -/
theorem decodeTrieNode_branch (hread : FieldReads keccak256 R fieldToRef)
    {cs : Nibble → NibbleTrie} (hfit : ∀ x, TrieFits (cs x)) :
    ∃ children, decodeTrieNode fieldToRef (encodeNode keccak256 (.branch cs)) =
      .ok (.branchNode children []) ∧
      ∀ x, R (branchRefsGet children x) (encodeNode keccak256 (cs x)) := by
  have hb := scratchRegionBound_ge
  have henc := fun x => isNodeEncoding_encodeNode keccak256 (hfit x)
  have hle := length_branchPayload_le
    (fun x => nodeField keccak256 (encodeNode keccak256 (cs x)))
    (fun x => length_nodeField_le keccak256 _)
  obtain ⟨f₀, r₀, hf₀, hs₀, hr₀, hro₀⟩ := hread (encodeNode keccak256 (cs 0)) (henc 0)
    (nodeField keccak256 (encodeNode keccak256 (cs 1)) ++
      ((((List.finRange 16).drop 2).flatMap fun x =>
        nodeField keccak256 (encodeNode keccak256 (cs x))) ++ [0x80]))
  obtain ⟨f₁, r₁, hf₁, hs₁, hr₁, hro₁⟩ := hread (encodeNode keccak256 (cs 1)) (henc 1)
    ((((List.finRange 16).drop 2).flatMap fun x =>
        nodeField keccak256 (encodeNode keccak256 (cs x))) ++ [0x80])
  obtain ⟨children, hd, hspec⟩ := decodeBranchNode_spec hread henc 2
    (branchRefsSet (branchRefsSet (Vector.replicate 16 NodeRef.emptyRef) 0 r₀) 1 r₁)
  refine ⟨children, ?_, fun x => ?_⟩
  · rw [encodeNode, decodeTrieNode, rlpNodeCursor_list (by omega), ok_bind, finRange_sixteen]
    simp only [List.append_assoc]
    rw [hf₀, ok_bind]
    simp only [hs₀, rlpCursorAdvance_append, hf₁, ok_bind, hs₁, hr₀, hr₁]
    rw [if_neg (by simp)]
    exact hd
  · rcases Nat.lt_or_ge x.val 2 with hx | hx
    · rw [(hspec x).2 hx]
      obtain rfl | rfl : x = 0 ∨ x = 1 := by
        have : x.val = 0 ∨ x.val = 1 := by omega
        exact this.imp Fin.ext Fin.ext
      · simpa using hro₀
      · simpa using hro₁
    · exact (hspec x).1 hx

/-- Decoding the encoding of a canonical trie. -/
theorem decodeTrieNode_encodeNode (hread : FieldReads keccak256 R fieldToRef)
    {t : NibbleTrie} (hcan : t.Compressed) (hfit : TrieFits t) (hne : t ≠ .empty) :
    ∃ node, decodeTrieNode fieldToRef (encodeNode keccak256 t) = .ok node ∧
      Decodes keccak256 R node t := by
  have hb := scratchRegionBound_ge
  cases hfit with
  | empty => exact absurd rfl hne
  | leaf p v hp hv =>
    refine ⟨.leafNode (.ofNibbles p) v, ?_, .leaf p v hp⟩
    have hpay := length_leafPayload_le hp hv
    have hvl : v.length ≤ scratchRegionBound := by
      unfold ValueFits at hv
      omega
    have hsecond := rlpDecodeItem_bytes hvl []
    rw [List.append_nil] at hsecond
    rw [encodeNode, decodeTrieNode, rlpNodeCursor_list (by unfold ValueFits at hv; omega), ok_bind,
      rlpDecodeItem_bytes (length_hexPrefix_le hp true), ok_bind]
    simp only [show (bytesField (hexPrefix p true)).source = rlpBytes (hexPrefix p true) from rfl,
      rlpCursorAdvance_append, hsecond, ok_bind]
    rw [if_pos (by simp [rlpCursorAdvance, sliceSuffix, bytesField]),
      hexPrefixDecodeRef_hexPrefix hp true, ok_bind]
    simp
  | ext p c hp hfit =>
    have hpne : p ≠ [] := by
      cases hcan with
      | ext _ cs hpne _ => exact hpne
    obtain ⟨f, r, hf, hs, hr, hro⟩ := hread (encodeNode keccak256 c)
      (isNodeEncoding_encodeNode keccak256 hfit) []
    refine ⟨.extensionNode (.ofNibbles p) r, ?_, .ext p c r hp hro⟩
    have hpay := length_extPayload_le keccak256 hp (encodeNode keccak256 c)
    rw [List.append_nil] at hf
    rw [encodeNode, decodeTrieNode, rlpNodeCursor_list (by omega), ok_bind,
      rlpDecodeItem_bytes (length_hexPrefix_le hp false), ok_bind]
    simp only [show (bytesField (hexPrefix p false)).source = rlpBytes (hexPrefix p false) from
      rfl, rlpCursorAdvance_append, hf, ok_bind]
    rw [if_pos (by simp [rlpCursorAdvance, sliceSuffix, hs]),
      hexPrefixDecodeRef_hexPrefix hp false, ok_bind]
    simp only [Bool.false_eq_true, if_false, pathLen_eq, TriePath.nibbles_ofNibbles hp, hr,
      ok_bind]
    rw [if_neg (by simpa using hpne)]
  | branch cs hfit =>
    obtain ⟨children, hd, hspec⟩ := decodeTrieNode_branch hread hfit
    exact ⟨_, hd, .branch cs children hspec⟩

end

variable (keccak256) in
theorem decodeInputTrieNode_encodeNode {t : NibbleTrie} (hcan : t.Compressed)
    (hfit : TrieFits t) (hne : t ≠ .empty) :
    ∃ node, decodeInputTrieNode (encodeNode keccak256 t) = .ok node ∧
      Decodes keccak256 (InputRefOf keccak256) node t := by
  rw [decodeInputTrieNode, if_neg]
  · exact decodeTrieNode_encodeNode (inputFieldToRef_reads keccak256) hcan hfit hne
  · rw [List.length_eq_zero_iff, encodeNode_eq_nil]
    exact hne

/-! ## Re-keying -/

section

variable (keccak256) (pfx : TriePath)

/-- A leaf absorbs the path, if both fit a key. -/
theorem concat_leaf {q : List Nibble} {v : List Byte} (hq : q.length ≤ 64) (hv : ValueFits v) :
    (pathConcat pfx (.ofNibbles q) >>= fun path => sliceLeafChildRef keccak256 path v) =
      if pfx.nibbles.length + q.length ≤ 64 then
        .ok (childRef keccak256 (encodeNode keccak256 (.leaf (pfx.nibbles ++ q) v)))
      else fatalError .witnessDeficient := by
  rw [pathConcat_eq, TriePath.nibbles_ofNibbles hq]
  split
  · next hroom =>
    rw [ok_bind, sliceLeafChildRef_eq keccak256 _ hv,
      TriePath.nibbles_ofNibbles (List.length_append.trans_le hroom)]
  · rfl

variable {keccak256}

/-- So does an extension. -/
theorem concat_ext {q : List Nibble} {c : NibbleTrie} {ref : NodeRef} (hq : q.length ≤ 64)
    (href : RefOf keccak256 ref (encodeNode keccak256 c)) :
    (pathConcat pfx (.ofNibbles q) >>= fun path => extensionChildRef keccak256 path ref) =
      if pfx.nibbles.length + q.length ≤ 64 then
        .ok (childRef keccak256 (encodeNode keccak256 (.ext (pfx.nibbles ++ q) c)))
      else fatalError .witnessDeficient := by
  rw [pathConcat_eq, TriePath.nibbles_ofNibbles hq]
  split
  · next hroom =>
    rw [ok_bind, extensionChildRef_eq _ href,
      TriePath.nibbles_ofNibbles (List.length_append.trans_le hroom)]
  · rfl

variable {pfx}

/-- A branch gains an extension, for which there is always room. -/
theorem extend_branch {cs : Nibble → NibbleTrie} {ref : NodeRef} (hp : pfx.nibbles ≠ [])
    (href : RefOf keccak256 ref (encodeNode keccak256 (.branch cs))) :
    extensionChildRef keccak256 pfx ref =
      if pfx.nibbles.length + (Trie.branch cs : NibbleTrie).headPath.length ≤ 64 then
        .ok (childRef keccak256 (encodeNode keccak256 ((Trie.branch cs).prepend pfx.nibbles)))
      else fatalError .witnessDeficient := by
  have hroom : pfx.nibbles.length + (Trie.branch cs : NibbleTrie).headPath.length ≤ 64 :=
    pfx.length_nibbles_le
  rw [if_pos hroom, Trie.prepend_branch hp]
  exact extensionChildRef_eq pfx href

end

variable (keccak256) in
/-- Re-keying the bytes of a node, whenever the longer path fits a key. -/
theorem mergeExtNode_eq {pfx : TriePath} {t : NibbleTrie} (hcan : t.Compressed)
    (hfit : TrieFits t) (hne : t ≠ .empty) (hp : pfx.nibbles ≠ []) :
    mergeExtNode keccak256 pfx (encodeNode keccak256 t) =
      if pfx.nibbles.length + t.headPath.length ≤ 64 then
        .ok (childRef keccak256 (encodeNode keccak256 (t.prepend pfx.nibbles)))
      else fatalError .witnessDeficient := by
  have hbytes : ¬ (encodeNode keccak256 t).length = 0 := fun h =>
    hne (encodeNode_eq_nil.mp (List.eq_nil_of_length_eq_zero h))
  have hpath : ¬ pfx.nibbles.length = 0 := fun h => hp (List.eq_nil_of_length_eq_zero h)
  obtain ⟨node, hnode, hdec⟩ := decodeInputTrieNode_encodeNode keccak256 hcan hfit hne
  rw [mergeExtNode, pathLen_eq, if_neg hpath, if_neg hbytes, hnode, ok_bind]
  cases hdec with
  | leaf q v hq =>
    cases hfit with
    | leaf _ _ _ hv => exact concat_leaf keccak256 pfx hq hv
  | ext q c r hq hr => exact concat_ext pfx hq hr.refOf
  | branch cs children _ => exact extend_branch hp (refOf_inputNodeToRef _)

/-- Re-keying a reference, provided that a hash is that of a branch. -/
theorem mergeExtRef_eq {pfx : TriePath} {t : NibbleTrie} {ref : NodeRef} (hcan : t.Compressed)
    (hfit : TrieFits t) (hne : t ≠ .empty) (hp : pfx.nibbles ≠ [])
    (href : RefOf keccak256 ref (encodeNode keccak256 t))
    (hhash : (∃ h, ref = .hashRef h) → t.IsBranch) :
    mergeExtRef keccak256 pfx ref =
      if pfx.nibbles.length + t.headPath.length ≤ 64 then
        .ok (childRef keccak256 (encodeNode keccak256 (t.prepend pfx.nibbles)))
      else fatalError .witnessDeficient := by
  have hpath : ¬ pfx.nibbles.length = 0 := fun h => hp (List.eq_nil_of_length_eq_zero h)
  have hbytes : encodeNode keccak256 t ≠ [] := fun h => hne (encodeNode_eq_nil.mp h)
  have hinput := decodeInputTrieNode_encodeNode keccak256 hcan hfit hne
  have hscratch := decodeTrieNode_encodeNode (scratchFieldToRef_reads keccak256) hcan hfit hne
  unfold mergeExtRef
  rw [pathLen_eq, if_neg hpath]
  have hall := href
  generalize henc : encodeNode keccak256 t = enc at href hbytes hinput hscratch
  cases href with
  | empty => exact absurd rfl hbytes
  | hash _ h32 =>
    obtain ⟨cs⟩ := hhash ⟨_, rfl⟩
    exact extend_branch hp hall
  | input node _ =>
    obtain ⟨dec, hdec, hd⟩ := hinput
    simp only [hdec, ok_bind]
    cases hd with
    | leaf q v hq =>
      cases hfit with
      | leaf _ _ _ hv => exact concat_leaf keccak256 pfx hq hv
    | ext q c r hq hr => exact concat_ext pfx hq hr.refOf
    | branch cs children _ => exact extend_branch hp hall
  | scratch node _ =>
    obtain ⟨dec, hdec, hd⟩ := hscratch
    simp only [decodeScratchTrieNode, hdec, ok_bind]
    cases hd with
    | leaf q v hq =>
      cases hfit with
      | leaf _ _ _ hv => exact concat_leaf keccak256 pfx hq hv
    | ext q c r hq hr => exact concat_ext pfx hq hr
    | branch cs children _ => exact extend_branch hp hall

variable (keccak256) in
/-- Re-keying node bytes under a path is `prepend`. -/
theorem mergeExtNode_spec {pfx : TriePath} {n : Nat} {t : NibbleTrie} (hcan : t.Canonical n)
    (hfit : TrieFits t) (hlen : pfx.nibbles.length + n ≤ 64) :
    ∃ r, mergeExtNode keccak256 pfx (encodeNode keccak256 t) = .ok r ∧
      RefOf keccak256 r (encodeNode keccak256 (t.prepend pfx.nibbles)) := by
  by_cases hp : pfx.nibbles = []
  · rw [mergeExtNode, pathLen_eq, if_pos (by simp [hp]), hp, Trie.prepend_nil]
    exact ⟨_, rfl, refOf_inputNodeToRef _⟩
  by_cases hne : t = .empty
  · subst hne
    rw [mergeExtNode, pathLen_eq, if_neg (by simpa using hp),
      if_pos (show (encodeNode keccak256 .empty).length = 0 from rfl)]
    exact ⟨_, rfl, .empty⟩
  have hroom := hcan.length_headPath_le
  rw [mergeExtNode_eq keccak256 hcan.compressed hfit hne hp, if_pos (by omega)]
  exact ⟨_, rfl, refOf_childRef fun h => hne (Trie.prepend_eq_empty.mp (encodeNode_eq_nil.mp h))⟩

/-- Re-keying a reference to a branch makes it an extension. -/
theorem mergeExtRef_branch {pfx : TriePath} {cs : Nibble → NibbleTrie} {ref : NodeRef}
    (hp : pfx.nibbles ≠ []) (hfit : ∀ x, TrieFits (cs x))
    (href : RefOf keccak256 ref (encodeNode keccak256 (.branch cs))) :
    ∃ r, mergeExtRef keccak256 pfx ref = .ok r ∧
      RefOf keccak256 r (encodeNode keccak256 (.ext pfx.nibbles (.branch cs))) := by
  have hext := extensionChildRef_spec pfx href
  have hne : encodeNode keccak256 (.branch cs) ≠ [] := fun h => by
    cases encodeNode_eq_nil.mp h
  unfold mergeExtRef
  rw [pathLen_eq, if_neg (by simpa using hp)]
  generalize henc : encodeNode keccak256 (.branch cs) = enc at href hne
  cases href with
  | empty => exact absurd rfl hne
  | hash _ h32 => exact hext
  | input node hbytes =>
    obtain ⟨children, hd, _⟩ := decodeTrieNode_branch (inputFieldToRef_reads keccak256) hfit
    rw [henc] at hd
    have h0 : ¬ node.bytes.length = 0 := fun h => hbytes (List.eq_nil_of_length_eq_zero h)
    simp only [decodeInputTrieNode, if_neg h0, hd, ok_bind]
    exact hext
  | scratch node hbytes =>
    obtain ⟨children, hd, _⟩ := decodeTrieNode_branch (scratchFieldToRef_reads keccak256) hfit
    rw [henc] at hd
    simp only [decodeScratchTrieNode, hd, ok_bind]
    exact hext

/-- Re-keying a reference under a path is `prepend`, provided that a hash
reference is to a branch. -/
theorem mergeExtRef_spec {pfx : TriePath} {n : Nat} {t : NibbleTrie} {ref : NodeRef}
    (hcan : t.Canonical n) (hfit : TrieFits t) (hlen : pfx.nibbles.length + n ≤ 64)
    (href : RefOf keccak256 ref (encodeNode keccak256 t))
    (hhash : (∃ h, ref = .hashRef h) → t.IsBranch) :
    ∃ r, mergeExtRef keccak256 pfx ref = .ok r ∧
      RefOf keccak256 r (encodeNode keccak256 (t.prepend pfx.nibbles)) := by
  by_cases hp : pfx.nibbles = []
  · unfold mergeExtRef
    rw [pathLen_eq, if_pos (by simp [hp]), hp, Trie.prepend_nil]
    exact ⟨_, rfl, href⟩
  by_cases hne : t = .empty
  · subst hne
    obtain rfl := href.eq_nil_iff.mp rfl
    refine ⟨.emptyRef, ?_, .empty⟩
    unfold mergeExtRef
    rw [pathLen_eq, if_neg (by simpa using hp)]
  have hroom := hcan.length_headPath_le
  rw [mergeExtRef_eq hcan.compressed hfit hne hp href hhash, if_pos (by omega)]
  exact ⟨_, rfl, refOf_childRef fun h => hne (Trie.prepend_eq_empty.mp (encodeNode_eq_nil.mp h))⟩

end EvmSail
