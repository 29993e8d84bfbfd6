/-
# `EvmSail.Optimised.OrderedTrieSound` — nodes and frames of the ordered builder

Pending nodes and references are those of tries (`pendingOf`,
`nodeReferenceOf`): what the builder encodes is the encoding of the
specification, and its buffers are large enough for it.

A frame at depth `d` of a path holds a branch: its children are the subtries of
the entries so far, but for the digit at which the path goes on (`Partial`).
With the child at that digit it holds all of them, and two of them at least,
where an entry leaves the path (`subtrie_branch`).
-/
import EvmSail.Optimised.OrderedTrie
import EvmSail.Lib.RadixBelow
import EvmSail.Mpt.CodecSound
import EvmSail.Mpt.Assembly

namespace EvmSail.Optimised

open Fallible Radix

/-! ## Encodings -/

theorem byteLength_div {v : Nat} (hv : v ≠ 0) : byteLength v = byteLength (v / 256) + 1 := by
  have hiff : ∀ k, byteLength v ≤ k + 1 ↔ byteLength (v / 256) ≤ k := by
    intro k
    rw [byteLength_le_iff, byteLength_le_iff, Nat.div_lt_iff_lt_mul (by omega), Nat.pow_succ]
  have hpos := byteLength_pos (Nat.pos_of_ne_zero hv)
  have hle := (hiff (byteLength v - 1)).mp (by omega)
  have hge := (hiff (byteLength (v / 256))).mpr (Nat.le_refl _)
  omega

theorem mptUintBe_eq (v : Nat) : mptUintBe v = bigEndian v := by
  induction v using Nat.strongRecOn with
  | ind v ih =>
    rw [mptUintBe]
    split
    · rename_i hzero
      rw [hzero]
      rfl
    · rename_i hne
      rw [ih _ (Nat.div_lt_self (Nat.pos_of_ne_zero hne) (by omega)), bigEndian, bigEndian,
        byteLength_div hne]
      rfl

theorem mptRlpPrefix_eq (list : Bool) (len : Nat) :
    mptRlpPrefix list len = rlpHeader (if list then 0xc0 else 0x80) len := by
  rw [mptRlpPrefix, rlpHeader]
  split
  · rfl
  · dsimp only
    rw [mptUintBe_eq, length_bigEndian]
    cases list <;> rfl

theorem mptRlpString_eq (data : List Byte) : mptRlpString data = rlpBytes data := by
  rw [mptRlpString, mptRlpPrefix_eq, mptRlpSelf]
  match data with
  | [] => rfl
  | [x] =>
    rw [rlpBytes]
    simp
  | x :: y :: rest => simp [rlpBytes]

theorem length_rlpHeader_eq (list : Bool) (len : Nat) :
    (rlpHeader (if list then 0xc0 else 0x80) len).length = mptRlpPrefixSize len := by
  rw [← mptRlpPrefix_eq, mptRlpPrefix, mptRlpPrefixSize]
  split
  · rfl
  · simp [Nat.add_comm]

theorem mptRlpStringSize_eq (data : List Byte) :
    mptRlpStringSize data = (rlpBytes data).length := by
  rw [← mptRlpString_eq, mptRlpStringSize, mptRlpString, mptRlpPrefix]
  split
  · rename_i hself
    rw [mptRlpSelf, Bool.and_eq_true, beq_iff_eq] at hself
    exact hself.1.symm
  · split
    · simp [Nat.add_comm]
    · rw [List.length_append, List.length_cons]
      omega

theorem mptCompactPath_eq (path : List Nibble) (leaf : Bool) :
    mptCompactPath path leaf = hexPrefix path leaf := by
  rw [mptCompactPath, hexPrefix, hexPrefixFlag]
  rcases Nat.mod_two_eq_zero_or_one path.length with hmod | hmod
  · cases leaf <;> simp [hmod]
  · cases leaf <;> simp [hmod]

theorem mptWritten_eq {capacity : Nat} {bytes : List Byte} (h : bytes.length ≤ capacity) :
    mptWritten capacity bytes = some bytes := if_pos h

/-- A list that is written with a size in front is the list of its payload. -/
theorem mptRlpPrefix_list {content : Nat} {payload : List Byte} (h : content = payload.length) :
    mptRlpPrefix true content ++ payload = rlpList payload := by
  rw [mptRlpPrefix_eq, h]
  rfl

theorem length_rlpList_prefix (payload : List Byte) :
    (rlpList payload).length = mptRlpPrefixSize payload.length + payload.length := by
  have hheader := length_rlpHeader_eq true payload.length
  rw [rlpList, List.length_append, ← hheader]
  rfl

theorem length_rlpList_le {payload : List Byte} (h : payload.length ≤ scratchRegionBound) :
    (rlpList payload).length ≤ payload.length + 5 := by
  rw [length_rlpList, rlpListSize]
  have := rlpLengthPrefixLen_le h
  omega

section

variable {keccak256 : List Byte → Hash} {scratchTop : Nat}

/-! ## References -/

/-- The reference to a node. -/
def nodeReferenceOf (keccak256 : List Byte → Hash) (t : NibbleTrie) : NodeReference :=
  match t with
  | .empty => .empty
  | t => mptMakeChildReference keccak256 (encodeNode keccak256 t)

theorem nodeReferenceOf_ne {t : NibbleTrie} (h : t ≠ .empty) :
    nodeReferenceOf keccak256 t = mptMakeChildReference keccak256 (encodeNode keccak256 t) := by
  cases t with
  | empty => exact absurd rfl h
  | _ => rfl

theorem nodeReferenceOf_ne_empty {t : NibbleTrie} (h : t ≠ .empty) :
    nodeReferenceOf keccak256 t ≠ .empty := by
  rw [nodeReferenceOf_ne h, mptMakeChildReference]
  split <;> nofun

theorem mptWriteReference_of (t : NibbleTrie) :
    mptWriteReference (nodeReferenceOf keccak256 t) =
      nodeField keccak256 (encodeNode keccak256 t) := by
  by_cases ht : t = .empty
  · rw [ht]
    rfl
  · rw [nodeReferenceOf_ne ht, mptMakeChildReference, nodeField,
      if_neg fun hnil => ht (encodeNode_eq_nil.mp hnil)]
    split
    · rfl
    · exact mptRlpString_eq _

theorem nodeReferenceSize_of (t : NibbleTrie) :
    nodeReferenceSize (nodeReferenceOf keccak256 t) =
      (nodeField keccak256 (encodeNode keccak256 t)).length := by
  rw [← mptWriteReference_of]
  cases nodeReferenceOf keccak256 t with
  | empty => rfl
  | inline bytes => rfl
  | hashed digest =>
    rw [mptWriteReference, mptRlpString_eq, length_rlpBytes_hash]
    rfl

/-- A branch whose children are the given tries. -/
theorem mptEncodeBranchReference_of {frame : TrieBranchFrame} {cs : Nibble → NibbleTrie}
    (hmask : ∀ x, branchMaskHas frame.mask x = true ↔ cs x ≠ .empty)
    (hchild : ∀ x, cs x ≠ .empty → frame.children x = nodeReferenceOf keccak256 (cs x)) :
    mptEncodeBranchReference keccak256 frame =
      some (nodeReferenceOf keccak256 (.branch cs)) := by
  have hfield : ∀ x, (if branchMaskHas frame.mask x then mptWriteReference (frame.children x)
      else [0x80]) = nodeField keccak256 (encodeNode keccak256 (cs x)) := by
    intro x
    split
    · rename_i hx
      rw [hchild x ((hmask x).mp hx), mptWriteReference_of]
    · rename_i hx
      rw [not_not.mp (mt (hmask x).mpr hx)]
      rfl
  have hsize : ∀ x, (if branchMaskHas frame.mask x then nodeReferenceSize (frame.children x)
      else 1) = (nodeField keccak256 (encodeNode keccak256 (cs x))).length := by
    intro x
    split
    · rename_i hx
      rw [hchild x ((hmask x).mp hx), nodeReferenceSize_of]
    · rename_i hx
      rw [not_not.mp (mt (hmask x).mpr hx)]
      rfl
  have hlist : encodeNode keccak256 (.branch cs) =
      rlpList (((List.finRange 16).flatMap fun x =>
        nodeField keccak256 (encodeNode keccak256 (cs x))) ++ [0x80]) := rfl
  have hle := length_branchPayload_le (fun x => nodeField keccak256 (encodeNode keccak256 (cs x)))
    fun x => length_nodeField_le keccak256 _
  have hne : Trie.branch cs ≠ .empty := nofun
  rw [mptEncodeBranchReference, nodeReferenceOf_ne hne, hlist]
  simp only [hfield, hsize, List.append_assoc]
  rw [mptRlpPrefix_list (by rw [List.length_append, List.length_flatMap, Nat.add_comm]; rfl),
    mptWritten_eq]
  · rfl
  · have hmax : mptEncodedNodeMax = 600 := rfl
    exact (length_rlpList_le (hle.trans (by have := scratchRegionBound_ge; omega))).trans (by omega)

/-! ## Pending nodes -/

/-- A node that is not encoded at its top. -/
def pendingOf (keccak256 : List Byte → Hash) : NibbleTrie → PendingNode
  | .empty => .empty
  | .leaf path value => .leaf path value
  | .ext path child => .reference path (nodeReferenceOf keccak256 child)
  | .branch cs => .reference [] (nodeReferenceOf keccak256 (.branch cs))

/-- There is room for the encoding of a leaf of this value. -/
def LeafFits (scratchTop : Nat) (value : List Byte) : Prop :=
  value.length ≤ mptEncodedValueMax ∨ scratchTop + value.length + 44 ≤ guestScratchBytes

theorem pendingNodeFinalize_leaf {path : List Nibble} {value : List Byte}
    (hpath : path.length ≤ 64) (hvalue : LeafFits scratchTop value) :
    pendingNodeFinalize keccak256 scratchTop (.leaf path value) =
      some (nodeReferenceOf keccak256 (.leaf path value)) := by
  have hbound := scratchRegionBound_eq
  have hmax : mptEncodedNodeMax = 600 := rfl
  have hvmax : mptEncodedValueMax = 128 := rfl
  have hscratch : guestScratchBytes = 16777216 := rfl
  have hlen : value.length ≤ 16777216 := by
    rcases hvalue with hvalue | hvalue <;> omega
  have hcompact := length_rlpBytes_hexPrefix hpath true
  have hstring := length_rlpBytes_le (b := value) (by omega)
  have hpayload : (rlpBytes (hexPrefix path true) ++ rlpBytes value).length =
      (rlpBytes (hexPrefix path true)).length + (rlpBytes value).length := List.length_append
  have hlist := @length_rlpList_le (rlpBytes (hexPrefix path true) ++ rlpBytes value) (by omega)
  have hencoded : mptRlpPrefix true (mptRlpStringSize (mptCompactPath path true) +
        mptRlpStringSize value) ++ mptRlpString (mptCompactPath path true) ++ mptRlpString value =
      rlpList (rlpBytes (hexPrefix path true) ++ rlpBytes value) := by
    rw [List.append_assoc, mptRlpString_eq, mptRlpString_eq, mptCompactPath_eq]
    refine mptRlpPrefix_list ?_
    rw [mptRlpStringSize_eq, mptRlpStringSize_eq, hpayload]
  have hne : Trie.leaf path value ≠ (.empty : NibbleTrie) := nofun
  rw [pendingNodeFinalize, nodeReferenceOf_ne hne, encodeNode]
  split
  · rename_i hlarge
    have hfits := hvalue.resolve_left (Nat.not_le.mpr hlarge)
    have hsize : mptRlpPrefixSize (mptRlpStringSize (mptCompactPath path true) +
        mptRlpStringSize value) + (mptRlpStringSize (mptCompactPath path true) +
          mptRlpStringSize value) =
        (rlpList (rlpBytes (hexPrefix path true) ++ rlpBytes value)).length := by
      rw [mptRlpStringSize_eq, mptRlpStringSize_eq, mptCompactPath_eq, ← hpayload,
        length_rlpList_prefix]
    have hpathSize : mptRlpStringSize (mptCompactPath path true) ≤ 34 := by
      rw [mptRlpStringSize_eq, mptCompactPath_eq]
      exact hcompact
    have hvalueSize : mptRlpStringSize value ≤ value.length + 5 := by
      rw [mptRlpStringSize_eq]
      exact hstring
    rw [mptEncodeLargeLeafReference]
    dsimp only
    rw [if_neg (by omega), if_neg (by omega), if_neg (by omega), hencoded,
      mptWritten_eq (by omega)]
    rfl
  · rename_i hsmall
    rw [mptEncodeLeafReference, hencoded, mptWritten_eq (by omega)]
    rfl

/-- A closed branch with a path in front. -/
theorem pendingNodeFinalize_branch {gap : List Nibble} (hgap : gap.length ≤ 64)
    (cs : Nibble → NibbleTrie) :
    pendingNodeFinalize keccak256 scratchTop
        (.reference gap (nodeReferenceOf keccak256 (.branch cs))) =
      some (nodeReferenceOf keccak256 (Trie.prepend gap (.branch cs))) := by
  rw [pendingNodeFinalize, mptEncodeExtensionReference]
  split
  · rename_i hnil
    rw [List.eq_nil_of_length_eq_zero hnil, Trie.prepend_nil]
  · rename_i hne
    have hgapNe : gap ≠ [] := fun hnil => hne (hnil ▸ rfl)
    have hmax : mptEncodedNodeMax = 600 := rfl
    have hpayload := length_extPayload_le keccak256 hgap (encodeNode keccak256 (.branch cs))
    have hbound := scratchRegionBound_ge
    have hlist := length_rlpList_le (hpayload.trans (by omega))
    have hext : Trie.ext gap (.branch cs) ≠ (.empty : NibbleTrie) := nofun
    dsimp only
    rw [Trie.prepend_branch hgapNe, nodeReferenceOf_ne hext, encodeNode, mptWriteReference_of,
      mptRlpString_eq, mptCompactPath_eq, List.append_assoc,
      mptRlpPrefix_list (by
        rw [mptRlpStringSize_eq, nodeReferenceSize_of, List.length_append]),
      mptWritten_eq (by omega)]
    rfl

theorem pendingNodeReference_branch (cs : Nibble → NibbleTrie) :
    pendingNodeReference (nodeReferenceOf keccak256 (.branch cs)) =
      pendingOf keccak256 (.branch cs) := by
  have hne : Trie.branch cs ≠ .empty := nofun
  rw [pendingNodeReference, if_neg (nodeReferenceOf_ne_empty hne), pendingOf]

theorem pendingOf_prepend_branch (gap : List Nibble) (cs : Nibble → NibbleTrie) :
    pendingOf keccak256 (Trie.prepend gap (.branch cs)) =
      .reference gap (nodeReferenceOf keccak256 (.branch cs)) := by
  rcases eq_or_ne gap [] with rfl | hgap
  · rw [Trie.prepend_nil, pendingOf]
  · rw [Trie.prepend_branch hgap, pendingOf]

theorem pendingNodePrepend_branch {gap : List Nibble} (hgap : gap.length ≤ 64)
    (cs : Nibble → NibbleTrie) :
    pendingNodePrepend gap (pendingOf keccak256 (.branch cs)) =
      some (pendingOf keccak256 (Trie.prepend gap (.branch cs))) := by
  rw [pendingOf_prepend_branch]
  unfold pendingNodePrepend
  split
  · rename_i hnil
    rw [List.eq_nil_of_length_eq_zero hnil, pendingOf]
  · rw [pendingOf]
    dsimp only
    rw [nibblePathConcat, List.length_nil, if_neg (by rw [mptSecureKeyNibbles]; omega),
      List.append_nil]
    rfl

/-- The path from the digit after `parentDepth` to a branch at `depth`. -/
theorem mptWrapBranch_eq {anchor : List Nibble} (hanchor : anchor.length ≤ 64)
    {parentDepth depth : Nat} (cs : Nibble → NibbleTrie) :
    mptWrapBranch anchor parentDepth depth (nodeReferenceOf keccak256 (.branch cs)) =
      some (pendingOf keccak256
        (Trie.prepend ((anchor.take depth).drop (parentDepth + 1)) (.branch cs))) := by
  rw [mptWrapBranch, pendingNodeReference_branch]
  split
  · rename_i hle
    have hnil : (anchor.take depth).drop (parentDepth + 1) = [] := by
      rw [List.drop_eq_nil_iff]
      exact (List.length_take_le _ _).trans hle
    rw [hnil, Trie.prepend_nil]
  · have hslice : nibblePathSlice anchor (parentDepth + 1) (depth - (parentDepth + 1)) =
        (anchor.take depth).drop (parentDepth + 1) := by
      rw [nibblePathSlice, List.drop_take]
    rw [hslice]
    refine pendingNodePrepend_branch ?_ cs
    rw [List.length_drop]
    exact (Nat.sub_le _ _).trans ((List.length_take_le' _ _).trans hanchor)

end

/-! ## The open frames -/

section

variable {keccak256 : List Byte → Hash} {scratchTop : Nat}

/-- The open frames, the deepest first. -/
def OrderedTrieBuilder.live (builder : OrderedTrieBuilder) : List TrieBranchFrame :=
  (List.range builder.frameCount).reverse.map builder.frames

theorem length_live (builder : OrderedTrieBuilder) :
    builder.live.length = builder.frameCount := by
  rw [OrderedTrieBuilder.live, List.length_map, List.length_reverse, List.length_range]

theorem live_eq_nil {builder : OrderedTrieBuilder} (h : builder.live = []) :
    builder.frameCount = 0 := by
  rw [← length_live, h, List.length_nil]

theorem live_of_succ {builder : OrderedTrieBuilder} {n : Nat} (h : builder.frameCount = n + 1) :
    builder.live = builder.frames n :: { builder with frameCount := n }.live := by
  rw [OrderedTrieBuilder.live, h, List.range_succ, List.reverse_concat, List.map_cons]
  rfl

theorem live_eq_cons {builder : OrderedTrieBuilder} {top : TrieBranchFrame}
    {rest : List TrieBranchFrame} (h : builder.live = top :: rest) :
    builder.frameCount ≠ 0 ∧ builder.frames (builder.frameCount - 1) = top ∧
      { builder with frameCount := builder.frameCount - 1 }.live = rest := by
  have hlen := length_live builder
  rw [h, List.length_cons] at hlen
  have hsucc := live_of_succ hlen.symm
  rw [h] at hsucc
  obtain ⟨htop, hrest⟩ := List.cons.inj hsucc
  rw [← hlen, Nat.add_sub_cancel]
  exact ⟨Nat.succ_ne_zero _, htop.symm, hrest.symm⟩

/-- Frames below the changed one stay. -/
theorem live_update {builder : OrderedTrieBuilder} {n : Nat} (hn : builder.frameCount ≤ n)
    (frame : TrieBranchFrame) :
    { builder with frames := Function.update builder.frames n frame }.live = builder.live := by
  rw [OrderedTrieBuilder.live, OrderedTrieBuilder.live]
  refine List.map_congr_left fun i hi => Function.update_of_ne ?_ _ _
  rw [List.mem_reverse, List.mem_range] at hi
  exact (hi.trans_le hn).ne

theorem orderedTrieBuilderPush_live (builder : OrderedTrieBuilder) {depth : Nat}
    (hdepth : depth < 64) (hcount : builder.frameCount < 64) :
    ∃ builder' children, orderedTrieBuilderPush builder depth = some builder' ∧
      builder'.live = ⟨depth, 0, children⟩ :: builder.live ∧
      builder'.complete = builder.complete := by
  refine ⟨_, (builder.frames builder.frameCount).children, if_neg (by omega), ?_, rfl⟩
  rw [live_of_succ rfl]
  dsimp only
  rw [Function.update_self]
  exact congrArg _ (@live_update builder _ (Nat.le_refl _) _)

theorem orderedTrieBuilderAttach_live {builder : OrderedTrieBuilder} {top : TrieBranchFrame}
    {rest : List TrieBranchFrame} (h : builder.live = top :: rest) {path : List Nibble}
    {child : PendingNode} {index : Nibble} {ref : NodeReference}
    (hindex : path[top.depth]? = some index) (hmask : branchMaskHas top.mask index = false)
    (href : pendingNodeFinalize keccak256 scratchTop child = some ref) :
    ∃ builder', orderedTrieBuilderAttach keccak256 scratchTop builder path child = some builder' ∧
      builder'.live = ⟨top.depth, branchMaskSet top.mask index,
        Function.update top.children index ref⟩ :: rest ∧
      builder'.complete = builder.complete := by
  obtain ⟨hcount, htop, hrest⟩ := live_eq_cons h
  have hattach : orderedTrieBuilderAttach keccak256 scratchTop builder path child =
      some { builder with
        frames := Function.update builder.frames (builder.frameCount - 1)
          ⟨top.depth, branchMaskSet top.mask index, Function.update top.children index ref⟩ } := by
    rw [orderedTrieBuilderAttach, if_neg hcount, htop]
    dsimp only
    rw [hindex]
    dsimp only
    rw [hmask, if_neg Bool.false_ne_true, href]
    rfl
  refine ⟨_, hattach, ?_, rfl⟩
  obtain ⟨n, hn⟩ := Nat.exists_eq_succ_of_ne_zero hcount
  rw [hn, Nat.succ_sub_one] at hrest ⊢
  rw [live_of_succ rfl]
  dsimp only
  rw [Function.update_self, ← hrest]
  exact congrArg _ (@live_update { builder with frameCount := n } n (Nat.le_refl _) _)

end

/-! ## Branches of the trie -/

section

variable {keccak256 : List Byte → Hash} {scratchTop : Nat} {J : List (List Nibble × List Byte)}
  {a : List Nibble} {d : Nat} {f : TrieBranchFrame}

theorem take_concat_digit {x : Nibble} (h : a[d]? = some x) : a.take d ++ [x] = a.take (d + 1) := by
  rw [List.take_add_one, h, Option.toList_some]

theorem digit_of_take_prefixed {x : Nibble} (hd : d ≤ a.length) (h : a.take d ++ [x] <+: a) :
    a[d]? = some x := by
  obtain ⟨r, hr⟩ := h
  have hlen : (a.take d).length = d := List.length_take_of_le hd
  rw [← hr, List.append_assoc, List.getElem?_append_right (by rw [hlen]), hlen, Nat.sub_self]
  rfl

/-- Prefix-free entries have different keys at most where they differ. -/
theorem eq_of_prefix (h : PrefixFree 64 J) {e e' : List Nibble × List Byte} (he : e ∈ J)
    (he' : e' ∈ J) (hpre : e.1 <+: e'.1) : e = e' := by
  by_contra hne
  have hsymm : Std.Symm fun e e' : List Nibble × List Byte => ¬ e.1 <+: e'.1 ∧ ¬ e'.1 <+: e.1 :=
    ⟨fun _ _ hfree => ⟨hfree.2, hfree.1⟩⟩
  exact (h.free.forall he he' hne).1 hpre

/-- Where an entry leaves the path of another, the trie has a branch. -/
theorem subtrie_branch (h : PrefixFree 64 J) {v : List Byte} (ha : (a, v) ∈ J) (hd : d < a.length)
    (hforks : Forks J a d) :
    subtrie 64 (a.take d) J = .branch fun x => subtrie 64 (a.take d ++ [x]) J := by
  have hlen : (a.take d).length = d := List.length_take_of_le hd.le
  have ha64 : a.length ≤ 64 := h.length _ ha
  have hkey : ∀ e ∈ J, e.1 ≠ a.take d := by
    intro e he heq
    have hsame := eq_of_prefix h he ha (heq ▸ List.take_prefix d a)
    rw [hsame] at heq
    have hsize : a.length = (a.take d).length := congrArg List.length heq
    omega
  have hnonempty : ∀ x e, e ∈ J → a.take d ++ [x] <+: e.1 →
      subtrie 64 (a.take d ++ [x]) J ≠ .empty := by
    intro x e he hpre hempty
    refine (subtrie_eq_empty h ?_).mp hempty e he hpre
    rw [List.length_append, List.length_singleton, hlen]
    omega
  obtain ⟨e, he, ⟨r, hr⟩, hleaves⟩ := hforks
  have hx : a[d]? = some a[d] := List.getElem?_eq_getElem hd
  cases r with
  | nil => exact absurd (by rw [← hr, List.append_nil]) (hkey e he)
  | cons y r =>
    have hxy : a[d] ≠ y := by
      rintro rfl
      refine hleaves ⟨r, ?_⟩
      rw [← take_concat_digit hx, ← hr, List.append_assoc, List.singleton_append]
    rw [subtrie_combine h (by omega) hkey]
    refine Trie.combine_branch hxy (hnonempty _ _ ha ?_) (hnonempty _ e he ⟨r, by simp [← hr]⟩)
    rw [take_concat_digit hx]
    exact List.take_prefix _ _

/-! ## Frames -/

/-- A frame holds the subtrie at a digit. -/
structure Holds (keccak256 : List Byte → Hash) (J : List (List Nibble × List Byte))
    (a : List Nibble) (f : TrieBranchFrame) (x : Nibble) : Prop where
  mask : branchMaskHas f.mask x = true ↔ subtrie 64 (a.take f.depth ++ [x]) J ≠ .empty
  child : subtrie 64 (a.take f.depth ++ [x]) J ≠ .empty →
    f.children x = nodeReferenceOf keccak256 (subtrie 64 (a.take f.depth ++ [x]) J)

/-- It holds all of them but the one on the path. -/
structure Partial (keccak256 : List Byte → Hash) (J : List (List Nibble × List Byte))
    (a : List Nibble) (f : TrieBranchFrame) : Prop where
  fresh : ∀ x, a[f.depth]? = some x → branchMaskHas f.mask x = false
  holds : ∀ x, a[f.depth]? ≠ some x → Holds keccak256 J a f x

/-- The reference of the child on the path makes a frame complete. -/
theorem Partial.attach (h : Partial keccak256 J a f) {x : Nibble} (hx : a[f.depth]? = some x)
    {t : NibbleTrie} (ht : subtrie 64 (a.take (f.depth + 1)) J = t) (hne : t ≠ .empty) :
    ∀ y, Holds keccak256 J a ⟨f.depth, branchMaskSet f.mask x,
      Function.update f.children x (nodeReferenceOf keccak256 t)⟩ y := by
  intro y
  by_cases hy : y = x
  · subst hy
    refine ⟨?_, fun _ => ?_⟩
    · rw [branchMaskHas_set, decide_eq_true rfl, Bool.or_true, take_concat_digit hx, ht]
      exact iff_of_true rfl hne
    · dsimp only
      rw [Function.update_self, take_concat_digit hx, ht]
  · have hold := h.holds y fun hsome => hy (Option.some.inj (hsome.symm.trans hx))
    refine ⟨?_, fun hsub => ?_⟩
    · rw [branchMaskHas_set, decide_eq_false hy, Bool.or_false]
      exact hold.mask
    · dsimp only
      rw [Function.update_of_ne hy]
      exact hold.child hsub

/-- A frame that is just opened holds nothing. -/
theorem partial_fresh {children : Nibble → NodeReference}
    (h : ∀ x, a[d]? ≠ some x → subtrie 64 (a.take d ++ [x]) J = .empty) :
    Partial keccak256 J a ⟨d, 0, children⟩ where
  fresh x _ := branchMaskHas_zero x
  holds x hx := by
    refine ⟨iff_of_false ?_ fun hne => hne (h x hx), fun hne => absurd (h x hx) hne⟩
    exact Bool.eq_false_iff.mp (branchMaskHas_zero x)

theorem Partial.concat (h : Partial keccak256 J a f) (hd : f.depth < a.length) (v : List Byte) :
    Partial keccak256 (J ++ [(a, v)]) a f where
  fresh := h.fresh
  holds x hx := by
    have hsame : subtrie 64 (a.take f.depth ++ [x]) (J ++ [(a, v)]) =
        subtrie 64 (a.take f.depth ++ [x]) J :=
      subtrie_concat fun hpre => hx (digit_of_take_prefixed hd.le hpre)
    have hold := h.holds x hx
    exact ⟨by rw [hsame]; exact hold.mask, by rw [hsame]; exact hold.child⟩

/-- The path matters up to the digit of the frame. -/
theorem Partial.congr (h : Partial keccak256 J a f) {a' : List Nibble}
    (heq : a.take (f.depth + 1) = a'.take (f.depth + 1)) : Partial keccak256 J a' f := by
  have htake : a.take f.depth = a'.take f.depth := by
    have hcut := congrArg (List.take f.depth) heq
    rwa [List.take_take, List.take_take, Nat.min_eq_left (Nat.le_succ _)] at hcut
  have hdigit : a[f.depth]? = a'[f.depth]? := by
    have hget : (a.take (f.depth + 1))[f.depth]? = (a'.take (f.depth + 1))[f.depth]? := by
      rw [heq]
    rwa [List.getElem?_take_of_lt (Nat.lt_succ_self _),
      List.getElem?_take_of_lt (Nat.lt_succ_self _)] at hget
  refine ⟨fun x hx => h.fresh x (hdigit.trans hx), fun x hx => ?_⟩
  have hold := h.holds x fun hsome => hx (hdigit.symm.trans hsome)
  exact ⟨by rw [← htake]; exact hold.mask, by rw [← htake]; exact hold.child⟩

end

end EvmSail.Optimised
