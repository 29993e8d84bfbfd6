/-
# `EvmSail.Optimised.WitnessCodecSound` — both decoders of a witness node

The specification decodes a node into a path, a value and references; the
optimised host into a `DecodedNode`.  What the optimised decoder returns is
what the specification decodes (`mptDecode_sound`).  Beyond it the optimised
decoder checks the flag and the padding of a path, and that a child is empty,
a digest or an embedded list; where a node is `WellFormed` in these respects,
both decode it (`mptDecode_complete`).
-/
import EvmSail.Optimised.WitnessCodec
import EvmSail.Mpt.HexPrefixExact

namespace EvmSail.Optimised

open Fallible

/-! ## Nodes of the specification -/

/-- Branch children from `index` on, and the value. -/
theorem decodeBranchNode_eq_ok {fieldToRef : RlpFieldRef → Result NodeRef} {cursor : List Byte}
    {index : Nat} {children : BranchRefs} {t : TrieNode} (hindex : index ≤ 16) :
    decodeBranchNode fieldToRef cursor index children = .ok t ↔
      ∃ fs last children', Fields cursor (fs ++ [last]) ∧ fs.length = 16 - index ∧
        t = .branchNode children' (rlpItemContent last) ∧
        (∀ x : Nibble, x.val < index → branchRefsGet children' x = branchRefsGet children x) ∧
        ∀ (x : Nibble) f, index ≤ x.val → fs[x.val - index]? = some f →
          fieldToRef f = .ok (branchRefsGet children' x) := by
  induction hn : 16 - index generalizing index cursor children with
  | zero =>
    obtain rfl : index = 16 := by omega
    rw [decodeBranchNode, dif_neg (by omega)]
    constructor
    · intro h
      obtain ⟨value, hvalue, h⟩ := bind_eq_ok.mp h
      dsimp only at h
      obtain ⟨_, hend, hnode⟩ := bind_eq_ok.mp h
      obtain ⟨hf, rest, rfl⟩ := rlpDecodeItem_announced hvalue
      rw [rlpCursorAdvance_append, rlpCursorExpectEnd] at hend
      split at hend
      · rename_i hnil
        rw [List.eq_nil_of_length_eq_zero hnil]
        refine ⟨[], value, children, Fields.nil.cons hf, rfl, (Except.ok.inj hnode).symm,
          fun _ _ => rfl, fun _ _ _ hget => ?_⟩
        cases hget
      · cases hend
    · rintro ⟨fs, last, children', hfs, hlen, rfl, hbelow, _⟩
      rw [List.eq_nil_of_length_eq_zero hlen, List.nil_append] at hfs
      obtain ⟨hf, rfl, _⟩ := hfs.tail
      have hsame : children' = children := by
        refine Vector.ext fun i hi => ?_
        exact hbelow ⟨i, hi⟩ hi
      rw [hf.decode, ok_bind, rlpCursorAdvance_append, hsame]
      rfl
  | succ n ih =>
    have hlt : index < 16 := by omega
    rw [decodeBranchNode, dif_pos hlt]
    constructor
    · intro h
      obtain ⟨child, hchild, h⟩ := bind_eq_ok.mp h
      obtain ⟨ref, href, h⟩ := bind_eq_ok.mp h
      obtain ⟨hf, rest, rfl⟩ := rlpDecodeItem_announced hchild
      rw [rlpCursorAdvance_append] at h
      obtain ⟨fs, last, children', hfs, hlen, rfl, hbelow, habove⟩ :=
        (ih (show index + 1 ≤ 16 by omega) (by omega)).mp h
      refine ⟨child :: fs, last, children', hfs.cons hf, by rw [List.length_cons, hlen], rfl,
        fun x hx => ?_, fun x f hx hget => ?_⟩
      · rw [hbelow x (by omega), branchRefsGet_set, if_neg]
        rintro rfl
        exact Nat.lt_irrefl _ hx
      · rcases Nat.eq_or_lt_of_le hx with heq | hgt
        · obtain rfl : x = ⟨index, hlt⟩ := Fin.ext heq.symm
          rw [Nat.sub_self] at hget
          cases hget
          rw [hbelow _ (Nat.lt_succ_self index), branchRefsGet_set, if_pos rfl, href]
        · refine habove x f hgt ?_
          rwa [show x.val - index = x.val - (index + 1) + 1 by omega] at hget
    · rintro ⟨fs, last, children', hfs, hlen, rfl, hbelow, habove⟩
      cases fs with
      | nil => cases hlen
      | cons child fs =>
        obtain ⟨hf, rfl, hrest⟩ := hfs.tail
        have href := habove ⟨index, hlt⟩ child (Nat.le_refl index) (by rw [Nat.sub_self]; rfl)
        rw [hf.decode, ok_bind, rlpCursorAdvance_append, href, ok_bind]
        refine (ih (show index + 1 ≤ 16 by omega) (by omega)).mpr
          ⟨fs, last, children', hrest, Nat.succ.inj hlen, rfl, fun x hx => ?_,
            fun x f hx hget => ?_⟩
        · rw [branchRefsGet_set]
          split
          · rename_i heq
            rw [heq]
          · rename_i hne
            refine hbelow x (Nat.lt_of_le_of_ne (Nat.le_of_lt_succ hx) fun heq => hne ?_)
            exact Fin.ext heq
        · refine habove x f (Nat.le_of_succ_le hx) ?_
          rwa [show x.val - index = x.val - (index + 1) + 1 by omega]

/-- What the specification makes of the fields of a node. -/
inductive FieldsNode (fs : List RlpFieldRef) : TrieNode → Prop
  | leaf {first second : RlpFieldRef} {path : TriePath} : fs = [first, second] →
      hexPrefixDecodeRef first = .ok (true, path) →
      FieldsNode fs (.leafNode path (rlpItemContent second))
  | extension {first second : RlpFieldRef} {path : TriePath} {ref : NodeRef} :
      fs = [first, second] → hexPrefixDecodeRef first = .ok (false, path) → pathLen path ≠ 0 →
      inputFieldToRef second = .ok ref → FieldsNode fs (.extensionNode path ref)
  | branch {init : List RlpFieldRef} {last : RlpFieldRef} {children : BranchRefs} :
      fs = init ++ [last] → init.length = 16 →
      (∀ (x : Nibble) f, init[x.val]? = some f →
        inputFieldToRef f = .ok (branchRefsGet children x)) →
      FieldsNode fs (.branchNode children (rlpItemContent last))

theorem decodeInputTrieNode_eq_ok {node : StatelessInputSlice} {t : TrieNode} :
    decodeInputTrieNode node = .ok t ↔
      ∃ root fs, rlpSingleRef node = .ok root ∧ root.isList = true ∧
        Fields (rlpItemContent root) fs ∧ FieldsNode fs t := by
  have hnode : ∀ {root : RlpFieldRef}, rlpSingleRef node = .ok root → node.length ≠ 0 := by
    intro root hroot hnil
    rw [rlpSingleRef, if_pos hnil] at hroot
    cases hroot
  rw [decodeInputTrieNode, decodeTrieNode]
  constructor
  · intro h
    split at h
    · cases h
    obtain ⟨fields, hfields, h⟩ := bind_eq_ok.mp h
    obtain ⟨root, hroot, hlist, rfl⟩ := rlpNodeCursor_eq_ok.mp hfields
    obtain ⟨first, hfirst, h⟩ := bind_eq_ok.mp h
    obtain ⟨hf, rest, hrest⟩ := rlpDecodeItem_announced hfirst
    rw [hrest, rlpCursorAdvance_append] at h
    obtain ⟨second, hsecond, h⟩ := bind_eq_ok.mp h
    obtain ⟨hs, rest, rfl⟩ := rlpDecodeItem_announced hsecond
    rw [rlpCursorAdvance_append] at h
    dsimp only at h
    split at h
    · rename_i hnil
      rw [List.eq_nil_of_length_eq_zero hnil] at hrest
      refine ⟨root, [first, second], hroot, hlist, hrest ▸ (Fields.nil.cons hs).cons hf, ?_⟩
      obtain ⟨⟨leaf, path⟩, hpath, h⟩ := bind_eq_ok.mp h
      dsimp only at h
      split at h
      · rename_i hleaf
        rw [hleaf] at hpath
        rw [← Except.ok.inj h]
        exact .leaf rfl hpath
      · rename_i hleaf
        rw [Bool.eq_false_iff.mpr hleaf] at hpath
        split at h
        · cases h
        · rename_i hlen
          obtain ⟨ref, href, h⟩ := bind_eq_ok.mp h
          rw [← Except.ok.inj h]
          exact .extension rfl hpath hlen href
    · obtain ⟨firstChild, hfirstChild, h⟩ := bind_eq_ok.mp h
      obtain ⟨secondChild, hsecondChild, h⟩ := bind_eq_ok.mp h
      obtain ⟨fs, last, children, hfs, hlen, rfl, hbelow, habove⟩ :=
        (decodeBranchNode_eq_ok (by omega)).mp h
      have hinit : first :: second :: (fs ++ [last]) = (first :: second :: fs) ++ [last] := rfl
      refine ⟨root, first :: second :: (fs ++ [last]), hroot, hlist,
        hrest ▸ (hfs.cons hs).cons hf, .branch hinit
          (by rw [List.length_cons, List.length_cons, hlen]) fun x f hget => ?_⟩
      obtain ⟨x, hx⟩ := x
      rcases x with _ | _ | x
      · cases hget
        change inputFieldToRef first = .ok (branchRefsGet children 0)
        rw [hbelow 0 (by decide), branchRefsGet_set, branchRefsGet_set, if_neg (by decide),
          if_pos rfl, hfirstChild]
      · cases hget
        change inputFieldToRef second = .ok (branchRefsGet children 1)
        rw [hbelow 1 (by decide), branchRefsGet_set, if_pos rfl, hsecondChild]
      · exact habove ⟨x + 2, hx⟩ f (by simp) hget
  · rintro ⟨root, fs, hroot, hlist, hfs, hof⟩
    rw [if_neg (hnode hroot), rlpNodeCursor_eq_ok.mpr ⟨root, hroot, hlist, rfl⟩, ok_bind]
    cases hof with
    | leaf hpair hpath =>
      rw [hpair] at hfs
      obtain ⟨hf, hbytes, hrest⟩ := hfs.tail
      obtain ⟨hs, hbytes', hnil⟩ := hrest.tail
      rw [hbytes, hf.decode, ok_bind, rlpCursorAdvance_append]
      dsimp only
      rw [hbytes', hs.decode, ok_bind, rlpCursorAdvance_append]
      rw [sourcesOf_nil, if_pos List.length_nil, hpath]
      rfl
    | extension hpair hpath hlen href =>
      rw [hpair] at hfs
      obtain ⟨hf, hbytes, hrest⟩ := hfs.tail
      obtain ⟨hs, hbytes', hnil⟩ := hrest.tail
      rw [hbytes, hf.decode, ok_bind, rlpCursorAdvance_append]
      dsimp only
      rw [hbytes', hs.decode, ok_bind, rlpCursorAdvance_append]
      rw [sourcesOf_nil, if_pos List.length_nil, hpath, ok_bind]
      dsimp only
      rw [if_neg Bool.false_ne_true, if_neg hlen, href]
      rfl
    | @branch init last children hinit hlen hchildren =>
      obtain ⟨first, init, rfl⟩ := List.exists_cons_of_length_pos (by omega : 0 < init.length)
      rw [List.length_cons] at hlen
      obtain ⟨second, init, rfl⟩ := List.exists_cons_of_length_pos (by omega : 0 < init.length)
      rw [hinit, List.cons_append, List.cons_append] at hfs
      obtain ⟨hf, hbytes, hrest⟩ := hfs.tail
      obtain ⟨hs, hbytes', hbranch⟩ := hrest.tail
      have hne : ¬ (sourcesOf (init ++ [last])).length = 0 := by
        intro hzero
        rw [List.eq_nil_of_length_eq_zero hzero] at hbranch
        simpa using hbranch.eq_nil
      rw [hbytes, hf.decode, ok_bind, rlpCursorAdvance_append]
      dsimp only
      rw [hbytes', hs.decode, ok_bind, rlpCursorAdvance_append]
      rw [if_neg hne, hchildren 0 first rfl, ok_bind,
        hchildren 1 second rfl, ok_bind]
      refine (decodeBranchNode_eq_ok (by omega)).mpr
        ⟨init, last, children, hbranch, by simpa using hlen, rfl, fun x hx => ?_,
          fun x f hx hget => hchildren x f ?_⟩
      · rw [branchRefsGet_set, branchRefsGet_set]
        split
        · rename_i heq
          rw [heq]
        · rename_i hne'
          have hval : x.val ≠ 1 := fun heq => hne' (Fin.ext heq)
          have hzero : x = 0 := Fin.ext (show x.val = 0 by omega)
          rw [if_pos hzero, hzero]
      · rwa [show x.val = x.val - 2 + 2 by omega]

/-! ## Paths -/

/-- The pairs of nibbles behind the first byte, as far as they fit. -/
theorem foldlM_pathPairs (tail : List Byte) {path : List Nibble} (hpath : path.length ≤ 64) :
    tail.foldlM (fun (path : List Nibble) b =>
        if path.length > 62 then none else some (path ++ [highNibble b, lowNibble b])) path =
      if path.length + 2 * tail.length ≤ 64 then some (path ++ unpackNibbles tail) else none := by
  induction tail generalizing path with
  | nil => rw [List.length_nil, if_pos (by omega), unpackNibbles, List.append_nil]; rfl
  | cons b tail ih =>
    rw [List.foldlM_cons, List.length_cons]
    by_cases hfull : path.length > 62
    · rw [if_pos hfull, if_neg (by omega)]
      rfl
    · have hnext : (path ++ [highNibble b, lowNibble b]).length = path.length + 2 := by
        rw [List.length_append]
        rfl
      have hrest := @ih (path ++ [highNibble b, lowNibble b]) (by omega)
      rw [hnext, List.append_assoc] at hrest
      rw [if_neg hfull, show path.length + 2 * (tail.length + 1) = path.length + 2 + 2 * tail.length
        by omega]
      exact hrest

/-- The optimised decoder on a flag byte and the pairs behind it. -/
theorem mptDecodeCompact_cons {f : RlpFieldRef} {fb : Byte} {tail : List Byte}
    (hkind : f.isList = false) (hcontent : rlpItemContent f = fb :: tail) :
    mptDecodeCompact (rlpItemOf f) =
      if 32 < tail.length then none
      else if (highNibble fb).val > 3 then none
      else if (highNibble fb).val.testBit 0 then
        if tail.length < 32 then
          some ((highNibble fb).val.testBit 1, lowNibble fb :: unpackNibbles tail)
        else none
      else if lowNibble fb ≠ 0 then none
      else some ((highNibble fb).val.testBit 1, unpackNibbles tail) := by
  rw [mptDecodeCompact, rlpItemOf]
  dsimp only
  rw [hkind, hcontent, if_neg Bool.false_ne_true]
  dsimp only
  rw [List.length_cons]
  by_cases hmax : 32 < tail.length
  · rw [if_pos (by omega), if_pos hmax]
  rw [if_neg (by omega), if_neg hmax]
  by_cases hflag : (highNibble fb).val > 3
  · rw [if_pos hflag, if_pos hflag]
  rw [if_neg hflag, if_neg hflag]
  cases hodd : (highNibble fb).val.testBit 0 with
  | true =>
    simp only [Bool.not_true, Bool.false_and, Bool.false_eq_true, if_false, if_true]
    rw [foldlM_pathPairs tail (by simp), List.length_singleton]
    by_cases hfull : tail.length < 32
    · rw [if_pos (by omega), if_pos hfull]
      rfl
    · rw [if_neg (by omega), if_neg hfull]
      rfl
  | false =>
    simp only [Bool.not_false, Bool.true_and, Bool.false_eq_true, if_false, bne_iff_ne]
    by_cases hpad : lowNibble fb = 0
    · rw [if_neg (not_not.mpr hpad), if_neg (not_not.mpr hpad), foldlM_pathPairs tail (by simp),
        List.length_nil, if_pos (by omega)]
      rfl
    · rw [if_pos hpad, if_pos hpad]

/-- What the optimised decoder reads, the specification reads. -/
theorem mptDecodeCompact_sound {f : RlpFieldRef} {leaf : Bool} {path : List Nibble}
    (h : mptDecodeCompact (rlpItemOf f) = some (leaf, path)) :
    hexPrefixDecodeRef f = .ok (leaf, .ofNibbles path) ∧ path.length ≤ 64 := by
  have hkind : f.isList = false := by
    by_contra hlist
    rw [mptDecodeCompact, rlpItemOf] at h
    dsimp only at h
    rw [if_pos (Bool.not_eq_false _ ▸ hlist)] at h
    cases h
  cases hcontent : rlpItemContent f with
  | nil =>
    rw [mptDecodeCompact, rlpItemOf] at h
    dsimp only at h
    rw [hkind, hcontent, if_neg Bool.false_ne_true] at h
    cases h
    refine ⟨?_, Nat.zero_le _⟩
    rw [hexPrefixDecodeRef_nil hkind hcontent]
    refine congrArg (fun p => Except.ok (false, p)) ((TriePath.eq_ofNibbles_iff (by simp)).mpr ?_)
    exact nibbles_pathEmpty
  | cons fb tail =>
    have hunpack := length_unpackNibbles tail
    rw [mptDecodeCompact_cons hkind hcontent] at h
    rw [hexPrefixDecodeRef_cons hkind hcontent]
    split at h
    · cases h
    rename_i hmax
    rw [if_neg hmax]
    split at h
    · cases h
    split at h
    · rename_i hodd
      rw [if_pos hodd]
      split at h
      · rename_i hfull
        cases h
        rw [if_pos hfull]
        refine ⟨rfl, ?_⟩
        rw [List.length_cons]
        omega
      · cases h
    · rename_i hodd
      rw [if_neg hodd]
      split at h
      · cases h
      · cases h
        exact ⟨rfl, by omega⟩

/-- A path field the optimised decoder reads: empty, or with a flag byte. -/
def CompactField (f : RlpFieldRef) : Prop :=
  ∀ fb tail, rlpItemContent f = fb :: tail → FlagByte fb

theorem mptDecodeCompact_complete {f : RlpFieldRef} (hf : CompactField f) {leaf : Bool}
    {path : TriePath} (h : hexPrefixDecodeRef f = .ok (leaf, path)) :
    mptDecodeCompact (rlpItemOf f) = some (leaf, path.nibbles) := by
  have hkind : f.isList = false := by
    by_contra hlist
    rw [hexPrefixDecodeRef_list (Bool.not_eq_false _ ▸ hlist)] at h
    cases h
  cases hcontent : rlpItemContent f with
  | nil =>
    rw [hexPrefixDecodeRef_nil hkind hcontent] at h
    obtain ⟨rfl, rfl⟩ := Prod.mk.inj (Except.ok.inj h)
    rw [mptDecodeCompact, rlpItemOf]
    dsimp only
    rw [hkind, hcontent, if_neg Bool.false_ne_true]
    rfl
  | cons fb tail =>
    obtain ⟨hflag, hpad⟩ := hf fb tail hcontent
    have hunpack := length_unpackNibbles tail
    rw [hexPrefixDecodeRef_cons hkind hcontent] at h
    rw [mptDecodeCompact_cons hkind hcontent]
    split at h
    · cases h
    rename_i hmax
    rw [if_neg hmax, if_neg (by omega)]
    split at h
    · rename_i hodd
      rw [if_pos hodd]
      split at h
      · rename_i hfull
        obtain ⟨rfl, rfl⟩ := Prod.mk.inj (Except.ok.inj h)
        rw [if_pos hfull, TriePath.nibbles_ofNibbles (by rw [List.length_cons]; omega)]
      · cases h
    · rename_i hodd
      obtain ⟨rfl, rfl⟩ := Prod.mk.inj (Except.ok.inj h)
      rw [if_neg hodd, if_neg (not_not.mpr (hpad (Bool.eq_false_iff.mpr hodd))),
        TriePath.nibbles_ofNibbles (by omega)]

/-! ## References -/

/-- `hash_from_be_bytes`. -/
def hashFromBeBytes (bytes : List Byte) : Hash := Vector.ofFn fun i => sliceByte bytes i.val

theorem toList_hashFromBeBytes {bytes : List Byte} (h : bytes.length = 32) :
    (hashFromBeBytes bytes).toList = bytes := by
  rw [hashFromBeBytes, Vector.toList_ofFn]
  refine List.ext_getElem (by rw [List.length_ofFn, h]) fun i _ hi => ?_
  rw [List.getElem_ofFn, sliceByte, List.getElem?_eq_getElem hi, Option.getD_some]

/-- A digest read as a word. -/
theorem wordToHash_natOfBytes {bytes : List Byte} (h : bytes.length = 32) :
    wordToHash (BitVec.ofNat 256 (natOfBytes bytes)) = hashFromBeBytes bytes := by
  have hback := wordToHash_hashToWord (hashFromBeBytes bytes)
  rwa [hashToWord, toList_hashFromBeBytes h] at hback

/-- What a child of a decoded node refers to. -/
inductive RefMatches (child : WitnessChild) : NodeRef → Prop
  | empty : child.encoded = none → RefMatches child .emptyRef
  | inline {node : InlineNode} : child.encoded = some node.bytes → node.bytes ≠ [] →
      RefMatches child (.inputInlineRef node)
  | hashed {digest : List Byte} : child.encoded = some digest → digest.length = 32 →
      RefMatches child (.hashRef (hashFromBeBytes digest))

theorem mptDecodeChildReference_sound {f : RlpFieldRef} (hf : f.Announced) {child : WitnessChild}
    (h : mptDecodeChildReference (rlpItemOf f) = some child) :
    ∃ ref, inputFieldToRef f = .ok ref ∧ RefMatches child ref := by
  have hlen := length_rlpItemContent f
  rw [mptDecodeChildReference] at h
  rw [inputFieldToRef]
  split at h
  · rename_i hlist
    have hlist : f.isList = true := hlist
    split at h
    · cases h
    rename_i hlong
    cases h
    have hshort : f.source.length < 32 := Nat.lt_of_not_le hlong
    rw [if_pos hlist, dif_pos hshort]
    exact ⟨_, rfl, @RefMatches.inline _ ⟨f.source, by omega⟩ rfl hf.source_ne_nil⟩
  · rename_i hlist
    have hlist : f.isList = false := Bool.eq_false_iff.mpr hlist
    rw [hlist, if_neg Bool.false_ne_true]
    split at h
    · rename_i hdigest
      cases h
      have hdigest : f.contentLen = 32 := hlen.symm.trans hdigest
      rw [if_pos hdigest, rlpDecodeWord_eq_ok.mpr ⟨hlist, Nat.le_of_eq hdigest, rfl⟩, ok_bind,
        wordToHash_natOfBytes (hlen.trans hdigest)]
      exact ⟨_, rfl, .hashed rfl (hlen.trans hdigest)⟩
    · rename_i hdigest
      have hdigest : f.contentLen ≠ 32 := fun heq => hdigest (hlen.trans heq)
      split at h
      · cases h
        rw [if_neg hdigest]
        exact ⟨_, rfl, .empty rfl⟩
      · cases h

/-- A child field the optimised decoder reads. -/
def ChildField (f : RlpFieldRef) : Prop := f.isList = true ∨ f.contentLen = 0 ∨ f.contentLen = 32

theorem mptDecodeChildReference_complete {f : RlpFieldRef} (hf : ChildField f) {ref : NodeRef}
    (h : inputFieldToRef f = .ok ref) :
    ∃ child, mptDecodeChildReference (rlpItemOf f) = some child := by
  have hlen : (rlpItemOf f).content.length = f.contentLen := length_rlpItemContent f
  rw [mptDecodeChildReference]
  split
  · rename_i hlist
    split
    · rename_i hlong
      have hlong : ¬ f.source.length < 32 := Nat.not_lt_of_le hlong
      rw [inputFieldToRef, if_pos (show f.isList = true from hlist), dif_neg hlong] at h
      cases h
    · exact ⟨_, rfl⟩
  · rename_i hlist
    rw [hlen]
    rcases hf with hlist' | hempty | hdigest
    · exact absurd hlist' hlist
    · rw [if_neg (by omega), if_pos hempty]
      exact ⟨_, rfl⟩
    · rw [if_pos hdigest]
      exact ⟨_, rfl⟩

/-! ## Nodes -/

/-- A decoded node and the node of the specification. -/
inductive NodeMatches (node : DecodedNode) : TrieNode → Prop
  | leaf {path : TriePath} : node.kind = .leaf → path.nibbles = node.path →
      NodeMatches node (.leafNode path node.value)
  | extension {path : TriePath} {ref : NodeRef} : node.kind = .extension →
      path.nibbles = node.path → RefMatches (node.child 0) ref →
      NodeMatches node (.extensionNode path ref)
  | branch {children : BranchRefs} : node.kind = .branch →
      (∀ x, RefMatches (node.child x) (branchRefsGet children x)) →
      NodeMatches node (.branchNode children node.value)

/-- What the optimised decoder returns, the specification decodes. -/
theorem mptDecode_sound {encoded : List Byte} {node : DecodedNode}
    (h : mptDecodeTrustedStateNode encoded = some node) :
    ∃ t, decodeInputTrieNode encoded = .ok t ∧ NodeMatches node t := by
  obtain ⟨root, fs, hroot, hlist, hfs, _, hfields⟩ := mptDecode_eq_some.mp h
  suffices hnode : ∃ t, FieldsNode fs t ∧ NodeMatches node t by
    obtain ⟨t, hof, hmatches⟩ := hnode
    exact ⟨t, decodeInputTrieNode_eq_ok.mpr ⟨root, fs, hroot, hlist, hfs, hof⟩, hmatches⟩
  cases mptDecodeFields_items hfields with
  | @leaf first second hitems hpath hkind hvalue _ =>
    obtain ⟨f, fs', hfs', rfl, hrest⟩ := List.map_eq_cons_iff.mp hitems
    obtain ⟨g, fs'', rfl, rfl, hnil⟩ := List.map_eq_cons_iff.mp hrest
    obtain rfl := List.map_eq_nil_iff.mp hnil
    obtain ⟨hdecode, hlen⟩ := mptDecodeCompact_sound hpath
    refine ⟨_, .leaf hfs' hdecode, ?_⟩
    have hmatches : NodeMatches node (.leafNode (.ofNibbles node.path) node.value) :=
      .leaf hkind (TriePath.nibbles_ofNibbles hlen)
    rwa [hvalue] at hmatches
  | @extension first second hitems hpath hkind hchild _ =>
    obtain ⟨f, fs', hfs', rfl, hrest⟩ := List.map_eq_cons_iff.mp hitems
    obtain ⟨g, fs'', rfl, rfl, hnil⟩ := List.map_eq_cons_iff.mp hrest
    obtain rfl := List.map_eq_nil_iff.mp hnil
    obtain ⟨hdecode, hlen⟩ := mptDecodeCompact_sound hpath
    have hnibbles := TriePath.nibbles_ofNibbles hlen
    have hg : g.Announced := hfs.announced g (by rw [hfs']; simp)
    obtain ⟨ref, href, hmatches⟩ := mptDecodeChildReference_sound hg hchild
    refine ⟨_, .extension hfs' hdecode ?_ href, .extension hkind hnibbles hmatches⟩
    rw [pathLen_eq, hnibbles]
    exact node.path_ne hkind
  | @branch init last hitems hlen hkind hvalue hchildren =>
    obtain ⟨fs', gs, hfs', hinit, hlast⟩ := List.map_eq_append_iff.mp hitems
    obtain ⟨g, gs', rfl, rfl, hnil⟩ := List.map_eq_cons_iff.mp hlast
    obtain rfl := List.map_eq_nil_iff.mp hnil
    have hlen' : fs'.length = 16 := by rw [← hlen, ← hinit, List.length_map]
    have href : ∀ x : Nibble, ∃ f ref, fs'[x.val]? = some f ∧ inputFieldToRef f = .ok ref ∧
        RefMatches (node.child x) ref := by
      intro x
      obtain ⟨f, hget⟩ : ∃ f, fs'[x.val]? = some f :=
        ⟨_, List.getElem?_eq_getElem (x.isLt.trans_eq hlen'.symm)⟩
      have hitem : init[x.val]? = some (rlpItemOf f) := by
        rw [← hinit, List.getElem?_map, hget, Option.map_some]
      have hmem := List.mem_of_getElem? hget
      obtain ⟨ref, href, hmatches⟩ := mptDecodeChildReference_sound
        (hfs.announced _ (hfs' ▸ List.mem_append_left _ hmem)) (hchildren x _ hitem)
      exact ⟨_, ref, hget, href, hmatches⟩
    choose f ref hget href hmatches using href
    have hrefs : ∀ x, branchRefsGet (Vector.ofFn ref) x = ref x := by
      intro x
      rw [branchRefsGet, Vector.get_eq_getElem, Vector.getElem_ofFn]
    refine ⟨.branchNode (Vector.ofFn ref) node.value, ?_, .branch hkind fun x => ?_⟩
    · rw [hvalue]
      refine .branch hfs' hlen' fun x f' hget' => ?_
      rw [hget x] at hget'
      cases hget'
      rw [href, hrefs]
    · rw [hrefs]
      exact hmatches x

/-- What the optimised decoder checks beyond the specification. -/
structure WellFormed (encoded : List Byte) : Prop where
  path : ∀ root first second, rlpSingleRef encoded = .ok root →
    Fields (rlpItemContent root) [first, second] → CompactField first
  target : ∀ root first second path, rlpSingleRef encoded = .ok root →
    Fields (rlpItemContent root) [first, second] →
    hexPrefixDecodeRef first = .ok (false, path) → ChildField second
  children : ∀ root init last, rlpSingleRef encoded = .ok root →
    Fields (rlpItemContent root) (init ++ [last]) → init.length = 16 → ∀ f ∈ init, ChildField f

/-- What the specification decodes, the optimised decoder returns, where the
node is well-formed. -/
theorem mptDecode_complete {encoded : List Byte} (hwf : WellFormed encoded) {t : TrieNode}
    (h : decodeInputTrieNode encoded = .ok t) :
    ∃ node, mptDecodeTrustedStateNode encoded = some node := by
  obtain ⟨root, fs, hroot, hlist, hfs, hof⟩ := decodeInputTrieNode_eq_ok.mp h
  suffices hnode : fs.length ≤ 17 ∧ ∃ node, mptDecodeFields (fs.map rlpItemOf) = some node by
    obtain ⟨hlen, node, hfields⟩ := hnode
    exact ⟨node, mptDecode_eq_some.mpr ⟨root, fs, hroot, hlist, hfs, hlen, hfields⟩⟩
  cases hof with
  | @leaf first second path hpair hpath =>
    subst hpair
    have hcompact := mptDecodeCompact_complete (hwf.path root first second hroot hfs) hpath
    refine ⟨by simp, ?_⟩
    rw [List.map_cons, List.map_singleton, mptDecodeFields, hcompact]
    exact ⟨_, rfl⟩
  | @extension first second path ref hpair hpath hlen href =>
    subst hpair
    have hcompact := mptDecodeCompact_complete (hwf.path root first second hroot hfs) hpath
    obtain ⟨child, hchild⟩ := mptDecodeChildReference_complete
      (hwf.target root first second path hroot hfs hpath) href
    rw [pathLen_eq] at hlen
    refine ⟨by simp, ?_⟩
    rw [List.map_cons, List.map_singleton, mptDecodeFields, hcompact, Option.bind_eq_bind,
      Option.bind_some]
    dsimp only
    rw [if_neg Bool.false_ne_true, dif_neg hlen, hchild]
    exact ⟨_, rfl⟩
  | @branch init last children hinit hlen hchildren =>
    subst hinit
    have hall : ∀ item ∈ init.map rlpItemOf,
        ∃ child, mptDecodeChildReference item = some child := by
      intro item hitem
      obtain ⟨f, hf, rfl⟩ := List.mem_map.mp hitem
      obtain ⟨i, hi⟩ := List.mem_iff_getElem?.mp hf
      have hlt : i < 16 := hlen ▸ (List.getElem?_eq_some_iff.mp hi).1
      exact mptDecodeChildReference_complete (hwf.children root init last hroot hfs hlen f hf)
        (hchildren ⟨i, hlt⟩ f hi)
    obtain ⟨refs, hrefs⟩ := exists_mapM_eq_some hall
    have hmap : (init ++ [last]).map rlpItemOf = init.map rlpItemOf ++ [rlpItemOf last] :=
      List.map_append
    have hlen' : (init.map rlpItemOf).length = 16 := by rw [List.length_map, hlen]
    have htake : (init.map rlpItemOf ++ [rlpItemOf last]).take 16 = init.map rlpItemOf := by
      rw [← hlen', List.take_left]
    have hlast : (init.map rlpItemOf ++ [rlpItemOf last])[16]? = some (rlpItemOf last) := by
      rw [← hlen', List.getElem?_append_right (Nat.le_refl _), Nat.sub_self]
      rfl
    have hcount : (init.map rlpItemOf ++ [rlpItemOf last]).length = 17 := by
      rw [List.length_append, hlen', List.length_singleton]
    refine ⟨by simp [hlen], ?_⟩
    rw [hmap, mptDecodeFields.eq_def]
    split
    · rename_i hpair
      rw [hpair] at hcount
      cases hcount
    · rw [hlast]
      dsimp only
      rw [if_neg (not_not.mpr hcount), htake, hrefs]
      exact ⟨_, rfl⟩

theorem mptDecodeCompact_field {f : RlpFieldRef} {leaf : Bool} {path : List Nibble}
    (h : mptDecodeCompact (rlpItemOf f) = some (leaf, path)) : CompactField f := by
  have hkind : f.isList = false := by
    by_contra hlist
    have hdecode := (mptDecodeCompact_sound h).1
    rw [hexPrefixDecodeRef_list (Bool.not_eq_false _ ▸ hlist)] at hdecode
    cases hdecode
  intro fb tail hcontent
  rw [mptDecodeCompact_cons hkind hcontent] at h
  split at h
  · cases h
  split at h
  · cases h
  rename_i hflag
  refine ⟨Nat.not_lt.mp hflag, fun heven => ?_⟩
  rw [heven, if_neg Bool.false_ne_true] at h
  split at h
  · cases h
  · rename_i hpad
    exact not_not.mp hpad

theorem mptDecodeChildReference_field {f : RlpFieldRef} {child : WitnessChild}
    (h : mptDecodeChildReference (rlpItemOf f) = some child) : ChildField f := by
  have hlen : (rlpItemOf f).content.length = f.contentLen := length_rlpItemContent f
  rw [mptDecodeChildReference, hlen] at h
  split at h
  · rename_i hlist
    exact Or.inl hlist
  · split at h
    · rename_i hdigest
      exact Or.inr (Or.inr hdigest)
    · split at h
      · rename_i hempty
        exact Or.inr (Or.inl hempty)
      · cases h

/-- What the optimised decoder returns is well-formed. -/
theorem WellFormed.of_decode {encoded : List Byte} {node : DecodedNode}
    (h : mptDecodeTrustedStateNode encoded = some node) : WellFormed encoded := by
  obtain ⟨root, fs, hroot, _, hfs, _, hfields⟩ := mptDecode_eq_some.mp h
  have hitems := mptDecodeFields_items hfields
  have hsame : ∀ {root' : RlpFieldRef} {gs}, rlpSingleRef encoded = .ok root' →
      Fields (rlpItemContent root') gs → fs = gs := by
    intro root' gs hroot' hgs
    rw [hroot] at hroot'
    cases hroot'
    exact hfs.unique hgs
  have hpair : ∀ {init : List RlpItem} {last : RlpItem} {first second : RlpFieldRef},
      [first, second].map rlpItemOf = init ++ [last] → init.length ≠ 16 := by
    intro init last first second heq hlen
    have hlength := congrArg List.length heq
    rw [List.length_map, List.length_append, hlen] at hlength
    cases hlength
  refine ⟨fun root' first second hroot' hgs => ?_,
    fun root' first second path hroot' hgs hpath => ?_,
    fun root' init last hroot' hgs hlen f hf => ?_⟩
  · rw [hsame hroot' hgs] at hitems
    cases hitems with
    | leaf heq hcompact =>
      cases heq
      exact mptDecodeCompact_field hcompact
    | extension heq hcompact =>
      cases heq
      exact mptDecodeCompact_field hcompact
    | branch heq hlen => exact absurd hlen (hpair heq)
  · rw [hsame hroot' hgs] at hitems
    cases hitems with
    | leaf heq hcompact =>
      cases heq
      rw [(mptDecodeCompact_sound hcompact).1] at hpath
      cases hpath
    | extension heq _ _ hchild =>
      cases heq
      exact mptDecodeChildReference_field hchild
    | branch heq hlen => exact absurd hlen (hpair heq)
  · rw [hsame hroot' hgs] at hitems
    have hcount : ((init ++ [last]).map rlpItemOf).length = 17 := by
      rw [List.length_map, List.length_append, hlen]
      rfl
    cases hitems with
    | leaf heq =>
      rw [heq] at hcount
      cases hcount
    | extension heq =>
      rw [heq] at hcount
      cases hcount
    | @branch items item heq hlen' _ _ hchildren =>
      rw [List.map_append] at heq
      obtain ⟨hinit, _⟩ := List.append_inj heq (by rw [List.length_map, hlen, hlen'])
      obtain ⟨i, hi⟩ := List.mem_iff_getElem?.mp hf
      have hlt : i < 16 := hlen ▸ (List.getElem?_eq_some_iff.mp hi).1
      refine mptDecodeChildReference_field (hchildren ⟨i, hlt⟩ (rlpItemOf f) ?_)
      rw [← hinit, List.getElem?_map, hi, Option.map_some]

end EvmSail.Optimised
