/-
# `EvmSail.Mpt.Rekeying` — putting a path in front of a subtree

When a branch loses all children but one, the remaining one moves up and
takes the nibbles between with it.  `merge_ext_node` does this for the
bytes of a node, `merge_ext_ref` for a reference.

Both are `Trie.prepend` on the subtree behind: `mergeExt_exact`.  A hash
says nothing about the kind of its node, so `merge_ext_ref` wraps every
hash in an extension; of a hashed leaf or extension that is not the
canonical reference (`mergeExtRef_hashedLeaf`), and its callers resolve
such a hash and re-key the bytes.
-/
import EvmSail.Mpt.CodecSound

namespace EvmSail

open Fallible Radix

variable {keccak256 : List Byte → Hash}

/-! ## What a new reference is -/

/-- A node is embedded below 32 bytes. -/
theorem childRef_embeds_iff (enc : List Byte) :
    (∃ node : InlineNode, childRef keccak256 enc = .scratchInlineRef node ∧ node.bytes = enc) ↔
      enc.length < 32 := by
  constructor
  · rintro ⟨node, _, rfl⟩
    exact Nat.lt_succ_of_le node.len_le
  · intro hshort
    rw [childRef, dif_pos hshort]
    exact ⟨_, rfl, rfl⟩

/-- Every other node is hashed. -/
theorem childRef_hashes_iff (enc : List Byte) :
    childRef keccak256 enc = .hashRef (keccak256 enc) ↔ 32 ≤ enc.length := by
  rw [childRef]
  split
  · next hshort =>
    refine ⟨fun h => ?_, fun hlong => absurd hshort (Nat.not_lt_of_le hlong)⟩
    cases h
  · next hlong => exact ⟨fun _ => Nat.le_of_not_lt hlong, fun _ => rfl⟩

/-! ## The subtree under a longer path -/

/-- What `prepend` makes of a node: a leaf or an extension absorbs the path, a
branch gains one extension. -/
inductive Absorbs (p : List Nibble) : NibbleTrie → NibbleTrie → Prop
  | leaf (q : List Nibble) (v : List Byte) : Absorbs p (.leaf q v) (.leaf (p ++ q) v)
  | ext (q : List Nibble) (c : NibbleTrie) : Absorbs p (.ext q c) (.ext (p ++ q) c)
  | branch (cs : Nibble → NibbleTrie) : Absorbs p (.branch cs) (.ext p (.branch cs))

theorem absorbs_prepend {p : List Nibble} (hp : p ≠ []) {t : NibbleTrie} (hne : t ≠ .empty) :
    Absorbs p t (t.prepend p) := by
  cases t with
  | empty => exact absurd rfl hne
  | leaf q v => exact .leaf q v
  | ext q c => exact .ext q c
  | branch cs =>
    rw [Trie.prepend_branch hp]
    exact .branch cs

/-- The keys of the longer subtree are those of the shorter one, each behind
the path. -/
structure KeysBehind (p : List Nibble) (t t' : NibbleTrie) : Prop where
  behind : ∀ k, t'.lookup (p ++ k) = t.lookup k
  elsewhere : ∀ k, ¬ p <+: k → t'.lookup k = none

theorem keysBehind_prepend (p : List Nibble) (t : NibbleTrie) :
    KeysBehind p t (t.prepend p) where
  behind k := Trie.lookup_prepend_append p k t
  elsewhere k h := by rw [Trie.lookup_prepend, if_neg h]

/-! ## Re-keying -/

/-- The reference of the re-keyed subtree, if its path fits a key. -/
def rekeyed (keccak256 : List Byte → Hash) (pfx : TriePath) (t : NibbleTrie) : Result NodeRef :=
  if pfx.nibbles.length + t.headPath.length ≤ 64 then
    .ok (childRef keccak256 (encodeNode keccak256 (t.prepend pfx.nibbles)))
  else fatalError .witnessDeficient

/-- For every canonical subtree and every path that is not empty: re-keying
the bytes or a reference gives the child reference of the canonical subtree
with the path in front of every key, embedded exactly if its encoding is
shorter than 32 bytes; and the bytes of a node decode to that node. -/
theorem mergeExt_exact (pfx : TriePath) (hp : pfx.nibbles ≠ []) {t : NibbleTrie}
    (hcan : t.Compressed) (hfit : TrieFits t) (hne : t ≠ .empty) :
    let enc := encodeNode keccak256 t
    let t' := t.prepend pfx.nibbles
    let enc' := encodeNode keccak256 t'
    (t'.Compressed ∧ KeysBehind pfx.nibbles t t' ∧ Absorbs pfx.nibbles t t') ∧
    mergeExtNode keccak256 pfx enc = rekeyed keccak256 pfx t ∧
    (∀ ref, RefOf keccak256 ref enc → ((∃ h, ref = .hashRef h) → t.IsBranch) →
      mergeExtRef keccak256 pfx ref = rekeyed keccak256 pfx t) ∧
    ((∃ node : InlineNode, childRef keccak256 enc' = .scratchInlineRef node ∧ node.bytes = enc') ↔
      enc'.length < 32) ∧
    (childRef keccak256 enc' = .hashRef (keccak256 enc') ↔ 32 ≤ enc'.length) ∧
    (∃ node, decodeInputTrieNode enc = .ok node ∧
      Decodes keccak256 (InputRefOf keccak256) node t) ∧
    ∃ node, decodeScratchTrieNode enc = .ok node ∧ Decodes keccak256 (RefOf keccak256) node t := by
  intro enc t' enc'
  refine ⟨⟨hcan.prepend _, keysBehind_prepend _ t, absorbs_prepend hp hne⟩, ?_, ?_,
    childRef_embeds_iff enc', childRef_hashes_iff enc', ?_, ?_⟩
  · exact mergeExtNode_eq keccak256 hcan hfit hne hp
  · intro ref href hhash
    exact mergeExtRef_eq hcan hfit hne hp href hhash
  · exact decodeInputTrieNode_encodeNode keccak256 hcan hfit hne
  · exact decodeTrieNode_encodeNode (scratchFieldToRef_reads keccak256) hcan hfit hne

/-! ## A hashed leaf -/

/-- A hash that keeps the first 32 bytes. -/
def leadingBytes (message : List Byte) : Hash := Vector.ofFn fun i => message.getD i.val 0

def wideLeaf : NibbleTrie := .leaf [0] (List.replicate 32 0)

theorem fits_wideLeaf : TrieFits wideLeaf := by
  have hbound := scratchRegionBound_ge
  refine .leaf [0] _ (by decide) ?_
  rw [ValueFits, List.length_replicate]
  omega

theorem wideLeaf_ne_empty : wideLeaf ≠ .empty := fun h => by cases h

theorem nibbles_single (x : Nibble) : (TriePath.ofNibbles [x]).nibbles = [x] :=
  TriePath.nibbles_ofNibbles (Nat.le_add_left 1 63)

theorem single_ne_nil (x : Nibble) : (TriePath.ofNibbles [x]).nibbles ≠ [] := by
  rw [nibbles_single]
  exact List.cons_ne_nil x []

theorem mergeExt_exact_wideLeaf :
    mergeExtNode leadingBytes (.ofNibbles [1]) (encodeNode leadingBytes wideLeaf) =
      rekeyed leadingBytes (.ofNibbles [1]) wideLeaf := by
  exact (mergeExt_exact (.ofNibbles [1]) (single_ne_nil 1) (.leaf [0] _) fits_wideLeaf
    wideLeaf_ne_empty).2.1

/-- Not every reference to a canonical subtree is re-keyed so: the hash of a
leaf becomes an extension over that leaf, and a path may get too long. -/
theorem mergeExtRef_hashedLeaf :
    (¬ ∀ (keccak256 : List Byte → Hash) (pfx : TriePath) (t : NibbleTrie) (ref : NodeRef),
      t.Compressed → TrieFits t → t ≠ .empty → pfx.nibbles ≠ [] →
      RefOf keccak256 ref (encodeNode keccak256 t) →
      mergeExtRef keccak256 pfx ref =
        .ok (childRef keccak256 (encodeNode keccak256 (t.prepend pfx.nibbles)))) ∧
    mergeExtRef leadingBytes (.ofNibbles (List.replicate 64 0))
      (childRef leadingBytes (encodeNode leadingBytes (.leaf [0] []))) =
        fatalError .witnessDeficient := by
  refine ⟨fun h => ?_, ?_⟩
  · have hwide : 32 ≤ (encodeNode leadingBytes wideLeaf).length := by decide
    have hwrapped := extensionChildRef_eq (.ofNibbles [1]) (RefOf.hash _ hwide)
    have hhashed := h leadingBytes (.ofNibbles [1]) wideLeaf _ (.leaf [0] _) fits_wideLeaf
      wideLeaf_ne_empty (single_ne_nil 1) (RefOf.hash _ hwide)
    have hmerge : mergeExtRef leadingBytes (.ofNibbles [1])
        (.hashRef (leadingBytes (encodeNode leadingBytes wideLeaf))) =
        extensionChildRef leadingBytes (.ofNibbles [1])
          (.hashRef (leadingBytes (encodeNode leadingBytes wideLeaf))) := by
      have hpath : ¬ (TriePath.ofNibbles [1]).nibbles.length = 0 := by simp
      rw [mergeExtRef, pathLen_eq, if_neg hpath]
    rw [hmerge, hwrapped, nibbles_single] at hhashed
    have href := Except.ok.inj hhashed
    rw [(childRef_hashes_iff _).mpr (by decide), (childRef_hashes_iff _).mpr (by decide)] at href
    exact absurd (congrArg Vector.toList (NodeRef.hashRef.inj href)) (by decide)
  · have hlong : (TriePath.ofNibbles (List.replicate 64 0)).nibbles.length = 64 := by
      rw [TriePath.nibbles_ofNibbles (by decide), List.length_replicate]
    have hfit : TrieFits (.leaf [0] []) := by
      have hbound := scratchRegionBound_ge
      exact .leaf [0] [] (by decide) (by rw [ValueFits, List.length_nil]; omega)
    rw [mergeExtRef_eq (t := .leaf [0] []) (.leaf [0] []) hfit (fun h => by cases h)
      (fun h => by rw [h] at hlong; cases hlong) (refOf_childRef (rlpList_ne_nil _)),
      if_neg (by rw [hlong]; decide)]
    rintro ⟨hash, hhash⟩
    rw [childRef, dif_pos (by decide)] at hhash
    cases hhash

end EvmSail
