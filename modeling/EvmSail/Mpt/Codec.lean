/-
# `EvmSail.Mpt.Codec` — trie nodes, their references and their bytes

The node forms of the trie walker and the functions that encode, decode
and re-key them.  The hash function and the witness database are
parameters: `nodedbLookup h` is the witnessed node with digest `h`, the
empty slice when there is none.

The source has each decoder twice, over input and over scratch slices;
the two differ only in the reference they make of an embedded child
(`inputFieldToRef`, `scratchFieldToRef`), which is the parameter of
`decodeTrieNode` here.
-/
import EvmSail.Mpt.Canonical

namespace EvmSail

open Fallible

/-! ## References -/

/-- A self-contained trie-node encoding shorter than 32 bytes. -/
structure InlineNode where
  bytes : List Byte
  len_le : bytes.length ≤ 31

/-- A reference to a trie node. -/
inductive NodeRef where
  | emptyRef
  | inputInlineRef (node : InlineNode)
  | scratchInlineRef (node : InlineNode)
  | hashRef (h : Hash)

/-- A leaf value, borrowed from the input or freshly encoded. -/
inductive TrieLeafValue where
  | inputTrieLeaf (bytes : StatelessInputSlice)
  | scratchTrieLeaf (bytes : ScratchSlice)

/-- The sixteen child references of a branch, indexed by nibble. -/
abbrev BranchRefs := Vector NodeRef 16

/-- The child reference at a nibble. -/
def branchRefsGet (children : BranchRefs) (index : Nibble) : NodeRef := children.get index

/-- The children with one reference replaced. -/
def branchRefsSet (children : BranchRefs) (index : Nibble) (ref : NodeRef) : BranchRefs :=
  children.set index.val ref index.isLt

@[simp] theorem branchRefsGet_set (children : BranchRefs) (index i : Nibble) (ref : NodeRef) :
    branchRefsGet (branchRefsSet children index ref) i =
      if i = index then ref else branchRefsGet children i := by
  rw [branchRefsGet, branchRefsSet, branchRefsGet, Vector.get_eq_getElem, Vector.getElem_set,
    Vector.get_eq_getElem]
  by_cases h : i = index
  · rw [if_pos h, if_pos (congrArg Fin.val h).symm]
  · rw [if_neg h, if_neg fun hv => h (Fin.ext hv.symm)]

/-- The presence bits of the sixteen children of a branch. -/
abbrev BranchMask := BitVec 16

/-- A decoded node. -/
inductive TrieNode where
  | leafNode (path : TriePath) (value : List Byte)
  | extensionNode (path : TriePath) (child : NodeRef)
  | branchNode (children : BranchRefs) (value : List Byte)

/-- The root of the empty trie. -/
def emptyTrieRoot : Hash :=
  hashFromBits 0x56e81f171bcc55a6ff8345e692c0f86e5b48e01b996cadc001622fb5e363b421

/-- A sub-32-byte node encoding as an inline node value. -/
def inlineNodeFromSlice (bytes : List Byte) : Result InlineNode :=
  if h : bytes.length < 32 then .ok ⟨bytes, by omega⟩ else fatalError .witnessDeficient

/-- The RLP width of a child reference in its parent node. -/
def nodeRefSize : NodeRef → Nat
  | .emptyRef => 1
  | .inputInlineRef node => node.bytes.length
  | .scratchInlineRef node => node.bytes.length
  | .hashRef _ => rlpWordSize

/-- A child reference in its canonical RLP representation. -/
def rlpWriteNodeRef : NodeRef → List Byte
  | .emptyRef => [0x80]
  | .inputInlineRef node => node.bytes
  | .scratchInlineRef node => node.bytes
  | .hashRef h => rlpWriteWord (hashToWord h)

/-- The one-hot presence mask for a branch-child nibble. -/
def branchMaskFor (index : Nibble) : BranchMask := 1#16 <<< index.val

/-- Whether the mask records a child at the given nibble. -/
def branchMaskHas (mask : BranchMask) (index : Nibble) : Bool :=
  (mask &&& branchMaskFor index) != 0

/-- The mask with the child at the given nibble marked present. -/
def branchMaskSet (mask : BranchMask) (index : Nibble) : BranchMask :=
  mask ||| branchMaskFor index

/-- Advances the branch payload length while preserving its structural
bound. -/
def branchContentLengthAdd (current addition : Nat) : Result Nat :=
  if addition ≤ 529 - current then .ok (current + addition) else fatalError .rlpDecode

section

variable (keccak256 : List Byte → Hash)

/-! ## Encoding -/

/-- The canonical child reference for an encoded node. -/
def childRef (encoded : List Byte) : NodeRef :=
  if h : encoded.length < 32 then .scratchInlineRef ⟨encoded, by omega⟩
  else .hashRef (keccak256 encoded)

/-- The child reference of a leaf over a slice. -/
def sliceLeafChildRef (key : TriePath) (value : List Byte) : Result NodeRef := do
  let pathSize := rlpHexPrefixSize key true
  let valueSize ← rlpScratchSliceSize value
  let contentLen ← rlpScratchLengthAdd pathSize valueSize
  let encodedSize ← rlpScratchListSize contentLen
  let encoded ← rlpEncoderFinish encodedSize
    (rlpWriteListPrefix contentLen ++ (rlpWriteHexPrefix key true ++ rlpWriteSlice value))
  .ok (childRef keccak256 encoded)

def inputLeafChildRef (key : TriePath) (value : StatelessInputSlice) : Result NodeRef :=
  sliceLeafChildRef keccak256 key value

def scratchLeafChildRef (key : TriePath) (value : ScratchSlice) : Result NodeRef :=
  sliceLeafChildRef keccak256 key value

/-- The child reference of a leaf, by the value's backing region. -/
def leafChildRef (key : TriePath) (value : TrieLeafValue) : Result NodeRef :=
  match value with
  | .inputTrieLeaf bytes => inputLeafChildRef keccak256 key bytes
  | .scratchTrieLeaf bytes => scratchLeafChildRef keccak256 key bytes

/-- The child reference of an extension node. -/
def extensionChildRef (key : TriePath) (child : NodeRef) : Result NodeRef := do
  let pathLength := rlpHexPrefixSize key false
  let childLength := nodeRefSize child
  let contentLen := pathLength + childLength
  let encoded ← rlpEncoderFinish (rlpListSize contentLen)
    (rlpWriteListPrefix contentLen ++ (rlpWriteHexPrefix key false ++ rlpWriteNodeRef child))
  .ok (childRef keccak256 encoded)

/-- The child reference of a branch node: one pass sizes the payload, one
writes it. -/
def branchChildRef (mask : BranchMask) (children : BranchRefs) : Result NodeRef := do
  let contentLength ← foreach 16 (fun i contentLength =>
    if branchMaskHas mask i then
      branchContentLengthAdd contentLength (nodeRefSize (branchRefsGet children i))
    else
      branchContentLengthAdd contentLength 1) 1
  let scratchContentLength ← rlpScratchLengthAdd contentLength 0
  let encodedSize ← rlpScratchListSize scratchContentLength
  let written := (List.finRange 16).flatMap fun i =>
    if branchMaskHas mask i then rlpWriteNodeRef (branchRefsGet children i) else [0x80]
  let encoded ← rlpEncoderFinish encodedSize
    (rlpWriteListPrefix contentLength ++ (written ++ [0x80]))
  .ok (childRef keccak256 encoded)

/-- The root hash a node reference commits to. -/
def trieRefToRoot (r : NodeRef) : Hash :=
  match r with
  | .emptyRef => emptyTrieRoot
  | .inputInlineRef node => keccak256 node.bytes
  | .scratchInlineRef node => keccak256 node.bytes
  | .hashRef h => h

/-- The reference form of authenticated node bytes. -/
def inputNodeToRef (node : StatelessInputSlice) : NodeRef :=
  if node.length = 0 then .emptyRef
  else if h : node.length < 32 then .inputInlineRef ⟨node, by omega⟩
  else .hashRef (keccak256 node)

end

/-! ## Decoding -/

/-- The reference denoted by a child field of authenticated input. -/
def inputFieldToRef (f : RlpFieldRef) : Result NodeRef :=
  if f.isList then
    if h : f.source.length < 32 then .ok (.inputInlineRef ⟨f.source, by omega⟩)
    else fatalError .rlpDecode
  else if f.contentLen = 32 then do
    let word ← rlpDecodeWord f
    .ok (.hashRef (wordToHash word))
  else
    .ok .emptyRef

/-- The reference denoted by a child field of freshly encoded bytes. -/
def scratchFieldToRef (f : RlpFieldRef) : Result NodeRef :=
  if f.isList then do
    let node ← inlineNodeFromSlice f.source
    .ok (.scratchInlineRef node)
  else if f.contentLen = 32 then do
    let word ← rlpDecodeWord f
    .ok (.hashRef (wordToHash word))
  else
    .ok .emptyRef

section

variable (fieldToRef : RlpFieldRef → Result NodeRef)

/-- Branch children from `index` on, followed by the branch value. -/
def decodeBranchNode (cursor : List Byte) (index : Nat) (children : BranchRefs) :
    Result TrieNode :=
  if h : index < 16 then do
    let child ← rlpDecodeItem cursor
    let next := rlpCursorAdvance cursor child.source.length
    let decodedChild ← fieldToRef child
    decodeBranchNode next (index + 1) (branchRefsSet children ⟨index, h⟩ decodedChild)
  else do
    let value ← rlpDecodeItem cursor
    let next := rlpCursorAdvance cursor value.source.length
    rlpCursorExpectEnd next
    .ok (.branchNode children (rlpItemContent value))
termination_by 16 - index

/-- Node bytes as leaf, extension or branch by field count. -/
def decodeTrieNode (node : List Byte) : Result TrieNode := do
  let fields ← rlpNodeCursor node
  let first ← rlpDecodeItem fields
  let fields := rlpCursorAdvance fields first.source.length
  let second ← rlpDecodeItem fields
  let fields := rlpCursorAdvance fields second.source.length
  if fields.length = 0 then do
    let (isLeaf, path) ← hexPrefixDecodeRef first
    if isLeaf then
      .ok (.leafNode path (rlpItemContent second))
    else if pathLen path = 0 then
      fatalError .rlpDecode
    else do
      let child ← fieldToRef second
      .ok (.extensionNode path child)
  else do
    let firstChild ← fieldToRef first
    let secondChild ← fieldToRef second
    let children : BranchRefs := Vector.replicate 16 .emptyRef
    decodeBranchNode fieldToRef fields 2
      (branchRefsSet (branchRefsSet children 0 firstChild) 1 secondChild)

end

/-- Decodes authenticated node bytes. -/
def decodeInputTrieNode (node : StatelessInputSlice) : Result TrieNode :=
  if node.length = 0 then fatalError .rlpDecode else decodeTrieNode inputFieldToRef node

/-- Decodes freshly encoded node bytes. -/
def decodeScratchTrieNode (node : ScratchSlice) : Result TrieNode :=
  decodeTrieNode scratchFieldToRef node

/-! ## Resolving and re-keying -/

/-- The bytes of a referenced node.  A missing hash is a deficient
witness, never an empty subtree. -/
def resolveWitnessRef (nodedbLookup : Hash → StatelessInputSlice) (r : NodeRef) :
    Result StatelessInputSlice :=
  match r with
  | .emptyRef => .ok []
  | .inputInlineRef node => .ok node.bytes
  | .scratchInlineRef _ => fatalError .witnessDeficient
  | .hashRef h =>
    let node := nodedbLookup h
    if node.length = 0 then fatalError .witnessDeficient else .ok node

section

variable (keccak256 : List Byte → Hash)

/-- Re-keys a decoded child node under `pfx`. -/
def mergeExtNode (pfx : TriePath) (childnode : StatelessInputSlice) : Result NodeRef :=
  if pathLen pfx = 0 then
    .ok (inputNodeToRef keccak256 childnode)
  else if childnode.length = 0 then
    .ok .emptyRef
  else do
    let decoded ← decodeInputTrieNode childnode
    match decoded with
    | .leafNode path value => do
      let mergedPath ← pathConcat pfx path
      inputLeafChildRef keccak256 mergedPath value
    | .extensionNode path child => do
      let mergedPath ← pathConcat pfx path
      extensionChildRef keccak256 mergedPath child
    | .branchNode _ _ => extensionChildRef keccak256 pfx (inputNodeToRef keccak256 childnode)

/-- `mergeExtNode` over a child reference: an inline reference carries its
node bytes; a hash is wrapped in an extension, which is canonical only
when the referenced node is a branch. -/
def mergeExtRef (pfx : TriePath) (child : NodeRef) : Result NodeRef :=
  if pathLen pfx = 0 then
    .ok child
  else
    match child with
    | .emptyRef => .ok .emptyRef
    | .hashRef _ => extensionChildRef keccak256 pfx child
    | .inputInlineRef node => do
      let decoded ← decodeInputTrieNode node.bytes
      match decoded with
      | .leafNode path value => do
        let mergedPath ← pathConcat pfx path
        inputLeafChildRef keccak256 mergedPath value
      | .extensionNode path grandchild => do
        let mergedPath ← pathConcat pfx path
        extensionChildRef keccak256 mergedPath grandchild
      | .branchNode _ _ => extensionChildRef keccak256 pfx child
    | .scratchInlineRef node => do
      let decoded ← decodeScratchTrieNode node.bytes
      match decoded with
      | .leafNode path value => do
        let mergedPath ← pathConcat pfx path
        scratchLeafChildRef keccak256 mergedPath value
      | .extensionNode path grandchild => do
        let mergedPath ← pathConcat pfx path
        extensionChildRef keccak256 mergedPath grandchild
      | .branchNode _ _ => extensionChildRef keccak256 pfx child

end

end EvmSail
