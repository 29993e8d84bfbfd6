/-
# `EvmSail.Optimised.OrderedTrie` — the ordered trie builder

The optimised host builds a trie from entries in key order with a stack of
open branches.  A branch is open as long as the key of the next entry is below
it; the common prefix of an entry and the next key says which branches are
to be closed, and whether a new one opens.

Nodes that are not yet encoded are kept as a path and what is below it, so
that a path can still grow in front of a leaf or of a closed branch.  Nothing
is returned where the source ends with an error or would write past a
buffer.
-/
import EvmSail.Mpt.Codec

namespace EvmSail.Optimised

/-! ## Paths -/

def mptSecureKeyNibbles : Nat := 64

/-- `nibble_path_concat`. -/
def nibblePathConcat (a b : List Nibble) : Option (List Nibble) :=
  if a.length + b.length > mptSecureKeyNibbles then none else some (a ++ b)

/-- `nibble_path_slice`. -/
def nibblePathSlice (path : List Nibble) (start len : Nat) : List Nibble :=
  (path.drop start).take len

/-- `nibble_path_less`; lists of one length are in the order of `memcmp`. -/
def nibblePathLess (a b : List Nibble) : Bool :=
  let n := min a.length b.length
  decide (a.take n < b.take n) || (a.take n == b.take n && decide (a.length < b.length))

/-- `nibble_path_common`. -/
def nibblePathCommon : List Nibble → List Nibble → Nat
  | x :: xs, y :: ys => if x = y then nibblePathCommon xs ys + 1 else 0
  | _, _ => 0

/-! ## References -/

/-- `NodeReference`. -/
inductive NodeReference where
  | empty
  | inline (bytes : List Byte)
  | hashed (digest : Hash)
  deriving DecidableEq

def mptEncodedValueMax : Nat := 128
def mptEncodedNodeMax : Nat := 600
def guestScratchBytes : Nat := 16 * 1024 * 1024

/-- The bytes of a number, most significant first. -/
def mptUintBe (value : Nat) : List Byte :=
  if value = 0 then [] else mptUintBe (value / 256) ++ [BitVec.ofNat 8 value]

def mptRlpPrefix (list : Bool) (len : Nat) : List Byte :=
  if len ≤ 55 then [BitVec.ofNat 8 ((if list then 0xc0 else 0x80) + len)]
  else
    let length := mptUintBe len
    BitVec.ofNat 8 ((if list then 0xf7 else 0xb7) + length.length) :: length

def mptRlpPrefixSize (len : Nat) : Nat :=
  if len ≤ 55 then 1 else 1 + (mptUintBe len).length

/-- One byte below 0x80. -/
def mptRlpSelf (data : List Byte) : Bool := data.length == 1 && decide ((data.headD 0).toNat < 0x80)

def mptRlpStringSize (data : List Byte) : Nat :=
  if mptRlpSelf data then 1
  else if data.length ≤ 55 then 1 + data.length
  else 1 + (mptUintBe data.length).length + data.length

def mptRlpString (data : List Byte) : List Byte :=
  if mptRlpSelf data then data else mptRlpPrefix false data.length ++ data

def mptCompactPath (path : List Nibble) (leaf : Bool) : List Byte :=
  let odd := path.length % 2 = 1
  let flag : Nibble := (if leaf then 2 else 0) ||| (if odd then 1 else 0)
  joinNibbles flag (if odd then path.headD 0 else 0) ::
    packPairs (if odd then path.tail else path)

def nodeReferenceSize : NodeReference → Nat
  | .empty => 1
  | .inline bytes => bytes.length
  | .hashed _ => 33

def mptWriteReference : NodeReference → List Byte
  | .empty => [0x80]
  | .inline bytes => bytes
  | .hashed digest => mptRlpString digest.toList

/-- What a buffer holds once it is written. -/
def mptWritten (capacity : Nat) (bytes : List Byte) : Option (List Byte) :=
  if bytes.length ≤ capacity then some bytes else none

section

variable (keccak256 : List Byte → Hash) (scratchTop : Nat)

def mptMakeChildReference (encoded : List Byte) : NodeReference :=
  if encoded.length < 32 then .inline encoded else .hashed (keccak256 encoded)

def mptEncodeLeafReference (path : List Nibble) (value : List Byte) : Option NodeReference := do
  let compact := mptCompactPath path true
  let content := mptRlpStringSize compact + mptRlpStringSize value
  let encoded ← mptWritten mptEncodedNodeMax
    (mptRlpPrefix true content ++ mptRlpString compact ++ mptRlpString value)
  some (mptMakeChildReference keccak256 encoded)

/-- The encoding of a large leaf is written above the top of the scratch
arena. -/
def mptEncodeLargeLeafReference (path : List Nibble) (value : List Byte) :
    Option NodeReference := do
  let compact := mptCompactPath path true
  let pathSize := mptRlpStringSize compact
  let valueSize := mptRlpStringSize value
  if pathSize > (2 ^ 64 - 1) - valueSize then none
  else
    let content := pathSize + valueSize
    let headerSize := mptRlpPrefixSize content
    if headerSize > (2 ^ 64 - 1) - content then none
    else
      let encodedLen := headerSize + content
      if scratchTop + encodedLen > guestScratchBytes then none
      else do
        let encoded ← mptWritten encodedLen
          (mptRlpPrefix true content ++ mptRlpString compact ++ mptRlpString value)
        some (mptMakeChildReference keccak256 encoded)

def mptEncodeExtensionReference (path : List Nibble) (child : NodeReference) :
    Option NodeReference :=
  if path.length = 0 then some child
  else do
    let compact := mptCompactPath path false
    let content := mptRlpStringSize compact + nodeReferenceSize child
    let encoded ← mptWritten mptEncodedNodeMax
      (mptRlpPrefix true content ++ mptRlpString compact ++ mptWriteReference child)
    some (mptMakeChildReference keccak256 encoded)

/-- `TrieBranchFrame`. -/
structure TrieBranchFrame where
  depth : Nat
  mask : BranchMask
  children : Nibble → NodeReference

def mptEncodeBranchReference (frame : TrieBranchFrame) : Option NodeReference := do
  let content := 1 + ((List.finRange 16).map fun i =>
    if branchMaskHas frame.mask i then nodeReferenceSize (frame.children i) else 1).sum
  let fields := (List.finRange 16).flatMap fun i =>
    if branchMaskHas frame.mask i then mptWriteReference (frame.children i) else [0x80]
  let encoded ← mptWritten mptEncodedNodeMax (mptRlpPrefix true content ++ fields ++ [0x80])
  some (mptMakeChildReference keccak256 encoded)

end

/-! ## Pending nodes -/

/-- `PendingNode`. -/
inductive PendingNode where
  | empty
  | leaf (path : List Nibble) (value : List Byte)
  | reference (path : List Nibble) (ref : NodeReference)
  deriving DecidableEq

def pendingNodeReference (ref : NodeReference) : PendingNode :=
  if ref = .empty then .empty else .reference [] ref

def pendingNodePrepend (pfx : List Nibble) (child : PendingNode) : Option PendingNode :=
  if pfx.length = 0 then some child
  else
    match child with
    | .empty => some .empty
    | .leaf path value => do some (.leaf (← nibblePathConcat pfx path) value)
    | .reference path ref => do some (.reference (← nibblePathConcat pfx path) ref)

section

variable (keccak256 : List Byte → Hash) (scratchTop : Nat)

def pendingNodeFinalize : PendingNode → Option NodeReference
  | .empty => some .empty
  | .leaf path value =>
    if value.length > mptEncodedValueMax then
      mptEncodeLargeLeafReference keccak256 scratchTop path value
    else mptEncodeLeafReference keccak256 path value
  | .reference path ref => mptEncodeExtensionReference keccak256 path ref

end

/-! ## Entries -/

/-- What is at the path of an entry. -/
inductive TrieEntryValue where
  | leaf (value : List Byte)
  | pending (node : PendingNode)
  | branch (ref : NodeReference)
  | subtree (ref : NodeReference)

/-- `TrieEntry`. -/
structure TrieEntry where
  path : List Nibble
  value : TrieEntryValue

/-- `trie_entry_pending`; `resolve` reads the node of a witness reference. -/
def trieEntryPending (resolve : NodeReference → Option PendingNode) (item : TrieEntry)
    (depth : Nat) : Option PendingNode :=
  if depth > item.path.length then none
  else
    let suffix := item.path.drop depth
    match item.value with
    | .leaf value => some (.leaf suffix value)
    | .pending node => pendingNodePrepend suffix node
    | .branch ref =>
      if suffix.length = 0 then some (pendingNodeReference ref)
      else pendingNodePrepend suffix (pendingNodeReference ref)
    | .subtree ref =>
      if suffix.length = 0 then some (pendingNodeReference ref)
      else do pendingNodePrepend suffix (← resolve ref)

/-! ## The builder -/

/-- `OrderedTrieBuilder`; the frames from `frameCount` on are what earlier
builds left. -/
structure OrderedTrieBuilder where
  frames : Nat → TrieBranchFrame
  frameCount : Nat
  root : PendingNode
  complete : Bool

def orderedTrieBuilderReset (builder : OrderedTrieBuilder) : OrderedTrieBuilder :=
  { builder with frameCount := 0, complete := false, root := .empty }

def orderedTrieBuilderPush (builder : OrderedTrieBuilder) (depth : Nat) :
    Option OrderedTrieBuilder :=
  if depth ≥ 64 ∨ builder.frameCount ≥ 64 then none
  else
    let frame := builder.frames builder.frameCount
    some
      { builder with
        frames := Function.update builder.frames builder.frameCount
          { frame with depth, mask := 0 }
        frameCount := builder.frameCount + 1 }

section

variable (keccak256 : List Byte → Hash) (scratchTop : Nat)

def orderedTrieBuilderAttach (builder : OrderedTrieBuilder) (path : List Nibble)
    (child : PendingNode) : Option OrderedTrieBuilder :=
  if builder.frameCount = 0 then none
  else
    let frame := builder.frames (builder.frameCount - 1)
    match path[frame.depth]? with
    | none => none
    | some index =>
      if branchMaskHas frame.mask index then none
      else do
        let childRef ← pendingNodeFinalize keccak256 scratchTop child
        some
          { builder with
            frames := Function.update builder.frames (builder.frameCount - 1)
              { frame with
                mask := branchMaskSet frame.mask index
                children := Function.update frame.children index childRef } }

end

def mptWrapBranch (anchor : List Nibble) (parentDepth childDepth : Nat) (child : NodeReference) :
    Option PendingNode :=
  let childStart := parentDepth + 1
  if childDepth ≤ childStart then some (pendingNodeReference child)
  else
    pendingNodePrepend (nibblePathSlice anchor childStart (childDepth - childStart))
      (pendingNodeReference child)

section

variable (keccak256 : List Byte → Hash) (scratchTop : Nat)

/-- What `ordered_trie_builder_close` does with a branch it has encoded: it
opens a branch where the next key leaves, -/
def closeReopening (builder : OrderedTrieBuilder) (anchor : List Nibble)
    (nextCommon frameDepth : Nat) (child : NodeReference) : Option OrderedTrieBuilder := do
  let wrapped ← mptWrapBranch anchor nextCommon frameDepth child
  let builder ← orderedTrieBuilderPush builder nextCommon
  orderedTrieBuilderAttach keccak256 scratchTop builder anchor wrapped

/-- or attaches it to the branch above, -/
def closeInto (builder : OrderedTrieBuilder) (anchor : List Nibble)
    (parentDepth frameDepth : Nat) (child : NodeReference) : Option OrderedTrieBuilder := do
  let wrapped ← mptWrapBranch anchor parentDepth frameDepth child
  orderedTrieBuilderAttach keccak256 scratchTop builder anchor wrapped

/-- or makes it the root. -/
def closeRoot (builder : OrderedTrieBuilder) (anchor : List Nibble) (frameDepth : Nat)
    (child : NodeReference) : Option OrderedTrieBuilder :=
  let root :=
    if frameDepth = 0 then some (pendingNodeReference child)
    else pendingNodePrepend (nibblePathSlice anchor 0 frameDepth) (pendingNodeReference child)
  root.map fun root => { builder with root, complete := true }

/-- A round of the loop of `ordered_trie_builder_close`, past its test. -/
def orderedTrieBuilderCloseRound (builder : OrderedTrieBuilder) (anchor : List Nibble)
    (nextCommon : Option Nat) : Option OrderedTrieBuilder := do
  let frame := builder.frames (builder.frameCount - 1)
  let child ← mptEncodeBranchReference keccak256 frame
  let builder := { builder with frameCount := builder.frameCount - 1 }
  if builder.frameCount ≠ 0 then
    let parent := builder.frames (builder.frameCount - 1)
    match nextCommon with
    | some nextCommon =>
      if parent.depth < nextCommon then
        closeReopening keccak256 scratchTop builder anchor nextCommon frame.depth child
      else closeInto keccak256 scratchTop builder anchor parent.depth frame.depth child
    | none => closeInto keccak256 scratchTop builder anchor parent.depth frame.depth child
  else
    match nextCommon with
    | some nextCommon =>
      closeReopening keccak256 scratchTop builder anchor nextCommon frame.depth child
    | none => closeRoot builder anchor frame.depth child

/-- Whether the loop of `ordered_trie_builder_close` is at its end. -/
def closeDone (builder : OrderedTrieBuilder) (nextCommon : Option Nat) : Bool :=
  builder.frameCount == 0 ||
    nextCommon.any fun nextCommon =>
      decide ((builder.frames (builder.frameCount - 1)).depth ≤ nextCommon)

/-- How many more rounds the loop can take. -/
def closeRemaining (builder : OrderedTrieBuilder) (nextCommon : Option Nat) : Nat :=
  if closeDone builder nextCommon then 0 else builder.frameCount + 1

theorem orderedTrieBuilderPush_some {builder builder' : OrderedTrieBuilder} {depth : Nat}
    (h : orderedTrieBuilderPush builder depth = some builder') :
    builder'.frameCount = builder.frameCount + 1 ∧
      (builder'.frames builder.frameCount).depth = depth := by
  rw [orderedTrieBuilderPush] at h
  split at h
  · cases h
  · cases h
    exact ⟨rfl, by simp⟩

theorem orderedTrieBuilderAttach_some {builder builder' : OrderedTrieBuilder}
    {path : List Nibble} {child : PendingNode}
    (h : orderedTrieBuilderAttach keccak256 scratchTop builder path child = some builder') :
    builder'.frameCount = builder.frameCount ∧
      ∀ i, (builder'.frames i).depth = (builder.frames i).depth := by
  rw [orderedTrieBuilderAttach] at h
  split at h
  · cases h
  · dsimp only at h
    split at h
    · cases h
    · split at h
      · cases h
      · obtain ⟨ref, _, h⟩ := Option.bind_eq_some_iff.mp h
        cases h
        refine ⟨rfl, fun i => ?_⟩
        dsimp only
        by_cases hi : i = builder.frameCount - 1
        · rw [hi, Function.update_self]
        · rw [Function.update_of_ne hi]

/-- A round closes a frame; if it opens one again, it is the last round. -/
theorem closeRound_remaining {builder builder' : OrderedTrieBuilder} {anchor : List Nibble}
    {nextCommon : Option Nat} (hdone : closeDone builder nextCommon = false)
    (h : orderedTrieBuilderCloseRound keccak256 scratchTop builder anchor nextCommon =
      some builder') :
    closeRemaining builder' nextCommon < closeRemaining builder nextCommon := by
  have hcount : builder.frameCount ≠ 0 := by
    intro hzero
    rw [closeDone, hzero] at hdone
    cases hdone
  have hclosed : builder'.frameCount = builder.frameCount - 1 →
      closeRemaining builder' nextCommon < closeRemaining builder nextCommon := by
    intro hless
    rw [closeRemaining, closeRemaining, hdone, hless]
    split
    · exact Nat.succ_pos _
    · rw [if_neg Bool.false_ne_true]
      omega
  have hreopened : ∀ {common depth : Nat} {child : NodeReference}, nextCommon = some common →
      closeReopening keccak256 scratchTop
        { builder with frameCount := builder.frameCount - 1 } anchor common depth child =
          some builder' →
      closeRemaining builder' nextCommon < closeRemaining builder nextCommon := by
    intro common depth child hnext hopen
    obtain ⟨wrapped, _, hopen⟩ := Option.bind_eq_some_iff.mp hopen
    obtain ⟨opened, hpush, hattach⟩ := Option.bind_eq_some_iff.mp hopen
    obtain ⟨hpushCount, hdepth⟩ := orderedTrieBuilderPush_some hpush
    obtain ⟨hattachCount, hdepths⟩ := orderedTrieBuilderAttach_some _ _ hattach
    have hlast : closeDone builder' nextCommon = true := by
      rw [closeDone, hnext, Option.any_some, hdepths, hattachCount, hpushCount,
        Nat.add_sub_cancel, hdepth, decide_eq_true (Nat.le_refl _), Bool.or_true]
    rw [closeRemaining, closeRemaining, hdone, hlast, if_pos rfl, if_neg Bool.false_ne_true]
    exact Nat.succ_pos _
  have hinto : ∀ {parentDepth depth : Nat} {child : NodeReference},
      closeInto keccak256 scratchTop { builder with frameCount := builder.frameCount - 1 } anchor
        parentDepth depth child = some builder' →
      closeRemaining builder' nextCommon < closeRemaining builder nextCommon := by
    intro parentDepth depth child hattach
    obtain ⟨wrapped, _, hattach⟩ := Option.bind_eq_some_iff.mp hattach
    exact hclosed (orderedTrieBuilderAttach_some _ _ hattach).1
  rw [orderedTrieBuilderCloseRound] at h
  obtain ⟨child, _, h⟩ := Option.bind_eq_some_iff.mp h
  dsimp only at h
  split at h
  · split at h
    · split at h
      · exact hreopened rfl h
      · exact hinto h
    · exact hinto h
  · split at h
    · exact hreopened rfl h
    · obtain ⟨root, _, h⟩ := Option.map_eq_some_iff.mp h
      exact hclosed (h ▸ rfl)

/-- `ordered_trie_builder_close`. -/
def orderedTrieBuilderClose (builder : OrderedTrieBuilder) (anchor : List Nibble)
    (nextCommon : Option Nat) : Option OrderedTrieBuilder :=
  if _hdone : closeDone builder nextCommon then some builder
  else
    (orderedTrieBuilderCloseRound keccak256 scratchTop builder anchor nextCommon).attach.bind
      fun next => orderedTrieBuilderClose next.val anchor nextCommon
termination_by closeRemaining builder nextCommon
decreasing_by exact closeRound_remaining _ _ (Bool.eq_false_iff.mpr _hdone) next.property

theorem orderedTrieBuilderClose_done {builder : OrderedTrieBuilder} {anchor : List Nibble}
    {nextCommon : Option Nat} (hdone : closeDone builder nextCommon = true) :
    orderedTrieBuilderClose keccak256 scratchTop builder anchor nextCommon = some builder := by
  rw [orderedTrieBuilderClose, dif_pos hdone]

theorem orderedTrieBuilderClose_round {builder builder' : OrderedTrieBuilder}
    {anchor : List Nibble} {nextCommon : Option Nat}
    (hdone : closeDone builder nextCommon = false)
    (h : orderedTrieBuilderCloseRound keccak256 scratchTop builder anchor nextCommon =
      some builder') :
    orderedTrieBuilderClose keccak256 scratchTop builder anchor nextCommon =
      orderedTrieBuilderClose keccak256 scratchTop builder' anchor nextCommon := by
  rw [orderedTrieBuilderClose, dif_neg (Bool.eq_false_iff.mp hdone), h]
  rfl

/-- `ordered_trie_builder_insert`, where `nextKey` is the key of the next
entry, if there is one. -/
def orderedTrieBuilderInsert (resolve : NodeReference → Option PendingNode)
    (builder : OrderedTrieBuilder) (item : TrieEntry) (nextKey : Option (List Nibble)) :
    Option OrderedTrieBuilder := do
  if builder.complete then none
  else
    let nextCommon := nextKey.map (nibblePathCommon item.path)
    let rejected := (nextKey.any fun nextKey =>
      !nibblePathLess item.path nextKey ||
        decide (item.path.length ≤ nibblePathCommon item.path nextKey) ||
        decide (nextKey.length ≤ nibblePathCommon item.path nextKey))
    if rejected then none
    else
      let top := builder.frames (builder.frameCount - 1)
      let openChild := nextCommon.filter fun common =>
        builder.frameCount == 0 || decide (top.depth < common)
      match openChild with
      | some common => do
        let child ← trieEntryPending resolve item (common + 1)
        let builder ← orderedTrieBuilderPush builder common
        orderedTrieBuilderAttach keccak256 scratchTop builder item.path child
      | none =>
        if builder.frameCount = 0 then do
          let root ← trieEntryPending resolve item 0
          some { builder with root, complete := true }
        else do
          let child ← trieEntryPending resolve item (top.depth + 1)
          let builder ← orderedTrieBuilderAttach keccak256 scratchTop builder item.path child
          orderedTrieBuilderClose keccak256 scratchTop builder item.path nextCommon

/-- The loops over the entries. -/
def orderedTrieBuilderInsertAll (resolve : NodeReference → Option PendingNode)
    (builder : OrderedTrieBuilder) : List TrieEntry → Option OrderedTrieBuilder
  | [] => some builder
  | item :: rest => do
    let builder ← orderedTrieBuilderInsert keccak256 scratchTop resolve builder item
      (rest.head?.map TrieEntry.path)
    orderedTrieBuilderInsertAll resolve builder rest

def orderedTrieBuilderFinishPending (builder : OrderedTrieBuilder) : Option PendingNode :=
  if builder.frameCount ≠ 0 then none
  else if ¬ builder.complete then some .empty
  else some builder.root

def orderedTrieBuilderFinishRef (builder : OrderedTrieBuilder) : Option NodeReference := do
  let pending ← orderedTrieBuilderFinishPending builder
  pendingNodeFinalize keccak256 scratchTop pending

def orderedTrieBuilderFinish (builder : OrderedTrieBuilder) : Option Hash := do
  match ← orderedTrieBuilderFinishRef keccak256 scratchTop builder with
  | .hashed digest => some digest
  | .empty => some emptyTrieRoot
  | .inline bytes => some (keccak256 bytes)

/-- A whole build, from what an earlier one left. -/
def orderedTrieRoot (resolve : NodeReference → Option PendingNode) (builder : OrderedTrieBuilder)
    (items : List TrieEntry) : Option Hash := do
  let builder ← orderedTrieBuilderInsertAll keccak256 scratchTop resolve
    (orderedTrieBuilderReset builder) items
  orderedTrieBuilderFinish keccak256 scratchTop builder

/-! ## Indexed tries -/

/-- `mpt_index_path`. -/
def mptIndexPath (index : Nat) : List Nibble :=
  let encoded : List Byte :=
    if index = 0 then [0x80]
    else if index ≤ 0x7f then [BitVec.ofNat 8 index]
    else
      let bytes := mptUintBe index
      BitVec.ofNat 8 (0x80 + bytes.length) :: bytes
  encoded.flatMap fun b => [highNibble b, lowNibble b]

/-- `mpt_index_at_position`, over `uint64_t`. -/
def mptIndexAtPosition (count position : Nat) : Nat :=
  let rest := (count + (2 ^ 64 - 1)) % 2 ^ 64
  let singleCount := if rest < 127 then rest else 127
  if position < singleCount then position + 1
  else if position = singleCount then 0
  else position

/-- `mpt_ordered_insert`. -/
def mptOrderedInsert (resolve : NodeReference → Option PendingNode) (builder : OrderedTrieBuilder)
    (value : TrieEntryValue) (count position : Nat) : Option OrderedTrieBuilder :=
  let index := mptIndexAtPosition count position
  let nextKey :=
    if position + 1 < count then some (mptIndexPath (mptIndexAtPosition count (position + 1)))
    else none
  orderedTrieBuilderInsert keccak256 scratchTop resolve builder ⟨mptIndexPath index, value⟩ nextKey

/-- The root over the positions from `position` on; `value` is the leaf of a
list index. -/
def mptIndexedInsertAll (resolve : NodeReference → Option PendingNode)
    (value : Nat → List Byte) (count : Nat) (builder : OrderedTrieBuilder) (position : Nat) :
    Option OrderedTrieBuilder :=
  if position < count then do
    let index := mptIndexAtPosition count position
    let builder ← mptOrderedInsert keccak256 scratchTop resolve builder (.leaf (value index)) count
      position
    mptIndexedInsertAll resolve value count builder (position + 1)
  else some builder
termination_by count - position

/-- The roots of the transactions, the withdrawals and the receipts. -/
def mptIndexedRoot (resolve : NodeReference → Option PendingNode) (builder : OrderedTrieBuilder)
    (value : Nat → List Byte) (count : Nat) : Option Hash := do
  let builder ← mptIndexedInsertAll keccak256 scratchTop resolve value count
    (orderedTrieBuilderReset builder) 0
  orderedTrieBuilderFinish keccak256 scratchTop builder

end

end EvmSail.Optimised
