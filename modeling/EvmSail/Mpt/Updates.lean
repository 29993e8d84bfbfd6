/-
# `EvmSail.Mpt.Updates` — the update cursor and subtree assembly

Ordered leaf updates and the structural items the walker reassembles
nodes from.  A pull source is the list of updates its host iterator has
not yet handed out; `trieUpdateSourceNext` takes the first.
-/
import EvmSail.Mpt.Codec

namespace EvmSail

open Fallible

/-! ## Updates and their cursor -/

/-- A pending change at a trie key. -/
inductive TrieChange where
  | triePut (value : ScratchSlice)
  | trieDelete

/-- A full-path key and its change. -/
structure TrieUpdate where
  key : TriePath
  change : TrieChange

/-- The updates a source has not handed out yet. -/
abbrev TrieUpdateSource := List TrieUpdate

/-- One pull from a source; `update` counts only when `available`. -/
structure TrieUpdateFetch where
  available : Bool
  update : TrieUpdate

/-- The payload of exhausted pulls. -/
def emptyTrieUpdate : TrieUpdate := { key := pathEmpty, change := .trieDelete }

/-- Pulls the next update. -/
def trieUpdateSourceNext (source : TrieUpdateSource) : TrieUpdateFetch × TrieUpdateSource :=
  match source with
  | [] => ({ available := false, update := emptyTrieUpdate }, [])
  | update :: rest => ({ available := true, update := update }, rest)

/-- The active update's position relative to the consuming subtree: below
it, with its remaining path; beyond it, with the depth at which it left
the update consumed last; or absent. -/
inductive TrieUpdateRelation where
  | updateUnderPrefix (pathPostfix : TriePath)
  | updateBeyondPrefix (commonPrefixLen : Nat)
  | updateSourceExhausted

/-- A consuming cursor.  `current` is the active item, owned by the cursor
until it is popped. -/
structure TrieUpdateCursor where
  source : TrieUpdateSource
  current : TrieUpdate
  relation : TrieUpdateRelation

/-- Opens a cursor by fetching only its first update. -/
def trieUpdatesBegin (source : TrieUpdateSource) : TrieUpdateCursor :=
  let (first, rest) := trieUpdateSourceNext source
  let relation : TrieUpdateRelation :=
    if first.available then .updateUnderPrefix first.update.key else .updateSourceExhausted
  { source := rest, current := first.update, relation := relation }

/-- Whether the cursor has reached the end of its source. -/
def updatesEmpty (updates : TrieUpdateCursor) : Bool :=
  match updates.relation with
  | .updateSourceExhausted => true
  | _ => false

/-- Consumes the active update and pulls its successor. -/
def trieUpdatesPop (updates : TrieUpdateCursor) : Result (TrieUpdate × TrieUpdateCursor) :=
  match updates.relation with
  | .updateSourceExhausted => fatalError .witnessDeficient
  | _ =>
    let current := updates.current
    let (successor, rest) := trieUpdateSourceNext updates.source
    let next : TrieUpdateCursor :=
      if successor.available then
        { source := rest
          current := successor.update
          relation :=
            .updateBeyondPrefix (commonPrefixLength current.key successor.update.key) }
      else
        { source := rest, current := emptyTrieUpdate, relation := .updateSourceExhausted }
    .ok (current, next)

/-- Reinterprets an already loaded successor at an ancestor prefix. -/
def trieUpdatesRebase (updates : TrieUpdateCursor) (pfx : TriePath) : Result TrieUpdateCursor :=
  let prefixLen := pathLen pfx
  match updates.relation with
  | .updateSourceExhausted => .ok updates
  | .updateUnderPrefix _ => .ok updates
  | .updateBeyondPrefix commonPrefixLen =>
    if prefixLen ≤ commonPrefixLen then do
      let pathPostfix ← pathDrop updates.current.key prefixLen
      .ok { updates with relation := .updateUnderPrefix pathPostfix }
    else
      .ok updates

/-- Moves an under-prefix active update through one child edge. -/
def trieUpdatesDescend (updates : TrieUpdateCursor) : Result TrieUpdateCursor :=
  match updates.relation with
  | .updateUnderPrefix pathPostfix =>
    if pathLen pathPostfix = 0 then
      fatalError .witnessDeficient
    else do
      let childPostfix ← pathDrop pathPostfix 1
      .ok { updates with relation := .updateUnderPrefix childPostfix }
  | .updateBeyondPrefix _ => fatalError .witnessDeficient
  | .updateSourceExhausted => fatalError .witnessDeficient

/-! ## Structural items -/

/-- An item's payload. -/
inductive TrieItemValue where
  | emptySubtree
  | leafItem (value : TrieLeafValue)
  | branchItem (ref : NodeRef)
  | subtreeItem (ref : NodeRef)

/-- A path and its payload. -/
structure TrieItem where
  path : TriePath
  value : TrieItemValue

/-- The absent subtree; its path carries no meaning. -/
def trieEmptySubtree : TrieItem := { path := pathEmpty, value := .emptySubtree }

def trieLeaf (path : TriePath) (value : TrieLeafValue) : TrieItem :=
  { path := path, value := .leafItem value }

def trieInputLeaf (path : TriePath) (value : StatelessInputSlice) : TrieItem :=
  trieLeaf path (.inputTrieLeaf value)

def trieScratchLeaf (path : TriePath) (value : ScratchSlice) : TrieItem :=
  trieLeaf path (.scratchTrieLeaf value)

def trieBranch (path : TriePath) (ref : NodeRef) : TrieItem :=
  { path := path, value := .branchItem ref }

def trieSubtree (path : TriePath) (ref : NodeRef) : TrieItem :=
  { path := path, value := .subtreeItem ref }

section

variable (keccak256 : List Byte → Hash) (nodedbLookup : Hash → StatelessInputSlice)

/-- The child reference of a single-item subtree at `depth`: the item's
remaining path is absorbed into it. -/
def trieChildRef (it : TrieItem) (depth : Nat) : Result NodeRef := do
  let suffix ← pathDrop it.path depth
  let suffixLen := pathLen suffix
  match it.value with
  | .emptySubtree => .ok .emptyRef
  | .leafItem value => leafChildRef keccak256 suffix value
  | .branchItem subref =>
    if suffixLen = 0 then .ok subref else mergeExtRef keccak256 suffix subref
  | .subtreeItem subref =>
    if suffixLen = 0 then
      .ok subref
    else
      match subref with
      | .hashRef h =>
        let node := nodedbLookup h
        if node.length = 0 then fatalError .witnessDeficient
        else mergeExtNode keccak256 suffix node
      | _ => mergeExtRef keccak256 suffix subref

/-! ## Assembly -/

/-- Child references accumulated while one branch is assembled.  `only`
is the last item added; it counts when there is exactly one. -/
structure TrieChildren where
  mask : BranchMask
  children : BranchRefs
  only : TrieItem
  count : Nat

def trieChildrenEmpty : TrieChildren :=
  { mask := 0, children := Vector.replicate 16 .emptyRef, only := trieEmptySubtree, count := 0 }

/-- Adds one recursively built child at `index`; an empty subtree
contributes nothing. -/
def trieChildrenAdd (children : TrieChildren) (pfx : TriePath) (index : Nibble)
    (child : TrieItem) : Result TrieChildren :=
  match child.value with
  | .emptySubtree => .ok children
  | _ =>
    let depth := pathLen pfx
    let childCount := children.count
    if ¬ depth < 64 then
      fatalError .witnessDeficient
    else if ¬ childCount < 16 then
      fatalError .witnessDeficient
    else do
      let childSegment ← pathSingle index
      let childPrefix ← pathConcat pfx childSegment
      if ¬ pathPrefixOf childPrefix child.path then
        fatalError .witnessDeficient
      else if branchMaskHas children.mask index then
        fatalError .witnessDeficient
      else do
        let ref ← trieChildRef keccak256 nodedbLookup child (depth + 1)
        .ok
          { mask := branchMaskSet children.mask index
            children := branchRefsSet children.children index ref
            only := child
            count := childCount + 1 }

/-- Finishes a branch: zero children disappear, one child bubbles upward,
several form a canonical branch item. -/
def trieChildrenFinish (pfx : TriePath) (children : TrieChildren) : Result TrieItem :=
  if children.count = 0 then
    .ok { path := pfx, value := .emptySubtree }
  else if children.count = 1 then
    .ok children.only
  else do
    let branchRef ← branchChildRef keccak256 children.mask children.children
    .ok (trieBranch pfx branchRef)

/-- The committed root of a top-level item. -/
def trieSubtreeRoot (subtree : TrieItem) : Result Hash :=
  match subtree.value with
  | .emptySubtree => .ok emptyTrieRoot
  | _ => do
    let rootRef ← trieChildRef keccak256 nodedbLookup subtree 0
    .ok (trieRefToRoot keccak256 rootRef)

end

end EvmSail
