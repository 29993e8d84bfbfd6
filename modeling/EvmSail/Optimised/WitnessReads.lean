/-
# `EvmSail.Optimised.WitnessReads` — authenticated point reads of the optimised host

A read starts at the row of a root and follows the key.  A row keeps its
decoded node, and in it the rows its children were linked to: an embedded child
from the start, a digest once it was followed.  So the table changes along a
read, though nothing of what it answers.

The value found is an account record or the value of a slot; both are decoded
by routines of their own.
-/
import EvmSail.Kernel.State
import EvmSail.Optimised.OrderedTrie
import EvmSail.Optimised.WitnessCodecSound
import EvmSail.Optimised.WitnessNodes

namespace EvmSail.Optimised

open Fallible Kernel

/-! ## Rows and links -/

def witnessNodeRow (table : WitnessNodeTable) (nodeId : NodeId) : Result WitnessNode :=
  if nodeId = mptNodeIdUnlinked ∨ nodeId = mptNodeIdEmpty then fatalError .witnessDeficient
  else
    match nodeAt table nodeId with
    | none => fatalError .witnessDeficient
    | some row => .ok row

def mptNodeSpan (table : WitnessNodeTable) (nodeId : NodeId) : Result (List Byte) :=
  if nodeId = mptNodeIdEmpty then .ok []
  else do
    let row ← witnessNodeRow table nodeId
    .ok row.data

/-- A row changed in place. -/
def updateRow (table : WitnessNodeTable) (nodeId : NodeId) (f : WitnessNode → WitnessNode) :
    WitnessNodeTable :=
  { table with nodes := table.nodes.map fun nodes => nodes.modify (nodeId - 1) f }

def mptDecodeCachedNode (table : WitnessNodeTable) (nodeId : NodeId) :
    Result (DecodedNode × WitnessNodeTable) := do
  let row ← witnessNodeRow table nodeId
  match row.decoded with
  | some node => .ok (node, table)
  | none =>
    match mptDecodeTrustedStateNode row.data with
    | none => fatalError .rlpDecode
    | some node => .ok (node, updateRow table nodeId fun row => { row with decoded := some node })

/-- The row of a child, written to the parent. -/
def stampChild (table : WitnessNodeTable) (parent : NodeId) (x : Nibble) (nodeId : NodeId) :
    WitnessNodeTable :=
  updateRow table parent fun row =>
    { row with
      decoded := row.decoded.map fun node =>
        { node with child := Function.update node.child x { node.child x with nodeId } } }

/-- `mpt_link_witness_child`, for the child of a row at a nibble. -/
def mptLinkWitnessChild (table : WitnessNodeTable) (parent : NodeId) (node : DecodedNode)
    (x : Nibble) : Result ((List Byte × NodeId) × WitnessNodeTable) :=
  let ref := node.child x
  match ref.encoded with
  | none => .ok (([], mptNodeIdEmpty), stampChild table parent x mptNodeIdEmpty)
  | some reference =>
    if ref.nodeId ≠ mptNodeIdUnlinked then do
      let encoded ← mptNodeSpan table ref.nodeId
      .ok ((encoded, ref.nodeId), table)
    else if mptWitnessChildKind ref = .inline then fatalError .witnessDeficient
    else
      match mptNodeIndexLookup table (hashFromBeBytes reference) with
      | (none, _) => fatalError .witnessDeficient
      | (some nodeId, table) => do
        let encoded ← mptNodeSpan table nodeId
        .ok ((encoded, nodeId), stampChild table parent x nodeId)

def mptBindRoot (table : WitnessNodeTable) (root : Hash) : Result (NodeId × WitnessNodeTable) :=
  if root = emptyTrieRoot then .ok (mptNodeIdEmpty, table)
  else
    match mptNodeIndexLookup table root with
    | (none, _) => fatalError .witnessDeficient
    | (some nodeId, table) => .ok (nodeId, table)

/-- A storage root need not be witnessed until it is read from. -/
def mptBindStorageRootIdentity (table : WitnessNodeTable) (root : Hash) :
    NodeId × WitnessNodeTable :=
  if root = emptyTrieRoot then (mptNodeIdEmpty, table)
  else
    let (nodeId, table) := mptNodeIndexLookup table root
    (nodeId.getD mptNodeIdUnlinked, table)

/-! ## The walk -/

def mptHashNibble (key : Hash) (position : Nat) : Nibble :=
  let byte := sliceByte key.toList (position / 2)
  if position % 2 = 1 then lowNibble byte else highNibble byte

def mptKeyMatches (key : Hash) (position : Nat) (path : List Nibble) : Bool :=
  if position + path.length > mptSecureKeyNibbles then false
  else
    (List.range path.length).all fun i => path[i]? == some (mptHashNibble key (position + i))

theorem position_le_of_match {key : Hash} {position : Nat} {path : List Nibble}
    (h : mptKeyMatches key position path = true) :
    position + path.length ≤ mptSecureKeyNibbles := by
  rw [mptKeyMatches] at h
  split at h
  · cases h
  · omega

/-- What a point lookup leaves: the value, empty where the key is absent, and
the last row decoded. -/
structure PointLookup where
  value : List Byte
  terminalNode : NodeId

/-- The loop of `mpt_point_lookup_node`. -/
def mptPointLookupLoop (key : Hash) (table : WitnessNodeTable) (nodeId : NodeId)
    (encoded : List Byte) (terminalNode : NodeId) (position : Nat)
    (hposition : position ≤ mptSecureKeyNibbles) : Result (PointLookup × WitnessNodeTable) :=
  if encoded.length = 0 then .ok (⟨[], terminalNode⟩, table)
  else
    match mptDecodeCachedNode table nodeId with
    | .error e => .error e
    | .ok (node, table) =>
      match _hkind : node.kind with
      | .leaf =>
        if position + node.path.length = mptSecureKeyNibbles ∧
            mptKeyMatches key position node.path = true then
          .ok (⟨node.value, nodeId⟩, table)
        else .ok (⟨[], nodeId⟩, table)
      | .extension =>
        if hmatch : mptKeyMatches key position node.path = true then do
          let ((encoded, childId), table) ← mptLinkWitnessChild table nodeId node 0
          mptPointLookupLoop key table childId encoded nodeId (position + node.path.length)
            (position_le_of_match hmatch)
        else .ok (⟨[], nodeId⟩, table)
      | .branch =>
        if _hend : position = mptSecureKeyNibbles then .ok (⟨node.value, nodeId⟩, table)
        else
          let x := mptHashNibble key position
          if mptWitnessChildKind (node.child x) = .empty then .ok (⟨[], nodeId⟩, table)
          else do
            let ((encoded, childId), table) ← mptLinkWitnessChild table nodeId node x
            mptPointLookupLoop key table childId encoded nodeId (position + 1) (by omega)
termination_by mptSecureKeyNibbles - position
decreasing_by
  · have hpath := node.path_ne _hkind
    have hle := position_le_of_match hmatch
    omega
  · omega

def mptPointLookupNode (table : WitnessNodeTable) (rootNode : NodeId) (key : Hash) :
    Result (PointLookup × WitnessNodeTable) :=
  if rootNode = mptNodeIdEmpty then .ok (⟨[], mptNodeIdEmpty⟩, table)
  else do
    let encoded ← mptNodeSpan table rootNode
    mptPointLookupLoop key table rootNode encoded mptNodeIdEmpty 0 (Nat.zero_le _)

def mptPointLookup (table : WitnessNodeTable) (root key : Hash) :
    Result (PointLookup × WitnessNodeTable) := do
  let (rootNode, table) ← mptBindRoot table root
  mptPointLookupNode table rootNode key

/-! ## Records -/

def mptUintCanonical (item : RlpItem) (maximum : Nat) : Result Unit :=
  if item.list = true ∨ item.content.length > maximum ∨
      (item.content.length ≠ 0 ∧ sliceByte item.content 0 = 0) then
    fatalError .rlpDecode
  else .ok ()

def mptDecodeU64Item (item : RlpItem) : Result Nat := do
  mptUintCanonical item 8
  .ok (item.content.foldl (fun value b => (value <<< 8) ||| b.toNat) 0)

/-- Content copied to the end of 32 zero bytes. -/
def rightAligned (content : List Byte) : List Byte :=
  List.replicate (32 - content.length) 0 ++ content

def mptDecodeWordItem (item : RlpItem) : Result Word := do
  mptUintCanonical item 32
  .ok (BitVec.ofNat 256 (natOfBytes (rightAligned item.content)))

def mptDecodeHashItem (item : RlpItem) (empty : Hash) : Result Hash :=
  if item.list = true ∨ item.content.length > 32 then fatalError .rlpDecode
  else if item.content.length = 0 then .ok empty
  else .ok (hashFromBeBytes (rightAligned item.content))

/-- Four items, one after the other, and what follows them. -/
def mptPopRecord (fields : List Byte) :
    Option ((RlpItem × RlpItem × RlpItem × RlpItem) × List Byte) := do
  let (nonce, fields) ← mptRlpPop fields
  let (balance, fields) ← mptRlpPop fields
  let (storage, fields) ← mptRlpPop fields
  let (code, fields) ← mptRlpPop fields
  some ((nonce, balance, storage, code), fields)

/-- `mpt_decode_account_value`; nothing where it returns false. -/
def mptDecodeAccountValue (value : List Byte) : Result (Option AccountInfo) :=
  match mptRlpPop value with
  | none => fatalError .rlpDecode
  | some (outer, root) =>
    if root.length ≠ 0 ∨ ¬ outer.list = true then fatalError .rlpDecode
    else
      match mptPopRecord outer.content with
      | none => .ok none
      | some ((nonce, balance, storage, code), fields) =>
        if fields.length ≠ 0 then fatalError .rlpDecode
        else do
          let nonce ← mptDecodeU64Item nonce
          let balance ← mptDecodeWordItem balance
          let storageRoot ← mptDecodeHashItem storage emptyTrieRoot
          let codeHash ← mptDecodeHashItem code Kernel.keccakEmpty
          .ok (some { nonce, balance, storageRoot, codeHash })

/-- What `stateless_account_read` returns; `info` is set where it is found. -/
structure AccountRead where
  info : Option AccountInfo
  terminalNode : NodeId
  storageRootNode : NodeId

def statelessAccountRead (table : WitnessNodeTable) (root addressHash : Hash) :
    Result (AccountRead × WitnessNodeTable) := do
  let (lookup, table) ← mptPointLookup table root addressHash
  if lookup.value.length = 0 then .ok (⟨none, lookup.terminalNode, mptNodeIdEmpty⟩, table)
  else do
    match ← mptDecodeAccountValue lookup.value with
    | none => .ok (⟨none, lookup.terminalNode, mptNodeIdEmpty⟩, table)
    | some info =>
      let (storageRootNode, table) := mptBindStorageRootIdentity table info.storageRoot
      .ok (⟨some info, lookup.terminalNode, storageRootNode⟩, table)

/-- The account `account_preload` makes of a read. -/
def AccountRead.account (read : AccountRead) : Account :=
  match read.info with
  | none => emptyAccount
  | some info => { emptyAccount with info, present := true, storageCleared := false }

/-- What `stateless_storage_read` returns. -/
structure StorageRead where
  value : Word
  found : Bool
  terminalNode : NodeId

def statelessStorageRead (table : WitnessNodeTable) (rootNode : NodeId) (slotHash : Hash) :
    Result (StorageRead × WitnessNodeTable) := do
  let (lookup, table) ← mptPointLookupNode table rootNode slotHash
  if lookup.value.length = 0 then .ok (⟨0, false, lookup.terminalNode⟩, table)
  else
    match mptRlpPop lookup.value with
    | none => fatalError .rlpDecode
    | some (item, cursor) =>
      if cursor.length ≠ 0 then fatalError .rlpDecode
      else do
        let value ← mptDecodeWordItem item
        .ok (⟨value, true, lookup.terminalNode⟩, table)

end EvmSail.Optimised
