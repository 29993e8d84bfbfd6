/-
# `EvmSail.Optimised.WitnessRows` — the rows of a witness node

An input node gets a row, directly followed by the rows of the nodes embedded
in it; a row keeps the bytes, their digest and, where they decode, the decoded
node, whose embedded children are linked to their rows.  A node embedded in
another is shorter, which bounds the recursion.

The rows appended are those `Registered` for the node
(`witnessAppend_registered`); there are `witnessRows` of them, and they are
appended as long as there are identities for them (`witnessAppend_fits`).
-/
import EvmSail.Optimised.WitnessCodec
import EvmSail.Rlp.Values

namespace EvmSail.Optimised

open Fallible

/-! ## Embedded children -/

/-- The bytes of an embedded child. -/
def inlineChild (ref : WitnessChild) : Option (List Byte) :=
  if mptWitnessChildKind ref = .inline then ref.encoded else none

theorem inlineChild_encoded {ref : WitnessChild} {e : List Byte} (h : inlineChild ref = some e) :
    ref.encoded = some e := by
  rw [inlineChild] at h
  split at h
  · exact h
  · cases h

theorem mptDecodeChildReference_length {f : RlpFieldRef} {ref : WitnessChild} {e : List Byte}
    (href : mptDecodeChildReference (rlpItemOf f) = some ref) (he : ref.encoded = some e) :
    e.length ≤ f.source.length := by
  rw [mptDecodeChildReference] at href
  split at href
  · split at href
    · cases href
    · cases href
      cases he
      exact Nat.le_refl _
  · split at href
    · cases href
      cases he
      rw [rlpItemOf, rlpItemContent, subSlice, List.length_take, List.length_drop]
      omega
    · split at href
      · cases href
        cases he
      · cases href

/-- What a decoded node refers to is read from one of its fields. -/
theorem mptDecodeFields_child {fs : List RlpFieldRef} {node : DecodedNode} {x : Nibble}
    {e : List Byte} (hnode : mptDecodeFields (fs.map rlpItemOf) = some node)
    (he : (node.child x).encoded = some e) :
    ∃ f ∈ fs, mptDecodeChildReference (rlpItemOf f) = some (node.child x) := by
  have hclear : node.child x ≠ clearChild := by
    intro heq
    rw [heq] at he
    cases he
  obtain ⟨item, hitem, hchild⟩ : ∃ item ∈ fs.map rlpItemOf,
      mptDecodeChildReference item = some (node.child x) := by
    cases mptDecodeFields_items hnode with
    | leaf _ _ _ _ hall => exact absurd (hall x) hclear
    | extension hitems _ _ hchild hall =>
      obtain rfl : x = 0 := not_not.mp fun hx => hclear (hall x hx)
      exact ⟨_, hitems ▸ List.mem_cons_of_mem _ (List.mem_singleton_self _), hchild⟩
    | branch hitems hlen _ _ hall =>
      have hget := List.getElem?_eq_getElem (x.isLt.trans_eq hlen.symm)
      refine ⟨_, ?_, hall x _ hget⟩
      rw [hitems]
      exact List.mem_append_left _ (List.mem_of_getElem? hget)
  obtain ⟨f, hf, rfl⟩ := List.mem_map.mp hitem
  exact ⟨f, hf, hchild⟩

/-- What a node refers to is shorter than the node. -/
theorem mptDecode_child_lt {encoded : List Byte} {node : DecodedNode} {x : Nibble} {e : List Byte}
    (hnode : mptDecodeTrustedStateNode encoded = some node)
    (he : (node.child x).encoded = some e) : e.length < encoded.length := by
  obtain ⟨root, fs, hroot, hlist, hfs, _, hfields⟩ := mptDecode_eq_some.mp hnode
  obtain ⟨hf, rfl⟩ := rlpSingleRef_eq_ok.mp hroot
  obtain ⟨f, hmem, hchild⟩ := mptDecodeFields_child hfields he
  have hle := mptDecodeChildReference_length hchild he
  have hcontent := hfs.length_le hmem
  obtain ⟨hdr, hsource, hshape⟩ := hf.header
  have hpos : 0 < hdr.length := by
    rcases hshape with ⟨hkind, _⟩ | ⟨_, rfl⟩ | ⟨ds, _, _, rfl⟩
    · rw [hlist] at hkind
      cases hkind
    · exact Nat.succ_pos _
    · exact Nat.succ_pos _
  rw [hsource, List.length_append]
  omega

/-! ## Rows -/

/-- `WitnessNode`, for the rows inserted: all of them know their digest. -/
structure WitnessNode where
  data : List Byte
  decoded : Option DecodedNode
  digest : Hash

/-- The children `witness_expand_decoded` visits. -/
def childCount : DecodedNodeKind → Nat
  | .leaf => 0
  | .extension => 1
  | .branch => 16

def visitedChildren (kind : DecodedNodeKind) : List Nibble :=
  (List.finRange 16).take (childCount kind)

section

variable (keccak256 : List Byte → Hash)

/-- The row of a node at `nodeId`, and those of the nodes embedded in it.
The children are visited in order; each is appended behind the rows there
are, and its row is written back to the parent. -/
def witnessAppend (nodeId : NodeId) (digest : Hash) (encoded : List Byte) :
    Option (List WitnessNode) :=
  if nodeId = mptNodeIdEmpty then none
  else
    match _hnode : mptDecodeTrustedStateNode encoded with
    | none => some [⟨encoded, none, digest⟩]
    | some node => do
      let (child, below) ← (visitedChildren node.kind).foldlM
        (fun (s : (Nibble → WitnessChild) × List WitnessNode) x =>
          match _hchild : inlineChild (node.child x) with
          | none => some s
          | some inline => do
            let childId := nodeId + 1 + s.2.length
            let rows ← witnessAppend childId (keccak256 inline) inline
            some (Function.update s.1 x ⟨some inline, childId⟩, s.2 ++ rows))
        (node.child, [])
      some (⟨encoded, some { node with child }, digest⟩ :: below)
termination_by encoded.length
decreasing_by exact mptDecode_child_lt _hnode (inlineChild_encoded _hchild)

/-- One round of `witness_expand_decoded` over the rows of the children. -/
def expandChild (append : NodeId → List Byte → Option (List WitnessNode)) (nodeId : NodeId)
    (node : DecodedNode) (s : (Nibble → WitnessChild) × List WitnessNode) (x : Nibble) :
    Option ((Nibble → WitnessChild) × List WitnessNode) :=
  match inlineChild (node.child x) with
  | none => some s
  | some inline => do
    let childId := nodeId + 1 + s.2.length
    let rows ← append childId inline
    some (Function.update s.1 x ⟨some inline, childId⟩, s.2 ++ rows)

theorem witnessAppend_eq (nodeId : NodeId) (digest : Hash) (encoded : List Byte) :
    witnessAppend keccak256 nodeId digest encoded =
      if nodeId = mptNodeIdEmpty then none
      else
        match mptDecodeTrustedStateNode encoded with
        | none => some [⟨encoded, none, digest⟩]
        | some node =>
          ((visitedChildren node.kind).foldlM
            (expandChild (fun childId inline =>
              witnessAppend keccak256 childId (keccak256 inline) inline) nodeId node)
            (node.child, [])) >>= fun (child, below) =>
          some (⟨encoded, some { node with child }, digest⟩ :: below) := by
  rw [witnessAppend]
  split
  · rfl
  · split
    · rename_i hnode
      rw [hnode]
    · rename_i node hnode
      rw [hnode]
      dsimp only
      congr 1
      congr 1
      funext s x
      rw [expandChild]
      split <;> rename_i hchild <;> rw [hchild]

end

/-! ## What is registered for a node -/

/-- The nodes embedded in a node, at any depth, and the node itself. -/
inductive Registered : List Byte → List Byte → Prop
  | self (encoded : List Byte) : Registered encoded encoded
  | inline {encoded inline bytes : List Byte} {node : DecodedNode} {x : Nibble} :
      mptDecodeTrustedStateNode encoded = some node → inlineChild (node.child x) = some inline →
      Registered inline bytes → Registered encoded bytes

/-- The rows behind a parent after some of its children: every embedded child
has its own run of rows, and there are no others. -/
structure Expanded (append : NodeId → List Byte → Option (List WitnessNode)) (nodeId : NodeId)
    (node : DecodedNode) (xs : List Nibble)
    (s : (Nibble → WitnessChild) × List WitnessNode) : Prop where
  block : ∀ x ∈ xs, ∀ inline, inlineChild (node.child x) = some inline →
    ∃ before rows after, s.2 = before ++ rows ++ after ∧
      append (nodeId + 1 + before.length) inline = some rows ∧
      s.1 x = ⟨some inline, nodeId + 1 + before.length⟩
  only : ∀ row ∈ s.2, ∃ x ∈ xs, ∃ inline before rows after,
    inlineChild (node.child x) = some inline ∧ s.2 = before ++ rows ++ after ∧
      append (nodeId + 1 + before.length) inline = some rows ∧ row ∈ rows
  kept : ∀ x, (x ∈ xs → inlineChild (node.child x) = none) → s.1 x = node.child x

theorem foldlM_expandChild {append : NodeId → List Byte → Option (List WitnessNode)}
    {nodeId : NodeId} {node : DecodedNode} {xs : List Nibble} (hxs : xs.Nodup)
    {s : (Nibble → WitnessChild) × List WitnessNode}
    (h : xs.foldlM (expandChild append nodeId node) (node.child, []) = some s) :
    Expanded append nodeId node xs s := by
  induction xs using List.reverseRecOn generalizing s with
  | nil =>
    cases h
    exact ⟨nofun, nofun, fun _ _ => rfl⟩
  | append_singleton xs x ih =>
    rw [List.foldlM_append] at h
    obtain ⟨s₀, hstart, hlast⟩ := Option.bind_eq_some_iff.mp h
    rw [List.foldlM_cons] at hlast
    obtain ⟨s₁, hround, hend⟩ := Option.bind_eq_some_iff.mp hlast
    cases hend
    rw [List.nodup_append] at hxs
    have hx : x ∉ xs := fun hmem => hxs.2.2 x hmem x (List.mem_singleton_self x) rfl
    have hold := ih hxs.1 hstart
    rw [expandChild] at hround
    split at hround
    · rename_i hnone
      cases hround
      refine ⟨fun y hy inline hinline => ?_, fun row hrow => ?_, fun y hy => ?_⟩
      · rcases List.mem_append.mp hy with hy | hy
        · exact hold.block y hy inline hinline
        · rw [List.mem_singleton.mp hy, hnone] at hinline
          cases hinline
      · obtain ⟨y, hy, hrest⟩ := hold.only row hrow
        exact ⟨y, List.mem_append_left _ hy, hrest⟩
      · exact hold.kept y fun hmem => hy (List.mem_append_left _ hmem)
    · rename_i inline hinline
      obtain ⟨rows, hrows, hround⟩ := Option.bind_eq_some_iff.mp hround
      cases hround
      refine ⟨fun y hy inline' hinline' => ?_, fun row hrow => ?_, fun y hy => ?_⟩
      · rcases List.mem_append.mp hy with hmem | hmem
        · obtain ⟨before, rows', after, hsplit, happend, hchild⟩ :=
            hold.block y hmem inline' hinline'
          refine ⟨before, rows', after ++ rows, ?_, happend, ?_⟩
          · rw [hsplit, List.append_assoc (before ++ rows')]
          · rw [← hchild]
            refine Function.update_of_ne ?_ _ _
            rintro rfl
            exact hx hmem
        · obtain rfl := List.mem_singleton.mp hmem
          rw [hinline] at hinline'
          cases hinline'
          exact ⟨s₀.2, rows, [], (List.append_nil _).symm, hrows, Function.update_self _ _ _⟩
      · rcases List.mem_append.mp hrow with hrow | hrow
        · obtain ⟨y, hy, inline', before, rows', after, hinline', hsplit, hrest⟩ :=
            hold.only row hrow
          refine ⟨y, List.mem_append_left _ hy, inline', before, rows', after ++ rows, hinline',
            ?_, hrest⟩
          rw [hsplit, List.append_assoc (before ++ rows')]
        · exact ⟨x, List.mem_append_right _ (List.mem_singleton_self x), inline, s₀.2, rows, [],
            hinline, (List.append_nil _).symm, hrows, hrow⟩
      · have hne : y ≠ x := by
          rintro rfl
          rw [hy (List.mem_append_right _ (List.mem_singleton_self y))] at hinline
          cases hinline
        rw [← hold.kept y fun hmem => hy (List.mem_append_left _ hmem)]
        exact Function.update_of_ne hne _ _

/-- Every embedded child is visited. -/
theorem mem_visitedChildren {encoded inline : List Byte} {node : DecodedNode} {x : Nibble}
    (hnode : mptDecodeTrustedStateNode encoded = some node)
    (hinline : inlineChild (node.child x) = some inline) : x ∈ visitedChildren node.kind := by
  obtain ⟨_, fs, _, _, _, _, hfields⟩ := mptDecode_eq_some.mp hnode
  have hclear : node.child x ≠ clearChild := by
    intro heq
    rw [heq] at hinline
    cases hinline
  cases mptDecodeFields_items hfields with
  | leaf _ _ _ _ hall => exact absurd (hall x) hclear
  | extension _ _ hkind _ hall =>
    obtain rfl : x = 0 := not_not.mp fun hx => hclear (hall x hx)
    rw [hkind]
    decide
  | branch _ _ hkind _ _ =>
    rw [hkind]
    exact List.mem_finRange x

theorem nodup_visitedChildren (kind : DecodedNodeKind) : (visitedChildren kind).Nodup :=
  (List.nodup_finRange 16).sublist (List.take_sublist _ _)

section

variable {keccak256 : List Byte → Hash} {nodeId : NodeId} {digest : Hash} {encoded : List Byte}
  {rows : List WitnessNode}

/-- The rows appended for a node. -/
theorem witnessAppend_cases (h : witnessAppend keccak256 nodeId digest encoded = some rows) :
    nodeId ≠ mptNodeIdEmpty ∧
      (mptDecodeTrustedStateNode encoded = none ∧ rows = [⟨encoded, none, digest⟩] ∨
        ∃ node child below, mptDecodeTrustedStateNode encoded = some node ∧
          rows = ⟨encoded, some { node with child }, digest⟩ :: below ∧
          Expanded (fun childId inline =>
              witnessAppend keccak256 childId (keccak256 inline) inline)
            nodeId node (visitedChildren node.kind) (child, below)) := by
  rw [witnessAppend_eq] at h
  split at h
  · cases h
  rename_i hid
  refine ⟨hid, ?_⟩
  split at h
  · rename_i hnode
    cases h
    exact Or.inl ⟨hnode, rfl⟩
  · rename_i node hnode
    obtain ⟨⟨child, below⟩, hfold, h⟩ := Option.bind_eq_some_iff.mp h
    cases h
    exact Or.inr ⟨node, child, below, hnode, rfl,
      foldlM_expandChild (nodup_visitedChildren node.kind) hfold⟩

theorem witnessAppend_head (h : witnessAppend keccak256 nodeId digest encoded = some rows) :
    ∃ decoded below, rows = ⟨encoded, decoded, digest⟩ :: below := by
  obtain ⟨_, ⟨_, rfl⟩ | ⟨node, child, below, _, rfl, _⟩⟩ := witnessAppend_cases h
  · exact ⟨_, _, rfl⟩
  · exact ⟨_, _, rfl⟩

/-- The rows behind the first one know the digest of their bytes. -/
theorem witnessAppend_digest (h : witnessAppend keccak256 nodeId digest encoded = some rows)
    (hdigest : digest = keccak256 encoded) : ∀ row ∈ rows, row.digest = keccak256 row.data := by
  induction hn : encoded.length using Nat.strongRecOn generalizing nodeId digest encoded rows with
  | _ n ih =>
    intro row hrow
    obtain ⟨_, ⟨_, rfl⟩ | ⟨node, child, below, hnode, rfl, hbelow⟩⟩ := witnessAppend_cases h
    · rw [List.mem_singleton.mp hrow]
      exact hdigest
    · rcases List.mem_cons.mp hrow with rfl | hrow
      · exact hdigest
      · obtain ⟨x, _, inline, _, rows, _, hinline, _, happend, hmem⟩ := hbelow.only row hrow
        have hlt := mptDecode_child_lt hnode (inlineChild_encoded hinline)
        exact ih _ (hn ▸ hlt) happend rfl rfl row hmem

/-- There is a row for every registered node, and for no others. -/
theorem witnessAppend_registered (h : witnessAppend keccak256 nodeId digest encoded = some rows)
    (bytes : List Byte) : (∃ row ∈ rows, row.data = bytes) ↔ Registered encoded bytes := by
  induction hn : encoded.length using Nat.strongRecOn generalizing nodeId digest encoded rows with
  | _ n ih =>
    obtain ⟨_, ⟨hnode, rfl⟩ | ⟨node, child, below, hnode, rfl, hbelow⟩⟩ := witnessAppend_cases h
    · constructor
      · rintro ⟨row, hrow, rfl⟩
        rw [List.mem_singleton.mp hrow]
        exact .self encoded
      · intro hreg
        cases hreg with
        | self => exact ⟨_, List.mem_singleton_self _, rfl⟩
        | inline hsome _ _ =>
          rw [hnode] at hsome
          cases hsome
    · constructor
      · rintro ⟨row, hrow, rfl⟩
        rcases List.mem_cons.mp hrow with rfl | hrow
        · exact .self encoded
        · obtain ⟨x, _, inline, _, rows, _, hinline, _, happend, hmem⟩ := hbelow.only row hrow
          have hlt := mptDecode_child_lt hnode (inlineChild_encoded hinline)
          exact .inline hnode hinline ((ih _ (hn ▸ hlt) happend rfl).mp ⟨row, hmem, rfl⟩)
      · intro hreg
        cases hreg with
        | self => exact ⟨_, List.mem_cons_self, rfl⟩
        | @inline _ inline _ node' x hsome hinline hreg =>
          rw [hnode] at hsome
          cases hsome
          have hlt := mptDecode_child_lt hnode (inlineChild_encoded hinline)
          obtain ⟨before, rows, after, hsplit, happend, _⟩ :=
            hbelow.block x (mem_visitedChildren hnode hinline) inline hinline
          obtain ⟨row, hrow, hdata⟩ := (ih _ (hn ▸ hlt) happend rfl).mpr hreg
          refine ⟨row, List.mem_cons_of_mem _ ?_, hdata⟩
          rw [show below = before ++ rows ++ after from hsplit]
          exact List.mem_append_left _ (List.mem_append_right _ hrow)

end

/-! ## How many rows a node takes -/

/-- One for the node, and those of the nodes embedded in it. -/
def witnessRows (encoded : List Byte) : Nat :=
  match _hnode : mptDecodeTrustedStateNode encoded with
  | none => 1
  | some node =>
    ((visitedChildren node.kind).map fun x =>
      match _hchild : inlineChild (node.child x) with
      | none => 0
      | some inline => witnessRows inline).sum + 1
termination_by encoded.length
decreasing_by exact mptDecode_child_lt _hnode (inlineChild_encoded _hchild)

def childRows (node : DecodedNode) (x : Nibble) : Nat :=
  match inlineChild (node.child x) with
  | none => 0
  | some inline => witnessRows inline

theorem witnessRows_malformed {encoded : List Byte}
    (hnode : mptDecodeTrustedStateNode encoded = none) : witnessRows encoded = 1 := by
  rw [witnessRows]
  split
  · rfl
  · rename_i hsome
    rw [hnode] at hsome
    cases hsome

theorem witnessRows_node {encoded : List Byte} {node : DecodedNode}
    (hnode : mptDecodeTrustedStateNode encoded = some node) :
    witnessRows encoded = ((visitedChildren node.kind).map (childRows node)).sum + 1 := by
  rw [witnessRows]
  split
  · rename_i hnone
    rw [hnode] at hnone
    cases hnone
  · rename_i node' hsome
    rw [hnode] at hsome
    cases hsome
    congr 3
    funext x
    rw [childRows]
    split <;> rename_i hchild <;> rw [hchild]

theorem witnessRows_pos (encoded : List Byte) : 0 < witnessRows encoded := by
  cases hnode : mptDecodeTrustedStateNode encoded with
  | none =>
    rw [witnessRows_malformed hnode]
    exact Nat.one_pos
  | some node =>
    rw [witnessRows_node hnode]
    exact Nat.succ_pos _

/-- Rows are appended from `nodeId` on exactly as long as identities last. -/
def Fits (nodeId count : Nat) (rows : Option (List WitnessNode)) : Prop :=
  if mptNodeIdEmpty < nodeId + count then rows = none
  else ∃ appended, rows = some appended ∧ appended.length = count

theorem foldlM_expandChild_fits {append : NodeId → List Byte → Option (List WitnessNode)}
    {nodeId : Nat} {node : DecodedNode}
    (happend : ∀ x inline, inlineChild (node.child x) = some inline → ∀ childId : Nat,
      childId ≤ mptNodeIdEmpty → Fits childId (witnessRows inline) (append childId inline))
    (xs : List Nibble) (s : (Nibble → WitnessChild) × List WitnessNode)
    (hs : nodeId + 1 + s.2.length ≤ mptNodeIdEmpty) :
    if mptNodeIdEmpty < nodeId + 1 + s.2.length + (xs.map (childRows node)).sum then
      xs.foldlM (expandChild append nodeId node) s = none
    else ∃ s', xs.foldlM (expandChild append nodeId node) s = some s' ∧
      s'.2.length = s.2.length + (xs.map (childRows node)).sum := by
  induction xs generalizing s with
  | nil =>
    rw [List.map_nil, List.sum_nil, if_neg (by omega)]
    exact ⟨s, rfl, rfl⟩
  | cons x xs ih =>
    rw [List.map_cons, List.sum_cons, List.foldlM_cons, expandChild, childRows]
    cases hinline : inlineChild (node.child x) with
    | none =>
      dsimp only
      rw [Nat.zero_add]
      exact ih s hs
    | some inline =>
      dsimp only
      have hfits := happend x inline hinline (nodeId + 1 + s.2.length) hs
      rw [Fits] at hfits
      split at hfits
      · rename_i hlt
        rw [hfits, if_pos (by omega)]
        rfl
      · rename_i hge
        obtain ⟨rows, hrows, hlen⟩ := hfits
        have hnext : (s.2 ++ rows).length = s.2.length + witnessRows inline := by
          rw [List.length_append, hlen]
        have hrest := ih (Function.update s.1 x ⟨some inline, nodeId + 1 + s.2.length⟩,
          s.2 ++ rows) (by dsimp only; omega)
        dsimp only at hrest
        rw [hnext, ← Nat.add_assoc, Nat.add_assoc, Nat.add_assoc s.2.length] at hrest
        rw [hrows]
        exact hrest

theorem witnessAppend_fits (keccak256 : List Byte → Hash) {nodeId : Nat}
    (hid : nodeId ≤ mptNodeIdEmpty) (digest : Hash) (encoded : List Byte) :
    Fits nodeId (witnessRows encoded) (witnessAppend keccak256 nodeId digest encoded) := by
  induction hn : encoded.length using Nat.strongRecOn generalizing nodeId digest encoded with
  | _ n ih =>
    rw [Fits, witnessAppend_eq]
    by_cases hempty : nodeId = mptNodeIdEmpty
    · have hpos := witnessRows_pos encoded
      rw [if_pos hempty, if_pos (by omega)]
    · rw [if_neg hempty]
      cases hnode : mptDecodeTrustedStateNode encoded with
      | none =>
        rw [witnessRows_malformed hnode, if_neg (by omega)]
        exact ⟨_, rfl, rfl⟩
      | some node =>
        dsimp only
        have hfold := @foldlM_expandChild_fits
          (fun childId inline => witnessAppend keccak256 childId (keccak256 inline) inline)
          nodeId node
          (fun x inline hinline childId hchildId =>
            ih _ (hn ▸ mptDecode_child_lt hnode (inlineChild_encoded hinline)) hchildId _ _ rfl)
          (visitedChildren node.kind) (node.child, []) (by rw [List.length_nil]; omega)
        rw [witnessRows_node hnode]
        rw [List.length_nil, Nat.add_zero, Nat.zero_add] at hfold
        split at hfold
        · rename_i hlt
          rw [if_pos (by omega), hfold]
          rfl
        · rename_i hge
          obtain ⟨⟨child, below⟩, hfold, hlen⟩ := hfold
          rw [if_neg (by omega), hfold]
          refine ⟨_, rfl, ?_⟩
          rw [List.length_cons, hlen]

end EvmSail.Optimised
