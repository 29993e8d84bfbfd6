/-
# `EvmSail.Optimised.WitnessLinks` — the links of a witness table

What a row knows of its node is the node its bytes decode to, and its children
are linked to the rows they refer to: an embedded child to a row of its bytes,
a digest to nothing or to the row the index has for it (`RowLinked`).  The rows
are appended so (`TableRun.linked`), and every step of a read keeps them so
(`Readable`), which is why a cached node or link answers as a fresh one would.
-/
import EvmSail.Optimised.WitnessReads

namespace EvmSail.Optimised

open Fallible

/-! ## Linked rows -/

/-- What a decoded node refers to is not empty, and not linked yet. -/
theorem mptDecode_child_fresh {encoded : List Byte} {node : DecodedNode} {x : Nibble}
    {e : List Byte} (hnode : mptDecodeTrustedStateNode encoded = some node)
    (he : (node.child x).encoded = some e) :
    e ≠ [] ∧ (node.child x).nodeId = mptNodeIdUnlinked := by
  obtain ⟨_, fs, _, _, hfs, _, hfields⟩ := mptDecode_eq_some.mp hnode
  obtain ⟨f, hf, hchild⟩ := mptDecodeFields_child hfields he
  rw [mptDecodeChildReference] at hchild
  split at hchild
  · split at hchild
    · cases hchild
    · have hraw := Option.some.inj hchild
      rw [← hraw] at he ⊢
      cases he
      exact ⟨(hfs.announced f hf).source_ne_nil, rfl⟩
  · split at hchild
    · rename_i hlen
      have hcontent := Option.some.inj hchild
      rw [← hcontent] at he ⊢
      cases he
      refine ⟨?_, rfl⟩
      rintro hnil
      rw [hnil] at hlen
      cases hlen
    · split at hchild
      · have hempty := Option.some.inj hchild
        rw [← hempty] at he
        cases he
      · cases hchild

theorem mptWitnessChildKind_eq {ref : WitnessChild} {e : List Byte} (he : ref.encoded = some e) :
    mptWitnessChildKind ref = if e.length = 32 then .hashed else .inline := by
  rw [mptWitnessChildKind, he]

theorem inlineChild_length {ref : WitnessChild} {e : List Byte} (h : inlineChild ref = some e) :
    e.length ≠ 32 := by
  intro hlen
  have hkind := mptWitnessChildKind_eq (inlineChild_encoded h)
  rw [if_pos hlen] at hkind
  rw [inlineChild, hkind, if_neg (by intro h; cases h)] at h
  cases h

theorem inlineChild_of_length {ref : WitnessChild} {e : List Byte} (he : ref.encoded = some e)
    (hlen : e.length ≠ 32) : inlineChild ref = some e := by
  have hkind := mptWitnessChildKind_eq he
  rw [if_neg hlen] at hkind
  rw [inlineChild, hkind, if_pos rfl, he]

/-- A cached node and the one its bytes decode to. -/
structure SameNode (node cached : DecodedNode) : Prop where
  kind : cached.kind = node.kind
  path : cached.path = node.path
  value : cached.value = node.value
  encoded : ∀ x, (cached.child x).encoded = (node.child x).encoded

/-- The row a child is linked to, if any, is that of what it refers to. -/
def ChildLinked (data : NodeId → Option (List Byte)) (index : Hash → Option NodeId)
    (child : WitnessChild) : Prop :=
  ∀ e, child.encoded = some e →
    if e.length = 32 then
      child.nodeId = mptNodeIdUnlinked ∨ index (hashFromBeBytes e) = some child.nodeId
    else data child.nodeId = some e

structure RowLinked (data : NodeId → Option (List Byte)) (index : Hash → Option NodeId)
    (row : WitnessNode) : Prop where
  nonempty : row.data ≠ []
  malformed : row.decoded = none → mptDecodeTrustedStateNode row.data = none
  cached : ∀ cached, row.decoded = some cached →
    ∃ node, mptDecodeTrustedStateNode row.data = some node ∧ SameNode node cached ∧
      ∀ x, ChildLinked data index (cached.child x)

theorem RowLinked.mono {data data' : NodeId → Option (List Byte)}
    {index index' : Hash → Option NodeId} {row : WitnessNode} (h : RowLinked data index row)
    (hdata : ∀ nodeId e, data nodeId = some e → data' nodeId = some e)
    (hindex : ∀ digest nodeId, index digest = some nodeId → index' digest = some nodeId) :
    RowLinked data' index' row := by
  refine ⟨h.nonempty, h.malformed, fun cached hcached => ?_⟩
  obtain ⟨node, hnode, hsame, hlinked⟩ := h.cached cached hcached
  refine ⟨node, hnode, hsame, fun x e he => ?_⟩
  have hchild := hlinked x e he
  split at hchild
  · rename_i hlen
    rw [if_pos hlen]
    exact hchild.imp_right (hindex _ _)
  · rename_i hlen
    rw [if_neg hlen]
    exact hdata _ _ hchild

/-- The rows appended for a node are linked, wherever they end up. -/
theorem witnessAppend_linked {keccak256 : List Byte → Hash} {nodeId : Nat} {digest : Hash}
    {encoded : List Byte} {rows : List WitnessNode}
    (h : witnessAppend keccak256 nodeId digest encoded = some rows) (hne : encoded ≠ [])
    {data : NodeId → Option (List Byte)}
    (hdata : ∀ i row, rows[i]? = some row → data (nodeId + i) = some row.data) :
    ∀ row ∈ rows, RowLinked data (fun _ => none) row := by
  induction hn : encoded.length using Nat.strongRecOn generalizing nodeId digest encoded rows with
  | _ n ih =>
    intro row hrow
    obtain ⟨_, ⟨hnode, rfl⟩ | ⟨node, child, below, hnode, rfl, hbelow⟩⟩ := witnessAppend_cases h
    · rw [List.mem_singleton.mp hrow]
      exact ⟨hne, fun _ => hnode, nofun⟩
    · have hblock : ∀ {before rows after : List WitnessNode}, below = before ++ rows ++ after →
          ∀ i row, rows[i]? = some row → data (nodeId + 1 + before.length + i) = some row.data := by
        intro before rows after hsplit i row hget
        rw [show nodeId + 1 + before.length + i = nodeId + (before.length + i + 1) by omega]
        refine hdata _ row ?_
        have hlt := (List.getElem?_eq_some_iff.mp hget).1
        rw [List.getElem?_cons_succ, hsplit, List.append_assoc,
          List.getElem?_append_right (by omega), Nat.add_sub_cancel_left,
          List.getElem?_append_left hlt, hget]
      rcases List.mem_cons.mp hrow with rfl | hrow
      · refine ⟨hne, nofun, fun cached hcached => ?_⟩
        cases hcached
        -- an embedded child is in the block of its rows, any other as it was decoded
        have hchild : ∀ x, (∃ inline before rows after, inlineChild (node.child x) = some inline ∧
            below = before ++ rows ++ after ∧
            witnessAppend keccak256 (nodeId + 1 + before.length) (keccak256 inline) inline =
              some rows ∧ child x = ⟨some inline, nodeId + 1 + before.length⟩) ∨
            inlineChild (node.child x) = none ∧ child x = node.child x := by
          intro x
          cases hinline : inlineChild (node.child x) with
          | none => exact Or.inr ⟨rfl, hbelow.kept x fun _ => hinline⟩
          | some inline =>
            obtain ⟨before, rows, after, hsplit, happend, hlink⟩ :=
              hbelow.block x (mem_visitedChildren hnode hinline) inline hinline
            exact Or.inl ⟨inline, before, rows, after, rfl, hsplit, happend, hlink⟩
        refine ⟨node, hnode, ⟨rfl, rfl, rfl, fun x => ?_⟩, fun x e he => ?_⟩
        · rcases hchild x with ⟨inline, _, _, _, hinline, _, _, hlink⟩ | ⟨_, hlink⟩
          · dsimp only
            rw [hlink, inlineChild_encoded hinline]
          · dsimp only
            rw [hlink]
        · dsimp only at he ⊢
          rcases hchild x with ⟨inline, before, rows, after, hinline, hsplit, happend, hlink⟩ |
            ⟨hnone, hlink⟩
          · rw [hlink] at he ⊢
            cases he
            rw [if_neg (inlineChild_length hinline)]
            obtain ⟨decoded, rest, rfl⟩ := witnessAppend_head happend
            exact hblock hsplit 0 _ rfl
          · rw [hlink] at he ⊢
            have hlen : e.length = 32 := by
              by_contra hlen
              rw [inlineChild_of_length he hlen] at hnone
              cases hnone
            rw [if_pos hlen]
            exact Or.inl (mptDecode_child_fresh hnode he).2
      · obtain ⟨x, _, inline, before, rows, after, hinline, hsplit, happend, hmem⟩ :=
          hbelow.only row hrow
        have hencoded := inlineChild_encoded hinline
        exact ih _ (hn ▸ mptDecode_child_lt hnode hencoded) happend
          (mptDecode_child_fresh hnode hencoded).1 (hblock hsplit) rfl row hmem

/-! ## The rows of a table -/

/-- The bytes of a row; row zero is reserved. -/
def rowData (nodes : List WitnessNode) (nodeId : NodeId) : Option (List Byte) :=
  if nodeId = mptNodeIdUnlinked then none else (nodes[nodeId - 1]?).map WitnessNode.data

theorem rowData_append {nodes rows : List WitnessNode} {nodeId : NodeId} {e : List Byte}
    (h : rowData nodes nodeId = some e) : rowData (nodes ++ rows) nodeId = some e := by
  rw [rowData] at h ⊢
  split at h
  · cases h
  · rename_i hid
    obtain ⟨row, hget, hrow⟩ := Option.map_eq_some_iff.mp h
    rw [if_neg hid, List.getElem?_append_left (List.getElem?_eq_some_iff.mp hget).1, hget, ← hrow,
      Option.map_some]

/-- The rows of every table are linked, digests to nothing yet. -/
theorem TableRun.linked {keccak256 : List Byte → Hash} {inputs : List (List Byte)}
    {table : WitnessNodeTable} (h : TableRun keccak256 inputs table) :
    ∃ nodes, table.nodes = some nodes ∧
      ∀ row ∈ nodes, RowLinked (rowData nodes) (fun _ => none) row := by
  induction h with
  | begin => exact ⟨[], rfl, List.forall_mem_nil _⟩
  | @insert inputs table table' encoded _ hinsert ih =>
    obtain ⟨nodes, hnodes, hlinked⟩ := ih
    rw [mptNodeTableInsert, hnodes] at hinsert
    dsimp only at hinsert
    split at hinsert
    · cases hinsert
    rename_i hopen
    rw [not_or] at hopen
    obtain ⟨rows, hrows, hinsert⟩ := Option.bind_eq_some_iff.mp hinsert
    cases hinsert
    refine ⟨nodes ++ rows, rfl, fun row hrow => ?_⟩
    rcases List.mem_append.mp hrow with hrow | hrow
    · exact (hlinked row hrow).mono (fun _ _ => rowData_append) (by intro _ _ h; cases h)
    · refine witnessAppend_linked hrows (fun hnil => hopen.1 (by rw [hnil]; rfl)) ?_ row hrow
      intro i row hget
      have hid : nodes.length + 1 + i ≠ mptNodeIdUnlinked := by
        rw [mptNodeIdUnlinked]
        omega
      rw [rowData, if_neg hid, List.getElem?_append_right (by omega),
        show nodes.length + 1 + i - 1 - nodes.length = i by omega, hget, Option.map_some]
  | lookup digest _ ih => exact ih
  | @sealed inputs table table' hrun hseal ih =>
    obtain ⟨nodes, hnodes, hlinked⟩ := ih
    obtain ⟨nodes', hvalid⟩ := hrun.valid
    refine ⟨nodes, ?_, hlinked⟩
    have hsame := (hvalid.seal hseal).2.nodes_eq
    rw [hsame, ← hvalid.nodes_eq, hnodes]

/-! ## Rows changed in place -/

section

variable {f : WitnessNode → WitnessNode} {nodes : List WitnessNode} {i : Nat}

theorem map_modify {α : Type} {g : WitnessNode → α} (hg : ∀ row, g (f row) = g row) :
    (nodes.modify i f).map g = nodes.map g := by
  refine List.ext_getElem? fun j => ?_
  rw [List.getElem?_map, List.getElem?_map, List.getElem?_modify, Option.map_eq_map,
    Option.map_map]
  congr 1
  funext row
  rw [Function.comp_apply]
  split
  · exact hg row
  · rfl

theorem indexEntries_modify (hf : ∀ row, (f row).digest = row.digest) :
    indexEntries (nodes.modify i f) = indexEntries nodes := by
  have hentries : ∀ nodes : List WitnessNode,
      indexEntries nodes = (nodes.map WitnessNode.digest).zipIdx 1 := by
    intro nodes
    rw [indexEntries, List.zipIdx_map]
    rfl
  rw [hentries, hentries, map_modify hf]

theorem rowData_modify (hf : ∀ row, (f row).data = row.data) :
    rowData (nodes.modify i f) = rowData nodes := by
  funext nodeId
  rw [rowData, rowData, ← List.getElem?_map, ← List.getElem?_map, map_modify hf]

theorem mem_modify {row : WitnessNode} (h : row ∈ nodes.modify i f) :
    row ∈ nodes ∨ ∃ old, nodes[i]? = some old ∧ row = f old := by
  obtain ⟨j, hj⟩ := List.mem_iff_getElem?.mp h
  rw [List.getElem?_modify, Option.map_eq_map] at hj
  obtain ⟨old, hold, hrow⟩ := Option.map_eq_some_iff.mp hj
  split at hrow
  · rename_i heq
    subst heq
    exact Or.inr ⟨old, hold, hrow.symm⟩
  · exact Or.inl (hrow ▸ List.mem_of_getElem? hold)

end

section

variable {keccak256 : List Byte → Hash} {inputs : List (List Byte)} {nodes : List WitnessNode}
  {table : WitnessNodeTable} {f : WitnessNode → WitnessNode}

theorem indexed_updateRow (hf : ∀ row, (f row).digest = row.digest) (nodeId : NodeId) :
    indexed (updateRow table nodeId f) = indexed table := by
  funext digest
  rw [indexed, indexed, updateRow]
  dsimp only
  cases table.nodes with
  | none => rfl
  | some nodes => rw [Option.map_some, Option.getD_some, Option.getD_some, indexEntries_modify hf]

theorem WitnessNodeTable.Valid.updateRow (h : table.Valid keccak256 inputs nodes)
    (hdata : ∀ row, (f row).data = row.data) (hdigest : ∀ row, (f row).digest = row.digest)
    (nodeId : NodeId) :
    (updateRow table nodeId f).Valid keccak256 inputs (nodes.modify (nodeId - 1) f) := by
  have hlength : (nodes.modify (nodeId - 1) f).length = nodes.length := List.length_modify ..
  refine ⟨?_, hlength ▸ h.bound, fun bytes => ?_, fun row hrow => ?_, ?_, fun digest id hmemo => ?_⟩
  · rw [Optimised.updateRow, h.nodes_eq, Option.map_some]
  · have hmap := @map_modify f nodes (nodeId - 1) _ _ hdata
    have hmem : ∀ rows : List WitnessNode,
        (∃ row ∈ rows, row.data = bytes) ↔ bytes ∈ rows.map WitnessNode.data :=
      fun rows => List.mem_map.symm
    rw [hmem, hmap, ← hmem, h.registered]
  · rcases mem_modify hrow with hrow | ⟨old, hold, rfl⟩
    · exact h.digest row hrow
    · rw [hdata, hdigest]
      exact h.digest old (List.mem_of_getElem? hold)
  · have hbuckets := h.buckets
    rw [indexEntries_modify hdigest]
    exact hbuckets
  · rw [indexed_updateRow hdigest]
    exact h.memo digest id hmemo

end

/-! ## Tables that are read -/

/-- The invariant of reads: the rows keep their bytes, the index its answers,
and what is linked is linked right. -/
structure Readable (keccak256 : List Byte → Hash) (inputs : List (List Byte))
    (data : NodeId → Option (List Byte)) (index : Hash → Option NodeId)
    (table : WitnessNodeTable) : Prop where
  rows : ∃ nodes, table.Valid keccak256 inputs nodes ∧ rowData nodes = data ∧
    ∀ row ∈ nodes, RowLinked data index row
  index_eq : indexed table = index

section

variable {keccak256 : List Byte → Hash} {inputs : List (List Byte)}
  {data : NodeId → Option (List Byte)} {index : Hash → Option NodeId} {table : WitnessNodeTable}

/-- A sealed table can be read. -/
theorem TableRun.readable (h : TableRun keccak256 inputs table) :
    Readable keccak256 inputs (rowData (table.nodes.getD [])) (indexed table) table := by
  obtain ⟨nodes, hvalid⟩ := h.valid
  obtain ⟨nodes', hnodes, hlinked⟩ := h.linked
  have hsame : nodes' = nodes := by
    rw [hvalid.nodes_eq] at hnodes
    exact (Option.some.inj hnodes).symm
  subst hsame
  rw [hvalid.nodes_eq, Option.getD_some]
  exact ⟨⟨nodes', hvalid, rfl, fun row hrow => (hlinked row hrow).mono (fun _ _ h => h) nofun⟩, rfl⟩

theorem Readable.lookup (h : Readable keccak256 inputs data index table) (digest : Hash) :
    (mptNodeIndexLookup table digest).1 = index digest ∧
      Readable keccak256 inputs data index (mptNodeIndexLookup table digest).2 := by
  obtain ⟨nodes, hvalid, hdata, hlinked⟩ := h.rows
  have hlookup := hvalid.lookup digest
  rw [hvalid.lookup_eq] at hlookup ⊢
  exact ⟨congrFun h.index_eq digest, ⟨nodes, hlookup, hdata, hlinked⟩, h.index_eq⟩

/-- The row of an identity. -/
theorem Readable.row (h : Readable keccak256 inputs data index table) (nodeId : NodeId) :
    (∃ row, nodeAt table nodeId = some row ∧ data nodeId = some row.data ∧
        RowLinked data index row ∧ witnessNodeRow table nodeId = .ok row) ∨
      data nodeId = none ∧ witnessNodeRow table nodeId = fatalError .witnessDeficient := by
  obtain ⟨nodes, hvalid, rfl, hlinked⟩ := h.rows
  have hnode : nodeAt table nodeId = nodes[nodeId - 1]? := by
    rw [nodeAt, hvalid.nodes_eq, Option.getD_some]
  rw [witnessNodeRow, hnode, rowData]
  by_cases hzero : nodeId = mptNodeIdUnlinked
  · rw [if_pos hzero, if_pos (Or.inl hzero)]
    exact Or.inr ⟨rfl, rfl⟩
  · rw [if_neg hzero]
    cases hget : nodes[nodeId - 1]? with
    | none =>
      refine Or.inr ⟨rfl, ?_⟩
      split <;> rfl
    | some row =>
      have hlt := (List.getElem?_eq_some_iff.mp hget).1
      have hbound := hvalid.bound
      have hempty : nodeId ≠ mptNodeIdEmpty := by
        rintro rfl
        omega
      rw [if_neg (not_or.mpr ⟨hzero, hempty⟩)]
      exact Or.inl ⟨row, rfl, rfl, hlinked row (List.mem_of_getElem? hget), rfl⟩

theorem Readable.ne_empty (h : Readable keccak256 inputs data index table) {nodeId : NodeId}
    {e : List Byte} (he : data nodeId = some e) : nodeId ≠ mptNodeIdEmpty ∧ e ≠ [] := by
  rcases h.row nodeId with ⟨row, _, hdata, hlinked, hrow⟩ | ⟨hnone, _⟩
  · rw [hdata] at he
    cases he
    refine ⟨?_, hlinked.nonempty⟩
    rintro rfl
    rw [witnessNodeRow, if_pos (Or.inr rfl)] at hrow
    cases hrow
  · rw [hnone] at he
    cases he

theorem Readable.span (h : Readable keccak256 inputs data index table) {nodeId : NodeId}
    {e : List Byte} (he : data nodeId = some e) : mptNodeSpan table nodeId = .ok e := by
  rcases h.row nodeId with ⟨row, _, hdata, _, hrow⟩ | ⟨hnone, _⟩
  · rw [hdata] at he
    cases he
    rw [mptNodeSpan, if_neg (h.ne_empty hdata).1, hrow]
    rfl
  · rw [hnone] at he
    cases he

/-- A digest the index has leads to a row. -/
theorem Readable.indexed_row (h : Readable keccak256 inputs data index table) {digest : Hash}
    {nodeId : NodeId} (hindex : index digest = some nodeId) : ∃ e, data nodeId = some e := by
  obtain ⟨nodes, hvalid, rfl, _⟩ := h.rows
  rw [← h.index_eq, indexed, hvalid.nodes_eq, Option.getD_some] at hindex
  split at hindex
  · obtain ⟨hne, row, hget, _⟩ := lookup_indexEntries hindex
    refine ⟨row.data, ?_⟩
    rw [rowData, if_neg hne, hget, Option.map_some]
  · cases hindex

theorem Readable.updateRow (h : Readable keccak256 inputs data index table)
    {f : WitnessNode → WitnessNode} (hdata : ∀ row, (f row).data = row.data)
    (hdigest : ∀ row, (f row).digest = row.digest) {nodeId : NodeId}
    (hf : ∀ old, nodeAt table nodeId = some old → RowLinked data index (f old)) :
    Readable keccak256 inputs data index (updateRow table nodeId f) := by
  obtain ⟨nodes, hvalid, hrows, hlinked⟩ := h.rows
  refine ⟨⟨_, hvalid.updateRow hdata hdigest nodeId, by rw [rowData_modify hdata, hrows],
    fun row hrow => ?_⟩, by rw [indexed_updateRow hdigest, h.index_eq]⟩
  rcases mem_modify hrow with hrow | ⟨old, hold, rfl⟩
  · exact hlinked row hrow
  · refine hf old ?_
    rw [nodeAt, hvalid.nodes_eq, Option.getD_some, hold]

/-- Writing the right row to a child. -/
theorem Readable.stampChild (h : Readable keccak256 inputs data index table) {parent : NodeId}
    {row : WitnessNode} {node : DecodedNode} (hrow : nodeAt table parent = some row)
    (hnode : row.decoded = some node) {x : Nibble} {nodeId : NodeId}
    (hchild : ChildLinked data index { node.child x with nodeId }) :
    Readable keccak256 inputs data index (stampChild table parent x nodeId) := by
  rw [Optimised.stampChild]
  refine h.updateRow ?_ ?_ ?_
  · exact fun _ => rfl
  · exact fun _ => rfl
  intro old hold
  rw [hrow] at hold
  cases hold
  have hlinked : RowLinked data index row := by
    obtain ⟨nodes, hvalid, _, hall⟩ := h.rows
    rw [nodeAt, hvalid.nodes_eq, Option.getD_some] at hrow
    exact hall row (List.mem_of_getElem? hrow)
  obtain ⟨fresh, hfresh, hsame, hchildren⟩ := hlinked.cached node hnode
  refine ⟨hlinked.nonempty, fun hnone => ?_, fun cached hcached => ?_⟩
  · rw [hnode] at hnone
    cases hnone
  · rw [hnode] at hcached
    cases hcached
    refine ⟨fresh, hfresh, ⟨hsame.kind, hsame.path, hsame.value, fun y => ?_⟩, fun y => ?_⟩
    · dsimp only
      by_cases hy : y = x
      · rw [hy, Function.update_self]
        exact hsame.encoded x
      · rw [Function.update_of_ne hy]
        exact hsame.encoded y
    · dsimp only
      by_cases hy : y = x
      · rw [hy, Function.update_self]
        exact hchild
      · rw [Function.update_of_ne hy]
        exact hchildren y

/-- A row is decoded as its bytes are, cached or not. -/
theorem Readable.decode (h : Readable keccak256 inputs data index table) {nodeId : NodeId}
    {e : List Byte} (he : data nodeId = some e) :
    (mptDecodeTrustedStateNode e = none ∧
        mptDecodeCachedNode table nodeId = fatalError .rlpDecode) ∨
      ∃ node cached row, mptDecodeTrustedStateNode e = some node ∧ SameNode node cached ∧
        mptDecodeCachedNode table nodeId = .ok (cached, table) ∧
        nodeAt table nodeId = some row ∧ row.decoded = some cached ∧
        ∀ x, ChildLinked data index (cached.child x) := by
  rcases h.row nodeId with ⟨row, hrow, hdata, hlinked, hread⟩ | ⟨hnone, _⟩
  · rw [hdata] at he
    cases he
    rw [mptDecodeCachedNode, hread, ok_bind]
    cases hdecoded : row.decoded with
    | none =>
      have hnode := hlinked.malformed hdecoded
      rw [hnode]
      exact Or.inl ⟨rfl, rfl⟩
    | some cached =>
      obtain ⟨node, hnode, hsame, hchildren⟩ := hlinked.cached cached hdecoded
      exact Or.inr ⟨node, cached, row, hnode, hsame, rfl, hrow, hdecoded, hchildren⟩
  · rw [hnone] at he
    cases he

/-- What following a child gives: nothing for an empty one, the bytes it
embeds, or the bytes of the row of its digest. -/
inductive FollowedTo (data : NodeId → Option (List Byte)) (index : Hash → Option NodeId)
    (child : WitnessChild) : List Byte → NodeId → Prop
  | empty : child.encoded = none → FollowedTo data index child [] mptNodeIdEmpty
  | inline {e : List Byte} {nodeId : NodeId} : child.encoded = some e → e.length ≠ 32 →
      data nodeId = some e → FollowedTo data index child e nodeId
  | hashed {e : List Byte} {nodeId : NodeId} {digest : List Byte} :
      child.encoded = some digest → digest.length = 32 →
      index (hashFromBeBytes digest) = some nodeId → data nodeId = some e →
      FollowedTo data index child e nodeId

/-- A child is followed, by its link or for the first time, or its digest is
not witnessed. -/
theorem Readable.link (h : Readable keccak256 inputs data index table) {parent : NodeId}
    {row : WitnessNode} {node : DecodedNode} (hrow : nodeAt table parent = some row)
    (hnode : row.decoded = some node) {x : Nibble}
    (hchild : ChildLinked data index (node.child x)) :
    (∃ e nodeId table', mptLinkWitnessChild table parent node x = .ok ((e, nodeId), table') ∧
        FollowedTo data index (node.child x) e nodeId ∧
        Readable keccak256 inputs data index table') ∨
      mptLinkWitnessChild table parent node x = fatalError .witnessDeficient ∧
        ∃ digest, (node.child x).encoded = some digest ∧ digest.length = 32 ∧
          index (hashFromBeBytes digest) = none := by
  rw [mptLinkWitnessChild]
  cases hencoded : (node.child x).encoded with
  | none =>
    refine Or.inl ⟨_, _, _, rfl, .empty hencoded, h.stampChild hrow hnode fun e he => ?_⟩
    rw [hencoded] at he
    cases he
  | some reference =>
    have hlink := hchild reference hencoded
    have hkind := mptWitnessChildKind_eq hencoded
    dsimp only
    by_cases hlen : reference.length = 32
    · rw [if_pos hlen] at hlink hkind
      by_cases hunlinked : (node.child x).nodeId = mptNodeIdUnlinked
      · rw [if_neg (not_not.mpr hunlinked), hkind, if_neg nofun]
        obtain ⟨hanswer, hnext⟩ := h.lookup (hashFromBeBytes reference)
        have hrow' : nodeAt (mptNodeIndexLookup table (hashFromBeBytes reference)).2 parent =
            some row := hrow
        generalize mptNodeIndexLookup table (hashFromBeBytes reference) = answer
          at hanswer hnext hrow'
        obtain ⟨answer, table'⟩ := answer
        cases answer with
        | none => exact Or.inr ⟨rfl, reference, rfl, hlen, hanswer.symm⟩
        | some nodeId =>
          obtain ⟨e, he⟩ := hnext.indexed_row hanswer.symm
          dsimp only
          rw [hnext.span he]
          refine Or.inl ⟨e, nodeId, _, rfl, .hashed hencoded hlen hanswer.symm he,
            hnext.stampChild hrow' hnode fun e' he' => ?_⟩
          rw [hencoded] at he'
          cases he'
          rw [if_pos hlen]
          exact Or.inr hanswer.symm
      · have hindex := hlink.resolve_left hunlinked
        obtain ⟨e, he⟩ := h.indexed_row hindex
        rw [if_pos hunlinked, h.span he]
        exact Or.inl ⟨e, _, table, rfl, .hashed hencoded hlen hindex he, h⟩
    · rw [if_neg hlen] at hlink
      have hlinked : (node.child x).nodeId ≠ mptNodeIdUnlinked := by
        intro hzero
        rw [hzero] at hlink
        obtain ⟨nodes, _, rfl, _⟩ := h.rows
        rw [rowData, if_pos rfl] at hlink
        cases hlink
      rw [if_pos hlinked, h.span hlink]
      exact Or.inl ⟨reference, _, table, rfl, .inline hencoded hlen hlink, h⟩

end

end EvmSail.Optimised
