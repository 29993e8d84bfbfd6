/-
# `EvmSail.Optimised.WitnessNodes` — the table of witness nodes

The rows of the input nodes are appended to an open table.  Once they are
complete the table is sealed: a digest index over the rows is built by linear
probing, at most half full, and from then on digests are looked up in it.  The
last probe is memoised, found or not.

`WitnessNodeTable.Valid` is the invariant of every run of insertions, lookups
and the seal.  With it a lookup answers from the index alone, whatever was
asked before (`Valid.lookup_eq`), and the index answers with the first row of
the digest.
-/
import EvmSail.Lib.LinearProbe
import EvmSail.Optimised.WitnessRows

namespace EvmSail.Optimised

open Fallible

/-! ## The table -/

/-- `WitnessNodeTable`: no rows before the region is opened, row zero reserved.
The buckets hold the digest and the row of each entry. -/
structure WitnessNodeTable where
  nodes : Option (List WitnessNode)
  index : Nat → Option (Hash × NodeId)
  bucketCount : Nat
  sealed : Bool
  memo : Option (Hash × NodeId)

def mptNodeArenaReset : WitnessNodeTable where
  nodes := none
  index := fun _ => none
  bucketCount := 0
  sealed := false
  memo := none

def mptNodeArenaBegin (table : WitnessNodeTable) : WitnessNodeTable :=
  { table with nodes := some [] }

/-- `mpt_node_table_insert`; nothing on failure, which stops the program. -/
def mptNodeTableInsert (keccak256 : List Byte → Hash) (table : WitnessNodeTable) (digest : Hash)
    (encoded : List Byte) : Option WitnessNodeTable :=
  match table.nodes with
  | none => none
  | some nodes =>
    if encoded.length = 0 ∨ table.sealed then none
    else do
      let rows ← witnessAppend keccak256 (nodes.length + 1) digest encoded
      some { table with nodes := some (nodes ++ rows), memo := none }

/-- The first four bytes of a digest, as the hardware loads them. -/
def witnessDigestBucket (digest : Hash) : Nat := natOfBytes (digest.toList.take 4).reverse

/-- The number of buckets, doubled from one that is not zero. -/
def indexBucketCount (required bucketCount : Nat) (hpos : 0 < bucketCount) : Option Nat :=
  if bucketCount < required then
    if bucketCount > (2 ^ 32 - 1) / 2 then none
    else indexBucketCount required (bucketCount <<< 1) (by rw [Nat.shiftLeft_eq]; omega)
  else some bucketCount
termination_by required - bucketCount
decreasing_by
  rw [Nat.shiftLeft_eq]
  omega

/-- The rows by digest, numbered from one. -/
def indexEntries (nodes : List WitnessNode) : List (Hash × NodeId) :=
  (nodes.zipIdx 1).map fun (row, nodeId) => (row.digest, nodeId)

/-- `mpt_node_index_seal`. -/
def mptNodeIndexSeal (table : WitnessNodeTable) : Option WitnessNodeTable :=
  match table.nodes with
  | none => none
  | some nodes =>
    if table.sealed then none
    else
      let required := if nodes.length = 0 then 1 else 2 * nodes.length
      if required > 2 ^ 32 - 1 then none
      else do
        let bucketCount ← indexBucketCount required 1 Nat.one_pos
        let index ← (indexEntries nodes).foldlM (fun index (digest, nodeId) =>
          LinearProbe.insert bucketCount index digest nodeId bucketCount
            (witnessDigestBucket digest % bucketCount)) (fun _ => none)
        some { table with index, bucketCount, sealed := true, memo := none }

/-- `witness_index_probe`; the answer is left in the memo. -/
def witnessIndexProbe (table : WitnessNodeTable) (digest : Hash) : Hash × NodeId :=
  let probe : Hash × NodeId :=
    (digest, (LinearProbe.find table.bucketCount table.index digest table.bucketCount
      (witnessDigestBucket digest % table.bucketCount)).getD mptNodeIdUnlinked)
  match table.memo with
  | none => probe
  | some memo => if memo.1 = digest then memo else probe

def mptNodeIndexLookup (table : WitnessNodeTable) (digest : Hash) :
    Option NodeId × WitnessNodeTable :=
  let memo := witnessIndexProbe table digest
  (if memo.2 = mptNodeIdUnlinked then none else some memo.2, { table with memo := some memo })

/-- `nodes[node_id]`. -/
def nodeAt (table : WitnessNodeTable) (nodeId : NodeId) : Option WitnessNode :=
  (table.nodes.getD [])[nodeId - 1]?

def mptNodeIndexSpan (table : WitnessNodeTable) (digest : Hash) :
    Option (List Byte) × WitnessNodeTable :=
  let (nodeId, table) := mptNodeIndexLookup table digest
  (nodeId.bind fun nodeId => (nodeAt table nodeId).map WitnessNode.data, table)

/-- `mpt_index_witness_nodes`. -/
def mptIndexWitnessNodes (keccak256 : List Byte → Hash) (nodes : List (List Byte)) :
    Option WitnessNodeTable := do
  let table ← nodes.foldlM
    (fun table node => mptNodeTableInsert keccak256 table (keccak256 node) node)
    (mptNodeArenaBegin mptNodeArenaReset)
  mptNodeIndexSeal table

/-- An insertion into an open table fails exactly on the empty node and where
its rows are too many. -/
theorem mptNodeTableInsert_spec (keccak256 : List Byte → Hash) {table : WitnessNodeTable}
    {nodes : List WitnessNode} (hnodes : table.nodes = some nodes) (hopen : table.sealed = false)
    (hbound : nodes.length + 1 ≤ mptNodeIdEmpty) (digest : Hash) (encoded : List Byte) :
    (mptNodeTableInsert keccak256 table digest encoded = none ↔
      encoded.length = 0 ∨ mptNodeIdEmpty < nodes.length + 1 + witnessRows encoded) ∧
      ∀ table', mptNodeTableInsert keccak256 table digest encoded = some table' →
        ∃ rows, witnessAppend keccak256 (nodes.length + 1) digest encoded = some rows ∧
          nodes.length + 1 + rows.length ≤ mptNodeIdEmpty ∧ rows.length = witnessRows encoded ∧
          table' = { table with nodes := some (nodes ++ rows), memo := none } := by
  have hfits := witnessAppend_fits keccak256 hbound digest encoded
  rw [mptNodeTableInsert, hnodes, hopen]
  dsimp only
  by_cases hempty : encoded.length = 0
  · rw [if_pos (Or.inl hempty)]
    exact ⟨iff_of_true rfl (Or.inl hempty), by intro table' h; cases h⟩
  · rw [if_neg (by simp [hempty])]
    rw [Fits] at hfits
    split at hfits
    · rename_i hlt
      rw [hfits]
      exact ⟨iff_of_true rfl (Or.inr hlt), by intro table' h; cases h⟩
    · rename_i hge
      obtain ⟨rows, hrows, hlen⟩ := hfits
      rw [hrows]
      refine ⟨iff_of_false (Option.some_ne_none _) (not_or.mpr ⟨hempty, hge⟩), fun table' h => ?_⟩
      cases h
      exact ⟨rows, rfl, by omega, hlen, rfl⟩

/-! ## The index -/

theorem lookup_indexEntries {nodes : List WitnessNode} {digest : Hash} {nodeId : NodeId}
    (h : (indexEntries nodes).lookup digest = some nodeId) :
    nodeId ≠ mptNodeIdUnlinked ∧ ∃ row, nodes[nodeId - 1]? = some row ∧ row.digest = digest := by
  obtain ⟨l₁, l₂, hsplit, _⟩ := List.lookup_eq_some_iff.mp h
  have hmem : (digest, nodeId) ∈ indexEntries nodes := by
    rw [hsplit]
    exact List.mem_append_right _ List.mem_cons_self
  obtain ⟨⟨row, i⟩, hrow, heq⟩ := List.mem_map.mp hmem
  cases heq
  obtain ⟨hpos, hget⟩ := List.mk_mem_zipIdx_iff_le_and_getElem?_sub.mp hrow
  exact ⟨Nat.ne_of_gt hpos, row, hget, rfl⟩

theorem exists_lookup_indexEntries {nodes : List WitnessNode} {digest : Hash} :
    (∃ nodeId, (indexEntries nodes).lookup digest = some nodeId) ↔
      ∃ row ∈ nodes, row.digest = digest := by
  constructor
  · rintro ⟨nodeId, h⟩
    obtain ⟨_, row, hget, hdigest⟩ := lookup_indexEntries h
    exact ⟨row, List.mem_of_getElem? hget, hdigest⟩
  · rintro ⟨row, hrow, rfl⟩
    refine Option.ne_none_iff_exists'.mp fun hnone => ?_
    obtain ⟨i, hget⟩ := List.mem_iff_getElem?.mp hrow
    have hmem : (row, i + 1) ∈ nodes.zipIdx 1 :=
      List.mk_mem_zipIdx_iff_le_and_getElem?_sub.mpr ⟨Nat.le_add_left 1 i, hget⟩
    have hne := List.lookup_eq_none_iff.mp hnone (row.digest, i + 1)
      (List.mem_map.mpr ⟨_, hmem, rfl⟩)
    exact (bne_iff_ne.mp hne) rfl

theorem indexBucketCount_pow (required k : Nat) (hk : k ≤ 31) (hpos : 0 < 2 ^ k) :
    (indexBucketCount required (2 ^ k) hpos = none ↔ 2 ^ 31 < required) ∧
      ∀ bucketCount, indexBucketCount required (2 ^ k) hpos = some bucketCount →
        0 < bucketCount ∧ required ≤ bucketCount := by
  have hle : 2 ^ k ≤ 2 ^ 31 := Nat.pow_le_pow_right (by decide) hk
  induction hn : 31 - k generalizing k with
  | zero =>
    obtain rfl : k = 31 := by omega
    rw [indexBucketCount]
    split
    · rename_i hlt
      rw [if_pos (by omega)]
      exact ⟨iff_of_true rfl hlt, nofun⟩
    · rename_i hge
      refine ⟨iff_of_false nofun hge, fun bucketCount h => ?_⟩
      cases h
      exact ⟨hpos, Nat.le_of_not_lt hge⟩
  | succ n ih =>
    have hstep : 2 ^ k <<< 1 = 2 ^ (k + 1) := Nat.shiftLeft_eq (2 ^ k) 1
    have hlt : 2 ^ k < 2 ^ 31 := Nat.pow_lt_pow_right (by decide) (by omega)
    rw [indexBucketCount]
    split
    · rw [if_neg (by omega)]
      simp only [hstep]
      exact ih (k + 1) (by omega) (Nat.two_pow_pos _)
        (Nat.pow_le_pow_right (by decide) (by omega)) (by omega)
    · rename_i hge
      refine ⟨iff_of_false nofun (by omega), fun bucketCount h => ?_⟩
      cases h
      exact ⟨hpos, Nat.le_of_not_lt hge⟩

/-- The seal succeeds at every load the capacity check admits, and the index
then holds the first row of every digest. -/
theorem mptNodeIndexSeal_spec {table : WitnessNodeTable} {nodes : List WitnessNode}
    (hnodes : table.nodes = some nodes) (hopen : table.sealed = false) :
    (mptNodeIndexSeal table = none ↔ 2 ^ 30 < nodes.length) ∧
      ∀ table', mptNodeIndexSeal table = some table' →
        ∃ index bucketCount, 0 < bucketCount ∧
          LinearProbe.Represents bucketCount witnessDigestBucket index (indexEntries nodes) ∧
          table' = { table with index, bucketCount, sealed := true, memo := none } := by
  rw [mptNodeIndexSeal, hnodes, hopen]
  dsimp only
  rw [if_neg Bool.false_ne_true]
  generalize hrequired : (if nodes.length = 0 then 1 else 2 * nodes.length) = required
  have hbound : nodes.length < required ∧ (2 ^ 31 < required ↔ 2 ^ 30 < nodes.length) := by
    rw [← hrequired]
    split <;> omega
  split
  · exact ⟨iff_of_true rfl (by omega), nofun⟩
  · obtain ⟨hnone, hsome⟩ : (indexBucketCount required 1 Nat.one_pos = none ↔ 2 ^ 31 < required) ∧
        ∀ bucketCount, indexBucketCount required 1 Nat.one_pos = some bucketCount →
          0 < bucketCount ∧ required ≤ bucketCount :=
      indexBucketCount_pow required 0 (by decide) Nat.one_pos
    cases hcount : indexBucketCount required 1 Nat.one_pos with
    | none => exact ⟨iff_of_true rfl (hbound.2.mp (hnone.mp hcount)), nofun⟩
    | some bucketCount =>
      obtain ⟨hpos, hle⟩ := hsome bucketCount hcount
      have hlen : (indexEntries nodes).length = nodes.length := by
        rw [indexEntries, List.length_map, List.length_zipIdx]
      have hroom : ([] : List (Hash × NodeId)).length + (indexEntries nodes).length ≤
          bucketCount := by
        rw [hlen, List.length_nil]
        omega
      obtain ⟨index, hindex, hrep⟩ := (LinearProbe.represents_nil bucketCount
        witnessDigestBucket).insertAll hroom
      rw [List.nil_append] at hrep
      have hfits : ¬ 2 ^ 30 < nodes.length := by
        rw [← hbound.2, ← hnone, hcount]
        exact nofun
      simp only [Option.bind_eq_bind, Option.bind_some, hindex]
      refine ⟨iff_of_false nofun hfits, fun table' h => ?_⟩
      cases h
      exact ⟨index, bucketCount, hpos, hrep, rfl⟩

/-! ## Every run of the table -/

/-- The tables the operations lead to, with the nodes inserted. -/
inductive TableRun (keccak256 : List Byte → Hash) : List (List Byte) → WitnessNodeTable → Prop
  | begin : TableRun keccak256 [] (mptNodeArenaBegin mptNodeArenaReset)
  | insert {inputs table table'} (encoded : List Byte) : TableRun keccak256 inputs table →
      mptNodeTableInsert keccak256 table (keccak256 encoded) encoded = some table' →
      TableRun keccak256 (inputs ++ [encoded]) table'
  | lookup {inputs table} (digest : Hash) : TableRun keccak256 inputs table →
      TableRun keccak256 inputs (mptNodeIndexLookup table digest).2
  | sealed {inputs table table'} : TableRun keccak256 inputs table →
      mptNodeIndexSeal table = some table' → TableRun keccak256 inputs table'

/-- What the index answers: nothing before the seal. -/
def indexed (table : WitnessNodeTable) (digest : Hash) : Option NodeId :=
  if table.sealed then (indexEntries (table.nodes.getD [])).lookup digest else none

/-- The invariant: the rows are those registered for the inputs, the index is
theirs, and the memo holds an answer of the index. -/
structure WitnessNodeTable.Valid (keccak256 : List Byte → Hash) (inputs : List (List Byte))
    (nodes : List WitnessNode) (table : WitnessNodeTable) : Prop where
  nodes_eq : table.nodes = some nodes
  bound : nodes.length + 1 ≤ mptNodeIdEmpty
  registered : ∀ bytes, (∃ row ∈ nodes, row.data = bytes) ↔
    ∃ node ∈ inputs, Registered node bytes
  digest : ∀ row ∈ nodes, row.digest = keccak256 row.data
  buckets : if table.sealed then
      0 < table.bucketCount ∧ LinearProbe.Represents table.bucketCount witnessDigestBucket
        table.index (indexEntries nodes)
    else table.bucketCount = 0
  memo : ∀ digest nodeId, table.memo = some (digest, nodeId) →
    nodeId = (indexed table digest).getD mptNodeIdUnlinked

namespace WitnessNodeTable

variable {keccak256 : List Byte → Hash} {inputs : List (List Byte)} {nodes : List WitnessNode}
  {table : WitnessNodeTable}

/-- The memo never answers for another digest, nor differently. -/
theorem Valid.probe_eq (h : Valid keccak256 inputs nodes table) (digest : Hash) :
    witnessIndexProbe table digest =
      (digest, (indexed table digest).getD mptNodeIdUnlinked) := by
  have hfind : LinearProbe.find table.bucketCount table.index digest table.bucketCount
      (witnessDigestBucket digest % table.bucketCount) = indexed table digest := by
    have hbuckets := h.buckets
    rw [indexed, h.nodes_eq, Option.getD_some]
    split at hbuckets
    · rename_i hsealed
      rw [if_pos hsealed]
      exact LinearProbe.find_eq hbuckets.2 hbuckets.1 digest
    · rename_i hsealed
      rw [if_neg hsealed, hbuckets]
      rfl
  rw [witnessIndexProbe, hfind]
  cases hmemo : table.memo with
  | none => rfl
  | some memo =>
    dsimp only
    split
    · rename_i heq
      rw [← heq, ← h.memo memo.1 memo.2 hmemo]
    · rfl

theorem indexed_ne (digest : Hash) : indexed table digest ≠ some mptNodeIdUnlinked := by
  intro h
  rw [indexed] at h
  split at h
  · exact (lookup_indexEntries h).1 rfl
  · cases h

/-- A lookup answers from the index alone. -/
theorem Valid.lookup_eq (h : Valid keccak256 inputs nodes table) (digest : Hash) :
    mptNodeIndexLookup table digest = (indexed table digest,
      { table with memo := some (digest, (indexed table digest).getD mptNodeIdUnlinked) }) := by
  rw [mptNodeIndexLookup, h.probe_eq]
  refine Prod.ext ?_ rfl
  cases hindexed : indexed table digest with
  | none => rfl
  | some nodeId =>
    have hne : nodeId ≠ mptNodeIdUnlinked := fun heq => indexed_ne digest (heq ▸ hindexed)
    exact if_neg hne

theorem Valid.lookup (h : Valid keccak256 inputs nodes table) (digest : Hash) :
    Valid keccak256 inputs nodes (mptNodeIndexLookup table digest).2 := by
  rw [h.lookup_eq]
  refine ⟨h.nodes_eq, h.bound, h.registered, h.digest, h.buckets, fun digest' nodeId hmemo => ?_⟩
  cases hmemo
  rfl

theorem valid_begin : Valid keccak256 [] [] (mptNodeArenaBegin mptNodeArenaReset) where
  nodes_eq := rfl
  bound := by decide
  registered bytes := by simp
  digest := nofun
  buckets := rfl
  memo := nofun

theorem Valid.insert (h : Valid keccak256 inputs nodes table) {encoded : List Byte}
    {table' : WitnessNodeTable}
    (hinsert : mptNodeTableInsert keccak256 table (keccak256 encoded) encoded = some table') :
    ∃ rows, Valid keccak256 (inputs ++ [encoded]) (nodes ++ rows) table' := by
  have hopen : table.sealed = false := by
    by_contra hsealed
    rw [mptNodeTableInsert, h.nodes_eq] at hinsert
    dsimp only at hinsert
    rw [if_pos (Or.inr (Bool.not_eq_false _ ▸ hsealed))] at hinsert
    cases hinsert
  obtain ⟨rows, hrows, hbound, -, rfl⟩ :=
    (mptNodeTableInsert_spec keccak256 h.nodes_eq hopen h.bound _ _).2 table' hinsert
  have hbuckets := h.buckets
  rw [hopen, if_neg Bool.false_ne_true] at hbuckets
  refine ⟨rows, rfl, ?_, fun bytes => ?_, fun row hrow => ?_, ?_, nofun⟩
  · rw [List.length_append]
    omega
  · have hnew := witnessAppend_registered hrows bytes
    have hold := h.registered bytes
    constructor
    · rintro ⟨row, hrow, hdata⟩
      rcases List.mem_append.mp hrow with hrow | hrow
      · obtain ⟨node, hnode, hreg⟩ := hold.mp ⟨row, hrow, hdata⟩
        exact ⟨node, List.mem_append_left _ hnode, hreg⟩
      · exact ⟨encoded, List.mem_append_right _ (List.mem_singleton_self _),
          hnew.mp ⟨row, hrow, hdata⟩⟩
    · rintro ⟨node, hnode, hreg⟩
      rcases List.mem_append.mp hnode with hnode | hnode
      · obtain ⟨row, hrow, hdata⟩ := hold.mpr ⟨node, hnode, hreg⟩
        exact ⟨row, List.mem_append_left _ hrow, hdata⟩
      · rw [List.mem_singleton.mp hnode] at hreg
        obtain ⟨row, hrow, hdata⟩ := hnew.mpr hreg
        exact ⟨row, List.mem_append_right _ hrow, hdata⟩
  · rcases List.mem_append.mp hrow with hrow | hrow
    · exact h.digest row hrow
    · exact witnessAppend_digest hrows rfl row hrow
  · dsimp only
    rw [hopen, if_neg Bool.false_ne_true]
    exact hbuckets

theorem Valid.seal (h : Valid keccak256 inputs nodes table) {table' : WitnessNodeTable}
    (hseal : mptNodeIndexSeal table = some table') :
    table'.sealed = true ∧ Valid keccak256 inputs nodes table' := by
  have hopen : table.sealed = false := by
    by_contra hsealed
    rw [mptNodeIndexSeal, h.nodes_eq] at hseal
    dsimp only at hseal
    rw [if_pos (Bool.not_eq_false _ ▸ hsealed)] at hseal
    cases hseal
  obtain ⟨index, bucketCount, hpos, hrep, rfl⟩ :=
    (mptNodeIndexSeal_spec h.nodes_eq hopen).2 table' hseal
  exact ⟨rfl, h.nodes_eq, h.bound, h.registered, h.digest, ⟨hpos, hrep⟩, nofun⟩

end WitnessNodeTable

theorem TableRun.valid {keccak256 : List Byte → Hash} {inputs : List (List Byte)}
    {table : WitnessNodeTable} (h : TableRun keccak256 inputs table) :
    ∃ nodes, table.Valid keccak256 inputs nodes := by
  induction h with
  | begin => exact ⟨[], WitnessNodeTable.valid_begin⟩
  | insert encoded _ hinsert ih =>
    obtain ⟨nodes, hvalid⟩ := ih
    obtain ⟨rows, hvalid'⟩ := hvalid.insert hinsert
    exact ⟨nodes ++ rows, hvalid'⟩
  | lookup digest _ ih =>
    obtain ⟨nodes, hvalid⟩ := ih
    exact ⟨nodes, hvalid.lookup digest⟩
  | sealed _ hseal ih =>
    obtain ⟨nodes, hvalid⟩ := ih
    exact ⟨nodes, (hvalid.seal hseal).2⟩

/-- The one-call indexing is such a run. -/
theorem mptIndexWitnessNodes_run {keccak256 : List Byte → Hash} {nodes : List (List Byte)}
    {table : WitnessNodeTable} (h : mptIndexWitnessNodes keccak256 nodes = some table) :
    TableRun keccak256 nodes table ∧ table.sealed = true := by
  obtain ⟨opened, hfold, hseal⟩ := Option.bind_eq_some_iff.mp h
  have hrun : TableRun keccak256 nodes opened := by
    clear hseal h
    induction nodes using List.reverseRecOn generalizing opened with
    | nil =>
      cases hfold
      exact .begin
    | append_singleton nodes node ih =>
      rw [List.foldlM_append] at hfold
      obtain ⟨before, hbefore, hlast⟩ := Option.bind_eq_some_iff.mp hfold
      rw [List.foldlM_cons] at hlast
      obtain ⟨after, hinsert, hend⟩ := Option.bind_eq_some_iff.mp hlast
      cases hend
      exact .insert node (ih before hbefore) hinsert
  obtain ⟨_, hvalid⟩ := hrun.valid
  exact ⟨.sealed hrun hseal, (hvalid.seal hseal).1⟩

/-- A map from digests to nodes: insertions and the seal succeed whenever the
rows fit, a sealed table finds the digests of the nodes registered for the inputs and
returns bytes with that digest, the node itself where no two of them collide,
and what was asked before does not matter. -/
structure ContentAddressed (keccak256 : List Byte → Hash) (inputs : List (List Byte))
    (table : WitnessNodeTable) : Prop where
  inserts : table.sealed = false → ∀ encoded,
    (mptNodeTableInsert keccak256 table (keccak256 encoded) encoded = none ↔
      encoded.length = 0 ∨
        mptNodeIdEmpty < (table.nodes.getD []).length + 1 + witnessRows encoded)
  seals : table.sealed = false →
    (mptNodeIndexSeal table = none ↔ 2 ^ 30 < (table.nodes.getD []).length)
  found : table.sealed = true → ∀ digest,
    (∃ nodeId, (mptNodeIndexLookup table digest).1 = some nodeId) ↔
      ∃ node ∈ inputs, ∃ bytes, Registered node bytes ∧ keccak256 bytes = digest
  row : ∀ digest nodeId, (mptNodeIndexLookup table digest).1 = some nodeId →
    ∃ row, nodeAt table nodeId = some row ∧ keccak256 row.data = digest ∧
      (mptNodeIndexSpan table digest).1 = some row.data ∧
      ∃ node ∈ inputs, Registered node row.data
  bytes : table.sealed = true →
    (∀ node ∈ inputs, ∀ node' ∈ inputs, ∀ bytes bytes', Registered node bytes →
      Registered node' bytes' → keccak256 bytes = keccak256 bytes' → bytes = bytes') →
    ∀ node ∈ inputs, ∀ bytes, Registered node bytes →
      (mptNodeIndexSpan table (keccak256 bytes)).1 = some bytes
  memo : ∀ digest, (mptNodeIndexLookup table digest).1 =
      (mptNodeIndexLookup { table with memo := none } digest).1 ∧
    ∃ nodeId, (mptNodeIndexLookup table digest).2.memo = some (digest, nodeId)

/-- Whatever was inserted and asked, in whatever order. -/
theorem witnessNodeTable_contentAddressed {keccak256 : List Byte → Hash}
    {inputs : List (List Byte)} {table : WitnessNodeTable}
    (h : TableRun keccak256 inputs table) : ContentAddressed keccak256 inputs table := by
  obtain ⟨nodes, hvalid⟩ := h.valid
  have hnodes : table.nodes.getD [] = nodes := by rw [hvalid.nodes_eq, Option.getD_some]
  have hfound : table.sealed = true → ∀ digest,
      (∃ nodeId, (mptNodeIndexLookup table digest).1 = some nodeId) ↔
        ∃ node ∈ inputs, ∃ bytes, Registered node bytes ∧ keccak256 bytes = digest := by
    intro hsealed digest
    rw [hvalid.lookup_eq, indexed, if_pos hsealed, hnodes, exists_lookup_indexEntries]
    constructor
    · rintro ⟨row, hrow, hdigest⟩
      obtain ⟨node, hnode, hreg⟩ := (hvalid.registered row.data).mp ⟨row, hrow, rfl⟩
      exact ⟨node, hnode, row.data, hreg, (hvalid.digest row hrow).symm.trans hdigest⟩
    · rintro ⟨node, hnode, bytes, hreg, hdigest⟩
      obtain ⟨row, hrow, hdata⟩ := (hvalid.registered bytes).mpr ⟨node, hnode, hreg⟩
      refine ⟨row, hrow, ?_⟩
      rw [hvalid.digest row hrow, hdata, hdigest]
  have hrow : ∀ digest nodeId, (mptNodeIndexLookup table digest).1 = some nodeId →
      ∃ row, nodeAt table nodeId = some row ∧ keccak256 row.data = digest ∧
        (mptNodeIndexSpan table digest).1 = some row.data ∧
        ∃ node ∈ inputs, Registered node row.data := by
    intro digest nodeId hlookup
    have hindexed : indexed table digest = some nodeId := by rwa [hvalid.lookup_eq] at hlookup
    have hentry := hindexed
    rw [indexed, hnodes] at hentry
    split at hentry
    · obtain ⟨_, row, hget, hdigest⟩ := lookup_indexEntries hentry
      have hrow := List.mem_of_getElem? hget
      refine ⟨row, ?_, ?_, ?_, (hvalid.registered row.data).mp ⟨row, hrow, rfl⟩⟩
      · rw [nodeAt, hnodes, hget]
      · rw [← hvalid.digest row hrow, hdigest]
      · rw [mptNodeIndexSpan, hvalid.lookup_eq, hindexed]
        dsimp only
        rw [Option.bind_some, nodeAt, hnodes, hget, Option.map_some]
    · cases hentry
  refine ⟨fun hopen encoded => ?_, fun hopen => ?_, hfound, hrow,
    fun hsealed hfree node hnode bytes hreg => ?_, fun digest => ?_⟩
  · rw [hnodes]
    exact (mptNodeTableInsert_spec keccak256 hvalid.nodes_eq hopen hvalid.bound _ encoded).1
  · rw [hnodes]
    exact (mptNodeIndexSeal_spec hvalid.nodes_eq hopen).1
  · obtain ⟨nodeId, hlookup⟩ :=
      (hfound hsealed (keccak256 bytes)).mpr ⟨node, hnode, bytes, hreg, rfl⟩
    obtain ⟨row, _, hdigest, hspan, node', hnode', hreg'⟩ := hrow _ nodeId hlookup
    rw [hspan, hfree node' hnode' node hnode row.data bytes hreg' hreg hdigest]
  · have hcleared : WitnessNodeTable.Valid keccak256 inputs nodes { table with memo := none } :=
      ⟨hvalid.nodes_eq, hvalid.bound, hvalid.registered, hvalid.digest, hvalid.buckets, nofun⟩
    refine ⟨?_, (indexed table digest).getD mptNodeIdUnlinked, ?_⟩
    · rw [hvalid.lookup_eq, hcleared.lookup_eq]
      rfl
    · rw [hvalid.lookup_eq]

/-! ### An extension with its leaf embedded, twice, and a node that does not decode -/

section

def embeddedLeaf : List Byte := [0xc2, 0x31, 0x05]
def embeddingExtension : List Byte := 0xc4 :: 0x11 :: embeddedLeaf
def malformedNode : List Byte := [0xff]
def toyKeccak (bytes : List Byte) : Hash := hashFromBits (natOfBytes bytes)

theorem witnessRows_embeddingExtension : witnessRows embeddingExtension = 2 := by
  have hleaf : (mptDecodeTrustedStateNode embeddedLeaf).map DecodedNode.kind = some .leaf := by
    decide
  have hextension : (mptDecodeTrustedStateNode embeddingExtension).map
      (fun node => (node.kind, inlineChild (node.child 0))) =
        some (.extension, some embeddedLeaf) := by
    decide
  obtain ⟨leaf, hleaf, hleafKind⟩ := Option.map_eq_some_iff.mp hleaf
  obtain ⟨node, hnode, hfields⟩ := Option.map_eq_some_iff.mp hextension
  obtain ⟨hkind, hchild⟩ := Prod.mk.inj hfields
  have hvisited : visitedChildren .extension = [0] := by decide
  rw [witnessRows_node hnode, hkind, hvisited, List.map_singleton, childRows, hchild,
    List.sum_singleton]
  dsimp only
  rw [witnessRows_node hleaf, hleafKind]
  rfl

theorem witnessRows_malformedNode : witnessRows malformedNode = 1 := by
  have hmalformed : (mptDecodeTrustedStateNode malformedNode).isNone = true := by decide
  exact witnessRows_malformed (Option.isNone_iff_eq_none.mp hmalformed)

/-- An open table with room takes one more node. -/
theorem exists_insert {inputs : List (List Byte)} {table : WitnessNodeTable}
    (h : TableRun toyKeccak inputs table) (hopen : table.sealed = false) (encoded : List Byte)
    (hne : encoded.length ≠ 0)
    (hroom : (table.nodes.getD []).length + 1 + witnessRows encoded ≤ mptNodeIdEmpty) :
    ∃ table', TableRun toyKeccak (inputs ++ [encoded]) table' ∧ table'.sealed = false ∧
      (table'.nodes.getD []).length = (table.nodes.getD []).length + witnessRows encoded := by
  obtain ⟨nodes, hvalid⟩ := h.valid
  rw [hvalid.nodes_eq, Option.getD_some] at hroom ⊢
  obtain ⟨hnone, hsome⟩ := mptNodeTableInsert_spec toyKeccak hvalid.nodes_eq hopen hvalid.bound
    (toyKeccak encoded) encoded
  cases hinsert : mptNodeTableInsert toyKeccak table (toyKeccak encoded) encoded with
  | none => exact absurd (hnone.mp hinsert) (by omega)
  | some table' =>
    obtain ⟨rows, _, _, hlen, rfl⟩ := hsome table' hinsert
    refine ⟨_, .insert encoded h hinsert, hopen, ?_⟩
    rw [Option.getD_some, List.length_append, hlen]

theorem witnessNodeTable_contentAddressed_threeNodes :
    ∃ table, TableRun toyKeccak [embeddingExtension, malformedNode, embeddingExtension] table ∧
      table.sealed = true ∧ (table.nodes.getD []).length = 5 ∧
      ContentAddressed toyKeccak [embeddingExtension, malformedNode, embeddingExtension] table := by
  have hmax : mptNodeIdEmpty = 2 ^ 32 - 1 := rfl
  have hempty : ((mptNodeArenaBegin mptNodeArenaReset).nodes.getD []).length = 0 := rfl
  obtain ⟨first, hfirst, hopen, hlen⟩ := exists_insert .begin rfl embeddingExtension
    (by decide) (by rw [hempty, witnessRows_embeddingExtension]; omega)
  rw [hempty, witnessRows_embeddingExtension] at hlen
  obtain ⟨second, hsecond, hopen, hlen₂⟩ := exists_insert hfirst hopen malformedNode
    (by decide) (by rw [hlen, witnessRows_malformedNode]; omega)
  rw [hlen, witnessRows_malformedNode] at hlen₂
  obtain ⟨third, hthird, hopen, hlen₃⟩ := exists_insert hsecond hopen embeddingExtension
    (by decide)
    (by rw [hlen₂, witnessRows_embeddingExtension]; omega)
  rw [hlen₂, witnessRows_embeddingExtension] at hlen₃
  cases hseal : mptNodeIndexSeal third with
  | none =>
    have hfull := ((witnessNodeTable_contentAddressed hthird).seals hopen).mp hseal
    rw [hlen₃] at hfull
    exact absurd hfull (by decide)
  | some table =>
    obtain ⟨nodes, hvalid⟩ := hthird.valid
    have hsealed := hvalid.seal hseal
    refine ⟨table, .sealed hthird hseal, hsealed.1, ?_,
      witnessNodeTable_contentAddressed (.sealed hthird hseal)⟩
    rw [hvalid.nodes_eq, Option.getD_some] at hlen₃
    rw [hsealed.2.nodes_eq, Option.getD_some, hlen₃]

end

end EvmSail.Optimised
