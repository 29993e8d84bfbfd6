/-
# `EvmSail.Optimised.HashTreeRoot` — roots from a frontier

The optimised root of a tree does not recurse.  Its leaves are pushed one
at a time to an accumulator that keeps one node for every level and the
number of leaves; the root is taken by closing the levels from the lowest
on.  Both loops are those of `Merkle`, so behind any leaves the accumulator
holds their frontier (`Behind.push`) and its root is that of the streamed
recursion, with the same constants for empty parts
(`htrSubtree_accumulator`).

The request lists are read by one driver with a table of widths and
depths.  It returns nothing where the recursion stops.
-/
import EvmSail.Lib.MerkleFrontier
import EvmSail.Ssz.HashTreeRootSound

namespace EvmSail.Optimised

open Fallible

/-! ## The accumulator -/

/-- `struct htr_accumulator`. -/
structure HtrAccumulator where
  frontier : Vector Hash 26
  count : Nat
  depth : Nat
  deriving DecidableEq

/-- The node that stands at a level. -/
def HtrAccumulator.node (acc : HtrAccumulator) (level : Nat) : Hash :=
  acc.frontier[level]?.getD zeroHash

def htrAccumulatorInit (depth : Nat) : HtrAccumulator := ⟨Vector.replicate 26 zeroHash, 0, depth⟩

section

variable (sha256Pair : Hash → Hash → Hash)

/-- The `while` loop is `Merkle.climb`. -/
def htrAccumulatorPush (acc : HtrAccumulator) (leaf : Hash) : HtrAccumulator :=
  let (level, carry) := Merkle.climb sha256Pair acc.node acc.count 0 leaf
  { acc with
    frontier := acc.frontier.setIfInBounds level carry
    count := acc.count + 1 }

/-- The locals of the loop of `htr_accumulator_root`. -/
structure RootLoop where
  remaining : Nat
  right : Hash
  hasRight : Bool

def htrRootLevel (acc : HtrAccumulator) (s : RootLoop) (level : Nat) : RootLoop :=
  let occupied := s.remaining % 2 == 1
  let next :=
    if occupied then
      sha256Pair (acc.node level) (if s.hasRight then s.right else sszZeroHash level)
    else if s.hasRight then sha256Pair s.right (sszZeroHash level)
    else zeroHash
  { remaining := s.remaining / 2
    right := if occupied || s.hasRight then next else s.right
    hasRight := s.hasRight || occupied }

def htrAccumulatorRoot (acc : HtrAccumulator) : Hash :=
  let s := (List.range acc.depth).foldl (htrRootLevel sha256Pair acc) ⟨acc.count, zeroHash, false⟩
  if s.remaining = 1 then acc.node acc.depth
  else if s.hasRight then s.right
  else sszZeroHash acc.depth

def htrMerkleize (leaves : List Hash) (depth : Nat) : Hash :=
  htrAccumulatorRoot sha256Pair
    (leaves.foldl (htrAccumulatorPush sha256Pair) (htrAccumulatorInit depth))

def htrMixInLength (root : Hash) (len : Nat) : Hash := sha256Pair root (htrUint len)

def clog2Loop (remaining depth : Nat) : Nat :=
  if remaining ≠ 0 then clog2Loop (remaining / 2) (depth + 1) else depth
termination_by remaining
decreasing_by omega

def htrClog2 (n : Nat) : Nat := clog2Loop (if n = 0 then 0 else n - 1) 0

/-! ## Byte sequences

A pointer into a span is what the span has from there on. -/

/-- The first `n` bytes, on a cleared chunk. -/
def copyBytes (bytes : List Byte) (n : Nat) : Hash := chunkOf (bytes.take n)

def htrBytes32 (bytes : List Byte) : Hash := copyBytes bytes 32

def htrUint64 (bytes : List Byte) : Hash := copyBytes bytes 8

def htrAddress (bytes : List Byte) : Hash := copyBytes bytes 20

/-- The chunk of round `i`. -/
def htrBytesChunk (bytes : List Byte) (len i : Nat) : Hash :=
  let off := i * 32
  let available := len - off
  copyBytes (bytes.drop off) (if available < 32 then available else 32)

def htrBytesRoot (bytes : List Byte) (len depth : Nat) : Hash :=
  htrAccumulatorRoot sha256Pair
    ((List.range ((len + 31) / 32)).foldl
      (fun acc i => htrAccumulatorPush sha256Pair acc (htrBytesChunk bytes len i))
      (htrAccumulatorInit depth))

/-- `htr_bytelist`, the only place where the limit of a byte list is tested. -/
def htrBytelist (bytes : List Byte) (len limitBytes : Nat) : Option Hash :=
  if len > limitBytes then none
  else
    let capacityChunks := (limitBytes + 31) / 32
    let root := htrBytesRoot sha256Pair bytes len (htrClog2 capacityChunks)
    some (htrMixInLength sha256Pair root len)

def htrFixedBytevector (bytes : List Byte) (len : Nat) : Hash :=
  htrBytesRoot sha256Pair bytes len (htrClog2 ((len + 31) / 32))

def htrLoadU32 (bytes : List Byte) : Nat :=
  (sliceByte bytes 0).toNat + (sliceByte bytes 1).toNat * 2 ^ 8 +
    (sliceByte bytes 2).toNat * 2 ^ 16 + (sliceByte bytes 3).toNat * 2 ^ 24

/-! ## Items -/

def htrWithdrawal (bytes : List Byte) : Hash :=
  htrMerkleize sha256Pair
    [htrUint64 bytes, htrUint64 (bytes.drop 8), htrAddress (bytes.drop 16),
      htrUint64 (bytes.drop 36)] 2

def htrDeposit (bytes : List Byte) : Hash :=
  htrMerkleize sha256Pair
    [htrFixedBytevector sha256Pair bytes 48, htrBytes32 (bytes.drop 48), htrUint64 (bytes.drop 80),
      htrFixedBytevector sha256Pair (bytes.drop 88) 96, htrUint64 (bytes.drop 184)] 3

def htrWithdrawalRequest (bytes : List Byte) : Hash :=
  htrMerkleize sha256Pair
    [htrAddress bytes, htrFixedBytevector sha256Pair (bytes.drop 20) 48,
      htrUint64 (bytes.drop 68)] 2

def htrConsolidationRequest (bytes : List Byte) : Hash :=
  htrMerkleize sha256Pair
    [htrAddress bytes, htrFixedBytevector sha256Pair (bytes.drop 20) 48,
      htrFixedBytevector sha256Pair (bytes.drop 68) 48] 2

def htrBuilderDepositRequest (bytes : List Byte) : Hash :=
  htrMerkleize sha256Pair
    [htrFixedBytevector sha256Pair bytes 48, htrBytes32 (bytes.drop 48), htrUint64 (bytes.drop 80),
      htrFixedBytevector sha256Pair (bytes.drop 88) 96] 2

def htrBuilderExitRequest (bytes : List Byte) : Hash :=
  htrMerkleize sha256Pair
    [htrAddress bytes, htrFixedBytevector sha256Pair (bytes.drop 20) 48] 1

/-- `enum htr_item_kind`: the requests, and the three lists of the payload. -/
inductive HtrItemKind where
  | request (kind : HtrRequestKind)
  | transaction
  | withdrawal
  | versionedHash
  deriving DecidableEq, Repr

/-- A row of `htr_list_layout`. -/
structure HtrListLayout where
  itemSize : Nat
  depth : Nat

/-- The items of the transactions have no width; their driver walks the
offset table. -/
def htrListLayout : HtrItemKind → HtrListLayout
  | .request .htrDeposit => ⟨192, 13⟩
  | .request .htrWithdrawalRequest => ⟨76, 4⟩
  | .request .htrConsolidationRequest => ⟨116, 1⟩
  | .request .htrBuilderDepositRequest => ⟨184, 6⟩
  | .request .htrBuilderExitRequest => ⟨68, 4⟩
  | .transaction => ⟨0, 20⟩
  | .withdrawal => ⟨44, 4⟩
  | .versionedHash => ⟨32, 12⟩

def htrItemRoot (kind : HtrItemKind) (bytes : List Byte) : Option Hash :=
  match kind with
  | .request .htrDeposit => some (htrDeposit sha256Pair bytes)
  | .request .htrWithdrawalRequest => some (htrWithdrawalRequest sha256Pair bytes)
  | .request .htrConsolidationRequest => some (htrConsolidationRequest sha256Pair bytes)
  | .request .htrBuilderDepositRequest => some (htrBuilderDepositRequest sha256Pair bytes)
  | .request .htrBuilderExitRequest => some (htrBuilderExitRequest sha256Pair bytes)
  | .withdrawal => some (htrWithdrawal sha256Pair bytes)
  | .versionedHash => some (htrBytes32 bytes)
  | .transaction => none

/-! ## Lists -/

/-- The item of round `i`. -/
def htrListItem (kind : HtrItemKind) (span : List Byte) (count i : Nat) : Option Hash :=
  if kind = .transaction then
    let tableOff := i * 4
    let start := htrLoadU32 (span.drop tableOff)
    let stop := if i + 1 < count then htrLoadU32 (span.drop (tableOff + 4)) else span.length
    if start > stop ∨ stop > span.length then none
    else htrBytelist sha256Pair (span.drop start) (stop - start) htrByteListLimit
  else htrItemRoot sha256Pair kind (span.drop (i * (htrListLayout kind).itemSize))

def htrListRoot (kind : HtrItemKind) (span : List Byte) (count : Nat) : Option Hash := do
  let acc ← (List.range count).foldlM
    (fun acc i => do
      let item ← htrListItem sha256Pair kind span count i
      some (htrAccumulatorPush sha256Pair acc item))
    (htrAccumulatorInit (htrListLayout kind).depth)
  some (htrMixInLength sha256Pair (htrAccumulatorRoot sha256Pair acc) count)

/-- `htr_request_list`, the only bound on the slices of the requests. -/
def htrRequestList (kind : HtrItemKind) (span : List Byte) : Option Hash :=
  let itemSize := (htrListLayout kind).itemSize
  let count := span.length / itemSize
  if span.length % itemSize ≠ 0 ∨ count > 2 ^ (htrListLayout kind).depth then none
  else htrListRoot sha256Pair kind span count

def htrExecutionRequests (input : StatelessInputRef) : Option Hash := do
  let deposits ← htrRequestList sha256Pair (.request .htrDeposit) input.deposits
  let withdrawalRequests ←
    htrRequestList sha256Pair (.request .htrWithdrawalRequest) input.withdrawalRequests
  let consolidationRequests ←
    htrRequestList sha256Pair (.request .htrConsolidationRequest) input.consolidationRequests
  let builderDepositRequests ←
    htrRequestList sha256Pair (.request .htrBuilderDepositRequest) input.builderDepositRequests
  let builderExitRequests ←
    htrRequestList sha256Pair (.request .htrBuilderExitRequest) input.builderExitRequests
  some (htrMerkleize sha256Pair
    [deposits, withdrawalRequests, consolidationRequests, builderDepositRequests,
      builderExitRequests] 3)

end

/-! ## The accumulator behind its leaves -/

section

variable {sha256Pair : Hash → Hash → Hash}

/-- The accumulator of a tree that has room for its leaves. -/
structure Behind (sha256Pair : Hash → Hash → Hash) (acc : HtrAccumulator) (depth : Nat)
    (leaves : List Hash) : Prop where
  count : acc.count = leaves.length
  depth : acc.depth = depth
  holds : Merkle.Holds sha256Pair acc.node leaves

theorem behind_init (depth : Nat) : Behind sha256Pair (htrAccumulatorInit depth) depth [] :=
  ⟨rfl, rfl, Merkle.holds_nil _⟩

/-- Writing a level of the frontier. -/
theorem node_setIfInBounds (acc : HtrAccumulator) (count : Nat) {level : Nat} (h : level < 26)
    (node : Hash) :
    HtrAccumulator.node { acc with frontier := acc.frontier.setIfInBounds level node, count } =
      Function.update acc.node level node := by
  funext k
  simp only [HtrAccumulator.node, Vector.getElem?_setIfInBounds, Function.update_apply]
  by_cases hk : level = k
  · subst hk
    simp [h]
  · rw [if_neg hk, if_neg (Ne.symm hk)]

/-- One more leaf, as long as there is room for it at depth 25. -/
theorem Behind.push {acc : HtrAccumulator} {depth : Nat} {leaves : List Hash}
    (h : Behind sha256Pair acc depth leaves) (hroom : leaves.length < 2 ^ 25) (leaf : Hash) :
    Behind sha256Pair (htrAccumulatorPush sha256Pair acc leaf) depth (leaves ++ [leaf]) := by
  have hlevel : (Merkle.climb sha256Pair acc.node acc.count 0 leaf).1 < 26 := by
    have hle : 2 ^ (Merkle.climb sha256Pair acc.node acc.count 0 leaf).1 ≤
        2 ^ 0 * (acc.count + 1) := Merkle.climb_le ..
    rw [Nat.pow_zero, Nat.one_mul] at hle
    rw [h.count] at hle ⊢
    have hpow := hle.trans (Nat.succ_le_of_lt hroom)
    exact Nat.lt_succ_of_le ((Nat.pow_le_pow_iff_right Nat.one_lt_two).mp hpow)
  have hheld : Merkle.Holds sha256Pair (fun k => acc.node (0 + k)) leaves := by
    simpa only [Nat.zero_add] using h.holds
  have hclimbed := (Merkle.holds_climb leaf hheld).2
  simp only [Nat.zero_add] at hclimbed
  refine ⟨?_, h.depth, ?_⟩
  · rw [List.length_append, ← h.count]
    rfl
  · rw [htrAccumulatorPush]
    dsimp only
    rw [node_setIfInBounds acc _ hlevel, h.count]
    exact hclimbed

theorem behind_pushes {acc : HtrAccumulator} {depth : Nat} {leaves : List Hash}
    (h : Behind sha256Pair acc depth leaves) {more : List Hash}
    (hroom : (leaves ++ more).length ≤ 2 ^ 25) :
    Behind sha256Pair (more.foldl (htrAccumulatorPush sha256Pair) acc) depth (leaves ++ more) := by
  induction more generalizing acc leaves with
  | nil =>
    rw [List.append_nil]
    exact h
  | cons leaf more ih =>
    rw [List.append_cons] at hroom ⊢
    have hlt : leaves.length < 2 ^ 25 := by
      simp only [List.length_append, List.length_singleton] at hroom
      omega
    exact ih (h.push hlt leaf) hroom

/-- What the loop of the root has to the right, if anything. -/
def RootLoop.rightNode (s : RootLoop) : Option Hash := if s.hasRight then some s.right else none

/-- A round of the loop closes a level. -/
theorem htrRootLevel_closeLevel (acc : HtrAccumulator) (s : RootLoop) (level : Nat) :
    ((htrRootLevel sha256Pair acc s level).remaining,
        (htrRootLevel sha256Pair acc s level).rightNode) =
      Merkle.closeLevel sha256Pair sszZeroHash acc.node (s.remaining, s.rightNode) level := by
  obtain ⟨remaining, right, hasRight⟩ := s
  by_cases hodd : remaining % 2 = 1
  · cases hasRight <;> simp [htrRootLevel, RootLoop.rightNode, Merkle.closeLevel, hodd]
  · cases hasRight <;> simp [htrRootLevel, RootLoop.rightNode, Merkle.closeLevel, hodd]

theorem foldl_htrRootLevel (acc : HtrAccumulator) (levels : List Nat) (s : RootLoop) :
    ((levels.foldl (htrRootLevel sha256Pair acc) s).remaining,
        (levels.foldl (htrRootLevel sha256Pair acc) s).rightNode) =
      levels.foldl (Merkle.closeLevel sha256Pair sszZeroHash acc.node)
        (s.remaining, s.rightNode) := by
  induction levels generalizing s with
  | nil => rfl
  | cons level levels ih =>
    rw [List.foldl_cons, List.foldl_cons, ih, htrRootLevel_closeLevel]

theorem htrAccumulatorRoot_closedRoot (acc : HtrAccumulator) :
    htrAccumulatorRoot sha256Pair acc =
      Merkle.closedRoot sha256Pair sszZeroHash acc.node acc.count acc.depth := by
  have hloop : _ = (List.range acc.depth).foldl
      (Merkle.closeLevel sha256Pair sszZeroHash acc.node) (acc.count, none) :=
    foldl_htrRootLevel acc _ ⟨acc.count, zeroHash, false⟩
  rw [htrAccumulatorRoot, Merkle.closedRoot, ← hloop]
  dsimp only
  rw [RootLoop.rightNode]
  split
  · rfl
  · split
    · rfl
    · rfl

/-- The root that is taken behind some leaves. -/
theorem Behind.root {acc : HtrAccumulator} {depth : Nat} {leaves : List Hash}
    (h : Behind sha256Pair acc depth leaves) (hroom : leaves.length ≤ 2 ^ depth) :
    htrAccumulatorRoot sha256Pair acc =
      Merkle.partialRoot sha256Pair sszZeroHash depth leaves := by
  rw [htrAccumulatorRoot_closedRoot, h.count, h.depth]
  exact Merkle.closed_root h.holds hroom

theorem htrMerkleize_eq {leaves : List Hash} {depth : Nat} (hdepth : depth ≤ 25)
    (hroom : leaves.length ≤ 2 ^ depth) :
    htrMerkleize sha256Pair leaves depth =
      Merkle.partialRoot sha256Pair sszZeroHash depth leaves := by
  have hpow : 2 ^ depth ≤ 2 ^ 25 := Nat.pow_le_pow_right Nat.two_pos hdepth
  have hbehind : Behind sha256Pair _ depth ([] ++ leaves) :=
    behind_pushes (behind_init depth) (hroom.trans hpow)
  exact hbehind.root hroom

/-- The streamed root of a subtree is the accumulator's over the leaves it
reads. -/
theorem htrSubtree_accumulator {leaf : Nat → Result Hash} {depth start count : Nat}
    (hdepth : depth ≤ 25) (hcount : count ≤ 2 ^ depth) :
    htrSubtree sha256Pair leaf depth start count =
      ((List.range' start count).mapM leaf >>= fun leaves =>
        .ok (htrMerkleize sha256Pair leaves depth)) := by
  rw [htrSubtree_partialRoot hdepth hcount]
  cases hleaves : (List.range' start count).mapM leaf with
  | error e => rfl
  | ok leaves =>
    have hlen : leaves.length = count := by
      rw [← (mapM_eq_ok.mp hleaves).length_eq, List.length_range']
    rw [ok_bind, ok_bind, htrMerkleize_eq hdepth (hlen ▸ hcount)]

/-- `merkleize` of a fixed vector. -/
theorem merkleize_accumulator {leaves : List Hash} {depth : Nat} (hdepth : depth ≤ 25)
    (hcount : leaves.length ≤ 2 ^ depth) :
    merkleize sha256Pair leaves depth = .ok (htrMerkleize sha256Pair leaves depth) := by
  have hleaves : (List.range' 0 leaves.length).mapM (vectorLeaf leaves) = .ok leaves := by
    rw [mapM_eq_ok, List.forall₂_iff_get]
    refine ⟨List.length_range', fun i _ hi => ?_⟩
    rw [vectorLeaf, List.get_eq_getElem, List.getElem_range', Nat.zero_add, Nat.one_mul,
      List.getElem?_eq_getElem hi]
    rfl
  rw [merkleize, htrLeafCapacity_eq hdepth, if_pos hcount, merkleizeVectorSubtree,
    htrSubtree_accumulator hdepth hcount, hleaves, ok_bind]

/-! ## Byte sequences -/

theorem clog2Loop_eq (remaining depth : Nat) :
    clog2Loop remaining depth = depth + Nat.clog 2 (remaining + 1) := by
  induction remaining using Nat.strongRecOn generalizing depth with
  | _ remaining ih =>
    rw [clog2Loop]
    split
    · rename_i hne
      have hhalf : (remaining + 1 + 2 - 1) / 2 = remaining / 2 + 1 := by omega
      have hclog : Nat.clog 2 (remaining + 1) = Nat.clog 2 ((remaining + 1 + 2 - 1) / 2) + 1 :=
        Nat.clog_of_two_le Nat.one_lt_two (by omega)
      rw [ih _ (by omega), hclog, hhalf]
      omega
    · rename_i hzero
      rw [not_not.mp hzero, Nat.clog_one_right, Nat.add_zero]

theorem htrClog2_eq (n : Nat) : htrClog2 n = Nat.clog 2 n := by
  rw [htrClog2, clog2Loop_eq, Nat.zero_add]
  split
  · rename_i hzero
    rw [hzero, Nat.clog_one_right, Nat.clog_zero_right]
  · rw [Nat.sub_add_cancel (by omega)]

/-- The chunk of a round is that of the bytes there are. -/
theorem htrBytesChunk_eq (bytes : List Byte) (len i : Nat) :
    htrBytesChunk bytes len i = chunkOf ((bytes.take len).drop (i * 32)) := by
  refine Vector.ext ?_
  intro k hk
  rw [htrBytesChunk, copyBytes, getElem_chunkOf, getElem_chunkOf, List.drop_take]
  split
  · rfl
  · rename_i hfull
    rw [sliceByte, sliceByte, List.getElem?_take_of_lt hk, List.getElem?_take_of_lt (by omega)]

/-- The root of the chunks of a byte string. -/
theorem htrBytesRoot_accumulator {bytes : List Byte} {len depth : Nat} (hin : len ≤ bytes.length)
    (hlimit : len ≤ htrByteListLimit) (hdepth : depth ≤ 25) (hcount : (len + 31) / 32 ≤ 2 ^ depth) :
    EvmSail.htrBytesRoot sha256Pair (bytes.take len) depth =
      .ok (htrBytesRoot sha256Pair bytes len depth) := by
  have hlen : (bytes.take len).length = len := List.length_take_of_le hin
  have hpow : 2 ^ depth ≤ 2 ^ 25 := Nat.pow_le_pow_right Nat.two_pos hdepth
  have hleaves : (List.range' 0 ((len + 31) / 32)).mapM (htrChunk (bytes.take len)) =
      .ok ((List.range ((len + 31) / 32)).map (htrBytesChunk bytes len)) := by
    rw [← List.range_eq_range', mapM_eq_ok, List.forall₂_map_right_iff, List.forall₂_same]
    intro i hi
    rw [List.mem_range] at hi
    rw [htrChunk_eq (by omega), htrBytesChunk_eq]
  rw [EvmSail.htrBytesRoot, htrChunkCount, hlen, if_pos hlimit, ok_bind, htrLeafCapacity_eq hdepth,
    if_pos hcount, htrBytesSubtree, htrSubtree_accumulator hdepth hcount, hleaves, ok_bind,
    htrMerkleize, List.foldl_map, htrBytesRoot]

/-! ## Requests

The pointer to an item sees the bytes of the later ones too. -/

theorem subSlice_take {bytes : List Byte} {size offset len : Nat} (h : offset + len ≤ size) :
    subSlice (bytes.take size) offset len = (bytes.drop offset).take len := by
  rw [subSlice, List.drop_take, List.take_take, Nat.min_eq_left (by omega)]

theorem htrBytes32_take {bytes : List Byte} {size offset : Nat} (h : offset + 32 ≤ size) :
    htrSszBytes32 (bytes.take size) offset = htrBytes32 (bytes.drop offset) := by
  rw [htrSszBytes32_eq, subSlice_take h, htrBytes32, copyBytes]

theorem htrUint64_take {bytes : List Byte} {size offset : Nat} (h : offset + 8 ≤ size) :
    htrSszUint (bytes.take size) offset = htrUint64 (bytes.drop offset) := by
  rw [htrSszUint_eq, subSlice_take h, htrUint64, copyBytes]

theorem htrAddress_take {bytes : List Byte} {size offset : Nat} (hsize : size ≤ bytes.length)
    (h : offset + 20 ≤ size) :
    htrSszAddr (bytes.take size) offset = htrAddress (bytes.drop offset) := by
  have hin : offset + 20 ≤ (bytes.take size).length := by
    rw [List.length_take_of_le hsize]
    exact h
  rw [htrSszAddr_eq hin, subSlice_take h, htrAddress, copyBytes]

/-- The root of a byte vector inside its container. -/
theorem htrFixedBytevector_take {bytes : List Byte} {size offset len : Nat}
    (hsize : size ≤ bytes.length) (h : offset + len ≤ size) (hlimit : len ≤ htrByteListLimit) :
    htrSszBytevector sha256Pair (bytes.take size) offset len =
      .ok (htrFixedBytevector sha256Pair (bytes.drop offset) len) := by
  have hin : offset + len ≤ (bytes.take size).length := by
    rw [List.length_take_of_le hsize]
    exact h
  have hrest : len ≤ (bytes.drop offset).length := by
    rw [List.length_drop]
    omega
  have hchunks : (len + 31) / 32 ≤ 2 ^ 25 := by
    rw [htrByteListLimit] at hlimit
    omega
  have hdepth : Nat.clog 2 ((len + 31) / 32) ≤ 25 :=
    (Nat.clog_le_iff_le_pow Nat.one_lt_two).mpr hchunks
  rw [htrSszBytevector, if_pos hin, htrBytevector, htrChunkCount, subSlice_take h,
    List.length_take_of_le hrest, if_pos hlimit, ok_bind, clog2_eq hchunks, ok_bind,
    htrBytesRoot_accumulator hrest hlimit hdepth (Nat.le_pow_clog Nat.one_lt_two _),
    htrFixedBytevector, htrClog2_eq]

theorem itemSize_request (kind : HtrRequestKind) :
    (htrListLayout (.request kind)).itemSize = requestLength kind := by
  cases kind <;> rfl

/-- The root of a request. -/
theorem htrItemRoot_request {kind : HtrRequestKind} {bytes : List Byte}
    (hin : requestLength kind ≤ bytes.length) :
    ∃ root, htrItemRoot sha256Pair (.request kind) bytes = some root ∧
      htrRequest sha256Pair kind (bytes.take (requestLength kind)) = .ok root := by
  cases kind with
  | htrDeposit =>
    refine ⟨_, rfl, ?_⟩
    rw [htrRequest, EvmSail.htrDeposit, htrFixedBytevector_take hin (by decide) (by decide),
      ok_bind, htrFixedBytevector_take hin (by decide) (by decide), ok_bind,
      htrBytes32_take (by decide), htrUint64_take (by decide), htrUint64_take (by decide)]
    exact merkleize_accumulator (by decide) (by simp)
  | htrWithdrawalRequest =>
    refine ⟨_, rfl, ?_⟩
    rw [htrRequest, EvmSail.htrWithdrawalRequest,
      htrFixedBytevector_take hin (by decide) (by decide), ok_bind,
      htrAddress_take hin (by decide), htrUint64_take (by decide)]
    exact merkleize_accumulator (by decide) (by simp)
  | htrConsolidationRequest =>
    refine ⟨_, rfl, ?_⟩
    rw [htrRequest, EvmSail.htrConsolidationRequest,
      htrFixedBytevector_take hin (by decide) (by decide), ok_bind,
      htrFixedBytevector_take hin (by decide) (by decide), ok_bind,
      htrAddress_take hin (by decide)]
    exact merkleize_accumulator (by decide) (by simp)
  | htrBuilderDepositRequest =>
    refine ⟨_, rfl, ?_⟩
    rw [htrRequest, EvmSail.htrBuilderDepositRequest,
      htrFixedBytevector_take hin (by decide) (by decide), ok_bind,
      htrFixedBytevector_take hin (by decide) (by decide), ok_bind,
      htrBytes32_take (by decide), htrUint64_take (by decide)]
    exact merkleize_accumulator (by decide) (by simp)
  | htrBuilderExitRequest =>
    refine ⟨_, rfl, ?_⟩
    rw [htrRequest, EvmSail.htrBuilderExitRequest,
      htrFixedBytevector_take hin (by decide) (by decide), ok_bind,
      htrAddress_take hin (by decide)]
    exact merkleize_accumulator (by decide) (by simp)

/-! ## Request lists -/

/-- The request list of a kind, with its own bound and depth. -/
def specRequestList (sha256Pair : Hash → Hash → Hash) : HtrRequestKind → List Byte → Result Hash
  | .htrDeposit => htrDeposits sha256Pair
  | .htrWithdrawalRequest => htrWithdrawalRequests sha256Pair
  | .htrConsolidationRequest => htrConsolidationRequests sha256Pair
  | .htrBuilderDepositRequest => htrBuilderDepositRequests sha256Pair
  | .htrBuilderExitRequest => htrBuilderExitRequests sha256Pair

theorem specRequestList_eq (kind : HtrRequestKind) (requests : List Byte) :
    specRequestList sha256Pair kind requests =
      EvmSail.htrRequestList sha256Pair kind (2 ^ (htrListLayout (.request kind)).depth)
        (htrListLayout (.request kind)).depth requests := by
  cases kind <;> rfl

theorem depth_request_le (kind : HtrRequestKind) : (htrListLayout (.request kind)).depth ≤ 13 := by
  cases kind <;> decide

/-- Items that are all there are pushed in turn. -/
theorem foldlM_push {α : Type} {item : α → Option Hash} {root : α → Hash} {indices : List α}
    (h : ∀ i ∈ indices, item i = some (root i)) (acc : HtrAccumulator) :
    indices.foldlM
        (fun acc i => do
          let leaf ← item i
          some (htrAccumulatorPush sha256Pair acc leaf)) acc =
      some ((indices.map root).foldl (htrAccumulatorPush sha256Pair) acc) := by
  induction indices generalizing acc with
  | nil => rfl
  | cons i indices ih =>
    rw [List.foldlM_cons, h i List.mem_cons_self, List.map_cons, List.foldl_cons]
    exact ih (fun j hj => h j (List.mem_cons_of_mem i hj)) _

/-- The chunk of a length below `2 ^ 64`. -/
theorem htrMixInLength_eq (root : Hash) {len : Nat} (h : len < 2 ^ 64) :
    htrMixInLength sha256Pair root len = mixInLength sha256Pair root len := by
  rw [htrMixInLength, mixInLength, htrLengthChunk_eq]
  refine congrArg (sha256Pair root) (Vector.ext ?_)
  intro i hi
  rw [htrUint, lengthChunk, Vector.getElem_ofFn, Vector.getElem_ofFn]
  have hpow : (2 : Nat) ^ (8 * i) = 256 ^ i := by rw [Nat.pow_mul]
  by_cases hlow : i < 8
  · rw [if_pos hlow, hpow]
  · rw [if_neg hlow]
    have hle : (256 : Nat) ^ 8 ≤ 256 ^ i := Nat.pow_le_pow_right (by decide) (by omega)
    have hlt : len < 256 ^ i := lt_of_lt_of_le h hle
    rw [Nat.div_eq_of_lt hlt]
    rfl

/-- A request list has the same root, and is rejected in the same cases. -/
theorem htrRequestList_accumulator (kind : HtrRequestKind) (requests : List Byte) :
    htrRequestList sha256Pair (.request kind) requests =
      (specRequestList sha256Pair kind requests).toOption := by
  have hpos := requestLength_pos kind
  have hdepth := depth_request_le kind
  rw [specRequestList_eq, htrRequestList, itemSize_request]
  generalize hd : (htrListLayout (.request kind)).depth = depth at hdepth
  split
  · rename_i hbad
    cases hitems : sszBoundedFixedListRef requests (requestLength kind) (2 ^ depth) with
    | error e =>
      rw [EvmSail.htrRequestList, hitems]
      rfl
    | ok items =>
      obtain ⟨_, hlen, _, hcount⟩ := (sszBoundedFixedListRef_eq_ok hpos).mp hitems
      rw [hlen, Nat.mul_mod_left, Nat.mul_div_cancel _ hpos] at hbad
      omega
  · rename_i hgood
    obtain ⟨hmod, hcount⟩ := not_or.mp hgood
    obtain ⟨count, hlen⟩ := Nat.dvd_of_mod_eq_zero (not_not.mp hmod)
    rw [Nat.mul_comm] at hlen
    rw [hlen, Nat.mul_div_cancel _ hpos] at hcount ⊢
    have hroom : count ≤ 2 ^ depth := Nat.le_of_not_lt hcount
    have hpow : 2 ^ depth ≤ 2 ^ 13 := Nat.pow_le_pow_right Nat.two_pos hdepth
    have href : sszBoundedFixedListRef requests (requestLength kind) (2 ^ depth) =
        .ok ⟨requests, count, requestLength kind⟩ :=
      (sszBoundedFixedListRef_eq_ok hpos).mpr ⟨rfl, hlen, rfl, hroom⟩
    have hitem : ∀ i, i < count → ∃ root,
        htrListItem sha256Pair (.request kind) requests count i = some root ∧
          htrRequestLeaf sha256Pair requests kind i = .ok root := by
      intro i hi
      have hin : i * requestLength kind + requestLength kind ≤ requests.length := by
        rw [hlen, ← Nat.succ_mul]
        exact Nat.mul_le_mul_right _ hi
      have hrest : requestLength kind ≤ (requests.drop (i * requestLength kind)).length := by
        rw [List.length_drop]
        omega
      rw [htrListItem, if_neg (by simp), htrRequestLeaf, if_pos hin, itemSize_request]
      exact htrItemRoot_request hrest
    choose! root hread hleaf using hitem
    have hleaves : (List.range' 0 count).mapM (htrRequestLeaf sha256Pair requests kind) =
        .ok ((List.range count).map root) := by
      rw [← List.range_eq_range', mapM_eq_ok, List.forall₂_map_right_iff, List.forall₂_same]
      exact fun i hi => hleaf i (List.mem_range.mp hi)
    have hlength : count < 2 ^ 64 := by omega
    rw [htrListRoot, foldlM_push (fun i hi => hread i (List.mem_range.mp hi)), hd,
      EvmSail.htrRequestList, href, ok_bind, htrRequestsSubtree,
      htrSubtree_accumulator (by omega) hroom, hleaves, ok_bind, ok_bind,
      ← htrMixInLength_eq _ hlength]
    rfl

/-- The execution requests are rejected in the same cases. -/
theorem htrExecutionRequests_accumulator (input : StatelessInputRef) :
    htrExecutionRequests sha256Pair input =
      (EvmSail.htrExecutionRequests sha256Pair input).toOption := by
  rw [htrExecutionRequests, EvmSail.htrExecutionRequests]
  simp only [htrRequestList_accumulator, specRequestList]
  cases htrDeposits sha256Pair input.deposits with
  | error e => rfl
  | ok deposits =>
  cases htrWithdrawalRequests sha256Pair input.withdrawalRequests with
  | error e => rfl
  | ok withdrawalRequests =>
  cases htrConsolidationRequests sha256Pair input.consolidationRequests with
  | error e => rfl
  | ok consolidationRequests =>
  cases htrBuilderDepositRequests sha256Pair input.builderDepositRequests with
  | error e => rfl
  | ok builderDepositRequests =>
  cases htrBuilderExitRequests sha256Pair input.builderExitRequests with
  | error e => rfl
  | ok builderExitRequests =>
    simp only [ok_bind]
    rw [merkleize_accumulator (by decide) (by simp)]
    rfl

end

/-- The frontier accumulator computes the root of the streamed recursion, for
any leaves the tree has room for, and the optimised lists of requests have
the roots of the canonical ones and are rejected when those are. -/
theorem htrAccumulator_agrees (sha256Pair : Hash → Hash → Hash) :
    (∀ (leaf : Nat → Result Hash) (depth start count : Nat), depth ≤ 25 → count ≤ 2 ^ depth →
      htrSubtree sha256Pair leaf depth start count =
        ((List.range' start count).mapM leaf >>= fun leaves =>
          .ok (htrAccumulatorRoot sha256Pair
            (leaves.foldl (htrAccumulatorPush sha256Pair) (htrAccumulatorInit depth))))) ∧
      (∀ (leaves : List Hash) (depth : Nat), depth ≤ 25 → leaves.length ≤ 2 ^ depth →
        merkleize sha256Pair leaves depth =
          .ok (htrAccumulatorRoot sha256Pair
            (leaves.foldl (htrAccumulatorPush sha256Pair) (htrAccumulatorInit depth)))) ∧
      (∀ (kind : HtrRequestKind) (requests : List Byte),
        htrRequestList sha256Pair (.request kind) requests =
          (specRequestList sha256Pair kind requests).toOption) ∧
      ∀ input : StatelessInputRef,
        htrExecutionRequests sha256Pair input =
          (EvmSail.htrExecutionRequests sha256Pair input).toOption :=
  ⟨fun _ _ _ _ hdepth hcount => htrSubtree_accumulator hdepth hcount,
    fun _ _ hdepth hcount => merkleize_accumulator hdepth hcount,
    htrRequestList_accumulator, htrExecutionRequests_accumulator⟩

end EvmSail.Optimised
