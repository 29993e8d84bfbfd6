/-
# `EvmSail.Ssz.ListItems` — the items of a variable-size list, in order and by index

A list of items of variable size is read in two ways.  `ssz_list_at`
reads the two offsets next to each other at an index; `ssz_list_pop`
reads one offset and keeps the one before it in its cursor.  Both are
here again on coordinates, as in `Ssz.Ranges`, so that an item is a range
of the input and not only its bytes.

What connects them is the cursor that an index stands for (`cursorAt`):
from it a pop is the random access, failure included (`sszListPop_cursorAt`).
The traversal is therefore the traversal by index (`sszListItems_eq`),
and what it accepts is a condition on the offset table alone
(`OffsetTable`).
-/
import EvmSail.Lib.Producing
import EvmSail.Ssz.Ranges

namespace EvmSail

open Fallible

namespace Ranged

variable {input : List Byte}

/-! ## Items -/

/-- Where the item after `index` starts; the end of the list for the last. -/
def sszListStop (items : BoundedSszListRef input) (index : Nat) : Result Nat :=
  EvmSail.sszListStop items.read index

/-- The item between two offsets, within its list and its limit. -/
def sszListItem (items : BoundedSszListRef input) (start stop : Nat) :
    Result (InputRange input) :=
  if h : start ≤ stop ∧ stop ≤ items.bytes.len then
    let itemLength := stop - start
    if items.maxItemLength ≠ 0 ∧ items.maxItemLength < itemLength then
      fatalError .invalidConfig
    else
      .ok (items.bytes.sub start itemLength (by omega))
  else
    fatalError .invalidConfig

/-- A variable-width item, from its two adjacent offsets. -/
def sszListAt (items : BoundedSszListRef input) (index : Nat) : Result (InputRange input) :=
  if index < items.count then do
    let start ← sszU32InSlice items.bytes.read (sszOffsetTablePosition index)
    let stop ← sszListStop items index
    sszListItem items start stop
  else
    fatalError .invalidConfig

/-- A position in a list of variable-width items. -/
structure BoundedSszListCursor (input : List Byte) where
  items : BoundedSszListRef input
  index : Nat
  current : Nat

def BoundedSszListCursor.read (cursor : BoundedSszListCursor input) :
    EvmSail.BoundedSszListCursor :=
  ⟨cursor.items.read, cursor.index, cursor.current⟩

/-- A cursor at the first item. -/
def sszListCursor (items : BoundedSszListRef input) : BoundedSszListCursor input :=
  let current := if items.count ≠ 0 then sszU32At items.bytes.read 0 else items.bytes.len
  ⟨items, 0, current⟩

def sszListCursorEmpty (cursor : BoundedSszListCursor input) : Bool :=
  cursor.items.count ≤ cursor.index

/-- The next item, and the advanced cursor. -/
def sszListPop (cursor : BoundedSszListCursor input) :
    Result (InputRange input × BoundedSszListCursor input) :=
  if cursor.index < cursor.items.count then do
    let next ← sszListStop cursor.items cursor.index
    let item ← sszListItem cursor.items cursor.current next
    .ok (item, ⟨cursor.items, cursor.index + 1, next⟩)
  else
    fatalError .invalidConfig

/-! ## The traversal -/

/-- A pop, with the cursor in front. -/
def sszListNext (cursor : BoundedSszListCursor input) :
    Result (BoundedSszListCursor input × InputRange input) := do
  let (item, next) ← sszListPop cursor
  .ok (next, item)

theorem sszListNext_advances {cursor next : BoundedSszListCursor input} {item : InputRange input}
    (h : sszListNext cursor = .ok (next, item)) :
    cursor.index < cursor.items.count ∧ next.items = cursor.items ∧
      next.index = cursor.index + 1 := by
  obtain ⟨⟨item', next'⟩, hpop, h⟩ := bind_eq_ok.mp h
  cases h
  rw [sszListPop] at hpop
  split at hpop
  · rename_i hlt
    obtain ⟨stop, _, hpop⟩ := bind_eq_ok.mp hpop
    obtain ⟨found, _, hpop⟩ := bind_eq_ok.mp hpop
    cases hpop
    exact ⟨hlt, rfl, rfl⟩
  · cases hpop

/-- There is a next element. -/
def sszListCursorMore (cursor : BoundedSszListCursor input) : Bool := !sszListCursorEmpty cursor

/-- The items of a list: from the first one, pop until the cursor is empty. -/
def sszListItems (items : BoundedSszListRef input) : Result (List (InputRange input)) := do
  let (_, popped) ← loop
    (fun s : BoundedSszListCursor input × List (InputRange input) => sszListCursorMore s.1)
    (handOver sszListNext fun popped item => .ok (popped ++ [item]))
    (fun s => s.1.items.count - s.1.index)
    (by
      intro s s' _ hround
      obtain ⟨item, hnext, _⟩ := handOver_eq_ok.mp hround
      obtain ⟨hlt, hitems, hindex⟩ := sszListNext_advances hnext
      rw [hitems, hindex]
      omega)
    (sszListCursor items, [])
  .ok popped

/-! ## The bytes of the ranges -/

theorem sszListItem_read (items : BoundedSszListRef input) (start stop : Nat) :
    (sszListItem items start stop).map InputRange.read =
      if start ≤ stop ∧ stop ≤ items.read.bytes.length then
        if items.read.maxItemLength ≠ 0 ∧ items.read.maxItemLength < stop - start then
          fatalError .invalidConfig
        else
          .ok (subSlice items.read.bytes start (stop - start))
      else
        fatalError .invalidConfig := by
  have hlen : items.read.bytes.length = items.bytes.len := items.bytes.length_read
  have hmax : items.read.maxItemLength = items.maxItemLength := rfl
  rw [hlen, hmax, sszListItem]
  split
  · rename_i hspan
    dsimp only
    split
    · rfl
    · rw [map_ok, InputRange.read_sub]
      rfl
  · rfl

theorem sszListAt_read (items : BoundedSszListRef input) (index : Nat) :
    EvmSail.sszListAt items.read index = (sszListAt items index).map InputRange.read := by
  have hcount : items.read.count = items.count := rfl
  rw [sszListAt, EvmSail.sszListAt, hcount]
  split
  · rw [map_of_bind]
    refine bind_congr fun start => ?_
    rw [map_of_bind]
    refine bind_congr fun stop => ?_
    exact (sszListItem_read items start stop).symm
  · rfl

theorem sszListPop_read (cursor : BoundedSszListCursor input) :
    EvmSail.sszListPop cursor.read =
      (sszListPop cursor).map fun popped => (popped.1.read, popped.2.read) := by
  have hcount : cursor.read.items.count = cursor.items.count := rfl
  have hindex : cursor.read.index = cursor.index := rfl
  rw [sszListPop, EvmSail.sszListPop, hcount, hindex]
  split
  · rw [map_of_bind]
    refine bind_congr fun next => ?_
    have hitem := sszListItem_read cursor.items cursor.current next
    rw [map_of_bind]
    refine Eq.trans ?_ (bind_of_map hitem.symm fun item =>
      .ok (item, (⟨cursor.items.read, cursor.index + 1, next⟩ : EvmSail.BoundedSszListCursor)))
    change (if cursor.current ≤ next ∧ next ≤ cursor.items.read.bytes.length then
      (if cursor.items.read.maxItemLength ≠ 0 ∧
          cursor.items.read.maxItemLength < next - cursor.current then _ else _) else _) = _
    split
    · split
      · rfl
      · rfl
    · rfl
  · rfl

/-! ## The cursor of an index -/

/-- Where the item at `index` starts by the offset table; the end of the list
behind the last one. -/
def boundary (items : BoundedSszListRef input) (index : Nat) : Nat :=
  if index < items.count then sszU32At items.bytes.read (4 * index) else items.bytes.len

/-- The cursor in front of the item at `index`. -/
def cursorAt (items : BoundedSszListRef input) (index : Nat) : BoundedSszListCursor input :=
  ⟨items, index, boundary items index⟩

/-- The whole table lies in the list, and its first entry is its end. -/
structure Counted (items : BoundedSszListRef input) : Prop where
  table : 4 * items.count ≤ items.bytes.len
  start : boundary items 0 = 4 * items.count

theorem sszListCursor_eq (items : BoundedSszListRef input) :
    sszListCursor items = cursorAt items 0 := by
  rw [sszListCursor, cursorAt, boundary]
  congr 1
  split
  · rename_i hne
    rw [if_pos (Nat.pos_of_ne_zero hne)]
  · rename_i hne
    rw [if_neg (by omega)]

theorem sszListCursorMore_cursorAt (items : BoundedSszListRef input) (index : Nat) :
    sszListCursorMore (cursorAt items index) = decide (index < items.count) := by
  rw [sszListCursorMore, sszListCursorEmpty, ← decide_not]
  exact decide_eq_decide.mpr Nat.not_le

namespace Counted

variable {items : BoundedSszListRef input}

theorem sszU32InSlice_eq (h : Counted items) {index : Nat} (hlt : index < items.count) :
    sszU32InSlice items.bytes.read (sszOffsetTablePosition index) = .ok (boundary items index) := by
  have htable := h.table
  rw [sszU32InSlice, sszOffsetTablePosition, InputRange.length_read, if_pos (by omega), boundary,
    if_pos hlt, Nat.mul_comm]

theorem sszListStop_eq (h : Counted items) (index : Nat) :
    sszListStop items index = .ok (boundary items (index + 1)) := by
  rw [sszListStop, EvmSail.sszListStop]
  change (if index + 1 < items.count then
    sszU32InSlice items.bytes.read (sszOffsetTablePosition (index + 1)) else
    .ok items.bytes.read.length) = _
  split
  · rename_i hlt
    exact h.sszU32InSlice_eq hlt
  · rename_i hlt
    rw [boundary, if_neg hlt, InputRange.length_read]

theorem sszListAt_eq (h : Counted items) {index : Nat} (hlt : index < items.count) :
    sszListAt items index =
      sszListItem items (boundary items index) (boundary items (index + 1)) := by
  rw [sszListAt, if_pos hlt, h.sszU32InSlice_eq hlt, ok_bind, h.sszListStop_eq, ok_bind]

/-- From the cursor of an index, a pop is the random access at that index. -/
theorem sszListNext_cursorAt (h : Counted items) {index : Nat} (hlt : index < items.count) :
    sszListNext (cursorAt items index) =
      sszListAt items index >>= fun item => .ok (cursorAt items (index + 1), item) := by
  have hindex : (cursorAt items index).index < (cursorAt items index).items.count := hlt
  rw [sszListNext, sszListPop, if_pos hindex, h.sszListAt_eq hlt]
  change (sszListStop items index >>= _) >>= _ = _
  rw [h.sszListStop_eq, ok_bind]
  exact bind_assoc_except _ _ _

end Counted

/-! ## The items in order -/

theorem sszListItems_from {items : BoundedSszListRef input} (h : Counted items) {n index : Nat}
    (hn : index + n = items.count) (popped : List (InputRange input)) {dec} :
    loop (fun s : BoundedSszListCursor input × List (InputRange input) => sszListCursorMore s.1)
      (handOver sszListNext fun popped item => .ok (popped ++ [item]))
      (fun s => s.1.items.count - s.1.index) dec (cursorAt items index, popped) =
    ((List.range' index n).mapM (sszListAt items)) >>= fun rest =>
      .ok (cursorAt items items.count, popped ++ rest) := by
  induction n generalizing index popped with
  | zero =>
    have hdone : sszListCursorMore (cursorAt items index) = false := by
      rw [sszListCursorMore_cursorAt, decide_eq_false_iff_not]
      omega
    rw [handOver_loop_done hdone]
    simp only [List.range'_zero, List.mapM_nil, pure_eq_ok, ok_bind, List.append_nil]
    rw [← hn, Nat.add_zero]
  | succ n ih =>
    have hmore : sszListCursorMore (cursorAt items index) = true := by
      rw [sszListCursorMore_cursorAt, decide_eq_true_eq]
      omega
    rw [handOver_loop_step hmore, List.range'_succ, List.mapM_cons, handOver]
    rw [h.sszListNext_cursorAt (by omega)]
    cases sszListAt items index with
    | error e => rfl
    | ok item =>
      simp only [ok_bind]
      rw [ih (by omega)]
      cases (List.range' (index + 1) n).mapM (sszListAt items) with
      | error e => rfl
      | ok rest => simp

/-- The traversal is the traversal by index. -/
theorem sszListItems_eq {items : BoundedSszListRef input} (h : Counted items) :
    sszListItems items = (List.range items.count).mapM (sszListAt items) := by
  rw [sszListItems, sszListCursor_eq, sszListItems_from h (Nat.zero_add _), List.range_eq_range']
  cases (List.range' 0 items.count).mapM (sszListAt items) with
  | error e => rfl
  | ok rest => rfl

/-! ## Tiling -/

/-- The ranges follow each other from `start` to `stop`, without a gap or an
overlap. -/
def TilesFrom (start : Nat) : List (InputRange input) → Nat → Prop
  | [], stop => start = stop
  | range :: ranges, stop => range.bytes = start ∧ TilesFrom (start + range.len) ranges stop

theorem sszListItem_eq_ok {items : BoundedSszListRef input} {start stop : Nat}
    {item : InputRange input} (h : sszListItem items start stop = .ok item) :
    start ≤ stop ∧ stop ≤ items.bytes.len ∧ item.bytes = items.bytes.bytes + start ∧
      item.len = stop - start ∧
      (items.maxItemLength ≠ 0 → stop - start ≤ items.maxItemLength) := by
  rw [sszListItem] at h
  split at h
  · rename_i hspan
    dsimp only at h
    split at h
    · cases h
    · rename_i hmax
      cases h
      exact ⟨hspan.1, hspan.2, rfl, rfl, fun hne => Nat.le_of_not_lt fun hlt => hmax ⟨hne, hlt⟩⟩
  · cases h

theorem exists_sszListItem {items : BoundedSszListRef input} {start stop : Nat}
    (hle : start ≤ stop) (hin : stop ≤ items.bytes.len)
    (hmax : items.maxItemLength ≠ 0 → stop - start ≤ items.maxItemLength) :
    ∃ item, sszListItem items start stop = .ok item := by
  rw [sszListItem, dif_pos ⟨hle, hin⟩]
  dsimp only
  rw [if_neg]
  · exact ⟨_, rfl⟩
  · rintro ⟨hne, hlt⟩
    exact absurd (hmax hne) (Nat.not_le_of_lt hlt)

theorem Counted.tiles {items : BoundedSszListRef input} (h : Counted items) {n index : Nat}
    (hn : index + n = items.count) {popped : List (InputRange input)}
    (hpopped : (List.range' index n).mapM (sszListAt items) = .ok popped) :
    TilesFrom (items.bytes.bytes + boundary items index) popped
      (items.bytes.bytes + items.bytes.len) := by
  induction n generalizing index popped with
  | zero =>
    cases hpopped
    have hend : boundary items index = items.bytes.len := if_neg (by omega)
    exact congrArg _ hend
  | succ n ih =>
    rw [List.range'_succ, mapM_eq_ok] at hpopped
    cases hpopped with
    | @cons _ item _ rest hitem hrest =>
      rw [h.sszListAt_eq (by omega)] at hitem
      obtain ⟨hle, _, hbytes, hlen, _⟩ := sszListItem_eq_ok hitem
      have hnext := ih (by omega) (mapM_eq_ok.mpr hrest)
      refine ⟨hbytes, ?_⟩
      rw [hlen, Nat.add_assoc, Nat.add_sub_cancel' hle]
      exact hnext

/-! ## The offset table -/

/-- No item between two boundaries is over the limit of its list. -/
def ItemsWithin (items : BoundedSszListRef input) : Prop :=
  items.maxItemLength ≠ 0 → ∀ index, index < items.count →
    boundary items (index + 1) - boundary items index ≤ items.maxItemLength

/-- The offset table of a list of `count` items: it ends where the first item
starts, and its offsets ascend inside the list. -/
structure OffsetTable (bytes : List Byte) (count : Nat) : Prop where
  empty : count = 0 ↔ bytes = []
  first : 0 < count → sszU32At bytes 0 = 4 * count
  inside : ∀ index, index < count → sszU32At bytes (4 * index) ≤ bytes.length
  ascending : ∀ index, index + 1 < count →
    sszU32At bytes (4 * index) ≤ sszU32At bytes (4 * (index + 1))

/-- The first offset is not a whole number of table entries. -/
def Misaligned (bytes : List Byte) : Prop := sszU32At bytes 0 % 4 ≠ 0

/-- An offset of the table lies behind the list. -/
def OutOfRange (bytes : List Byte) : Prop :=
  ∃ index, index < sszU32At bytes 0 / 4 ∧ bytes.length < sszU32At bytes (4 * index)

/-- An offset is less than the one before it. -/
def Decreasing (bytes : List Byte) : Prop :=
  ∃ index, index + 1 < sszU32At bytes 0 / 4 ∧
    sszU32At bytes (4 * (index + 1)) < sszU32At bytes (4 * index)

/-- The count that the first offset announces is zero, or its table is longer
than the list. -/
def Miscounted (bytes : List Byte) : Prop :=
  sszU32At bytes 0 / 4 = 0 ∨ bytes.length < 4 * (sszU32At bytes 0 / 4)

/-- A table with one of these faults is none. -/
theorem OffsetTable.sound {bytes : List Byte} {count : Nat} (h : OffsetTable bytes count)
    (hne : bytes ≠ []) :
    ¬ (Misaligned bytes ∨ OutOfRange bytes ∨ Decreasing bytes ∨ Miscounted bytes) := by
  have hpos : 0 < count := Nat.pos_of_ne_zero fun hzero => hne (h.empty.mp hzero)
  have hfirst := h.first hpos
  have hcount : sszU32At bytes 0 / 4 = count := by omega
  rintro (hmis | ⟨index, hlt, hout⟩ | ⟨index, hlt, hdec⟩ | hzero | hlong)
  · exact hmis (by omega)
  · exact absurd (h.inside index (by omega)) (Nat.not_le_of_lt hout)
  · exact absurd (h.ascending index (by omega)) (Nat.not_le_of_lt hdec)
  · omega
  · have := h.inside 0 hpos
    rw [Nat.mul_zero] at this
    omega

theorem sszRawCount_eq_ok {bytes : List Byte} {count : Nat} :
    sszRawCount bytes = .ok count ↔
      (bytes = [] ∧ count = 0) ∨
        (4 ≤ bytes.length ∧ 0 < count ∧ sszU32At bytes 0 = 4 * count ∧
          4 * count ≤ bytes.length) := by
  simp only [sszRawCount, ← List.length_eq_zero_iff (l := bytes)]
  constructor
  · intro h
    split at h
    · rename_i hnil
      cases h
      exact .inl ⟨hnil, rfl⟩
    · split at h
      · cases h
      · split at h
        · cases h
        · rename_i hchecks
          cases h
          exact .inr (by omega)
  · rintro (⟨hnil, rfl⟩ | ⟨hlong, hpos, hfirst, hin⟩)
    · rw [if_pos hnil]
    · rw [if_neg (by omega), if_neg (by omega), if_neg (by omega)]
      exact congrArg _ (by omega)

/-- What a list reference is built from. -/
theorem sszBoundedVariableListRef_eq_ok {bytes : InputRange input}
    {maximumCount maximumItemLength : Nat} {items : BoundedSszListRef input} :
    sszBoundedVariableListRef bytes maximumCount maximumItemLength = .ok items ↔
      items = ⟨bytes, items.count, maximumItemLength⟩ ∧ sszRawCount bytes.read = .ok items.count ∧
        items.count ≤ maximumCount := by
  rw [sszBoundedVariableListRef]
  constructor
  · intro h
    obtain ⟨n, hn, h⟩ := bind_eq_ok.mp h
    split at h
    · rename_i hle
      cases h
      exact ⟨rfl, hn, hle⟩
    · cases h
  · rintro ⟨hitems, hn, hle⟩
    rw [hn, ok_bind, if_pos hle, ← hitems]

theorem counted_of_build {bytes : InputRange input} {maximumCount maximumItemLength : Nat}
    {items : BoundedSszListRef input}
    (h : sszBoundedVariableListRef bytes maximumCount maximumItemLength = .ok items) :
    Counted items := by
  obtain ⟨hitems, hcount, _⟩ := sszBoundedVariableListRef_eq_ok.mp h
  rw [hitems]
  rcases sszRawCount_eq_ok.mp hcount with ⟨hnil, hzero⟩ | ⟨_, hpos, hfirst, hin⟩
  · have hlen := bytes.length_read
    rw [hnil, List.length_nil] at hlen
    refine ⟨?_, ?_⟩
    · rw [hzero]
      exact Nat.zero_le _
    · rw [boundary, if_neg (Nat.not_lt.mpr (Nat.le_of_eq hzero)), hzero]
      exact hlen.symm
  · rw [bytes.length_read] at hin
    refine ⟨hin, ?_⟩
    rw [boundary, if_pos hpos]
    exact hfirst

/-- The traversal returns when every random access does. -/
theorem exists_sszListItems {items : BoundedSszListRef input} (h : Counted items) :
    (∃ popped, sszListItems items = .ok popped) ↔
      ∀ index, index < items.count → ∃ item, sszListAt items index = .ok item := by
  rw [sszListItems_eq h, exists_mapM_eq_ok]
  simp only [List.mem_range]

theorem boundary_of_lt {items : BoundedSszListRef input} {index : Nat} (h : index < items.count) :
    boundary items index = sszU32At items.bytes.read (4 * index) := if_pos h

theorem boundary_of_ge {items : BoundedSszListRef input} {index : Nat} (h : items.count ≤ index) :
    boundary items index = items.bytes.len := if_neg (Nat.not_lt.mpr h)

/-- A list whose items are all there has an offset table, and no item is over
its limit. -/
theorem offsetTable_of_items {bytes : InputRange input} {maximumCount maximumItemLength : Nat}
    {items : BoundedSszListRef input}
    (hbuild : sszBoundedVariableListRef bytes maximumCount maximumItemLength = .ok items)
    (hitems : ∀ index, index < items.count → ∃ item, sszListAt items index = .ok item) :
    OffsetTable bytes.read items.count ∧ ItemsWithin items := by
  obtain ⟨heq, hcount, _⟩ := sszBoundedVariableListRef_eq_ok.mp hbuild
  have hcounted := counted_of_build hbuild
  have hbytes : items.bytes = bytes := by rw [heq]
  have hspan : ∀ index, index < items.count →
      boundary items index ≤ boundary items (index + 1) ∧
        boundary items (index + 1) ≤ items.bytes.len ∧ (items.maxItemLength ≠ 0 →
          boundary items (index + 1) - boundary items index ≤ items.maxItemLength) := by
    intro index hlt
    obtain ⟨item, hitem⟩ := hitems index hlt
    rw [hcounted.sszListAt_eq hlt] at hitem
    obtain ⟨hle, hin, _, _, hlimit⟩ := sszListItem_eq_ok hitem
    exact ⟨hle, hin, hlimit⟩
  rw [hbytes] at hspan
  refine ⟨⟨?_, ?_, ?_, ?_⟩, fun hne index hlt => (hspan index hlt).2.2 hne⟩
  · rcases sszRawCount_eq_ok.mp hcount with ⟨hnil, hzero⟩ | ⟨hlong, hpos, _, _⟩
    · exact ⟨fun _ => hnil, fun _ => hzero⟩
    · refine ⟨fun hzero => absurd hzero (by omega), fun hnil => ?_⟩
      rw [hnil, List.length_nil] at hlong
      omega
  · intro hpos
    rcases sszRawCount_eq_ok.mp hcount with ⟨_, hzero⟩ | ⟨_, _, hfirst, _⟩
    · omega
    · exact hfirst
  · intro index hlt
    have hle := (hspan index hlt).1.trans (hspan index hlt).2.1
    rwa [boundary_of_lt hlt, hbytes, ← bytes.length_read] at hle
  · intro index hlt
    have hle := (hspan index (by omega)).1
    rwa [boundary_of_lt (by omega), boundary_of_lt hlt, hbytes] at hle

/-- A list with an offset table is built, and all of its items are there. -/
theorem items_of_offsetTable {bytes : InputRange input} {maximumCount maximumItemLength : Nat}
    {items : BoundedSszListRef input} (heq : items = ⟨bytes, items.count, maximumItemLength⟩)
    (htable : OffsetTable bytes.read items.count) (hcount : items.count ≤ maximumCount)
    (hlimit : ItemsWithin items) :
    sszBoundedVariableListRef bytes maximumCount maximumItemLength = .ok items ∧
      ∀ index, index < items.count → ∃ item, sszListAt items index = .ok item := by
  have hbytes : items.bytes = bytes := by rw [heq]
  have hraw : sszRawCount bytes.read = .ok items.count := by
    rw [sszRawCount_eq_ok]
    rcases Nat.eq_zero_or_pos items.count with hzero | hpos
    · exact .inl ⟨htable.empty.mp hzero, hzero⟩
    · have hfirst := htable.first hpos
      have hin := htable.inside 0 hpos
      rw [Nat.mul_zero] at hin
      exact .inr ⟨by omega, hpos, hfirst, by omega⟩
  have hbuild := sszBoundedVariableListRef_eq_ok.mpr ⟨heq, hraw, hcount⟩
  have hcounted := counted_of_build hbuild
  refine ⟨hbuild, fun index hlt => ?_⟩
  rw [hcounted.sszListAt_eq hlt]
  have hinside := htable.inside
  rw [bytes.length_read] at hinside
  refine exists_sszListItem ?_ ?_ fun hne => hlimit hne index hlt
  · rcases Nat.lt_or_ge (index + 1) items.count with hnext | hlast
    · rw [boundary_of_lt hlt, boundary_of_lt hnext, hbytes]
      exact htable.ascending index hnext
    · rw [boundary_of_lt hlt, boundary_of_ge hlast, hbytes]
      exact hinside index hlt
  · rcases Nat.lt_or_ge (index + 1) items.count with hnext | hlast
    · rw [boundary_of_lt hnext, hbytes]
      exact hinside (index + 1) hnext
    · rw [boundary_of_ge hlast]

theorem sszListItem_ends (items : BoundedSszListRef input) (start stop : Nat) :
    Ends (fun _ => True) (· = .fatal .invalidConfig) (sszListItem items start stop) := by
  rw [sszListItem]
  split
  · exact Ends.ite (fun _ => rfl) fun _ => trivial
  · exact rfl

theorem sszListItems_ends {items : BoundedSszListRef input} (h : Counted items) :
    Ends (fun _ => True) (· = .fatal .invalidConfig) (sszListItems items) := by
  rw [sszListItems_eq h]
  have hat : ∀ index ∈ List.range items.count,
      Ends (fun _ => True) (· = .fatal .invalidConfig) (sszListAt items index) := by
    intro index hindex
    rw [h.sszListAt_eq (List.mem_range.mp hindex)]
    exact sszListItem_ends _ _ _
  generalize List.range items.count = indices at hat
  induction indices with
  | nil => trivial
  | cons index indices ih =>
    rw [List.mapM_cons]
    refine (hat index List.mem_cons_self).bind fun _ _ => ?_
    exact (ih fun i hi => hat i (List.mem_cons_of_mem _ hi)).bind fun _ _ => trivial

/-- A list is built and traversed, or rejected. -/
theorem sszBoundedVariableListRef_ends (bytes : InputRange input)
    (maximumCount maximumItemLength : Nat) :
    Ends (fun _ => True) (· = .fatal .invalidConfig)
      (sszBoundedVariableListRef bytes maximumCount maximumItemLength >>= sszListItems) := by
  have hraw : Ends (fun _ => True) (· = .fatal .invalidConfig) (sszRawCount bytes.read) := by
    simp only [sszRawCount]
    refine Ends.ite (fun _ => trivial) fun _ => Ends.ite (fun _ => rfl) fun _ => ?_
    exact Ends.ite (fun _ => rfl) fun _ => trivial
  have hbuild : Ends (fun items => Counted items) (· = .fatal .invalidConfig)
      (sszBoundedVariableListRef bytes maximumCount maximumItemLength) := by
    have hends : Ends (fun _ => True) (· = .fatal .invalidConfig)
        (sszBoundedVariableListRef bytes maximumCount maximumItemLength) :=
      hraw.bind fun _ _ => Ends.ite (fun _ => trivial) fun _ => rfl
    cases h : sszBoundedVariableListRef bytes maximumCount maximumItemLength with
    | error e => exact hends.of_error h
    | ok items => exact counted_of_build h
  exact hbuild.bind fun items h => sszListItems_ends h

/-- Popping a list to its end is reading it by index: it succeeds when every
index can be read, it gives the same ranges, and these tile what is behind the
offset table.  It succeeds for the lists with an offset table, whose items
respect the limits, and rejects every faulty table. -/
theorem sszListItems_agrees (bytes : InputRange input) (maximumCount maximumItemLength : Nat) :
    (∀ items, sszBoundedVariableListRef bytes maximumCount maximumItemLength = .ok items →
      ((∃ popped, sszListItems items = .ok popped) ↔
        ∀ index, index < items.count → ∃ item, sszListAt items index = .ok item) ∧
      ∀ popped, sszListItems items = .ok popped →
        popped.length = items.count ∧
          (∀ index (h : index < popped.length), sszListAt items index = .ok popped[index]) ∧
          TilesFrom (bytes.bytes + 4 * items.count) popped (bytes.bytes + bytes.len)) ∧
    ((∃ popped, (sszBoundedVariableListRef bytes maximumCount maximumItemLength >>=
        sszListItems) = .ok popped) ↔
      ∃ count, OffsetTable bytes.read count ∧ count ≤ maximumCount ∧
        ItemsWithin ⟨bytes, count, maximumItemLength⟩) ∧
    (bytes.read ≠ [] → (Misaligned bytes.read ∨ OutOfRange bytes.read ∨ Decreasing bytes.read ∨
        Miscounted bytes.read) →
      (sszBoundedVariableListRef bytes maximumCount maximumItemLength >>= sszListItems) =
        fatalError .invalidConfig) := by
  have htraversal : (∃ popped, (sszBoundedVariableListRef bytes maximumCount maximumItemLength >>=
        sszListItems) = .ok popped) ↔
      ∃ count, OffsetTable bytes.read count ∧ count ≤ maximumCount ∧
        ItemsWithin ⟨bytes, count, maximumItemLength⟩ := by
    constructor
    · rintro ⟨popped, h⟩
      obtain ⟨items, hbuild, hpopped⟩ := bind_eq_ok.mp h
      have hitems := (exists_sszListItems (counted_of_build hbuild)).mp ⟨popped, hpopped⟩
      obtain ⟨heq, _, hle⟩ := sszBoundedVariableListRef_eq_ok.mp hbuild
      obtain ⟨htable, hlimit⟩ := offsetTable_of_items hbuild hitems
      refine ⟨items.count, htable, hle, ?_⟩
      rw [← heq]
      exact hlimit
    · rintro ⟨count, htable, hle, hlimit⟩
      obtain ⟨hbuild, hitems⟩ := @items_of_offsetTable input bytes maximumCount maximumItemLength
        ⟨bytes, count, maximumItemLength⟩ rfl htable hle hlimit
      obtain ⟨popped, hpopped⟩ := (exists_sszListItems (counted_of_build hbuild)).mpr hitems
      exact ⟨popped, by rw [hbuild, ok_bind, hpopped]⟩
  refine ⟨fun items hbuild => ?_, htraversal, fun hne hfault => ?_⟩
  · have hcounted := counted_of_build hbuild
    refine ⟨exists_sszListItems hcounted, fun popped hpopped => ?_⟩
    rw [sszListItems_eq hcounted] at hpopped
    have hall := mapM_eq_ok.mp hpopped
    have hlen : popped.length = items.count := by rw [← hall.length_eq, List.length_range]
    refine ⟨hlen, fun index h => ?_, ?_⟩
    · have hindex := @List.Forall₂.get _ _ _ _ _ hall index (by simpa using hlen ▸ h) h
      simpa using hindex
    · rw [List.range_eq_range'] at hpopped
      have htiles := hcounted.tiles (Nat.zero_add _) hpopped
      rw [hcounted.start] at htiles
      rw [(sszBoundedVariableListRef_eq_ok.mp hbuild).1] at htiles
      exact htiles
  · have hends := sszBoundedVariableListRef_ends bytes maximumCount maximumItemLength
    cases hrun : sszBoundedVariableListRef bytes maximumCount maximumItemLength >>=
        sszListItems with
    | error e => exact congrArg Except.error (hends.of_error hrun)
    | ok popped =>
      obtain ⟨count, htable, _⟩ := htraversal.mp ⟨popped, hrun⟩
      exact absurd hfault (htable.sound hne)

end Ranged

end EvmSail
