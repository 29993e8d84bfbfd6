/-
# `EvmSail.Ssz.Reading` — scalars and lists in an SSZ source

The scalar readers of `lib/ssz/ssz.sail` and the list references of
`lib/ssz/stateless_input.sail`.  A list reference is the bytes of its
region and an element count; the elements of a list of variable-size items
are found through the table of offsets at its front, by index
(`sszListAt`) or one after the other (`sszListPop`).

A reader of a fixed field returns zero bytes past the end of its slice, as
the host does.  That no decoder relies on it is part of what is proved
about the decoders.
-/
import EvmSail.Prelude

namespace EvmSail

open Fallible

/-! ## Scalars -/

/-- A little-endian `uint32` of an offset table. -/
def sszU32At (input : StatelessInputSlice) (offset : Nat) : Nat :=
  let b0 := (sliceByte input offset).zeroExtend 32
  let b1 := (sliceByte input (offset + 1)).zeroExtend 32
  let b2 := (sliceByte input (offset + 2)).zeroExtend 32
  let b3 := (sliceByte input (offset + 3)).zeroExtend 32
  (b0 ||| (b1 <<< 8 ||| (b2 <<< 16 ||| b3 <<< 24))).toNat

/-- An entry of an offset table inside its slice. -/
def sszU32InSlice (input : StatelessInputSlice) (offset : Nat) : Result Nat :=
  if offset ≤ input.length ∧ 4 ≤ input.length - offset then .ok (sszU32At input offset)
  else fatalError .invalidConfig

/-- An eight-byte little-endian quantity. -/
def decodeSszUint (input : List Byte) (offset : Nat) : Nat :=
  (sliceByte input offset).toNat
    + (sliceByte input (offset + 1)).toNat * 2 ^ 8
    + (sliceByte input (offset + 2)).toNat * 2 ^ 16
    + (sliceByte input (offset + 3)).toNat * 2 ^ 24
    + (sliceByte input (offset + 4)).toNat * 2 ^ 32
    + (sliceByte input (offset + 5)).toNat * 2 ^ 40
    + (sliceByte input (offset + 6)).toNat * 2 ^ 48
    + (sliceByte input (offset + 7)).toNat * 2 ^ 56

/-- A big-endian 32-byte field. -/
def sszBytes32 (input : List Byte) (offset : Nat) : Hash := wordToHash (sliceLoad input offset)

/-- A little-endian 32-byte integer, by Horner's rule from its last byte. -/
def sszU256 (input : List Byte) (offset : Nat) : Word :=
  (List.range 32).foldl
    (fun result k => result * 256 + (sliceByte input (offset + (31 - k))).setWidth 256) 0

/-- The 20 bytes of an address. -/
def sszAddr (input : List Byte) (offset : Nat) : Address :=
  wordToAddress (sliceLoadN input offset 20)

/-! ## Lists -/

/-- `transaction_count_bound`: the largest schema bound of the indexed
collections. -/
def transactionCountBound : Nat := 2 ^ 20

/-- A list of the stateless input: an offset table and its items, or the
items alone when they have one width. -/
structure BoundedSszListRef where
  bytes : StatelessInputSlice
  count : Nat
  maxItemLength : Nat

/-- The byte position of an entry of an offset table. -/
def sszOffsetTablePosition (index : Nat) : Nat := index * 4

/-- Where the item after `index` starts; the end of the list for the last. -/
def sszListStop (items : BoundedSszListRef) (index : Nat) : Result Nat :=
  if index + 1 < items.count then
    sszU32InSlice items.bytes (sszOffsetTablePosition (index + 1))
  else
    .ok items.bytes.length

/-- A variable-width item, from its two adjacent offsets. -/
def sszListAt (items : BoundedSszListRef) (index : Nat) : Result StatelessInputSlice :=
  if index < items.count then do
    let start ← sszU32InSlice items.bytes (sszOffsetTablePosition index)
    let stop ← sszListStop items index
    if start ≤ stop ∧ stop ≤ items.bytes.length then
      let itemLength := stop - start
      if items.maxItemLength ≠ 0 ∧ items.maxItemLength < itemLength then
        fatalError .invalidConfig
      else
        .ok (subSlice items.bytes start itemLength)
    else
      fatalError .invalidConfig
  else
    fatalError .invalidConfig

/-- An item of a list of items of one width. -/
def sszFixedListAt (items : BoundedSszListRef) (index itemSize : Nat) :
    Result StatelessInputSlice :=
  let offset := index * itemSize
  if index < items.count ∧ offset + itemSize ≤ items.bytes.length then
    .ok (subSlice items.bytes offset itemSize)
  else
    fatalError .invalidConfig

/-- A position in a list of variable-width items. -/
structure BoundedSszListCursor where
  items : BoundedSszListRef
  index : Nat
  current : Nat

/-- A cursor at the first item. -/
def sszListCursor (items : BoundedSszListRef) : BoundedSszListCursor :=
  let current := if items.count ≠ 0 then sszU32At items.bytes 0 else items.bytes.length
  ⟨items, 0, current⟩

def sszListCursorEmpty (cursor : BoundedSszListCursor) : Bool :=
  cursor.items.count ≤ cursor.index

/-- The next item, and the advanced cursor. -/
def sszListPop (cursor : BoundedSszListCursor) :
    Result (StatelessInputSlice × BoundedSszListCursor) :=
  if cursor.index < cursor.items.count then do
    let next ← sszListStop cursor.items cursor.index
    if cursor.current ≤ next ∧ next ≤ cursor.items.bytes.length then
      let itemLength := next - cursor.current
      if cursor.items.maxItemLength ≠ 0 ∧ cursor.items.maxItemLength < itemLength then
        fatalError .invalidConfig
      else
        .ok (subSlice cursor.items.bytes cursor.current itemLength,
          ⟨cursor.items, cursor.index + 1, next⟩)
    else
      fatalError .invalidConfig
  else
    fatalError .invalidConfig

/-- An item is taken when the next offset ends it within its limit. -/
theorem sszListPop_eq_ok {cursor next : BoundedSszListCursor} {item : List Byte} :
    sszListPop cursor = .ok (item, next) ↔
      cursor.index < cursor.items.count ∧
        sszListStop cursor.items cursor.index = .ok next.current ∧
        cursor.current ≤ next.current ∧ next.current ≤ cursor.items.bytes.length ∧
        ¬ (cursor.items.maxItemLength ≠ 0 ∧
          cursor.items.maxItemLength < next.current - cursor.current) ∧
        item = subSlice cursor.items.bytes cursor.current (next.current - cursor.current) ∧
        next = ⟨cursor.items, cursor.index + 1, next.current⟩ := by
  rw [sszListPop]
  constructor
  · intro h
    split at h
    · rename_i hlt
      obtain ⟨stop, hstop, h⟩ := bind_eq_ok.mp h
      split at h
      · rename_i hspan
        simp only at h
        split at h
        · cases h
        · rename_i hmax
          cases h
          exact ⟨hlt, hstop, hspan.1, hspan.2, hmax, rfl, rfl⟩
      · cases h
    · cases h
  · rintro ⟨hlt, hstop, hle, hin, hmax, rfl, hnext⟩
    rw [if_pos hlt, hstop, ok_bind, if_pos ⟨hle, hin⟩, if_neg hmax, ← hnext]

/-- The element count that the first offset of a list announces. -/
def sszRawCount (bytes : StatelessInputSlice) : Result Nat :=
  let span := bytes.length
  if span = 0 then .ok 0
  else if span < 4 then fatalError .invalidConfig
  else
    let firstOffset := sszU32At bytes 0
    let count := firstOffset / 4
    if firstOffset % 4 ≠ 0 ∨ count = 0 ∨ firstOffset > span then fatalError .invalidConfig
    else .ok count

/-- A list of variable-width items with its limits attached.  The lengths of
the items are checked when they are reached. -/
def sszBoundedVariableListRef (bytes : StatelessInputSlice)
    (maximumCount maximumItemLength : Nat) : Result BoundedSszListRef := do
  let rawCount ← sszRawCount bytes
  if rawCount ≤ maximumCount then .ok ⟨bytes, rawCount, maximumItemLength⟩
  else fatalError .invalidConfig

/-- A list of items of one width. -/
def sszBoundedFixedListRef (bytes : StatelessInputSlice) (itemSize maximumCount : Nat) :
    Result BoundedSszListRef :=
  if 0 < itemSize then
    let span := bytes.length
    let rawCount := span / itemSize
    if span ≠ rawCount * itemSize then fatalError .invalidConfig
    else if rawCount ≤ maximumCount then .ok ⟨bytes, rawCount, itemSize⟩
    else fatalError .invalidConfig
  else fatalError .invalidConfig

theorem sszBoundedFixedListRef_eq_ok {bytes : StatelessInputSlice} {itemSize maximumCount : Nat}
    (hsize : 0 < itemSize) {items : BoundedSszListRef} :
    sszBoundedFixedListRef bytes itemSize maximumCount = .ok items ↔
      items.bytes = bytes ∧ bytes.length = items.count * itemSize ∧
        items.maxItemLength = itemSize ∧ items.count ≤ maximumCount := by
  rw [sszBoundedFixedListRef, if_pos hsize]
  simp only
  constructor
  · intro h
    split at h
    · cases h
    · rename_i hspan
      split at h
      · rename_i hcount
        cases h
        exact ⟨rfl, not_not.mp hspan, rfl, hcount⟩
      · cases h
  · rintro ⟨rfl, hlen, hmax, hle⟩
    have hcount : items.bytes.length / itemSize = items.count := by
      rw [hlen, Nat.mul_div_cancel _ hsize]
    rw [hcount, if_neg (not_not.mpr hlen), if_pos hle, ← hmax]

theorem sszBoundedVariableListRef_eq_ok {bytes : StatelessInputSlice}
    {maximumCount maximumItemLength : Nat} {items : BoundedSszListRef} :
    sszBoundedVariableListRef bytes maximumCount maximumItemLength = .ok items ↔
      items.bytes = bytes ∧ sszRawCount bytes = .ok items.count ∧
        items.maxItemLength = maximumItemLength ∧ items.count ≤ maximumCount := by
  rw [sszBoundedVariableListRef]
  constructor
  · intro h
    obtain ⟨n, hn, h₁⟩ := bind_eq_ok.mp h
    split at h₁
    · rename_i hle
      cases h₁
      exact ⟨rfl, hn, rfl, hle⟩
    · cases h₁
  · rintro ⟨rfl, hn, rfl, hle⟩
    rw [hn, ok_bind, if_pos hle]

end EvmSail
