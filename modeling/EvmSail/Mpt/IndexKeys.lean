/-
# `EvmSail.Mpt.IndexKeys` — ordered trie indices

Transaction, withdrawal and receipt tries use RLP-encoded list indices as
keys.  Their trie order differs from numeric order, so the cursor of the
source hands out the indices of a list directly in key order.

`visited_perm` and `visited_ascending` say that it hands out every index
of the list exactly once, and the keys strictly ascending.
-/
import EvmSail.Mpt.Path
import EvmSail.Lib.PrefixOrder
import EvmSail.Ssz.Reading
import EvmSail.Rlp.Encoding

namespace EvmSail

open Fallible Radix

/-! ## Keys -/

/-- The minimal byte width of an indexed-trie position. -/
def rlpIndexEncodedWidth (value : Nat) : Nat :=
  if value < 256 then 1
  else if value < 65536 then 2
  else if value < 16777216 then 3
  else if value < 4294967296 then 4
  else if value < 1099511627776 then 5
  else if value < 281474976710656 then 6
  else if value < 72057594037927936 then 7
  else 8

/-- The `while` of `trie_index_key`: the low `remaining` bytes of the
index, most significant first. -/
def appendIndexBytes (index : Nat) : Nat → TriePath → Result TriePath
  | 0, path => .ok path
  | byteOffset + 1, path => do
    let encodedIndex := BitVec.ofNat 8 (index >>> (byteOffset * 8))
    let path ← pathAppendByte path encodedIndex
    appendIndexBytes index byteOffset path

/-- The key of list index `i`: `rlp(i)` as a nibble path. -/
def trieIndexKey (index : Nat) : Result TriePath :=
  if index = 0 then
    pathAppendByte pathEmpty 0x80
  else if index ≤ 127 then
    pathAppendByte pathEmpty (BitVec.ofNat 8 index)
  else do
    let width := rlpIndexEncodedWidth index
    let path ← pathAppendByte pathEmpty (BitVec.ofNat 8 (128 + width))
    appendIndexBytes index width path

/-! ## The cursor -/

/-- One numeric index and its trie key. -/
structure RlpIndexItem where
  index : Nat
  key : TriePath

/-- The item count, the next key-order position and its item, which counts
only when `position < count`. -/
structure RlpIndexCursor where
  count : Nat
  position : Nat
  current : RlpIndexItem

/-- The numeric index at a key-order position of a list of `count`. -/
def rlpIndexAtPosition (cursor : RlpIndexCursor) : Result Nat :=
  let count := cursor.count
  let position := cursor.position
  if position < count then
    let rest := count - 1
    let singleCount := if rest < 127 then rest else 127
    if position < singleCount then .ok (position + 1)
    else if position = singleCount then .ok 0
    else .ok position
  else
    fatalError .witnessDeficient

/-- The cursor at a position, its item loaded when there is one. -/
def rlpIndexLoad (cursor : RlpIndexCursor) : Result RlpIndexCursor :=
  if cursor.position < cursor.count then do
    let index ← rlpIndexAtPosition cursor
    let key ← trieIndexKey index
    .ok { cursor with current := { index := index, key := key } }
  else
    .ok cursor

/-- Starts the traversal of a list of `count` items. -/
def rlpIndexCursor (count : Nat) : Result RlpIndexCursor :=
  rlpIndexLoad { count := count, position := 0, current := { index := 0, key := pathEmpty } }

/-- Whether every index has been consumed. -/
def rlpIndexCursorEmpty (cursor : RlpIndexCursor) : Bool := cursor.position == cursor.count

/-- The current item. -/
def rlpIndexCursorPeek (cursor : RlpIndexCursor) : Result RlpIndexItem :=
  if cursor.position < cursor.count then .ok cursor.current else fatalError .witnessDeficient

/-- Consumes the current position. -/
def rlpIndexCursorAdvance (cursor : RlpIndexCursor) : Result RlpIndexCursor :=
  if cursor.position < cursor.count then
    rlpIndexLoad
      { count := cursor.count
        position := cursor.position + 1
        current := { index := 0, key := pathEmpty } }
  else
    fatalError .witnessDeficient

/-- Removes the current item. -/
def rlpIndexCursorPop (cursor : RlpIndexCursor) : Result (RlpIndexItem × RlpIndexCursor) := do
  let item ← rlpIndexCursorPeek cursor
  let next ← rlpIndexCursorAdvance cursor
  .ok (item, next)

/-! ## The key of an index -/

/-- The nibbles of a byte string, high nibble first. -/
def nibblesOf (bytes : List Byte) : List Nibble :=
  bytes.flatMap fun b => [highNibble b, lowNibble b]

theorem nibblesOf_cons (b : Byte) (bytes : List Byte) :
    nibblesOf (b :: bytes) = highNibble b :: lowNibble b :: nibblesOf bytes := rfl

theorem nibblesOf_append (bs bs' : List Byte) :
    nibblesOf (bs ++ bs') = nibblesOf bs ++ nibblesOf bs' :=
  List.flatMap_append

theorem length_nibblesOf (bs : List Byte) : (nibblesOf bs).length = 2 * bs.length := by
  induction bs with
  | nil => rfl
  | cons b bs ih =>
    rw [nibblesOf_cons, List.length_cons, List.length_cons, List.length_cons, ih]
    omega

/-- `rlp(i)` as nibbles. -/
def indexKey (i : Nat) : List Nibble := nibblesOf (rlpBytes (bigEndian i))

theorem pathAppendByte_eq {p : TriePath} (b : Byte) (h : p.nibbles.length + 2 ≤ 64) :
    pathAppendByte p b = .ok (.ofNibbles (p.nibbles ++ [highNibble b, lowNibble b])) := by
  have hp : (TriePath.ofNibbles (p.nibbles ++ [highNibble b])).nibbles =
      p.nibbles ++ [highNibble b] := TriePath.nibbles_ofNibbles (by simp; omega)
  rw [pathAppendByte, pathAppendNibble_eq, if_pos (by omega), ok_bind, pathAppendNibble_eq, hp,
    if_pos (by simp; omega)]
  simp

/-- Bytes of a number from the most significant one on. -/
theorem bytesOfNat_succ_cons (len v : Nat) :
    bytesOfNat (len + 1) v = BitVec.ofNat 8 (v / 256 ^ len) :: bytesOfNat len v := by
  induction len generalizing v with
  | zero => simp [bytesOfNat]
  | succ len ih =>
    have hsplit : bytesOfNat (len + 1) v = bytesOfNat len (v / 256) ++ [BitVec.ofNat 8 v] := rfl
    rw [bytesOfNat, ih, List.cons_append, ← hsplit, Nat.div_div_eq_div_mul, ← Nat.pow_succ']

theorem appendIndexBytes_eq (index r : Nat) (p : TriePath) (h : p.nibbles.length + 2 * r ≤ 64) :
    appendIndexBytes index r p =
      .ok (.ofNibbles (p.nibbles ++ nibblesOf (bytesOfNat r index))) := by
  induction r generalizing p with
  | zero => simp [appendIndexBytes, bytesOfNat, nibblesOf]
  | succ r ih =>
    have hshift : index >>> (r * 8) = index / 256 ^ r := by
      rw [Nat.shiftRight_eq_div_pow, Nat.mul_comm, Nat.pow_mul]
    have hp : ∀ b : Byte, (TriePath.ofNibbles (p.nibbles ++ [highNibble b, lowNibble b])).nibbles =
        p.nibbles ++ [highNibble b, lowNibble b] :=
      fun b => TriePath.nibbles_ofNibbles (by simp; omega)
    rw [appendIndexBytes, hshift, pathAppendByte_eq _ (by omega), ok_bind,
      ih _ (by simp [hp]; omega), hp, bytesOfNat_succ_cons, nibblesOf_cons]
    simp

theorem byteLength_eq {v k : Nat} (hlo : 256 ^ k ≤ v) (hhi : v < 256 ^ (k + 1)) :
    byteLength v = k + 1 := by
  have h₁ := byteLength_le_iff.mpr hhi
  have h₂ : ¬ byteLength v ≤ k := fun h => absurd (byteLength_le_iff.mp h) (Nat.not_lt.mpr hlo)
  omega

theorem rlpIndexEncodedWidth_eq {i : Nat} (hpos : 0 < i) (hi : i < 2 ^ 64) :
    rlpIndexEncodedWidth i = byteLength i := by
  unfold rlpIndexEncodedWidth
  split
  · exact (byteLength_eq (k := 0) (by omega) (by omega)).symm
  split
  · exact (byteLength_eq (k := 1) (by omega) (by omega)).symm
  split
  · exact (byteLength_eq (k := 2) (by omega) (by omega)).symm
  split
  · exact (byteLength_eq (k := 3) (by omega) (by omega)).symm
  split
  · exact (byteLength_eq (k := 4) (by omega) (by omega)).symm
  split
  · exact (byteLength_eq (k := 5) (by omega) (by omega)).symm
  split
  · exact (byteLength_eq (k := 6) (by omega) (by omega)).symm
  · exact (byteLength_eq (k := 7) (by omega) (by omega)).symm

/-- The encodings of small, and of larger, indices. -/
theorem rlpBytes_bigEndian_small {i : Nat} (hpos : 0 < i) (hi : i ≤ 127) :
    rlpBytes (bigEndian i) = [BitVec.ofNat 8 i] := by
  have hlen : byteLength i = 1 := byteLength_eq (k := 0) (by omega) (by omega)
  have hb : bigEndian i = [BitVec.ofNat 8 i] := by
    rw [bigEndian, hlen]
    rfl
  refine rlpBytes_of_selfEncoded ⟨BitVec.ofNat 8 i, hb, ?_⟩ |>.trans hb
  rw [BitVec.toNat_ofNat]
  omega

theorem rlpBytes_bigEndian_large {i : Nat} (hlo : 127 < i) (hi : i < 2 ^ 64) :
    rlpBytes (bigEndian i) =
      BitVec.ofNat 8 (128 + byteLength i) :: bytesOfNat (byteLength i) i := by
  have hns : ¬ SelfEncoded (bigEndian i) := by
    rintro ⟨x, hx, hlt⟩
    have h := natOfBytes_bigEndian i
    rw [hx] at h
    have : x.toNat = i := by simpa [natOfBytes] using h
    omega
  have hlen : byteLength i ≤ 8 := byteLength_le_iff.mpr hi
  rw [rlpBytes_of_not_selfEncoded hns, length_bigEndian, rlpHeader, if_pos (by omega)]
  rfl

/-- The key the source builds is `rlp(i)`. -/
theorem trieIndexKey_eq {i : Nat} (hi : i < 2 ^ 64) :
    trieIndexKey i = .ok (.ofNibbles (indexKey i)) := by
  unfold trieIndexKey
  split
  · rename_i h
    subst h
    rw [pathAppendByte_eq _ (by simp), nibbles_pathEmpty]
    rfl
  split
  · rw [pathAppendByte_eq _ (by simp), nibbles_pathEmpty, indexKey,
      rlpBytes_bigEndian_small (by omega) (by omega)]
    rfl
  · have hlen : byteLength i ≤ 8 := byteLength_le_iff.mpr hi
    have hp : ∀ b : Byte, (TriePath.ofNibbles ([] ++ [highNibble b, lowNibble b])).nibbles =
        [highNibble b, lowNibble b] := fun b => TriePath.nibbles_ofNibbles (by simp)
    simp only [rlpIndexEncodedWidth_eq (Nat.pos_of_ne_zero ‹_›) hi]
    rw [pathAppendByte_eq _ (by simp), nibbles_pathEmpty, ok_bind,
      appendIndexBytes_eq _ _ _ (by rw [hp]; simp; omega),
      hp, indexKey, rlpBytes_bigEndian_large (by omega) hi, nibblesOf_cons]
    rfl

theorem length_indexKey_le {i : Nat} (hi : i < 2 ^ 64) : (indexKey i).length ≤ 18 := by
  have hlen : byteLength i ≤ 8 := byteLength_le_iff.mpr hi
  have := length_rlpBytes_short (b := bigEndian i) (by rw [length_bigEndian]; omega)
  rw [length_bigEndian] at this
  rw [indexKey, length_nibblesOf]
  omega

/-! ## The order of the keys -/

theorem precedes_nibblesOf {bs bs' : List Byte} (h : Precedes bs bs') :
    Precedes (nibblesOf bs) (nibblesOf bs') := by
  obtain ⟨p, x, y, r, r', rfl, rfl, hxy⟩ := h
  rw [nibblesOf_append, nibblesOf_append, nibblesOf_cons, nibblesOf_cons]
  refine Precedes.append_left ?_ _
  have hlt : x.toNat < y.toNat := hxy
  have hx := Nat.div_add_mod x.toNat 16
  have hy := Nat.div_add_mod y.toNat 16
  rcases Nat.lt_or_ge (x.toNat / 16) (y.toNat / 16) with hhi | hhi
  · exact ⟨[], _, _, _, _, rfl, rfl, hhi⟩
  · have heq : highNibble x = highNibble y := Fin.ext (by
      show x.toNat / 16 = y.toNat / 16
      omega)
    rw [heq]
    exact ⟨[highNibble y], _, _, _, _, rfl, rfl, by
      show x.toNat % 16 < y.toNat % 16
      omega⟩

/-- Big-endian forms of one width are ordered as the numbers. -/
theorem precedes_bytesOfNat {len i j : Nat} (hij : i < j) (hj : j < 256 ^ len) :
    Precedes (bytesOfNat len i) (bytesOfNat len j) := by
  induction len generalizing i j with
  | zero => simp at hj; omega
  | succ len ih =>
    rw [bytesOfNat, bytesOfNat]
    rcases Nat.lt_or_ge (i / 256) (j / 256) with h | h
    · refine (ih h ?_).append_right _ _
      rw [Nat.div_lt_iff_lt_mul (by omega), ← Nat.pow_succ]
      exact hj
    · have heq : i / 256 = j / 256 := by omega
      rw [heq]
      refine ⟨bytesOfNat len (j / 256), _, _, [], [], rfl, rfl, ?_⟩
      rw [BitVec.lt_def, BitVec.toNat_ofNat, BitVec.toNat_ofNat]
      omega

theorem precedes_of_head {x y : Byte} (r r' : List Byte) (h : x.toNat < y.toNat) :
    Precedes (x :: r) (y :: r') :=
  ⟨[], x, y, r, r', rfl, rfl, h⟩

/-- From 128 on the keys are ordered as the indices. -/
theorem indexKey_large {i j : Nat} (hi : 127 < i) (hij : i < j) (hj : j < 2 ^ 64) :
    Precedes (indexKey i) (indexKey j) := by
  refine precedes_nibblesOf ?_
  have hjl : byteLength j ≤ 8 := byteLength_le_iff.mpr hj
  rw [rlpBytes_bigEndian_large hi (by omega), rlpBytes_bigEndian_large (by omega) hj]
  rcases Nat.lt_or_ge (byteLength i) (byteLength j) with h | h
  · refine precedes_of_head _ _ ?_
    rw [BitVec.toNat_ofNat, BitVec.toNat_ofNat]
    omega
  · have hj' : j < 256 ^ byteLength j := byteLength_le_iff.mp (Nat.le_refl _)
    have heq : byteLength i = byteLength j := by
      refine Nat.le_antisymm ?_ h
      exact byteLength_le_iff.mpr (Nat.lt_trans hij hj')
    rw [heq]
    exact (precedes_bytesOfNat hij hj').append_left [_]

theorem indexKey_small {i j : Nat} (hi : 0 < i) (hij : i < j) (hj : j ≤ 127) :
    Precedes (indexKey i) (indexKey j) := by
  refine precedes_nibblesOf ?_
  rw [rlpBytes_bigEndian_small hi (by omega), rlpBytes_bigEndian_small (by omega) hj]
  refine precedes_of_head _ _ ?_
  rw [BitVec.toNat_ofNat, BitVec.toNat_ofNat]
  omega

/-- Index zero comes between the single bytes and everything longer. -/
theorem indexKey_small_zero {i : Nat} (hpos : 0 < i) (hi : i ≤ 127) :
    Precedes (indexKey i) (indexKey 0) := by
  refine precedes_nibblesOf ?_
  rw [rlpBytes_bigEndian_small hpos hi]
  refine precedes_of_head (y := 0x80) _ [] ?_
  rw [BitVec.toNat_ofNat]
  show i % 256 < 128
  omega

theorem indexKey_zero_large {i : Nat} (hlo : 127 < i) (hi : i < 2 ^ 64) :
    Precedes (indexKey 0) (indexKey i) := by
  refine precedes_nibblesOf ?_
  have hpos := byteLength_pos (v := i) (by omega)
  have hlen : byteLength i ≤ 8 := byteLength_le_iff.mpr hi
  rw [rlpBytes_bigEndian_large hlo hi]
  refine precedes_of_head (x := 0x80) [] _ ?_
  rw [BitVec.toNat_ofNat]
  show 128 < (128 + byteLength i) % 256
  omega

theorem indexKey_small_large {i j : Nat} (hpos : 0 < i) (hi : i ≤ 127) (hlo : 127 < j)
    (hj : j < 2 ^ 64) : Precedes (indexKey i) (indexKey j) := by
  refine precedes_nibblesOf ?_
  have hlen : byteLength j ≤ 8 := byteLength_le_iff.mpr hj
  rw [rlpBytes_bigEndian_small hpos hi, rlpBytes_bigEndian_large hlo hj]
  refine precedes_of_head _ _ ?_
  rw [BitVec.toNat_ofNat, BitVec.toNat_ofNat]
  omega

/-! ## The order of the traversal -/

/-- The index at a key-order position of a list of `count`. -/
def indexAt (count position : Nat) : Nat :=
  if position < min (count - 1) 127 then position + 1
  else if position = min (count - 1) 127 then 0
  else position

theorem rlpIndexAtPosition_eq {c : RlpIndexCursor} (h : c.position < c.count) :
    rlpIndexAtPosition c = .ok (indexAt c.count c.position) := by
  have hmin : (if c.count - 1 < 127 then c.count - 1 else 127) = min (c.count - 1) 127 := by
    split <;> omega
  simp only [rlpIndexAtPosition, if_pos h, hmin]
  rw [indexAt]
  split
  · rfl
  split
  · rfl
  · rfl

theorem indexAt_lt {count position : Nat} (h : position < count) :
    indexAt count position < count := by
  rw [indexAt]
  split
  · omega
  split
  · omega
  · exact h

/-- Keys ascend along the positions. -/
theorem indexAt_ascending {count p q : Nat} (hcount : count ≤ 2 ^ 64) (hpq : p < q)
    (hq : q < count) : Precedes (indexKey (indexAt count p)) (indexKey (indexAt count q)) := by
  rcases Nat.lt_trichotomy p (min (count - 1) 127) with hp | hp | hp
  · have hpi : indexAt count p = p + 1 := by rw [indexAt, if_pos hp]
    rw [hpi]
    rcases Nat.lt_trichotomy q (min (count - 1) 127) with hq' | hq' | hq'
    · rw [indexAt, if_pos hq']
      exact indexKey_small (by omega) (by omega) (by omega)
    · rw [indexAt, if_neg (by omega), if_pos hq']
      exact indexKey_small_zero (by omega) (by omega)
    · rw [indexAt, if_neg (by omega), if_neg (by omega)]
      exact indexKey_small_large (by omega) (by omega) (by omega) (by omega)
  · have hpi : indexAt count p = 0 := by rw [indexAt, if_neg (by omega), if_pos hp]
    rw [hpi, indexAt, if_neg (by omega), if_neg (by omega)]
    exact indexKey_zero_large (by omega) (by omega)
  · rw [indexAt, if_neg (by omega), if_neg (by omega), indexAt, if_neg (by omega),
      if_neg (by omega)]
    exact indexKey_large (by omega) hpq (by omega)

/-- The indices in the order they are handed out. -/
def visited (count : Nat) : List Nat := (List.range count).map (indexAt count)

theorem visited_ascending {count : Nat} (hcount : count ≤ 2 ^ 64) :
    (visited count).Pairwise fun i j => Precedes (indexKey i) (indexKey j) := by
  rw [visited, List.pairwise_map, List.pairwise_iff_getElem]
  intro p q hp hq hpq
  simp only [List.getElem_range]
  simp only [List.length_range] at hq
  exact indexAt_ascending hcount hpq hq

/-- Every index is handed out exactly once. -/
theorem visited_perm {count : Nat} (hcount : count ≤ 2 ^ 64) :
    (visited count).Perm (List.range count) := by
  have hnodup : (visited count).Nodup := by
    refine (visited_ascending hcount).imp ?_
    rintro i _ h rfl
    exact lt_irrefl _ h.lt
  refine (List.subperm_of_subset hnodup ?_).perm_of_length_le (by simp [visited])
  intro i hi
  obtain ⟨p, hp, rfl⟩ := List.mem_map.mp hi
  exact List.mem_range.mpr (indexAt_lt (List.mem_range.mp hp))

/-! ## Runs of the cursor -/

/-- Popping the cursor until it is empty hands out the items. -/
inductive HandsOut : RlpIndexCursor → List RlpIndexItem → Prop
  | done {c : RlpIndexCursor} : rlpIndexCursorEmpty c = true → HandsOut c []
  | pop {c c' : RlpIndexCursor} {item : RlpIndexItem} {items : List RlpIndexItem} :
      rlpIndexCursorEmpty c = false → rlpIndexCursorPop c = .ok (item, c') →
      HandsOut c' items → HandsOut c (item :: items)

/-- The item of an index. -/
def indexItem (i : Nat) : RlpIndexItem := { index := i, key := .ofNibbles (indexKey i) }

@[simp] theorem nibbles_indexItem {i : Nat} (hi : i < 2 ^ 64) :
    (indexItem i).key.nibbles = indexKey i :=
  TriePath.nibbles_ofNibbles (by have := length_indexKey_le hi; omega)

/-- The cursor of a list of `count` items at position `p`. -/
def cursorAt (count p : Nat) : RlpIndexCursor where
  count := count
  position := p
  current := if p < count then indexItem (indexAt count p) else { index := 0, key := pathEmpty }

theorem rlpIndexLoad_eq {count p : Nat} (hcount : count ≤ 2 ^ 64) :
    rlpIndexLoad { count := count, position := p, current := { index := 0, key := pathEmpty } } =
      .ok (cursorAt count p) := by
  rcases Nat.lt_or_ge p count with h | h
  · have hindex := rlpIndexAtPosition_eq
      (c := ⟨count, p, { index := 0, key := pathEmpty }⟩) h
    have hkey : trieIndexKey (indexAt count p) = .ok (indexItem (indexAt count p)).key :=
      trieIndexKey_eq (Nat.lt_of_lt_of_le (indexAt_lt h) hcount)
    simp only [rlpIndexLoad, if_pos h, hindex, ok_bind, hkey, cursorAt]
    rfl
  · have h' : ¬ p < count := Nat.not_lt.mpr h
    simp only [rlpIndexLoad, if_neg h', cursorAt]

theorem rlpIndexCursor_eq {count : Nat} (hcount : count ≤ 2 ^ 64) :
    rlpIndexCursor count = .ok (cursorAt count 0) :=
  rlpIndexLoad_eq hcount

theorem rlpIndexCursorEmpty_cursorAt {count p : Nat} :
    rlpIndexCursorEmpty (cursorAt count p) = decide (p = count) :=
  rfl

theorem rlpIndexCursorPeek_cursorAt {count p : Nat} (h : p < count) :
    rlpIndexCursorPeek (cursorAt count p) = .ok (indexItem (indexAt count p)) := by
  rw [rlpIndexCursorPeek,
    if_pos (show (cursorAt count p).position < (cursorAt count p).count from h), cursorAt, if_pos h]

/-- Popping moves the cursor on by one position. -/
theorem rlpIndexCursorPop_cursorAt {count p : Nat} (hcount : count ≤ 2 ^ 64) (h : p < count) :
    rlpIndexCursorPop (cursorAt count p) =
      .ok (indexItem (indexAt count p), cursorAt count (p + 1)) := by
  have hadv : rlpIndexCursorAdvance (cursorAt count p) = .ok (cursorAt count (p + 1)) := by
    rw [rlpIndexCursorAdvance,
      if_pos (show (cursorAt count p).position < (cursorAt count p).count from h)]
    exact rlpIndexLoad_eq hcount
  rw [rlpIndexCursorPop, rlpIndexCursorPeek_cursorAt h, ok_bind, hadv, ok_bind]

/-- The cursor hands out exactly the visited indices. -/
theorem handsOut_visited {count : Nat} (hcount : count ≤ 2 ^ 64) :
    HandsOut (cursorAt count 0) ((visited count).map indexItem) := by
  have hfrom : ∀ k ≤ count, HandsOut (cursorAt count (count - k))
      (((visited count).drop (count - k)).map indexItem) := by
    intro k hk
    induction k with
    | zero =>
      rw [List.drop_eq_nil_of_le (by simp [visited])]
      exact .done (by simp [rlpIndexCursorEmpty_cursorAt])
    | succ k ih =>
      have hlt : count - (k + 1) < count := by omega
      have hnext : count - (k + 1) + 1 = count - k := by omega
      rw [List.drop_eq_getElem_cons (by simpa [visited] using hlt), List.map_cons, hnext]
      refine .pop ?_ (rlpIndexCursorPop_cursorAt hcount hlt |>.trans ?_) (ih (by omega))
      · rw [rlpIndexCursorEmpty_cursorAt, decide_eq_false_iff_not]
        omega
      · rw [hnext]
        simp [visited]
  simpa using hfrom count (Nat.le_refl _)

end EvmSail
