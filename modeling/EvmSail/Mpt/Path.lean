/-
# `EvmSail.Mpt.Path` — packed nibble paths

Paths through the Merkle-Patricia trie: at most 64 nibbles, packed two to
a byte from the front of a fixed 32-byte value.  `padding` is the
representation invariant the operations maintain: the nibbles past the
length are zero, so that two paths are equal exactly when their nibble
lists are (`TriePath.eq_of_nibbles`).

Every operation comes with one lemma that says what it does to the nibble
list; `ofNibbles` is the inverse of the `nibbles` view, so those lemmas
are equations.
-/
import EvmSail.Prelude
import EvmSail.Lib.RadixBuild

namespace EvmSail

open Fallible

/-! ## The packed representation -/

/-- The `i`-th nibble of a packed value, zero past its 64 nibbles. -/
def b256Nibble (data : B256) (i : Nat) : Nibble :=
  let byte := (data[i / 2]?).getD 0
  if i % 2 = 0 then highNibble byte else lowNibble byte

theorem b256Nibble_of_le {data : B256} {i : Nat} (hi : 64 ≤ i) :
    b256Nibble data i = 0 := by
  have hnone : data[i / 2]? = none := by
    rw [Vector.getElem?_eq_none]
    omega
  rw [b256Nibble, hnone]
  split <;> rfl

theorem b256_eq_of_nibbles {d d' : B256}
    (h : ∀ i, i < 64 → b256Nibble d i = b256Nibble d' i) : d = d' := by
  apply Vector.ext
  intro i hi
  have hh := h (2 * i) (by omega)
  have hl := h (2 * i + 1) (by omega)
  have h2 : 2 * i / 2 = i := by omega
  have h2' : (2 * i + 1) / 2 = i := by omega
  rw [b256Nibble, b256Nibble, h2, if_pos (by omega), if_pos (by omega)] at hh
  rw [b256Nibble, b256Nibble, h2', if_neg (by omega), if_neg (by omega)] at hl
  simp only [Vector.getElem?_eq_getElem hi, Option.getD_some] at hh hl
  exact byte_ext hh hl

/-- A trie path: high-aligned `data`, whose first `len` nibbles count. -/
structure TriePath where
  data : B256
  len : Nat
  len_le : len ≤ 64
  padding : ∀ i, len ≤ i → b256Nibble data i = 0
  deriving DecidableEq

/-- The nibbles of a path, first to last. -/
def TriePath.nibbles (p : TriePath) : List Nibble :=
  (List.range p.len).map (b256Nibble p.data)

theorem TriePath.length_nibbles (p : TriePath) : p.nibbles.length = p.len := by
  simp [nibbles]

theorem TriePath.length_nibbles_le (p : TriePath) : p.nibbles.length ≤ 64 := by
  simpa only [p.length_nibbles] using p.len_le

theorem TriePath.getElem?_nibbles {p : TriePath} {i : Nat} (hi : i < p.len) :
    p.nibbles[i]? = some (b256Nibble p.data i) := by
  simp [nibbles, hi]

theorem TriePath.b256Nibble_data (p : TriePath) (i : Nat) :
    b256Nibble p.data i = (p.nibbles[i]?).getD 0 := by
  by_cases hi : i < p.len
  · simp [getElem?_nibbles hi]
  · rw [p.padding i (by omega), List.getElem?_eq_none (by rw [p.length_nibbles]; omega)]
    rfl

/-- Equality of the representation is equality of the nibble lists. -/
theorem TriePath.eq_of_nibbles {p q : TriePath} (h : p.nibbles = q.nibbles) : p = q := by
  have hlen : p.len = q.len := by
    rw [← p.length_nibbles, ← q.length_nibbles, h]
  have hdata : p.data = q.data := b256_eq_of_nibbles fun i _ => by
    rw [p.b256Nibble_data, q.b256Nibble_data, h]
  cases p
  cases q
  cases hlen
  cases hdata
  rfl

theorem TriePath.nibbles_inj {p q : TriePath} : p.nibbles = q.nibbles ↔ p = q :=
  ⟨eq_of_nibbles, congrArg _⟩

/-- The packed form of nibbles. -/
def packNibbles (l : List Nibble) : B256 :=
  Vector.ofFn fun i => joinNibbles ((l[2 * i.val]?).getD 0) ((l[2 * i.val + 1]?).getD 0)

theorem b256Nibble_packNibbles {l : List Nibble} {i : Nat} (hi : i < 64) :
    b256Nibble (packNibbles l) i = (l[i]?).getD 0 := by
  have hlt : i / 2 < 32 := by omega
  rw [b256Nibble, Vector.getElem?_eq_getElem hlt, Option.getD_some, packNibbles,
    Vector.getElem_ofFn]
  split
  · rw [highNibble_joinNibbles, show 2 * (i / 2) = i by omega]
  · rw [lowNibble_joinNibbles, show 2 * (i / 2) + 1 = i by omega]

/-- The path of at most 64 nibbles; later nibbles are cut off. -/
def TriePath.ofNibbles (l : List Nibble) : TriePath where
  data := packNibbles (l.take 64)
  len := (l.take 64).length
  len_le := by simp
  padding := by
    intro i hi
    by_cases h : i < 64
    · rw [b256Nibble_packNibbles h, List.getElem?_eq_none hi]
      rfl
    · exact b256Nibble_of_le (by omega)

@[simp] theorem TriePath.nibbles_ofNibbles {l : List Nibble} (h : l.length ≤ 64) :
    (ofNibbles l).nibbles = l := by
  have htake : l.take 64 = l := List.take_of_length_le h
  apply List.ext_getElem?
  intro i
  by_cases hi : i < l.length
  · rw [getElem?_nibbles (by simpa [ofNibbles, htake] using hi)]
    simp only [ofNibbles, htake]
    rw [b256Nibble_packNibbles (by omega), List.getElem?_eq_getElem hi]
    rfl
  · rw [List.getElem?_eq_none (by simp [length_nibbles, ofNibbles, htake]; omega),
      List.getElem?_eq_none (by omega)]

@[simp] theorem TriePath.ofNibbles_nibbles (p : TriePath) : ofNibbles p.nibbles = p :=
  eq_of_nibbles (nibbles_ofNibbles p.length_nibbles_le)

attribute [irreducible] TriePath.ofNibbles

theorem TriePath.eq_ofNibbles_iff {p : TriePath} {l : List Nibble} (h : l.length ≤ 64) :
    p = ofNibbles l ↔ p.nibbles = l := by
  rw [← nibbles_inj, nibbles_ofNibbles h]

/-! ## The path operations -/

/-- The path length in nibbles. -/
def pathLen (path : TriePath) : Nat := path.len

/-- The empty path. -/
def pathEmpty : TriePath where
  data := zeroHash
  len := 0
  len_le := by omega
  padding := by
    intro i _
    by_cases h : i / 2 < 32
    · simp only [b256Nibble, zeroHash, Vector.getElem?_eq_getElem h, Vector.getElem_replicate,
        Option.getD_some]
      split <;> rfl
    · exact b256Nibble_of_le (by omega)

/-- The `i`-th nibble, most significant first; out of range yields `0`. -/
def pathNibble (path : TriePath) (i : Nat) : Nibble :=
  if pathLen path ≤ i then 0 else b256Nibble path.data i

/-- The packed data with nibble `length` replaced; the nibbles after it in
the same byte are cleared. -/
def setNibble (data : B256) (length : Nat) (h : length < 64) (value : Nibble) : B256 :=
  if length % 2 = 0 then
    data.set (length / 2) (joinNibbles value 0)
  else
    data.set (length / 2) (joinNibbles (highNibble data[length / 2]) value)

theorem b256Nibble_setNibble {data : B256} {length : Nat} (h : length < 64) (value : Nibble)
    (i : Nat) : b256Nibble (setNibble data length h value) i =
      if i = length then value
      else if length % 2 = 0 ∧ i = length + 1 then 0
      else b256Nibble data i := by
  by_cases hi : i < 64
  · have hi2 : i / 2 < 32 := by omega
    have hl2 : length / 2 < 32 := by omega
    simp only [b256Nibble, setNibble, Vector.getElem?_eq_getElem hi2, Option.getD_some]
    by_cases hpar : length % 2 = 0
    · simp only [hpar, if_true, true_and, Vector.getElem_set]
      by_cases hsame : length / 2 = i / 2
      · by_cases hpi : i % 2 = 0
        · obtain rfl : i = length := by omega
          simp [hpi]
        · obtain rfl : i = length + 1 := by omega
          simp [hpi, hsame]
      · have h1 : ¬ i = length := by omega
        have h2 : ¬ i = length + 1 := by omega
        simp [hsame, h1, h2]
    · simp only [hpar, if_false, false_and, Vector.getElem_set]
      by_cases hsame : length / 2 = i / 2
      · by_cases hpi : i % 2 = 0
        · have h1 : ¬ i = length := by omega
          simp [hpi, hsame, h1]
        · obtain rfl : i = length := by omega
          simp [hpi]
      · have h1 : ¬ i = length := by omega
        simp [hsame, h1]
  · rw [b256Nibble_of_le (by omega), if_neg (by omega)]
    split
    · rfl
    · rw [b256Nibble_of_le (by omega)]

/-- Appends one nibble to a path, rejecting paths already at the key
bound. -/
def pathAppendNibble (path : TriePath) (value : Nibble) : Result TriePath :=
  if h : path.len < 64 then
    .ok
      { data := setNibble path.data path.len h value
        len := path.len + 1
        len_le := h
        padding := fun i hi => by
          rw [b256Nibble_setNibble, if_neg (by omega)]
          split
          · rfl
          · exact path.padding i (by omega) }
  else
    fatalError .witnessDeficient

/-- Appends both nibbles of a byte to a path, high nibble first. -/
def pathAppendByte (path : TriePath) (value : Byte) : Result TriePath := do
  let high ← pathAppendNibble path (highNibble value)
  pathAppendNibble high (lowNibble value)

/-- A one-nibble path. -/
def pathSingle (n : Nibble) : Result TriePath := pathAppendNibble pathEmpty n

/-- Path concatenation; over 64 nibbles is a witness fault. -/
def pathConcat (a b : TriePath) : Result TriePath :=
  if pathLen a + pathLen b ≤ 64 then
    foreach (pathLen b) (fun index result => pathAppendNibble result (pathNibble b index)) a
  else
    fatalError .witnessDeficient

/-- The path with its first `n` nibbles removed. -/
def pathDrop (path : TriePath) (n : Nat) : Result TriePath :=
  if pathLen path ≤ n then
    .ok pathEmpty
  else if n = 0 then
    .ok path
  else
    foreach (pathLen path - n)
      (fun offset result => pathAppendNibble result (pathNibble path (n + offset))) pathEmpty

/-- Path equality. -/
def pathEq (a b : TriePath) : Bool := a.len == b.len && a.data == b.data

/-- Whether `seg` occurs in `key` at nibble position `pos`. -/
def pathMatches (key : TriePath) (pos : Nat) (seg : TriePath) : Bool :=
  if pathLen key < pos + pathLen seg then
    false
  else
    (List.range (pathLen seg)).all fun offset =>
      pathNibble key (pos + offset) == pathNibble seg offset

/-- Whether `pfx` is a prefix of `path`. -/
def pathPrefixOf (pfx path : TriePath) : Bool := pathMatches path 0 pfx

/-- The common-prefix length of two nibble paths. -/
def commonPrefixLength (a b : TriePath) : Nat :=
  ((List.range (min (pathLen a) (pathLen b))).takeWhile fun length =>
    pathNibble a length == pathNibble b length).length

/-! ## Their meaning on nibble lists -/

@[simp] theorem pathLen_eq (p : TriePath) : pathLen p = p.nibbles.length :=
  p.length_nibbles.symm

@[simp] theorem nibbles_pathEmpty : pathEmpty.nibbles = [] := rfl

@[simp] theorem pathNibble_eq (p : TriePath) (i : Nat) :
    pathNibble p i = (p.nibbles[i]?).getD 0 := by
  rw [pathNibble]
  split
  · rename_i h
    rw [pathLen_eq] at h
    rw [List.getElem?_eq_none h]
    rfl
  · exact p.b256Nibble_data i

theorem pathAppendNibble_eq (p : TriePath) (v : Nibble) :
    pathAppendNibble p v =
      if p.nibbles.length < 64 then .ok (.ofNibbles (p.nibbles ++ [v]))
      else fatalError .witnessDeficient := by
  rw [pathAppendNibble, p.length_nibbles]
  by_cases h : p.len < 64
  · rw [dif_pos h, if_pos h]
    refine congrArg Except.ok ((TriePath.eq_ofNibbles_iff ?_).mpr ?_)
    · rw [List.length_append, List.length_singleton, p.length_nibbles]
      exact h
    apply List.ext_getElem?
    intro i
    by_cases hi : i < p.len + 1
    · rw [TriePath.getElem?_nibbles (by simpa using hi)]
      simp only [b256Nibble_setNibble]
      by_cases hil : i = p.len
      · rw [if_pos hil, hil, ← p.length_nibbles]
        simp
      · rw [if_neg hil, if_neg (by omega),
          List.getElem?_append_left (by rw [p.length_nibbles]; omega),
          TriePath.getElem?_nibbles (by omega)]
    · rw [List.getElem?_eq_none (by rw [TriePath.length_nibbles]; exact Nat.le_of_not_lt hi),
        List.getElem?_eq_none (by simp [p.length_nibbles]; omega)]
  · rw [dif_neg h, if_neg h]

@[simp] theorem pathSingle_eq (n : Nibble) : pathSingle n = .ok (.ofNibbles [n]) := by
  rw [pathSingle, pathAppendNibble_eq, nibbles_pathEmpty, if_pos (by simp), List.nil_append]

/-- Appending a run of nibbles one by one. -/
theorem foreach_append {n : Nat} (f : Fin n → Nibble) (a : TriePath)
    (h : a.nibbles.length + n ≤ 64) :
    foreach n (fun i result => pathAppendNibble result (f i)) a =
      .ok (.ofNibbles (a.nibbles ++ List.ofFn f)) := by
  obtain ⟨q, hq, hI⟩ := foreach_inv
    (fun (i : Fin n) (result : TriePath) => pathAppendNibble result (f i))
    (fun k q => q.nibbles = a.nibbles ++ (List.ofFn f).take k)
    (by
      intro i q hq
      have hlen : q.nibbles.length < 64 := by
        have := i.isLt
        rw [hq]
        simp only [List.length_append, List.length_take, List.length_ofFn]
        omega
      refine ⟨.ofNibbles (q.nibbles ++ [f i]), by rw [pathAppendNibble_eq, if_pos hlen], ?_⟩
      rw [TriePath.nibbles_ofNibbles (by simp; omega), hq, List.take_add_one,
        List.getElem?_eq_getElem (by simp), List.getElem_ofFn]
      simp)
    a (by simp)
  rw [hq]
  refine congrArg Except.ok ((TriePath.eq_ofNibbles_iff (by simpa using h)).mpr ?_)
  rw [hI, List.take_of_length_le (by simp)]

theorem ofFn_getElem?_getD (l : List Nibble) :
    (List.ofFn fun i : Fin l.length => (l[i.val]?).getD 0) = l := by
  apply List.ext_getElem (by simp)
  intro i h₁ h₂
  simp

theorem pathConcat_eq (a b : TriePath) :
    pathConcat a b =
      if a.nibbles.length + b.nibbles.length ≤ 64 then .ok (.ofNibbles (a.nibbles ++ b.nibbles))
      else fatalError .witnessDeficient := by
  rw [pathConcat, pathLen_eq, pathLen_eq]
  by_cases h : a.nibbles.length + b.nibbles.length ≤ 64
  · rw [if_pos h, if_pos h]
    simp only [pathNibble_eq]
    rw [foreach_append (fun i : Fin b.nibbles.length => (b.nibbles[i.val]?).getD 0) a h,
      ofFn_getElem?_getD]
  · rw [if_neg h, if_neg h]

theorem length_pathConcat {a b c : TriePath} (h : pathConcat a b = .ok c) :
    c.nibbles.length = a.nibbles.length + b.nibbles.length := by
  rw [pathConcat_eq] at h
  split at h
  · rename_i hle
    rw [← Except.ok.inj h, TriePath.nibbles_ofNibbles (by simpa using hle), List.length_append]
  · cases h

@[simp] theorem pathDrop_eq (p : TriePath) (n : Nat) :
    pathDrop p n = .ok (.ofNibbles (p.nibbles.drop n)) := by
  have hp := p.length_nibbles_le
  rw [pathDrop, pathLen_eq]
  by_cases h : p.nibbles.length ≤ n
  · rw [if_pos h, List.drop_eq_nil_of_le h]
    exact congrArg Except.ok ((TriePath.eq_ofNibbles_iff (by simp)).mpr rfl)
  · rw [if_neg h]
    by_cases hn : n = 0
    · rw [if_pos hn, hn, List.drop_zero, TriePath.ofNibbles_nibbles]
    · rw [if_neg hn]
      simp only [pathNibble_eq]
      rw [foreach_append (fun i : Fin (p.nibbles.length - n) => (p.nibbles[n + i.val]?).getD 0)
        pathEmpty (by rw [nibbles_pathEmpty, List.length_nil]; omega)]
      refine congrArg (fun l => Except.ok (TriePath.ofNibbles l)) ?_
      rw [nibbles_pathEmpty, List.nil_append]
      apply List.ext_getElem (by simp)
      intro i h₁ h₂
      have : n + i < p.nibbles.length := by
        simp only [List.length_drop] at h₂
        omega
      simp [this]

theorem pathEq_eq (a b : TriePath) : pathEq a b = decide (a.nibbles = b.nibbles) := by
  rw [Bool.eq_iff_iff, decide_eq_true_iff, TriePath.nibbles_inj, pathEq]
  constructor
  · intro h
    simp only [Bool.and_eq_true, beq_iff_eq] at h
    obtain ⟨hl, hd⟩ := h
    cases a
    cases b
    cases hl
    cases hd
    rfl
  · rintro rfl
    simp

theorem pathMatches_eq (key : TriePath) (pos : Nat) (seg : TriePath)
    (hpos : pos ≤ key.nibbles.length) :
    pathMatches key pos seg = decide (seg.nibbles <+: key.nibbles.drop pos) := by
  rw [Bool.eq_iff_iff, decide_eq_true_iff, pathMatches]
  simp only [pathLen_eq, pathNibble_eq]
  by_cases h : key.nibbles.length < pos + seg.nibbles.length
  · rw [if_pos h]
    constructor
    · intro hf
      cases hf
    · intro hp
      have := hp.length_le
      simp only [List.length_drop] at this
      omega
  · rw [if_neg h, List.all_eq_true, List.prefix_iff_eq_take]
    constructor
    · intro hall
      apply List.ext_getElem (by simp; omega)
      intro i h₁ h₂
      have := hall i (List.mem_range.mpr h₁)
      have hk : pos + i < key.nibbles.length := by omega
      simp only [List.getElem?_eq_getElem hk, List.getElem?_eq_getElem h₁, Option.getD_some,
        beq_iff_eq] at this
      simp [this]
    · intro heq i hi
      have h₁ := List.mem_range.mp hi
      have hk : pos + i < key.nibbles.length := by omega
      have : seg.nibbles[i]? = key.nibbles[pos + i]? := by
        rw [heq, List.getElem?_take, if_pos h₁, List.getElem?_drop]
      simp [this]

theorem pathPrefixOf_eq (pfx path : TriePath) :
    pathPrefixOf pfx path = decide (pfx.nibbles <+: path.nibbles) := by
  rw [pathPrefixOf, pathMatches_eq _ _ _ (Nat.zero_le _), List.drop_zero]

theorem takeWhile_range_eq_lcp (l l' : List Nibble) :
    ((List.range (min l.length l'.length)).takeWhile fun i =>
      (l[i]?).getD 0 == (l'[i]?).getD 0).length = (Radix.lcp l l').length := by
  induction l generalizing l' with
  | nil => simp
  | cons a l ih =>
    cases l' with
    | nil => simp
    | cons b l' =>
      rw [List.length_cons, List.length_cons, Nat.add_min_add_right, List.range_succ_eq_map,
        Radix.lcp_cons_cons]
      by_cases hab : a = b
      · subst hab
        rw [if_pos rfl, List.takeWhile_cons_of_pos (by simp), List.length_cons, List.length_cons,
          List.takeWhile_map, List.length_map, ← ih l']
        rfl
      · rw [if_neg hab, List.takeWhile_cons_of_neg (by simpa using hab)]
        rfl

theorem commonPrefixLength_eq (a b : TriePath) :
    commonPrefixLength a b = (Radix.lcp a.nibbles b.nibbles).length := by
  simp only [commonPrefixLength, pathLen_eq, pathNibble_eq]
  exact takeWhile_range_eq_lcp _ _

end EvmSail
