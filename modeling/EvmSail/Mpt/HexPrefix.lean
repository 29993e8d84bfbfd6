/-
# `EvmSail.Mpt.HexPrefix` — the compact path encoding

`hexPrefix` is Appendix C of the Yellow Paper: a flag nibble that carries
the leaf bit and the parity of the path, then the nibbles in pairs.  The
source writes it nibble by nibble (`rlpWriteHexPrefix`) and reads it as
one shifted 256-bit load (`hexPrefixDecodeRef`); `hexPrefixDecodeRef_hexPrefix`
is the round trip.
-/
import EvmSail.Mpt.Path
import EvmSail.Rlp.Decoding

namespace EvmSail

open Fallible

/-! ## The encoding -/

/-- Nibbles in pairs, high nibble first. -/
def packPairs : List Nibble → List Byte
  | a :: b :: l => joinNibbles a b :: packPairs l
  | _ => []

/-- The nibbles of some bytes, high nibble first. -/
def unpackNibbles : List Byte → List Nibble
  | [] => []
  | b :: bs => highNibble b :: lowNibble b :: unpackNibbles bs

/-- The flag nibble of an even path. -/
def hexPrefixFlag (isLeaf : Bool) : Nibble := if isLeaf then 2 else 0

/-- The compact encoding of a path. -/
def hexPrefix (l : List Nibble) (isLeaf : Bool) : List Byte :=
  if l.length % 2 = 0 then
    joinNibbles (hexPrefixFlag isLeaf) 0 :: packPairs l
  else
    joinNibbles (hexPrefixFlag isLeaf + 1) (l.headD 0) :: packPairs l.tail

theorem length_packPairs (l : List Nibble) : (packPairs l).length = l.length / 2 := by
  induction l using packPairs.induct with
  | case1 a b l ih =>
    rw [packPairs, List.length_cons, ih]
    simp only [List.length_cons]
    omega
  | case2 l h =>
    match l, h with
    | [], _ => rfl
    | [_], _ => simp [packPairs]
    | a :: b :: l, h => exact absurd rfl (h a b l)

theorem length_hexPrefix (l : List Nibble) (isLeaf : Bool) :
    (hexPrefix l isLeaf).length = 1 + l.length / 2 := by
  rw [hexPrefix]
  split
  · rw [List.length_cons, length_packPairs, Nat.add_comm]
  · rw [List.length_cons, length_packPairs, List.length_tail]
    omega

theorem unpackNibbles_packPairs {l : List Nibble} (h : l.length % 2 = 0) :
    unpackNibbles (packPairs l) = l := by
  induction l using packPairs.induct with
  | case1 a b l ih =>
    simp only [List.length_cons] at h
    rw [packPairs, unpackNibbles, highNibble_joinNibbles, lowNibble_joinNibbles,
      ih (by omega)]
  | case2 l hl =>
    match l, hl with
    | [], _ => rfl
    | [_], _ => simp at h
    | a :: b :: l, hl => exact absurd rfl (hl a b l)

/-! ## The writer -/

/-- The encoded byte length of the hex-prefix form of a path. -/
def hexPrefixEncodedLength (path : TriePath) : Nat := 1 + pathLen path / 2

/-- The flag byte beginning the hex-prefix form of a path. -/
def hexPrefixFirstByte (path : TriePath) (isLeaf : Bool) : Byte :=
  let odd := pathLen path % 2 ≠ 0
  let flag : Nibble := if isLeaf then 2 else 0
  if odd then
    joinNibbles (flag ||| 1) (pathNibble path 0)
  else
    joinNibbles flag 0

/-- The RLP width of a compact path. -/
def rlpHexPrefixSize (path : TriePath) (isLeaf : Bool) : Nat :=
  let encodedLength := hexPrefixEncodedLength path
  let first := hexPrefixFirstByte path isLeaf
  if encodedLength = 1 ∧ first.msb = false then 1 else encodedLength + 1

/-- The bytes pushed for the nibble pairs from `index` on. -/
def hexPrefixPairs (path : TriePath) (index : Nat) : List Byte :=
  if index < pathLen path then
    joinNibbles (pathNibble path index) (pathNibble path (index + 1)) ::
      hexPrefixPairs path (index + 2)
  else
    []
termination_by path.len - index
decreasing_by
  have : index < path.len := by assumption
  omega

/-- Writes the hex-prefix path as an RLP string. -/
def rlpWriteHexPrefix (path : TriePath) (isLeaf : Bool) : List Byte :=
  let first := hexPrefixFirstByte path isLeaf
  let oddLength := pathLen path % 2 ≠ 0
  rlpWriteStringPrefix (hexPrefixEncodedLength path) first ++
    first :: hexPrefixPairs path (if oddLength then 1 else 0)

theorem hexPrefixPairs_eq (path : TriePath) (index : Nat)
    (h : (path.nibbles.length - index) % 2 = 0) :
    hexPrefixPairs path index = packPairs (path.nibbles.drop index) := by
  induction hn : path.nibbles.length - index using Nat.strongRecOn generalizing index with
  | _ n ih =>
  rw [hexPrefixPairs, pathLen_eq]
  by_cases hi : index < path.nibbles.length
  · have hi1 : index + 1 < path.nibbles.length := by omega
    rw [if_pos hi, ih (path.nibbles.length - (index + 2)) (by omega) (index + 2) (by omega) rfl,
      List.drop_eq_getElem_cons hi, List.drop_eq_getElem_cons hi1, packPairs]
    simp [hi, hi1]
  · rw [if_neg hi, List.drop_eq_nil_of_le (by omega)]
    rfl

theorem hexPrefixFirstByte_eq (path : TriePath) (isLeaf : Bool) :
    hexPrefix path.nibbles isLeaf =
      hexPrefixFirstByte path isLeaf ::
        hexPrefixPairs path (if path.nibbles.length % 2 ≠ 0 then 1 else 0) := by
  rw [hexPrefix, hexPrefixFirstByte, pathLen_eq]
  by_cases h : path.nibbles.length % 2 = 0
  · have hp := hexPrefixPairs_eq path 0 (by omega)
    simp only [h, ne_eq, not_true_eq_false, if_true, if_false, hp, List.drop_zero]
    rfl
  · have hp := hexPrefixPairs_eq path 1 (by omega)
    simp only [h, ne_eq, not_false_eq_true, if_true, if_false, hp, pathNibble_eq]
    congr 1
    · congr 1
      · cases isLeaf <;> rfl
      · cases path.nibbles <;> rfl
    · cases path.nibbles <;> rfl

theorem rlpWriteHexPrefix_eq (path : TriePath) (isLeaf : Bool) :
    rlpWriteHexPrefix path isLeaf = rlpBytes (hexPrefix path.nibbles isLeaf) := by
  have hlen := length_hexPrefix path.nibbles isLeaf
  have hfirst := hexPrefixFirstByte_eq path isLeaf
  rw [rlpWriteHexPrefix, hexPrefixEncodedLength, pathLen_eq, ← hlen]
  simp only [← hfirst]
  exact rlpWriteStringPrefix_append (by rw [hfirst]; rfl)

theorem rlpHexPrefixSize_eq (path : TriePath) (isLeaf : Bool) :
    rlpHexPrefixSize path isLeaf = (rlpBytes (hexPrefix path.nibbles isLeaf)).length := by
  have hlen := length_hexPrefix path.nibbles isLeaf
  have hfirst : sliceByte (hexPrefix path.nibbles isLeaf) 0 = hexPrefixFirstByte path isLeaf := by
    rw [hexPrefixFirstByte_eq]
    rfl
  have hle := path.length_nibbles_le
  rw [rlpHexPrefixSize, length_rlpBytes, rlpStringSize, hfirst, hlen, hexPrefixEncodedLength,
    pathLen_eq, rlpLengthPrefixLen, if_pos (by omega : 1 + path.nibbles.length / 2 ≤ 55),
    Nat.add_comm _ 1]

theorem length_rlpBytes_hexPrefix {l : List Nibble} (h : l.length ≤ 64) (isLeaf : Bool) :
    (rlpBytes (hexPrefix l isLeaf)).length ≤ 34 := by
  have hlen := length_hexPrefix l isLeaf
  have := length_rlpBytes_short (b := hexPrefix l isLeaf) (by omega)
  omega

theorem length_hexPrefix_le {l : List Nibble} (h : l.length ≤ 64) (isLeaf : Bool) :
    (hexPrefix l isLeaf).length ≤ scratchRegionBound := by
  rw [length_hexPrefix, scratchRegionBound_eq]
  omega

/-! ## The reader -/

theorem length_unpackNibbles (bs : List Byte) : (unpackNibbles bs).length = 2 * bs.length := by
  induction bs with
  | nil => rfl
  | cons b bs ih =>
    simp only [unpackNibbles, List.length_cons, ih]
    omega

theorem getElem?_unpackNibbles (bs : List Byte) (i : Nat) :
    (unpackNibbles bs)[i]? =
      (bs[i / 2]?).map fun b => if i % 2 = 0 then highNibble b else lowNibble b := by
  induction bs generalizing i with
  | nil => rfl
  | cons b bs ih =>
    match i with
    | 0 => rfl
    | 1 => rfl
    | i + 2 =>
      rw [unpackNibbles, List.getElem?_cons_succ, List.getElem?_cons_succ, ih,
        show (i + 2) / 2 = i / 2 + 1 by omega, List.getElem?_cons_succ,
        show (i + 2) % 2 = i % 2 by omega]

/-- The nibbles of one packed load. -/
theorem b256Nibble_sliceLoad (tail : List Byte) {i : Nat} (hi : i < 64) :
    b256Nibble (wordToHash (sliceLoad tail 0)) i = ((unpackNibbles tail)[i]?).getD 0 := by
  have h2 : i / 2 < 32 := by omega
  rw [b256Nibble, Vector.getElem?_eq_getElem h2, getElem_wordToHash_sliceLoad, Option.getD_some,
    getElem?_unpackNibbles, Nat.zero_add, sliceByte]
  cases tail[i / 2]? with
  | none => split <;> rfl
  | some b => rfl

/-- Shifting a word right by one nibble. -/
theorem b256Nibble_shiftRight (w : Word) {i : Nat} (hi : i < 64) :
    b256Nibble (wordToHash (w >>> 4)) i =
      if i = 0 then 0 else b256Nibble (wordToHash w) (i - 1) := by
  have hw := w.isLt
  have h2 : i / 2 < 32 := by omega
  have h2' : (i - 1) / 2 < 32 := by omega
  simp only [b256Nibble, Vector.getElem?_eq_getElem h2, Vector.getElem?_eq_getElem h2',
    Option.getD_some, getElem_wordToHash, BitVec.toNat_ushiftRight, Nat.shiftRight_eq_div_pow]
  have hdiv : ∀ k, w.toNat / 2 ^ 4 / 256 ^ k = w.toNat / 256 ^ k / 16 := by
    intro k
    rw [Nat.div_div_eq_div_mul, Nat.div_div_eq_div_mul, Nat.mul_comm]
    rfl
  rw [hdiv]
  by_cases hpar : i % 2 = 0
  · rw [if_pos hpar]
    by_cases h0 : i = 0
    · subst h0
      have hlt : w.toNat / 256 ^ 31 < 256 := by
        rw [Nat.div_lt_iff_lt_mul (by decide)]
        calc w.toNat < 2 ^ 256 := hw
          _ = 256 * 256 ^ 31 := by decide
      rw [if_pos rfl]
      ext
      simp only [highNibble, BitVec.toNat_ofNat]
      simp only [Nat.zero_div, Nat.sub_zero] at *
      show w.toNat / 256 ^ 31 / 16 % 2 ^ 8 / 16 = 0
      omega
    · rw [if_neg h0, if_neg (by omega : ¬ (i - 1) % 2 = 0)]
      have hstep : w.toNat / 256 ^ (31 - (i - 1) / 2) = w.toNat / 256 ^ (31 - i / 2) / 256 := by
        rw [Nat.div_div_eq_div_mul, ← Nat.pow_succ]
        congr 2
        omega
      rw [hstep]
      ext
      simp only [highNibble, lowNibble, BitVec.toNat_ofNat]
      omega
  · rw [if_neg hpar, if_neg (by omega : ¬ i = 0), if_pos (by omega : (i - 1) % 2 = 0),
      show (i - 1) / 2 = i / 2 by omega]
    ext
    simp only [highNibble, lowNibble, BitVec.toNat_ofNat]
    omega

/-- The packed path of an even compact encoding's tail. -/
def hexPrefixEvenPath (tail : List Byte) (h : tail.length ≤ 32) : TriePath where
  data := wordToHash (sliceLoad tail 0)
  len := 2 * tail.length
  len_le := by omega
  padding := by
    intro i hi
    by_cases h64 : i < 64
    · rw [b256Nibble_sliceLoad tail h64,
        List.getElem?_eq_none (by rw [length_unpackNibbles]; exact hi)]
      rfl
    · exact b256Nibble_of_le (by omega)

/-- The load shifted by a nibble, the free nibble taken from the flag
byte. -/
def hexPrefixOddData (fb : Byte) (tail : List Byte) : B256 :=
  let bytes := wordToHash (sliceLoad tail 0 >>> 4)
  bytes.set 0 (joinNibbles (lowNibble fb) (lowNibble bytes[0]))

theorem b256Nibble_hexPrefixOddData (fb : Byte) (tail : List Byte) {i : Nat} (hi : i < 64) :
    b256Nibble (hexPrefixOddData fb tail) i =
      ((lowNibble fb :: unpackNibbles tail)[i]?).getD 0 := by
  have hshift := b256Nibble_shiftRight (sliceLoad tail 0) hi
  have h2 : i / 2 < 32 := by omega
  by_cases h0 : i = 0
  · subst h0
    simp [b256Nibble, hexPrefixOddData]
  · rw [if_neg h0, b256Nibble_sliceLoad tail (by omega)] at hshift
    rw [show i = i - 1 + 1 by omega, List.getElem?_cons_succ, ← hshift,
      show i - 1 + 1 = i by omega]
    simp only [b256Nibble, hexPrefixOddData, Vector.getElem?_eq_getElem h2, Option.getD_some,
      Vector.getElem_set]
    by_cases h1 : i = 1
    · subst h1
      simp
    · rw [if_neg (by omega : ¬ 0 = i / 2)]

/-- The packed path of an odd compact encoding. -/
def hexPrefixOddPath (fb : Byte) (tail : List Byte) (h : 2 * tail.length < 64) : TriePath where
  data := hexPrefixOddData fb tail
  len := 2 * tail.length + 1
  len_le := h
  padding := by
    intro i hi
    by_cases h64 : i < 64
    · rw [b256Nibble_hexPrefixOddData fb tail h64, List.getElem?_eq_none (by
        rw [List.length_cons, length_unpackNibbles]
        exact hi)]
      rfl
    · exact b256Nibble_of_le (by omega)

theorem nibbles_hexPrefixEvenPath {tail : List Byte} (h : tail.length ≤ 32) :
    (hexPrefixEvenPath tail h).nibbles = unpackNibbles tail := by
  apply List.ext_getElem?
  intro i
  by_cases hi : i < 2 * tail.length
  · rw [TriePath.getElem?_nibbles hi]
    simp only [hexPrefixEvenPath]
    rw [b256Nibble_sliceLoad tail (by omega),
      List.getElem?_eq_getElem (by rw [length_unpackNibbles]; exact hi)]
    rfl
  · rw [List.getElem?_eq_none (by rw [TriePath.length_nibbles]; exact Nat.le_of_not_lt hi),
      List.getElem?_eq_none (by rw [length_unpackNibbles]; omega)]

theorem nibbles_hexPrefixOddPath {fb : Byte} {tail : List Byte} (h : 2 * tail.length < 64) :
    (hexPrefixOddPath fb tail h).nibbles = lowNibble fb :: unpackNibbles tail := by
  have hlen : (lowNibble fb :: unpackNibbles tail).length = 2 * tail.length + 1 := by
    rw [List.length_cons, length_unpackNibbles]
  apply List.ext_getElem?
  intro i
  by_cases hi : i < 2 * tail.length + 1
  · rw [TriePath.getElem?_nibbles hi]
    simp only [hexPrefixOddPath]
    rw [b256Nibble_hexPrefixOddData fb tail (by omega),
      List.getElem?_eq_getElem (by omega : i < (lowNibble fb :: unpackNibbles tail).length)]
    rfl
  · rw [List.getElem?_eq_none (by rw [TriePath.length_nibbles]; exact Nat.le_of_not_lt hi),
      List.getElem?_eq_none (by omega)]

theorem length_hexPrefixTail {f : RlpFieldRef} (h : ¬ 33 < f.contentLen) :
    (sliceSuffix (subSlice f.source (f.source.length - f.contentLen) f.contentLen) 1).length ≤
      32 := by
  simp only [sliceSuffix, subSlice, List.length_drop, List.length_take]
  omega

/-- Decodes a compact path from its RLP field: the leaf flag and the
path. -/
def hexPrefixDecodeRef (f : RlpFieldRef) : Result (Bool × TriePath) :=
  if f.isList then
    fatalError .rlpDecode
  else
    let n := f.contentLen
    if n = 0 then
      .ok (false, pathEmpty)
    else if hmax : 33 < n then
      fatalError .rlpDecode
    else
      let content := subSlice f.source (f.source.length - n) n
      let fb := sliceByte content 0
      let flag := highNibble fb
      let isLeaf := flag.val.testBit 1
      let odd := flag.val.testBit 0
      let tail := sliceSuffix content 1
      have htail : tail.length ≤ 32 := length_hexPrefixTail hmax
      if odd then
        if h : 2 * tail.length < 64 then
          .ok (isLeaf, hexPrefixOddPath fb tail h)
        else
          fatalError .witnessDeficient
      else
        .ok (isLeaf, hexPrefixEvenPath tail htail)

/-- The compact encoding decodes to its path and flag. -/
theorem hexPrefixDecodeRef_hexPrefix {l : List Nibble} (hl : l.length ≤ 64) (isLeaf : Bool) :
    hexPrefixDecodeRef (bytesField (hexPrefix l isLeaf)) = .ok (isLeaf, .ofNibbles l) := by
  have hlen := length_hexPrefix l isLeaf
  have hcontent := rlpItemContent_bytesField (hexPrefix l isLeaf)
  rw [rlpItemContent] at hcontent
  change subSlice (bytesField (hexPrefix l isLeaf)).source
    ((bytesField (hexPrefix l isLeaf)).source.length - (hexPrefix l isLeaf).length)
    (hexPrefix l isLeaf).length = _ at hcontent
  rw [hexPrefixDecodeRef, if_neg (by simp [bytesField])]
  simp only [show (bytesField (hexPrefix l isLeaf)).contentLen = (hexPrefix l isLeaf).length from
    rfl, hcontent]
  rw [if_neg (by omega), dif_neg (by omega)]
  by_cases hpar : l.length % 2 = 0
  · have henc : hexPrefix l isLeaf = joinNibbles (hexPrefixFlag isLeaf) 0 :: packPairs l := by
      rw [hexPrefix, if_pos hpar]
    have hflag : highNibble (sliceByte (hexPrefix l isLeaf) 0) = hexPrefixFlag isLeaf := by
      rw [henc]
      exact highNibble_joinNibbles _ _
    have hbits : (hexPrefixFlag isLeaf).val.testBit 1 = isLeaf ∧
        (hexPrefixFlag isLeaf).val.testBit 0 = false := by
      cases isLeaf <;> decide
    simp only [hflag, hbits.1, hbits.2]
    refine congrArg (fun p => Except.ok (isLeaf, p)) ((TriePath.eq_ofNibbles_iff hl).mpr ?_)
    rw [nibbles_hexPrefixEvenPath, henc]
    exact unpackNibbles_packPairs hpar
  · have henc : hexPrefix l isLeaf =
        joinNibbles (hexPrefixFlag isLeaf + 1) (l.headD 0) :: packPairs l.tail := by
      rw [hexPrefix, if_neg hpar]
    have hflag : highNibble (sliceByte (hexPrefix l isLeaf) 0) = hexPrefixFlag isLeaf + 1 := by
      rw [henc]
      exact highNibble_joinNibbles _ _
    have hbits : (hexPrefixFlag isLeaf + 1).val.testBit 1 = isLeaf ∧
        (hexPrefixFlag isLeaf + 1).val.testBit 0 = true := by
      cases isLeaf <;> decide
    have htail : (sliceSuffix (hexPrefix l isLeaf) 1).length = l.length / 2 := by
      simp only [sliceSuffix, List.length_drop, hlen]
      omega
    simp only [hflag, hbits.1, hbits.2, if_true]
    rw [dif_pos (by omega)]
    refine congrArg (fun p => Except.ok (isLeaf, p)) ((TriePath.eq_ofNibbles_iff hl).mpr ?_)
    rw [nibbles_hexPrefixOddPath, henc]
    cases l with
    | nil => simp at hpar
    | cons a l =>
      simp only [List.length_cons] at hpar
      simp only [sliceSuffix, List.drop_succ_cons, List.drop_zero, List.tail_cons,
        List.headD_cons]
      rw [unpackNibbles_packPairs (by omega)]
      congr 1
      exact lowNibble_joinNibbles _ _

end EvmSail
