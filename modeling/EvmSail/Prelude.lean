/-
# `EvmSail.Prelude` — bytes, words, slices and failures

The value types the rest of the model is written over.  Fixed-width
vectors of bits and bytes keep their width; a slice of one of the memory
regions (stateless input, scratch arena) is the list of bytes it covers,
since no modelled function looks at where in its region a slice lies.

A function of the model that can stop the validator returns a `Result`:
`fatal e` is the source's `fatal_error(e)`, `assertFailed` a violated
`assert`, `guestAbort` the optimised host's `GUEST_ABORT()`.
-/
import EvmSail.Lib.Fallible
import Mathlib

namespace EvmSail

open Fallible

/-! ## Failures -/

/-- The reason a block fails validation. -/
inductive FatalError where
  | invalidConfig
  | headerChainBroken
  | rlpDecode
  | invalidSignature
  | invalidGasLimit
  | gasUsedExceedsLimit
  | blobGasLimitExceeded
  | executionInvalid
  | invalidGasUsed
  | invalidBlobGasUsed
  | invalidExcessBlobGas
  | invalidStateRoot
  | invalidReceiptsRoot
  | invalidLogsBloom
  | invalidBlockHash
  | invalidParentHash
  | blockAccessListTooLarge
  | invalidBlockAccessList
  | invalidExecutionRequests
  | witnessDeficient
  | numericOverflow
  deriving DecidableEq, Repr

/-- How a computation stops without returning. -/
inductive Halt where
  | fatal (e : FatalError)
  | assertFailed
  | guestAbort
  deriving DecidableEq, Repr

abbrev Result := Except Halt

/-- `fatal_error(e)`: the validator stops. -/
def fatalError {α : Type} (e : FatalError) : Result α := .error (.fatal e)

/-! ## Bytes and nibbles -/

abbrev Byte := BitVec 8

abbrev Nibble := Fin 16

/-- Nibble numerals. -/
instance instNeZeroNibbles : NeZero (16 : Nat) := ⟨by decide⟩

/-- `b[7 .. 4]`. -/
def highNibble (b : Byte) : Nibble := ⟨b.toNat / 16, by have := b.isLt; omega⟩

/-- `b[3 .. 0]`. -/
def lowNibble (b : Byte) : Nibble := ⟨b.toNat % 16, by omega⟩

/-- `append(h, l)`. -/
def joinNibbles (h l : Nibble) : Byte := BitVec.ofNat 8 (16 * h.val + l.val)

@[simp] theorem highNibble_joinNibbles (h l : Nibble) :
    highNibble (joinNibbles h l) = h := by
  ext
  have := h.isLt
  have := l.isLt
  simp only [highNibble, joinNibbles, BitVec.toNat_ofNat]
  omega

@[simp] theorem lowNibble_joinNibbles (h l : Nibble) :
    lowNibble (joinNibbles h l) = l := by
  ext
  have := h.isLt
  have := l.isLt
  simp only [lowNibble, joinNibbles, BitVec.toNat_ofNat]
  omega

@[simp] theorem joinNibbles_high_low (b : Byte) :
    joinNibbles (highNibble b) (lowNibble b) = b := by
  apply BitVec.eq_of_toNat_eq
  have := b.isLt
  simp only [highNibble, lowNibble, joinNibbles, BitVec.toNat_ofNat]
  omega

theorem byte_ext {b c : Byte} (hh : highNibble b = highNibble c)
    (hl : lowNibble b = lowNibble c) : b = c := by
  rw [← joinNibbles_high_low b, ← joinNibbles_high_low c, hh, hl]

/-! ## Big-endian numbers -/

/-- The number a byte string denotes, most significant byte first. -/
def natOfBytes (bs : List Byte) : Nat :=
  bs.foldl (fun acc b => acc * 256 + b.toNat) 0

/-- The low `len` bytes of a number, most significant byte first. -/
def bytesOfNat : Nat → Nat → List Byte
  | 0, _ => []
  | len + 1, v => bytesOfNat len (v / 256) ++ [BitVec.ofNat 8 v]

@[simp] theorem natOfBytes_nil : natOfBytes [] = 0 := rfl

theorem natOfBytes_append_singleton (bs : List Byte) (b : Byte) :
    natOfBytes (bs ++ [b]) = natOfBytes bs * 256 + b.toNat := by
  simp [natOfBytes]

theorem natOfBytes_append (xs ys : List Byte) :
    natOfBytes (xs ++ ys) = natOfBytes xs * 256 ^ ys.length + natOfBytes ys := by
  induction ys using List.reverseRecOn with
  | nil => simp
  | append_singleton ys y ih =>
    rw [← List.append_assoc, natOfBytes_append_singleton, ih, natOfBytes_append_singleton,
      List.length_append, List.length_singleton, Nat.pow_succ]
    ring

theorem natOfBytes_cons (x : Byte) (ds : List Byte) :
    natOfBytes (x :: ds) = x.toNat * 256 ^ ds.length + natOfBytes ds := by
  have h := natOfBytes_append [x] ds
  rwa [← List.nil_append [x], natOfBytes_append_singleton, natOfBytes_nil, Nat.zero_mul,
    Nat.zero_add] at h

/-- Zeros in front change nothing. -/
theorem natOfBytes_zeros_append (n : Nat) (bs : List Byte) :
    natOfBytes (List.replicate n 0 ++ bs) = natOfBytes bs := by
  induction n with
  | zero => rfl
  | succ n ih =>
    rw [List.replicate_succ, List.cons_append, natOfBytes_cons, ih]
    simp

@[simp] theorem length_bytesOfNat (len v : Nat) : (bytesOfNat len v).length = len := by
  induction len generalizing v with
  | zero => rfl
  | succ len ih => simp [bytesOfNat, ih]

theorem natOfBytes_bytesOfNat (len v : Nat) :
    natOfBytes (bytesOfNat len v) = v % 256 ^ len := by
  induction len generalizing v with
  | zero => simp [bytesOfNat, Nat.mod_one]
  | succ len ih =>
    have hstep : v % 256 ^ (len + 1) = v % 256 + 256 * (v / 256 % 256 ^ len) := by
      rw [Nat.pow_succ', Nat.mod_mul]
    have hbyte : (BitVec.ofNat 8 v).toNat = v % 256 := BitVec.toNat_ofNat ..
    rw [bytesOfNat, natOfBytes_append_singleton, ih, hbyte, hstep]
    ring

theorem natOfBytes_lt (bs : List Byte) : natOfBytes bs < 256 ^ bs.length := by
  induction bs using List.reverseRecOn with
  | nil => simp
  | append_singleton bs b ih =>
    have := b.isLt
    rw [natOfBytes_append_singleton, List.length_append, List.length_singleton, Nat.pow_succ]
    omega

/-- Reading back the bytes of the number a byte string denotes. -/
theorem bytesOfNat_natOfBytes (bs : List Byte) :
    bytesOfNat bs.length (natOfBytes bs) = bs := by
  induction bs using List.reverseRecOn with
  | nil => rfl
  | append_singleton bs b ih =>
    have hb := b.isLt
    rw [List.length_append, List.length_singleton, bytesOfNat, natOfBytes_append_singleton]
    rw [show (natOfBytes bs * 256 + b.toNat) / 256 = natOfBytes bs by omega, ih]
    congr 2
    apply BitVec.eq_of_toNat_eq
    rw [BitVec.toNat_ofNat]
    omega

theorem bytesOfNat_mod (len v : Nat) : bytesOfNat len (v % 256 ^ len) = bytesOfNat len v := by
  have h := bytesOfNat_natOfBytes (bytesOfNat len v)
  rwa [length_bytesOfNat, natOfBytes_bytesOfNat] at h

theorem getElem?_bytesOfNat {len i : Nat} (hi : i < len) (v : Nat) :
    (bytesOfNat len v)[i]? = some (BitVec.ofNat 8 (v / 256 ^ (len - 1 - i))) := by
  induction len generalizing v with
  | zero => omega
  | succ len ih =>
    rw [bytesOfNat]
    by_cases h : i < len
    · rw [List.getElem?_append_left (by simpa using h), ih h, Nat.div_div_eq_div_mul,
        ← Nat.pow_succ', show (len - 1 - i).succ = len + 1 - 1 - i by omega]
    · obtain rfl : i = len := by omega
      rw [List.getElem?_append_right (by simp)]
      simp

/-- The number of significant bytes of a number. -/
def byteLength (v : Nat) : Nat := (v.size + 7) / 8

theorem byteLength_le_iff {v k : Nat} : byteLength v ≤ k ↔ v < 256 ^ k := by
  rw [show (256 : Nat) = 2 ^ 8 from rfl, ← Nat.pow_mul, ← Nat.size_le, byteLength]
  omega

@[simp] theorem byteLength_zero : byteLength 0 = 0 := rfl

theorem byteLength_pos {v : Nat} (h : 0 < v) : 0 < byteLength v := by
  have : ¬ byteLength v ≤ 0 := by
    rw [byteLength_le_iff]
    omega
  omega

/-- The minimal big-endian form of a number. -/
def bigEndian (v : Nat) : List Byte := bytesOfNat (byteLength v) v

@[simp] theorem length_bigEndian (v : Nat) : (bigEndian v).length = byteLength v := by
  simp [bigEndian]

@[simp] theorem natOfBytes_bigEndian (v : Nat) : natOfBytes (bigEndian v) = v := by
  rw [bigEndian, natOfBytes_bytesOfNat]
  exact Nat.mod_eq_of_lt (byteLength_le_iff.mp (Nat.le_refl _))

/-! ## Words and hashes -/

abbrev Word := BitVec 256

/-- A fixed vector of 32 bytes, the first byte at index 0. -/
abbrev B256 := Vector Byte 32

abbrev Hash := B256

def zeroHash : Hash := Vector.replicate 32 0

/-- The big-endian bytes of a word. -/
def wordToHash (w : Word) : Hash :=
  Vector.ofFn fun i => w.extractLsb' (248 - 8 * i.val) 8

/-- The word of a 32-byte value. -/
def hashToWord (h : Hash) : Word := BitVec.ofNat 256 (natOfBytes h.toList)

/-- Big-endian constants, as the source writes them. -/
def hashFromBits (v : Nat) : Hash := wordToHash (BitVec.ofNat 256 v)

theorem getElem_wordToHash (w : Word) (i : Nat) (hi : i < 32) :
    (wordToHash w)[i] = BitVec.ofNat 8 (w.toNat / 256 ^ (31 - i)) := by
  apply BitVec.eq_of_toNat_eq
  simp only [wordToHash, Vector.getElem_ofFn, BitVec.extractLsb'_toNat, BitVec.toNat_ofNat,
    Nat.shiftRight_eq_div_pow]
  have hpow : (256 : Nat) ^ (31 - i) = 2 ^ (248 - 8 * i) := by
    rw [show 248 - 8 * i = 8 * (31 - i) by omega, Nat.pow_mul]
  rw [hpow]

theorem toList_wordToHash (w : Word) : (wordToHash w).toList = bytesOfNat 32 w.toNat := by
  apply List.ext_getElem?
  intro i
  by_cases hi : i < 32
  · rw [getElem?_bytesOfNat hi, List.getElem?_eq_getElem (by simpa using hi),
      Vector.getElem_toList, getElem_wordToHash]
  · rw [List.getElem?_eq_none (by simpa using hi), List.getElem?_eq_none (by simpa using hi)]

@[simp] theorem wordToHash_hashToWord (h : Hash) : wordToHash (hashToWord h) = h := by
  have hlen : h.toList.length = 32 := by simp
  have hlt := natOfBytes_lt h.toList
  have hback := bytesOfNat_natOfBytes h.toList
  rw [hlen] at hlt hback
  apply Vector.toList_inj.mp
  rw [toList_wordToHash, hashToWord, BitVec.toNat_ofNat, Nat.mod_eq_of_lt (by simpa using hlt),
    hback]

theorem natOfBytes_hashFromBits {v : Nat} (h : v < 2 ^ 256) :
    natOfBytes (hashFromBits v).toList = v := by
  rw [hashFromBits, toList_wordToHash, natOfBytes_bytesOfNat, BitVec.toNat_ofNat]
  omega

/-! ## Addresses -/

abbrev Address := BitVec 160

/-- The low 160 bits of a word. -/
def wordToAddress (value : Word) : Address := value.setWidth 160

/-- The bytes of an address. -/
def addressBytes (a : Address) : List Byte := bytesOfNat 20 a.toNat

theorem addressBytes_wordToAddress (w : Word) :
    addressBytes (wordToAddress w) = bytesOfNat 20 w.toNat := by
  have hmod : (wordToAddress w).toNat = w.toNat % 256 ^ 20 := by
    rw [wordToAddress, BitVec.toNat_setWidth]
    norm_num
  rw [addressBytes, hmod, bytesOfNat_mod]

@[simp] theorem length_addressBytes (a : Address) : (addressBytes a).length = 20 :=
  length_bytesOfNat 20 _

theorem natOfBytes_addressBytes (a : Address) : natOfBytes (addressBytes a) = a.toNat := by
  rw [addressBytes, natOfBytes_bytesOfNat]
  exact Nat.mod_eq_of_lt a.isLt

/-! ## Slices -/

/-- A slice of the stateless input. -/
abbrev StatelessInputSlice := List Byte

/-- A slice of the scratch arena. -/
abbrev ScratchSlice := List Byte

/-- `scratch_region_bound`: every region is addressed by 32-bit cursors. -/
@[irreducible] def scratchRegionBound : Nat := 2 ^ 32 - 1

theorem scratchRegionBound_eq : scratchRegionBound = 4294967295 := by
  rw [scratchRegionBound]
  rfl

/-- One byte of a slice, zero at or past its end. -/
def sliceByte (s : List Byte) (off : Nat) : Byte := (s[off]?).getD 0

/-- The 32-byte big-endian word at `off`, zero-padded past the end. -/
def sliceLoad (s : List Byte) (off : Nat) : Word :=
  BitVec.ofNat 256 (natOfBytes (((s.drop off).take 32).rightpad 32 0))

/-- The big-endian number in the `n ≤ 32` bytes at `off`. -/
def sliceLoadN (s : List Byte) (off n : Nat) : Word :=
  BitVec.ofNat 256 (natOfBytes (((s.drop off).take n).rightpad n 0))

/-- `sub_slice(s, off, len)`. -/
def subSlice (s : List Byte) (off len : Nat) : List Byte := (s.drop off).take len

theorem length_subSlice {s : List Byte} {off len : Nat} (h : off + len ≤ s.length) :
    (subSlice s off len).length = len := by
  rw [subSlice, List.length_take, List.length_drop]
  omega

theorem sliceByte_drop (s : List Byte) (n i : Nat) :
    sliceByte (s.drop n) i = sliceByte s (n + i) := by
  rw [sliceByte, sliceByte, List.getElem?_drop]

theorem sliceByte_subSlice (s : List Byte) (off len i : Nat) :
    sliceByte (subSlice s off len) i = if i < len then sliceByte s (off + i) else 0 := by
  rw [subSlice, sliceByte, List.getElem?_take]
  split
  · rw [List.getElem?_drop, sliceByte]
  · rfl

/-- `slice_suffix(s, off)`. -/
def sliceSuffix (s : List Byte) (off : Nat) : List Byte := s.drop off

theorem toList_wordToHash_sliceLoad (s : List Byte) (off : Nat) :
    (wordToHash (sliceLoad s off)).toList = ((s.drop off).take 32).rightpad 32 0 := by
  have hlen : (((s.drop off).take 32).rightpad 32 (0 : Byte)).length = 32 := by
    simp [List.rightpad]
  have hlt := natOfBytes_lt (((s.drop off).take 32).rightpad 32 (0 : Byte))
  have hback := bytesOfNat_natOfBytes (((s.drop off).take 32).rightpad 32 (0 : Byte))
  rw [hlen] at hlt hback
  rw [toList_wordToHash, sliceLoad, BitVec.toNat_ofNat, Nat.mod_eq_of_lt (by simpa using hlt),
    hback]

theorem getElem_wordToHash_sliceLoad (s : List Byte) (off i : Nat) (hi : i < 32) :
    (wordToHash (sliceLoad s off))[i] = sliceByte s (off + i) := by
  have h : (wordToHash (sliceLoad s off)).toList[i]? = some (sliceByte s (off + i)) := by
    rw [toList_wordToHash_sliceLoad, List.rightpad, sliceByte]
    by_cases h : off + i < s.length
    · rw [List.getElem?_append_left (by simp; omega)]
      simp [hi, h, List.getElem?_drop]
    · rw [List.getElem?_append_right (by simp; omega), List.getElem?_replicate, if_pos]
      · simp [List.getElem?_eq_none (by omega : s.length ≤ off + i)]
      · simp
        omega
  rwa [List.getElem?_eq_getElem (by simpa using hi), Vector.getElem_toList,
    Option.some_inj] at h

/-- A full-width load is the plain big-endian reading. -/
theorem wordToHash_sliceLoadN {s : List Byte} {off : Nat} {h : Hash}
    (hs : (s.drop off).take 32 = h.toList) : wordToHash (sliceLoadN s off 32) = h := by
  rw [sliceLoadN, hs, List.rightpad, show 32 - h.toList.length = 0 by simp,
    List.replicate_zero, List.append_nil]
  exact wordToHash_hashToWord h

end EvmSail
