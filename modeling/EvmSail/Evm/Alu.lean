/-
# `EvmSail.Evm.Alu` — the 256-bit word operations of the opcodes

The arithmetic, comparison, bit and shift operations, each as the
instruction set's function on words.  A word is a `BitVec 256`; where the
source computes on unbounded integers and reduces at the end (`ADDMOD`,
`MULMOD`), so does the model.
-/
import EvmSail.Prelude

namespace EvmSail

/-! ## Helpers -/

def wordOfBool (b : Bool) : Word := if b then 1 else 0

def wordBit (value : Word) (i : Nat) : Bool := value.getLsbD i

def wordNegate (value : Word) : Word := 0 - value

/-- The two's-complement magnitude. -/
def wordAbs (value : Word) : Word := if wordBit value 255 then wordNegate value else value

def wordDiv (dividend divisor : Word) : Word :=
  if divisor = 0 then 0 else BitVec.ofNat 256 (dividend.toNat / divisor.toNat)

def wordMod (dividend divisor : Word) : Word :=
  if divisor = 0 then 0 else BitVec.ofNat 256 (dividend.toNat % divisor.toNat)

/-- The position above the most significant set bit of one limb. -/
def u64BitLength (limb : Nat) : Nat := 64 - (BitVec.ofNat 64 limb).clz.toNat

/-- The position above the most significant set bit, found limb by limb. -/
def wordBitLength (value : Word) : Nat :=
  let limb3 := (value.extractLsb' 192 64).toNat
  if limb3 ≠ 0 then 192 + u64BitLength limb3
  else
    let limb2 := (value.extractLsb' 128 64).toNat
    if limb2 ≠ 0 then 128 + u64BitLength limb2
    else
      let limb1 := (value.extractLsb' 64 64).toNat
      if limb1 ≠ 0 then 64 + u64BitLength limb1
      else u64BitLength (value.extractLsb' 0 64).toNat

/-- The number of significant bytes. -/
def wordByteLength (value : Word) : Nat :=
  let bitLength := wordBitLength value
  if bitLength = 0 then 0 else (bitLength + 7) / 8

def wordArithmeticShiftRight (value : Word) (amount : Nat) : Word :=
  let shifted := value >>> amount
  if wordBit value 255 then shifted ||| (BitVec.allOnes 256 <<< (256 - amount)) else shifted

/-- Signed less-than: the sign bits decide when they differ. -/
def wordSlt (a b : Word) : Bool :=
  if wordBit a 255 then
    if wordBit b 255 then decide (a < b) else true
  else if wordBit b 255 then false
  else decide (a < b)

/-! ## Arithmetic -/

def aluAdd (a b : Word) : Word := a + b

def aluSub (a b : Word) : Word := a - b

def aluMul (a b : Word) : Word := a * b

def aluDiv (a b : Word) : Word := wordDiv a b

def aluMod (a b : Word) : Word := wordMod a b

def aluSdiv (a b : Word) : Word :=
  if b = 0 then 0
  else
    let quotient := wordDiv (wordAbs a) (wordAbs b)
    if wordBit a 255 ≠ wordBit b 255 then wordNegate quotient else quotient

def aluSmod (a b : Word) : Word :=
  if b = 0 then 0
  else
    let remainder := wordMod (wordAbs a) (wordAbs b)
    if wordBit a 255 then wordNegate remainder else remainder

def aluAddmod (a b n : Word) : Word :=
  if n = 0 then 0 else BitVec.ofNat 256 ((a.toNat + b.toNat) % n.toNat)

def aluMulmod (a b n : Word) : Word :=
  if n = 0 then 0 else BitVec.ofNat 256 (a.toNat * b.toNat % n.toNat)

/-- The rounds of square-and-multiply; the last squaring is skipped. -/
def expRounds : Nat → Word → Word → Word → Word
  | 0, result, _, _ => result
  | remaining + 1, result, b, e =>
    let result := if wordBit e 0 then result * b else result
    let b := if remaining + 1 > 1 then b * b else b
    expRounds remaining result b (e >>> 1)

def aluExp (base exponent : Word) : Word := expRounds (wordBitLength exponent) 1 base exponent

def aluSignextend (byteIndex value : Word) : Word :=
  if byteIndex < 32 then
    let index := byteIndex.toNat
    let width := index * 8 + 8
    let signShift := index * 8 + 7
    let isolatedSign := (value >>> signShift) &&& 1
    let lowMask := ((1 : Word) <<< width) - 1
    if isolatedSign = 1 then (value &&& lowMask) ||| ~~~lowMask else value &&& lowMask
  else value

/-! ## Comparison -/

def aluLt (a b : Word) : Word := wordOfBool (decide (a < b))

def aluGt (a b : Word) : Word := wordOfBool (decide (b < a))

def aluSlt (a b : Word) : Word := wordOfBool (wordSlt a b)

def aluSgt (a b : Word) : Word := wordOfBool (wordSlt b a)

def aluEq (a b : Word) : Word := wordOfBool (decide (a = b))

def aluIszero (a : Word) : Word := wordOfBool (decide (a = 0))

/-! ## Bits and shifts -/

def aluAnd (a b : Word) : Word := a &&& b

def aluOr (a b : Word) : Word := a ||| b

def aluXor (a b : Word) : Word := a ^^^ b

def aluNot (a : Word) : Word := ~~~a

def aluByte (i x : Word) : Word :=
  if i < 32 then ((x >>> ((31 - i.toNat) * 8)).setWidth 8).setWidth 256 else 0

def aluShl (shiftAmt v : Word) : Word := if shiftAmt < 256 then v <<< shiftAmt.toNat else 0

def aluShr (shiftAmt v : Word) : Word := if shiftAmt < 256 then v >>> shiftAmt.toNat else 0

def aluSar (shiftAmt v : Word) : Word :=
  if shiftAmt < 256 then wordArithmeticShiftRight v shiftAmt.toNat
  else if wordBit v 255 then BitVec.allOnes 256
  else 0

def aluClz (x : Word) : Word := BitVec.ofNat 256 (256 - wordBitLength x)

/-! ## The length of a word -/

/-- Leading zeros are counted up to the highest set bit. -/
theorem size_eq_sub_clz (limb : BitVec 64) : limb.toNat.size = 64 - limb.clz.toNat := by
  refine le_antisymm (Nat.size_le.mpr BitVec.toNat_lt_two_pow_sub_clz) ?_
  by_cases hzero : limb = 0
  · subst hzero
    have hclz : (0#64).clz = 64 := BitVec.clz_eq_iff_eq_zero.mpr rfl
    have hle : 64 - (0#64).clz.toNat = 0 := by rw [hclz]; rfl
    exact hle ▸ Nat.zero_le _
  · have hlow := BitVec.two_pow_sub_clz_le_toNat_of_ne_zero (by decide) hzero
    have hsize := Nat.lt_size.mpr hlow
    omega

theorem u64BitLength_toNat (limb : BitVec 64) : u64BitLength limb.toNat = limb.toNat.size := by
  rw [u64BitLength, BitVec.ofNat_toNat, BitVec.setWidth_eq, size_eq_sub_clz]

/-- A number with a nonzero part above position `k` is as long as that part, moved up. -/
theorem size_of_high {n k : Nat} (high : n / 2 ^ k ≠ 0) : n.size = k + (n / 2 ^ k).size := by
  refine le_antisymm (Nat.size_le.mpr ?_) ?_
  · have hlt := Nat.lt_size_self (n / 2 ^ k)
    rw [Nat.div_lt_iff_lt_mul (Nat.two_pow_pos k), ← pow_add] at hlt
    rwa [Nat.add_comm]
  · obtain ⟨m, hm⟩ := Nat.exists_eq_succ_of_ne_zero
      (fun h => high (Nat.size_eq_zero.mp h))
    have hle : 2 ^ m ≤ n / 2 ^ k := Nat.lt_size.mp (by omega)
    rw [Nat.le_div_iff_mul_le (Nat.two_pow_pos k), ← pow_add] at hle
    have hlt := Nat.lt_size.mpr hle
    omega

/-- Above the limb at `k` there is nothing: the word reads as that limb and what is below. -/
theorem toNat_limb {value : Word} {k : Nat} (top : value.toNat < 2 ^ (k + 64)) :
    (value.extractLsb' k 64).toNat = value.toNat / 2 ^ k := by
  rw [BitVec.extractLsb'_toNat, Nat.shiftRight_eq_div_pow]
  refine Nat.mod_eq_of_lt ((Nat.div_lt_iff_lt_mul (Nat.two_pow_pos k)).mpr ?_)
  rwa [← pow_add, Nat.add_comm 64]

/-- One limb of the search: a nonzero limb decides, a zero one leaves a shorter word. -/
theorem limb_decides {value : Word} {k : Nat} (top : value.toNat < 2 ^ (k + 64)) :
    ((value.extractLsb' k 64).toNat ≠ 0 →
      k + u64BitLength (value.extractLsb' k 64).toNat = value.toNat.size) ∧
    (¬(value.extractLsb' k 64).toNat ≠ 0 → value.toNat < 2 ^ k) := by
  rw [u64BitLength_toNat, toNat_limb top]
  constructor
  · intro hne
    exact (size_of_high hne).symm
  · intro hzero
    exact (Nat.div_eq_zero_iff.mp (not_not.mp hzero)).resolve_left (Nat.two_pow_pos k).ne'

/-- The limb-by-limb search finds the length of the number. -/
theorem wordBitLength_eq_size (value : Word) : wordBitLength value = value.toNat.size := by
  have h3 := limb_decides (k := 192) value.isLt
  simp only [wordBitLength]
  split
  · rename_i hne
    exact h3.1 hne
  rename_i hzero
  have h2 := limb_decides (k := 128) (h3.2 hzero)
  split
  · rename_i hne
    exact h2.1 hne
  rename_i hzero
  have h1 := limb_decides (k := 64) (h2.2 hzero)
  split
  · rename_i hne
    exact h1.1 hne
  rename_i hzero
  rw [u64BitLength_toNat, toNat_limb (h1.2 hzero), pow_zero, Nat.div_one]

end EvmSail
