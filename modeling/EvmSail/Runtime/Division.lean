/-
# `EvmSail.Runtime.Division` — long division of magnitudes

`magnitude_divide` divides bit by bit.  A one-limb divisor keeps its
remainder in one limb (`magnitude_divide_limb`); a longer one keeps it in
twelve, and the bit that a doubling shifts out of them is an implicit 769th
bit.  Both loops run under the same invariant, `Dividing`.
-/
import EvmSail.Runtime.Magnitude

namespace EvmSail.Runtime

open Fallible Limbs

/-! ## One limb -/

/-- A round of `magnitude_divide_limb`, on the quotient and the remainder. -/
def divideLimbBit (low divisor : BitVec 64) (bit : Nat) (s : BitVec 64 × BitVec 64) :
    BitVec 64 × BitVec 64 :=
  let rem := s.2 <<< 1 ||| (low >>> bit) &&& 1
  if s.2 >>> 63 ≠ 0 ∨ divisor ≤ rem then (s.1 ||| (1 : BitVec 64) <<< bit, rem - divisor)
  else (s.1, rem)

/-- The quotient and the remainder of `high << 64 | low`. -/
def magnitudeDivideLimb (high low divisor : BitVec 64) : BitVec 64 × BitVec 64 :=
  iterateDown (divideLimbBit low divisor) 64 (0, high)

/-- Setting a bit below the aligned ones adds its weight. -/
theorem or_two_pow {q k : Nat} (h : 2 ^ (k + 1) ∣ q) : q ||| 2 ^ k = q + 2 ^ k := by
  obtain ⟨t, rfl⟩ := h
  exact (Nat.two_pow_add_eq_or_of_lt (Nat.pow_lt_pow_right (by decide) (Nat.lt_succ_self k)) t).symm

theorem toNat_one_shiftLeft {k : Nat} (hk : k < 64) : ((1 : BitVec 64) <<< k).toNat = 2 ^ k := by
  have hlt : 2 ^ k < 2 ^ 64 := Nat.pow_lt_pow_right (by decide) hk
  rw [BitVec.toNat_shiftLeft, Nat.shiftLeft_eq]
  show 1 * 2 ^ k % 2 ^ 64 = 2 ^ k
  rw [Nat.one_mul, Nat.mod_eq_of_lt hlt]

/-- A doubled limb, with a bit shifted in. -/
theorem toNat_double_or (limb : BitVec 64) {bit : BitVec 64} (hbit : bit.toNat ≤ 1) :
    (limb <<< 1 ||| bit).toNat = 2 * limb.toNat % 2 ^ 64 + bit.toNat := by
  rw [BitVec.toNat_or, BitVec.toNat_shiftLeft, Nat.shiftLeft_eq, Nat.mul_comm]
  have heven : 2 ^ 1 * limb.toNat % 2 ^ 64 = 2 ^ 1 * (limb.toNat % 2 ^ 63) := by omega
  rw [heven, ← Nat.two_pow_add_eq_or_of_lt (by omega), ← heven, Nat.pow_one]

theorem toNat_and_one (limb : BitVec 64) : (limb &&& 1).toNat = limb.toNat % 2 := by
  rw [BitVec.toNat_and]
  exact Nat.and_two_pow_sub_one_eq_mod limb.toNat 1

theorem shiftRight_63_ne_zero (limb : BitVec 64) : limb >>> 63 ≠ 0 ↔ 2 ^ 63 ≤ limb.toNat := by
  have hlt := limb.isLt
  rw [ne_eq, ← BitVec.toNat_inj, BitVec.toNat_ushiftRight, Nat.shiftRight_eq_div_pow]
  show ¬ limb.toNat / 2 ^ 63 = 0 ↔ _
  omega

theorem toNat_bit (limb : BitVec 64) (r : Nat) :
    (limb >>> r &&& 1).toNat = limb.toNat / 2 ^ r % 2 := by
  rw [toNat_and_one, BitVec.toNat_ushiftRight, Nat.shiftRight_eq_div_pow]

/-- One bit of the division, when the shifted remainder may have an implicit
bit on top. -/
theorem divideLimbBit_dividing {low divisor : BitVec 64} {v k : Nat} (hk : k < 64)
    (hbit : v / 2 ^ k % 2 = low.toNat / 2 ^ k % 2) {s : BitVec 64 × BitVec 64}
    (h : Dividing v divisor.toNat (k + 1) s.1.toNat s.2.toNat) :
    Dividing v divisor.toNat k (divideLimbBit low divisor k s).1.toNat
      (divideLimbBit low divisor k s).2.toNat := by
  obtain ⟨quotient, remainder⟩ := s
  obtain ⟨htake, hleave⟩ := h.step rfl
  have hsmall := h.small
  have hd := divisor.isLt
  have hr := remainder.isLt
  have hmod := Nat.mod_lt (low.toNat / 2 ^ k) (show 0 < 2 by decide)
  have hshift : (remainder <<< 1 ||| low >>> k &&& 1).toNat =
      2 * remainder.toNat % 2 ^ 64 + low.toNat / 2 ^ k % 2 := by
    rw [toNat_double_or _ (by rw [toNat_bit]; omega), toNat_bit]
  rw [hbit] at htake hleave
  simp only at hsmall htake hleave
  rw [divideLimbBit]
  simp only [shiftRight_63_ne_zero, BitVec.le_def, hshift]
  split
  · rename_i hcond
    have hle : divisor.toNat ≤ 2 * remainder.toNat + low.toNat / 2 ^ k % 2 := by omega
    have hquotient : (quotient ||| (1 : BitVec 64) <<< k).toNat = quotient.toNat + 2 ^ k := by
      rw [BitVec.toNat_or, toNat_one_shiftLeft hk]
      exact or_two_pow h.aligned
    have hremainder : ((remainder <<< 1 ||| low >>> k &&& 1) - divisor).toNat =
        2 * remainder.toNat + low.toNat / 2 ^ k % 2 - divisor.toNat := by
      rw [BitVec.toNat_sub, hshift]
      omega
    rw [hquotient, hremainder]
    exact htake hle
  · rename_i hcond
    obtain ⟨hcarry, hlt⟩ := not_or.mp hcond
    have hexact : 2 * remainder.toNat % 2 ^ 64 = 2 * remainder.toNat :=
      Nat.mod_eq_of_lt (by omega)
    rw [hshift, hexact] at *
    exact hleave (by omega)

theorem magnitudeDivideLimb_exact {high divisor : BitVec 64} (low : BitVec 64)
    (h : high.toNat < divisor.toNat) :
    (magnitudeDivideLimb high low divisor).1.toNat * divisor.toNat +
        (magnitudeDivideLimb high low divisor).2.toNat = high.toNat * 2 ^ 64 + low.toNat ∧
      (magnitudeDivideLimb high low divisor).2.toNat < divisor.toNat := by
  have hlow := low.isLt
  have hinv : Dividing (high.toNat * 2 ^ 64 + low.toNat) divisor.toNat 0
      (magnitudeDivideLimb high low divisor).1.toNat
      (magnitudeDivideLimb high low divisor).2.toNat := by
    refine iterateDown_inv (fun k (s : BitVec 64 × BitVec 64) =>
      Dividing (high.toNat * 2 ^ 64 + low.toNat) divisor.toNat k s.1.toNat s.2.toNat) ?_ ?_
    · intro k s hk hs
      refine divideLimbBit_dividing hk ?_ hs
      obtain ⟨j, hj⟩ := Nat.exists_eq_add_of_lt hk
      have hpow : 2 ^ 64 = 2 ^ k * (2 * 2 ^ j) := by
        rw [hj, Nat.pow_succ, Nat.pow_add]
        ring
      have hdiv : (high.toNat * 2 ^ 64 + low.toNat) / 2 ^ k =
          high.toNat * (2 * 2 ^ j) + low.toNat / 2 ^ k := by
        rw [hpow, Nat.mul_left_comm, Nat.mul_add_div (Nat.two_pow_pos k)]
      rw [hdiv, Nat.mul_left_comm, Nat.mul_add_mod]
    · refine ⟨?_, h, Nat.dvd_zero _⟩
      show 0 * divisor.toNat + high.toNat * 2 ^ 64 + (high.toNat * 2 ^ 64 + low.toNat) % 2 ^ 64 = _
      omega
  have hsplit := hinv.split
  rw [Nat.pow_zero, Nat.mul_one, Nat.mod_one, Nat.add_zero] at hsplit
  exact ⟨hsplit, hinv.small⟩

/-- A round of the loop over the limbs of the dividend. -/
def divideByLimb (dividend : LimbArray) (divisor : BitVec 64) (i : Nat)
    (s : LimbArray × BitVec 64) : LimbArray × BitVec 64 :=
  let r := magnitudeDivideLimb s.2 (dividend i) divisor
  (putLimb s.1 i r.1, r.2)

theorem divideByLimb_exact (dividend : LimbArray) {divisor : BitVec 64} (n : Nat)
    (hd : 0 < divisor.toNat) :
    let s := iterateDown (divideByLimb dividend divisor) n (zeroLimbs, 0)
    magnitude s.1 n * divisor.toNat + s.2.toNat = magnitude dividend n ∧
      s.2.toNat < divisor.toNat := by
  intro s
  have hinv : magnitude s.1 n * divisor.toNat + s.2.toNat * (2 ^ 64) ^ 0 +
      magnitude dividend 0 = magnitude dividend n ∧ s.2.toNat < divisor.toNat ∧
      ∀ j, j < 0 → s.1 j = 0 := by
    refine iterateDown_inv (fun i (s : LimbArray × BitVec 64) =>
      magnitude s.1 n * divisor.toNat + s.2.toNat * (2 ^ 64) ^ i + magnitude dividend i =
        magnitude dividend n ∧ s.2.toNat < divisor.toNat ∧ ∀ j, j < i → s.1 j = 0) ?_ ?_
    · rintro i ⟨quotient, carry⟩ hi ⟨hvalue, hcarry, hzero⟩
      simp only at hvalue hcarry hzero
      obtain ⟨hsplit, hsmall⟩ := magnitudeDivideLimb_exact (dividend i) hcarry
      simp only [divideByLimb]
      refine ⟨?_, hsmall, ?_⟩
      · have hput := @magnitude_putLimb quotient n i
          (magnitudeDivideLimb carry (dividend i) divisor).1 hi
        rw [hzero i (Nat.lt_succ_self i)] at hput
        have hscale := congrArg (· * (2 ^ 64) ^ i) hsplit
        have hpow : (2 ^ 64) ^ (i + 1) = 2 ^ 64 * (2 ^ 64) ^ i := Nat.pow_succ'
        have hnone : (0 : BitVec 64).toNat * (2 ^ 64) ^ i = 0 := Nat.zero_mul _
        rw [magnitude_succ, hpow] at hvalue
        rw [hnone, Nat.add_zero] at hput
        rw [hput]
        simp only [Nat.add_mul] at hscale
        linarith
      · intro j hj
        rw [putLimb_of_ne (Nat.ne_of_lt hj)]
        exact hzero j (Nat.lt_succ_of_lt hj)
    · refine ⟨?_, hd, fun _ _ => rfl⟩
      rw [magnitude_zeroLimbs]
      show 0 * divisor.toNat + 0 * (2 ^ 64) ^ n + magnitude dividend n = magnitude dividend n
      ring
  obtain ⟨hvalue, hsmall, -⟩ := hinv
  rw [Nat.pow_zero, Nat.mul_one] at hvalue
  exact ⟨hvalue, hsmall⟩

/-! ## Twelve limbs -/

/-- A round of the loop that doubles the remainder. -/
def doubleLimb (i : Nat) (s : LimbArray × BitVec 64) : LimbArray × BitVec 64 :=
  (putLimb s.1 i (s.1 i <<< 1 ||| s.2), s.1 i >>> 63)

/-- `(limbs[bit >> 6] >> (bit & 63)) & 1`. -/
def limbBit (limbs : LimbArray) (bit : Nat) : BitVec 64 := limbs (bit / 64) >>> (bit % 64) &&& 1

/-- A round of `magnitude_full_subtract`, in place. -/
def fullSubtractLimb (rhs : LimbArray) (i : Nat) (s : LimbArray × Nat) : LimbArray × Nat :=
  let difference := (2 ^ 128 + (s.1 i).toNat - (rhs i).toNat - s.2) % 2 ^ 128
  (putLimb s.1 i (BitVec.ofNat 64 difference), difference / 2 ^ 64 % 2)

def magnitudeFullSubtract (lhs rhs : LimbArray) : LimbArray :=
  (iterate (fullSubtractLimb rhs) integerLimbs (lhs, 0)).1

/-- `magnitude_full_compare`, the loop of `magnitude_compare` on all limbs. -/
def magnitudeFullCompare (lhs rhs : LimbArray) : Int := magnitudeCompareFrom lhs rhs integerLimbs

/-- A round of the loop over the bits of the dividend, on the quotient and
the remainder. -/
def divideBit (dividend divisor : LimbArray) (bit : Nat) (s : LimbArray × LimbArray) :
    LimbArray × LimbArray :=
  let doubled := iterate doubleLimb integerLimbs (s.2, 0)
  let remainder := putLimb doubled.1 0 (doubled.1 0 ||| limbBit dividend bit)
  if doubled.2 ≠ 0 ∨ 0 ≤ magnitudeFullCompare remainder divisor then
    (putLimb s.1 (bit / 64) (s.1 (bit / 64) ||| (1 : BitVec 64) <<< (bit % 64)),
      magnitudeFullSubtract remainder divisor)
  else (s.1, remainder)

/-- The highest bit of the dividend that is set, or zero. -/
def topBit (dividend : LimbArray) : Nat → Nat
  | 0 => 0
  | bit + 1 => if limbBit dividend (bit + 1) = 0 then topBit dividend bit else bit + 1

/-- `magnitude_divide`: quotient and remainder, each with its length. -/
def magnitudeDivide (dividend : LimbArray) (dividendLength : Nat) (divisor : LimbArray)
    (divisorLength : Nat) : Result ((Nat × LimbArray) × (Nat × LimbArray)) :=
  if divisorLength = 0 then integerFailure
  else if dividendLength = 0 then .ok ((0, zeroLimbs), (0, zeroLimbs))
  else if divisorLength = 1 then
    let s := iterateDown (divideByLimb dividend (divisor 0)) dividendLength (zeroLimbs, 0)
    .ok ((magnitudeNormalize s.1 dividendLength, s.1),
      if s.2 ≠ 0 then (1, putLimb zeroLimbs 0 s.2) else (0, zeroLimbs))
  else
    let divisorFull : LimbArray := fun i => if i < divisorLength then divisor i else 0
    let top := topBit dividend (dividendLength * 64 - 1)
    let s := iterateDown (divideBit dividend divisorFull) (top + 1) (zeroLimbs, zeroLimbs)
    .ok ((magnitudeNormalize s.1 integerLimbs, s.1), (magnitudeNormalize s.2 integerLimbs, s.2))

/-- A bit of an array is a bit of its number. -/
theorem toNat_limbBit (limbs : LimbArray) {n k : Nat} (hk : k < n * 64) :
    (limbBit limbs k).toNat = magnitude limbs n / 2 ^ k % 2 := by
  have hlt : k / 64 < n := Nat.div_lt_of_lt_mul (by omega)
  have hr : k % 64 < 64 := Nat.mod_lt k (by decide)
  rw [limbBit, toNat_bit, ← magnitude_div_mod hlt]
  have hpow : 2 ^ k = (2 ^ 64) ^ (k / 64) * 2 ^ (k % 64) := by
    rw [← Nat.pow_mul, ← Nat.pow_add, Nat.div_add_mod]
  rw [hpow, ← Nat.div_div_eq_div_mul]
  generalize magnitude limbs n / (2 ^ 64) ^ (k / 64) = x
  generalize k % 64 = r at hr ⊢
  obtain ⟨j, hj⟩ := Nat.exists_eq_add_of_lt hr
  have hsplit : 2 ^ 64 = 2 ^ r * (2 * 2 ^ j) := by
    rw [hj, Nat.pow_succ, Nat.pow_add]
    ring
  rw [hsplit, Nat.mod_mul_right_div_self, Nat.mod_mul_right_mod]

/-- The invariant of the loop that doubles. -/
structure Doubling (before : LimbArray) (i : Nat) (s : LimbArray × BitVec 64) : Prop where
  ahead : ∀ j, i ≤ j → s.1 j = before j
  carry_le : s.2.toNat ≤ 1
  value : magnitude s.1 i + s.2.toNat * (2 ^ 64) ^ i = 2 * magnitude before i
  even : 0 < i → (s.1 0).toNat % 2 = 0

theorem Doubling.round {before : LimbArray} {i : Nat} {s : LimbArray × BitVec 64}
    (h : Doubling before i s) : Doubling before (i + 1) (doubleLimb i s) := by
  obtain ⟨remainder, carry⟩ := s
  obtain ⟨hahead, hcarry, hvalue, heven⟩ := h
  simp only at hahead hcarry hvalue heven
  have hlimb := hahead i (Nat.le_refl i)
  have hlt := (before i).isLt
  have hor := toNat_double_or (before i) hcarry
  have hnext : (before i >>> 63).toNat = (before i).toNat / 2 ^ 63 := by
    rw [BitVec.toNat_ushiftRight, Nat.shiftRight_eq_div_pow]
  simp only [doubleLimb, hlimb]
  refine ⟨?_, ?_, ?_, ?_⟩
  · intro j hj
    dsimp only
    rw [putLimb_of_ne (by omega)]
    exact hahead j (by omega)
  · rw [hnext]
    omega
  · have hbelow : magnitude (putLimb remainder i (before i <<< 1 ||| carry)) i +
        carry.toNat * (2 ^ 64) ^ i = 2 * magnitude before i := by
      rw [magnitude_put_below]
      exact hvalue
    have hstep : 2 * (before i).toNat % 2 ^ 64 + carry.toNat +
        2 ^ 64 * ((before i).toNat / 2 ^ 63) = 2 * (before i).toNat + carry.toNat := by
      omega
    have hround := carry_step hbelow hstep (by simp only [putLimb_self, hor])
    have hbefore : magnitude before (i + 1) =
        magnitude before i + (before i).toNat * (2 ^ 64) ^ i := magnitude_succ
    dsimp only
    rw [hnext, hbefore, Nat.mul_add, ← Nat.mul_assoc]
    exact hround
  · intro _
    dsimp only
    by_cases hi : i = 0
    · cases hi
      rw [putLimb_self, hor]
      have hzero : carry.toNat = 0 := by
        have h0 : magnitude remainder 0 = 0 := rfl
        have h1 : magnitude before 0 = 0 := rfl
        rw [h0, h1, Nat.pow_zero] at hvalue
        omega
      omega
    · rw [putLimb_of_ne (fun h => hi h.symm)]
      exact heven (Nat.pos_of_ne_zero hi)

theorem doubleLimb_exact (remainder : LimbArray) :
    Doubling remainder integerLimbs (iterate doubleLimb integerLimbs (remainder, 0)) := by
  refine iterate_inv (Doubling remainder) (fun i s _ h => h.round) ⟨fun _ _ => rfl, ?_, ?_, ?_⟩
  · exact Nat.zero_le 1
  · simp only [magnitude, value_zero]
    rfl
  · intro h
    exact absurd h (Nat.lt_irrefl 0)

/-- The invariant of the loop of `magnitude_full_subtract`. -/
structure FullSubtracting (lhs rhs : LimbArray) (i : Nat) (s : LimbArray × Nat) : Prop where
  ahead : ∀ j, i ≤ j → s.1 j = lhs j
  borrow_le : s.2 ≤ 1
  value : magnitude s.1 i + magnitude rhs i = magnitude lhs i + s.2 * (2 ^ 64) ^ i

theorem FullSubtracting.round {lhs rhs : LimbArray} {i : Nat} {s : LimbArray × Nat}
    (h : FullSubtracting lhs rhs i s) :
    FullSubtracting lhs rhs (i + 1) (fullSubtractLimb rhs i s) := by
  obtain ⟨limbs, borrow⟩ := s
  obtain ⟨hahead, hborrow, hvalue⟩ := h
  simp only at hahead hborrow hvalue
  have hl := (lhs i).isLt
  have hr := (rhs i).isLt
  simp only [fullSubtractLimb, hahead i (Nat.le_refl i)]
  refine ⟨?_, Nat.lt_succ_iff.mp (Nat.mod_lt _ (by decide)), ?_⟩
  · intro j hj
    dsimp only
    rw [putLimb_of_ne (by omega)]
    exact hahead j (by omega)
  · have hlhs : magnitude lhs (i + 1) = magnitude lhs i + (lhs i).toNat * (2 ^ 64) ^ i :=
      magnitude_succ
    have hrhs : magnitude rhs (i + 1) = magnitude rhs i + (rhs i).toNat * (2 ^ 64) ^ i :=
      magnitude_succ
    simp only [hlhs, hrhs]
    generalize (lhs i).toNat = x at hl ⊢
    generalize (rhs i).toNat = y at hr ⊢
    refine magnitude_borrow hvalue ?_
    omega

/-- The wrapped difference, from a number with an implicit bit on top. -/
theorem magnitudeFullSubtract_exact {lhs rhs : LimbArray} {carry : Nat} (hcarry : carry ≤ 1)
    (hle : magnitude rhs integerLimbs ≤ magnitude lhs integerLimbs + carry * storeBound)
    (hlt : magnitude lhs integerLimbs + carry * storeBound <
      2 * magnitude rhs integerLimbs) :
    magnitude (magnitudeFullSubtract lhs rhs) integerLimbs =
      magnitude lhs integerLimbs + carry * storeBound - magnitude rhs integerLimbs := by
  have hloop : FullSubtracting lhs rhs integerLimbs
      (iterate (fullSubtractLimb rhs) integerLimbs (lhs, 0)) := by
    refine iterate_inv (FullSubtracting lhs rhs) (fun i s _ h => h.round)
      ⟨fun _ _ => rfl, Nat.zero_le 1, ?_⟩
    simp only [magnitude, value_zero, Nat.zero_mul]
  rw [magnitudeFullSubtract]
  generalize iterate (fullSubtractLimb rhs) integerLimbs (lhs, 0) = s at hloop
  obtain ⟨-, hborrow, hvalue⟩ := hloop
  have hs : magnitude s.1 integerLimbs < storeBound := magnitude_lt
  have hrhs : magnitude rhs integerLimbs < storeBound := magnitude_lt
  have hlhs : magnitude lhs integerLimbs < storeBound := magnitude_lt
  replace hvalue : magnitude s.1 integerLimbs + magnitude rhs integerLimbs =
      magnitude lhs integerLimbs + s.2 * storeBound := hvalue
  rcases Nat.le_one_iff_eq_zero_or_eq_one.mp hcarry with rfl | rfl <;>
    rcases Nat.le_one_iff_eq_zero_or_eq_one.mp hborrow with h | h <;>
    rw [h] at hvalue <;> omega

/-- Shifting a bit of the dividend into the doubled remainder. -/
theorem shiftedRemainder (remainder : LimbArray) {bit : BitVec 64} (hbit : bit.toNat ≤ 1) :
    let doubled := iterate doubleLimb integerLimbs (remainder, 0)
    magnitude (putLimb doubled.1 0 (doubled.1 0 ||| bit)) integerLimbs +
        doubled.2.toNat * storeBound = 2 * magnitude remainder integerLimbs + bit.toNat := by
  intro doubled
  obtain ⟨-, -, hvalue, heven⟩ := doubleLimb_exact remainder
  replace hvalue : magnitude doubled.1 integerLimbs + doubled.2.toNat * storeBound =
      2 * magnitude remainder integerLimbs := hvalue
  replace heven : (doubled.1 0).toNat % 2 = 0 := heven (by decide)
  have hor : (doubled.1 0 ||| bit).toNat = (doubled.1 0).toNat + bit.toNat := by
    have hhalf : (doubled.1 0).toNat = 2 ^ 1 * ((doubled.1 0).toNat / 2) := by omega
    rw [BitVec.toNat_or, hhalf]
    exact (Nat.two_pow_add_eq_or_of_lt (by omega) _).symm
  have hput := @magnitude_putLimb doubled.1 integerLimbs 0 (doubled.1 0 ||| bit) (by decide)
  rw [hor, Nat.pow_zero] at hput
  omega

/-- Setting a quotient bit below all bits that are set. -/
theorem setQuotientBit {quotient : LimbArray} {k : Nat} (hk : k < integerLimbs * 64)
    (h : 2 ^ (k + 1) ∣ magnitude quotient integerLimbs) :
    magnitude (putLimb quotient (k / 64)
        (quotient (k / 64) ||| (1 : BitVec 64) <<< (k % 64))) integerLimbs =
      magnitude quotient integerLimbs + 2 ^ k := by
  have hi : k / 64 < integerLimbs := Nat.div_lt_of_lt_mul (by omega)
  have hr : k % 64 < 64 := Nat.mod_lt k (by decide)
  have hpow : 2 ^ k = 2 ^ (k % 64) * (2 ^ 64) ^ (k / 64) := by
    rw [← Nat.pow_mul, ← Nat.pow_add, Nat.add_comm, Nat.div_add_mod]
  have haligned : 2 ^ (k % 64 + 1) ∣ (quotient (k / 64)).toNat := by
    rw [← magnitude_div_mod hi]
    refine (Nat.dvd_mod_iff (Nat.pow_dvd_pow 2 hr)).mpr ?_
    obtain ⟨t, ht⟩ := h
    have hdiv : magnitude quotient integerLimbs / (2 ^ 64) ^ (k / 64) =
        2 ^ (k % 64 + 1) * t := by
      have hshape : magnitude quotient integerLimbs =
          (2 ^ 64) ^ (k / 64) * (2 ^ (k % 64 + 1) * t) := by
        rw [ht, Nat.pow_succ, hpow, Nat.pow_succ]
        ring
      rw [hshape, Nat.mul_div_cancel_left _ (Nat.pow_pos (by decide))]
    rw [hdiv]
    exact Nat.dvd_mul_right _ _
  have hput := @magnitude_putLimb quotient integerLimbs (k / 64)
    (quotient (k / 64) ||| (1 : BitVec 64) <<< (k % 64)) hi
  rw [BitVec.toNat_or, toNat_one_shiftLeft hr, or_two_pow haligned, Nat.add_mul, ← hpow] at hput
  omega

/-- One bit of the division with a remainder of twelve limbs. -/
theorem divideBit_dividing {dividend divisor : LimbArray} {v k : Nat}
    (hk : k < integerLimbs * 64) (hbit : (limbBit dividend k).toNat = v / 2 ^ k % 2)
    {s : LimbArray × LimbArray}
    (h : Dividing v (magnitude divisor integerLimbs) (k + 1) (magnitude s.1 integerLimbs)
      (magnitude s.2 integerLimbs)) :
    Dividing v (magnitude divisor integerLimbs) k
      (magnitude (divideBit dividend divisor k s).1 integerLimbs)
      (magnitude (divideBit dividend divisor k s).2 integerLimbs) := by
  obtain ⟨quotient, remainder⟩ := s
  have hle : (limbBit dividend k).toNat ≤ 1 := by
    rw [hbit]
    exact Nat.lt_succ_iff.mp (Nat.mod_lt _ (by decide))
  have hshifted := shiftedRemainder remainder hle
  have hcarry := (doubleLimb_exact remainder).carry_le
  rw [hbit] at hshifted
  obtain ⟨htake, hleave⟩ := h.step hshifted
  have hsmall := h.small
  have haligned := h.aligned
  simp only at hsmall haligned htake hleave hshifted
  have hD : magnitude divisor integerLimbs < storeBound := magnitude_lt
  have hbitlt := Nat.mod_lt (v / 2 ^ k) (show 0 < 2 by decide)
  rw [divideBit]
  simp only
  generalize iterate doubleLimb integerLimbs (remainder, 0) = doubled at *
  have hcompare := magnitudeCompareFrom_eq
    (putLimb doubled.1 0 (doubled.1 0 ||| limbBit dividend k)) divisor integerLimbs
  have hzero : doubled.2 ≠ 0 ↔ doubled.2.toNat = 1 := by
    rw [ne_eq, ← BitVec.toNat_inj]
    show ¬ doubled.2.toNat = 0 ↔ _
    omega
  rw [magnitudeFullCompare, hcompare]
  generalize putLimb doubled.1 0 (doubled.1 0 ||| limbBit dividend k) = shifted at *
  have hshiftedLt : magnitude shifted integerLimbs < storeBound := magnitude_lt
  split
  · rename_i hcond
    have hge : magnitude divisor integerLimbs ≤
        magnitude shifted integerLimbs + doubled.2.toNat * storeBound := by
      rcases hcond with hone | horder
      · rw [hzero.mp hone]
        omega
      · by_contra hlt
        rw [orderOf_lt (by omega)] at horder
        exact absurd horder (by decide)
    rw [setQuotientBit hk haligned, magnitudeFullSubtract_exact hcarry hge (by omega)]
    exact htake hge
  · rename_i hcond
    obtain ⟨hnone, horder⟩ := not_or.mp hcond
    have hcarry0 : doubled.2.toNat = 0 := by
      have := mt hzero.mpr hnone
      omega
    rw [hcarry0, Nat.zero_mul, Nat.add_zero] at hleave
    refine hleave ?_
    by_contra hge
    rcases Nat.eq_or_lt_of_le (Nat.not_lt.mp hge) with heq | hlt
    · rw [← heq, orderOf, if_neg (Nat.lt_irrefl _), if_pos rfl] at horder
      exact horder (Int.le_refl 0)
    · rw [orderOf_gt hlt] at horder
      exact horder (by decide)

/-- No bit above the top bit is set. -/
theorem topBit_lt {dividend : LimbArray} {n : Nat} (bit : Nat) (hbit : bit < n * 64)
    (h : magnitude dividend n < 2 ^ (bit + 1)) :
    topBit dividend bit ≤ bit ∧ magnitude dividend n < 2 ^ (topBit dividend bit + 1) := by
  induction bit with
  | zero => exact ⟨Nat.le_refl 0, h⟩
  | succ bit ih =>
    rw [topBit]
    split
    · rename_i hzero
      have hread := toNat_limbBit dividend hbit
      rw [hzero] at hread
      have hlow : magnitude dividend n < 2 ^ (bit + 1) := by
        by_contra hge
        have hone : magnitude dividend n / 2 ^ (bit + 1) = 1 := by
          rw [Nat.pow_succ 2 (bit + 1)] at h
          exact Nat.div_eq_of_lt_le (by omega) (by omega)
        rw [hone] at hread
        exact absurd hread (by decide)
      obtain ⟨hle, hlt⟩ := ih (by omega) hlow
      exact ⟨Nat.le_succ_of_le hle, hlt⟩
    · exact ⟨Nat.le_refl _, h⟩

/-- A magnitude and its length, as an operation leaves them. -/
structure IsMagnitude (v : Nat) (r : Nat × LimbArray) : Prop where
  length_le : r.1 ≤ integerLimbs
  normal : Normal r.2 r.1
  value : magnitude r.2 r.1 = v

theorem isMagnitude_normalize {limbs : LimbArray} {n v : Nat} (hn : n ≤ integerLimbs)
    (h : magnitude limbs n = v) : IsMagnitude v (magnitudeNormalize limbs n, limbs) :=
  ⟨Nat.le_trans (magnitudeNormalize_le _ _) hn, magnitudeNormalize_normal _ _,
    (magnitudeNormalize_value _ _).trans h⟩

theorem isMagnitude_zero : IsMagnitude 0 (0, zeroLimbs) :=
  ⟨Nat.zero_le _, fun _ h => (by cases h), rfl⟩

theorem isMagnitude_limb {limb : BitVec 64} (h : limb ≠ 0) :
    IsMagnitude limb.toNat (1, putLimb zeroLimbs 0 limb) := by
  refine ⟨by show 1 ≤ integerLimbs; decide, ?_, ?_⟩
  · intro i hi
    cases hi
    show putLimb zeroLimbs 0 limb 0 ≠ 0
    rw [putLimb_self]
    exact h
  · show magnitude (putLimb zeroLimbs 0 limb) 1 = limb.toNat
    rw [magnitude_put_succ]
    show 0 + limb.toNat * 1 = limb.toNat
    omega

/-- `magnitude_divide` returns the exact quotient and remainder, or aborts
on the divisor zero. -/
theorem magnitudeDivide_exact (dividend divisor : LimbArray) {dividendLength divisorLength : Nat}
    (hl : dividendLength ≤ integerLimbs) (hr : divisorLength ≤ integerLimbs)
    (hnormal : Normal divisor divisorLength) :
    Ends (fun r =>
        IsMagnitude (magnitude dividend dividendLength / magnitude divisor divisorLength) r.1 ∧
        IsMagnitude (magnitude dividend dividendLength % magnitude divisor divisorLength) r.2 ∧
        magnitude divisor divisorLength ≠ 0)
      (fun e => e = .guestAbort ∧ magnitude divisor divisorLength = 0)
      (magnitudeDivide dividend dividendLength divisor divisorLength) := by
  rw [magnitudeDivide]
  split
  · rename_i hzero
    cases hzero
    exact ⟨rfl, rfl⟩
  · rename_i hlength
    have hne : magnitude divisor divisorLength ≠ 0 := fun h => hlength (hnormal.eq_zero_iff.mp h)
    split
    · rename_i hzero
      cases hzero
      have hnone : magnitude dividend 0 = 0 := rfl
      rw [hnone, Nat.zero_div, Nat.zero_mod]
      exact ⟨isMagnitude_zero, isMagnitude_zero, hne⟩
    · split
      · rename_i hone
        cases hone
        have hsingle : magnitude divisor 1 = (divisor 0).toNat := by
          rw [magnitude_succ]
          show 0 + _ * 1 = _
          omega
        rw [hsingle] at hne ⊢
        obtain ⟨hsplit, hsmall⟩ := divideByLimb_exact dividend dividendLength
          (Nat.pos_of_ne_zero hne)
        generalize iterateDown (divideByLimb dividend (divisor 0)) dividendLength (zeroLimbs, 0) =
          s at hsplit hsmall
        obtain ⟨hq, hm⟩ := (Nat.div_mod_unique (Nat.pos_of_ne_zero hne)).mpr
          ⟨show s.2.toNat + (divisor 0).toNat * magnitude s.1 dividendLength =
            magnitude dividend dividendLength by rw [← hsplit, Nat.mul_comm, Nat.add_comm], hsmall⟩
        refine ⟨isMagnitude_normalize hl hq.symm, ?_, hne⟩
        rw [hm]
        split
        · rename_i hcarry
          exact isMagnitude_limb hcarry
        · rename_i hcarry
          rw [not_not.mp hcarry]
          exact isMagnitude_zero
      · have hfull : magnitude (fun i => if i < divisorLength then divisor i else 0)
            integerLimbs = magnitude divisor divisorLength := by
          rw [magnitude_of_zeros hr fun i hi _ => if_neg (Nat.not_lt.mpr hi)]
          exact magnitude_congr fun i hi => if_pos hi
        rename_i hdividend _
        have hlast : dividendLength * 64 - 1 + 1 = dividendLength * 64 := by omega
        have hbound : magnitude dividend dividendLength < 2 ^ (dividendLength * 64 - 1 + 1) := by
          rw [hlast, Nat.mul_comm, Nat.pow_mul]
          exact magnitude_lt
        obtain ⟨htop, hlt⟩ := topBit_lt (dividendLength * 64 - 1) (by omega) hbound
        have hloop : Dividing (magnitude dividend dividendLength)
            (magnitude divisor divisorLength) 0
            (magnitude (iterateDown (divideBit dividend
              (fun i => if i < divisorLength then divisor i else 0))
              (topBit dividend (dividendLength * 64 - 1) + 1) (zeroLimbs, zeroLimbs)).1
                integerLimbs)
            (magnitude (iterateDown (divideBit dividend
              (fun i => if i < divisorLength then divisor i else 0))
              (topBit dividend (dividendLength * 64 - 1) + 1) (zeroLimbs, zeroLimbs)).2
                integerLimbs) := by
          rw [← hfull]
          refine iterateDown_inv (fun k (s : LimbArray × LimbArray) =>
            Dividing (magnitude dividend dividendLength) _ k (magnitude s.1 integerLimbs)
              (magnitude s.2 integerLimbs)) ?_ ?_
          · intro k s hk hs
            exact divideBit_dividing (by omega) (toNat_limbBit dividend (by omega)) hs
          · rw [magnitude_zeroLimbs, hfull]
            exact Dividing.start (Nat.pos_of_ne_zero hne) hlt
        obtain ⟨hq, hm⟩ := hloop.done
        exact ⟨isMagnitude_normalize (Nat.le_refl _) hq, isMagnitude_normalize (Nat.le_refl _) hm,
          hne⟩

end EvmSail.Runtime
