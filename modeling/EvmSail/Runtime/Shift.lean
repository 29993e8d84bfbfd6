/-
# `EvmSail.Runtime.Shift` — shifts and powers of the runtime integers

`shl_int` and `shr_int` move whole limbs and then bits across the limb
boundary.  A left shift aborts as soon as a set bit leaves the twelve
limbs; a right shift drops bits, and a negative value with a dropped bit is
rounded away from zero, which makes the shift a floor division.  `pow_int`
squares and multiplies; `pow2` writes one bit.

Shift amounts and exponents go through `integer_small_unsigned`.
-/
import EvmSail.Runtime.Integer

namespace EvmSail.Runtime

open Fallible Limbs SignMagnitude

section Operations

variable {ι : Type} [DecidableEq ι] (result lhs rhs : ι)

/-- `integer_small_unsigned`. -/
def integerSmallUnsigned (x : SailInt) : Result Nat :=
  if x.negative ∨ 1 < x.length then integerFailure
  else .ok (if x.length = 0 then 0 else (x.limbs 0).toNat)

/-- A round of the loop of `shl_int`. -/
def shiftLeftLimb (value : LimbArray) (wordShift bitShift i : Nat) (shifted : LimbArray) :
    Result LimbArray :=
  let target := i + wordShift
  if integerLimbs ≤ target then integerFailure
  else
    let shifted := putLimb shifted target (shifted target ||| value i <<< bitShift)
    if bitShift ≠ 0 then
      let high := value i >>> (64 - bitShift)
      if high ≠ 0 then
        if integerLimbs ≤ target + 1 then integerFailure
        else .ok (putLimb shifted (target + 1) (shifted (target + 1) ||| high))
      else .ok shifted
    else .ok shifted

def shlInt (s : Store ι) : Result (Store ι) := do
  let shift ← integerSmallUnsigned (s rhs)
  if (s lhs).length = 0 then .ok (integerZero s result)
  else if integerLimbs * 64 ≤ shift then integerFailure
  else do
    let shifted ← foreach (s lhs).length
      (fun i => shiftLeftLimb (s lhs).limbs (shift / 64) (shift % 64) i) zeroLimbs
    let s := s.setLimbs result (copyLimbs integerLimbs shifted (s result).limbs)
    let s := s.setLength result (magnitudeNormalize (s result).limbs integerLimbs)
    .ok (s.setNegative result (s lhs).negative)

/-- A round of the loop of `shr_int`, on the source limb `wordShift + i`. -/
def shiftRightLimb (value : LimbArray) (length wordShift bitShift i : Nat) (shifted : LimbArray) :
    LimbArray :=
  let source := wordShift + i
  let shifted := putLimb shifted i (shifted i ||| value source >>> bitShift)
  if bitShift ≠ 0 ∧ source + 1 < length then
    putLimb shifted i (shifted i ||| value (source + 1) <<< (64 - bitShift))
  else shifted

/-- Whether `shr_int` shifts a bit out. -/
def shiftDiscards (value : LimbArray) (length wordShift bitShift : Nat) : Bool :=
  ((List.range wordShift).any fun i => decide (i < length) && value i != 0) ||
    (bitShift != 0 && decide (wordShift < length) &&
      value wordShift &&& ((1 : BitVec 64) <<< bitShift - 1) != 0)

/-- Whether a bit is dropped, for any shift. -/
def shrDiscards (value : SailInt) (shift : Nat) : Bool :=
  if integerLimbs * 64 ≤ shift then true
  else shiftDiscards value.limbs value.length (shift / 64) (shift % 64)

/-- The result of `shr_int` before it is rounded. -/
def shrTruncated (shift : Nat) (s : Store ι) : Store ι :=
  if integerLimbs * 64 ≤ shift then integerZero s result
  else
    let negative := (s lhs).negative
    let shifted := iterate (shiftRightLimb (s lhs).limbs (s lhs).length (shift / 64) (shift % 64))
      ((s lhs).length - shift / 64) zeroLimbs
    let s := s.setLimbs result (copyLimbs integerLimbs shifted (s result).limbs)
    let s := s.setLength result (magnitudeNormalize (s result).limbs integerLimbs)
    s.setNegative result (negative && (s result).length != 0)

def shrInt (s : Store ι) : Result (Store ι) := do
  let shift ← integerSmallUnsigned (s rhs)
  let negative := (s lhs).negative
  if (s lhs).length = 0 then .ok (integerZero s result)
  else
    let discarded := shrDiscards (s lhs) shift
    let s := shrTruncated result lhs shift s
    if negative ∧ discarded then do
      let (length, limbs) ← addOne (s result).length (s result).limbs
      .ok (((s.setLimbs result limbs).setLength result length).setNegative result true)
    else .ok s

/-- The local objects of `pow_int`. -/
inductive PowObject where
  | accumulated
  | factor
  | temporary
  deriving DecidableEq

/-- `if ((power & 1) != 0)` of a round of `pow_int`. -/
def powAccumulate (power : Nat) (s : Store PowObject) : Result (Store PowObject) :=
  if power % 2 ≠ 0 then do
    let s ← multInt .temporary .accumulated .factor s
    .ok (copySailInt .accumulated .temporary s)
  else .ok s

/-- `if (power != 0)` of a round, after the exponent is halved. -/
def powSquare (power : Nat) (s : Store PowObject) : Result (Store PowObject) :=
  if power ≠ 0 then do
    let s ← multInt .temporary .factor .factor s
    .ok (copySailInt .factor .temporary s)
  else .ok s

/-- `while (power != 0)` of `pow_int`. -/
def powLoop (power : Nat) (s : Store PowObject) : Result (Store PowObject) :=
  if power = 0 then .ok s
  else do
    let s ← powAccumulate power s
    let s ← powSquare (power / 2) s
    powLoop (power / 2) s
termination_by power
decreasing_by omega

/-- The local objects before the loop: one, a copy of the base, and a
temporary that is written before it is read. -/
def powObjects (base : SailInt) : Store PowObject
  | .accumulated => ⟨false, 1, putLimb zeroLimbs 0 1⟩
  | .factor => freshCopy base
  | .temporary => ⟨false, 0, zeroLimbs⟩

def powInt (s : Store ι) : Result (Store ι) := do
  let power ← integerSmallUnsigned (s rhs)
  let objects ← powLoop power (powObjects (s lhs))
  .ok (copySailInt (some result) none (s.withLocal (objects .accumulated))).dropLocal

/-- `pow2`. -/
def pow2 (exponent : ι) (s : Store ι) : Result (Store ι) := do
  let power ← integerSmallUnsigned (s exponent)
  if integerLimbs * 64 ≤ power then integerFailure
  else
    let limb := power / 64
    let s := s.setLimbs result (putLimb (copyLimbs (limb + 1) zeroLimbs (s result).limbs) limb
      ((1 : BitVec 64) <<< (power % 64)))
    .ok ((s.setLength result (limb + 1)).setNegative result false)

end Operations


/-! ## Amounts -/

theorem integerSmallUnsigned_ok {x : SailInt} (h : x.Canonical) (hnonneg : 0 ≤ x.toInt)
    (hlt : x.toInt < 2 ^ 64) : integerSmallUnsigned x = .ok x.toInt.toNat := by
  have hsign : x.negative = false := by
    cases hneg : x.negative with
    | false => rfl
    | true =>
      have hzero : x.magnitude = 0 := by
        rw [SailInt.toInt, hneg, signed_true] at hnonneg
        omega
      exact hneg.symm.trans (h.zero (h.magnitude_eq_zero_iff.mp hzero))
  have hvalue : x.toInt = x.magnitude := by rw [SailInt.toInt, hsign, signed_false]
  have hmagnitude : x.magnitude < (2 ^ 64) ^ 1 := by
    rw [hvalue] at hlt
    rw [Nat.pow_one]
    omega
  have hlength : x.length ≤ 1 := by
    by_contra hgt
    obtain ⟨k, hk⟩ := Nat.exists_eq_add_of_lt (Nat.not_le.mp hgt)
    have hnormal := h.normal
    rw [hk] at hnormal
    have hhigh := hnormal.pow_le
    rw [← hk] at hhigh
    have hpow : (2 ^ 64) ^ 1 ≤ (2 ^ 64) ^ (1 + k) :=
      Nat.pow_le_pow_right (by decide) (Nat.le_add_right 1 k)
    exact absurd hmagnitude (Nat.not_lt.mpr (Nat.le_trans hpow hhigh))
  rw [integerSmallUnsigned, if_neg, hvalue, Int.toNat_natCast]
  · split
    · rename_i hzero
      rw [h.magnitude_eq_zero_iff.mpr hzero]
    · rename_i hne
      have hone : x.length = 1 := by omega
      rw [SailInt.magnitude, hone, magnitude_one]
  · rintro (hneg | hgt)
    · rw [hsign] at hneg
      cases hneg
    · omega

/-! ## Left shifts -/

/-- The invariant of the loop of `shl_int`: the limb in front of the next
round has only the bits that the last one moved across. -/
structure ShiftedLeft (value : LimbArray) (wordShift bitShift i : Nat) (shifted : LimbArray) :
    Prop where
  value : magnitude shifted integerLimbs =
    magnitude value i * ((2 ^ 64) ^ wordShift * 2 ^ bitShift)
  low : (shifted (i + wordShift)).toNat < 2 ^ bitShift
  clear : ∀ j, i + wordShift < j → shifted j = 0

/-- The bits of a limb that stay in it, after a shift. -/
theorem toNat_or_shiftLeft {limb x : BitVec 64} {k : Nat} (hk : k < 64)
    (h : limb.toNat < 2 ^ k) :
    (limb ||| x <<< k).toNat = limb.toNat + x.toNat * 2 ^ k % 2 ^ 64 := by
  obtain ⟨j, hj⟩ := Nat.exists_eq_add_of_lt hk
  have hsplit : 2 ^ 64 = 2 ^ k * (2 * 2 ^ j) := by
    rw [hj, Nat.pow_succ, Nat.pow_add]
    ring
  have heven : x.toNat * 2 ^ k % 2 ^ 64 = 2 ^ k * (x.toNat % (2 * 2 ^ j)) := by
    rw [hsplit, Nat.mul_comm x.toNat, Nat.mul_mod_mul_left]
  rw [BitVec.toNat_or, BitVec.toNat_shiftLeft, Nat.shiftLeft_eq, heven, Nat.or_comm,
    ← Nat.two_pow_add_eq_or_of_lt h, Nat.add_comm]

/-- The bits that cross into the next limb. -/
theorem toNat_crossing {x : BitVec 64} {k : Nat} (hk : k < 64) :
    (x >>> (64 - k)).toNat = x.toNat * 2 ^ k / 2 ^ 64 := by
  have hsplit : 2 ^ 64 = 2 ^ (64 - k) * 2 ^ k := by rw [← Nat.pow_add, Nat.sub_add_cancel hk.le]
  rw [BitVec.toNat_ushiftRight, Nat.shiftRight_eq_div_pow, hsplit,
    Nat.mul_div_mul_right _ _ (Nat.two_pow_pos k)]

/-- A number with a limb that a shift moves out of the store. -/
theorem storeBound_le_shift {value : LimbArray} {i n weight target : Nat} (hi : i < n)
    (htarget : integerLimbs ≤ target)
    (h : (2 ^ 64) ^ target ≤ (value i).toNat * (2 ^ 64) ^ i * weight) :
    storeBound ≤ magnitude value n * weight := by
  have hlimb : (value i).toNat * (2 ^ 64) ^ i ≤ magnitude value n := by
    refine Nat.le_trans ?_ (magnitude_mono hi)
    rw [Nat.succ_eq_add_one, magnitude_succ]
    exact Nat.le_add_left _ _
  have hpow : storeBound ≤ (2 ^ 64) ^ target := Nat.pow_le_pow_right (by decide) htarget
  exact Nat.le_trans hpow (Nat.le_trans h (Nat.mul_le_mul_right _ hlimb))

/-- A round that ends with `high` in front. -/
theorem ShiftedLeft.round {value shifted shifted' : LimbArray} {wordShift bitShift i : Nat}
    (h : ShiftedLeft value wordShift bitShift i shifted)
    (hvalue : magnitude shifted' integerLimbs = magnitude shifted integerLimbs +
      (value i).toNat * 2 ^ bitShift % 2 ^ 64 * (2 ^ 64) ^ (i + wordShift) +
      (value i).toNat * 2 ^ bitShift / 2 ^ 64 * (2 ^ 64) ^ (i + wordShift + 1))
    (hnext : (shifted' (i + wordShift + 1)).toNat = (value i).toNat * 2 ^ bitShift / 2 ^ 64)
    (hclear : ∀ j, i + wordShift + 1 < j → shifted' j = shifted j) :
    ShiftedLeft value wordShift bitShift (i + 1) shifted' := by
  have hindex : i + 1 + wordShift = i + wordShift + 1 := by omega
  refine ⟨?_, ?_, ?_⟩
  · have hsplit := Nat.mod_add_div ((value i).toNat * 2 ^ bitShift) (2 ^ 64)
    have hscale := congrArg (· * (2 ^ 64) ^ (i + wordShift)) hsplit
    simp only [Nat.add_mul] at hscale
    have hpow : (2 ^ 64) ^ (i + wordShift + 1) = 2 ^ 64 * (2 ^ 64) ^ (i + wordShift) :=
      Nat.pow_succ'
    have hweight : (value i).toNat * (2 ^ 64) ^ i * ((2 ^ 64) ^ wordShift * 2 ^ bitShift) =
        (value i).toNat * 2 ^ bitShift * (2 ^ 64) ^ (i + wordShift) := by
      rw [Nat.pow_add]
      ring
    rw [hvalue, h.value, magnitude_succ, Nat.add_mul, hweight, hpow]
    linarith
  · rw [hindex, hnext]
    refine Nat.div_lt_of_lt_mul ?_
    exact Nat.mul_lt_mul_of_pos_right (value i).isLt (Nat.two_pow_pos bitShift)
  · intro j hj
    rw [hclear j (by omega)]
    exact h.clear j (by omega)

theorem shiftLeftLimb_exact {value shifted : LimbArray} {length wordShift bitShift i : Nat}
    (hi : i < length) (hnormal : Normal value length) (hbit : bitShift < 64)
    (h : ShiftedLeft value wordShift bitShift i shifted) :
    Ends (ShiftedLeft value wordShift bitShift (i + 1))
      (fun e => e = .guestAbort ∧
        storeBound ≤ magnitude value length * ((2 ^ 64) ^ wordShift * 2 ^ bitShift))
      (shiftLeftLimb value wordShift bitShift i shifted) := by
  rw [shiftLeftLimb]
  simp only
  split
  · rename_i hout
    refine ⟨rfl, ?_⟩
    obtain ⟨k, rfl⟩ := Nat.exists_eq_add_of_lt hi
    have hweight : (2 ^ 64) ^ (i + k) * (2 ^ 64) ^ wordShift =
        (2 ^ 64) ^ (i + k + wordShift) := (Nat.pow_add _ _ _).symm
    have hbound : storeBound ≤ (2 ^ 64) ^ (i + k + wordShift) :=
      Nat.pow_le_pow_right (by decide) (by omega)
    rw [← Nat.mul_assoc]
    refine Nat.le_trans hbound (Nat.le_trans (Nat.le_of_eq hweight.symm) ?_)
    refine Nat.le_trans (Nat.mul_le_mul_right _ hnormal.pow_le) ?_
    exact Nat.le_mul_of_pos_right _ (Nat.two_pow_pos bitShift)
  · rename_i hin
    generalize htarget : i + wordShift = target at hin
    have hlow := h.low
    rw [htarget] at hlow
    have hzero : shifted (target + 1) = 0 := h.clear _ (by omega)
    have hput := @magnitude_putLimb shifted integerLimbs target
      (shifted target ||| value i <<< bitShift) (Nat.not_le.mp hin)
    rw [toNat_or_shiftLeft hbit hlow, Nat.add_mul] at hput
    have hcross := toNat_crossing (x := value i) hbit
    have hstay : value i >>> (64 - bitShift) = 0 →
        ShiftedLeft value wordShift bitShift (i + 1)
          (putLimb shifted target (shifted target ||| value i <<< bitShift)) := by
      intro hnone
      rw [hnone] at hcross
      have hquotient : (value i).toNat * 2 ^ bitShift / 2 ^ 64 = 0 := hcross.symm
      refine h.round ?_ ?_ ?_
      · rw [htarget, hquotient, Nat.zero_mul, Nat.add_zero]
        omega
      · rw [htarget, putLimb_of_ne (by omega), hzero, hquotient]
        rfl
      · intro j hj
        exact putLimb_of_ne (by omega) _ _
    split
    · split
      · rename_i hbits hhigh
        have hne : (value i).toNat * 2 ^ bitShift / 2 ^ 64 ≠ 0 := by
          rw [← hcross]
          exact fun hnone => hhigh (BitVec.eq_of_toNat_eq hnone)
        split
        · rename_i hout
          refine ⟨rfl, storeBound_le_shift hi hout ?_⟩
          have hge : 2 ^ 64 ≤ (value i).toNat * 2 ^ bitShift := by
            by_contra hlt
            exact hne (Nat.div_eq_of_lt (Nat.not_le.mp hlt))
          have hscale := Nat.mul_le_mul_right ((2 ^ 64) ^ (i + wordShift)) hge
          calc (2 ^ 64) ^ (target + 1)
              = 2 ^ 64 * (2 ^ 64) ^ (i + wordShift) := by rw [htarget, Nat.pow_succ']
            _ ≤ (value i).toNat * 2 ^ bitShift * (2 ^ 64) ^ (i + wordShift) := hscale
            _ = (value i).toNat * (2 ^ 64) ^ i * ((2 ^ 64) ^ wordShift * 2 ^ bitShift) := by
              rw [Nat.pow_add]
              ring
        · rename_i hroom
          have hself : putLimb shifted target (shifted target ||| value i <<< bitShift)
              (target + 1) = 0 := by rw [putLimb_of_ne (by omega), hzero]
          have hsecond := @magnitude_putLimb
            (putLimb shifted target (shifted target ||| value i <<< bitShift)) integerLimbs
            (target + 1) (value i >>> (64 - bitShift)) (Nat.not_le.mp hroom)
          have hnull : (0 : BitVec 64).toNat * (2 ^ 64) ^ (target + 1) = 0 := Nat.zero_mul _
          rw [hself, hcross, hnull] at hsecond
          have hor : 0 ||| value i >>> (64 - bitShift) = value i >>> (64 - bitShift) :=
            BitVec.zero_or
          rw [hself, hor]
          refine h.round ?_ ?_ ?_
          · rw [htarget]
            omega
          · rw [htarget, putLimb_self, hcross]
          · intro j hj
            rw [putLimb_of_ne (by omega), putLimb_of_ne (by omega)]
      · rename_i hhigh
        exact hstay (not_not.mp hhigh)
    · rename_i hnone
      refine hstay (BitVec.eq_of_toNat_eq ?_)
      rw [hcross, not_not.mp hnone, Nat.pow_zero, Nat.mul_one]
      exact Nat.div_eq_of_lt (value i).isLt

section Exactness

variable {ι : Type} [DecidableEq ι] {s : Store ι} {result lhs rhs : ι}

theorem two_pow_shift (shift : Nat) :
    (2 ^ 64) ^ (shift / 64) * 2 ^ (shift % 64) = 2 ^ shift := by
  rw [← Nat.pow_mul, ← Nat.pow_add, Nat.div_add_mod]

theorem storeBound_le_two_pow {shift : Nat} (h : integerLimbs * 64 ≤ shift) :
    storeBound ≤ 2 ^ shift := by
  have hbound : storeBound = 2 ^ (integerLimbs * 64) := by rw [Nat.mul_comm, Nat.pow_mul]; rfl
  rw [hbound]
  exact Nat.pow_le_pow_right (by decide) h

theorem shlInt_exact (hl : (s lhs).Canonical) (hr : (s rhs).Canonical)
    (hnonneg : 0 ≤ (s rhs).toInt) (hlt : (s rhs).toInt < 2 ^ 64) :
    Exact s result True ((s lhs).toInt * 2 ^ (s rhs).toInt.toNat) (shlInt result lhs rhs s) := by
  rw [shlInt, integerSmallUnsigned_ok hr hnonneg hlt, ok_bind]
  generalize (s rhs).toInt.toNat = shift
  have hvalue : (s lhs).toInt * 2 ^ shift =
      signed (s lhs).negative ((s lhs).magnitude * 2 ^ shift) := by
    have hmul := signed_mul (s lhs).negative false (s lhs).magnitude (2 ^ shift)
    rw [Bool.xor_false, signed_false, Int.natCast_pow] at hmul
    exact hmul
  rw [hvalue]
  split
  · rename_i hzero
    refine exact_zero trivial ?_
    rw [hl.magnitude_eq_zero_iff.mpr hzero, Nat.zero_mul, signed_zero]
  · rename_i hne
    have hpos : (s lhs).magnitude ≠ 0 := mt hl.magnitude_eq_zero_iff.mp hne
    split
    · rename_i hfar
      refine Exact.abort fun _ => ?_
      rw [natAbs_signed]
      exact Nat.le_trans (storeBound_le_two_pow hfar)
        (Nat.le_mul_of_pos_left _ (Nat.pos_of_ne_zero hpos))
    · have hloop := Ends.foreach (ShiftedLeft (s lhs).limbs (shift / 64) (shift % 64))
        (fun (i : Fin (s lhs).length) shifted h =>
          shiftLeftLimb_exact i.isLt hl.normal (Nat.mod_lt shift (by decide)) h)
        (⟨by rw [magnitude_zeroLimbs]; exact (Nat.zero_mul _).symm, Nat.two_pow_pos _,
          fun _ _ => rfl⟩ : ShiftedLeft (s lhs).limbs (shift / 64) (shift % 64) 0 zeroLimbs)
      rw [two_pow_shift] at hloop
      cases hrun : foreach (s lhs).length
          (fun i => shiftLeftLimb (s lhs).limbs (shift / 64) (shift % 64) i) zeroLimbs with
      | error e =>
        obtain ⟨rfl, hbig⟩ := hloop.of_error hrun
        refine Exact.abort fun _ => ?_
        rw [natAbs_signed]
        exact hbig
      | ok shifted =>
        have hshifted := (hloop.of_ok hrun).value
        rw [two_pow_shift] at hshifted
        have hm := isMagnitude_normalize (Nat.le_refl integerLimbs)
          ((magnitude_copyLimbs integerLimbs shifted (s result).limbs).trans hshifted)
        have hwritten := @exact_magnitude _ _ s result True _ _ _ _ (s lhs).negative trivial hm rfl
        have hlength : magnitudeNormalize (copyLimbs integerLimbs shifted (s result).limbs)
            integerLimbs ≠ 0 := by
          intro hzero
          have hnone := hm.value.symm.trans (hm.normal.eq_zero_iff.mpr hzero)
          exact Nat.mul_ne_zero hpos (Nat.ne_of_gt (Nat.two_pow_pos shift)) hnone
        rw [if_neg hlength] at hwritten
        simp only [ok_bind, setLength_negative, setLimbs_negative, setLimbs_limbs]
        exact hwritten

/-! ## Right shifts -/

/-- The bits of a limb that a right shift keeps, with those of the limb
above. -/
theorem toNat_shiftRight_or {x y : BitVec 64} {k : Nat} (hk : k < 64) :
    (x >>> k ||| y <<< (64 - k)).toNat * 2 ^ k =
      x.toNat / 2 ^ k * 2 ^ k + y.toNat % 2 ^ k * 2 ^ 64 := by
  have hsplit : 2 ^ 64 = 2 ^ (64 - k) * 2 ^ k := by rw [← Nat.pow_add, Nat.sub_add_cancel hk.le]
  have hhigh : y.toNat * 2 ^ (64 - k) % 2 ^ 64 = 2 ^ (64 - k) * (y.toNat % 2 ^ k) := by
    rw [hsplit, Nat.mul_comm y.toNat, Nat.mul_mod_mul_left]
  have hlow : x.toNat / 2 ^ k < 2 ^ (64 - k) := by
    refine Nat.div_lt_of_lt_mul ?_
    rw [Nat.mul_comm, ← hsplit]
    exact x.isLt
  rw [BitVec.toNat_or, BitVec.toNat_shiftLeft, BitVec.toNat_ushiftRight,
    Nat.shiftRight_eq_div_pow, Nat.shiftLeft_eq, hhigh, Nat.or_comm,
    ← Nat.two_pow_add_eq_or_of_lt hlow, hsplit]
  ring

/-- The limbs from `wordShift` on, padded with zeros. -/
def upperLimbs (value : LimbArray) (length wordShift : Nat) (i : Nat) : Nat :=
  limbOrZero value length (wordShift + i)

/-- The invariant of the loop of `shr_int`. -/
structure ShiftedRight (value : LimbArray) (length wordShift bitShift i : Nat)
    (shifted : LimbArray) : Prop where
  value : magnitude shifted i * 2 ^ bitShift + upperLimbs value length wordShift 0 % 2 ^ bitShift =
    Limbs.value (2 ^ 64) (upperLimbs value length wordShift) i +
      upperLimbs value length wordShift i % 2 ^ bitShift * (2 ^ 64) ^ i
  clear : ∀ j, i ≤ j → shifted j = 0

theorem ShiftedRight.round {value shifted : LimbArray} {length wordShift bitShift i : Nat}
    (hbit : bitShift < 64) (hi : wordShift + i < length)
    (h : ShiftedRight value length wordShift bitShift i shifted) :
    ShiftedRight value length wordShift bitShift (i + 1)
      (shiftRightLimb value length wordShift bitShift i shifted) := by
  obtain ⟨hvalue, hclear⟩ := h
  have hhere : upperLimbs value length wordShift i = (value (wordShift + i)).toNat := if_pos hi
  -- The limb that the round writes.
  have hlimb : ∃ limb, shiftRightLimb value length wordShift bitShift i shifted =
      putLimb shifted i limb ∧ limb.toNat * 2 ^ bitShift =
        upperLimbs value length wordShift i / 2 ^ bitShift * 2 ^ bitShift +
          upperLimbs value length wordShift (i + 1) % 2 ^ bitShift * 2 ^ 64 := by
    have hzero : shifted i ||| value (wordShift + i) >>> bitShift =
        value (wordShift + i) >>> bitShift := by
      rw [hclear i (Nat.le_refl i)]
      exact BitVec.zero_or
    rw [shiftRightLimb, hzero, hhere]
    split
    · rename_i hcross
      have hnext : upperLimbs value length wordShift (i + 1) =
          (value (wordShift + i + 1)).toNat := if_pos hcross.2
      refine ⟨value (wordShift + i) >>> bitShift ||| value (wordShift + i + 1) <<< (64 - bitShift),
        ?_, ?_⟩
      · rw [putLimb_self]
        exact Function.update_idem _ _ _
      · rw [hnext]
        exact toNat_shiftRight_or hbit
    · rename_i hlast
      refine ⟨_, rfl, ?_⟩
      have hnone : upperLimbs value length wordShift (i + 1) % 2 ^ bitShift = 0 := by
        rcases not_and_or.mp hlast with hb | hend
        · rw [not_not.mp hb, Nat.pow_zero, Nat.mod_one]
        · have hpad : upperLimbs value length wordShift (i + 1) = 0 := if_neg hend
          rw [hpad, Nat.zero_mod]
      rw [hnone, Nat.zero_mul, Nat.add_zero, BitVec.toNat_ushiftRight,
        Nat.shiftRight_eq_div_pow]
  obtain ⟨limb, hround, hsplit⟩ := hlimb
  rw [hround]
  refine ⟨?_, ?_⟩
  · have hscale := congrArg (· * (2 ^ 64) ^ i) hsplit
    have hmod := congrArg (· * (2 ^ 64) ^ i)
      (Nat.div_add_mod (upperLimbs value length wordShift i) (2 ^ bitShift))
    have hpow : (2 ^ 64) ^ (i + 1) = 2 ^ 64 * (2 ^ 64) ^ i := Nat.pow_succ'
    simp only [Nat.add_mul] at hscale hmod
    rw [magnitude_put_succ, value_succ, hpow, Nat.add_mul]
    linarith
  · intro j hj
    rw [putLimb_of_ne (by omega)]
    exact hclear j (by omega)

theorem toNat_and_mask (x : BitVec 64) {k : Nat} (hk : k < 64) :
    (x &&& ((1 : BitVec 64) <<< k - 1)).toNat = x.toNat % 2 ^ k := by
  have hlt : 2 ^ k < 2 ^ 64 := Nat.pow_lt_pow_right (by decide) hk
  have hpos := Nat.two_pow_pos k
  have hmask : ((1 : BitVec 64) <<< k - 1).toNat = 2 ^ k - 1 := by
    rw [BitVec.toNat_sub, toNat_one_shiftLeft hk]
    show (2 ^ 64 - 1 + 2 ^ k) % 2 ^ 64 = 2 ^ k - 1
    omega
  rw [BitVec.toNat_and, hmask, Nat.and_two_pow_sub_one_eq_mod]

theorem ne_zero_iff_toNat {x : BitVec 64} : x ≠ 0 ↔ x.toNat ≠ 0 :=
  not_congr (BitVec.toNat_inj (y := 0)).symm

/-- The bits that `shr_int` looks for are those below the shift. -/
theorem shiftDiscards_iff (value : LimbArray) (length wordShift : Nat) {bitShift : Nat}
    (hbit : bitShift < 64) :
    shiftDiscards value length wordShift bitShift = true ↔
      Limbs.value (2 ^ 64) (limbOrZero value length) wordShift ≠ 0 ∨
        upperLimbs value length wordShift 0 % 2 ^ bitShift ≠ 0 := by
  rw [shiftDiscards, Bool.or_eq_true, value_ne_zero_iff (by decide)]
  refine or_congr ?_ ?_
  · rw [List.any_eq_true]
    constructor
    · rintro ⟨i, hi, hlimb⟩
      obtain ⟨hin, hne⟩ := Bool.and_eq_true_iff.mp hlimb
      refine ⟨i, List.mem_range.mp hi, ?_⟩
      rw [limbOrZero, if_pos (of_decide_eq_true hin)]
      exact ne_zero_iff_toNat.mp (bne_iff_ne.mp hne)
    · rintro ⟨i, hi, hne⟩
      have hin : i < length := by
        by_contra hout
        exact hne (if_neg hout)
      rw [limbOrZero, if_pos hin] at hne
      refine ⟨i, List.mem_range.mpr hi, Bool.and_eq_true_iff.mpr ⟨decide_eq_true hin, ?_⟩⟩
      exact bne_iff_ne.mpr (ne_zero_iff_toNat.mpr hne)
  · rw [Bool.and_eq_true, Bool.and_eq_true, bne_iff_ne, bne_iff_ne, decide_eq_true_iff,
      ne_zero_iff_toNat, toNat_and_mask _ hbit]
    constructor
    · rintro ⟨⟨-, hin⟩, hne⟩
      have hlimb : upperLimbs value length wordShift 0 = (value wordShift).toNat := if_pos hin
      rw [hlimb]
      exact hne
    · intro hne
      have hin : wordShift < length := by
        by_contra hout
        have hlimb : upperLimbs value length wordShift 0 = 0 := if_neg hout
        rw [hlimb, Nat.zero_mod] at hne
        exact hne rfl
      have hlimb : upperLimbs value length wordShift 0 = (value wordShift).toNat := if_pos hin
      rw [hlimb] at hne
      refine ⟨⟨?_, hin⟩, hne⟩
      rintro rfl
      rw [Nat.pow_zero, Nat.mod_one] at hne
      exact hne rfl

/-- What the loop leaves: the quotient, and whether a bit was dropped. -/
theorem shiftRight_exact (value : LimbArray) {length shift : Nat}
    (hlength : length ≤ integerLimbs) :
    magnitude (iterate (shiftRightLimb value length (shift / 64) (shift % 64))
        (length - shift / 64) zeroLimbs) integerLimbs = magnitude value length / 2 ^ shift ∧
      (shiftDiscards value length (shift / 64) (shift % 64) = true ↔
        magnitude value length % 2 ^ shift ≠ 0) := by
  have hbit : shift % 64 < 64 := Nat.mod_lt shift (by decide)
  rw [← two_pow_shift shift]
  generalize shift / 64 = wordShift
  generalize shift % 64 = bitShift at hbit ⊢
  have hloop : ShiftedRight value length wordShift bitShift (length - wordShift)
      (iterate (shiftRightLimb value length wordShift bitShift) (length - wordShift)
        zeroLimbs) := by
    refine iterate_inv (ShiftedRight value length wordShift bitShift)
      (fun i shifted hi h => h.round hbit (by omega)) ⟨?_, fun _ _ => rfl⟩
    rw [Nat.pow_zero, Nat.mul_one]
    show 0 * 2 ^ bitShift + _ = 0 + _
    rw [Nat.zero_mul]
  generalize iterate (shiftRightLimb value length wordShift bitShift) (length - wordShift)
    zeroLimbs = shifted at hloop
  obtain ⟨hvalue, hclear⟩ := hloop
  have hend : upperLimbs value length wordShift (length - wordShift) = 0 :=
    if_neg (by omega)
  rw [hend, Nat.zero_mod, Nat.zero_mul, Nat.add_zero] at hvalue
  have hmod := Nat.mod_lt (upperLimbs value length wordShift 0) (Nat.two_pow_pos bitShift)
  obtain ⟨hquotient, hremainder⟩ := (Nat.div_mod_unique (Nat.two_pow_pos bitShift)).mpr
    ⟨(Nat.add_comm _ _).trans ((congrArg (· + _) (Nat.mul_comm _ _)).trans hvalue), hmod⟩
  have hlow : Limbs.value (2 ^ 64) (limbOrZero value length) wordShift < (2 ^ 64) ^ wordShift :=
    value_lt fun i _ => limbOrZero_lt value length i
  have hsplit : magnitude value length =
      Limbs.value (2 ^ 64) (limbOrZero value length) wordShift +
        (2 ^ 64) ^ wordShift *
          Limbs.value (2 ^ 64) (upperLimbs value length wordShift) (length - wordShift) := by
    rw [← @value_limbOrZero value length (wordShift + (length - wordShift)) (by omega), value_add]
    rfl
  have hpos : 0 < (2 ^ 64) ^ wordShift := Nat.pow_pos (by decide)
  have hdiv : magnitude value length / (2 ^ 64) ^ wordShift =
      Limbs.value (2 ^ 64) (upperLimbs value length wordShift) (length - wordShift) := by
    rw [hsplit, Nat.add_mul_div_left _ _ hpos, Nat.div_eq_of_lt hlow, Nat.zero_add]
  have hrest : magnitude value length % (2 ^ 64) ^ wordShift =
      Limbs.value (2 ^ 64) (limbOrZero value length) wordShift := by
    rw [hsplit, Nat.add_mul_mod_self_left, Nat.mod_eq_of_lt hlow]
  constructor
  · rw [magnitude_of_zeros (show length - wordShift ≤ integerLimbs by omega)
      fun i hi _ => hclear i hi, ← Nat.div_div_eq_div_mul, hdiv, hquotient]
  · have hsum : ∀ x y, x + (2 ^ 64) ^ wordShift * y ≠ 0 ↔ x ≠ 0 ∨ y ≠ 0 := by
      intro x y
      rw [← not_and_or]
      refine not_congr (Nat.add_eq_zero_iff.trans (and_congr Iff.rfl ?_))
      exact Nat.mul_eq_zero.trans (or_iff_right (Nat.ne_of_gt hpos))
    rw [shiftDiscards_iff value length wordShift hbit, Nat.mod_mul, hdiv, hrest, hremainder]
    exact (hsum _ _).symm

theorem shrDiscards_iff {x : SailInt} (h : x.Canonical) (hne : x.magnitude ≠ 0) (shift : Nat) :
    shrDiscards x shift = true ↔ x.magnitude % 2 ^ shift ≠ 0 := by
  rw [shrDiscards]
  split
  · rename_i hfar
    rw [Nat.mod_eq_of_lt (Nat.lt_of_lt_of_le h.magnitude_lt (storeBound_le_two_pow hfar))]
    exact (iff_true_right hne).mpr rfl
  · exact (shiftRight_exact x.limbs h.length_le).2

/-- Before it is rounded, the result is the quotient of the magnitude. -/
theorem shrTruncated_eq (hl : (s lhs).Canonical) (shift : Nat) :
    ∃ length limbs, IsMagnitude ((s lhs).magnitude / 2 ^ shift) (length, limbs) ∧
      shrTruncated result lhs shift s =
        ((s.setLimbs result limbs).setLength result length).setNegative result
          (if length = 0 then false else (s lhs).negative) := by
  rw [shrTruncated]
  split
  · rename_i hfar
    have hlt := Nat.lt_of_lt_of_le hl.magnitude_lt (storeBound_le_two_pow hfar)
    refine ⟨0, (s result).limbs, ⟨Nat.zero_le _, fun _ h => absurd h (Nat.succ_ne_zero _).symm,
      (Nat.div_eq_of_lt hlt).symm⟩, ?_⟩
    rw [integerZero_eq, setLimbs_setLength_setNegative, if_pos rfl]
  · have hshifted := (@shiftRight_exact (s lhs).limbs _ shift hl.length_le).1
    refine ⟨_, _, isMagnitude_normalize (Nat.le_refl integerLimbs)
      ((magnitude_copyLimbs integerLimbs _ (s result).limbs).trans hshifted), ?_⟩
    simp only [setLength_length, setLimbs_limbs]
    congr 1
    split
    · rename_i hzero
      rw [hzero]
      exact Bool.and_false _
    · rename_i hne
      rw [bne_iff_ne.mpr hne, Bool.and_true]

theorem shrInt_exact (hl : (s lhs).Canonical) (hr : (s rhs).Canonical)
    (hnonneg : 0 ≤ (s rhs).toInt) (hlt : (s rhs).toInt < 2 ^ 64) :
    Exact s result True ((s lhs).toInt.fdiv (2 ^ (s rhs).toInt.toNat))
      (shrInt result lhs rhs s) := by
  rw [shrInt, integerSmallUnsigned_ok hr hnonneg hlt, ok_bind]
  generalize (s rhs).toInt.toNat = shift
  have hne : 2 ^ shift ≠ 0 := Nat.ne_of_gt (Nat.two_pow_pos shift)
  have hvalue : signed (s lhs).negative
      (roundedQuotient (s lhs).negative (s lhs).magnitude (2 ^ shift)) =
        (s lhs).toInt.fdiv (2 ^ shift) := by
    have hfdiv := (@fdiv_fmod_signed (s lhs).magnitude _ (s lhs).negative false hne).1
    rw [Bool.xor_false, signed_false, Int.natCast_pow] at hfdiv
    exact hfdiv.symm
  rw [← hvalue]
  split
  · rename_i hzero
    refine exact_zero trivial ?_
    have hnull : (s lhs).magnitude = 0 := hl.magnitude_eq_zero_iff.mpr hzero
    rw [hnull, roundedQuotient, Nat.zero_mod, if_neg (fun h => h.2 rfl), Nat.zero_div, signed_zero]
  · rename_i hlength
    have hpos := mt hl.magnitude_eq_zero_iff.mp hlength
    obtain ⟨length, limbs, hm, htruncated⟩ := @shrTruncated_eq _ _ s result lhs hl shift
    simp only [htruncated, setLimbs_setLength_setNegative, Function.update_self,
      shrDiscards_iff hl hpos, roundedQuotient]
    split
    · rename_i hround
      have hadd := addOne_exact hm
      cases hrun : addOne length limbs with
      | error e =>
        obtain ⟨rfl, hbig⟩ := hadd.of_error hrun
        refine Exact.abort fun _ => ?_
        rw [natAbs_signed]
        exact hbig
      | ok r =>
        have hsum := hadd.of_ok hrun
        have hlong : r.1 ≠ 0 := by
          intro hzero
          have hnone := hsum.value.symm.trans (hsum.normal.eq_zero_iff.mpr hzero)
          exact absurd hnone (Nat.succ_ne_zero _)
        obtain ⟨hcanonical, hinteger⟩ := @canonical_signed r.1 r.2 _ hsum true
          fun hzero => absurd hzero hlong
        rw [ok_bind, Function.update_idem, hround.1]
        exact exact_update trivial hcanonical hinteger
    · obtain ⟨hcanonical, hinteger⟩ := canonical_ite hm (s lhs).negative
      exact exact_update trivial hcanonical hinteger

/-! ## Powers -/

theorem copySailInt_eq (value : ι) :
    copySailInt result value s = Function.update s result
      ⟨(s value).negative, (s value).length,
        copyLimbs (s value).length (s value).limbs (s result).limbs⟩ := by
  funext k
  by_cases hk : k = result
  · cases hk
    by_cases hv : value = result
    · cases hv
      simp only [copySailInt, Store.setLimbs, Store.setLength, Store.setNegative,
        Function.update_self]
    · simp only [copySailInt, Store.setLimbs, Store.setLength, Store.setNegative,
        Function.update_self, Function.update_of_ne hv]
  · simp only [copySailInt, Store.setLimbs, Store.setLength, Store.setNegative,
      Function.update_of_ne hk]

/-- A copy is exact. -/
theorem copySailInt_exact {value : ι} (h : (s value).Canonical) :
    Exact s result True (s value).toInt (.ok (copySailInt result value s)) := by
  obtain ⟨hcanonical, hvalue⟩ := canonical_signed
    (h.isMagnitude.copy (Nat.le_refl _) (s result).limbs) h.zero
  rw [copySailInt_eq]
  exact exact_update trivial hcanonical hvalue

/-- `mult_int` into the temporary, and the copy of it over `target`. -/
theorem multiplyInto_exact {s : Store PowObject} {lhs rhs : PowObject} (target : PowObject)
    (hl : (s lhs).Canonical) (hr : (s rhs).Canonical) :
    Ends (fun s' => (s' target).Canonical ∧ (s' target).toInt = (s lhs).toInt * (s rhs).toInt ∧
        ∀ k, k ≠ target → k ≠ .temporary → s' k = s k)
      (fun e => e = .guestAbort ∧ storeBound ≤ ((s lhs).toInt * (s rhs).toInt).natAbs)
      (multInt .temporary lhs rhs s >>= fun s => .ok (copySailInt target .temporary s)) := by
  have hmul := @multInt_exact _ _ s .temporary lhs rhs hl hr
  cases hrun : multInt .temporary lhs rhs s with
  | error e =>
    obtain ⟨rfl, hbig⟩ := hmul.ends.of_error hrun
    exact ⟨rfl, hbig trivial⟩
  | ok s' =>
    obtain ⟨-, ⟨hcanonical, hvalue⟩, hframe⟩ := hmul.ends.of_ok hrun
    obtain ⟨-, ⟨hcopy, hsame⟩, hothers⟩ := (@copySailInt_exact _ _ s' target _ hcanonical).ends
    refine ⟨hcopy, hsame.trans hvalue, ?_⟩
    intro k hk htemporary
    exact (hothers k hk).trans (hframe k htemporary)

theorem powAccumulate_exact (power : Nat) {s : Store PowObject} (ha : (s .accumulated).Canonical)
    (hf : (s .factor).Canonical) :
    Ends (fun s' => (s' .accumulated).Canonical ∧ (s' .accumulated).toInt =
          (s .accumulated).toInt * (s .factor).toInt ^ (power % 2) ∧ s' .factor = s .factor)
      (fun e => e = .guestAbort ∧ storeBound ≤ ((s .accumulated).toInt * (s .factor).toInt).natAbs ∧
        power % 2 = 1) (powAccumulate power s) := by
  rw [powAccumulate]
  rcases Nat.mod_two_eq_zero_or_one power with heven | hodd
  · rw [heven, if_neg (not_not.mpr rfl), pow_zero, mul_one]
    exact ⟨ha, rfl, rfl⟩
  · rw [hodd, if_pos Nat.one_ne_zero, pow_one]
    have hmul := multiplyInto_exact .accumulated ha hf
    cases hrun : multInt .temporary .accumulated .factor s >>=
        fun s => .ok (copySailInt .accumulated .temporary s) with
    | error e =>
      obtain ⟨rfl, hbig⟩ := hmul.of_error hrun
      exact ⟨rfl, hbig, rfl⟩
    | ok s' =>
      obtain ⟨hcanonical, hvalue, hothers⟩ := hmul.of_ok hrun
      exact ⟨hcanonical, hvalue, hothers .factor (by decide) (by decide)⟩

theorem powSquare_exact (power : Nat) {s : Store PowObject} (hf : (s .factor).Canonical) :
    Ends (fun s' => (s' .factor).Canonical ∧
          (s' .factor).toInt ^ power = ((s .factor).toInt ^ 2) ^ power ∧
          ((s' .factor).toInt ≠ 0 → (s .factor).toInt ≠ 0) ∧
          s' .accumulated = s .accumulated)
      (fun e => e = .guestAbort ∧ storeBound ≤ ((s .factor).toInt ^ 2).natAbs ∧ power ≠ 0)
      (powSquare power s) := by
  rw [powSquare]
  split
  · rename_i hleft
    have hmul := multiplyInto_exact .factor hf hf
    rw [← sq] at hmul
    cases hrun : multInt .temporary .factor .factor s >>=
        fun s => .ok (copySailInt .factor .temporary s) with
    | error e =>
      obtain ⟨rfl, hbig⟩ := hmul.of_error hrun
      exact ⟨rfl, hbig, hleft⟩
    | ok s' =>
      obtain ⟨hcanonical, hvalue, hothers⟩ := hmul.of_ok hrun
      refine ⟨hcanonical, by rw [hvalue], ?_, hothers .accumulated (by decide) (by decide)⟩
      intro hne hzero
      rw [hvalue, hzero] at hne
      exact hne rfl
  · rename_i hdone
    rw [not_not.mp hdone]
    exact ⟨hf, (pow_zero _).trans (pow_zero _).symm, id, rfl⟩

/-- A factor that is not zero does not shrink a product. -/
theorem natAbs_le_mul {a b : Int} (hb : b ≠ 0) : a.natAbs ≤ (a * b).natAbs := by
  rw [Int.natAbs_mul]
  exact Nat.le_mul_of_pos_right _ (Int.natAbs_pos.mpr hb)

/-- What does not fit is not zero. -/
theorem ne_zero_of_storeBound_le {v : Int} (h : storeBound ≤ v.natAbs) : v ≠ 0 := by
  rintro rfl
  exact absurd h (Nat.not_le.mpr (Nat.pow_pos (by decide)))

/-- The loop of `pow_int` multiplies the power of the factor into what is
accumulated. -/
theorem powLoop_exact (power : Nat) {s : Store PowObject} (ha : (s .accumulated).Canonical)
    (hf : (s .factor).Canonical)
    (hne : (s .factor).toInt ≠ 0 → (s .accumulated).toInt ≠ 0) :
    Ends (fun s' => (s' .accumulated).Canonical ∧
        (s' .accumulated).toInt = (s .accumulated).toInt * (s .factor).toInt ^ power)
      (fun e => e = .guestAbort ∧
        storeBound ≤ ((s .accumulated).toInt * (s .factor).toInt ^ power).natAbs)
      (powLoop power s) := by
  induction power using Nat.strongRecOn generalizing s with
  | ind power ih =>
    rw [powLoop]
    split
    · rename_i hzero
      rw [hzero, pow_zero, mul_one]
      exact ⟨ha, rfl⟩
    · rename_i hpower
      -- The bits of the exponent: the lowest, and the others for the square.
      have hsplit : (s .accumulated).toInt * (s .factor).toInt ^ power =
          (s .accumulated).toInt * (s .factor).toInt ^ (power % 2) *
            ((s .factor).toInt ^ 2) ^ (power / 2) := by
        rw [mul_assoc, ← pow_mul, ← pow_add, Nat.mod_add_div]
      have hfirst := powAccumulate_exact power ha hf
      rw [hsplit]
      cases hrun : powAccumulate power s with
      | error e =>
        obtain ⟨rfl, hbig, hodd⟩ := hfirst.of_error hrun
        have hfactor := right_ne_zero_of_mul (ne_zero_of_storeBound_le hbig)
        rw [hodd, pow_one]
        exact ⟨rfl, Nat.le_trans hbig (natAbs_le_mul (pow_ne_zero _ (pow_ne_zero 2 hfactor)))⟩
      | ok s₁ =>
        obtain ⟨ha₁, hvalue₁, hsame₁⟩ := hfirst.of_ok hrun
        have hf₁ : (s₁ .factor).Canonical := hsame₁ ▸ hf
        have hne₁ : (s .factor).toInt ≠ 0 → (s₁ .accumulated).toInt ≠ 0 := by
          intro h
          rw [hvalue₁]
          exact mul_ne_zero (hne h) (pow_ne_zero _ h)
        have hsecond := powSquare_exact (power / 2) hf₁
        rw [ok_bind, ← hvalue₁]
        rw [hsame₁] at hsecond
        cases hrun₂ : powSquare (power / 2) s₁ with
        | error e =>
          obtain ⟨rfl, hbig, hleft⟩ := hsecond.of_error hrun₂
          have hfactor : (s .factor).toInt ≠ 0 := by
            intro hzero
            exact ne_zero_of_storeBound_le hbig (by rw [hzero]; rfl)
          obtain ⟨k, hk⟩ := Nat.exists_eq_succ_of_ne_zero hleft
          have hrest := mul_ne_zero (hne₁ hfactor) (pow_ne_zero k (pow_ne_zero 2 hfactor))
          rw [hk, pow_succ', mul_left_comm]
          exact ⟨rfl, Nat.le_trans hbig (natAbs_le_mul hrest)⟩
        | ok s₂ =>
          obtain ⟨hf₂, hvalue₂, hback, hsame₂⟩ := hsecond.of_ok hrun₂
          have hless : power / 2 < power := Nat.div_lt_self (Nat.pos_of_ne_zero hpower) (by decide)
          rw [ok_bind, ← hvalue₂, ← hsame₂]
          refine ih (power / 2) hless (hsame₂ ▸ ha₁) hf₂ ?_
          intro h
          rw [hsame₂]
          exact hne₁ (hback h)

theorem powInt_exact (hl : (s lhs).Canonical) (hr : (s rhs).Canonical)
    (hnonneg : 0 ≤ (s rhs).toInt) (hlt : (s rhs).toInt < 2 ^ 64) :
    Exact s result True ((s lhs).toInt ^ (s rhs).toInt.toNat) (powInt result lhs rhs s) := by
  rw [powInt, integerSmallUnsigned_ok hr hnonneg hlt, ok_bind]
  generalize (s rhs).toInt.toNat = power
  obtain ⟨hbase, hvalue⟩ := freshCopy_canonical hl
  have hunit := isMagnitude_limb (show (1 : BitVec 64) ≠ 0 by decide)
  obtain ⟨hone, hinteger⟩ := @canonical_signed _ _ _ hunit false fun _ => rfl
  have hfirst : (powObjects (s lhs) .accumulated).toInt = 1 := hinteger
  have hfactor : (powObjects (s lhs) .factor).toInt = (s lhs).toInt := hvalue
  have hloop := @powLoop_exact power (powObjects (s lhs)) hone hbase
    (fun _ => hfirst ▸ Int.one_ne_zero)
  simp only [hfirst, hfactor, one_mul] at hloop
  cases hrun : powLoop power (powObjects (s lhs)) with
  | error e =>
    obtain ⟨rfl, hbig⟩ := hloop.of_error hrun
    exact Exact.abort fun _ => hbig
  | ok objects =>
    obtain ⟨hcanonical, hpower⟩ := hloop.of_ok hrun
    have hcopy := @copySailInt_exact _ _ (s.withLocal (objects .accumulated)) (some result) none
      hcanonical
    rw [← hpower]
    exact exact_dropLocal hcopy

/-- The limbs that `pow2` writes. -/
theorem pow2_isMagnitude (target : LimbArray) {power : Nat} (h : power < integerLimbs * 64) :
    IsMagnitude (2 ^ power) (power / 64 + 1,
      putLimb (copyLimbs (power / 64 + 1) zeroLimbs target) (power / 64)
        ((1 : BitVec 64) <<< (power % 64))) := by
  have hlimb := toNat_one_shiftLeft (Nat.mod_lt power (show 0 < 64 by decide))
  have hindex : power / 64 < integerLimbs := Nat.div_lt_of_lt_mul (by omega)
  have hbelow : magnitude (copyLimbs (power / 64 + 1) zeroLimbs target) (power / 64) = 0 := by
    refine (magnitude_congr fun i hi => ?_).trans (@magnitude_zeroLimbs (power / 64))
    exact if_pos (Nat.lt_succ_of_lt hi)
  refine ⟨hindex, ?_, ?_⟩
  · intro i hi
    have hsame : i = power / 64 := (Nat.succ.inj hi).symm
    show putLimb _ (power / 64) _ i ≠ 0
    rw [hsame, putLimb_self, ne_zero_iff_toNat, hlimb]
    exact Nat.ne_of_gt (Nat.two_pow_pos _)
  · show magnitude (putLimb _ (power / 64) _) (power / 64 + 1) = 2 ^ power
    rw [magnitude_put_succ, hbelow, hlimb, Nat.zero_add, Nat.mul_comm, two_pow_shift]

theorem pow2_exact {exponent : ι} (h : (s exponent).Canonical) (hnonneg : 0 ≤ (s exponent).toInt)
    (hlt : (s exponent).toInt < 2 ^ 64) :
    Exact s result True (2 ^ (s exponent).toInt.toNat) (pow2 result exponent s) := by
  rw [pow2, integerSmallUnsigned_ok h hnonneg hlt, ok_bind]
  generalize (s exponent).toInt.toNat = power
  have hvalue : (2 : Int) ^ power = signed false (2 ^ power) := by
    rw [signed_false, Int.natCast_pow]
    rfl
  rw [hvalue]
  split
  · rename_i hfar
    refine Exact.abort fun _ => ?_
    rw [natAbs_signed]
    exact storeBound_le_two_pow hfar
  · rename_i hnear
    have hm := pow2_isMagnitude (s result).limbs (Nat.not_le.mp hnear)
    have hwritten := @exact_magnitude _ _ s result True _ _ _ _ false trivial hm rfl
    rw [ite_self] at hwritten
    exact hwritten

end Exactness

end EvmSail.Runtime
