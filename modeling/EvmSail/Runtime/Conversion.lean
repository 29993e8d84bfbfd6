/-
# `EvmSail.Runtime.Conversion` — comparison, conversions, exactness

The rest of the integer runtime: comparison by sign and magnitude, and the
conversions between integers and arrays of limbs that the caller owns.  An
array of `count` limbs holds a number below `2 ^ (64 * count)`, or, read as
two's complement, an integer with a sign.

The conversion into an array takes the integer modulo what the array can
hold.  The conversions from an array refuse an array that is longer than
the store of an integer, whatever it holds.

`sail256_exact` at the end is what a reader of the Sail source relies on.
-/
import EvmSail.Runtime.Shift

namespace EvmSail.Runtime

open Fallible Limbs SignMagnitude

/-! ## Comparison -/

def integerCompare (lhs rhs : SailInt) : Int :=
  if lhs.negative ≠ rhs.negative then (if lhs.negative then -1 else 1)
  else
    let comparison := magnitudeCompare lhs.limbs lhs.length rhs.limbs rhs.length
    if lhs.negative then -comparison else comparison

def eqInt (lhs rhs : SailInt) : Bool := integerCompare lhs rhs == 0

def lt (lhs rhs : SailInt) : Bool := decide (integerCompare lhs rhs < 0)

def gt (lhs rhs : SailInt) : Bool := decide (0 < integerCompare lhs rhs)

def lteq (lhs rhs : SailInt) : Bool := decide (integerCompare lhs rhs ≤ 0)

def gteq (lhs rhs : SailInt) : Bool := decide (0 ≤ integerCompare lhs rhs)

theorem orderOf_eq_sign (x y : Nat) : orderOf x y = ((x : Int) - y).sign := by
  rcases Nat.lt_trichotomy x y with hlt | heq | hgt
  · rw [orderOf_lt hlt, Int.sign_eq_neg_one_of_neg (by omega)]
  · rw [orderOf_eq heq, heq, Int.sub_self, Int.sign_zero]
  · rw [orderOf_gt hgt, Int.sign_eq_one_of_pos (by omega)]

/-- A canonical object with a sign is below zero. -/
theorem SailInt.Canonical.toInt_neg {x : SailInt} (h : x.Canonical) (hneg : x.negative = true) :
    x.toInt < 0 := by
  have hpos : x.magnitude ≠ 0 := by
    intro hzero
    rw [h.zero (h.magnitude_eq_zero_iff.mp hzero)] at hneg
    cases hneg
  rw [SailInt.toInt, hneg, signed_true]
  omega

theorem SailInt.toInt_nonneg {x : SailInt} (hneg : x.negative = false) : 0 ≤ x.toInt := by
  rw [SailInt.toInt, hneg, signed_false]
  exact Int.natCast_nonneg _

/-- Comparison of canonical objects is comparison of their integers. -/
theorem integerCompare_eq {x y : SailInt} (hx : x.Canonical) (hy : y.Canonical) :
    integerCompare x y = (x.toInt - y.toInt).sign := by
  rw [integerCompare]
  split
  · rename_i hsigns
    cases hneg : x.negative with
    | true =>
      have hother : y.negative = false := by
        rw [hneg] at hsigns
        exact Bool.eq_false_of_not_eq_true (Ne.symm hsigns)
      have hlow := hx.toInt_neg hneg
      have hhigh := SailInt.toInt_nonneg hother
      rw [if_pos rfl, Int.sign_eq_neg_one_of_neg (by omega)]
    | false =>
      have hother : y.negative = true := by
        rw [hneg] at hsigns
        exact Bool.eq_true_of_not_eq_false (Ne.symm hsigns)
      have hlow := hy.toInt_neg hother
      have hhigh := SailInt.toInt_nonneg hneg
      rw [if_neg Bool.false_ne_true, Int.sign_eq_one_of_pos (by omega)]
  · rename_i hsigns
    have hsame : y.negative = x.negative := (not_not.mp hsigns).symm
    simp only [magnitudeCompare_canonical hx hy, orderOf_eq_sign, SailInt.toInt, hsame]
    cases x.negative
    · rw [if_neg Bool.false_ne_true, signed_false, signed_false]
    · rw [if_pos rfl, signed_true, signed_true, ← Int.sign_neg]
      congr 1
      ring

/-! ## Into an array -/

/-- The limb of the first loop of `sail_int_to_u64_array`. -/
def toU64Limb (value : SailInt) (i : Nat) : BitVec 64 :=
  let limb := if i < value.length then value.limbs i else 0
  if value.negative then ~~~limb else limb

/-- A round of a loop that adds a carry to a limb. -/
def carryLimb (before : BitVec 64) (i : Nat) (s : LimbArray × BitVec 64) :
    LimbArray × BitVec 64 :=
  (putLimb s.1 i (before + s.2), if before + s.2 < before then 1 else 0)

/-- `sail_int_to_u64_array`.  The second loop stops at the first round
without a carry. -/
def sailIntToU64Array (count : Nat) (value : SailInt) (limbs : LimbArray) : LimbArray :=
  let limbs := iterate (fun i limbs => putLimb limbs i (toU64Limb value i)) count limbs
  if value.negative then
    (iterate (fun i s => if s.2 ≠ 0 then carryLimb (s.1 i) i s else s) count (limbs, 1)).1
  else limbs

/-- The invariant of a loop that adds one to an array. -/
structure Incrementing (before target : LimbArray) (i : Nat) (s : LimbArray × BitVec 64) :
    Prop where
  ahead : ∀ j, i ≤ j → s.1 j = target j
  carry_le : s.2.toNat ≤ 1
  value : magnitude s.1 i + s.2.toNat * (2 ^ 64) ^ i = magnitude before i + 1

theorem incrementing_start (before target : LimbArray) : Incrementing before target 0 (target, 1) :=
  ⟨fun _ _ => rfl, Nat.le_refl 1, rfl⟩

theorem Incrementing.round {before target : LimbArray} {i : Nat} {s : LimbArray × BitVec 64}
    (h : Incrementing before target i s) :
    Incrementing before target (i + 1) (carryLimb (before i) i s) := by
  obtain ⟨limbs, carry⟩ := s
  obtain ⟨hahead, hcarry, hvalue⟩ := h
  simp only at hahead hcarry hvalue
  have hlimb := (before i).isLt
  have hsum : (before i + carry).toNat = ((before i).toNat + carry.toNat) % 2 ^ 64 :=
    BitVec.toNat_add _ _
  have hwrite : before i + carry = BitVec.ofNat 64 ((before i).toNat + carry.toNat) :=
    BitVec.eq_of_toNat_eq (hsum.trans (BitVec.toNat_ofNat _ _).symm)
  have hnext : (if before i + carry < before i then (1 : BitVec 64) else 0).toNat =
      ((before i).toNat + carry.toNat) / 2 ^ 64 := by
    split
    · rename_i hlt
      rw [BitVec.lt_def, hsum] at hlt
      show 1 = _
      omega
    · rename_i hge
      rw [BitVec.lt_def, hsum] at hge
      show 0 = _
      omega
  refine ⟨?_, ?_, ?_⟩
  · intro j hj
    simp only [carryLimb]
    rw [putLimb_of_ne (by omega)]
    exact hahead j (by omega)
  · simp only [carryLimb, hnext]
    omega
  · have hround := magnitude_carry (x := (before i).toNat) hvalue
    simp only [carryLimb, hnext]
    rw [hwrite, hround, magnitude_succ]
    ring

/-- Past the last carry nothing changes. -/
theorem Incrementing.skip {before : LimbArray} {i : Nat} {s : LimbArray × BitVec 64}
    (h : Incrementing before before i s) (hzero : s.2 = 0) :
    Incrementing before before (i + 1) s := by
  obtain ⟨hahead, hcarry, hvalue⟩ := h
  rw [hzero] at hvalue
  refine ⟨fun j hj => hahead j (Nat.le_of_succ_le hj), hcarry, ?_⟩
  rw [hzero, magnitude_succ, magnitude_succ, hahead i (Nat.le_refl i)]
  have hnone : ∀ k, (0 : BitVec 64).toNat * (2 ^ 64) ^ k = 0 := fun k => Nat.zero_mul _
  rw [hnone, Nat.add_zero] at hvalue ⊢
  omega

/-- A complemented array is what its number lacks. -/
theorem magnitude_complement (limbs : LimbArray) (n : Nat) :
    magnitude (fun i => ~~~limbs i) n + magnitude limbs n + 1 = (2 ^ 64) ^ n := by
  induction n with
  | zero => rfl
  | succ n ih =>
    have hlt := (limbs n).isLt
    have hlimb : (~~~limbs n).toNat + (limbs n).toNat = 2 ^ 64 - 1 := by
      rw [BitVec.toNat_not]
      omega
    have hscale := congrArg (· * (2 ^ 64) ^ n) hlimb
    simp only [Nat.add_mul, Nat.sub_mul] at hscale
    have hpow : (2 ^ 64) ^ (n + 1) = 2 ^ 64 * (2 ^ 64) ^ n := Nat.pow_succ'
    have hle : 1 * (2 ^ 64) ^ n ≤ 2 ^ 64 * (2 ^ 64) ^ n := Nat.mul_le_mul_right _ (by decide)
    rw [magnitude_succ, magnitude_succ, hpow]
    omega

theorem iterate_putLimb (f : Nat → BitVec 64) (count : Nat) (limbs : LimbArray) :
    iterate (fun i limbs => putLimb limbs i (f i)) count limbs =
      fun j => if j < count then f j else limbs j := by
  induction count with
  | zero => rfl
  | succ n ih =>
    rw [iterate, ih]
    funext j
    by_cases hj : j = n
    · cases hj
      rw [putLimb_self, if_pos (Nat.lt_succ_self _)]
    · rw [putLimb_of_ne hj]
      exact if_congr (by omega) rfl rfl

/-- The limbs of a number, padded with zeros, are the number modulo what
they can hold. -/
theorem magnitude_pad (limbs : LimbArray) (length count : Nat) :
    magnitude (fun i => if i < length then limbs i else 0) count =
      magnitude limbs length % (2 ^ 64) ^ count := by
  have hpad : magnitude (fun i => if i < length then limbs i else 0) count =
      Limbs.value (2 ^ 64) (limbOrZero limbs length) count := by
    refine value_congr fun i _ => ?_
    rw [limbOrZero, apply_ite BitVec.toNat]
    rfl
  have hlt : Limbs.value (2 ^ 64) (limbOrZero limbs length) count < (2 ^ 64) ^ count :=
    value_lt fun i _ => limbOrZero_lt limbs length i
  rw [hpad, ← value_limbOrZero limbs (Nat.le_add_left length count), value_add,
    Nat.add_mul_mod_self_left, Nat.mod_eq_of_lt hlt]

/-- The array holds the integer modulo what it can hold, and the limbs
behind it are not written. -/
theorem sailIntToU64Array_exact (count : Nat) (value : SailInt) (limbs : LimbArray) :
    (magnitude (sailIntToU64Array count value limbs) count : Int) =
        value.toInt % ((2 ^ 64) ^ count : Nat) ∧
      ∀ j, count ≤ j → sailIntToU64Array count value limbs j = limbs j := by
  have hpad := magnitude_pad value.limbs value.length count
  rw [sailIntToU64Array, iterate_putLimb]
  split
  · rename_i hneg
    have hlimb : ∀ j, toU64Limb value j =
        ~~~(if j < value.length then value.limbs j else 0) := by
      intro j
      rw [toU64Limb]
      simp only [hneg, if_true]
    generalize hfilled : (fun j => if j < count then toU64Limb value j else limbs j) = filled
    have hcomplement : magnitude filled count + magnitude value.limbs value.length %
        (2 ^ 64) ^ count + 1 = (2 ^ 64) ^ count := by
      rw [← hpad, ← magnitude_complement (fun j => if j < value.length then value.limbs j else 0)]
      have hsame : magnitude filled count = magnitude
          (fun i => ~~~(if i < value.length then value.limbs i else 0)) count := by
        refine magnitude_congr fun i hi => ?_
        exact (congrFun hfilled i).symm.trans ((if_pos hi).trans (hlimb i))
      rw [hsame]
    have hloop : Incrementing filled filled count
        (iterate (fun i s => if s.2 ≠ 0 then carryLimb (s.1 i) i s else s) count (filled, 1)) := by
      refine iterate_inv (Incrementing filled filled) ?_ (incrementing_start filled filled)
      intro i s _ h
      split
      · rw [h.ahead i (Nat.le_refl i)]
        exact h.round
      · rename_i hzero
        exact h.skip (not_not.mp hzero)
    generalize iterate (fun i s => if s.2 ≠ 0 then carryLimb (s.1 i) i s else s) count
      (filled, 1) = s at hloop
    obtain ⟨hahead, -, hvalue⟩ := hloop
    constructor
    · have hlt : magnitude s.1 count < (2 ^ 64) ^ count := magnitude_lt
      have hrest : magnitude s.1 count + s.2.toNat * (2 ^ 64) ^ count +
          magnitude value.limbs value.length % (2 ^ 64) ^ count = (2 ^ 64) ^ count := by omega
      have hdivision := Nat.div_add_mod (magnitude value.limbs value.length) ((2 ^ 64) ^ count)
      have hinteger : value.toInt = -(magnitude value.limbs value.length : Int) := by
        rw [SailInt.toInt, hneg, signed_true]
        rfl
      have hpos : 0 < (2 ^ 64) ^ count := Nat.pow_pos (by decide)
      rw [hinteger]
      generalize (2 ^ 64) ^ count = bound at hlt hrest hdivision hpos ⊢
      have hsplit : (magnitude s.1 count : Int) + bound *
          (s.2.toNat - 1 - (magnitude value.limbs value.length / bound : Nat)) =
            -(magnitude value.limbs value.length : Int) := by
        have hrest' : (magnitude s.1 count : Int) + s.2.toNat * bound +
            (magnitude value.limbs value.length % bound : Nat) = bound := by exact_mod_cast hrest
        have hdivision' : (bound : Int) * (magnitude value.limbs value.length / bound : Nat) +
            (magnitude value.limbs value.length % bound : Nat) =
              magnitude value.limbs value.length := by exact_mod_cast hdivision
        linarith
      exact ((Int.ediv_emod_unique (Int.natCast_pos.mpr hpos)).mpr
        ⟨hsplit, Int.natCast_nonneg _, Int.ofNat_lt.mpr hlt⟩).2.symm
    · intro j hj
      rw [hahead j hj]
      exact (congrFun hfilled j).symm.trans (if_neg (Nat.not_lt.mpr hj))
  · rename_i hneg
    have hsign : value.negative = false := Bool.eq_false_of_not_eq_true hneg
    have hsame : magnitude (fun j => if j < count then toU64Limb value j else limbs j) count =
        magnitude (fun i => if i < value.length then value.limbs i else 0) count := by
      refine magnitude_congr fun i hi => ?_
      rw [if_pos hi, toU64Limb]
      simp only [hsign, Bool.false_eq_true, if_false]
    refine ⟨?_, fun j hj => if_neg (Nat.not_lt.mpr hj)⟩
    rw [hsame, hpad, SailInt.toInt, hsign, signed_false]
    exact Int.natCast_mod _ _

/-! ## From an array -/

section FromArrays

variable {ι : Type} [DecidableEq ι] (result : ι) (limbs : LimbArray) (count : Nat)

/-- `sail_int_from_u64_array`. -/
def sailIntFromU64Array (s : Store ι) : Result (Store ι) :=
  if integerLimbs < count then integerFailure
  else
    let count := magnitudeNormalize limbs count
    let s := (s.setNegative result false).setLength result count
    .ok (s.setLimbs result (copyLimbs count limbs (s result).limbs))

/-- `sail_int_from_twos_complement_u64_array`. -/
def sailIntFromTwosComplementU64Array (s : Store ι) : Result (Store ι) :=
  if integerLimbs < count then integerFailure
  else if count = 0 ∨ limbs (count - 1) >>> 63 = 0 then sailIntFromU64Array result limbs count s
  else
    let out := (iterate (fun i s => carryLimb (~~~limbs i) i s) count ((s result).limbs, 1)).1
    let count := magnitudeNormalize out count
    let s := (s.setLimbs result out).setLength result count
    .ok (s.setNegative result (if count = 0 then false else true))

variable {result limbs count} {s : Store ι}

omit [DecidableEq ι] in
/-- What an array of limbs reads as two's complement. -/
theorem bmod_magnitude {n : Nat} (hn : n ≠ 0) :
    (magnitude limbs n : Int).bmod ((2 ^ 64) ^ n) =
      if limbs (n - 1) >>> 63 = 0 then (magnitude limbs n : Int)
      else signed true ((2 ^ 64) ^ n - magnitude limbs n) := by
  obtain ⟨k, rfl⟩ := Nat.exists_eq_succ_of_ne_zero hn
  have hlow : magnitude limbs k < (2 ^ 64) ^ k := magnitude_lt
  have hlt : magnitude limbs (k + 1) < (2 ^ 64) ^ (k + 1) := magnitude_lt
  have hhalf : (2 ^ 64) ^ (k + 1) = 2 * (2 ^ 63 * (2 ^ 64) ^ k) := by
    rw [Nat.pow_succ]
    ring
  have htop := shiftRight_63_ne_zero (limbs k)
  have hvalue : magnitude limbs (k + 1) = magnitude limbs k + (limbs k).toNat * (2 ^ 64) ^ k :=
    magnitude_succ
  have hmod : (magnitude limbs (k + 1) : Int) % ((2 ^ 64) ^ (k + 1) : Nat) =
      magnitude limbs (k + 1) :=
    Int.emod_eq_of_lt (Int.natCast_nonneg _) (Int.ofNat_lt.mpr hlt)
  rw [Int.bmod_def, Nat.succ_eq_add_one, hmod, Nat.add_sub_cancel]
  split
  · rename_i hsmall
    split
    · rfl
    · rename_i hset
      have hscale := Nat.mul_le_mul_right ((2 ^ 64) ^ k) (htop.mp hset)
      omega
  · rename_i hlarge
    split
    · rename_i hclear
      have hless : (limbs k).toNat + 1 ≤ 2 ^ 63 := by
        by_contra hge
        exact htop.mpr (by omega) hclear
      have hscale := Nat.mul_le_mul_right ((2 ^ 64) ^ k) hless
      rw [Nat.add_mul, Nat.one_mul] at hscale
      omega
    · rw [signed_true, Int.natCast_sub hlt.le]
      ring

theorem setNegative_setLength_setLimbs (negative : Bool) (length : Nat) (limbs : LimbArray) :
    ((s.setNegative result negative).setLength result length).setLimbs result
        (copyLimbs length limbs
          (((s.setNegative result negative).setLength result length) result).limbs) =
      Function.update s result
        ⟨negative, length, copyLimbs length limbs (s result).limbs⟩ := by
  funext k
  by_cases hk : k = result
  · cases hk
    simp only [Store.setLimbs, Store.setLength, Store.setNegative, Function.update_self]
  · simp only [Store.setLimbs, Store.setLength, Store.setNegative, Function.update_of_ne hk]

/-- An array within the store gives its number; a longer one is refused. -/
theorem sailIntFromU64Array_exact :
    Exact s result (count ≤ integerLimbs) (magnitude limbs count)
      (sailIntFromU64Array result limbs count s) := by
  rw [sailIntFromU64Array]
  split
  · rename_i hlong
    exact Exact.abort fun hle => absurd hlong (Nat.not_lt.mpr hle)
  · rename_i hshort
    have hle : count ≤ integerLimbs := Nat.not_lt.mp hshort
    have hm := (isMagnitude_normalize hle (Eq.refl (magnitude limbs count))).copy
      (Nat.le_refl _) (s result).limbs
    obtain ⟨hcanonical, hvalue⟩ := @canonical_signed _ _ _ hm false fun _ => rfl
    simp only [setNegative_setLength_setLimbs]
    exact exact_update hle hcanonical hvalue

theorem sailIntFromTwosComplementU64Array_exact :
    Exact s result (count ≤ integerLimbs) ((magnitude limbs count : Int).bmod ((2 ^ 64) ^ count))
      (sailIntFromTwosComplementU64Array result limbs count s) := by
  rw [sailIntFromTwosComplementU64Array]
  split
  · rename_i hlong
    exact Exact.abort fun hle => absurd hlong (Nat.not_lt.mpr hle)
  · rename_i hshort
    have hle : count ≤ integerLimbs := Nat.not_lt.mp hshort
    split
    · rename_i hpositive
      have hvalue : (magnitude limbs count : Int).bmod ((2 ^ 64) ^ count) =
          magnitude limbs count := by
        rcases Nat.eq_zero_or_pos count with hzero | hpos
        · rw [hzero]
          rfl
        · have hne := Nat.ne_of_gt hpos
          rw [bmod_magnitude hne, if_pos (hpositive.resolve_left hne)]
      rw [hvalue]
      exact sailIntFromU64Array_exact
    · rename_i hnegative
      obtain ⟨hne, hset⟩ := not_or.mp hnegative
      have hvalue : (magnitude limbs count : Int).bmod ((2 ^ 64) ^ count) =
          signed true ((2 ^ 64) ^ count - magnitude limbs count) := by
        rw [bmod_magnitude hne, if_neg hset]
      have hloop : Incrementing (fun i => ~~~limbs i) (s result).limbs count
          (iterate (fun i s => carryLimb (~~~limbs i) i s) count ((s result).limbs, 1)) :=
        iterate_inv (Incrementing (fun i => ~~~limbs i) (s result).limbs)
          (fun i s _ h => h.round) (incrementing_start _ _)
      generalize iterate (fun i s => carryLimb (~~~limbs i) i s) count ((s result).limbs, 1) =
        out at hloop
      have hnumber := hloop.value
      have hcomplement := magnitude_complement limbs count
      have hpos : magnitude limbs count ≠ 0 := by
        have htop := (shiftRight_63_ne_zero (limbs (count - 1))).mp hset
        have hlimb : (limbs (count - 1)).toNat ≠ 0 := by omega
        have hle : (2 ^ 64) ^ (count - 1) ≤ magnitude limbs count :=
          pow_le_value (2 ^ 64) (Nat.sub_lt (Nat.pos_of_ne_zero hne) Nat.one_pos) hlimb
        exact Nat.ne_of_gt (Nat.lt_of_lt_of_le (Nat.pow_pos (by decide)) hle)
      have hexact : magnitude out.1 count = (2 ^ 64) ^ count - magnitude limbs count := by
        rcases Nat.le_one_iff_eq_zero_or_eq_one.mp hloop.carry_le with hcarry | hcarry <;>
          rw [hcarry] at hnumber <;> omega
      rw [hvalue]
      exact exact_magnitude hle (isMagnitude_normalize hle hexact) rfl

end FromArrays

/-! ## Exactness -/

/-- The operations with two operands. -/
inductive IntOp where
  | add | sub | mult | tdiv | tmod | ediv | emod | fdiv | fmod | shl | shr | pow

namespace IntOp

variable {ι : Type} [DecidableEq ι]

def run : IntOp → ι → ι → ι → Store ι → Result (Store ι)
  | add => addInt
  | sub => subInt
  | mult => multInt
  | tdiv => tdivInt
  | tmod => tmodInt
  | ediv => edivInt
  | emod => emodInt
  | fdiv => fdivInt
  | fmod => fmodInt
  | shl => shlInt
  | shr => shrInt
  | pow => powInt

/-- The mathematical value. -/
def value : IntOp → Int → Int → Int
  | add, a, b => a + b
  | sub, a, b => a - b
  | mult, a, b => a * b
  | tdiv, a, b => a.tdiv b
  | tmod, a, b => a.tmod b
  | ediv, a, b => a / b
  | emod, a, b => a % b
  | fdiv, a, b => a.fdiv b
  | fmod, a, b => a.fmod b
  | shl, a, b => a * 2 ^ b.toNat
  | shr, a, b => a.fdiv (2 ^ b.toNat)
  | pow, a, b => a ^ b.toNat

/-- Division by zero has no value. -/
def defined : IntOp → Int → Prop
  | tdiv, b | tmod, b | ediv, b | emod, b | fdiv, b | fmod, b => b ≠ 0
  | _, _ => True

/-- Shift amounts and exponents are natural numbers of 64 bits. -/
def admits : IntOp → Int → Prop
  | shl, b | shr, b | pow, b => 0 ≤ b ∧ b < 2 ^ 64
  | _, _ => True

variable {s : Store ι} {result lhs rhs : ι}

theorem run_exact (op : IntOp) (hl : (s lhs).Canonical) (hr : (s rhs).Canonical)
    (hadmits : op.admits (s rhs).toInt) :
    Exact s result (op.defined (s rhs).toInt) (op.value (s lhs).toInt (s rhs).toInt)
      (op.run result lhs rhs s) := by
  cases op with
  | add => exact addInt_exact hl hr
  | sub => exact subInt_exact hl hr
  | mult => exact multInt_exact hl hr
  | tdiv => exact tdivInt_exact hl hr
  | tmod => exact tmodInt_exact hl hr
  | ediv => exact edivInt_exact hl hr
  | emod => exact emodInt_exact hl hr
  | fdiv => exact fdivInt_exact hl hr
  | fmod => exact fmodInt_exact hl hr
  | shl => exact shlInt_exact hl hr hadmits.1 hadmits.2
  | shr => exact shrInt_exact hl hr hadmits.1 hadmits.2
  | pow => exact powInt_exact hl hr hadmits.1 hadmits.2

end IntOp

section Sail256

variable {ι : Type} [DecidableEq ι] {s : Store ι} {result lhs rhs : ι}

omit [DecidableEq ι] in
/-- What is owed exactly, is returned exactly when there is a value that
fits. -/
theorem Exact.returns_iff {defined : Prop} {v : Int} {x : Result (Store ι)}
    (h : Exact s result defined v x) :
    (∃ s', x = .ok s') ↔ defined ∧ v.natAbs < storeBound := by
  constructor
  · rintro ⟨s', rfl⟩
    obtain ⟨hdefined, ⟨hcanonical, hvalue⟩, -⟩ := h.ends
    refine ⟨hdefined, ?_⟩
    rw [← hvalue, SailInt.toInt, natAbs_signed]
    exact hcanonical.magnitude_lt
  · rintro ⟨hdefined, hlt⟩
    cases x with
    | error e => exact absurd hlt (Nat.not_lt.mpr (h.ends.2 hdefined))
    | ok s' => exact ⟨s', rfl⟩

omit [DecidableEq ι] in
/-- A value that fits is returned. -/
theorem Exact.exists_ok {defined : Prop} {v : Int} {x : Result (Store ι)}
    (h : Exact s result defined v x) (hdefined : defined) (hfits : v.natAbs < storeBound) :
    ∃ s', x = .ok s' ∧ (s' result).Canonical ∧ (s' result).toInt = v := by
  obtain ⟨s', rfl⟩ := h.returns_iff.mpr ⟨hdefined, hfits⟩
  exact ⟨s', rfl, h.ends.2.1⟩

theorem integerCompare_zero_iff {x y : SailInt} (hx : x.Canonical) (hy : y.Canonical) :
    integerCompare x y = 0 ↔ x.toInt = y.toInt := by
  rw [integerCompare_eq hx hy, Int.sign_eq_zero_iff_zero, Int.sub_eq_zero]

theorem integerCompare_neg_iff {x y : SailInt} (hx : x.Canonical) (hy : y.Canonical) :
    integerCompare x y < 0 ↔ x.toInt < y.toInt := by
  rw [integerCompare_eq hx hy, Int.sign_neg_iff]
  omega

/-- The integer runtime is exact, also where the result is an operand:
every operation leaves the value in canonical form and every other object
untouched, and aborts exactly when there is no value or it does not fit.
Comparison is that of the integers.  Arrays of up to twelve limbs convert
exactly; the other way an integer is taken modulo the array. -/
theorem sail256_exact (hl : (s lhs).Canonical) (hr : (s rhs).Canonical) :
    (∀ op : IntOp, op.admits (s rhs).toInt →
      Exact s result (op.defined (s rhs).toInt) (op.value (s lhs).toInt (s rhs).toInt)
          (op.run result lhs rhs s) ∧
        ((∃ s', op.run result lhs rhs s = .ok s') ↔ op.defined (s rhs).toInt ∧
          (op.value (s lhs).toInt (s rhs).toInt).natAbs < storeBound)) ∧
    (0 ≤ (s rhs).toInt ∧ (s rhs).toInt < 2 ^ 64 →
      Exact s result True (2 ^ (s rhs).toInt.toNat) (pow2 result rhs s)) ∧
    integerCompare (s lhs) (s rhs) = ((s lhs).toInt - (s rhs).toInt).sign ∧
    (eqInt (s lhs) (s rhs) = true ↔ (s lhs).toInt = (s rhs).toInt) ∧
    (lt (s lhs) (s rhs) = true ↔ (s lhs).toInt < (s rhs).toInt) ∧
    (gt (s lhs) (s rhs) = true ↔ (s rhs).toInt < (s lhs).toInt) ∧
    (lteq (s lhs) (s rhs) = true ↔ (s lhs).toInt ≤ (s rhs).toInt) ∧
    (gteq (s lhs) (s rhs) = true ↔ (s rhs).toInt ≤ (s lhs).toInt) ∧
    ∀ (count : Nat) (limbs : LimbArray),
      ((magnitude (sailIntToU64Array count (s lhs) limbs) count : Int) =
          (s lhs).toInt % (2 ^ (64 * count) : Nat) ∧
        ∀ j, count ≤ j → sailIntToU64Array count (s lhs) limbs j = limbs j) ∧
      Exact s result (count ≤ 12) (magnitude limbs count)
        (sailIntFromU64Array result limbs count s) ∧
      Exact s result (count ≤ 12) ((magnitude limbs count : Int).bmod (2 ^ (64 * count)))
        (sailIntFromTwosComplementU64Array result limbs count s) := by
  have hcompare := integerCompare_eq hl hr
  refine ⟨?_, ?_, hcompare, ?_, ?_, ?_, ?_, ?_, ?_⟩
  · intro op hadmits
    have hexact := @IntOp.run_exact _ _ s result lhs rhs op hl hr hadmits
    exact ⟨hexact, hexact.returns_iff⟩
  · rintro ⟨hnonneg, hlt⟩
    exact pow2_exact hr hnonneg hlt
  · rw [eqInt, beq_iff_eq]
    exact integerCompare_zero_iff hl hr
  · rw [lt, decide_eq_true_iff]
    exact integerCompare_neg_iff hl hr
  · rw [gt, decide_eq_true_iff, hcompare, Int.sign_pos_iff]
    omega
  · rw [lteq, decide_eq_true_iff, ← Int.not_lt, hcompare, Int.sign_pos_iff]
    omega
  · rw [gteq, decide_eq_true_iff, ← Int.not_lt, integerCompare_neg_iff hl hr]
    omega
  · intro count limbs
    rw [Nat.pow_mul]
    exact ⟨sailIntToU64Array_exact count (s lhs) limbs, sailIntFromU64Array_exact,
      sailIntFromTwosComplementU64Array_exact⟩

/-- An object of one limb. -/
def oneLimb (negative : Bool) (limb : BitVec 64) : SailInt :=
  ⟨negative, 1, putLimb zeroLimbs 0 limb⟩

theorem oneLimb_canonical (negative : Bool) {limb : BitVec 64} (h : limb ≠ 0) :
    (oneLimb negative limb).Canonical ∧ (oneLimb negative limb).toInt =
      signed negative limb.toNat :=
  canonical_signed (isMagnitude_limb h) fun hzero => absurd hzero Nat.one_ne_zero

/-- Minus seven and two. -/
def dividendAndDivisor : Store Bool
  | false => oneLimb true 7
  | true => oneLimb false 2

/-- Minus seven divided by two in place, rounded down. -/
theorem sail256_fdiv_in_place :
    ∃ s', fdivInt false false true dividendAndDivisor = .ok s' ∧ (s' false).Canonical ∧
      (s' false).toInt = -4 := by
  obtain ⟨hl, hlhs⟩ := oneLimb_canonical true (show (7 : BitVec 64) ≠ 0 by decide)
  obtain ⟨hr, hrhs⟩ := oneLimb_canonical false (show (2 : BitVec 64) ≠ 0 by decide)
  have hfdiv := (@sail256_exact Bool _ dividendAndDivisor false false true hl hr).1 .fdiv trivial
  have hvalue : (dividendAndDivisor false).toInt.fdiv (dividendAndDivisor true).toInt = -4 := by
    have hdividend : (dividendAndDivisor false).toInt = -7 := hlhs
    have hdivisor : (dividendAndDivisor true).toInt = 2 := hrhs
    rw [hdividend, hdivisor]
    rfl
  have hdefined : (dividendAndDivisor true).toInt ≠ 0 := by
    have hdivisor : (dividendAndDivisor true).toInt = 2 := hrhs
    rw [hdivisor]
    decide
  have hfits : (-4 : Int).natAbs < storeBound :=
    @magnitude_lt_store (putLimb zeroLimbs 0 4) 1 (by decide)
  simp only [IntOp.run, IntOp.defined, IntOp.value, hvalue] at hfdiv
  exact hfdiv.1.exists_ok hdefined hfits

/-- Thirteen limbs of zero are refused, although zero fits; and an integer
that an array cannot hold is cut without an abort. -/
theorem sail256_conversions_refuse_and_cut :
    (sailIntFromU64Array () zeroLimbs 13 (fun _ => oneLimb false 1) = .error .guestAbort ∧
      sailIntFromTwosComplementU64Array () zeroLimbs 13 (fun _ => oneLimb false 1) =
        .error .guestAbort ∧ magnitude zeroLimbs 13 = 0) ∧
    (SailInt.mk false 2 (putLimb zeroLimbs 1 1)).Canonical ∧
      (SailInt.mk false 2 (putLimb zeroLimbs 1 1)).toInt = 2 ^ 64 ∧
      magnitude (sailIntToU64Array 1 ⟨false, 2, putLimb zeroLimbs 1 1⟩ zeroLimbs) 1 = 0 := by
  refine ⟨⟨rfl, rfl, magnitude_zeroLimbs⟩, ⟨?_, ?_, ?_⟩, ?_, ?_⟩
  · show 2 ≤ 12
    decide
  · intro i hi
    cases hi
    decide
  · intro hzero
    cases hzero
  · decide +kernel
  · decide +kernel

end Sail256

end EvmSail.Runtime
