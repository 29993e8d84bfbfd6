/-
# `EvmSail.Runtime.Magnitude` — limb arrays of the integer runtime

The magnitude helpers of the zkVM integer runtime: an unsigned number is an
array of 64-bit limbs and a length, and twelve limbs are the store of an
integer object.  `magnitude_add` and `magnitude_subtract` write their
result while they read their operands, and the result may be one of them.
They are therefore written over a family of arrays indexed by names, of
which two may be equal.  The other helpers read their operands into buffers
of their own first.

A failed bound check is `abort()`.
-/
import EvmSail.Prelude
import EvmSail.Lib.Limbs

namespace EvmSail.Runtime

open Fallible Limbs

/-- `INTEGER_LIMBS`. -/
def integerLimbs : Nat := 12

/-- An array of 64-bit limbs. -/
abbrev LimbArray := Nat → BitVec 64

/-- `integer_failure()`. -/
def integerFailure {α : Type} : Result α := .error .guestAbort

/-- The number in the first `length` limbs. -/
def magnitude (limbs : LimbArray) (length : Nat) : Nat :=
  value (2 ^ 64) (fun i => (limbs i).toNat) length

/-- What the store of an integer can hold. -/
def storeBound : Nat := (2 ^ 64) ^ integerLimbs

/-- The limbs that were written last. -/
def zeroLimbs : LimbArray := fun _ => 0

def putLimb (limbs : LimbArray) (i : Nat) (limb : BitVec 64) : LimbArray :=
  Function.update limbs i limb

section Values

variable {limbs other : LimbArray} {n m : Nat}

theorem magnitude_succ : magnitude limbs (n + 1) =
    magnitude limbs n + (limbs n).toNat * (2 ^ 64) ^ n :=
  value_succ n

theorem magnitude_one : magnitude limbs 1 = (limbs 0).toNat := by
  rw [magnitude_succ]
  show 0 + (limbs 0).toNat * 1 = (limbs 0).toNat
  rw [Nat.zero_add, Nat.mul_one]

theorem magnitude_congr (h : ∀ i < n, limbs i = other i) :
    magnitude limbs n = magnitude other n :=
  value_congr fun i hi => congrArg BitVec.toNat (h i hi)

theorem magnitude_lt : magnitude limbs n < (2 ^ 64) ^ n :=
  value_lt fun i _ => (limbs i).isLt

theorem magnitude_mono (h : n ≤ m) : magnitude limbs n ≤ magnitude limbs m := value_mono h

theorem magnitude_lt_store (h : n ≤ integerLimbs) : magnitude limbs n < storeBound :=
  Nat.lt_of_lt_of_le magnitude_lt (Nat.pow_le_pow_right (by decide) h)

theorem magnitude_of_zeros (hnm : n ≤ m) (h : ∀ i, n ≤ i → i < m → limbs i = 0) :
    magnitude limbs m = magnitude limbs n :=
  value_of_zeros hnm fun i hi him => by rw [h i hi him]; rfl

theorem magnitude_zeroLimbs : magnitude zeroLimbs n = 0 :=
  (magnitude_of_zeros (Nat.zero_le n) fun _ _ _ => rfl).trans rfl

theorem toNat_putLimb (limbs : LimbArray) (i : Nat) (limb : BitVec 64) :
    (fun j => (putLimb limbs i limb j).toNat) =
      Function.update (fun j => (limbs j).toNat) i limb.toNat := by
  funext j
  by_cases h : j = i
  · cases h
    rw [putLimb, Function.update_self, Function.update_self]
  · rw [putLimb, Function.update_of_ne h, Function.update_of_ne h]

theorem magnitude_putLimb {i : Nat} (limb : BitVec 64) (hi : i < n) :
    magnitude (putLimb limbs i limb) n + (limbs i).toNat * (2 ^ 64) ^ i =
      magnitude limbs n + limb.toNat * (2 ^ 64) ^ i := by
  rw [magnitude, toNat_putLimb]
  exact value_update hi

theorem putLimb_self (limbs : LimbArray) (i : Nat) (limb : BitVec 64) :
    putLimb limbs i limb i = limb := Function.update_self ..

theorem putLimb_of_ne {i j : Nat} (h : j ≠ i) (limbs : LimbArray) (limb : BitVec 64) :
    putLimb limbs i limb j = limbs j := Function.update_of_ne h ..

/-- The limbs are the digits of the number. -/
theorem magnitude_div_mod {i : Nat} (hi : i < n) :
    magnitude limbs n / (2 ^ 64) ^ i % 2 ^ 64 = (limbs i).toNat :=
  value_div_mod (fun i _ => (limbs i).isLt) hi

end Values

/-! ## Lengths -/

/-- The length without zero limbs on top. -/
def magnitudeNormalize (limbs : LimbArray) : Nat → Nat
  | 0 => 0
  | length + 1 => if limbs length = 0 then magnitudeNormalize limbs length else length + 1

/-- The top limb of a canonical length is not zero. -/
def Normal (limbs : LimbArray) (length : Nat) : Prop := ∀ i, length = i + 1 → limbs i ≠ 0

theorem magnitudeNormalize_le (limbs : LimbArray) (n : Nat) :
    magnitudeNormalize limbs n ≤ n := by
  induction n with
  | zero => exact Nat.le_refl 0
  | succ n ih =>
    rw [magnitudeNormalize]
    split
    · exact Nat.le_succ_of_le ih
    · exact Nat.le_refl _

theorem magnitudeNormalize_value (limbs : LimbArray) (n : Nat) :
    magnitude limbs (magnitudeNormalize limbs n) = magnitude limbs n := by
  induction n with
  | zero => rfl
  | succ n ih =>
    rw [magnitudeNormalize]
    split
    · rename_i hzero
      rw [ih, magnitude_succ, hzero]
      simp
    · rfl

theorem magnitudeNormalize_normal (limbs : LimbArray) (n : Nat) :
    Normal limbs (magnitudeNormalize limbs n) := by
  induction n with
  | zero =>
    intro i hi
    cases hi
  | succ n ih =>
    rw [magnitudeNormalize]
    split
    · exact ih
    · rename_i hne
      intro i hi
      cases hi
      exact hne

/-- The length of a normal number tells how large it is. -/
theorem Normal.pow_le {limbs : LimbArray} {i : Nat} (h : Normal limbs (i + 1)) :
    (2 ^ 64) ^ i ≤ magnitude limbs (i + 1) := by
  refine pow_le_value _ (Nat.lt_succ_self i) ?_
  intro hzero
  exact h i rfl (BitVec.eq_of_toNat_eq hzero)

theorem Normal.eq_zero_iff {limbs : LimbArray} {n : Nat} (h : Normal limbs n) :
    magnitude limbs n = 0 ↔ n = 0 := by
  constructor
  · intro hzero
    cases n with
    | zero => rfl
    | succ i =>
      have hle := h.pow_le
      have hpos : 0 < (2 ^ 64) ^ i := Nat.pow_pos (by decide)
      omega
  · rintro rfl
    rfl

/-! ## Comparison -/

/-- The loop of `magnitude_compare`, below the index. -/
def magnitudeCompareFrom (lhs rhs : LimbArray) : Nat → Int
  | 0 => 0
  | i + 1 =>
    if lhs i ≠ rhs i then (if lhs i < rhs i then -1 else 1) else magnitudeCompareFrom lhs rhs i

def magnitudeCompare (lhs : LimbArray) (lhsLength : Nat) (rhs : LimbArray) (rhsLength : Nat) :
    Int :=
  if lhsLength ≠ rhsLength then (if lhsLength < rhsLength then -1 else 1)
  else magnitudeCompareFrom lhs rhs lhsLength

/-- The sign of a difference, as a comparison returns it. -/
def orderOf (x y : Nat) : Int := if x < y then -1 else if x = y then 0 else 1

theorem orderOf_lt {x y : Nat} (h : x < y) : orderOf x y = -1 := if_pos h

theorem orderOf_gt {x y : Nat} (h : y < x) : orderOf x y = 1 := by
  rw [orderOf, if_neg (Nat.lt_asymm h), if_neg (Nat.ne_of_gt h)]

theorem orderOf_eq {x y : Nat} (h : x = y) : orderOf x y = 0 := by
  rw [orderOf, if_neg (Nat.not_lt.mpr (Nat.le_of_eq h.symm)), if_pos h]

theorem magnitudeCompareFrom_eq (lhs rhs : LimbArray) (n : Nat) :
    magnitudeCompareFrom lhs rhs n = orderOf (magnitude lhs n) (magnitude rhs n) := by
  induction n with
  | zero => rfl
  | succ i ih =>
    have hl : magnitude lhs i < (2 ^ 64) ^ i := magnitude_lt
    have hr : magnitude rhs i < (2 ^ 64) ^ i := magnitude_lt
    rw [magnitudeCompareFrom, magnitude_succ, magnitude_succ]
    split
    · rename_i hne
      split
      · rename_i hlt
        have hmul : ((lhs i).toNat + 1) * (2 ^ 64) ^ i ≤ (rhs i).toNat * (2 ^ 64) ^ i :=
          Nat.mul_le_mul_right _ hlt
        exact (orderOf_lt (by linarith)).symm
      · rename_i hge
        have hlt : (rhs i).toNat < (lhs i).toNat := by
          refine Nat.lt_of_le_of_ne (Nat.not_lt.mp hge) ?_
          intro h
          exact hne (BitVec.eq_of_toNat_eq h.symm)
        have hmul : ((rhs i).toNat + 1) * (2 ^ 64) ^ i ≤ (lhs i).toNat * (2 ^ 64) ^ i :=
          Nat.mul_le_mul_right _ hlt
        exact (orderOf_gt (by linarith)).symm
    · rename_i heq
      rw [ih, not_not.mp heq, orderOf, orderOf]
      simp only [Nat.add_lt_add_iff_right, Nat.add_right_cancel_iff]

/-- Comparing lengths first is right for normal numbers. -/
theorem magnitudeCompare_eq {lhs rhs : LimbArray} {n m : Nat} (hl : Normal lhs n)
    (hr : Normal rhs m) :
    magnitudeCompare lhs n rhs m = orderOf (magnitude lhs n) (magnitude rhs m) := by
  have hlonger : ∀ {a c : LimbArray} {i j : Nat}, Normal c j → i < j →
      magnitude a i < magnitude c j := by
    intro a c i j hc hij
    obtain ⟨k, rfl⟩ := Nat.exists_eq_add_of_lt hij
    have hpow : (2 ^ 64) ^ i ≤ (2 ^ 64) ^ (i + k) :=
      Nat.pow_le_pow_right (by decide) (Nat.le_add_right i k)
    exact Nat.lt_of_lt_of_le magnitude_lt (Nat.le_trans hpow hc.pow_le)
  rw [magnitudeCompare]
  split
  · rename_i hne
    split
    · rename_i hlt
      exact (orderOf_lt (hlonger hr hlt)).symm
    · rename_i hge
      have hgt : m < n := Nat.lt_of_le_of_ne (Nat.not_lt.mp hge) (Ne.symm hne)
      exact (orderOf_gt (hlonger hl hgt)).symm
  · rename_i heq
    cases not_not.mp heq
    exact magnitudeCompareFrom_eq lhs rhs n

/-! ## Addition and subtraction in place -/

section InPlace

variable {κ : Type} [DecidableEq κ]

/-- The arrays after `result[i] = limb`. -/
def putArray (arrays : κ → LimbArray) (result : κ) (i : Nat) (limb : BitVec 64) :
    κ → LimbArray :=
  Function.update arrays result (putLimb (arrays result) i limb)

/-- `i < length ? limbs[i] : 0`, widened. -/
def limbOrZero (limbs : LimbArray) (length i : Nat) : Nat :=
  if i < length then (limbs i).toNat else 0

variable (result lhs rhs : κ) (lhsLength rhsLength : Nat)

/-- A round of the loop of `magnitude_add`; the sum is an
`unsigned __int128`. -/
def addLimb (i : Nat) (s : (κ → LimbArray) × Nat) : (κ → LimbArray) × Nat :=
  let sum := (limbOrZero (s.1 lhs) lhsLength i + limbOrZero (s.1 rhs) rhsLength i + s.2) % 2 ^ 128
  (putArray s.1 result i (BitVec.ofNat 64 sum), sum / 2 ^ 64)

/-- `magnitude_add`: the length of the sum, which `result` holds. -/
def magnitudeAdd (arrays : κ → LimbArray) : Result (Nat × (κ → LimbArray)) :=
  let length := if rhsLength < lhsLength then lhsLength else rhsLength
  let s := iterate (addLimb result lhs rhs lhsLength rhsLength) length (arrays, 0)
  if s.2 ≠ 0 then
    if length = integerLimbs then integerFailure
    else
      let arrays := putArray s.1 result length (BitVec.ofNat 64 s.2)
      .ok (magnitudeNormalize (arrays result) (length + 1), arrays)
  else .ok (magnitudeNormalize (s.1 result) length, s.1)

/-- A round of the loop of `magnitude_subtract`. -/
def subtractLimb (i : Nat) (s : (κ → LimbArray) × Nat) : (κ → LimbArray) × Nat :=
  let difference :=
    (2 ^ 128 + ((s.1 lhs) i).toNat - limbOrZero (s.1 rhs) rhsLength i - s.2) % 2 ^ 128
  (putArray s.1 result i (BitVec.ofNat 64 difference), difference / 2 ^ 64 % 2)

/-- `magnitude_subtract`. -/
def magnitudeSubtract (arrays : κ → LimbArray) : Result (Nat × (κ → LimbArray)) :=
  let s := iterate (subtractLimb result lhs rhs rhsLength) lhsLength (arrays, 0)
  if s.2 ≠ 0 then integerFailure
  else .ok (magnitudeNormalize (s.1 result) lhsLength, s.1)

variable {result lhs rhs : κ} {lhsLength rhsLength : Nat}

@[simp] theorem putArray_self (arrays : κ → LimbArray) (i : Nat) (limb : BitVec 64) :
    putArray arrays result i limb result = putLimb (arrays result) i limb :=
  Function.update_self ..

theorem putArray_of_ne {k : κ} (h : k ≠ result) (arrays : κ → LimbArray) (i : Nat)
    (limb : BitVec 64) : putArray arrays result i limb k = arrays k :=
  Function.update_of_ne h ..

theorem limbOrZero_lt (limbs : LimbArray) (length i : Nat) :
    limbOrZero limbs length i < 2 ^ 64 := by
  rw [limbOrZero]
  split
  · exact (limbs i).isLt
  · decide

/-- Padding with zeros keeps the number. -/
theorem value_limbOrZero (limbs : LimbArray) {length n : Nat} (h : length ≤ n) :
    value (2 ^ 64) (limbOrZero limbs length) n = magnitude limbs length := by
  have hzeros : value (2 ^ 64) (limbOrZero limbs length) n =
      value (2 ^ 64) (limbOrZero limbs length) length :=
    value_of_zeros h fun i hi _ => if_neg (Nat.not_lt.mpr hi)
  rw [hzeros]
  exact value_congr fun i hi => if_pos hi

/-- What the rounds below `i` leave alone: every other array, and the limbs
of the result that are still to be read. -/
structure Untouched (result : κ) (arrays before : κ → LimbArray) (i : Nat) : Prop where
  others : ∀ k, k ≠ result → arrays k = before k
  ahead : ∀ j, i ≤ j → arrays result j = before result j

theorem Untouched.limb {arrays before : κ → LimbArray} {i : Nat}
    (h : Untouched result arrays before i) (k : κ) : arrays k i = before k i := by
  by_cases hk : k = result
  · cases hk
    exact h.ahead i (Nat.le_refl i)
  · rw [h.others k hk]

theorem Untouched.put {arrays before : κ → LimbArray} {i : Nat}
    (h : Untouched result arrays before i) (limb : BitVec 64) :
    Untouched result (putArray arrays result i limb) before (i + 1) := by
  constructor
  · intro k hk
    rw [putArray_of_ne hk, h.others k hk]
  · intro j hj
    rw [putArray_self, putLimb_of_ne (by omega)]
    exact h.ahead j (by omega)

theorem Untouched.limbOrZero {arrays before : κ → LimbArray} {i : Nat}
    (h : Untouched result arrays before i) (k : κ) (length : Nat) :
    limbOrZero (arrays k) length i = limbOrZero (before k) length i := by
  rw [Runtime.limbOrZero, Runtime.limbOrZero, h.limb k]

theorem magnitude_put_below (limbs : LimbArray) (i : Nat) (limb : BitVec 64) :
    magnitude (putLimb limbs i limb) i = magnitude limbs i :=
  magnitude_congr fun _ hj => putLimb_of_ne (Nat.ne_of_lt hj) limbs limb

theorem magnitude_put_succ (limbs : LimbArray) (i : Nat) (limb : BitVec 64) :
    magnitude (putLimb limbs i limb) (i + 1) = magnitude limbs i + limb.toNat * (2 ^ 64) ^ i := by
  rw [magnitude_succ, magnitude_put_below, putLimb_self]

/-- One limb written by a loop with a carry. -/
theorem magnitude_carry {limbs : LimbArray} {i x carry total : Nat}
    (h : magnitude limbs i + carry * (2 ^ 64) ^ i = total) :
    magnitude (putLimb limbs i (BitVec.ofNat 64 (x + carry))) (i + 1) +
        (x + carry) / 2 ^ 64 * (2 ^ 64) ^ (i + 1) = total + x * (2 ^ 64) ^ i := by
  have hbelow : magnitude (putLimb limbs i (BitVec.ofNat 64 (x + carry))) i +
      carry * (2 ^ 64) ^ i = total := by
    rw [magnitude_put_below]
    exact h
  refine carry_step hbelow (Nat.mod_add_div (x + carry) (2 ^ 64)) ?_
  simp only [putLimb_self, BitVec.toNat_ofNat]

/-- One limb written by a loop with a borrow. -/
theorem magnitude_borrow {limbs : LimbArray} {i x y out borrow borrow' X Y : Nat}
    (h : magnitude limbs i + Y = X + borrow * (2 ^ 64) ^ i)
    (hstep : out % 2 ^ 64 + y + borrow = x + 2 ^ 64 * borrow') :
    magnitude (putLimb limbs i (BitVec.ofNat 64 out)) (i + 1) + (Y + y * (2 ^ 64) ^ i) =
      X + x * (2 ^ 64) ^ i + borrow' * (2 ^ 64) ^ (i + 1) := by
  have hbelow : magnitude (putLimb limbs i (BitVec.ofNat 64 out)) i + Y =
      X + borrow * (2 ^ 64) ^ i := by
    rw [magnitude_put_below]
    exact h
  refine borrow_step hbelow hstep ?_
  simp only [putLimb_self, BitVec.toNat_ofNat]

/-- The result of an operation in place: a normal number, the other arrays
as they were. -/
structure InPlace (result : κ) (before : κ → LimbArray) (v : Nat) (length : Nat)
    (arrays : κ → LimbArray) : Prop where
  length_le : length ≤ integerLimbs
  value : magnitude (arrays result) length = v
  normal : Normal (arrays result) length
  others : ∀ k, k ≠ result → arrays k = before k

/-- The invariant of the loop of `magnitude_add`. -/
structure Adding (result lhs rhs : κ) (lhsLength rhsLength : Nat) (before : κ → LimbArray)
    (i : Nat) (s : (κ → LimbArray) × Nat) : Prop where
  untouched : Untouched result s.1 before i
  carry_le : s.2 ≤ 1
  value : magnitude (s.1 result) i + s.2 * (2 ^ 64) ^ i =
    Limbs.value (2 ^ 64) (limbOrZero (before lhs) lhsLength) i +
      Limbs.value (2 ^ 64) (limbOrZero (before rhs) rhsLength) i

theorem Adding.round {before : κ → LimbArray} {i : Nat} {s : (κ → LimbArray) × Nat}
    (h : Adding result lhs rhs lhsLength rhsLength before i s) :
    Adding result lhs rhs lhsLength rhsLength before (i + 1)
      (addLimb result lhs rhs lhsLength rhsLength i s) := by
  obtain ⟨arrays, carry⟩ := s
  obtain ⟨huntouched, hcarry, hvalue⟩ := h
  simp only at huntouched hcarry hvalue
  have hl := limbOrZero_lt (before lhs) lhsLength i
  have hr := limbOrZero_lt (before rhs) rhsLength i
  rw [addLimb]
  simp only [huntouched.limbOrZero lhs lhsLength, huntouched.limbOrZero rhs rhsLength]
  have hsum : (limbOrZero (before lhs) lhsLength i + limbOrZero (before rhs) rhsLength i +
      carry) % 2 ^ 128 =
        limbOrZero (before lhs) lhsLength i + limbOrZero (before rhs) rhsLength i + carry :=
    Nat.mod_eq_of_lt (by omega)
  rw [hsum]
  refine ⟨huntouched.put _, ?_, ?_⟩
  · simp only
    omega
  · simp only [putArray_self, value_succ]
    rw [magnitude_carry hvalue]
    ring

/-- `magnitude_add` leaves the exact sum, or aborts because it does not fit
twelve limbs; the result may be an operand. -/
theorem magnitudeAdd_exact (before : κ → LimbArray) (hl : lhsLength ≤ integerLimbs)
    (hr : rhsLength ≤ integerLimbs) :
    let sum := magnitude (before lhs) lhsLength + magnitude (before rhs) rhsLength
    Ends (fun r => InPlace result before sum r.1 r.2)
      (fun e => e = .guestAbort ∧ storeBound ≤ sum)
      (magnitudeAdd result lhs rhs lhsLength rhsLength before) := by
  intro sum
  rw [magnitudeAdd]
  generalize hlength : (if rhsLength < lhsLength then lhsLength else rhsLength) = length
  have hbounds : lhsLength ≤ length ∧ rhsLength ≤ length ∧ length ≤ integerLimbs := by
    rw [← hlength]
    split <;> omega
  obtain ⟨hll, hrl, hle⟩ := hbounds
  have hloop : Adding result lhs rhs lhsLength rhsLength before length
      (iterate (addLimb result lhs rhs lhsLength rhsLength) length (before, 0)) := by
    refine iterate_inv (Adding result lhs rhs lhsLength rhsLength before)
      (fun i s _ h => h.round) ⟨⟨fun _ _ => rfl, fun _ _ => rfl⟩, Nat.zero_le 1, ?_⟩
    simp only [value_zero, magnitude, Nat.zero_mul]
  generalize iterate (addLimb result lhs rhs lhsLength rhsLength) length (before, 0) = s at hloop
  obtain ⟨arrays, carry⟩ := s
  obtain ⟨huntouched, hcarry, hvalue⟩ := hloop
  simp only [value_limbOrZero _ hll, value_limbOrZero _ hrl] at huntouched hcarry hvalue ⊢
  replace hvalue : magnitude (arrays result) length + carry * (2 ^ 64) ^ length = sum := hvalue
  split
  · rename_i hne
    have hone : carry = 1 := by omega
    cases hone
    rw [Nat.one_mul] at hvalue
    split
    · rename_i hfull
      cases hfull
      exact ⟨rfl, by rw [← hvalue, storeBound]; exact Nat.le_add_left _ _⟩
    · rename_i hroom
      refine ⟨Nat.le_trans (magnitudeNormalize_le _ _) (by omega), ?_,
        magnitudeNormalize_normal _ _, ?_⟩
      · simp only [magnitudeNormalize_value, putArray_self, magnitude_put_succ, ← hvalue]
        simp
      · intro k hk
        simp only [putArray_of_ne hk, huntouched.others k hk]
  · rename_i hzero
    cases not_not.mp hzero
    rw [Nat.zero_mul, Nat.add_zero] at hvalue
    refine ⟨Nat.le_trans (magnitudeNormalize_le _ _) hle, ?_, magnitudeNormalize_normal _ _,
      huntouched.others⟩
    rw [magnitudeNormalize_value]
    exact hvalue

/-- The invariant of the loop of `magnitude_subtract`. -/
structure Subtracting (result lhs rhs : κ) (rhsLength : Nat) (before : κ → LimbArray)
    (i : Nat) (s : (κ → LimbArray) × Nat) : Prop where
  untouched : Untouched result s.1 before i
  borrow_le : s.2 ≤ 1
  value : magnitude (s.1 result) i +
      Limbs.value (2 ^ 64) (limbOrZero (before rhs) rhsLength) i =
    magnitude (before lhs) i + s.2 * (2 ^ 64) ^ i

theorem Subtracting.round {before : κ → LimbArray} {i : Nat} {s : (κ → LimbArray) × Nat}
    (h : Subtracting result lhs rhs rhsLength before i s) :
    Subtracting result lhs rhs rhsLength before (i + 1)
      (subtractLimb result lhs rhs rhsLength i s) := by
  obtain ⟨arrays, borrow⟩ := s
  obtain ⟨huntouched, hborrow, hvalue⟩ := h
  simp only at huntouched hborrow hvalue
  have hl := (before lhs i).isLt
  have hr := limbOrZero_lt (before rhs) rhsLength i
  rw [subtractLimb]
  simp only [huntouched.limbOrZero rhs rhsLength, huntouched.limb lhs]
  refine ⟨huntouched.put _, Nat.lt_succ_iff.mp (Nat.mod_lt _ (by decide)), ?_⟩
  have hlhs : magnitude (before lhs) (i + 1) =
      magnitude (before lhs) i + (before lhs i).toNat * (2 ^ 64) ^ i := magnitude_succ
  simp only [putArray_self, hlhs, value_succ]
  generalize (before lhs i).toNat = x at hl ⊢
  generalize limbOrZero (before rhs) rhsLength i = y at hr ⊢
  refine magnitude_borrow hvalue ?_
  omega

/-- `magnitude_subtract` leaves the exact difference when there is one. -/
theorem magnitudeSubtract_exact (before : κ → LimbArray) (hl : lhsLength ≤ integerLimbs)
    (hlength : rhsLength ≤ lhsLength)
    (hle : magnitude (before rhs) rhsLength ≤ magnitude (before lhs) lhsLength) :
    ∃ length arrays,
      magnitudeSubtract result lhs rhs lhsLength rhsLength before = .ok (length, arrays) ∧
        InPlace result before
          (magnitude (before lhs) lhsLength - magnitude (before rhs) rhsLength) length arrays := by
  have hloop : Subtracting result lhs rhs rhsLength before lhsLength
      (iterate (subtractLimb result lhs rhs rhsLength) lhsLength (before, 0)) := by
    refine iterate_inv (Subtracting result lhs rhs rhsLength before) (fun i s _ h => h.round)
      ⟨⟨fun _ _ => rfl, fun _ _ => rfl⟩, Nat.zero_le 1, ?_⟩
    simp only [value_zero, magnitude, Nat.zero_mul]
  rw [magnitudeSubtract]
  generalize iterate (subtractLimb result lhs rhs rhsLength) lhsLength (before, 0) = s at hloop
  obtain ⟨arrays, borrow⟩ := s
  obtain ⟨huntouched, hborrow, hvalue⟩ := hloop
  simp only [value_limbOrZero _ hlength] at huntouched hborrow hvalue ⊢
  have hlt : magnitude (arrays result) lhsLength < (2 ^ 64) ^ lhsLength := magnitude_lt
  have hzero : borrow = 0 := by
    by_contra hne
    have hone : borrow = 1 := by omega
    rw [hone, Nat.one_mul] at hvalue
    omega
  cases hzero
  rw [Nat.zero_mul, Nat.add_zero] at hvalue
  refine ⟨_, _, if_neg (not_not.mpr rfl), Nat.le_trans (magnitudeNormalize_le _ _) hl, ?_,
    magnitudeNormalize_normal _ _, huntouched.others⟩
  rw [magnitudeNormalize_value]
  omega

end InPlace

/-! ## Multiplication -/

/-- A round of the inner loop of `magnitude_multiply`. -/
def multiplyLimb (factor : BitVec 64) (rhs : LimbArray) (i j : Nat) (s : LimbArray × Nat) :
    LimbArray × Nat :=
  let v := (factor.toNat * (rhs j).toNat + (s.1 (i + j)).toNat + s.2) % 2 ^ 128
  (putLimb s.1 (i + j) (BitVec.ofNat 64 v), v / 2 ^ 64)

/-- `while (carry != 0)`, with the given number of limbs above the index. -/
def propagateCarry : Nat → LimbArray → Nat → Result LimbArray
  | 0, product, carry => if carry ≠ 0 then integerFailure else .ok product
  | above + 1, product, carry =>
    if carry ≠ 0 then
      let index := integerLimbs * 2 - (above + 1)
      let v := ((product index).toNat + carry) % 2 ^ 128
      propagateCarry above (putLimb product index (BitVec.ofNat 64 v)) (v / 2 ^ 64)
    else .ok product

def multiplyRow (lhs rhs : LimbArray) (rhsLength i : Nat) (product : LimbArray) :
    Result LimbArray :=
  let s := iterate (multiplyLimb (lhs i) rhs i) rhsLength (product, 0)
  propagateCarry (integerLimbs * 2 - (i + rhsLength)) s.1 s.2

/-- `magnitude_multiply`: the length of the product, and the limbs that are
copied into the result. -/
def magnitudeMultiply (lhs : LimbArray) (lhsLength : Nat) (rhs : LimbArray) (rhsLength : Nat) :
    Result (Nat × LimbArray) := do
  let product ← foreach lhsLength (fun i => multiplyRow lhs rhs rhsLength i) zeroLimbs
  if (List.range integerLimbs).any fun i => product (integerLimbs + i) != 0 then integerFailure
  else .ok (magnitudeNormalize product integerLimbs, product)

section Multiply

variable {limbs : LimbArray} {n index x carry total : Nat}

/-- A limb that takes up what is added to it. -/
theorem magnitude_accumulate (hi : index < n)
    (h : magnitude limbs n + carry * (2 ^ 64) ^ index = total) :
    magnitude (putLimb limbs index (BitVec.ofNat 64 (x + (limbs index).toNat + carry))) n +
        (x + (limbs index).toNat + carry) / 2 ^ 64 * (2 ^ 64) ^ (index + 1) =
      total + x * (2 ^ 64) ^ index := by
  have hput := @magnitude_putLimb limbs _ _
    (BitVec.ofNat 64 (x + (limbs index).toNat + carry)) hi
  rw [BitVec.toNat_ofNat] at hput
  have hsplit := Nat.mod_add_div (x + (limbs index).toNat + carry) (2 ^ 64)
  have hscale := congrArg (· * (2 ^ 64) ^ index) hsplit
  simp only [Nat.add_mul] at hscale
  have hpow : (2 ^ 64) ^ (index + 1) = 2 ^ 64 * (2 ^ 64) ^ index := by
    rw [Nat.pow_succ', Nat.mul_comm]
  rw [hpow]
  linarith

theorem product_lt {a b c d : Nat} (ha : a < 2 ^ 64) (hb : b < 2 ^ 64) (hc : c < 2 ^ 64)
    (hd : d < 2 ^ 64) : a * b + c + d < 2 ^ 128 := by
  have hmul : a * b ≤ (2 ^ 64 - 1) * (2 ^ 64 - 1) := Nat.mul_le_mul (by omega) (by omega)
  omega

theorem multiplyLimb_inv (factor : BitVec 64) (rhs product : LimbArray) {i rhsLength : Nat}
    (h : i + rhsLength ≤ integerLimbs * 2) :
    (iterate (multiplyLimb factor rhs i) rhsLength (product, 0)).2 < 2 ^ 64 ∧
      magnitude (iterate (multiplyLimb factor rhs i) rhsLength (product, 0)).1 (integerLimbs * 2) +
          (iterate (multiplyLimb factor rhs i) rhsLength (product, 0)).2 *
            (2 ^ 64) ^ (i + rhsLength) =
        magnitude product (integerLimbs * 2) +
          factor.toNat * (2 ^ 64) ^ i * magnitude rhs rhsLength := by
  refine iterate_inv (fun j (s : LimbArray × Nat) => s.2 < 2 ^ 64 ∧
      magnitude s.1 (integerLimbs * 2) + s.2 * (2 ^ 64) ^ (i + j) =
        magnitude product (integerLimbs * 2) + factor.toNat * (2 ^ 64) ^ i * magnitude rhs j) ?_
    ⟨Nat.two_pow_pos 64, by simp only [magnitude, value_zero, Nat.zero_mul, Nat.mul_zero]⟩
  rintro j ⟨limbs, carry⟩ hj ⟨hcarry, hvalue⟩
  simp only at hcarry hvalue
  have hbound := product_lt factor.isLt (rhs j).isLt (limbs (i + j)).isLt hcarry
  simp only [multiplyLimb, Nat.mod_eq_of_lt hbound]
  refine ⟨Nat.div_lt_of_lt_mul hbound, ?_⟩
  rw [← Nat.add_assoc i j 1, magnitude_accumulate (by omega) hvalue, magnitude_succ, Nat.pow_add]
  ring

/-- The carry goes up until it is spent, when the whole fits. -/
theorem propagateCarry_ok (above : Nat) (product : LimbArray) (carry : Nat)
    (habove : above ≤ integerLimbs * 2) (hcarry : carry < 2 ^ 64)
    (hfits : magnitude product (integerLimbs * 2) +
      carry * (2 ^ 64) ^ (integerLimbs * 2 - above) < (2 ^ 64) ^ (integerLimbs * 2)) :
    ∃ product', propagateCarry above product carry = .ok product' ∧
      magnitude product' (integerLimbs * 2) = magnitude product (integerLimbs * 2) +
        carry * (2 ^ 64) ^ (integerLimbs * 2 - above) := by
  induction above generalizing product carry with
  | zero =>
    rw [Nat.sub_zero] at hfits ⊢
    have hzero : carry = 0 := by
      by_contra hne
      have hle : (2 ^ 64) ^ (integerLimbs * 2) ≤ carry * (2 ^ 64) ^ (integerLimbs * 2) :=
        Nat.le_mul_of_pos_left _ (Nat.pos_of_ne_zero hne)
      omega
    cases hzero
    refine ⟨product, by rw [propagateCarry, if_neg (not_not.mpr rfl)], ?_⟩
    rw [Nat.zero_mul, Nat.add_zero]
  | succ above ih =>
    rw [propagateCarry]
    split
    · have hindex : integerLimbs * 2 - (above + 1) + 1 = integerLimbs * 2 - above := by omega
      have hin : integerLimbs * 2 - (above + 1) < integerLimbs * 2 := by omega
      generalize integerLimbs * 2 - (above + 1) = index at hindex hin hfits ⊢
      have hlimb := (product index).isLt
      have hmod : ((product index).toNat + carry) % 2 ^ 128 =
          0 + (product index).toNat + carry := by
        rw [Nat.zero_add]
        exact Nat.mod_eq_of_lt (by omega)
      have hcarry' : (0 + (product index).toNat + carry) / 2 ^ 64 < 2 ^ 64 := by omega
      have hstep := @magnitude_accumulate product (integerLimbs * 2) index 0 carry _ hin
        (Eq.refl (magnitude product (integerLimbs * 2) + carry * (2 ^ 64) ^ index))
      simp only [Nat.zero_mul, Nat.add_zero, hindex] at hstep
      simp only [hmod]
      have hfits' := hfits
      rw [← hstep] at hfits'
      obtain ⟨product', hok, hvalue⟩ := ih _ _ (by omega) hcarry' hfits'
      exact ⟨product', hok, hvalue.trans hstep⟩
    · rename_i hzero
      cases not_not.mp hzero
      exact ⟨product, rfl, by rw [Nat.zero_mul, Nat.add_zero]⟩

/-- A row adds its multiple of the right operand. -/
theorem multiplyRow_ok (lhs rhs product : LimbArray) {lhsLength rhsLength i : Nat}
    (hl : lhsLength ≤ integerLimbs) (hr : rhsLength ≤ integerLimbs) (hi : i < lhsLength)
    (hvalue : magnitude product (integerLimbs * 2) = magnitude lhs i * magnitude rhs rhsLength) :
    ∃ product', multiplyRow lhs rhs rhsLength i product = .ok product' ∧
      magnitude product' (integerLimbs * 2) =
        magnitude lhs (i + 1) * magnitude rhs rhsLength := by
  have hrow : i + rhsLength ≤ integerLimbs * 2 := by omega
  obtain ⟨hcarry, hloop⟩ := multiplyLimb_inv (lhs i) rhs product hrow
  have htotal : magnitude product (integerLimbs * 2) +
      (lhs i).toNat * (2 ^ 64) ^ i * magnitude rhs rhsLength =
        magnitude lhs (i + 1) * magnitude rhs rhsLength := by
    rw [hvalue, magnitude_succ, Nat.add_mul]
  have hlt : magnitude lhs (i + 1) * magnitude rhs rhsLength < (2 ^ 64) ^ (integerLimbs * 2) := by
    have hl' : magnitude lhs (i + 1) < (2 ^ 64) ^ (i + 1) := magnitude_lt
    have hr' : magnitude rhs rhsLength < (2 ^ 64) ^ rhsLength := magnitude_lt
    have hmul := Nat.mul_lt_mul'' hl' hr'
    rw [← Nat.pow_add] at hmul
    exact Nat.lt_of_lt_of_le hmul (Nat.pow_le_pow_right (by decide) (by omega))
  rw [multiplyRow]
  generalize iterate (multiplyLimb (lhs i) rhs i) rhsLength (product, 0) = s at hcarry hloop
  have habove : integerLimbs * 2 - (integerLimbs * 2 - (i + rhsLength)) = i + rhsLength := by
    omega
  obtain ⟨product', hok, hproduct⟩ := propagateCarry_ok (integerLimbs * 2 - (i + rhsLength)) s.1
    s.2 (Nat.sub_le _ _) hcarry (by rw [habove, hloop, htotal]; exact hlt)
  refine ⟨product', hok, ?_⟩
  rw [hproduct, habove, hloop, htotal]

/-- `magnitude_multiply` returns the exact product, or aborts because it
does not fit twelve limbs. -/
theorem magnitudeMultiply_exact (lhs rhs : LimbArray) {lhsLength rhsLength : Nat}
    (hl : lhsLength ≤ integerLimbs) (hr : rhsLength ≤ integerLimbs) :
    Ends (fun r => r.1 ≤ integerLimbs ∧ Normal r.2 r.1 ∧
        magnitude r.2 r.1 = magnitude lhs lhsLength * magnitude rhs rhsLength)
      (fun e => e = .guestAbort ∧
        storeBound ≤ magnitude lhs lhsLength * magnitude rhs rhsLength)
      (magnitudeMultiply lhs lhsLength rhs rhsLength) := by
  obtain ⟨product, hok, hvalue⟩ := foreach_inv (fun i => multiplyRow lhs rhs rhsLength i)
    (fun i product => magnitude product (integerLimbs * 2) =
      magnitude lhs i * magnitude rhs rhsLength)
    (fun (i : Fin lhsLength) product h => multiplyRow_ok lhs rhs product hl hr i.isLt h) zeroLimbs
    (by rw [magnitude_zeroLimbs]; exact (Nat.zero_mul _).symm)
  rw [magnitudeMultiply, hok, ok_bind]
  split
  · rename_i hhigh
    obtain ⟨i, hi, hne⟩ := List.any_eq_true.mp hhigh
    refine ⟨rfl, ?_⟩
    rw [← hvalue]
    have hlimb : (product (integerLimbs + i)).toNat ≠ 0 := by
      intro h
      exact (bne_iff_ne.mp hne) (BitVec.eq_of_toNat_eq h)
    have hlt : integerLimbs + i < integerLimbs * 2 := by
      have := List.mem_range.mp hi
      omega
    exact Nat.le_trans (Nat.pow_le_pow_right (by decide) (Nat.le_add_right _ _))
      (pow_le_value (2 ^ 64) hlt hlimb)
  · rename_i hlow
    refine ⟨magnitudeNormalize_le _ _, magnitudeNormalize_normal _ _, ?_⟩
    rw [magnitudeNormalize_value, ← hvalue]
    refine (magnitude_of_zeros (by decide) ?_).symm
    intro i hi hlt
    by_contra hne
    refine hlow (List.any_eq_true.mpr ⟨i - integerLimbs, List.mem_range.mpr (by omega), ?_⟩)
    rw [Nat.add_sub_cancel' hi]
    exact bne_iff_ne.mpr hne

end Multiply

end EvmSail.Runtime
