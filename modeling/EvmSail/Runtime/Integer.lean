/-
# `EvmSail.Runtime.Integer` — the integers of the zkVM runtime

`sail_int` is a sign, a length and twelve limbs.  An operation gets
pointers to its result and its operands, which may be equal; the objects
are therefore a store indexed by names, and an operation is a program on
the store that reads and writes it in the order of the source.  The local
objects and buffers of an operation are names of its own.

`Exact` is what every operation is held to: the mathematical value in
canonical form and every other object untouched, or `abort()` because
there is no value or it does not fit the store of an object.  This module
has sums, products and the divisions.
-/
import EvmSail.Lib.SignMagnitude
import EvmSail.Runtime.Division

namespace EvmSail.Runtime

open Fallible Limbs SignMagnitude

/-! ## Objects -/

/-- `sail_int_struct`. -/
structure SailInt where
  negative : Bool
  length : Nat
  limbs : LimbArray

/-- The magnitude of an object. -/
def SailInt.magnitude (x : SailInt) : Nat := Runtime.magnitude x.limbs x.length

/-- The integer that an object stands for. -/
def SailInt.toInt (x : SailInt) : Int := signed x.negative x.magnitude

/-- A normalised length within the store, and no negative zero. -/
structure SailInt.Canonical (x : SailInt) : Prop where
  length_le : x.length ≤ integerLimbs
  normal : Normal x.limbs x.length
  zero : x.length = 0 → x.negative = false

theorem SailInt.Canonical.magnitude_eq_zero_iff {x : SailInt} (h : x.Canonical) :
    x.magnitude = 0 ↔ x.length = 0 := h.normal.eq_zero_iff

theorem SailInt.Canonical.magnitude_lt {x : SailInt} (h : x.Canonical) :
    x.magnitude < storeBound := magnitude_lt_store h.length_le

/-- A canonical magnitude makes a canonical object. -/
theorem canonical_signed {length : Nat} {limbs : LimbArray} {m : Nat}
    (h : IsMagnitude m (length, limbs)) {negative : Bool} (hzero : length = 0 → negative = false) :
    (SailInt.mk negative length limbs).Canonical ∧
      (SailInt.mk negative length limbs).toInt = signed negative m :=
  ⟨⟨h.length_le, h.normal, hzero⟩, congrArg (signed negative) h.value⟩

/-- The sign that the operations give a magnitude: none to zero. -/
theorem canonical_ite {length : Nat} {limbs : LimbArray} {m : Nat}
    (h : IsMagnitude m (length, limbs)) (negative : Bool) :
    (SailInt.mk (if length = 0 then false else negative) length limbs).Canonical ∧
      (SailInt.mk (if length = 0 then false else negative) length limbs).toInt =
        signed negative m := by
  obtain ⟨hcanonical, hvalue⟩ := @canonical_signed _ _ _ h (if length = 0 then false else negative)
    fun hzero => if_pos hzero
  refine ⟨hcanonical, hvalue.trans ?_⟩
  split
  · rename_i hzero
    have hm : m = 0 := h.value.symm.trans (h.normal.eq_zero_iff.mpr hzero)
    rw [hm, signed_zero, signed_zero]
  · rfl

/-- The longer of two canonical magnitudes is the larger. -/
theorem length_le_of_magnitude_le {x y : SailInt} (hx : x.Canonical)
    (h : x.magnitude ≤ y.magnitude) : x.length ≤ y.length := by
  by_contra hlt
  obtain ⟨k, hk⟩ := Nat.exists_eq_add_of_lt (Nat.not_le.mp hlt)
  have hnormal := hx.normal
  have hlow : y.magnitude < (2 ^ 64) ^ y.length := Runtime.magnitude_lt
  have hpow : (2 ^ 64) ^ y.length ≤ (2 ^ 64) ^ (y.length + k) :=
    Nat.pow_le_pow_right (by decide) (Nat.le_add_right _ k)
  rw [hk] at hnormal
  have hhigh := hnormal.pow_le
  rw [← hk] at hhigh
  exact absurd (Nat.lt_of_lt_of_le hlow (Nat.le_trans hpow hhigh)) (Nat.not_lt.mpr h)

theorem magnitudeCompare_canonical {x y : SailInt} (hx : x.Canonical) (hy : y.Canonical) :
    magnitudeCompare x.limbs x.length y.limbs y.length = orderOf x.magnitude y.magnitude :=
  magnitudeCompare_eq hx.normal hy.normal

/-! ## The store -/

abbrev Store (ι : Type) := ι → SailInt

section Stores

variable {ι : Type} [DecidableEq ι]

def Store.arrays (s : Store ι) : ι → LimbArray := fun i => (s i).limbs

/-- The limbs of all objects, as a helper left them. -/
def Store.setArrays (s : Store ι) (arrays : ι → LimbArray) : Store ι :=
  fun i => { s i with limbs := arrays i }

def Store.setLength (s : Store ι) (result : ι) (length : Nat) : Store ι :=
  Function.update s result { s result with length := length }

def Store.setNegative (s : Store ι) (result : ι) (negative : Bool) : Store ι :=
  Function.update s result { s result with negative := negative }

def Store.setLimbs (s : Store ι) (result : ι) (limbs : LimbArray) : Store ι :=
  Function.update s result { s result with limbs := limbs }

/-- `for (i = 0; i < n; i++) target[i] = source[i]`. -/
def copyLimbs (n : Nat) (source target : LimbArray) : LimbArray :=
  fun i => if i < n then source i else target i

def integerZero (s : Store ι) (result : ι) : Store ι :=
  (s.setNegative result false).setLength result 0

def copySailInt (result value : ι) (s : Store ι) : Store ι :=
  let s := s.setNegative result (s value).negative
  let s := s.setLength result (s value).length
  s.setLimbs result (copyLimbs (s value).length (s value).limbs (s result).limbs)

/-- What an operation owes: `v` in the result, canonically, and the other
objects as they were; or an abort, because `v` is not defined or does not
fit. -/
structure Exact (s : Store ι) (result : ι) (defined : Prop) (v : Int) (x : Result (Store ι)) :
    Prop where
  ends : Ends (fun s' => defined ∧ ((s' result).Canonical ∧ (s' result).toInt = v) ∧
      ∀ k, k ≠ result → s' k = s k)
    (fun e => e = .guestAbort ∧ (defined → storeBound ≤ v.natAbs)) x

variable {s : Store ι} {result : ι}

/-- Sign, length and limbs of the result, however they were written. -/
theorem setLimbs_setLength_setNegative (negative : Bool) (length : Nat) (limbs : LimbArray) :
    ((s.setLimbs result limbs).setLength result length).setNegative result negative =
      Function.update s result ⟨negative, length, limbs⟩ := by
  funext k
  by_cases hk : k = result
  · cases hk
    simp only [Store.setLimbs, Store.setLength, Store.setNegative, Function.update_self]
  · simp only [Store.setLimbs, Store.setLength, Store.setNegative, Function.update_of_ne hk]

theorem setArrays_eq_setLimbs {arrays : ι → LimbArray}
    (h : ∀ k, k ≠ result → arrays k = s.arrays k) :
    s.setArrays arrays = s.setLimbs result (arrays result) := by
  funext k
  by_cases hk : k = result
  · cases hk
    simp only [Store.setArrays, Store.setLimbs, Function.update_self]
  · simp only [Store.setArrays, Store.setLimbs, Function.update_of_ne hk, h k hk, Store.arrays]

@[simp] theorem setLength_length (length : Nat) :
    (s.setLength result length result).length = length := by
  simp only [Store.setLength, Function.update_self]

@[simp] theorem setLength_negative (length : Nat) (k : ι) :
    (s.setLength result length k).negative = (s k).negative := by
  by_cases hk : k = result
  · cases hk
    simp only [Store.setLength, Function.update_self]
  · simp only [Store.setLength, Function.update_of_ne hk]

@[simp] theorem setLimbs_negative (limbs : LimbArray) (k : ι) :
    (s.setLimbs result limbs k).negative = (s k).negative := by
  by_cases hk : k = result
  · cases hk
    simp only [Store.setLimbs, Function.update_self]
  · simp only [Store.setLimbs, Function.update_of_ne hk]

@[simp] theorem setLimbs_limbs (limbs : LimbArray) :
    (s.setLimbs result limbs result).limbs = limbs := by
  simp only [Store.setLimbs, Function.update_self]

/-- A canonical object written over the result. -/
theorem exact_update {defined : Prop} {v : Int} {x : SailInt} (hdefined : defined)
    (hcanonical : x.Canonical) (hvalue : x.toInt = v) :
    Exact s result defined v (.ok (Function.update s result x)) := by
  refine ⟨⟨hdefined, ?_, ?_⟩⟩
  · rw [Function.update_self]
    exact ⟨hcanonical, hvalue⟩
  · intro k hk
    exact Function.update_of_ne hk x s

/-- A magnitude written over the result, with the sign that the operations
give it. -/
theorem exact_magnitude {defined : Prop} {v : Int} {length m : Nat} {limbs : LimbArray}
    {negative : Bool} (hdefined : defined) (h : IsMagnitude m (length, limbs))
    (hv : signed negative m = v) :
    Exact s result defined v
      (.ok (((s.setLimbs result limbs).setLength result length).setNegative result
        (if length = 0 then false else negative))) := by
  obtain ⟨hcanonical, hvalue⟩ := canonical_ite h negative
  rw [setLimbs_setLength_setNegative]
  exact exact_update hdefined hcanonical (hvalue.trans hv)

omit [DecidableEq ι] in
theorem Exact.abort {defined : Prop} {v : Int} (h : defined → storeBound ≤ v.natAbs) :
    Exact s result defined v (.error .guestAbort) := ⟨⟨rfl, h⟩⟩

omit [DecidableEq ι] in
theorem InPlace.isMagnitude {before arrays : ι → LimbArray} {v length : Nat}
    (h : InPlace result before v length arrays) : IsMagnitude v (length, arrays result) :=
  ⟨h.length_le, h.normal, h.value⟩

/-- The limbs of a number, copied. -/
theorem IsMagnitude.copy {m length n : Nat} {limbs : LimbArray} (h : IsMagnitude m (length, limbs))
    (hn : length ≤ n) (target : LimbArray) :
    IsMagnitude m (length, copyLimbs n limbs target) := by
  have hcopy : ∀ i < length, copyLimbs n limbs target i = limbs i :=
    fun i hi => if_pos (Nat.lt_of_lt_of_le hi hn)
  refine ⟨h.length_le, ?_, (magnitude_congr hcopy).trans h.value⟩
  intro i hi
  have hlt : i < length := Nat.lt_of_lt_of_eq (Nat.lt_succ_self i) (Eq.symm hi)
  show copyLimbs n limbs target i ≠ 0
  rw [hcopy i hlt]
  exact h.normal i hi

omit [DecidableEq ι] in
theorem magnitude_copyLimbs (n : Nat) (limbs target : LimbArray) :
    Runtime.magnitude (copyLimbs n limbs target) n = Runtime.magnitude limbs n :=
  magnitude_congr fun _ hi => if_pos hi

theorem integerZero_eq : integerZero s result =
    Function.update s result ⟨false, 0, (s result).limbs⟩ := by
  funext k
  by_cases hk : k = result
  · cases hk
    simp only [integerZero, Store.setLength, Store.setNegative, Function.update_self]
  · simp only [integerZero, Store.setLength, Store.setNegative, Function.update_of_ne hk]

theorem exact_zero {defined : Prop} {v : Int} (hdefined : defined) (hv : v = 0) :
    Exact s result defined v (.ok (integerZero s result)) := by
  have hcanonical : (SailInt.mk false 0 (s result).limbs).Canonical :=
    ⟨Nat.zero_le _, fun _ h => absurd h (Nat.succ_ne_zero _).symm, fun _ => rfl⟩
  rw [integerZero_eq]
  exact exact_update hdefined hcanonical hv.symm

end Stores

/-! ## The operations -/

section Operations

variable {ι : Type} [DecidableEq ι] (result lhs rhs : ι)

def addInt (s : Store ι) : Result (Store ι) :=
  if (s lhs).negative = (s rhs).negative then do
    let (length, arrays) ← magnitudeAdd result lhs rhs (s lhs).length (s rhs).length s.arrays
    let s := (s.setArrays arrays).setLength result length
    .ok (s.setNegative result (if (s result).length = 0 then false else (s lhs).negative))
  else
    let comparison :=
      magnitudeCompare (s lhs).limbs (s lhs).length (s rhs).limbs (s rhs).length
    if comparison = 0 then .ok (integerZero s result)
    else if 0 < comparison then do
      let (length, arrays) ←
        magnitudeSubtract result lhs rhs (s lhs).length (s rhs).length s.arrays
      let s := (s.setArrays arrays).setLength result length
      .ok (s.setNegative result (s lhs).negative)
    else do
      let (length, arrays) ←
        magnitudeSubtract result rhs lhs (s rhs).length (s lhs).length s.arrays
      let s := (s.setArrays arrays).setLength result length
      .ok (s.setNegative result (s rhs).negative)

/-- A store with one local object more. -/
def Store.withLocal (s : Store ι) (x : SailInt) : Store (Option ι)
  | some i => s i
  | none => x

def Store.dropLocal (s : Store (Option ι)) : Store ι := fun i => s (some i)

/-- A fresh copy of an object. -/
def freshCopy (x : SailInt) : SailInt := { x with limbs := copyLimbs x.length x.limbs zeroLimbs }

def subInt (s : Store ι) : Result (Store ι) := do
  let negativeRhs := freshCopy (s rhs)
  let negativeRhs :=
    if negativeRhs.length ≠ 0 then { negativeRhs with negative := !negativeRhs.negative }
    else negativeRhs
  let s ← addInt (some result) (some lhs) none (s.withLocal negativeRhs)
  .ok s.dropLocal

def multInt (s : Store ι) : Result (Store ι) := do
  let (length, product) ←
    magnitudeMultiply (s lhs).limbs (s lhs).length (s rhs).limbs (s rhs).length
  let s := (s.setLimbs result (copyLimbs integerLimbs product (s result).limbs)).setLength result
    length
  .ok (s.setNegative result
    (if (s result).length = 0 then false else (s lhs).negative ^^ (s rhs).negative))

/-- `integer_divide_magnitudes`; the operands are copied before anything is
written. -/
def integerDivideMagnitudes (s : Store ι) :
    Result ((Nat × LimbArray) × (Nat × LimbArray)) :=
  magnitudeDivide (s lhs).limbs (s lhs).length (s rhs).limbs (s rhs).length

def tdivInt (s : Store ι) : Result (Store ι) := do
  let ((quotientLength, quotient), _) ← integerDivideMagnitudes lhs rhs s
  let s := (s.setLimbs result (copyLimbs integerLimbs quotient (s result).limbs)).setLength result
    quotientLength
  .ok (s.setNegative result
    (if (s result).length = 0 then false else (s lhs).negative ^^ (s rhs).negative))

def tmodInt (s : Store ι) : Result (Store ι) := do
  let (_, (remainderLength, remainder)) ← integerDivideMagnitudes lhs rhs s
  let s := (s.setLimbs result (copyLimbs integerLimbs remainder (s result).limbs)).setLength result
    remainderLength
  .ok (s.setNegative result (if (s result).length = 0 then false else (s lhs).negative))

/-- `magnitude_add(limbs, limbs, length, one, 1)`. -/
def addOne (length : Nat) (limbs : LimbArray) : Result (Nat × LimbArray) := do
  let (length, arrays) ← magnitudeAdd true true false length 1
    fun array => if array then limbs else putLimb zeroLimbs 0 1
  .ok (length, arrays true)

/-- The common part of `ediv_int` and `fdiv_int`, which round the quotient
away from zero when `up` says so. -/
def divideRounding (up : Bool) (s : Store ι) : Result (Nat × LimbArray) := do
  let ((quotientLength, quotient), (remainderLength, _)) ← integerDivideMagnitudes lhs rhs s
  if up ∧ remainderLength ≠ 0 then addOne quotientLength quotient
  else .ok (quotientLength, quotient)

def edivInt (s : Store ι) : Result (Store ι) := do
  let (quotientLength, quotient) ← divideRounding lhs rhs (s lhs).negative s
  let s := (s.setLimbs result (copyLimbs quotientLength quotient (s result).limbs)).setLength result
    quotientLength
  .ok (s.setNegative result
    (if (s result).length = 0 then false else (s lhs).negative ^^ (s rhs).negative))

def fdivInt (s : Store ι) : Result (Store ι) := do
  let negative := (s lhs).negative ^^ (s rhs).negative
  let (quotientLength, quotient) ← divideRounding lhs rhs negative s
  let s := (s.setLimbs result (copyLimbs quotientLength quotient (s result).limbs)).setLength result
    quotientLength
  .ok (s.setNegative result (if (s result).length = 0 then false else negative))

/-- The limbs that `emod_int` and `fmod_int` leave in the result: the
remainder, or what the divisor's magnitude exceeds it by when `up` says so. -/
def remainderRounding (up : Bool) (s : Store ι) : Result (Store ι) := do
  let (_, (remainderLength, remainder)) ← integerDivideMagnitudes lhs rhs s
  if up ∧ remainderLength ≠ 0 then do
    let (length, arrays) ← magnitudeSubtract (some result) (some rhs) none (s rhs).length
      remainderLength fun array => array.elim remainder s.arrays
    .ok ((s.setArrays fun i => arrays (some i)).setLength result length)
  else
    .ok ((s.setLimbs result (copyLimbs remainderLength remainder (s result).limbs)).setLength result
      remainderLength)

def emodInt (s : Store ι) : Result (Store ι) := do
  let s ← remainderRounding result lhs rhs (s lhs).negative s
  .ok (s.setNegative result false)

def fmodInt (s : Store ι) : Result (Store ι) := do
  let s ← remainderRounding result lhs rhs ((s lhs).negative ^^ (s rhs).negative) s
  .ok (s.setNegative result (if (s result).length = 0 then false else (s rhs).negative))

end Operations

/-! ## Sums -/

section Exactness

variable {ι : Type} [DecidableEq ι] {s : Store ι} {result lhs rhs : ι}

/-- The difference of two magnitudes, with the sign of the larger. -/
theorem subtract_exact {larger smaller : ι} (hl : (s larger).Canonical)
    (hlength : (s smaller).length ≤ (s larger).length)
    (hlt : (s smaller).magnitude < (s larger).magnitude)
    (hsigns : (s smaller).negative = !(s larger).negative) :
    Exact s result True ((s larger).toInt + (s smaller).toInt) (do
      let (length, arrays) ←
        magnitudeSubtract result larger smaller (s larger).length (s smaller).length s.arrays
      let s := (s.setArrays arrays).setLength result length
      .ok (s.setNegative result (s larger).negative)) := by
  obtain ⟨length, arrays, hok, hplace⟩ :=
    @magnitudeSubtract_exact _ _ result larger smaller _ _ s.arrays hl.length_le hlength
      (Nat.le_of_lt hlt)
  have hne : length ≠ 0 := by
    intro hzero
    have hnone := hplace.normal.eq_zero_iff.mpr hzero
    rw [hplace.value] at hnone
    exact absurd hlt (Nat.not_lt.mpr (Nat.sub_eq_zero_iff_le.mp hnone))
  have hvalue : signed (s larger).negative ((s larger).magnitude - (s smaller).magnitude) =
      (s larger).toInt + (s smaller).toInt := by
    rw [signed_sub _ (Nat.le_of_lt hlt), SailInt.toInt, SailInt.toInt, hsigns]
  have hwritten := @exact_magnitude _ _ s result True _ _ _ _ _ trivial hplace.isMagnitude hvalue
  rw [if_neg hne] at hwritten
  rw [hok, ok_bind]
  simp only [setArrays_eq_setLimbs hplace.others, setLength_negative, setLimbs_negative]
  exact hwritten

theorem addInt_exact (hl : (s lhs).Canonical) (hr : (s rhs).Canonical) :
    Exact s result True ((s lhs).toInt + (s rhs).toInt) (addInt result lhs rhs s) := by
  rw [addInt]
  split
  · rename_i hsigns
    have hsum : (s lhs).toInt + (s rhs).toInt =
        signed (s lhs).negative ((s lhs).magnitude + (s rhs).magnitude) := by
      rw [signed_add, SailInt.toInt, SailInt.toInt, hsigns]
    have hadd := @magnitudeAdd_exact _ _ result lhs rhs _ _ s.arrays hl.length_le hr.length_le
    rw [hsum]
    cases hrun : magnitudeAdd result lhs rhs (s lhs).length (s rhs).length s.arrays with
    | error e =>
      obtain ⟨rfl, hbig⟩ := hadd.of_error hrun
      refine Exact.abort fun _ => ?_
      rw [natAbs_signed]
      exact hbig
    | ok r =>
      have hplace := hadd.of_ok hrun
      simp only [ok_bind, setArrays_eq_setLimbs hplace.others, setLength_negative,
        setLimbs_negative, setLength_length]
      exact exact_magnitude trivial hplace.isMagnitude rfl
  · rename_i hsigns
    have hflip : (s rhs).negative = !(s lhs).negative := Bool.eq_not_of_ne (Ne.symm hsigns)
    simp only [magnitudeCompare_canonical hl hr]
    rcases Nat.lt_trichotomy (s lhs).magnitude (s rhs).magnitude with hlt | heq | hgt
    · have hlength := length_le_of_magnitude_le hl hlt.le
      have hback : (s lhs).negative = !(s rhs).negative := by rw [hflip, Bool.not_not]
      rw [orderOf_lt hlt, if_neg (by decide), if_neg (by decide), Int.add_comm]
      exact subtract_exact hr hlength hlt hback
    · rw [orderOf_eq heq, if_pos rfl]
      refine exact_zero trivial ?_
      rw [SailInt.toInt, SailInt.toInt, hflip, heq, signed_not]
      ring
    · have hlength := length_le_of_magnitude_le hr hgt.le
      rw [orderOf_gt hgt, if_neg (by decide), if_pos (by decide)]
      exact subtract_exact hl hlength hgt hflip

omit [DecidableEq ι] in
theorem SailInt.Canonical.isMagnitude {x : SailInt} (h : x.Canonical) :
    IsMagnitude x.magnitude (x.length, x.limbs) := ⟨h.length_le, h.normal, rfl⟩

/-- A copy stands for the same integer. -/
theorem freshCopy_canonical {x : SailInt} (h : x.Canonical) :
    (freshCopy x).Canonical ∧ (freshCopy x).toInt = x.toInt :=
  canonical_signed (h.isMagnitude.copy (Nat.le_refl _) zeroLimbs) h.zero

/-- The copy that `sub_int` negates. -/
theorem negatedCopy_canonical {x : SailInt} (h : x.Canonical) {y : SailInt}
    (hy : y = if (freshCopy x).length ≠ 0 then
      { freshCopy x with negative := !(freshCopy x).negative } else freshCopy x) :
    y.Canonical ∧ y.toInt = -x.toInt := by
  obtain ⟨hcopy, hvalue⟩ := freshCopy_canonical h
  cases hy
  split
  · rename_i hne
    obtain ⟨hcanonical, hnegated⟩ := @canonical_signed _ _ _ hcopy.isMagnitude
      (!(freshCopy x).negative) fun hzero => absurd hzero hne
    refine ⟨hcanonical, hnegated.trans ?_⟩
    rw [signed_not, ← hvalue, SailInt.toInt]
  · rename_i hzero
    have hnone := hcopy.magnitude_eq_zero_iff.mpr (not_not.mp hzero)
    have hnull : (freshCopy x).toInt = 0 := by rw [SailInt.toInt, hnone, signed_zero]
    rw [← hvalue, hnull]
    exact ⟨hcopy, rfl⟩

omit [DecidableEq ι] in
/-- An operation with a local object. -/
theorem exact_dropLocal {defined : Prop} {v : Int} {x : SailInt} {r : Result (Store (Option ι))}
    (h : Exact (s.withLocal x) (some result) defined v r) :
    Exact s result defined v (r >>= fun s => .ok s.dropLocal) := by
  cases r with
  | error e => exact ⟨h.ends⟩
  | ok s' =>
    obtain ⟨hdefined, hresult, hframe⟩ := h.ends
    refine ⟨⟨hdefined, hresult, ?_⟩⟩
    intro k hk
    exact hframe (some k) fun heq => hk (Option.some.inj heq)

theorem subInt_exact (hl : (s lhs).Canonical) (hr : (s rhs).Canonical) :
    Exact s result True ((s lhs).toInt - (s rhs).toInt) (subInt result lhs rhs s) := by
  obtain ⟨hcanonical, hvalue⟩ := negatedCopy_canonical hr rfl
  have hadd := @addInt_exact _ _ (s.withLocal _) (some result) (some lhs) none hl hcanonical
  have hsum : (s lhs).toInt - (s rhs).toInt = (s lhs).toInt + -(s rhs).toInt := Int.sub_eq_add_neg
  rw [hsum, ← hvalue]
  exact exact_dropLocal hadd

/-! ## Products -/

theorem multInt_exact (hl : (s lhs).Canonical) (hr : (s rhs).Canonical) :
    Exact s result True ((s lhs).toInt * (s rhs).toInt) (multInt result lhs rhs s) := by
  have hmul := magnitudeMultiply_exact (s lhs).limbs (s rhs).limbs hl.length_le hr.length_le
  have hvalue : (s lhs).toInt * (s rhs).toInt =
      signed ((s lhs).negative ^^ (s rhs).negative) ((s lhs).magnitude * (s rhs).magnitude) :=
    signed_mul _ _ _ _
  rw [multInt, hvalue]
  cases hrun : magnitudeMultiply (s lhs).limbs (s lhs).length (s rhs).limbs (s rhs).length with
  | error e =>
    obtain ⟨rfl, hbig⟩ := hmul.of_error hrun
    refine Exact.abort fun _ => ?_
    rw [natAbs_signed]
    exact hbig
  | ok r =>
    obtain ⟨hle, hnormal, hproduct⟩ := hmul.of_ok hrun
    have hmagnitude : IsMagnitude _ (r.1, r.2) := ⟨hle, hnormal, hproduct⟩
    simp only [ok_bind, setLength_negative, setLimbs_negative, setLength_length]
    exact exact_magnitude trivial (hmagnitude.copy hle _) rfl

/-! ## Divisions -/

omit [DecidableEq ι] in
/-- The division under every operation. -/
theorem integerDivideMagnitudes_exact (hl : (s lhs).Canonical) (hr : (s rhs).Canonical) :
    Ends (fun r => IsMagnitude ((s lhs).magnitude / (s rhs).magnitude) r.1 ∧
        IsMagnitude ((s lhs).magnitude % (s rhs).magnitude) r.2 ∧ (s rhs).magnitude ≠ 0)
      (fun e => e = .guestAbort ∧ (s rhs).magnitude = 0) (integerDivideMagnitudes lhs rhs s) :=
  magnitudeDivide_exact _ _ hl.length_le hr.length_le hr.normal

omit [DecidableEq ι] in
theorem SailInt.toInt_ne_zero_iff {x : SailInt} : x.toInt ≠ 0 ↔ x.magnitude ≠ 0 :=
  not_congr (signed_eq_zero_iff _)

omit [DecidableEq ι] in
/-- An operation that divides first: it aborts on the divisor zero. -/
theorem exact_divide {v : Int} {f : (Nat × LimbArray) × (Nat × LimbArray) → Result (Store ι)}
    (hl : (s lhs).Canonical) (hr : (s rhs).Canonical)
    (hf : ∀ q r, IsMagnitude ((s lhs).magnitude / (s rhs).magnitude) q →
      IsMagnitude ((s lhs).magnitude % (s rhs).magnitude) r → (s rhs).magnitude ≠ 0 →
      Exact s result ((s rhs).toInt ≠ 0) v (f (q, r))) :
    Exact s result ((s rhs).toInt ≠ 0) v (integerDivideMagnitudes lhs rhs s >>= f) := by
  have hdivide := integerDivideMagnitudes_exact hl hr
  cases hrun : integerDivideMagnitudes lhs rhs s with
  | error e =>
    obtain ⟨rfl, hzero⟩ := hdivide.of_error hrun
    refine Exact.abort fun hne => ?_
    exact absurd hzero (SailInt.toInt_ne_zero_iff.mp hne)
  | ok r =>
    obtain ⟨hq, hm, hne⟩ := hdivide.of_ok hrun
    exact hf r.1 r.2 hq hm hne

theorem tdivInt_exact (hl : (s lhs).Canonical) (hr : (s rhs).Canonical) :
    Exact s result ((s rhs).toInt ≠ 0) ((s lhs).toInt.tdiv (s rhs).toInt)
      (tdivInt result lhs rhs s) := by
  rw [tdivInt]
  refine exact_divide hl hr ?_
  rintro ⟨quotientLength, quotient⟩ r hq - hne
  simp only [setLength_negative, setLimbs_negative, setLength_length]
  refine exact_magnitude (SailInt.toInt_ne_zero_iff.mpr hne) (hq.copy hq.length_le _) ?_
  exact (tdiv_signed _ _ _ _).symm

theorem tmodInt_exact (hl : (s lhs).Canonical) (hr : (s rhs).Canonical) :
    Exact s result ((s rhs).toInt ≠ 0) ((s lhs).toInt.tmod (s rhs).toInt)
      (tmodInt result lhs rhs s) := by
  rw [tmodInt]
  refine exact_divide hl hr ?_
  rintro q ⟨remainderLength, remainder⟩ - hm hne
  simp only [setLength_negative, setLimbs_negative, setLength_length]
  refine exact_magnitude (SailInt.toInt_ne_zero_iff.mpr hne) (hm.copy hm.length_le _) ?_
  exact (tmod_signed _ _ _ _).symm

theorem addOne_exact {m length : Nat} {limbs : LimbArray} (h : IsMagnitude m (length, limbs)) :
    Ends (fun r => IsMagnitude (m + 1) r) (fun e => e = .guestAbort ∧ storeBound ≤ m + 1)
      (addOne length limbs) := by
  have hone : magnitude (putLimb zeroLimbs 0 1) 1 = 1 :=
    (isMagnitude_limb (show (1 : BitVec 64) ≠ 0 by decide)).value
  have hadd := @magnitudeAdd_exact _ _ true true false length 1
    (fun array => if array then limbs else putLimb zeroLimbs 0 1) h.length_le (by decide)
  have hvalue : magnitude limbs length = m := h.value
  simp only [if_true, Bool.false_eq_true, if_false, hone, hvalue] at hadd
  rw [addOne]
  cases hrun : magnitudeAdd true true false length 1
      fun array => if array then limbs else putLimb zeroLimbs 0 1 with
  | error e => exact hadd.of_error hrun
  | ok r => exact (hadd.of_ok hrun).isMagnitude

omit [DecidableEq ι] in
theorem divideRounding_exact (up : Bool) (hl : (s lhs).Canonical) (hr : (s rhs).Canonical) :
    Ends (fun r => IsMagnitude (roundedQuotient up (s lhs).magnitude (s rhs).magnitude) r ∧
        (s rhs).magnitude ≠ 0)
      (fun e => e = .guestAbort ∧ ((s rhs).magnitude ≠ 0 →
        storeBound ≤ roundedQuotient up (s lhs).magnitude (s rhs).magnitude))
      (divideRounding lhs rhs up s) := by
  have hdivide := integerDivideMagnitudes_exact hl hr
  rw [divideRounding]
  cases hrun : integerDivideMagnitudes lhs rhs s with
  | error e =>
    obtain ⟨rfl, hzero⟩ := hdivide.of_error hrun
    exact ⟨rfl, fun hne => absurd hzero hne⟩
  | ok r =>
    obtain ⟨hq, hm, hne⟩ := hdivide.of_ok hrun
    have hremainder : r.2.1 ≠ 0 ↔ (s lhs).magnitude % (s rhs).magnitude ≠ 0 := by
      rw [← hm.value]
      exact not_congr hm.normal.eq_zero_iff.symm
    rw [ok_bind, roundedQuotient]
    simp only [hremainder]
    split
    · have hadd := addOne_exact hq
      cases hone : addOne r.1.1 r.1.2 with
      | error e =>
        obtain ⟨rfl, hbig⟩ := hadd.of_error hone
        exact ⟨rfl, fun _ => hbig⟩
      | ok q => exact ⟨hadd.of_ok hone, hne⟩
    · exact ⟨hq, hne⟩

/-- The operations that round a quotient and write it. -/
theorem exact_roundedQuotient {v : Int} (up negative : Bool) {target : LimbArray}
    (hl : (s lhs).Canonical) (hr : (s rhs).Canonical)
    (hv : (s rhs).magnitude ≠ 0 →
      signed negative (roundedQuotient up (s lhs).magnitude (s rhs).magnitude) = v) :
    Exact s result ((s rhs).toInt ≠ 0) v (do
      let (quotientLength, quotient) ← divideRounding lhs rhs up s
      .ok (((s.setLimbs result (copyLimbs quotientLength quotient target)).setLength result
        quotientLength).setNegative result (if quotientLength = 0 then false else negative))) := by
  have hdivide := divideRounding_exact up hl hr
  cases hrun : divideRounding lhs rhs up s with
  | error e =>
    obtain ⟨rfl, hbig⟩ := hdivide.of_error hrun
    refine Exact.abort fun hne => ?_
    have hmagnitude := SailInt.toInt_ne_zero_iff.mp hne
    rw [← hv hmagnitude, natAbs_signed]
    exact hbig hmagnitude
  | ok r =>
    obtain ⟨hq, hne⟩ := hdivide.of_ok hrun
    exact exact_magnitude (SailInt.toInt_ne_zero_iff.mpr hne) (hq.copy (Nat.le_refl _) target)
      (hv hne)

theorem edivInt_exact (hl : (s lhs).Canonical) (hr : (s rhs).Canonical) :
    Exact s result ((s rhs).toInt ≠ 0) ((s lhs).toInt / (s rhs).toInt)
      (edivInt result lhs rhs s) := by
  simp only [edivInt, setLength_negative, setLimbs_negative, setLength_length]
  exact exact_roundedQuotient _ _ hl hr fun hne => (ediv_emod_signed _ _ hne).1.symm

theorem fdivInt_exact (hl : (s lhs).Canonical) (hr : (s rhs).Canonical) :
    Exact s result ((s rhs).toInt ≠ 0) ((s lhs).toInt.fdiv (s rhs).toInt)
      (fdivInt result lhs rhs s) := by
  simp only [fdivInt, setLength_length]
  exact exact_roundedQuotient _ _ hl hr fun hne => (fdiv_fmod_signed _ _ hne).1.symm

/-- The limbs that a rounded remainder leaves. -/
theorem remainderRounding_exact (up : Bool) (hl : (s lhs).Canonical) (hr : (s rhs).Canonical) :
    Ends (fun s' => ∃ length limbs,
        IsMagnitude (roundedRemainder up (s lhs).magnitude (s rhs).magnitude) (length, limbs) ∧
        s' = (s.setLimbs result limbs).setLength result length ∧ (s rhs).magnitude ≠ 0)
      (fun e => e = .guestAbort ∧ (s rhs).magnitude = 0)
      (remainderRounding result lhs rhs up s) := by
  have hdivide := integerDivideMagnitudes_exact hl hr
  rw [remainderRounding]
  cases hrun : integerDivideMagnitudes lhs rhs s with
  | error e => exact hdivide.of_error hrun
  | ok r =>
    obtain ⟨-, hm, hne⟩ := hdivide.of_ok hrun
    have hremainder : r.2.1 ≠ 0 ↔ (s lhs).magnitude % (s rhs).magnitude ≠ 0 := by
      rw [← hm.value]
      exact not_congr hm.normal.eq_zero_iff.symm
    have hvalue : magnitude r.2.2 r.2.1 = (s lhs).magnitude % (s rhs).magnitude := hm.value
    rw [ok_bind, roundedRemainder]
    simp only [hremainder]
    split
    · have hlt := Nat.mod_lt (s lhs).magnitude (Nat.pos_of_ne_zero hne)
      have hlength : r.2.1 ≤ (s rhs).length := by
        refine @length_le_of_magnitude_le ⟨false, r.2.1, r.2.2⟩ (s rhs) ⟨hm.length_le, hm.normal,
          fun _ => rfl⟩ ?_
        exact Nat.le_trans (Nat.le_of_eq hvalue) hlt.le
      obtain ⟨length, arrays, hok, hplace⟩ :=
        @magnitudeSubtract_exact (Option ι) _ (some result) (some rhs) none _ _
          (fun array => array.elim r.2.2 s.arrays) hr.length_le hlength
          (Nat.le_trans (Nat.le_of_eq hvalue) hlt.le)
      have hothers : ∀ k, k ≠ result → arrays (some k) = s.arrays k :=
        fun k hk => hplace.others (some k) fun heq => hk (Option.some.inj heq)
      rw [hok, ok_bind]
      refine ⟨length, arrays (some result), ⟨hplace.length_le, hplace.normal, ?_⟩, ?_, hne⟩
      · refine hplace.value.trans ?_
        show magnitude (s rhs).limbs (s rhs).length - magnitude r.2.2 r.2.1 = _
        rw [hvalue]
        rfl
      · exact congrArg (fun s' : Store ι => s'.setLength result length)
          (setArrays_eq_setLimbs hothers)
    · exact ⟨_, _, hm.copy (Nat.le_refl _) _, rfl, hne⟩

theorem emodInt_exact (hl : (s lhs).Canonical) (hr : (s rhs).Canonical) :
    Exact s result ((s rhs).toInt ≠ 0) ((s lhs).toInt % (s rhs).toInt)
      (emodInt result lhs rhs s) := by
  have hdivide := @remainderRounding_exact _ _ _ result _ _ (s lhs).negative hl hr
  rw [emodInt]
  cases hrun : remainderRounding result lhs rhs (s lhs).negative s with
  | error e =>
    obtain ⟨rfl, hzero⟩ := hdivide.of_error hrun
    exact Exact.abort fun hne => absurd hzero (SailInt.toInt_ne_zero_iff.mp hne)
  | ok s' =>
    obtain ⟨length, limbs, hm, rfl, hne⟩ := hdivide.of_ok hrun
    have hvalue : signed false (roundedRemainder (s lhs).negative (s lhs).magnitude
        (s rhs).magnitude) = (s lhs).toInt % (s rhs).toInt := (ediv_emod_signed _ _ hne).2.symm
    have hwritten := @exact_magnitude _ _ s result _ _ _ _ _ _
      (SailInt.toInt_ne_zero_iff.mpr hne) hm hvalue
    rw [ite_self] at hwritten
    exact hwritten

theorem fmodInt_exact (hl : (s lhs).Canonical) (hr : (s rhs).Canonical) :
    Exact s result ((s rhs).toInt ≠ 0) ((s lhs).toInt.fmod (s rhs).toInt)
      (fmodInt result lhs rhs s) := by
  have hdivide := @remainderRounding_exact _ _ _ result _ _
    ((s lhs).negative ^^ (s rhs).negative) hl hr
  rw [fmodInt]
  cases hrun : remainderRounding result lhs rhs ((s lhs).negative ^^ (s rhs).negative) s with
  | error e =>
    obtain ⟨rfl, hzero⟩ := hdivide.of_error hrun
    exact Exact.abort fun hne => absurd hzero (SailInt.toInt_ne_zero_iff.mp hne)
  | ok s' =>
    obtain ⟨length, limbs, hm, rfl, hne⟩ := hdivide.of_ok hrun
    simp only [ok_bind, setLength_negative, setLimbs_negative, setLength_length]
    exact exact_magnitude (SailInt.toInt_ne_zero_iff.mpr hne) hm (fdiv_fmod_signed _ _ hne).2.symm

end Exactness

end EvmSail.Runtime
