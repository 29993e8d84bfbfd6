/-
# `EvmSail.Lib.SignMagnitude` — integers as a sign and a magnitude

`signed negative m` is the integer with the magnitude `m`.  What the
operations on integers do to sign and magnitude is stated here once: sums,
products and powers, and the three conventions of division (towards zero,
Euclidean, floor), whose quotient and remainder differ from those of the
magnitudes exactly when there is a remainder and the signs ask for it.
-/
import Mathlib.Tactic.Ring
import Mathlib.Tactic.Linarith
import Mathlib.Algebra.Order.Ring.Int

namespace SignMagnitude

/-- The integer with a sign and a magnitude. -/
def signed (negative : Bool) (m : Nat) : Int := if negative then -(m : Int) else m

@[simp] theorem signed_false (m : Nat) : signed false m = m := rfl

@[simp] theorem signed_true (m : Nat) : signed true m = -(m : Int) := rfl

@[simp] theorem signed_zero (negative : Bool) : signed negative 0 = 0 := by
  cases negative <;> rfl

@[simp] theorem natAbs_signed (negative : Bool) (m : Nat) : (signed negative m).natAbs = m := by
  cases negative
  · exact Int.natAbs_natCast m
  · exact (Int.natAbs_neg _).trans (Int.natAbs_natCast m)

variable {a b : Nat} (na nb : Bool)

theorem signed_eq_zero_iff : signed na a = 0 ↔ a = 0 := by
  cases na
  · exact Int.natCast_eq_zero
  · exact Int.neg_eq_zero.trans Int.natCast_eq_zero

theorem signed_not (m : Nat) : signed (!na) m = -signed na m := by
  cases na
  · rfl
  · exact (Int.neg_neg _).symm

theorem signed_add (m n : Nat) : signed na (m + n) = signed na m + signed na n := by
  cases na
  · exact Int.natCast_add m n
  · rw [signed_true, signed_true, signed_true, Int.natCast_add, Int.neg_add]

/-- A difference of magnitudes takes the sign of the larger one. -/
theorem signed_sub (h : b ≤ a) : signed na (a - b) = signed na a + signed (!na) b := by
  obtain ⟨c, rfl⟩ := Nat.exists_eq_add_of_le h
  rw [Nat.add_sub_cancel_left, signed_add, signed_not]
  ring

theorem signed_mul (m n : Nat) : signed na m * signed nb n = signed (na ^^ nb) (m * n) := by
  cases na <;> cases nb <;> simp

/-! ## Division -/

/-- The magnitude of a quotient that is rounded away from zero when `up`. -/
def roundedQuotient (up : Bool) (a b : Nat) : Nat := if up ∧ a % b ≠ 0 then a / b + 1 else a / b

/-- The magnitude of the remainder that goes with it. -/
def roundedRemainder (up : Bool) (a b : Nat) : Nat := if up ∧ a % b ≠ 0 then b - a % b else a % b

/-- The two together give back the dividend. -/
theorem rounded_split (up : Bool) (h : b ≠ 0) :
    (b : Int) * roundedQuotient up a b + signed up (roundedRemainder up a b) = a := by
  have hsplit : (b : Int) * (a / b : Nat) + (a % b : Nat) = a := by
    exact_mod_cast Nat.div_add_mod a b
  rw [roundedQuotient, roundedRemainder]
  split
  · rename_i hup
    have hle : a % b ≤ b := Nat.le_of_lt (Nat.mod_lt a (Nat.pos_of_ne_zero h))
    rw [hup.1, signed_true, Int.natCast_sub hle, Int.natCast_add, Int.natCast_one]
    linarith
  · rename_i hdown
    rcases Bool.eq_false_or_eq_true up with hup | hup
    · have hzero : a % b = 0 := not_not.mp fun hne => hdown ⟨hup, hne⟩
      rw [hzero] at hsplit ⊢
      rw [signed_zero]
      exact hsplit
    · rw [hup, signed_false]
      exact hsplit

theorem roundedRemainder_lt (up : Bool) (h : b ≠ 0) : roundedRemainder up a b < b := by
  have hlt := Nat.mod_lt a (Nat.pos_of_ne_zero h)
  rw [roundedRemainder]
  split
  · rename_i hup
    exact Nat.sub_lt (Nat.pos_of_ne_zero h) (Nat.pos_of_ne_zero hup.2)
  · exact hlt

theorem tdiv_signed (m n : Nat) : (signed na m).tdiv (signed nb n) = signed (na ^^ nb) (m / n) := by
  cases na <;> cases nb <;> simp

theorem tmod_signed (m n : Nat) : (signed na m).tmod (signed nb n) = signed na (m % n) := by
  have hmod : (m : Int).tmod n = (m % n : Nat) := (Int.ofNat_tmod m n).symm
  cases na <;> cases nb <;> simp only [signed_true, signed_false, Int.neg_tmod, Int.tmod_neg, hmod]

/-- Euclidean division rounds a negative dividend away from zero. -/
theorem ediv_emod_signed (h : b ≠ 0) :
    signed na a / signed nb b = signed (na ^^ nb) (roundedQuotient na a b) ∧
      signed na a % signed nb b = roundedRemainder na a b := by
  have hpos : 0 < (b : Int) := Int.natCast_pos.mpr (Nat.pos_of_ne_zero h)
  have hlt : (roundedRemainder na a b : Int) < b := Int.ofNat_lt.mpr (roundedRemainder_lt na h)
  have hsplit := rounded_split (a := a) na h
  have hunique : signed na a / b = signed na (roundedQuotient na a b) ∧
      signed na a % b = roundedRemainder na a b := by
    refine (Int.ediv_emod_unique hpos).mpr ⟨?_, Int.natCast_nonneg _, hlt⟩
    cases na
    · simp only [signed_false] at hsplit ⊢
      linarith
    · simp only [signed_true] at hsplit ⊢
      linarith
  cases nb
  · rw [signed_false, Bool.xor_false]
    exact hunique
  · rw [signed_true, Bool.xor_true, signed_not, Int.ediv_neg, Int.emod_neg, hunique.1]
    exact ⟨rfl, hunique.2⟩

/-- Floor division rounds a negative quotient away from zero. -/
theorem fdiv_fmod_signed (h : b ≠ 0) :
    (signed na a).fdiv (signed nb b) =
        signed (na ^^ nb) (roundedQuotient (na ^^ nb) a b) ∧
      (signed na a).fmod (signed nb b) = signed nb (roundedRemainder (na ^^ nb) a b) := by
  have hpos : 0 < (b : Int) := Int.natCast_pos.mpr (Nat.pos_of_ne_zero h)
  have hbelow : ∀ negative, (signed negative a).fdiv b =
        signed negative (roundedQuotient negative a b) ∧
      (signed negative a).fmod b = roundedRemainder negative a b := by
    intro negative
    have hlt : (roundedRemainder negative a b : Int) < b :=
      Int.ofNat_lt.mpr (roundedRemainder_lt negative h)
    have hsplit := rounded_split (a := a) negative h
    refine (Int.fdiv_fmod_unique hpos).mpr ⟨?_, Int.natCast_nonneg _, hlt⟩
    cases negative
    · simp only [signed_false] at hsplit ⊢
      linarith
    · simp only [signed_true] at hsplit ⊢
      linarith
  cases nb
  · rw [signed_false, Bool.xor_false, signed_false]
    exact hbelow na
  · have hflip : signed na a = -signed (!na) a := by rw [signed_not, Int.neg_neg]
    rw [signed_true, Bool.xor_true, hflip, Int.neg_fdiv_neg, Int.neg_fmod_neg,
      (hbelow (!na)).1, (hbelow (!na)).2]
    exact ⟨rfl, rfl⟩

end SignMagnitude
