/-
# `EvmSail.Lib.FakeExponential` — the integer exponential of a Taylor series

`e ^ (numerator / denominator)` by its Taylor series in integers: each
accumulator is the one before it times the numerator, divided by the
denominator and by its index, rounded down; the sum of the accumulators,
divided by the denominator, is the result.  The series is summed until an
accumulator is zero, which it becomes once the index has passed the
numerator.

A larger numerator gives a larger result (`fakeExponential_mono`), so a
bound at one numerator is a bound below it.  `sumBounded` is the sum in a
form that evaluates.
-/
import Mathlib

namespace FakeExponential

/-- The sum of the accumulators from index `i` on. -/
def sumFrom (numerator denominator i accum : Nat) : Nat :=
  if accum = 0 then 0
  else accum + sumFrom numerator denominator (i + 1) (accum * numerator / (denominator * i))
termination_by (numerator + 1 - i, accum)
decreasing_by
  rename_i hne
  rcases Nat.lt_or_ge i (numerator + 1) with hlt | hge
  · exact Prod.Lex.left _ _ (by omega)
  · -- behind the numerator the accumulators decrease
    have hindex : numerator + 1 - (i + 1) = numerator + 1 - i := by omega
    rw [hindex]
    refine Prod.Lex.right _ ?_
    rcases Nat.eq_zero_or_pos denominator with hd | hd
    · rw [hd, Nat.zero_mul, Nat.div_zero]
      exact Nat.pos_of_ne_zero hne
    · have hfactor : numerator < denominator * i :=
        Nat.lt_of_lt_of_le hge (Nat.le_mul_of_pos_left i hd)
      rw [Nat.div_lt_iff_lt_mul (Nat.zero_lt_of_lt hfactor)]
      exact Nat.mul_lt_mul_of_pos_left hfactor (Nat.pos_of_ne_zero hne)

/-- The integer exponential. -/
def fakeExponential (numerator denominator : Nat) : Nat :=
  sumFrom numerator denominator 1 denominator / denominator

@[simp] theorem sumFrom_zero (n d i : Nat) : sumFrom n d i 0 = 0 := by
  rw [sumFrom, if_pos rfl]

theorem sumFrom_pos {n d i a : Nat} (h : a ≠ 0) :
    sumFrom n d i a = a + sumFrom n d (i + 1) (a * n / (d * i)) := by
  rw [sumFrom, if_neg h]

/-- A larger accumulator and a larger numerator give a larger sum. -/
theorem sumFrom_mono {d n n' : Nat} (hn : n ≤ n') (i a a' : Nat) (ha : a ≤ a') :
    sumFrom n d i a ≤ sumFrom n' d i a' := by
  induction i, a' using sumFrom.induct n' d generalizing a with
  | case1 i =>
    rw [Nat.le_zero.mp ha, sumFrom_zero, sumFrom_zero]
  | case2 i a' hne ih =>
    rcases Nat.eq_zero_or_pos a with hzero | hpos
    · rw [hzero, sumFrom_zero]
      exact Nat.zero_le _
    · rw [sumFrom_pos (Nat.ne_of_gt hpos), sumFrom_pos hne]
      have hnext : a * n / (d * i) ≤ a' * n' / (d * i) :=
        Nat.div_le_div_right (Nat.mul_le_mul ha hn)
      exact Nat.add_le_add ha (ih _ hnext)

theorem fakeExponential_mono {d n n' : Nat} (hn : n ≤ n') :
    fakeExponential n d ≤ fakeExponential n' d :=
  Nat.div_le_div_right (sumFrom_mono hn 1 d d (Nat.le_refl d))

/-! ## Evaluation -/

/-- The sum of at most `fuel` accumulators, if it is the whole sum. -/
def sumBounded (numerator denominator : Nat) : Nat → Nat → Nat → Option Nat
  | 0, _, accum => if accum = 0 then some 0 else none
  | fuel + 1, i, accum =>
    if accum = 0 then some 0
    else (sumBounded numerator denominator fuel (i + 1)
      (accum * numerator / (denominator * i))).map (accum + ·)

theorem sumFrom_of_bounded {n d fuel i a s : Nat} (h : sumBounded n d fuel i a = some s) :
    sumFrom n d i a = s := by
  induction fuel generalizing i a s with
  | zero =>
    rw [sumBounded] at h
    split at h
    · rename_i hzero
      rw [hzero, sumFrom_zero]
      exact Option.some.inj h
    · cases h
  | succ fuel ih =>
    rw [sumBounded] at h
    split at h
    · rename_i hzero
      rw [hzero, sumFrom_zero]
      exact Option.some.inj h
    · rename_i hne
      obtain ⟨rest, hrest, hsum⟩ := Option.map_eq_some_iff.mp h
      rw [sumFrom_pos hne, ih hrest, hsum]

/-- What the evaluated sum satisfies, the exponential satisfies. -/
theorem fakeExponential_of_bounded {P : Nat → Prop} [DecidablePred P] {n d : Nat} (fuel : Nat)
    (h : ((sumBounded n d fuel 1 d).any fun s => decide (P (s / d))) = true) :
    P (fakeExponential n d) := by
  cases hs : sumBounded n d fuel 1 d with
  | none =>
    rw [hs] at h
    cases h
  | some s =>
    rw [hs] at h
    rw [fakeExponential, sumFrom_of_bounded hs]
    exact of_decide_eq_true h

end FakeExponential
