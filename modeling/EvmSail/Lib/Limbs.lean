/-
# `EvmSail.Lib.Limbs` — positional arithmetic on limb arrays

The value of the first `n` limbs of an array in base `b`, and what the
loops of schoolbook arithmetic keep about it.  An array is a function on
indices; only the limbs below a length matter.

  * `iterate` is the counting loop, with its invariant rule;
  * `carry_step` and `borrow_step` are the step of every loop that walks up
    an array with a carry: addition, subtraction, doubling, a row of a
    product;
  * `Dividing` is the invariant of binary long division, with its step.
-/
import Mathlib.Algebra.BigOperators.Intervals
import Mathlib.Tactic.Ring
import Mathlib.Tactic.Linarith

namespace Limbs

/-! ## Counting loops -/

section Iterate

variable {σ : Type}

/-- `for (i = 0; i < n; i++) body`. -/
def iterate (body : Nat → σ → σ) : Nat → σ → σ
  | 0, s => s
  | n + 1, s => body n (iterate body n s)

theorem iterate_inv {body : Nat → σ → σ} (I : Nat → σ → Prop) {n : Nat}
    (step : ∀ i s, i < n → I i s → I (i + 1) (body i s)) {s : σ} (hs : I 0 s) :
    I n (iterate body n s) := by
  induction n with
  | zero => exact hs
  | succ n ih =>
    have hn := ih fun i s hi => step i s (Nat.lt_succ_of_lt hi)
    exact step n _ (Nat.lt_succ_self n) hn

/-- `for (i = n - 1; i >= 0; i--) body`. -/
def iterateDown (body : Nat → σ → σ) : Nat → σ → σ
  | 0, s => s
  | n + 1, s => iterateDown body n (body n s)

theorem iterateDown_inv {body : Nat → σ → σ} (I : Nat → σ → Prop) {n : Nat}
    (step : ∀ i s, i < n → I (i + 1) s → I i (body i s)) {s : σ} (hs : I n s) :
    I 0 (iterateDown body n s) := by
  induction n generalizing s with
  | zero => exact hs
  | succ n ih =>
    exact ih (fun i s hi => step i s (Nat.lt_succ_of_lt hi)) (step n s (Nat.lt_succ_self n) hs)

end Iterate

/-! ## Values -/

/-- The value of the first `n` limbs in base `b`. -/
def value (b : Nat) (d : Nat → Nat) (n : Nat) : Nat := ∑ i ∈ Finset.range n, d i * b ^ i

variable {b : Nat} {d e : Nat → Nat} {n m : Nat}

@[simp] theorem value_zero : value b d 0 = 0 := rfl

theorem value_succ (n : Nat) : value b d (n + 1) = value b d n + d n * b ^ n :=
  Finset.sum_range_succ _ _

theorem value_congr (h : ∀ i < n, d i = e i) : value b d n = value b e n := by
  refine Finset.sum_congr rfl ?_
  intro i hi
  rw [h i (Finset.mem_range.mp hi)]

/-- Zero limbs on top do not count. -/
theorem value_of_zeros (hnm : n ≤ m) (h : ∀ i, n ≤ i → i < m → d i = 0) :
    value b d m = value b d n := by
  induction m, hnm using Nat.le_induction with
  | base => rfl
  | succ m hm ih =>
    rw [value_succ, h m hm (Nat.lt_succ_self m), Nat.zero_mul, Nat.add_zero]
    exact ih fun i hi him => h i hi (Nat.lt_succ_of_lt him)

theorem value_mono (hnm : n ≤ m) : value b d n ≤ value b d m := by
  induction m, hnm using Nat.le_induction with
  | base => exact Nat.le_refl _
  | succ m hm ih =>
    rw [value_succ]
    exact Nat.le_trans ih (Nat.le_add_right _ _)

theorem value_lt (h : ∀ i < n, d i < b) : value b d n < b ^ n := by
  induction n with
  | zero => exact Nat.one_pos
  | succ n ih =>
    have hlow := ih fun i hi => h i (Nat.lt_succ_of_lt hi)
    have htop : (d n + 1) * b ^ n ≤ b * b ^ n := Nat.mul_le_mul_right _ (h n (Nat.lt_succ_self n))
    rw [value_succ, Nat.pow_succ, Nat.mul_comm (b ^ n)]
    linarith

/-- A limb that is not zero makes the value at least its weight. -/
theorem pow_le_value {i : Nat} (b : Nat) (hi : i < n) (h : d i ≠ 0) :
    b ^ i ≤ value b d n := by
  refine Nat.le_trans ?_ (value_mono hi)
  rw [value_succ]
  exact Nat.le_trans (Nat.le_mul_of_pos_left _ (Nat.pos_of_ne_zero h)) (Nat.le_add_left _ _)

theorem value_eq_zero (h : value b d n = 0) (hb : 0 < b) : ∀ i < n, d i = 0 := by
  intro i hi
  by_contra hne
  have hle := pow_le_value b hi hne
  exact absurd (Nat.lt_of_lt_of_le (Nat.pow_pos hb) hle) (h ▸ Nat.lt_irrefl 0)

theorem value_ne_zero_iff (hb : 0 < b) : value b d n ≠ 0 ↔ ∃ i < n, d i ≠ 0 := by
  constructor
  · intro hne
    by_contra hnone
    refine hne (Finset.sum_eq_zero ?_)
    intro i hi
    have hzero : d i = 0 := not_not.mp fun h => hnone ⟨i, Finset.mem_range.mp hi, h⟩
    rw [hzero, Nat.zero_mul]
  · rintro ⟨i, hi, hne⟩ hzero
    exact hne (value_eq_zero hzero hb i hi)

/-- The value above a limb. -/
theorem value_add (k n : Nat) :
    value b d (k + n) = value b d k + b ^ k * value b (fun i => d (k + i)) n := by
  induction n with
  | zero => rfl
  | succ n ih =>
    rw [← Nat.add_assoc, value_succ, ih, value_succ, Nat.pow_add]
    ring

/-- A written limb replaces its summand. -/
theorem value_update {i v : Nat} (hi : i < n) :
    value b (Function.update d i v) n + d i * b ^ i = value b d n + v * b ^ i := by
  induction n with
  | zero => cases hi
  | succ n ih =>
    rw [value_succ, value_succ]
    rcases Nat.lt_succ_iff_lt_or_eq.mp hi with hlt | rfl
    · rw [Function.update_of_ne (Nat.ne_of_gt hlt)]
      have := ih hlt
      linarith
    · have hlow : value b (Function.update d i v) i = value b d i :=
        value_congr fun j hj => Function.update_of_ne (Nat.ne_of_lt hj) v d
      rw [hlow, Function.update_self]
      ring

/-- The limbs of a value are its digits. -/
theorem value_div_mod (h : ∀ i < n, d i < b) {i : Nat} (hi : i < n) :
    value b d n / b ^ i % b = d i := by
  have hb : 0 < b := Nat.lt_of_le_of_lt (Nat.zero_le _) (h i hi)
  have hlow : value b d i < b ^ i := value_lt fun j hj => h j (Nat.lt_trans hj hi)
  have hsplit : ∃ q, value b d n = value b d (i + 1) + b ^ (i + 1) * q := by
    clear hlow
    induction n, hi using Nat.le_induction with
    | base => exact ⟨0, by rw [Nat.mul_zero, Nat.add_zero]⟩
    | succ n hn ih =>
      obtain ⟨q, hq⟩ := ih fun j hj => h j (Nat.lt_succ_of_lt hj)
      obtain ⟨k, rfl⟩ := Nat.exists_eq_add_of_le hn
      refine ⟨q + d (i.succ + k) * b ^ k, ?_⟩
      rw [value_succ, hq, Nat.pow_add b i.succ k, Nat.succ_eq_add_one]
      ring
  obtain ⟨q, hq⟩ := hsplit
  have hdiv : value b d n / b ^ i = d i + b * q := by
    rw [hq, value_succ, Nat.pow_succ, Nat.mul_assoc, Nat.add_assoc, Nat.mul_comm (d i),
      ← Nat.mul_add, Nat.add_mul_div_left _ _ (Nat.pow_pos hb), Nat.div_eq_of_lt hlow, Nat.zero_add]
  rw [hdiv, Nat.add_mul_mod_self_left, Nat.mod_eq_of_lt (h i hi)]

/-! ## Steps of the loops -/

/-- One limb of a loop with a carry: `out` and the new carry take up the
limb's input and the old carry. -/
theorem carry_step {i x out carry carry' total : Nat} (h : value b d i + carry * b ^ i = total)
    (hstep : out + b * carry' = x + carry) (hd : d i = out) :
    value b d (i + 1) + carry' * b ^ (i + 1) = total + x * b ^ i := by
  rw [value_succ, hd, ← h, Nat.pow_succ]
  have hscale := congrArg (· * b ^ i) hstep
  simp only [Nat.add_mul] at hscale
  linarith

/-- One limb of a subtraction. -/
theorem borrow_step {i x y out borrow borrow' : Nat} {X Y : Nat}
    (h : value b d i + Y = X + borrow * b ^ i)
    (hstep : out + y + borrow = x + b * borrow') (hd : d i = out) :
    value b d (i + 1) + (Y + y * b ^ i) = X + x * b ^ i + borrow' * b ^ (i + 1) := by
  rw [value_succ, hd, Nat.pow_succ]
  have hscale := congrArg (· * b ^ i) hstep
  simp only [Nat.add_mul] at hscale
  linarith

/-- The invariant of binary long division of `v` by `q`'s divisor, above
the bit `k`. -/
structure Dividing (v divisor k quotient remainder : Nat) : Prop where
  split : quotient * divisor + remainder * 2 ^ k + v % 2 ^ k = v
  small : remainder < divisor
  aligned : 2 ^ k ∣ quotient

/-- One bit of a long division. -/
theorem Dividing.step {v divisor k quotient remainder : Nat}
    (h : Dividing v divisor (k + 1) quotient remainder) {shifted : Nat}
    (hs : shifted = 2 * remainder + v / 2 ^ k % 2) :
    (divisor ≤ shifted → Dividing v divisor k (quotient + 2 ^ k) (shifted - divisor)) ∧
      (shifted < divisor → Dividing v divisor k quotient shifted) := by
  have hbit : v % 2 ^ (k + 1) = v % 2 ^ k + 2 ^ k * (v / 2 ^ k % 2) := Nat.mod_pow_succ
  have hsplit : quotient * divisor + shifted * 2 ^ k + v % 2 ^ k = v := by
    have := h.split
    rw [hbit, Nat.pow_succ] at this
    rw [hs]
    linarith
  have hdvd : 2 ^ k ∣ quotient := Nat.dvd_trans (Nat.pow_dvd_pow 2 (Nat.le_succ k)) h.aligned
  constructor
  · intro hle
    refine ⟨?_, ?_, Nat.dvd_add hdvd (Nat.dvd_refl _)⟩
    · obtain ⟨r, rfl⟩ := Nat.exists_eq_add_of_le hle
      rw [Nat.add_sub_cancel_left]
      linarith
    · have hsmall := h.small
      have hmod := Nat.mod_lt (v / 2 ^ k) (show 0 < 2 by decide)
      omega
  · intro hlt
    exact ⟨hsplit, hlt, hdvd⟩

/-- At the last bit the division is done. -/
theorem Dividing.done {v divisor quotient remainder : Nat}
    (h : Dividing v divisor 0 quotient remainder) :
    quotient = v / divisor ∧ remainder = v % divisor := by
  have hsplit := h.split
  rw [Nat.pow_zero, Nat.mul_one, Nat.mod_one, Nat.add_zero] at hsplit
  have hpos : 0 < divisor := Nat.lt_of_le_of_lt (Nat.zero_le _) h.small
  have hq := Nat.div_mod_unique hpos |>.mpr ⟨show remainder + divisor * quotient = v by linarith,
    h.small⟩
  exact ⟨hq.1.symm, hq.2.symm⟩

/-- Bits above the value are zero: the division may start there. -/
theorem Dividing.start {v divisor k : Nat} (hd : 0 < divisor) (hk : v < 2 ^ k) :
    Dividing v divisor k 0 0 :=
  ⟨by rw [Nat.mod_eq_of_lt hk]; ring, hd, Nat.dvd_zero _⟩

end Limbs
