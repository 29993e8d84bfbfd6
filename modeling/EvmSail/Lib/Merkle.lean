/-
# `EvmSail.Lib.Merkle` — roots of complete binary trees

`root combine d leaf` is the root of the complete binary tree over the
`2 ^ d` leaves `leaf 0, leaf 1, …`.  Nothing about it is abbreviated: a
subtree of padding is computed like any other.  The facts a streamed
computation rests on are that a tree of equal leaves has the iterated root
(`root_const`), and that a list padded to a complete tree splits into the
two halves of the list (`root_padded_left`, `root_padded_append`).
-/
import Mathlib

namespace Merkle

variable {α : Type*} (combine : α → α → α)

/-- The root of the complete tree over `2 ^ d` leaves. -/
def root : Nat → (Nat → α) → α
  | 0, leaf => leaf 0
  | d + 1, leaf => combine (root d leaf) (root d fun i => leaf (2 ^ d + i))

/-- The root of the complete tree whose leaves are all `zero`. -/
def zeroRoot (zero : α) : Nat → α
  | 0 => zero
  | d + 1 => combine (zeroRoot zero d) (zeroRoot zero d)

/-- A list of leaves, padded without end. -/
def padded (zero : α) (leaves : List α) (i : Nat) : α := leaves.getD i zero

theorem root_const (zero : α) (d : Nat) :
    root combine d (fun _ => zero) = zeroRoot combine zero d := by
  induction d with
  | zero => rfl
  | succ d ih => rw [root, zeroRoot, ih]

/-- Only the leaves below `2 ^ d` matter. -/
theorem root_congr {d : Nat} {f g : Nat → α} (h : ∀ i, i < 2 ^ d → f i = g i) :
    root combine d f = root combine d g := by
  induction d generalizing f g with
  | zero => exact h 0 (by simp)
  | succ d ih =>
    have hpow : 2 ^ (d + 1) = 2 ^ d + 2 ^ d := by
      rw [Nat.pow_succ]
      omega
    rw [root, root, ih fun i hi => h i (by omega), ih fun i hi => h (2 ^ d + i) (by omega)]

variable {combine} {zero : α}

theorem padded_of_le {leaves : List α} {i : Nat} (h : leaves.length ≤ i) :
    padded zero leaves i = zero := by
  rw [padded, List.getD_eq_getElem?_getD, List.getElem?_eq_none h, Option.getD_none]

theorem root_padded_nil (d : Nat) : root combine d (padded zero []) = zeroRoot combine zero d := by
  rw [← root_const]
  rfl

/-- A list that fits the left half leaves the right one to the padding. -/
theorem root_padded_left {d : Nat} {leaves : List α} (h : leaves.length ≤ 2 ^ d) :
    root combine (d + 1) (padded zero leaves) =
      combine (root combine d (padded zero leaves)) (zeroRoot combine zero d) := by
  rw [root, ← root_const]
  congr 1
  refine root_congr combine fun i _ => ?_
  exact padded_of_le (by omega)

/-- A list that fills the left half continues in the right one. -/
theorem root_padded_append {d : Nat} {left right : List α} (h : left.length = 2 ^ d) :
    root combine (d + 1) (padded zero (left ++ right)) =
      combine (root combine d (padded zero left)) (root combine d (padded zero right)) := by
  rw [root]
  congr 1
  · refine root_congr combine fun i hi => ?_
    rw [padded, padded, List.getD_eq_getElem?_getD, List.getD_eq_getElem?_getD,
      List.getElem?_append_left (by omega)]
  · refine root_congr combine fun i _ => ?_
    rw [padded, padded, List.getD_eq_getElem?_getD, List.getD_eq_getElem?_getD,
      List.getElem?_append_right (by omega), h, Nat.add_sub_cancel_left]

/-- The depth of the smallest complete tree with `n` leaves is the number
of binary digits of `n - 1`. -/
theorem size_pred_eq_clog (n : Nat) : (n - 1).size = Nat.clog 2 n := by
  refine Nat.le_antisymm ?_ ?_
  · rw [Nat.size_le]
    have hle := Nat.le_pow_clog Nat.one_lt_two n
    have hpos := Nat.two_pow_pos (Nat.clog 2 n)
    omega
  · rw [Nat.clog_le_iff_le_pow Nat.one_lt_two]
    have hlt := Nat.lt_size_self (n - 1)
    omega

end Merkle
