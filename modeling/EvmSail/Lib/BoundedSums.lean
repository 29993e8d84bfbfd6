/-
# `EvmSail.Lib.BoundedSums` — sums over any finite part

A family of amounts over a type that need not be finite has no sum, but it
can be bounded: `SumsWithin f n` says that the amounts of any finitely many
indices add up to at most `n`.  Amounts are integers, so that a bound can
also go down.

Everything rests on one rule (`SumsWithin.change`): when the amount of one
index changes and is not negative then, the bound changes by the same.  That
is all there is to moving an amount from one index to another
(`SumsWithin.move`).
-/
import Mathlib.Algebra.BigOperators.Group.Finset.Basic
import Mathlib.Algebra.Order.BigOperators.Group.Finset
import Mathlib.Tactic.Linarith

variable {ι : Type} {f g : ι → Int} {m n : Int}

/-- The amounts of finitely many indices are at most `n`. -/
def SumsWithin (f : ι → Int) (n : Int) : Prop := ∀ S : Finset ι, ∑ i ∈ S, f i ≤ n

namespace SumsWithin

theorem le (h : SumsWithin f n) (i : ι) : f i ≤ n := by
  have hsingle := h {i}
  rwa [Finset.sum_singleton] at hsingle

/-- Smaller amounts, and a larger bound. -/
theorem mono (h : SumsWithin f n) (hfg : ∀ i, g i ≤ f i) (hn : n ≤ m) : SumsWithin g m :=
  fun S => ((Finset.sum_le_sum fun i _ => hfg i).trans (h S)).trans hn

theorem zero (hf : ∀ i, f i ≤ 0) (hn : 0 ≤ n) : SumsWithin f n :=
  fun _ => (Finset.sum_nonpos fun i _ => hf i).trans hn

theorem add (hf : SumsWithin f n) (hg : SumsWithin g m) :
    SumsWithin (fun i => f i + g i) (n + m) := fun S => by
  rw [Finset.sum_add_distrib]
  exact add_le_add (hf S) (hg S)

/-- What an index and the others have. -/
theorem split [DecidableEq ι] (h : SumsWithin f n) (i : ι) (S : Finset ι) :
    f i + ∑ j ∈ S.erase i, f j ≤ n := by
  have hinsert := h (insert i (S.erase i))
  rwa [Finset.sum_insert (Finset.notMem_erase i S)] at hinsert

theorem two (h : SumsWithin f n) {i j : ι} (hij : i ≠ j) : f i + f j ≤ n := by
  classical
  have hpair := h {i, j}
  rwa [Finset.sum_pair hij] at hpair

/-- The amount of one index changes, and the bound with it. -/
theorem change (h : SumsWithin f n) {i : ι} (hi : 0 ≤ g i) (hothers : ∀ j, j ≠ i → g j ≤ f j) :
    SumsWithin g (n + (g i - f i)) := by
  classical
  intro S
  have hsplit := h.split i S
  have hrest : ∑ j ∈ S.erase i, g j ≤ ∑ j ∈ S.erase i, f j :=
    Finset.sum_le_sum fun j hj => hothers j (Finset.ne_of_mem_erase hj)
  by_cases hmem : i ∈ S
  · rw [← Finset.add_sum_erase S g hmem]
    linarith
  · rw [Finset.erase_eq_of_notMem hmem] at hrest hsplit
    linarith

/-- Only one index has an amount. -/
theorem single [DecidableEq ι] (i : ι) (hn : 0 ≤ n) :
    SumsWithin (fun j => if j = i then n else 0) n := by
  have hnone : SumsWithin (fun _ : ι => 0) 0 := zero (fun _ => le_refl 0) (le_refl 0)
  have hchange := @change ι _ (fun j => if j = i then n else 0) 0 hnone i
    (by rwa [if_pos rfl]) fun j hj => by rw [if_neg hj]
  rwa [if_pos rfl, sub_zero, zero_add] at hchange

/-- What one index loses another one gains. -/
theorem move (h : SumsWithin f n) {i j : ι} {v : Int} (hij : i ≠ j) (hi : 0 ≤ g i)
    (hj : 0 ≤ g j) (hsource : g i = f i - v) (hdestination : g j = f j + v)
    (hothers : ∀ k, k ≠ i → k ≠ j → g k ≤ f k) : SumsWithin g n := by
  classical
  have hfirst : SumsWithin (Function.update f i (g i)) (n + (g i - f i)) := by
    have hchange := @change ι f (Function.update f i (g i)) n h i
      (by rwa [Function.update_self]) fun k hk => by rw [Function.update_of_ne hk]
    rwa [Function.update_self] at hchange
  have hsecond := hfirst.change hj fun k hk => by
    by_cases hki : k = i
    · rw [hki, Function.update_self]
    · rw [Function.update_of_ne hki]
      exact hothers k hki hk
  rw [Function.update_of_ne hij.symm, hsource, hdestination] at hsecond
  exact hsecond.mono (fun _ => le_refl _) (by linarith)

end SumsWithin
