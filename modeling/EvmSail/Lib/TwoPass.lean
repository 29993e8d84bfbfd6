/-
# `EvmSail.Lib.TwoPass` — sizes first, then what is written

An encoder in two passes computes how much it will write, reserves that
much, writes, and compares.  Both passes are programs that may halt: the
first refuses what is too large, and the second computes again the sizes
it puts into headers.

`Returns e fits x a` says that `x` returns `a` exactly when it `fits`, and
else refuses with `e`; it composes along a program whose whole fits only if
its parts do (`Returns.bind`).  `Sizes e bound size out` is the case of a
first pass, which returns the length of `out` exactly when that is within
the bound, and `Writes` adds that the second pass then writes `out`.  An
encoder that `Writes` never fails the comparison (`Writes.finish`).
-/
import EvmSail.Lib.Fallible

namespace TwoPass

open Fallible

variable {ε α β γ δ : Type} {e : ε} {fits whole : Prop} {bound : Nat}

/-! ## Programs that return or refuse -/

/-- The program returns `a` when it fits, and refuses when it does not. -/
def Returns (e : ε) (fits : Prop) (x : Except ε γ) (a : γ) : Prop :=
  (fits → x = .ok a) ∧ (¬ fits → x = .error e)

theorem Returns.ok {a b : γ} (hfits : fits) (h : a = b) : Returns e fits (.ok a) b :=
  ⟨fun _ => congrArg Except.ok h, fun hno => absurd hfits hno⟩

theorem Returns.refuse {a : γ} (hno : ¬ fits) : Returns e fits (.error e) a :=
  ⟨fun hfits => absurd hfits hno, fun _ => rfl⟩

/-- First a part, and then the whole from the part. -/
theorem Returns.bind {x : Except ε γ} {a : γ} {f : γ → Except ε δ} {b : δ}
    (hpart : Returns e fits x a) (hle : whole → fits) (hwhole : fits → Returns e whole (f a) b) :
    Returns e whole (x >>= f) b := by
  by_cases hfits : fits
  · rw [hpart.1 hfits, ok_bind]
    exact hwhole hfits
  · rw [hpart.2 hfits, error_bind]
    exact .refuse fun hall => hfits (hle hall)

/-! ## First passes -/

/-- The first pass returns the length of `out` when it is within the bound. -/
abbrev Sizes (e : ε) (bound : Nat) (size : Except ε Nat) (out : List β) : Prop :=
  Returns e (out.length ≤ bound) size out.length

/-- A loop that adds up the sizes of its items. -/
theorem Sizes.foldlM {f : Nat → α → Except ε Nat} {item : α → List β}
    (hstep : ∀ (done : List β) x, Sizes e bound (f done.length x) (done ++ item x)) (xs : List α)
    (done : List β) (hdone : done.length ≤ bound) :
    Sizes e bound (xs.foldlM f done.length) (done ++ xs.flatMap item) := by
  induction xs generalizing done with
  | nil =>
    rw [List.foldlM_nil, List.flatMap_nil, List.append_nil]
    exact .ok hdone rfl
  | cons x xs ih =>
    rw [List.foldlM_cons, List.flatMap_cons, ← List.append_assoc]
    refine (hstep done x).bind (fun hall => ?_) fun hfirst => ih _ hfirst
    rw [List.length_append] at hall
    exact Nat.le_trans (Nat.le_add_right _ _) hall

/-! ## Both passes -/

/-- Whenever the first pass returns, the second writes `out`. -/
structure Writes (e : ε) (bound : Nat) (size : Except ε Nat) (write : Except ε (List β))
    (out : List β) : Prop where
  sizes : Sizes e bound size out
  write_eq : out.length ≤ bound → write = .ok out

/-- An exact encoder: it returns what is written, unless the first pass refuses.
It never gets to a comparison that fails. -/
theorem Writes.finish {size : Except ε Nat} {write : Except ε (List β)} {out : List β}
    (h : Writes e bound size write out) {compare : Nat → List β → Except ε (List β)}
    (hcompare : ∀ bs, compare bs.length bs = .ok bs) :
    Returns e (out.length ≤ bound) (size >>= fun n => write >>= fun bs => compare n bs) out := by
  refine h.sizes.bind id fun hfits => ?_
  rw [h.write_eq hfits, ok_bind, hcompare]
  exact .ok hfits rfl

end TwoPass
