/-
# `EvmSail.Lib.Nesting` — machines that suspend and resume

One activation is active; below it is a stack of continuations, one for each
activation that waits.  A step is local to the active activation, suspends
it and starts a child, or ends the active one and resumes the next.

`Step` is the machine as it runs, one step after another.  `Spans` is what
happens to one activation: local steps, and whole calls as if they were one.
The two agree (`steps_iff_spine`), so that what is to hold of runs can be
shown by induction on calls: `Spans.inside` is the rule, which is given what
the child did when it asks what the call does.
-/
import Mathlib.Logic.Relation
import Mathlib.Order.Defs.Unbundled

open Relation

variable {A K : Type}

/-- What the steps of a machine do.  `enters a k c` suspends `a` as `k` and
starts `c`; `resumes d k a` ends `d` and has `k` go on as `a`. -/
structure Nesting (A K : Type) where
  stays : A → A → Prop
  enters : A → K → A → Prop
  resumes : A → K → A → Prop

namespace Nesting

variable (N : Nesting A K)

inductive Step : A × List K → A × List K → Prop
  | stays {a b : A} {ks : List K} (h : N.stays a b) : Step (a, ks) (b, ks)
  | enters {a c : A} {k : K} {ks : List K} (h : N.enters a k c) : Step (a, ks) (c, k :: ks)
  | resumes {d a : A} {k : K} {ks : List K} (h : N.resumes d k a) : Step (d, k :: ks) (a, ks)

abbrev Steps : A × List K → A × List K → Prop := ReflTransGen N.Step

/-- The life of one activation. -/
inductive Spans : A → A → Prop
  | refl (a : A) : Spans a a
  | stays {a b c : A} (h : Spans a b) (hstep : N.stays b c) : Spans a c
  | calls {a b c d e : A} {k : K} (h : Spans a b) (henter : N.enters b k c) (hchild : Spans c d)
      (hresume : N.resumes d k e) : Spans a e

/-- The activations that wait, each below the one it has started. -/
inductive Spine (a₀ : A) : List K → A → Prop
  | bottom {a : A} (h : N.Spans a₀ a) : Spine a₀ [] a
  | above {ks : List K} {b c a : A} {k : K} (hbelow : Spine a₀ ks b) (henter : N.enters b k c)
      (h : N.Spans c a) : Spine a₀ (k :: ks) a

variable {N}

/-! ## Runs are spans -/

/-- The activation on top goes on. -/
theorem Spine.stays {a₀ a b : A} {ks : List K} (h : N.Spine a₀ ks a) (hstep : N.stays a b) :
    N.Spine a₀ ks b := by
  cases h with
  | bottom h => exact .bottom (h.stays hstep)
  | above hbelow henter h => exact .above hbelow henter (h.stays hstep)

/-- The activation below it has made a call. -/
theorem Spine.resumes {a₀ d a : A} {k : K} {ks : List K} (h : N.Spine a₀ (k :: ks) d)
    (hresume : N.resumes d k a) : N.Spine a₀ ks a := by
  cases h with
  | above hbelow henter hchild =>
    cases hbelow with
    | bottom h => exact .bottom (h.calls henter hchild hresume)
    | above hbelow' henter' h => exact .above hbelow' henter' (h.calls henter hchild hresume)

theorem Spine.step {a₀ : A} {m m' : A × List K} (h : N.Spine a₀ m.2 m.1) (hstep : N.Step m m') :
    N.Spine a₀ m'.2 m'.1 := by
  cases hstep with
  | stays hstays => exact h.stays hstays
  | enters henters => exact .above h henters (.refl _)
  | resumes hresumes => exact h.resumes hresumes

theorem Spans.steps {a b : A} (h : N.Spans a b) (ks : List K) : N.Steps (a, ks) (b, ks) := by
  induction h generalizing ks with
  | refl a => exact .refl
  | stays _ hstep ih => exact (ih ks).tail (.stays hstep)
  | @calls a b c d e k _ henter _ hresume ih ihchild =>
    have hcall : N.Steps (b, ks) (d, k :: ks) := (ihchild (k :: ks)).head (.enters henter)
    exact (ih ks).trans (hcall.tail (.resumes hresume))

/-- A machine that started with nothing suspended has come to `a` over `ks`
exactly when each continuation waits for the activation above it. -/
theorem steps_iff_spine {a₀ a : A} {ks : List K} :
    N.Steps (a₀, []) (a, ks) ↔ N.Spine a₀ ks a := by
  constructor
  · intro h
    have hspine : ∀ m : A × List K, N.Steps (a₀, []) m → N.Spine a₀ m.2 m.1 := by
      intro m hm
      induction hm with
      | refl => exact .bottom (.refl a₀)
      | tail _ hstep ih => exact ih.step hstep
    exact hspine (a, ks) h
  · intro h
    induction h with
    | bottom h => exact h.steps []
    | above _ henter h ih => exact (ih.tail (.enters henter)).trans (h.steps _)

/-- A machine that is back where nothing is suspended has run through one
activation. -/
theorem spans_of_steps {a₀ a : A} (h : N.Steps (a₀, []) (a, [])) : N.Spans a₀ a := by
  cases steps_iff_spine.mp h with
  | bottom h => exact h

/-- A run goes on into a call, to the end of the child, -/
theorem steps_called {m : A × List K} {b c d : A} {k : K} {ks : List K}
    (hrun : N.Steps m (b, ks)) (henter : N.enters b k c) (hchild : N.Spans c d) :
    N.Steps m (d, k :: ks) :=
  (hrun.tail (.enters henter)).trans (hchild.steps (k :: ks))

/-- and over it. -/
theorem steps_resumed {m : A × List K} {b c d e : A} {k : K} {ks : List K}
    (hrun : N.Steps m (b, ks)) (henter : N.enters b k c) (hchild : N.Spans c d)
    (hresume : N.resumes d k e) : N.Steps m (e, ks) :=
  (steps_called hrun henter hchild).tail (.resumes hresume)

/-! ## The rule of nested calls -/

/-- What local steps and calls do is inside a preorder, when a call is so
for a child that is. -/
theorem Spans.inside {R : A → A → Prop} [Std.Refl R] [IsTrans A R]
    (hstays : ∀ a b, N.stays a b → R a b)
    (hcalls : ∀ b k c d e, N.enters b k c → N.Spans c d → R c d → N.resumes d k e → R b e)
    {a b : A} (h : N.Spans a b) : R a b := by
  induction h with
  | refl a => exact Std.Refl.refl a
  | stays _ hstep ih => exact IsTrans.trans _ _ _ ih (hstays _ _ hstep)
  | calls _ henter hchild hresume ih ihchild =>
    exact IsTrans.trans _ _ _ ih (hcalls _ _ _ _ _ henter hchild ihchild hresume)

/-- What a first activation has, what runs keep and what children start with
is had by every activation that a run comes to. -/
theorem Spine.invariant {I : A → Prop} (hspans : ∀ a b, N.Spans a b → I a → I b)
    (henters : ∀ a k c, N.enters a k c → I a → I c) {a₀ a : A} {ks : List K}
    (h : N.Spine a₀ ks a) (h₀ : I a₀) : I a := by
  induction h with
  | bottom h => exact hspans _ _ h h₀
  | above _ henter h ih => exact hspans _ _ h (henters _ _ _ henter ih)

/-! ## Runs of chosen activations -/

/-- The machine, as far as all that it comes to are activations of `P`. -/
def within (N : Nesting A K) (P : A → Prop) : Nesting A K where
  stays a b := N.stays a b ∧ P b
  enters a k c := N.enters a k c ∧ P c
  resumes d k a := N.resumes d k a ∧ P a

theorem Step.within {P : A → Prop} {m m' : A × List K} (h : N.Step m m') (hP : P m'.1) :
    (N.within P).Step m m' := by
  cases h with
  | stays h => exact .stays ⟨h, hP⟩
  | enters h => exact .enters ⟨h, hP⟩
  | resumes h => exact .resumes ⟨h, hP⟩

theorem Step.of_within {P : A → Prop} {m m' : A × List K} (h : (N.within P).Step m m') :
    N.Step m m' := by
  cases h with
  | stays h => exact .stays h.1
  | enters h => exact .enters h.1
  | resumes h => exact .resumes h.1

theorem steps_of_within {P : A → Prop} {m m' : A × List K} (h : (N.within P).Steps m m') :
    N.Steps m m' := ReflTransGen.mono (fun _ _ hstep => Step.of_within hstep) _ _ h

theorem Spans.of_within {P : A → Prop} {a b : A} (h : (N.within P).Spans a b) : N.Spans a b := by
  induction h with
  | refl a => exact .refl a
  | stays _ hstep ih => exact ih.stays hstep.1
  | calls _ henter _ hresume ih ihchild => exact ih.calls henter.1 ihchild hresume.1

theorem Spans.chosen {P : A → Prop} {a b : A} (h : (N.within P).Spans a b) (ha : P a) : P b := by
  cases h with
  | refl => exact ha
  | stays _ hstep => exact hstep.2
  | calls _ _ _ hresume => exact hresume.2

end Nesting
