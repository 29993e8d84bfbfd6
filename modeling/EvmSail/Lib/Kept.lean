/-
# `EvmSail.Lib.Kept` — programs that keep a preorder on states

What a stateful program can do to its state is often said by a preorder:
`R s s'` when `s'` can come about from `s`.  A `Kept R` program is a
program together with the proof that it stays inside `R`.  The proof is
composed along with the program, so that whatever is written with `do`
over kept programs is kept, and nothing is left to prove about it:

  * `Kept R ε` is a monad for every preorder `R`;
  * `weaken` takes a program to a coarser preorder (`Finer` preorders are
    lifted without a word);
  * `run_bind_eq_ok` inverts a sequence.
-/
import EvmSail.Lib.Fallible
import Mathlib.Order.Defs.Unbundled

open Fallible

variable {σ ε α β : Type}

/-- A program on states `σ` that leads from each state to one that `R`
relates it to, unless it halts. -/
@[ext] structure Kept (R : σ → σ → Prop) (ε α : Type) where
  run : σ → Except ε (α × σ)
  keeps : ∀ s a s', run s = .ok (a, s') → R s s'

namespace Kept

/-- A change of the state that `R` allows. -/
def change {R : σ → σ → Prop} (f : σ → σ) (hf : ∀ s, R s (f s)) : Kept R ε Unit where
  run s := .ok ((), f s)
  keeps s a s' h := by
    cases h
    exact hf s

section

variable {R : σ → σ → Prop} [IsPreorder σ R]

/-- Returns without touching the state. -/
def ret (a : α) : Kept R ε α where
  run s := .ok (a, s)
  keeps s a' s' h := by
    cases h
    exact Std.Refl.refl s

/-- One program after another. -/
def andThen (x : Kept R ε α) (f : α → Kept R ε β) : Kept R ε β where
  run s := x.run s >>= fun r => (f r.1).run r.2
  keeps s b s' h := by
    obtain ⟨r, hx, hf⟩ := bind_eq_ok.mp h
    exact IsTrans.trans _ _ _ (x.keeps _ _ _ hx) ((f r.1).keeps _ _ _ hf)

instance : Monad (Kept R ε) where
  pure := ret
  bind := andThen

instance : LawfulMonad (Kept R ε) :=
  LawfulMonad.mk' (Kept R ε)
    (fun x => Kept.ext (funext fun s => bind_ok_right (x.run s)))
    (fun _ _ => rfl)
    (fun x f g => Kept.ext (funext fun s => bind_assoc_except (x.run s) _ _))

/-- Looks at the state. -/
def ask (f : σ → α) : Kept R ε α where
  run s := .ok (f s, s)
  keeps s a s' h := by
    cases h
    exact Std.Refl.refl s

/-- A computation that depends on the state and leaves it. -/
def query (f : σ → Except ε α) : Kept R ε α where
  run s := f s >>= fun a => .ok (a, s)
  keeps s a s' h := by
    obtain ⟨a', -, h⟩ := bind_eq_ok.mp h
    cases h
    exact Std.Refl.refl s

theorem run_ask (f : σ → α) (s : σ) : (ask f : Kept R ε α).run s = .ok (f s, s) := rfl

theorem run_query (f : σ → Except ε α) (s : σ) :
    (query f : Kept R ε α).run s = f s >>= fun a => .ok (a, s) := rfl

theorem run_bind (x : Kept R ε α) (f : α → Kept R ε β) (s : σ) :
    (x >>= f).run s = x.run s >>= fun r => (f r.1).run r.2 := rfl

/-- A sequence returns exactly when both of its parts do. -/
theorem run_bind_eq_ok {x : Kept R ε α} {f : α → Kept R ε β} {s s' : σ} {b : β} :
    (x >>= f).run s = .ok (b, s') ↔
      ∃ a s₁, x.run s = .ok (a, s₁) ∧ (f a).run s₁ = .ok (b, s') := by
  rw [run_bind, bind_eq_ok]
  constructor
  · rintro ⟨r, hx, hf⟩
    exact ⟨r.1, r.2, hx, hf⟩
  · rintro ⟨a, s₁, hx, hf⟩
    exact ⟨(a, s₁), hx, hf⟩

theorem run_query_bind_eq_ok {x : σ → Except ε α} {f : α → Kept R ε β} {s : σ} {r : β × σ} :
    (query x >>= f).run s = .ok r ↔ ∃ a, x s = .ok a ∧ (f a).run s = .ok r := by
  rw [run_bind, run_query, bind_assoc_except, bind_eq_ok]
  simp only [ok_bind]

end

/-- The same program, said to keep a coarser preorder. -/
def weaken {R R' : σ → σ → Prop} (h : ∀ s s', R s s' → R' s s') (x : Kept R ε α) :
    Kept R' ε α where
  run := x.run
  keeps s a s' hx := h s s' (x.keeps s a s' hx)

/-- `R` allows less than `R'`. -/
class Finer (R R' : σ → σ → Prop) : Prop where
  imp : ∀ s s', R s s' → R' s s'

instance (R : σ → σ → Prop) : Finer R R := ⟨fun _ _ h => h⟩

section

variable {R R' : σ → σ → Prop} [Finer R R']

instance : MonadLiftT (Kept R ε) (Kept R' ε) where
  monadLift x := weaken Finer.imp x

end

end Kept
