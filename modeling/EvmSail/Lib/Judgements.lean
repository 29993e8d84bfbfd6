/-
# `EvmSail.Lib.Judgements` — where programs over a state lead

`Leads R x` says of a program that can halt that wherever it ends, `R`
relates the state to the one it started in.  With a preorder for `R` the
judgement follows the program: what holds of its parts holds of it, and
what holds of one step holds of many (`reflTransGen_inside`).

`Agrees I x y` compares two programs, from the states where an invariant
holds.

`Meets P x` says what a program does by its result: `P` relates the first
state, the result and the last state.  Programs that report a failure as an
ordinary result are judged so.  `P` need not be a preorder, only take a
step in front (`FollowsOn`).
-/
import EvmSail.Lib.Fallible
import Mathlib.Logic.Relation
import Mathlib.Order.Defs.Unbundled

open Fallible Relation

variable {σ ε α β : Type}

/-- Many steps stay inside a preorder that every step is inside of. -/
theorem reflTransGen_inside {R S : σ → σ → Prop} [Std.Refl R] [IsTrans σ R] {s s' : σ}
    (hs : ReflTransGen S s s') (h : ∀ s s', S s s' → R s s') : R s s' := by
  have hR := ReflTransGen.mono h s s' hs
  rwa [reflTransGen_eq_self] at hR

/-- A sequence ends where its second part does. -/
theorem bind_apply_eq_ok {x : StateT σ (Except ε) α} {f : α → StateT σ (Except ε) β} {s s' : σ}
    {b : β} : (x >>= f) s = .ok (b, s') ↔ ∃ a s₁, x s = .ok (a, s₁) ∧ f a s₁ = .ok (b, s') := by
  show (x s >>= fun r => f r.1 r.2) = .ok (b, s') ↔ _
  rw [bind_eq_ok]
  constructor
  · rintro ⟨r, hx, hf⟩
    exact ⟨r.1, r.2, hx, hf⟩
  · rintro ⟨a, s₁, hx, hf⟩
    exact ⟨(a, s₁), hx, hf⟩

/-- A computation that does not know the state leaves it. -/
theorem liftM_apply_eq_ok {x : Except ε α} {s s' : σ} {a : α} :
    (liftM x : StateT σ (Except ε) α) s = .ok (a, s') ↔ x = .ok a ∧ s' = s := by
  show (x >>= fun a => Except.ok (a, s)) = .ok (a, s') ↔ _
  cases x with
  | error e =>
    constructor
    · intro h
      cases h
    · rintro ⟨h, -⟩
      cases h
  | ok a' =>
    constructor
    · intro h
      cases h
      exact ⟨rfl, rfl⟩
    · rintro ⟨h, rfl⟩
      cases h
      rfl

/-- Wherever `x` ends, `R` relates it to where it started. -/
def Leads (R : σ → σ → Prop) (x : StateT σ (Except ε) α) : Prop :=
  ∀ s a s', x s = .ok (a, s') → R s s'

namespace Leads

variable {R R' : σ → σ → Prop}

theorem mono {x : StateT σ (Except ε) α} (hx : Leads R x) (h : ∀ s s', R s s' → R' s s') :
    Leads R' x := fun s a s' hrun => h s s' (hx s a s' hrun)

theorem pure [Std.Refl R] (a : α) : Leads R (Pure.pure a : StateT σ (Except ε) α) := by
  intro s a' s' h
  cases h
  exact Std.Refl.refl s

theorem get [Std.Refl R] : Leads R (MonadState.get : StateT σ (Except ε) σ) := by
  intro s a' s' h
  cases h
  exact Std.Refl.refl s

theorem lift [Std.Refl R] (x : Except ε α) :
    Leads R (liftM x : StateT σ (Except ε) α) := by
  intro s a s' h
  obtain ⟨-, rfl⟩ := liftM_apply_eq_ok.mp h
  exact Std.Refl.refl s'

theorem bind [IsTrans σ R] {x : StateT σ (Except ε) α} {f : α → StateT σ (Except ε) β}
    (hx : Leads R x) (hf : ∀ a, Leads R (f a)) : Leads R (x >>= f) := by
  intro s b s' h
  obtain ⟨a, s₁, hrun, hrest⟩ := bind_apply_eq_ok.mp h
  exact IsTrans.trans _ _ _ (hx s a s₁ hrun) (hf a s₁ b s' hrest)

theorem ite {c : Prop} [Decidable c] {x y : StateT σ (Except ε) α} (hx : Leads R x)
    (hy : Leads R y) : Leads R (if c then x else y) := by
  split
  · exact hx
  · exact hy

end Leads

/-- From the states of `I`, the programs do the same. -/
def Agrees (I : σ → Prop) (x y : StateT σ (Except ε) α) : Prop := ∀ s, I s → x s = y s

namespace Agrees

variable {I : σ → Prop}

theorem refl (x : StateT σ (Except ε) α) : Agrees I x x := fun _ _ => rfl

/-- One after the other they do so, where the first part leads. -/
theorem bind {J : α → σ → Prop} {x y : StateT σ (Except ε) α}
    {f g : α → StateT σ (Except ε) β} (hxy : Agrees I x y)
    (hy : ∀ s a s', I s → y s = .ok (a, s') → J a s') (hf : ∀ a, Agrees (J a) (f a) (g a)) :
    Agrees I (x >>= f) (y >>= g) := by
  intro s hs
  show (x s >>= fun r => f r.1 r.2) = (y s >>= fun r => g r.1 r.2)
  rw [hxy s hs]
  cases hrun : y s with
  | error e => rfl
  | ok r => exact hf r.1 r.2 (hy s r.1 r.2 hs hrun)

/-- Behind a common part. -/
theorem after {J : α → σ → Prop} {x : StateT σ (Except ε) α}
    {f g : α → StateT σ (Except ε) β} (hx : ∀ s a s', I s → x s = .ok (a, s') → J a s')
    (hf : ∀ a, Agrees (J a) (f a) (g a)) : Agrees I (x >>= f) (x >>= g) :=
  .bind (.refl x) hx hf

/-- Behind a computation that does not know the state. -/
theorem lift {x : Except ε α} {a : α} {f g : α → StateT σ (Except ε) β} (hx : x = .ok a)
    (hf : Agrees I (f a) (g a)) : Agrees I (liftM x >>= f) (liftM x >>= g) := by
  subst hx
  exact hf

/-- In front of a common part. -/
theorem before {x y : StateT σ (Except ε) α} (hxy : Agrees I x y)
    (f : α → StateT σ (Except ε) β) : Agrees I (x >>= f) (y >>= f) :=
  .bind (J := fun _ _ => True) hxy (fun _ _ _ _ _ => trivial) fun _ => .refl _

theorem ite {c : Prop} [Decidable c] {x x' y y' : StateT σ (Except ε) α} (hx : Agrees I x x')
    (hy : Agrees I y y') : Agrees I (if c then x else y) (if c then x' else y') := by
  split
  · exact hx
  · exact hy

end Agrees

/-- From a state that `Pre` admits, `P` relates the first state, the result
and the last state. -/
def Meets (Pre : σ → Prop) (P : σ → α → σ → Prop) (x : StateT σ (Except ε) α) : Prop :=
  ∀ s a s', Pre s → x s = .ok (a, s') → P s a s'

/-- `P` takes a step of `R` in front. -/
class FollowsOn (R : σ → σ → Prop) (P : σ → α → σ → Prop) : Prop where
  follow : ∀ (s s₁ : σ) (a : α) (s' : σ), R s s₁ → P s₁ a s' → P s a s'

namespace Meets

variable {R : σ → σ → Prop} {Pre Mid : σ → Prop} {P Q : σ → α → σ → Prop}

theorem mono {x : StateT σ (Except ε) α} (hx : Meets Pre P x)
    (h : ∀ s a s', P s a s' → Q s a s') : Meets Pre Q x :=
  fun s a s' hs hrun => h s a s' (hx s a s' hs hrun)

theorem ite {c : Prop} [Decidable c] {x y : StateT σ (Except ε) α} (hx : Meets Pre P x)
    (hy : Meets Pre P y) : Meets Pre P (if c then x else y) := by
  split
  · exact hx
  · exact hy

/-- What is done first leads from one precondition to the next. -/
theorem bind {P : σ → β → σ → Prop} [FollowsOn R P] {x : StateT σ (Except ε) α}
    {f : α → StateT σ (Except ε) β}
    (hx : ∀ s a s', Pre s → x s = .ok (a, s') → R s s' ∧ Mid s')
    (hf : ∀ a, Meets Mid P (f a)) : Meets Pre P (x >>= f) := by
  intro s b s' hs h
  obtain ⟨a, s₁, hrun, hrest⟩ := bind_apply_eq_ok.mp h
  obtain ⟨hR, hMid⟩ := hx s a s₁ hs hrun
  exact FollowsOn.follow s s₁ b s' hR (hf a s₁ b s' hMid hrest)

end Meets
