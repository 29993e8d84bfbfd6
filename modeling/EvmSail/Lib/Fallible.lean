/-
# `EvmSail.Lib.Fallible` — loops and partial information in `Except`

A program that can halt early is a function into `Except ε`.  Three things
about such programs recur in every part of the development and are
stated here once, for arbitrary states and halts:

  * a measured `while` loop (`loop`) with its invariant rule
    (`loop_inv`), and the same rule for a bounded `foreach`
    (`foreach_inv`);
  * the triple `Ends P E x` — "`x` returns only values in `P` and halts
    only with errors in `E`" — composed along `>>=`;
  * the order `UpTo e x y` — "`x` is what `y` returns, or `x` halted
    with `e`" — which every program construct preserves.  It is how one
    says that a program run on LESS information can only lose its answer,
    never change it.
-/
import Mathlib.Data.List.Basic
import Mathlib.Data.List.Forall2
import Mathlib.Data.List.Induction
import Mathlib.Logic.Basic
import Mathlib.Tactic.Common

namespace Fallible

variable {ε α β σ : Type}

/-! ## Sequencing -/

@[simp] theorem ok_bind (a : α) (f : α → Except ε β) :
    ((Except.ok a : Except ε α) >>= f) = f a := rfl

@[simp] theorem error_bind (e : ε) (f : α → Except ε β) :
    ((Except.error e : Except ε α) >>= f) = .error e := rfl

@[simp] theorem pure_eq_ok (a : α) : (pure a : Except ε α) = .ok a := rfl

/-- A sequence returns exactly when both of its parts do. -/
theorem bind_eq_ok {x : Except ε α} {f : α → Except ε β} {b : β} :
    (x >>= f) = .ok b ↔ ∃ a, x = .ok a ∧ f a = .ok b := by
  cases x with
  | error e => simp
  | ok a => simp

theorem bind_ok_right (x : Except ε α) : (x >>= fun a => .ok a) = x := by
  cases x <;> rfl

/-- A traversal returns exactly when every visit does. -/
theorem mapM_eq_ok {f : α → Except ε β} {as : List α} {bs : List β} :
    as.mapM f = .ok bs ↔ List.Forall₂ (fun a b => f a = .ok b) as bs := by
  induction as generalizing bs with
  | nil =>
    rw [List.mapM_nil, List.forall₂_nil_left_iff]
    constructor
    · intro h
      exact (Except.ok.inj h).symm
    · intro h
      rw [h]
      rfl
  | cons a as ih =>
    rw [List.mapM_cons]
    constructor
    · intro h
      obtain ⟨b, hb, hrest⟩ := bind_eq_ok.mp h
      obtain ⟨bs', hbs, hok⟩ := bind_eq_ok.mp hrest
      rw [← Except.ok.inj hok]
      exact .cons hb (ih.mp hbs)
    · intro h
      cases h with
      | cons hb hbs => rw [hb, ok_bind, ih.mpr hbs, ok_bind, pure_eq_ok]

/-- A traversal returns something when every visit does. -/
theorem exists_mapM_eq_ok {f : α → Except ε β} {as : List α} :
    (∃ bs, as.mapM f = .ok bs) ↔ ∀ a ∈ as, ∃ b, f a = .ok b := by
  induction as with
  | nil => exact ⟨fun _ a ha => absurd ha List.not_mem_nil, fun _ => ⟨[], rfl⟩⟩
  | cons a as ih =>
    rw [List.forall_mem_cons, ← ih, List.mapM_cons]
    constructor
    · rintro ⟨bs, h⟩
      obtain ⟨b, hb, h⟩ := bind_eq_ok.mp h
      obtain ⟨rest, hrest, _⟩ := bind_eq_ok.mp h
      exact ⟨⟨b, hb⟩, rest, hrest⟩
    · rintro ⟨⟨b, hb⟩, rest, hrest⟩
      exact ⟨b :: rest, by rw [hb, ok_bind, hrest]; rfl⟩

/-- The same for `Option`. -/
theorem exists_mapM_eq_some {f : α → Option β} {as : List α} (h : ∀ a ∈ as, ∃ b, f a = some b) :
    ∃ bs, as.mapM f = some bs := by
  induction as with
  | nil => exact ⟨[], rfl⟩
  | cons a as ih =>
    obtain ⟨b, hb⟩ := h a List.mem_cons_self
    obtain ⟨bs, hbs⟩ := ih fun a ha => h a (List.mem_cons_of_mem _ ha)
    refine ⟨b :: bs, ?_⟩
    rw [List.mapM_cons, hb, hbs]
    rfl

/-- What a traversal of an `Option` has at a position. -/
theorem mapM_eq_some_getElem? {f : α → Option β} {as : List α} {bs : List β}
    (h : as.mapM f = some bs) {i : Nat} {a : α} (hi : as[i]? = some a) :
    ∃ b, bs[i]? = some b ∧ f a = some b := by
  induction as generalizing bs i with
  | nil => cases hi
  | cons a' as ih =>
    rw [List.mapM_cons] at h
    obtain ⟨b, hb, h⟩ := Option.bind_eq_some_iff.mp h
    obtain ⟨rest, hrest, h⟩ := Option.bind_eq_some_iff.mp h
    cases h
    cases i with
    | zero =>
      cases hi
      exact ⟨b, rfl, hb⟩
    | succ i => exact ih hrest hi

theorem bind_assoc_except {γ : Type} (x : Except ε α) (f : α → Except ε β)
    (g : β → Except ε γ) : ((x >>= f) >>= g) = (x >>= fun a => f a >>= g) := by
  cases x <;> rfl

/-! ## Measured loops -/

/-- `while cond do body`, for a body that strictly decreases `measure`
whenever it returns from a state on which the loop continues. -/
def loop (cond : σ → Bool) (body : σ → Except ε σ) (measure : σ → Nat)
    (dec : ∀ s s', cond s = true → body s = .ok s' → measure s' < measure s)
    (s : σ) : Except ε σ :=
  if _h : cond s = true then
    match _hb : body s with
    | .error e => .error e
    | .ok s' => loop cond body measure dec s'
  else
    .ok s
termination_by measure s
decreasing_by exact dec s s' _h _hb

section Loop

variable {cond : σ → Bool} {body : σ → Except ε σ} {measure : σ → Nat}
  {dec : ∀ s s', cond s = true → body s = .ok s' → measure s' < measure s}

theorem loop_done {s : σ} (h : cond s = false) :
    loop cond body measure dec s = .ok s := by
  rw [loop, dif_neg (by simp [h])]

theorem loop_step {s : σ} (h : cond s = true) :
    loop cond body measure dec s =
      body s >>= loop cond body measure dec := by
  rw [loop, dif_pos h]
  split
  · rename_i e hb
    rw [hb, error_bind]
  · rename_i s' hb
    rw [hb, ok_bind]

/-- The invariant rule: a body that always returns from invariant states,
and keeps the invariant, makes the loop return in an invariant state on
which it stops. -/
theorem loop_inv
    (dec : ∀ s s', cond s = true → body s = .ok s' → measure s' < measure s) (I : σ → Prop)
    (step : ∀ s, I s → cond s = true → ∃ s', body s = .ok s' ∧ I s')
    (s : σ) (hs : I s) :
    ∃ s', loop cond body measure dec s = .ok s' ∧ I s' ∧ cond s' = false := by
  induction hn : measure s using Nat.strongRecOn generalizing s with
  | _ n ih =>
    cases hc : cond s with
    | false => exact ⟨s, loop_done hc, hs, hc⟩
    | true =>
      obtain ⟨s', hb, hs'⟩ := step s hs hc
      rw [loop_step hc, hb, ok_bind]
      exact ih (measure s') (hn ▸ dec s s' hc hb) s' hs' rfl

end Loop

/-! ## Bounded iteration -/

/-- `foreach i from 0 to n - 1`. -/
def foreach (n : Nat) (body : Fin n → σ → Except ε σ) (s : σ) : Except ε σ :=
  (List.finRange n).foldlM (fun s i => body i s) s

theorem foldlM_finRange_inv {n : Nat} {body : Fin n → σ → Except ε σ}
    (I : Nat → σ → Prop)
    (step : ∀ (i : Fin n) s, I i s → ∃ s', body i s = .ok s' ∧ I (i + 1) s')
    (k : Nat) (hk : k ≤ n) (s : σ) (hs : I (n - k) s) :
    ∃ s', ((List.finRange n).drop (n - k)).foldlM (fun s i => body i s) s = .ok s' ∧
      I n s' := by
  induction k generalizing s with
  | zero =>
    refine ⟨s, ?_, by simpa using hs⟩
    rw [List.drop_eq_nil_of_le (by simp)]
    rfl
  | succ k ih =>
    have hlt : n - (k + 1) < n := by omega
    obtain ⟨s₁, hb, h₁⟩ := step ⟨n - (k + 1), hlt⟩ s hs
    have hnext : n - (k + 1) + 1 = n - k := by omega
    obtain ⟨s', hf, hI⟩ := ih (by omega) s₁ (by simpa [hnext] using h₁)
    refine ⟨s', ?_, hI⟩
    rw [List.drop_eq_getElem_cons (by simpa using hlt), List.foldlM_cons]
    simp only [List.getElem_finRange, Fin.cast_mk, hb, ok_bind, hnext]
    exact hf

/-- The invariant rule of `foreach`, indexed by the number of rounds
already run. -/
theorem foreach_inv {n : Nat} (body : Fin n → σ → Except ε σ)
    (I : Nat → σ → Prop)
    (step : ∀ (i : Fin n) s, I i s → ∃ s', body i s = .ok s' ∧ I (i + 1) s')
    (s : σ) (hs : I 0 s) :
    ∃ s', foreach n body s = .ok s' ∧ I n s' := by
  have h := foldlM_finRange_inv I step n (Nat.le_refl n) s (by simpa using hs)
  simpa [foreach] using h

/-- Iteration over the positions of a list is iteration over the list. -/
theorem foldlM_range {f : β → Nat → Except ε β} {g : β → α → Except ε β} (l : List α)
    (h : ∀ b i a, l[i]? = some a → f b i = g b a) (b : β) :
    (List.range l.length).foldlM f b = l.foldlM g b := by
  induction l using List.reverseRecOn with
  | nil => rfl
  | append_singleton l a ih =>
    have hinit : (List.range l.length).foldlM f b = l.foldlM g b := by
      refine ih fun b i a' ha' => h b i a' ?_
      rw [List.getElem?_append_left (List.getElem?_eq_some_iff.mp ha').1, ha']
    have hlast : ∀ b, f b l.length = g b a := by
      intro b
      refine h b l.length a ?_
      rw [List.getElem?_append_right (Nat.le_refl _), Nat.sub_self]
      rfl
    rw [List.length_append, List.length_singleton, List.range_succ, List.foldlM_append,
      List.foldlM_append, hinit]
    simp only [List.foldlM_cons, List.foldlM_nil, hlast]

/-! ## What a program can end with -/

/-- `x` returns only values in `P` and halts only with errors in `E`. -/
def Ends (P : α → Prop) (E : ε → Prop) : Except ε α → Prop
  | .ok a => P a
  | .error e => E e

namespace Ends

variable {P : α → Prop} {Q : β → Prop} {E : ε → Prop}

@[simp] theorem ok {a : α} : Ends P E (.ok a) ↔ P a := Iff.rfl

@[simp] theorem error {e : ε} : Ends P E (.error e : Except ε α) ↔ E e := Iff.rfl

/-- The rule of sequencing. -/
theorem bind {x : Except ε α} {f : α → Except ε β} (hx : Ends P E x)
    (hf : ∀ a, P a → Ends Q E (f a)) : Ends Q E (x >>= f) := by
  cases x with
  | error e => exact hx
  | ok a => exact hf a hx

/-- The rule of consequence. -/
theorem mono {P' : α → Prop} {x : Except ε α} (hx : Ends P E x) (h : ∀ a, P a → P' a) :
    Ends P' E x := by
  cases x with
  | error e => exact hx
  | ok a => exact h a hx

theorem ite {c : Prop} [Decidable c] {x y : Except ε α} (hx : c → Ends P E x)
    (hy : ¬ c → Ends P E y) : Ends P E (if c then x else y) := by
  split
  · exact hx ‹_›
  · exact hy ‹_›

theorem of_ok {x : Except ε α} {a : α} (h : Ends P E x) (hx : x = .ok a) : P a := by
  rw [hx] at h
  exact h

theorem of_error {x : Except ε α} {e : ε} (h : Ends P E x) (hx : x = .error e) : E e := by
  rw [hx] at h
  exact h

/-- What holds of every value that is returned. -/
theorem of_forall_ok {x : Except ε α} (h : ∀ a, x = .ok a → P a) : Ends P (fun _ => True) x := by
  cases x with
  | error e => trivial
  | ok a => exact h a rfl

/-- An invariant of every step is one of the loop. -/
theorem foldlM {f : α → β → Except ε α} {bs : List β}
    (hf : ∀ a, ∀ b ∈ bs, P a → Ends P E (f a b)) {a : α} (ha : P a) :
    Ends P E (bs.foldlM f a) := by
  induction bs generalizing a with
  | nil => exact ha
  | cons b bs ih =>
    refine (hf a b List.mem_cons_self ha).bind fun _ ha' => ?_
    exact ih (fun a b hb => hf a b (List.mem_cons_of_mem _ hb)) ha'

theorem foreach {n : Nat} {f : Fin n → α → Except ε α} (I : Nat → α → Prop)
    (hf : ∀ (i : Fin n) a, I i a → Ends (I (i + 1)) E (f i a)) {a : α} (ha : I 0 a) :
    Ends (I n) E (Fallible.foreach n f a) := by
  have hfrom : ∀ k ≤ n, ∀ a, I (n - k) a →
      Ends (I n) E (((List.finRange n).drop (n - k)).foldlM (fun a i => f i a) a) := by
    intro k
    induction k with
    | zero =>
      intro _ a ha
      rw [List.drop_eq_nil_of_le (by simp)]
      exact ha
    | succ k ih =>
      intro hk a ha
      have hlt : n - (k + 1) < n := by omega
      have hnext : n - (k + 1) + 1 = n - k := by omega
      rw [List.drop_eq_getElem_cons (by simpa using hlt), List.foldlM_cons, hnext,
        List.getElem_finRange]
      have hstep := hf ⟨n - (k + 1), hlt⟩ a ha
      rw [hnext] at hstep
      exact hstep.bind fun a' ha' => ih (by omega) a' ha'
  simpa [Fallible.foreach] using hfrom n (Nat.le_refl n) a (by simpa using ha)

/-- An invariant of the body is one of the loop, which ends when its
condition fails. -/
theorem loop {cond : α → Bool} {body : α → Except ε α} {measure : α → Nat}
    {dec : ∀ a a', cond a = true → body a = .ok a' → measure a' < measure a}
    (hbody : ∀ a, P a → cond a = true → Ends P E (body a)) {a : α} (ha : P a) :
    Ends (fun a' => P a' ∧ cond a' = false) E (Fallible.loop cond body measure dec a) := by
  induction hn : measure a using Nat.strongRecOn generalizing a with
  | _ n ih =>
    cases hc : cond a with
    | false =>
      rw [loop_done hc]
      exact ⟨ha, hc⟩
    | true =>
      rw [loop_step hc]
      have hb := hbody a ha hc
      cases hbody' : body a with
      | error e => exact hb.of_error hbody'
      | ok a' => exact ih (measure a') (hn ▸ dec a a' hc hbody') (hb.of_ok hbody') rfl

end Ends

/-! ## Losing information -/

/-- `UpTo e x y`: `x` returns what `y` returns, or `x` halted with `e`. -/
def UpTo (e : ε) (x y : Except ε α) : Prop :=
  x = .error e ∨ x = y

namespace UpTo

variable {e : ε}

theorem refl (x : Except ε α) : UpTo e x x := Or.inr rfl

theorem halted (y : Except ε α) : UpTo e (.error e) y := Or.inl rfl

theorem of_eq {x y : Except ε α} (h : x = y) : UpTo e x y := Or.inr h

/-- A returned answer is the answer. -/
theorem ok_eq {x y : Except ε α} {a : α} (h : UpTo e x y) (hx : x = .ok a) :
    y = .ok a := by
  rcases h with h | h
  · rw [h] at hx
    cases hx
  · rw [← h, hx]

theorem bind {x y : Except ε α} {f g : α → Except ε β}
    (h : UpTo e x y) (hf : ∀ a, UpTo e (f a) (g a)) :
    UpTo e (x >>= f) (y >>= g) := by
  rcases h with rfl | rfl
  · exact halted _
  · cases x with
    | error e' => exact refl _
    | ok a => exact hf a

theorem bind_left {x y : Except ε α} {f : α → Except ε β} (h : UpTo e x y) :
    UpTo e (x >>= f) (y >>= f) :=
  h.bind fun _ => refl _

theorem bind_right {x : Except ε α} {f g : α → Except ε β}
    (h : ∀ a, UpTo e (f a) (g a)) : UpTo e (x >>= f) (x >>= g) :=
  (refl x).bind h

theorem ite {c : Prop} [Decidable c] {x y x' y' : Except ε α}
    (h : UpTo e x y) (h' : UpTo e x' y') :
    UpTo e (if c then x else x') (if c then y else y') := by
  split
  · exact h
  · exact h'

theorem foldlM {f g : σ → α → Except ε σ} (h : ∀ s a, UpTo e (f s a) (g s a))
    (l : List α) (s : σ) : UpTo e (l.foldlM f s) (l.foldlM g s) := by
  induction l generalizing s with
  | nil => exact refl _
  | cons a l ih =>
    simp only [List.foldlM_cons]
    exact (h s a).bind ih

theorem foreach {n : Nat} {f g : Fin n → σ → Except ε σ}
    (h : ∀ i s, UpTo e (f i s) (g i s)) (s : σ) :
    UpTo e (Fallible.foreach n f s) (Fallible.foreach n g s) :=
  foldlM (fun s i => h i s) _ s

theorem loop {cond : σ → Bool} {body body' : σ → Except ε σ}
    {measure : σ → Nat}
    {dec : ∀ s s', cond s = true → body s = .ok s' → measure s' < measure s}
    {dec' : ∀ s s', cond s = true → body' s = .ok s' → measure s' < measure s}
    (h : ∀ s, UpTo e (body s) (body' s)) (s : σ) :
    UpTo e (Fallible.loop cond body measure dec s)
      (Fallible.loop cond body' measure dec' s) := by
  induction hn : measure s using Nat.strongRecOn generalizing s with
  | _ n ih =>
    cases hc : cond s with
    | false =>
      rw [loop_done hc, loop_done hc]
      exact refl _
    | true =>
      rw [loop_step hc, loop_step hc]
      rcases h s with hb | hb
      · rw [hb]
        exact halted _
      · rw [← hb]
        cases hx : body s with
        | error e' => exact refl _
        | ok s' => exact ih (measure s') (hn ▸ dec s s' hc hx) s' rfl

end UpTo

end Fallible
