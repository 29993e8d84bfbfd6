/-
# `EvmSail.Lib.Producing` — loops that hand over what they produce

A loop makes one item in each round and hands it to a consumer at once,
which may refuse it and so stop the loop.  The consumer keeps a state of
its own; the state of the loop does not depend on it.

Consumed in this way the items come to the same as the list of them
folded by the consumer: `handOver_loop` says so of any stretch of rounds,
`handOver_loop_eq_ok` of every loop that returns.
-/
import EvmSail.Lib.Fallible

namespace Fallible

variable {ε σ β δ : Type}

/-- Some rounds lead from `s` to `s'` and produce the items on the way, the
first one first. -/
inductive Produces (cond : σ → Bool) (step : σ → Except ε (σ × β)) : σ → List β → σ → Prop
  | refl (s : σ) : Produces cond step s [] s
  | item {s s₁ s' : σ} {b : β} {bs : List β} : cond s = true → step s = .ok (s₁, b) →
      Produces cond step s₁ bs s' → Produces cond step s (b :: bs) s'

/-- One round: the item is handed over as soon as it is there. -/
def handOver (step : σ → Except ε (σ × β)) (consume : δ → β → Except ε δ) (s : σ × δ) :
    Except ε (σ × δ) := do
  let produced ← step s.1
  let d ← consume s.2 produced.2
  .ok (produced.1, d)

theorem handOver_eq_ok {step : σ → Except ε (σ × β)} {consume : δ → β → Except ε δ}
    {s s' : σ × δ} : handOver step consume s = .ok s' ↔
      ∃ b, step s.1 = .ok (s'.1, b) ∧ consume s.2 b = .ok s'.2 := by
  constructor
  · intro h
    obtain ⟨produced, hstep, h⟩ := bind_eq_ok.mp h
    obtain ⟨d, hconsume, h⟩ := bind_eq_ok.mp h
    cases h
    exact ⟨produced.2, hstep, hconsume⟩
  · rintro ⟨b, hstep, hconsume⟩
    rw [handOver, hstep, ok_bind, hconsume, ok_bind]

section

variable {cond : σ → Bool} {step : σ → Except ε (σ × β)} {consume : δ → β → Except ε δ}
  {measure : σ × δ → Nat}
  {dec : ∀ s s' : σ × δ, cond s.1 = true → handOver step consume s = .ok s' →
    measure s' < measure s}

theorem handOver_loop_done {s : σ} {d : δ} (h : cond s = false) :
    loop (fun s : σ × δ => cond s.1) (handOver step consume) measure dec (s, d) = .ok (s, d) :=
  loop_done h

theorem handOver_loop_step {s : σ} {d : δ} (h : cond s = true) :
    loop (fun s : σ × δ => cond s.1) (handOver step consume) measure dec (s, d) =
      handOver step consume (s, d) >>=
        loop (fun s : σ × δ => cond s.1) (handOver step consume) measure dec :=
  loop_step h

/-- Over a stretch of rounds, handing over is folding. -/
theorem handOver_loop {s s' : σ} {bs : List β} (h : Produces cond step s bs s') (d : δ) :
    loop (fun s : σ × δ => cond s.1) (handOver step consume) measure dec (s, d) =
      bs.foldlM consume d >>= fun d' =>
        loop (fun s : σ × δ => cond s.1) (handOver step consume) measure dec (s', d') := by
  induction h generalizing d with
  | refl s => rfl
  | @item s s₁ s' b bs hcond hstep _ ih =>
    rw [handOver_loop_step hcond, List.foldlM_cons]
    cases hconsume : consume d b with
    | error e =>
      have hround : handOver step consume (s, d) = .error e := by
        rw [handOver, hstep, ok_bind, hconsume, error_bind]
      rw [hround, error_bind, error_bind, error_bind]
    | ok d₁ =>
      have hround : handOver step consume (s, d) = .ok (s₁, d₁) :=
        handOver_eq_ok.mpr ⟨b, hstep, hconsume⟩
      rw [hround, ok_bind, ok_bind, ih]

/-- The loop returns exactly when it produces all of its items and the
consumer takes them. -/
theorem handOver_loop_eq_ok {s s' : σ} {d d' : δ} :
    loop (fun s : σ × δ => cond s.1) (handOver step consume) measure dec (s, d) = .ok (s', d') ↔
      ∃ bs, Produces cond step s bs s' ∧ cond s' = false ∧ bs.foldlM consume d = .ok d' := by
  constructor
  · intro h
    induction hn : measure (s, d) using Nat.strongRecOn generalizing s d with
    | _ n ih =>
      cases hcond : cond s with
      | false =>
        rw [handOver_loop_done hcond] at h
        cases h
        exact ⟨[], .refl _, hcond, rfl⟩
      | true =>
        rw [handOver_loop_step hcond] at h
        obtain ⟨⟨s₁, d₁⟩, hround, hloop⟩ := bind_eq_ok.mp h
        obtain ⟨b, hstep, hconsume⟩ := handOver_eq_ok.mp hround
        obtain ⟨bs, hproduces, hdone, hfold⟩ := ih _ (hn ▸ dec _ _ hcond hround) hloop rfl
        refine ⟨b :: bs, .item hcond hstep hproduces, hdone, ?_⟩
        rw [List.foldlM_cons, hconsume, ok_bind]
        exact hfold
  · rintro ⟨bs, hproduces, hdone, hfold⟩
    rw [handOver_loop hproduces, hfold, ok_bind, handOver_loop_done hdone]

end

/-- What every round relates to its item, the run relates to all of them. -/
theorem Produces.rel {cond : σ → Bool} {step : σ → Except ε (σ × β)} {R : σ → List β → σ → Prop}
    (hrefl : ∀ s, R s [] s)
    (hstep : ∀ s s₁ s' b bs, step s = .ok (s₁, b) → R s₁ bs s' → R s (b :: bs) s') {s s' : σ}
    {bs : List β} (h : Produces cond step s bs s') : R s bs s' := by
  induction h with
  | refl s => exact hrefl s
  | item _ hround _ ih => exact hstep _ _ _ _ _ hround ih

end Fallible
