/-
# `EvmSail.Evm.SlotCounters` — counters that pay for slots

A transaction counts something, refunds or gas, for the slots it has
written.  Each live frame has its own counter: it starts at zero behind a
checkpoint, joins the counter below it when the frame commits, and is
dropped, with what the frame has stored, when it reverts.

`Secured` says that a total pays a price for every slot whose entry is of
some kind.  `Counted` keeps this for the counters of all the frames
together, whatever they do in between.
-/
import EvmSail.Kernel.Evolution

namespace EvmSail.Kernel

open Fallible Kept

/-- The total pays `price` for every slot of the transaction that is `held`. -/
def Secured (held : StorageValue → Prop) (price : Nat) (e : Effects) (total : Int) : Prop :=
  ∀ S : Finset StorageKey, (∀ key ∈ S, ∃ v, Holds e key v ∧ held v) →
    (price * S.card : Int) ≤ total

section

variable {held : StorageValue → Prop} {price : Nat} {e e' : Effects} {total total' : Int}

theorem Secured.nonneg (h : Secured held price e total) : 0 ≤ total := by
  have hempty := h ∅ fun key hkey => absurd hkey (Finset.notMem_empty key)
  rwa [Finset.card_empty, Nat.cast_zero, mul_zero] at hempty

/-- Nothing is to be paid when no slot is held. -/
theorem secured_zero (hnone : ∀ key v, Holds e key v → ¬held v) : Secured held price e 0 := by
  intro S hS
  have hempty : S = ∅ := Finset.eq_empty_of_forall_notMem fun key hkey => by
    obtain ⟨v, hv, hheld⟩ := hS key hkey
    exact hnone key v hv hheld
  rw [hempty, Finset.card_empty, Nat.cast_zero, mul_zero]

/-- Fewer slots and a higher total stay paid for. -/
theorem Secured.mono (h : Secured held price e total)
    (hkept : ∀ key v, Holds e' key v → Holds e key v) (htotal : total ≤ total') :
    Secured held price e' total' := by
  intro S hS
  refine (h S fun key hkey => ?_).trans htotal
  obtain ⟨v, hv, hheld⟩ := hS key hkey
  exact ⟨v, hkept key v hv, hheld⟩

/-- What an entry is worth. -/
def worth (held : StorageValue → Prop) [DecidablePred held] (price : Nat) (v : StorageValue) :
    Int :=
  if held v then price else 0

theorem worth_nonneg [DecidablePred held] (v : StorageValue) : 0 ≤ worth held price v := by
  rw [worth]
  split
  · exact Int.natCast_nonneg _
  · exact Int.le_refl 0

/-- A store is paid for by the rise of what the slot is worth. -/
theorem Secured.store [DecidablePred held] {key : StorageKey} {v : StorageValue} {new : Word}
    {delta : Int} (h : Secured held price e total) (hchanged : ∀ u, held u → u.curr ≠ u.orig)
    (hv : SlotReads e key v)
    (hstored : ∀ k u, Holds e' k u →
      k ≠ key ∧ Holds e k u ∨ k = key ∧ u.orig = v.orig ∧ u.curr = new)
    (hdelta : worth held price { curr := new, orig := v.orig } - worth held price v ≤ delta) :
    Secured held price e' (total + delta) := by
  intro S hS
  -- the slots other than this one were held before
  have hothers : ∀ k ∈ S.erase key, ∃ u, Holds e k u ∧ held u := by
    intro k hk
    obtain ⟨hne, hmem⟩ := Finset.mem_erase.mp hk
    obtain ⟨u, hu, hheld⟩ := hS k hmem
    rcases hstored k u hu with ⟨-, hu'⟩ | ⟨heq, -⟩
    · exact ⟨u, hu', hheld⟩
    · exact absurd heq hne
  have hnew : (price * S.card : Int) ≤
      price * (S.erase key).card + worth held price { curr := new, orig := v.orig } := by
    by_cases hmem : key ∈ S
    · obtain ⟨⟨curr, orig⟩, hu, hheld⟩ := hS key hmem
      rcases hstored key _ hu with ⟨hne, -⟩ | ⟨-, rfl, rfl⟩
      · exact absurd rfl hne
      · have hcard := Finset.card_erase_add_one hmem
        rw [worth, if_pos hheld, ← hcard]
        push_cast
        linarith
    · rw [Finset.erase_eq_of_notMem hmem]
      have hworth := @worth_nonneg held price _ { curr := new, orig := v.orig }
      linarith
  have hold : (price * (S.erase key).card : Int) + worth held price v ≤ total := by
    by_cases hheld : held v
    · have hall := h (insert key (S.erase key)) fun k hk => by
        rcases Finset.mem_insert.mp hk with rfl | hk
        · exact ⟨v, hv.holds (hchanged v hheld), hheld⟩
        · exact hothers k hk
      rw [Finset.card_insert_of_notMem (Finset.notMem_erase key S)] at hall
      push_cast at hall
      rw [worth, if_pos hheld]
      linarith
    · rw [worth, if_neg hheld, add_zero]
      exact h (S.erase key) hothers
  linarith

end

section

variable (env : Env) (held : StorageValue → Prop) (price : Nat)

/-- The counters pay for the slots, those of the parents already when the
frame was entered. -/
inductive Counted : List Int → Host → Prop
  | transaction {count : Int} {h : Host} : Coherent env h.state →
      Secured held price h.state.effects count → Counted [count] h
  | frame {count : Int} {parents : List Int} {h₀ h₁ h : Host} : Counted parents h₀ →
      stateJournalCheckpoint h₀ = .ok h₁ → Advanced env h₁ h →
      Secured held price h.state.effects (count + parents.sum) → Counted (count :: parents) h

end

section

variable {env : Env} {held : StorageValue → Prop} {price : Nat}

theorem Counted.coherent {counts : List Int} {h : Host} (hc : Counted env held price counts h) :
    Coherent env h.state := by
  cases hc with
  | transaction hcoherent _ => exact hcoherent
  | frame _ _ hframe _ => exact hframe.coherent

theorem Counted.secured {counts : List Int} {h : Host} (hc : Counted env held price counts h) :
    Secured held price h.state.effects counts.sum := by
  cases hc with
  | transaction _ hsecured =>
    rw [List.sum_singleton]
    exact hsecured
  | frame _ _ _ hsecured =>
    rw [List.sum_cons]
    exact hsecured

/-- The innermost frame moves on. -/
theorem Counted.move {count count' : Int} {parents : List Int} {h h' : Host}
    (hc : Counted env held price (count :: parents) h) (hadvanced : Advanced env h h')
    (hsecured : Secured held price h'.state.effects (count' + parents.sum)) :
    Counted env held price (count' :: parents) h' := by
  cases hc with
  | transaction _ _ =>
    rw [List.sum_nil, add_zero] at hsecured
    exact .transaction hadvanced.coherent hsecured
  | frame hparents hcheckpoint hframe _ =>
    exact .frame hparents hcheckpoint (hframe.trans hadvanced) hsecured

theorem Counted.advance {counts : List Int} {h h' : Host} (hc : Counted env held price counts h)
    (hadvanced : Advanced env h h')
    (hsecured : Secured held price h'.state.effects counts.sum) :
    Counted env held price counts h' := by
  cases counts with
  | nil => cases hc
  | cons count parents =>
    rw [List.sum_cons] at hsecured
    exact hc.move hadvanced hsecured

/-- Its counter goes up. -/
theorem Counted.raise {count count' : Int} {parents : List Int} {h : Host}
    (hc : Counted env held price (count :: parents) h) (hle : count ≤ count') :
    Counted env held price (count' :: parents) h := by
  refine hc.move (.refl hc.coherent) (hc.secured.mono (fun _ _ hv => hv) ?_)
  rw [List.sum_cons]
  exact Int.add_le_add_right hle _

/-- No slot is stored to. -/
theorem Counted.evolve {counts : List Int} {h h' : Host} (hc : Counted env held price counts h)
    (hevolves : Evolves env h h') : Counted env held price counts h' := by
  have hevolved := hevolves hc.coherent
  exact hc.advance hevolved.toAdvanced (hc.secured.mono hevolved.kept (Int.le_refl _))

theorem Counted.enter {counts : List Int} {h h' : Host} (hc : Counted env held price counts h)
    (hcheckpoint : stateJournalCheckpoint h = .ok h') :
    Counted env held price (0 :: counts) h' := by
  have hstate : h'.state = h.state := by
    cases hcheckpoint
    rfl
  refine .frame hc hcheckpoint (.refl (hstate ▸ hc.coherent)) ?_
  rw [zero_add, hstate]
  exact hc.secured

theorem Counted.commit {child parent : Int} {parents : List Int} {h h' : Host}
    (hc : Counted env held price (child :: parent :: parents) h)
    (hcommit : stateJournalCommit h = .ok h') :
    Counted env held price ((parent + child) :: parents) h' := by
  cases hc with
  | frame hparents hcheckpoint hframe hsecured =>
    obtain ⟨hstate, hadvanced⟩ := commit_advanced hcheckpoint hframe hcommit
    refine hparents.move hadvanced ?_
    rw [hstate]
    rw [List.sum_cons] at hsecured
    exact hsecured.mono (fun _ _ hv => hv) (by linarith)

theorem Counted.revert {child : Int} {parents : List Int} {h h' : Host}
    (hc : Counted env held price (child :: parents) h) (hne : parents ≠ [])
    (hrevert : stateJournalRevert h = .ok h') : Counted env held price parents h' := by
  cases hc with
  | transaction _ _ => exact absurd rfl hne
  | frame hparents hcheckpoint hframe hsecured =>
    obtain ⟨h'', hrevert', hadvanced, hview, -⟩ :=
      revert_advanced hparents.coherent hcheckpoint hframe
    rw [hrevert] at hrevert'
    cases hrevert'
    have heffects : h'.state.effects = _ := congrArg View.effects hview
    refine hparents.advance hadvanced ?_
    rw [heffects]
    exact hparents.secured

end

end EvmSail.Kernel
