/-
# `EvmSail.Lib.Journal` — rollback by a journal of inverses

A mutable store of states `σ` appends to a journal, before each mutation,
an entry `e : ε` that restores what the mutation overwrites.  Markers for
opened and committed frames stand in the same journal.  Reverting a frame
replays its entries backwards; committing it leaves them for the
enclosing frame.

What such a store has to get right is stated here once:

  * `Rollback` — the frame operations of a store, with what the markers
    they leave in the journal must be;
  * `Inverse` — a view of the states, and what an entry does to the view;
  * `Covers` — the entries of a journal lead from one state's view back to
    another's;
  * `Stacked` — every open frame of a run covers what happened since its
    checkpoint.  Operations keep it, and so do frames that are opened,
    committed or reverted in any order (`Stacked.revert`: reverting gives
    the checkpoint's view back).
-/
import EvmSail.Lib.Fallible

namespace Journal

open Fallible

variable {σ ε φ V : Type}

/-! ## Journals -/

/-- A journal record. -/
inductive Record (ε : Type) where
  | change (e : ε)
  | checkpointed
  | committed

/-- A store over its journal, the newest record first. -/
structure Journaled (σ ε : Type) where
  state : σ
  journal : List (Record ε)

/-- Appends a record. -/
def Journaled.record (h : Journaled σ ε) (r : Record ε) : Journaled σ ε :=
  { h with journal := r :: h.journal }

/-- A journal whose frames are all committed. -/
inductive Balanced : List (Record ε) → Prop
  | nil : Balanced []
  | change {e : ε} {j : List (Record ε)} : Balanced j → Balanced (.change e :: j)
  | frame {inner j : List (Record ε)} : Balanced inner → Balanced j →
      Balanced (.committed :: (inner ++ .checkpointed :: j))

theorem Balanced.append {j k : List (Record ε)} (hj : Balanced j) (hk : Balanced k) :
    Balanced (j ++ k) := by
  induction hj with
  | nil => exact hk
  | change _ ih => exact .change ih
  | frame hinner _ _ ih =>
    rw [List.cons_append, List.append_assoc, List.cons_append]
    exact .frame hinner ih

/-- Above the journal `outer`, `n` frames are open. -/
inductive Opened (outer : List (Record ε)) : Nat → List (Record ε) → Prop
  | base {j : List (Record ε)} : Balanced j → Opened outer 0 (j ++ outer)
  | frame {n : Nat} {inner j : List (Record ε)} : Balanced inner → Opened outer n j →
      Opened outer (n + 1) (inner ++ .checkpointed :: j)

/-- What is committed opens nothing. -/
theorem Opened.append {outer j k : List (Record ε)} {n : Nat} (hj : Balanced j)
    (hk : Opened outer n k) : Opened outer n (j ++ k) := by
  cases hk with
  | base hbase =>
    rw [← List.append_assoc]
    exact .base (hj.append hbase)
  | frame hinner hbelow =>
    rw [← List.append_assoc]
    exact .frame (hj.append hinner) hbelow

/-- Replays every entry of a journal. -/
def rewind (restore : ε → σ → Except φ σ) : List (Record ε) → σ → Except φ σ
  | [], s => .ok s
  | .change e :: j, s => do
    let s ← restore e s
    rewind restore j s
  | .checkpointed :: j, s => rewind restore j s
  | .committed :: j, s => rewind restore j s

/-- Replays entries back to the innermost open checkpoint, past `committed`
frames that are closed already. -/
def replay (restore : ε → σ → Except φ σ) (unmatched : φ) :
    Nat → List (Record ε) → σ → Except φ (Journaled σ ε)
  | _, [], _ => .error unmatched
  | n, .change e :: j, s => do
    let s ← restore e s
    replay restore unmatched n j s
  | 0, .checkpointed :: j, s => .ok { state := s, journal := j }
  | n + 1, .checkpointed :: j, s => replay restore unmatched n j s
  | n, .committed :: j, s => replay restore unmatched (n + 1) j s

theorem rewind_append (restore : ε → σ → Except φ σ) (j k : List (Record ε)) (s : σ) :
    rewind restore (j ++ k) s = rewind restore j s >>= rewind restore k := by
  induction j generalizing s with
  | nil => rfl
  | cons r j ih =>
    cases r with
    | change e =>
      simp only [List.cons_append, rewind, bind_assoc_except]
      exact congrArg _ (funext fun s' => ih s')
    | checkpointed => exact ih s
    | committed => exact ih s

/-- Closed frames are replayed as if they had no markers. -/
theorem replay_balanced (restore : ε → σ → Except φ σ) (unmatched : φ)
    {j : List (Record ε)} (hj : Balanced j) (n : Nat) (k : List (Record ε)) (s : σ) :
    replay restore unmatched n (j ++ k) s =
      rewind restore j s >>= replay restore unmatched n k := by
  induction hj generalizing n k s with
  | nil => rfl
  | change _ ih =>
    simp only [List.cons_append, replay, rewind, bind_assoc_except]
    exact congrArg _ (funext fun s' => ih n k s')
  | @frame inner j _ _ ihinner ih =>
    rw [List.cons_append, List.append_assoc, List.cons_append, replay, ihinner, rewind,
      rewind_append, bind_assoc_except]
    exact congrArg _ (funext fun s' => ih n k s')

/-! ## Frame operations -/

/-- The frame operations of a store. -/
structure Rollback (σ ε φ : Type) where
  restore : ε → σ → Except φ σ
  checkpoint : Journaled σ ε → Except φ (Journaled σ ε)
  commit : Journaled σ ε → Except φ (Journaled σ ε)
  revert : Journaled σ ε → Except φ (Journaled σ ε)
  checkpoint_ok : ∀ h h', checkpoint h = .ok h' → h' = h.record .checkpointed
  commit_ok : ∀ h h', commit h = .ok h' → h' = h.record .committed
  revert_balanced : ∀ h j k, Balanced j → h.journal = j ++ .checkpointed :: k →
    revert h = rewind restore j h.state >>= fun s => .ok { state := s, journal := k }

/-! ## Inverses -/

/-- What is seen of a state, and what an entry does to what is seen.  An
entry is `ready` in a state when nothing outside the view stops it. -/
structure Inverse (restore : ε → σ → Except φ σ) (V : Type) where
  view : σ → V
  undo : ε → V → Option V
  ready : ε → σ → Prop
  restores : ∀ e s v, ready e s → undo e (view s) = some v →
    ∃ s', restore e s = .ok s' ∧ view s' = v
  ready_restore : ∀ e e' s s', restore e s = .ok s' → ready e' s → ready e' s'

section

variable {restore : ε → σ → Except φ σ} (I : Inverse restore V)

/-- What all entries of a journal do to the view. -/
def undoAll : List (Record ε) → V → Option V
  | [], v => some v
  | .change e :: j, v => (I.undo e v).bind (undoAll j)
  | .checkpointed :: j, v => undoAll j v
  | .committed :: j, v => undoAll j v

/-- The journal `j` leads from the view of `s` back to the view of `s₀`. -/
structure Covers (j : List (Record ε)) (s s₀ : σ) : Prop where
  balanced : Balanced j
  undoes : undoAll I j (I.view s) = some (I.view s₀)
  ready : ∀ e, .change e ∈ j → I.ready e s

theorem undoAll_append (j k : List (Record ε)) (v : V) :
    undoAll I (j ++ k) v = (undoAll I j v).bind (undoAll I k) := by
  induction j generalizing v with
  | nil => rfl
  | cons r j ih =>
    cases r with
    | change e =>
      simp only [List.cons_append, undoAll, Option.bind_assoc]
      exact congrArg _ (funext fun v' => ih v')
    | checkpointed => exact ih v
    | committed => exact ih v

/-- Replaying a covering journal succeeds and gives the view back. -/
theorem Covers.rewind_eq {I : Inverse restore V} {j : List (Record ε)} {s s₀ : σ}
    (h : Covers I j s s₀) :
    ∃ s', rewind restore j s = .ok s' ∧ I.view s' = I.view s₀ ∧
      ∀ e, I.ready e s → I.ready e s' := by
  obtain ⟨-, hundo, hready⟩ := h
  induction j generalizing s with
  | nil => exact ⟨s, rfl, Option.some.inj hundo, fun _ he => he⟩
  | cons r j ih =>
    cases r with
    | change e =>
      obtain ⟨v, hv, hrest⟩ := Option.bind_eq_some_iff.mp hundo
      obtain ⟨s₁, hs₁, hview⟩ := I.restores e s v (hready e (by simp)) hv
      have hmono : ∀ e', I.ready e' s → I.ready e' s₁ :=
        fun e' he' => I.ready_restore e e' s s₁ hs₁ he'
      obtain ⟨s', hs', hview', hready'⟩ :=
        ih (hview ▸ hrest) fun e' he' => hmono e' (hready e' (by simp [he']))
      refine ⟨s', ?_, hview', fun e' he' => hready' e' (hmono e' he')⟩
      simp only [rewind, hs₁, ok_bind]
      exact hs'
    | checkpointed => exact ih hundo fun e he => hready e (by simp [he])
    | committed => exact ih hundo fun e he => hready e (by simp [he])

/-- From `h` to `h'` the store only appended to its journal, and what it
appended covers the change. -/
def Tracks (h h' : Journaled σ ε) : Prop :=
  ∃ j, h'.journal = j ++ h.journal ∧ Covers I j h'.state h.state ∧
    ∀ e, I.ready e h.state → I.ready e h'.state

variable {I} {h h' h'' : Journaled σ ε}

theorem Tracks.of_view_eq (hj : h'.journal = h.journal)
    (hv : I.view h'.state = I.view h.state)
    (hready : ∀ e, I.ready e h.state → I.ready e h'.state) : Tracks I h h' :=
  ⟨[], hj, ⟨.nil, congrArg some hv, fun _ he => nomatch he⟩, hready⟩

theorem Tracks.refl (h : Journaled σ ε) : Tracks I h h :=
  .of_view_eq rfl rfl fun _ he => he

/-- One entry that undoes one change of the view. -/
theorem Tracks.change {e : ε} (hj : h'.journal = .change e :: h.journal)
    (hundo : I.undo e (I.view h'.state) = some (I.view h.state))
    (hready : I.ready e h'.state)
    (hmono : ∀ e, I.ready e h.state → I.ready e h'.state) : Tracks I h h' := by
  refine ⟨[.change e], hj, ⟨.change .nil, ?_, fun e' he' => ?_⟩, hmono⟩
  · simp only [undoAll, hundo, Option.bind_some]
  · rw [List.mem_singleton] at he'
    injection he' with he'
    exact he' ▸ hready

theorem Tracks.trans (h₁ : Tracks I h h') (h₂ : Tracks I h' h'') : Tracks I h h'' := by
  obtain ⟨j₁, hj₁, hc₁, hr₁⟩ := h₁
  obtain ⟨j₂, hj₂, hc₂, hr₂⟩ := h₂
  refine ⟨j₂ ++ j₁, by rw [hj₂, hj₁, List.append_assoc],
    ⟨hc₂.balanced.append hc₁.balanced, ?_, ?_⟩, fun e he => hr₂ e (hr₁ e he)⟩
  · rw [undoAll_append, hc₂.undoes, Option.bind_some, hc₁.undoes]
  · intro e he
    rcases List.mem_append.mp he with he | he
    · exact hc₂.ready e he
    · exact hr₂ e (hc₁.ready e he)

end

/-! ## Frames -/

section

variable {R : Rollback σ ε φ} {I : Inverse R.restore V} {h h' h₁ h₂ : Journaled σ ε}

/-- Reverting a frame undoes what it did. -/
theorem revert_exact (hcheckpoint : R.checkpoint h = .ok h₁) (htracks : Tracks I h₁ h₂) :
    ∃ h', R.revert h₂ = .ok h' ∧ I.view h'.state = I.view h.state ∧
      h'.journal = h.journal ∧ ∀ e, I.ready e h.state → I.ready e h'.state := by
  have h₁eq := R.checkpoint_ok h h₁ hcheckpoint
  obtain ⟨j, hj, hcovers, hready⟩ := htracks
  subst h₁eq
  obtain ⟨s, hs, hview, hready'⟩ := hcovers.rewind_eq
  refine ⟨{ state := s, journal := h.journal }, ?_, hview, rfl,
    fun e he => hready' e (hready e he)⟩
  rw [R.revert_balanced h₂ j h.journal hcovers.balanced hj, hs, ok_bind]

/-- Committing a frame leaves it revertible by its parent. -/
theorem commit_tracks (hcheckpoint : R.checkpoint h = .ok h₁) (htracks : Tracks I h₁ h₂)
    (hcommit : R.commit h₂ = .ok h') : Tracks I h h' := by
  have h₁eq := R.checkpoint_ok h h₁ hcheckpoint
  have h'eq := R.commit_ok h₂ h' hcommit
  obtain ⟨j, hj, hcovers, hready⟩ := htracks
  subst h₁eq h'eq
  refine ⟨.committed :: (j ++ [.checkpointed]), ?_, ⟨.frame hcovers.balanced .nil, ?_, ?_⟩,
    hready⟩
  · simp [Journaled.record, hj]
  · rw [undoAll, undoAll_append]
    exact congrArg (Option.bind · _) hcovers.undoes
  · intro e he
    exact hcovers.ready e (by simpa using he)

/-! ## Runs

A run is followed by the store it has reached and the stack of stores at
which its open frames were checkpointed, the innermost first. -/

/-- Every open frame covers what happened since its checkpoint.  `Sound`
is an invariant of the states that operations keep. -/
def Stacked (R : Rollback σ ε φ) (I : Inverse R.restore V) (Sound : V → Prop) :
    List (Journaled σ ε) → Journaled σ ε → Prop
  | [], h => Sound (I.view h.state)
  | f :: frames, h =>
    Sound (I.view h.state) ∧ (∃ f', R.checkpoint f = .ok f' ∧ Tracks I f' h) ∧
      Stacked R I Sound frames f

namespace Stacked

variable {Sound : V → Prop} {f : Journaled σ ε} {frames : List (Journaled σ ε)}

theorem sound (hs : Stacked R I Sound frames h) : Sound (I.view h.state) := by
  cases frames with
  | nil => exact hs
  | cons f frames => exact hs.1

/-- An operation that covers its own change. -/
theorem step (hs : Stacked R I Sound frames h) (ht : Tracks I h h')
    (hsound : Sound (I.view h'.state)) : Stacked R I Sound frames h' := by
  cases frames with
  | nil => exact hsound
  | cons f frames =>
    obtain ⟨-, ⟨f', hcheckpoint, htracks⟩, hrest⟩ := hs
    exact ⟨hsound, ⟨f', hcheckpoint, htracks.trans ht⟩, hrest⟩

theorem checkpoint (hs : Stacked R I Sound frames h) (hcheckpoint : R.checkpoint h = .ok h') :
    Stacked R I Sound (h :: frames) h' := by
  refine ⟨?_, ⟨h', hcheckpoint, .refl h'⟩, hs⟩
  rw [R.checkpoint_ok h h' hcheckpoint]
  exact hs.sound

/-- The enclosing frame takes over what a committed one has done. -/
theorem commit (hs : Stacked R I Sound (f :: frames) h) (hcommit : R.commit h = .ok h') :
    h'.state = h.state ∧ Stacked R I Sound frames h' := by
  obtain ⟨hsound, ⟨f', hcheckpoint, htracks⟩, hrest⟩ := hs
  have hstate : h'.state = h.state := by
    rw [R.commit_ok h h' hcommit]
    rfl
  exact ⟨hstate, hrest.step (commit_tracks hcheckpoint htracks hcommit) (hstate.symm ▸ hsound)⟩

/-- Reverting gives back what was seen at the checkpoint. -/
theorem revert (hs : Stacked R I Sound (f :: frames) h) :
    ∃ h', R.revert h = .ok h' ∧ I.view h'.state = I.view f.state ∧ h'.journal = f.journal ∧
      Stacked R I Sound frames h' := by
  obtain ⟨-, ⟨f', hcheckpoint, htracks⟩, hrest⟩ := hs
  obtain ⟨h', hrevert, hview, hjournal, hready⟩ := revert_exact hcheckpoint htracks
  exact ⟨h', hrevert, hview, hjournal,
    hrest.step (.of_view_eq hjournal hview hready) (hview.symm ▸ hrest.sound)⟩

end Stacked

end

end Journal
