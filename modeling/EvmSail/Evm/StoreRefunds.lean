/-
# `EvmSail.Evm.StoreRefunds` — the accounts of the stores to a slot

A store pays for its access, and what else it pays, less what it is
refunded and credited, is the rise of a potential: `storePotential` is a
function of the value before the transaction and the value now, so the sum
over any sequence of stores forgets the values in between
(`storesNet_eq`).

Of the refund only the award for clearing a slot is ever taken back, and
only from a slot that is still clear.  Over a whole transaction the slots
that are clear are therefore covered by the refunds of the live frames
(`Awarded`): a frame that reverts takes its refunds and its clears with it.
-/
import EvmSail.Evm.Pools
import EvmSail.Evm.SlotCounters

namespace EvmSail

section

variable (fork : Fork)

/-! ## One slot -/

/-- The part of the price that is paid for touching the slot. -/
def sstoreAccess (cold : Bool) : Nat :=
  if .amsterdam ≤ fork then amsterdamStorageAccessCost cold
  else gWarmAccess + if cold then gColdSload else 0

/-- What a store pays besides, less what it gets back. -/
def storeNet (original current new : Word) (cold : Bool) : Int :=
  let costs := sstoreCosts fork original current new cold
  (costs.execution : Int) - sstoreAccess fork cold - costs.refund + costs.stateCharge -
    costs.stateCredit

/-- What the stores to a slot have cost when it holds `value`. -/
def storePotential (original value : Word) : Int :=
  if value = original then 0
  else if .amsterdam ≤ fork then
    if original = 0 then gAmsterdamStorageWrite + gAmsterdamStateStorageSet
    else if value = 0 then gAmsterdamStorageWrite - rAmsterdamStorageClear
    else gAmsterdamStorageWrite
  else if original = 0 then gSset - gWarmAccess
  else if value = 0 then gSreset - gWarmAccess - sstoreClearRefund fork
  else gSreset - gWarmAccess

/-- A store of the value that is there pays for the access alone. -/
theorem sstoreCosts_same (original current : Word) (cold : Bool) :
    sstoreCosts fork original current current cold =
      { execution := sstoreAccess fork cold, refund := 0, stateCharge := 0, stateCredit := 0 } := by
  simp only [sstoreCosts, sstoreAccess]
  split
  · simp [amsterdamSstoreCosts, amsterdamSstoreRefund]
  · simp [legacySstoreCosts, legacySstoreRefund]

/-- One store moves the potential from the value that was there to the new
one. -/
theorem storeNet_eq (original current new : Word) (cold : Bool) :
    storeNet fork original current new cold =
      storePotential fork original new - storePotential fork original current := by
  by_cases hfork : .amsterdam ≤ fork
  · simp only [storeNet, sstoreCosts, sstoreAccess, storePotential, if_pos hfork,
      amsterdamSstoreCosts, amsterdamSstoreRefund]
    grind
  · simp only [storeNet, sstoreCosts, sstoreAccess, storePotential, if_neg hfork,
      legacySstoreCosts, legacySstoreRefund, clearDelta, resetDelta]
    grind

/-- The award for a slot that was not zero before the transaction, and is
now. -/
def clearAward : Nat := if .amsterdam ≤ fork then rAmsterdamStorageClear else sstoreClearRefund fork

def heldAward (original value : Word) : Int :=
  if original ≠ 0 ∧ value = 0 then clearAward fork else 0

theorem heldAward_nonneg (original value : Word) : 0 ≤ heldAward fork original value := by
  rw [heldAward]
  split
  · exact Int.natCast_nonneg _
  · exact Int.le_refl 0

/-- A refund takes back what is held, and nothing more. -/
theorem sstoreCosts_heldAward (original current new : Word) (cold : Bool) :
    heldAward fork original new - heldAward fork original current ≤
      (sstoreCosts fork original current new cold).refund := by
  by_cases hfork : .amsterdam ≤ fork
  · simp only [heldAward, clearAward, sstoreCosts, if_pos hfork, amsterdamSstoreCosts,
      amsterdamSstoreRefund]
    grind
  · have hset : (0 : Int) ≤ gSset - gWarmAccess := by decide
    have hreset : (0 : Int) ≤ gSreset - gWarmAccess := by decide
    simp only [heldAward, clearAward, sstoreCosts, if_neg hfork, legacySstoreCosts,
      legacySstoreRefund, clearDelta, resetDelta]
    grind

/-! ## Sequences of stores -/

/-- The value after the stores, each with its value and whether its access
is cold. -/
def storedValue : Word → List (Word × Bool) → Word
  | current, [] => current
  | _, w :: ws => storedValue w.1 ws

def storesNet (original : Word) : Word → List (Word × Bool) → Int
  | _, [] => 0
  | current, w :: ws => storeNet fork original current w.1 w.2 + storesNet original w.1 ws

def storesRefund (original : Word) : Word → List (Word × Bool) → Int
  | _, [] => 0
  | current, w :: ws =>
    (sstoreCosts fork original current w.1 w.2).refund + storesRefund original w.1 ws

/-- The values in between cancel. -/
theorem storesNet_eq (original current : Word) (ws : List (Word × Bool)) :
    storesNet fork original current ws =
      storePotential fork original (storedValue current ws) -
        storePotential fork original current := by
  induction ws generalizing current with
  | nil => exact (Int.sub_self _).symm
  | cons w ws ih =>
    rw [storesNet, storeNet_eq, ih, storedValue]
    ring

theorem storesRefund_heldAward (original current : Word) (ws : List (Word × Bool)) :
    heldAward fork original (storedValue current ws) - heldAward fork original current ≤
      storesRefund fork original current ws := by
  induction ws generalizing current with
  | nil => exact (Int.sub_self _).le
  | cons w ws ih =>
    have hstep := sstoreCosts_heldAward fork original current w.1 w.2
    have hrest := ih w.1
    rw [storesRefund, storedValue]
    linarith

theorem storePotential_self (original : Word) : storePotential fork original original = 0 :=
  if_pos rfl

/-- The transaction starts with nothing to take back. -/
theorem storesRefund_nonneg (original : Word) (ws : List (Word × Bool)) :
    0 ≤ storesRefund fork original original ws := by
  have hself : heldAward fork original original = 0 := if_neg fun h => h.1 h.2
  have hsum := storesRefund_heldAward fork original original ws
  have hfinal := heldAward_nonneg fork original (storedValue original ws)
  linarith

end

/-! ## All slots, over the frames of a transaction -/

namespace Kernel

open Fallible Kept

/-- The transaction has cleared the slot. -/
def Cleared (e : Effects) (key : StorageKey) : Prop :=
  ∃ v, Holds e key v ∧ v.orig ≠ 0 ∧ v.curr = 0

/-- The refunds cover an award for every slot that is clear. -/
def Awarded (award : Nat) (e : Effects) (total : Int) : Prop :=
  ∀ S : Finset StorageKey, (∀ key ∈ S, Cleared e key) → (award * S.card : Int) ≤ total

/-- The entry of a slot that is clear. -/
def ClearEntry (v : StorageValue) : Prop := v.orig ≠ 0 ∧ v.curr = 0

instance : DecidablePred ClearEntry :=
  fun v => inferInstanceAs (Decidable (v.orig ≠ 0 ∧ v.curr = 0))

theorem clearEntry_changed (v : StorageValue) (h : ClearEntry v) : v.curr ≠ v.orig :=
  fun hsame => h.1 (hsame ▸ h.2)

theorem Awarded.secured {award : Nat} {e : Effects} {total : Int} (h : Awarded award e total) :
    Secured ClearEntry award e total := h

theorem Secured.awarded {award : Nat} {e : Effects} {total : Int}
    (h : Secured ClearEntry award e total) : Awarded award e total := h

theorem Awarded.nonneg {award : Nat} {e : Effects} {total : Int} (h : Awarded award e total) :
    0 ≤ total := h.secured.nonneg

/-- Fewer clear slots and more refunds keep the awards covered. -/
theorem Awarded.mono {award : Nat} {e e' : Effects} {total total' : Int} (h : Awarded award e total)
    (hkept : ∀ key v, Holds e' key v → Holds e key v) (htotal : total ≤ total') :
    Awarded award e' total' := (h.secured.mono hkept htotal).awarded

section

variable (env : Env)

/-- The part of `SSTORE` that changes the refund and the slot: the entry is
read, the delta recorded, and a value that differs stored. -/
def recordStore (a : Address) (slot new : Word) (cold : Bool) (refund : Int) (h : Host) :
    Result (Int × Host) := do
  let r ← (kSload env a slot).run h
  let entry := r.1
  let costs := sstoreCosts env.profile.fork entry.orig entry.curr new cold
  let refund ← (if costs.refund ≠ 0 then recordRefund refund costs.refund else .ok refund :
    Result Int)
  if entry.curr ≠ new then do
    let stored ← (kSstore env a slot { curr := new, orig := entry.orig }).run r.2
    .ok (refund, stored.2)
  else .ok (refund, r.2)

/-- A transaction as the refund counter sees it: the counters of the live
frames, the innermost first and that of the transaction last, and the
kernel. -/
structure RefundFrames where
  counters : List Int
  host : Host

/-- What can happen to the counters.  A frame starts at zero behind a
checkpoint; its counter joins its parent's when it commits and is dropped
when it reverts. -/
inductive RefundStep : RefundFrames → RefundFrames → Prop
  | store {refund refund' : Int} {parents : List Int} {h h' : Host} (a : Address) (slot new : Word)
      (cold : Bool) : recordStore env a slot new cold refund h = .ok (refund', h') →
      RefundStep ⟨refund :: parents, h⟩ ⟨refund' :: parents, h'⟩
  | award {refund delta refund' : Int} {parents : List Int} {h : Host} : 0 ≤ delta →
      recordRefund refund delta = .ok refund' →
      RefundStep ⟨refund :: parents, h⟩ ⟨refund' :: parents, h⟩
  | other {counters : List Int} {h h' : Host} : Evolves env h h' →
      RefundStep ⟨counters, h⟩ ⟨counters, h'⟩
  | enter {counters : List Int} {h h' : Host} : stateJournalCheckpoint h = .ok h' →
      RefundStep ⟨counters, h⟩ ⟨0 :: counters, h'⟩
  | commit {child parent refund : Int} {parents : List Int} {h h' : Host} :
      stateJournalCommit h = .ok h' → recordRefund parent child = .ok refund →
      RefundStep ⟨child :: parent :: parents, h⟩ ⟨refund :: parents, h'⟩
  | revert {child parent : Int} {parents : List Int} {h h' : Host} :
      stateJournalRevert h = .ok h' →
      RefundStep ⟨child :: parent :: parents, h⟩ ⟨parent :: parents, h'⟩

/-- The counters of the live frames cover the awards. -/
abbrev RefundsCounted : List Int → Host → Prop :=
  Counted env ClearEntry (clearAward env.profile.fork)

variable {env}

/-! ### A store -/

/-- What a store adds to the refunds covers the slot that it clears, and
what it takes back was held for the slot that it sets. -/
theorem Awarded.store {e e' : Effects} {key : StorageKey} {v : StorageValue} {new : Word}
    {cold : Bool} {total : Int} (h : Awarded (clearAward env.profile.fork) e total)
    (hv : SlotReads e key v)
    (hstored : ∀ k u, Holds e' k u →
      k ≠ key ∧ Holds e k u ∨ k = key ∧ u.orig = v.orig ∧ u.curr = new) :
    Awarded (clearAward env.profile.fork) e'
      (total + (sstoreCosts env.profile.fork v.orig v.curr new cold).refund) :=
  (h.secured.store clearEntry_changed hv hstored
    (sstoreCosts_heldAward env.profile.fork v.orig v.curr new cold)).awarded

theorem recordStore_eq_ok {a : Address} {slot new : Word} {cold : Bool} {refund refund' : Int}
    {h h' : Host} (hc : Coherent env h.state)
    (hh : recordStore env a slot new cold refund h = .ok (refund', h')) :
    Advanced env h h' ∧ ∀ rest,
      Awarded (clearAward env.profile.fork) h.state.effects (refund + rest) →
      Awarded (clearAward env.profile.fork) h'.state.effects (refund' + rest) := by
  obtain ⟨⟨entry, h₁⟩, hload, hh⟩ := bind_eq_ok.mp hh
  obtain ⟨total, htotal, hh⟩ := bind_eq_ok.mp hh
  dsimp only at htotal hh
  have hevolved : Evolved env h h₁ := Evolving.evolves _ _ _ hload hc
  have hreads : SlotReads h.state.effects { addr := a, slot := slot } entry :=
    loadSlot_slotReads hload
  have heffects : h₁.state.effects = h.state.effects :=
    (((kSload env a slot).keeps _ _ _ hload).marks.2 hc.sound).effects
  have hsum : total = refund +
      (sstoreCosts env.profile.fork entry.orig entry.curr new cold).refund := by
    split at htotal
    · exact recordRefund_eq_ok htotal
    · next hzero =>
      cases htotal
      rw [not_not.mp hzero, add_zero]
  have hrest : ∀ rest, refund + rest +
      (sstoreCosts env.profile.fork entry.orig entry.curr new cold).refund = total + rest := by
    intro rest
    rw [hsum]
    ring
  split at hh
  · cases hh
    refine ⟨hevolved.toAdvanced.trans (storageTxUpdate_advanced _ _ hevolved.coherent),
      fun rest hawarded => ?_⟩
    rw [← hrest]
    refine hawarded.store hreads fun k u hu => ?_
    have hreads₁ : SlotReads h₁.state.effects { addr := a, slot := slot } entry := by
      rw [heffects]
      exact hreads
    rcases storageTxUpdate_holds hreads₁ hu with ⟨hne, hk⟩ | ⟨heq, rfl⟩
    · rw [heffects] at hk
      exact .inl ⟨hne, hk⟩
    · exact .inr ⟨heq, rfl, rfl⟩
  · next hsame =>
    cases hh
    refine ⟨hevolved.toAdvanced, fun rest hawarded => ?_⟩
    have hzero : (sstoreCosts env.profile.fork entry.orig entry.curr new cold).refund = 0 := by
      rw [not_not.mp hsame, sstoreCosts_same]
    rw [hsum, hzero, add_zero]
    exact hawarded.mono hevolved.kept (Int.le_refl _)

/-! ### A run -/

theorem RefundStep.counted {t t' : RefundFrames} (hstep : RefundStep env t t')
    (hc : RefundsCounted env t.counters t.host) : RefundsCounted env t'.counters t'.host := by
  cases hstep with
  | store a slot new cold hstore =>
    obtain ⟨hadvanced, hawarded⟩ := recordStore_eq_ok hc.coherent hstore
    exact hc.move hadvanced (hawarded _ hc.secured)
  | award hdelta hrecord =>
    rw [recordRefund_eq_ok hrecord]
    exact hc.raise (Int.le_add_of_nonneg_right hdelta)
  | other hevolves => exact hc.evolve hevolves
  | enter hcheckpoint => exact hc.enter hcheckpoint
  | commit hcommit hrecord =>
    rw [recordRefund_eq_ok hrecord]
    exact hc.commit hcommit
  | revert hrevert => exact hc.revert (List.cons_ne_nil _ _) hrevert

abbrev RefundRun (env : Env) := Relation.ReflTransGen (RefundStep env)

theorem RefundRun.counted {t t' : RefundFrames} (hrun : RefundRun env t t')
    (hc : RefundsCounted env t.counters t.host) : RefundsCounted env t'.counters t'.host := by
  induction hrun with
  | refl => exact hc
  | tail _ hstep ih => exact hstep.counted ih

/-- A transaction starts with no slot written and nothing refunded. -/
theorem counted_start {h : Host} (hc : Coherent env h.state)
    (hfresh : ∀ key v, ¬Holds h.state.effects key v) : RefundsCounted env [0] h :=
  .transaction hc (secured_zero fun key v hv => absurd hv (hfresh key v))

/-- The accounts of the stores.  What a sequence of stores to a slot costs
depends on the original and the final value, and is nothing when they are
the same; its refunds are never negative.  Nor are those of a transaction,
over all slots and all live frames, in any state that it reaches. -/
theorem sstore_telescopes (env : Env) :
    (∀ fork original ws, storesNet fork original original ws =
      storePotential fork original (storedValue original ws)) ∧
    (∀ fork original ws, storedValue original ws = original →
      storesNet fork original original ws = 0) ∧
    (∀ fork original ws, 0 ≤ storesRefund fork original original ws) ∧
    (∀ h t, Coherent env h.state → (∀ key v, ¬Holds h.state.effects key v) →
      RefundRun env ⟨[0], h⟩ t → 0 ≤ t.counters.sum) := by
  have hnet : ∀ fork original ws, storesNet fork original original ws =
      storePotential fork original (storedValue original ws) := by
    intro fork original ws
    rw [storesNet_eq, storePotential_self, Int.sub_zero]
  refine ⟨hnet, ?_, storesRefund_nonneg, ?_⟩
  · intro fork original ws hfinal
    rw [hnet, hfinal, storePotential_self]
  · intro h t hcoherent hfresh hrun
    exact (hrun.counted (counted_start hcoherent hfresh)).secured.nonneg

/-! ### A slot is cleared in a frame -/

/-- Cancun over an empty parent state. -/
def emptyParent : Env :=
  { profile := packProtocolProfile .cancun cancunBlobSchedule 24576 49152 sszUintBound sszUintBound
      6 5
    keccak256 := fun _ => zeroHash
    parentStateRoot := emptyTrieRoot
    statelessAccountByKey := fun _ _ => .ok emptyAccount
    statelessStorageByKey := fun _ _ => .ok 0 }

/-- An earlier transaction of the block has set slot 0 of the zero address. -/
def slotSet : Host :=
  { state :=
      { effects := noEffects []
        warm := coldWarm
        acctTxRows := []
        storageTxRows := []
        nextGeneration := ⟨1, Nat.le_refl 1⟩
        block :=
          { accounts := fun _ => none
            storage := fun key => if key.slot = 0 then some { curr := 5, orig := 0 } else none
            storageRows := [] }
        bal := []
        codes := fun _ => none }
    journal := [] }

theorem coherent_slotSet : Coherent emptyParent slotSet.state where
  sound := sound_noEffects _ [] rfl
  numbered := by
    refine ⟨fun _ => Nat.le_refl 1, fun key row hrow => ?_⟩
    cases hrow
  analyzed := by
    intro hash code hcode
    cases hcode

/-- A frame clears the slot and commits. -/
theorem run_cleared : ∃ h, RefundRun emptyParent ⟨[0], slotSet⟩ ⟨[4800], h⟩ := by
  have henter : RefundStep emptyParent ⟨[0], slotSet⟩ ⟨[0, 0], slotSet.record .checkpointed⟩ :=
    .enter rfl
  obtain ⟨h, hstore, hcommit⟩ : ∃ h,
      recordStore emptyParent 0 0 0 true 0 (slotSet.record .checkpointed) = .ok (4800, h) ∧
        stateJournalCommit h = .ok (h.record .committed) := ⟨_, rfl, rfl⟩
  exact ⟨_, ((Relation.ReflTransGen.single henter).tail (.store 0 0 0 true hstore)).tail
    (.commit hcommit rfl)⟩

theorem sstore_telescopes_cleared :
    storesNet .cancun 5 5 [(0, true), (5, false)] = 0 ∧
    0 ≤ storesRefund .cancun 5 5 [(0, true)] ∧ (0 : Int) ≤ [4800].sum := by
  obtain ⟨-, hzero, hrefund, hrun⟩ := sstore_telescopes emptyParent
  obtain ⟨h, hcleared⟩ := run_cleared
  refine ⟨hzero .cancun 5 _ rfl, hrefund .cancun 5 _, ?_⟩
  refine hrun slotSet _ coherent_slotSet (fun key v hv => ?_) hcleared
  obtain ⟨row, hrow, -⟩ := hv
  cases hrow

end

end Kernel

end EvmSail
