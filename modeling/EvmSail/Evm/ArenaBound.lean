/-
# `EvmSail.Evm.ArenaBound` — how much memory a transaction can hold at once

The arena keeps the memory of every suspended frame, so its height is a
sum over the call stack.  Each frame of the stack has been given a budget
of gas.  Out of it a frame has paid for its memory and lent its child at
most sixty-three sixty-fourths of the rest.

  * `Funded` says this of a stack, and `Funded.square_le` is what follows:
    a frame of `w` words costs at least `w² / 512`, and lending at the
    rate 63/64 makes the squares of the sums add up like the budgets.
  * `Within` is the invariant of the machine.  `step_within` says that
    every effect keeps it and that no effect aborts in an arena of
    `arenaBound` bytes; `run_within` lifts this to runs.
  * The sixteen MiB of the guest are less than `arenaBound`, and
    `guestArena_exhausted` is a run that needs more.
-/
import EvmSail.Evm.MemoryGas

namespace EvmSail

open Fallible

/-! ## The price of a word -/

theorem memoryWordCount_eq (n : Nat) : memoryWordCount n = (n + 31) / 32 := by
  unfold memoryWordCount
  split <;> omega

theorem le_memoryWordCount (n : Nat) : n ≤ 32 * memoryWordCount n := by
  rw [memoryWordCount_eq]
  omega

theorem memoryWordCount_mono {m n : Nat} (h : m ≤ n) :
    memoryWordCount m ≤ memoryWordCount n := by
  rw [memoryWordCount_eq, memoryWordCount_eq]
  omega

theorem memCost_mono {m n : Nat} (h : m ≤ n) : memCost m ≤ memCost n := by
  have hs : m * m / 512 ≤ n * n / 512 := Nat.div_le_div_right (Nat.mul_le_mul h h)
  unfold memCost
  omega

/-- The quadratic part of the price, with the linear part making up for
the rounding. -/
theorem sq_le_memCost (w : Nat) : w * w ≤ 512 * memCost w := by
  have hdiv := Nat.div_add_mod (w * w) 512
  have hmod := Nat.mod_lt (w * w) (show 0 < 512 by decide)
  cases w with
  | zero => simp
  | succ w =>
    unfold memCost
    omega

/-- One level of the stack.  `c` is what `w` words cost, `d` what is left
of the budget, and `b` the part of it that was lent. -/
theorem sq_add_le {w s b c d : Nat} (hw : w * w ≤ 512 * c) (hs : s * s ≤ 32768 * b)
    (hb : 64 * b ≤ 63 * d) : (s + w) * (s + w) ≤ 32768 * (c + d) := by
  have hsplit : 63 * ((s + w) * (s + w)) ≤ 64 * (s * s) + 4032 * (w * w) := by
    zify
    nlinarith [sq_nonneg ((s : ℤ) - 63 * w)]
  have hlent : 64 * (s * s) ≤ 63 * (32768 * d) := by
    calc 64 * (s * s) ≤ 64 * (32768 * b) := Nat.mul_le_mul_left _ hs
      _ = 32768 * (64 * b) := by omega
      _ ≤ 32768 * (63 * d) := Nat.mul_le_mul_left _ hb
      _ = 63 * (32768 * d) := by omega
  have hpaid : 4032 * (w * w) ≤ 63 * (32768 * c) := by
    calc 4032 * (w * w) ≤ 4032 * (512 * c) := Nat.mul_le_mul_left _ hw
      _ = 63 * (32768 * c) := by omega
  omega

/-! ## Funded stacks -/

/-- What a frame can still turn into execution gas. -/
def GasPools.spendable (p : GasPools) : Nat := p.gas + p.stateSpill

/-- What `height` bytes of memory have cost. -/
def heightCost (height : Nat) : Nat := memCost (memoryWordCount height)

/-- The ranges a suspended parent will still write lie in its memory. -/
def Awaits.InMemory (height : Nat) : Awaits → Prop
  | .call returnOffset returnLength => returnOffset + returnLength ≤ height
  | .create => True

/-- `Funded limit suspended base budget`: under a stack that started with
`limit` gas, the active frame begins at `base` and was given `budget`. -/
inductive Funded (limit : Nat) : List FrameCheckpoint → Nat → Nat → Prop
  | outermost : Funded limit [] 0 limit
  | nested {suspended : List FrameCheckpoint} {base budget childBudget : Nat}
      {checkpoint : FrameCheckpoint} :
      Funded limit suspended base budget →
      checkpoint.pools.spendable + heightCost checkpoint.memoryHeight + childBudget ≤ budget →
      64 * childBudget ≤ 63 * (budget - heightCost checkpoint.memoryHeight) →
      checkpoint.awaits.InMemory checkpoint.memoryHeight →
      Funded limit (checkpoint :: suspended) (base + checkpoint.memoryHeight) childBudget

namespace Funded

variable {limit base budget : Nat} {suspended : List FrameCheckpoint}

/-- The active frame begins where the memory of its ancestors ends. -/
theorem base_eq (h : Funded limit suspended base budget) :
    base = (suspended.map (·.memoryHeight)).sum := by
  induction h with
  | outermost => rfl
  | nested _ _ _ _ ih =>
    rw [ih, List.map_cons, List.sum_cons]
    omega

/-- The suspended words `t` join any number of words `s` that the active
budget can pay for. -/
theorem square_le (h : Funded limit suspended base budget) :
    ∃ t, base ≤ 32 * t ∧
      ∀ s, s * s ≤ 32768 * budget → (s + t) * (s + t) ≤ 32768 * limit := by
  induction h with
  | outermost => exact ⟨0, by omega, fun s hs => by simpa using hs⟩
  | @nested suspended base budget childBudget checkpoint _ hsum hlent _ ih =>
    obtain ⟨t, hbase, hsq⟩ := ih
    have hheight := le_memoryWordCount checkpoint.memoryHeight
    refine ⟨memoryWordCount checkpoint.memoryHeight + t, by omega, fun s hs => ?_⟩
    have hlevel :=
      sq_add_le (sq_le_memCost (memoryWordCount checkpoint.memoryHeight)) hs hlent
    have hbudget :
        memCost (memoryWordCount checkpoint.memoryHeight) +
          (budget - heightCost checkpoint.memoryHeight) = budget := by
      unfold heightCost at hsum ⊢
      omega
    rw [hbudget] at hlevel
    have := hsq _ hlevel
    rwa [Nat.add_assoc] at this

end Funded

/-- The bytes that no transaction's live memory exceeds. -/
def arenaBound : Nat := 23726560

/-- A funded frame that has paid for `height` bytes ends below
`arenaBound`. -/
theorem Funded.le_arenaBound {limit base budget height : Nat}
    {suspended : List FrameCheckpoint} (h : Funded limit suspended base budget)
    (hlimit : limit ≤ transactionExecutionGasLimit) (hpaid : heightCost height ≤ budget) :
    base + height ≤ arenaBound := by
  obtain ⟨t, hbase, hsq⟩ := h.square_le
  have hheight := le_memoryWordCount height
  have hown : memoryWordCount height * memoryWordCount height ≤ 32768 * budget := by
    have := sq_le_memCost (memoryWordCount height)
    unfold heightCost at hpaid
    omega
  have hall := hsq _ hown
  unfold transactionExecutionGasLimit at hlimit
  have hwords : memoryWordCount height + t ≤ 741455 := by
    by_contra hmore
    have : 741456 * 741456 ≤
        (memoryWordCount height + t) * (memoryWordCount height + t) :=
      Nat.mul_le_mul (by omega) (by omega)
    omega
  unfold arenaBound
  omega

/-! ## Charges -/

theorem gasSub_of_le {left right : Nat} (h : right ≤ left) : gasSub left right = left - right :=
  if_pos h

theorem callGasCapWord_le (available requested : Nat) :
    64 * callGasCapWord available requested ≤ 63 * available + 63 ∧
      callGasCapWord available requested ≤ available := by
  have hsub : gasSub available (available / 64) = available - available / 64 :=
    gasSub_of_le (Nat.div_le_self available 64)
  simp only [callGasCapWord, hsub]
  split <;> omega

theorem heightCost_mono {m n : Nat} (h : m ≤ n) : heightCost m ≤ heightCost n :=
  memCost_mono (memoryWordCount_mono h)

theorem heightCost_zero : heightCost 0 = 0 := by decide

theorem heightCost_max (m n : Nat) :
    heightCost (max m n) = max (heightCost m) (heightCost n) :=
  Monotone.map_max fun _ _ h => heightCost_mono h

/-- An affordable expansion costs at least what it adds to the price of
the frame's memory. -/
theorem memoryExpansionGasCost_affordable {mem requestedHeight available : Nat}
    (h : (memoryExpansionGasCost mem requestedHeight available).affordable = true) :
    requestedHeight ≤ memoryRegionBound ∧
      (memoryExpansionGasCost mem requestedHeight available).cost ≤ available ∧
      heightCost (max mem requestedHeight) ≤
        heightCost mem + (memoryExpansionGasCost mem requestedHeight available).cost := by
  rw [heightCost_max]
  unfold memoryExpansionGasCost at h ⊢
  by_cases hbound : requestedHeight ≤ memoryRegionBound
  · refine ⟨hbound, ?_⟩
    simp only [if_pos hbound] at h ⊢
    by_cases hwords : memoryWordCount requestedHeight ≤ memoryWordCount mem
    · have hcost : heightCost requestedHeight ≤ heightCost mem := memCost_mono hwords
      simp only [if_pos hwords]
      omega
    · have hcost : heightCost mem ≤ heightCost requestedHeight := memCost_mono (by omega)
      have hdef : heightCost mem = memCost (memoryWordCount mem) := rfl
      have hdef' : heightCost requestedHeight = memCost (memoryWordCount requestedHeight) := rfl
      rw [hdef, hdef'] at hcost ⊢
      simp only [if_neg hwords, if_pos hcost] at h ⊢
      split at h
      · rename_i hpay
        simp only [if_pos hpay]
        omega
      · exact nomatch h
  · rw [if_neg hbound] at h
    exact nomatch h

/-! ## Charges take from the pools -/

/-- Halts that an arena of `arenaBound` bytes rules out. -/
def NoAbort (capacity : Nat) (e : Halt) : Prop := arenaBound ≤ capacity → e ≠ .guestAbort

theorem noAbort_fatal (capacity : Nat) (e : FatalError) : NoAbort capacity (.fatal e) :=
  fun _ h => nomatch h

theorem spend_some {p q : GasPools} {cost : Nat} (h : spend p cost = some q) :
    q.gas + cost = p.gas ∧ q.stateSpill = p.stateSpill := by
  unfold spend at h
  split at h
  · exact nomatch h
  · injection h with h
    subst h
    have hle : cost ≤ p.gas := by omega
    refine ⟨?_, rfl⟩
    show gasSub p.gas cost + cost = p.gas
    rw [gasSub_of_le hle]
    omega

theorem spend_spendable {p q : GasPools} {cost : Nat} (h : spend p cost = some q) :
    q.spendable + cost = p.spendable := by
  obtain ⟨hgas, hspill⟩ := spend_some h
  unfold GasPools.spendable
  omega

/-- A paid expansion moves its price from the pools into memory. -/
theorem spendExpansion_some {p q : GasPools} {height requestedHeight : Nat}
    (h : spendExpansion p height requestedHeight = some q) :
    requestedHeight ≤ memoryRegionBound ∧
      q.spendable + heightCost (max height requestedHeight) ≤
        p.spendable + heightCost height := by
  simp only [spendExpansion] at h
  split at h
  · rename_i haffordable
    obtain ⟨hbound, hle, hcost⟩ := memoryExpansionGasCost_affordable haffordable
    injection h with h
    subst h
    refine ⟨hbound, ?_⟩
    simp only [GasPools.spendable, gasSub_of_le hle]
    omega
  · exact nomatch h

section

variable (capacity : Nat)

theorem conservedGasAdd_ends (available credit : Nat) :
    Ends (· = available + credit) (NoAbort capacity) (conservedGasAdd available credit) :=
  Ends.ite (fun _ => rfl) fun _ => noAbort_fatal _ _

theorem stateGasSpillAdd_ends (left right : Nat) :
    Ends (· = left + right) (NoAbort capacity) (stateGasSpillAdd left right) :=
  Ends.ite (fun _ => rfl) fun _ => noAbort_fatal _ _

/-- State gas is never turned into execution gas. -/
theorem chargeStateGas_ends (p : GasPools) (amount : Nat) :
    Ends (fun r => r.2.spendable ≤ p.spendable) (NoAbort capacity)
      (chargeStateGas p amount) := by
  unfold chargeStateGas
  refine Ends.ite (fun _ => Nat.le_refl _) fun _ => ?_
  refine Ends.ite (fun _ => Nat.le_refl _) fun _ => ?_
  refine Ends.ite (fun hle => ?_) fun _ => Nat.le_refl _
  refine Ends.bind (stateGasSpillAdd_ends capacity _ _) fun spilled hspilled => ?_
  simp only [Ends.ok, GasPools.spendable, hspilled]
  omega

theorem spendState_ends (p : GasPools) (amount : Nat) :
    Ends (fun r => ∀ q, r = some q → q.spendable ≤ p.spendable) (NoAbort capacity)
      (spendState p amount) := by
  refine Ends.bind (chargeStateGas_ends capacity p amount) fun r hr => ?_
  intro q hq
  split at hq
  · exact nomatch hq
  · injection hq with hq
    rw [← hq]
    exact hr

/-- A credit gives back at most what had spilled. -/
theorem creditStateGasRefund_ends (p : GasPools) (amount : Nat) :
    Ends (fun q => q.spendable ≤ p.spendable) (NoAbort capacity)
      (creditStateGasRefund p amount) := by
  unfold creditStateGasRefund
  refine Ends.ite (fun hle => ?_) fun _ => ?_
  · refine Ends.ite (fun _ => ?_) fun _ => Nat.le_refl _
    refine Ends.bind (conservedGasAdd_ends capacity _ _) fun gas hgas => ?_
    simp only [Ends.ok, GasPools.spendable, hgas]
    omega
  · have hcredited :
        Ends (· ≤ p.gas + p.stateSpill) (NoAbort capacity)
          (if p.stateSpill ≠ 0 then conservedGasAdd p.gas p.stateSpill else .ok p.gas) :=
      Ends.ite (fun _ => (conservedGasAdd_ends capacity _ _).mono fun _ h => h.le)
        fun _ => Nat.le_add_right _ _
    refine Ends.bind hcredited fun credited hle => ?_
    refine Ends.bind (conservedGasAdd_ends capacity _ _) fun stateGas _ => ?_
    simpa [GasPools.spendable] using hle

theorem creditNewAccount_ends (p : GasPools) (newAccountCharged : Bool) :
    Ends (fun q => q.spendable ≤ p.spendable) (NoAbort capacity)
      (creditNewAccount p newAccountCharged) :=
  Ends.ite (fun _ => creditStateGasRefund_ends capacity p _) fun _ => Nat.le_refl _

theorem chargeNewAccount_ends (p : GasPools) (newAccountCharged : Bool) :
    Ends (fun r => ∀ q, r = some q → q.spendable ≤ p.spendable) (NoAbort capacity)
      (chargeNewAccount p newAccountCharged) := by
  refine Ends.ite (fun _ => spendState_ends capacity p _) fun _ => ?_
  intro q hq
  injection hq with hq
  exact (congrArg GasPools.spendable hq.symm).le

theorem returnChildStateGas_ends (parentRemaining parentSpilled childRemaining
    childSpilled : Nat) :
    Ends (fun r => r.2 = parentSpilled + childSpilled) (NoAbort capacity)
      (returnChildStateGas parentRemaining parentSpilled childRemaining childSpilled) := by
  refine Ends.ite (fun _ => ?_) fun _ => noAbort_fatal _ _
  exact Ends.bind (stateGasSpillAdd_ends capacity _ _) fun _ h => h

/-! ## Memory stays where it fits -/

theorem memoryAbsolute_ends (base relative : Nat) :
    Ends (· = base + relative) (NoAbort capacity) (memoryAbsolute base relative) :=
  Ends.ite (fun _ => rfl) fun _ => noAbort_fatal _ _

theorem absoluteRegion_ends {off len : Nat} (h : off + len ≤ capacity) :
    Ends (fun _ => True) (NoAbort capacity) (absoluteRegion capacity off len) := by
  have hin : ¬ (capacity < off ∨ capacity - off < len) := by omega
  rw [absoluteRegion, if_neg hin]
  trivial

theorem touchRange_ends {base height off len : Nat} (hfits : base + height ≤ capacity)
    (hin : off + len ≤ height) :
    Ends (fun _ => True) (NoAbort capacity) (touchRange capacity base off len) := by
  refine Ends.ite (fun _ => trivial) fun _ => ?_
  refine Ends.bind (memoryAbsolute_ends capacity base off) fun absoluteOffset habs => ?_
  exact absoluteRegion_ends capacity (by omega)

theorem returndataCopyPrefix_ends {dst outputLen want : Nat} (h : dst + want ≤ capacity) :
    Ends (fun _ => True) (NoAbort capacity)
      (returndataCopyPrefix capacity outputLen dst want) := by
  refine Ends.ite (fun _ => trivial) fun _ => absoluteRegion_ends capacity ?_
  split <;> omega

theorem memoryAccess_ends (o : Operand) :
    Ends (fun a => a.off + a.len = a.requestedHeight ∧
        a.requestedHeight = memoryRequestedHeight o.start o.size) (NoAbort capacity)
      (memoryAccess o) := by
  unfold memoryAccess memoryRequestedHeight
  by_cases hsize : o.size = 0
  · simp [hsize]
  · simp only [if_neg hsize]
    by_cases hstart : o.start ≤ memoryRegionBound
    · simp only [if_pos hstart]
      by_cases hend : o.size ≤ memoryRegionBound - o.start
      · simp [hend]
      · simp only [if_neg hend]
        exact noAbort_fatal _ _
    · simp only [if_neg hstart]
      exact noAbort_fatal _ _

theorem expandMemory_ends {base height requestedHeight : Nat}
    (hfits : base + height ≤ capacity)
    (hroom : arenaBound ≤ capacity → base + max height requestedHeight ≤ capacity) :
    Ends (fun h => h = max height requestedHeight ∧ base + h ≤ capacity) (NoAbort capacity)
      (expandMemory capacity base height requestedHeight) := by
  refine Ends.ite (fun _ => ?_) fun _ => noAbort_fatal _ _
  refine Ends.ite (fun hlt => ?_) fun hge => ?_
  · unfold evmMemoryExpand
    split
    · rename_i hover
      intro hbig
      have := hroom hbig
      omega
    · simp only [ok_bind, Ends.ok]
      omega
  · simp only [Ends.ok]
    omega

theorem operandsHeight_eq (a b : Operand) :
    operandsHeight a b =
      max (memoryRequestedHeight a.start a.size) (memoryRequestedHeight b.start b.size) := by
  simp only [operandsHeight]
  split <;> omega

theorem materialize_ends {base height : Nat} {a b : Operand}
    (hfits : base + height ≤ capacity)
    (hroom : arenaBound ≤ capacity → base + max height (operandsHeight a b) ≤ capacity) :
    Ends (fun r => r.1 = max height (operandsHeight a b) ∧ base + r.1 ≤ capacity ∧
        r.2.1.off + r.2.1.len ≤ r.1 ∧ r.2.2.off + r.2.2.len ≤ r.1) (NoAbort capacity)
      (materialize capacity base height a b) := by
  refine Ends.bind (memoryAccess_ends capacity a) fun first hfirst => ?_
  refine Ends.bind (memoryAccess_ends capacity b) fun second hsecond => ?_
  have hrequired : (if first.requestedHeight < second.requestedHeight
      then second.requestedHeight else first.requestedHeight) = operandsHeight a b := by
    rw [operandsHeight_eq]
    split <;> omega
  dsimp only
  rw [hrequired]
  refine Ends.bind (expandMemory_ends capacity hfits hroom) fun h hh => ?_
  have hmax := operandsHeight_eq a b
  simp only [Ends.ok]
  omega

/-! ## One frame -/

/-- What a frame has paid for its memory and can still spend. -/
def framePaid (f : Frame) : Nat := f.pools.spendable + heightCost f.memoryHeight

/-- `f` came from `f₀` without gaining gas or leaving the arena. -/
structure Sparing (f₀ f : Frame) : Prop where
  base : f.memoryBase = f₀.memoryBase
  paid : framePaid f ≤ framePaid f₀
  fits : f.memoryBase + f.memoryHeight ≤ capacity

/-- A frame inside an arena which, if it has `arenaBound` bytes, holds
whatever the frame can pay for. -/
structure Roomy (f : Frame) : Prop where
  fits : f.memoryBase + f.memoryHeight ≤ capacity
  room : arenaBound ≤ capacity → ∀ height, heightCost height ≤ framePaid f →
    f.memoryBase + height ≤ capacity

variable {capacity} {amsterdam : Bool} {f : Frame}

/-- An exceptional halt gives up all execution gas. -/
theorem exceptionalState_sparing {f₀ : Frame} {p : GasPools}
    (hbase : f.memoryBase = f₀.memoryBase)
    (hfits : f.memoryBase + f.memoryHeight ≤ capacity)
    (hpaid : p.spendable + heightCost f.memoryHeight ≤ framePaid f₀) :
    Sparing capacity f₀ (exceptionalState amsterdam f p) := by
  refine ⟨hbase, ?_, hfits⟩
  have hspill : (exceptionalState amsterdam f p).pools.spendable ≤ p.spendable := by
    cases amsterdam <;> simp [exceptionalState, GasPools.spendable]
  have hheight : (exceptionalState amsterdam f p).memoryHeight = f.memoryHeight := rfl
  unfold framePaid at hpaid ⊢
  rw [hheight]
  omega

theorem Roomy.exceptional (h : Roomy capacity f) :
    Sparing capacity f (exceptionalState amsterdam f f.pools) :=
  exceptionalState_sparing rfl h.fits (Nat.le_refl _)

theorem Roomy.with_pools (h : Roomy capacity f) {p : GasPools}
    (hp : p.spendable ≤ f.pools.spendable) : Sparing capacity f { f with pools := p } :=
  ⟨rfl, Nat.add_le_add_right hp _, h.fits⟩

theorem chargeGas_sparing (h : Roomy capacity f) (cost : Nat) :
    Sparing capacity f (chargeGas amsterdam f cost) := by
  unfold chargeGas
  split
  · exact h.exceptional
  · rename_i p hp
    have := spend_spendable hp
    exact h.with_pools (by omega)

/-- Memory that has been paid for materializes. -/
theorem Roomy.materialize_ends (h : Roomy capacity f) {q : GasPools} {a b : Operand}
    (hq : q.spendable + heightCost (max f.memoryHeight (operandsHeight a b)) ≤ framePaid f) :
    Ends (fun r => r.1 = max f.memoryHeight (operandsHeight a b) ∧
        f.memoryBase + r.1 ≤ capacity ∧
        r.2.1.off + r.2.1.len ≤ r.1 ∧ r.2.2.off + r.2.2.len ≤ r.1) (NoAbort capacity)
      (materialize capacity f.memoryBase f.memoryHeight a b) :=
  EvmSail.materialize_ends capacity h.fits fun hbig => h.room hbig _ (by omega)

theorem accessMemory_ends (h : Roomy capacity f) (a b : Operand) :
    Ends (Sparing capacity f) (NoAbort capacity) (accessMemory amsterdam capacity f a b) := by
  unfold accessMemory
  split
  · exact h.exceptional
  · rename_i p hp
    obtain ⟨-, hpaid⟩ := spendExpansion_some hp
    refine Ends.bind (h.materialize_ends hpaid) fun r ⟨hheight, hfits, hfirst, hsecond⟩ => ?_
    refine Ends.bind (touchRange_ends capacity hfits hfirst) fun _ _ => ?_
    refine Ends.bind (touchRange_ends capacity hfits hsecond) fun _ _ => ?_
    refine ⟨rfl, ?_, hfits⟩
    unfold framePaid
    rw [hheight]
    exact hpaid

theorem chargeState_ends (h : Roomy capacity f) (amount : Nat) :
    Ends (Sparing capacity f) (NoAbort capacity) (chargeState amsterdam f amount) := by
  refine Ends.bind (spendState_ends capacity f.pools amount) fun r hr => ?_
  cases r with
  | none => exact h.exceptional
  | some p => exact h.with_pools (hr p rfl)

theorem creditState_ends (h : Roomy capacity f) (amount : Nat) :
    Ends (Sparing capacity f) (NoAbort capacity) (creditState f amount) :=
  Ends.bind (creditStateGasRefund_ends capacity f.pools amount) fun _ hp => h.with_pools hp

theorem executeReturn_ends (h : Roomy capacity f) (output : Operand) :
    Ends (Sparing capacity f) (NoAbort capacity)
      (executeReturn amsterdam capacity f output) := by
  refine Ends.bind (accessMemory_ends h output noOperand) fun g hg => ?_
  exact Ends.ite (fun _ => hg) fun _ => ⟨hg.base, hg.paid, hg.fits⟩

/-- The spill that a revert gives back had been taken from the same
frame. -/
theorem executeRevert_ends (h : Roomy capacity f) (output : Operand) :
    Ends (Sparing capacity f) (NoAbort capacity)
      (executeRevert amsterdam capacity f output) := by
  refine Ends.bind (accessMemory_ends h output noOperand) fun g hg => ?_
  refine Ends.ite (fun _ => hg) fun _ => ?_
  refine Ends.ite (fun _ => ?_) fun _ => ⟨hg.base, hg.paid, hg.fits⟩
  refine Ends.bind (conservedGasAdd_ends capacity _ _) fun gas hgas => ?_
  refine ⟨hg.base, ?_, hg.fits⟩
  rw [hgas]
  exact hg.paid

/-! ## The stack -/

/-- The invariant of the machine. -/
def Within (limit capacity : Nat) (m : Machine) : Prop :=
  ∃ budget, Funded limit m.suspended m.frame.memoryBase budget ∧
    framePaid m.frame ≤ budget ∧ m.frame.memoryBase + m.frame.memoryHeight ≤ capacity

variable {limit : Nat} {m : Machine}

theorem Within.le_arenaBound (h : Within limit capacity m)
    (hlimit : limit ≤ transactionExecutionGasLimit) :
    m.frame.memoryBase + m.frame.memoryHeight ≤ arenaBound := by
  obtain ⟨budget, hfunded, hpaid, -⟩ := h
  exact hfunded.le_arenaBound hlimit (by unfold framePaid at hpaid; omega)

theorem Within.roomy (h : Within limit capacity m)
    (hlimit : limit ≤ transactionExecutionGasLimit) : Roomy capacity m.frame := by
  obtain ⟨budget, hfunded, hpaid, hfits⟩ := h
  refine ⟨hfits, fun hbig height hcost => ?_⟩
  exact (hfunded.le_arenaBound hlimit (hcost.trans hpaid)).trans hbig

theorem Within.with_frame (h : Within limit capacity m) (hf : Sparing capacity m.frame f) :
    Within limit capacity { m with frame := f } := by
  obtain ⟨budget, hfunded, hpaid, -⟩ := h
  exact ⟨budget, hf.base ▸ hfunded, hf.paid.trans hpaid, hf.fits⟩

/-- A child whose gas leaves the parent within its budget, and is at most
63/64 of what the parent's memory left of it. -/
theorem enterFrame_ends {suspended : List FrameCheckpoint} {budget childGas : Nat}
    {awaits : Awaits} {newAccountCharged : Bool}
    (hfunded : Funded limit suspended f.memoryBase budget)
    (hsum : framePaid f + childGas ≤ budget)
    (hlent : 64 * childGas ≤ 63 * (budget - heightCost f.memoryHeight))
    (hawaits : awaits.InMemory f.memoryHeight)
    (hfits : f.memoryBase + f.memoryHeight ≤ capacity) :
    Ends (Within limit capacity) (NoAbort capacity)
      (enterFrame f suspended awaits newAccountCharged childGas) := by
  refine Ends.bind (memoryAbsolute_ends capacity _ _) fun childMemoryBase hbase => ?_
  refine ⟨childGas, ?_, ?_, ?_⟩
  · rw [hbase]
    exact Funded.nested hfunded hsum hlent hawaits
  · simp [framePaid, GasPools.spendable, heightCost_zero]
  · rw [hbase]
    exact hfits

/-! ## Calls -/

theorem accountCost_pos (amsterdam warm : Bool) : 100 ≤ accountCost amsterdam warm := by
  cases amsterdam <;> cases warm <;> decide

theorem callValueCost_ge (amsterdam : Bool) : 9000 ≤ callValueCost amsterdam := by
  cases amsterdam <;> decide

theorem createAccessCost_ge (amsterdam : Bool) : 11000 ≤ createAccessCost amsterdam := by
  cases amsterdam <;> decide

/-- What a call spends at least on the access to its target and, with a
value, on the transfer. -/
def callFee (valueNonzero : Bool) : Nat := if valueNonzero then 9100 else 100

theorem callFee_le (amsterdam : Bool) (c : CallOperands) :
    callFee c.valueNonzero ≤
      accountCost amsterdam c.warm +
        (if c.valueNonzero then callValueCost amsterdam else 0) := by
  have htarget := accountCost_pos amsterdam c.warm
  have hvalue := callValueCost_ge amsterdam
  unfold callFee
  split <;> omega

/-- The stipend is a small part of the fee. -/
theorem stipend_le_callFee (valueNonzero : Bool) :
    64 * (if valueNonzero then callStipend else 0) + 63 ≤ 63 * callFee valueNonzero := by
  cases valueNonzero <;> decide

/-- Before it lends anything, a call pays for its memory and its fee. -/
theorem callCharges_ends (f : Frame) (c : CallOperands) :
    Ends (fun r => ∀ q, r = some q →
        q.spendable + heightCost (max f.memoryHeight (operandsHeight c.args c.ret)) +
          callFee c.valueNonzero ≤ framePaid f) (NoAbort capacity)
      (callCharges amsterdam f c) := by
  simp only [callCharges]
  cases hexpansion : spendExpansion f.pools f.memoryHeight (operandsHeight c.args c.ret) with
  | none => exact fun q hq => nomatch hq
  | some p₁ =>
    dsimp only
    obtain ⟨-, hpaid⟩ := spendExpansion_some hexpansion
    cases hstatic : spend p₁ (accountCost amsterdam c.warm +
        (if c.valueNonzero then callValueCost amsterdam else 0)) with
    | none => exact fun q hq => nomatch hq
    | some p₂ =>
      dsimp only
      split
      · exact fun q hq => nomatch hq
      · rename_i p₃ hadditional
        refine (chargeNewAccount_ends capacity p₃ _).mono fun r hr q hq => ?_
        have hlast := hr q hq
        have hthird := spend_spendable hadditional
        have hsecond := spend_spendable hstatic
        have hfee := callFee_le amsterdam c
        unfold framePaid
        omega

/-- A frame that has grown to `height` and kept what it did not pay. -/
theorem grown_sparing {f : Frame} {p : GasPools} {height : Nat}
    (hfits : f.memoryBase + height ≤ capacity)
    (hpaid : p.spendable + heightCost height ≤ framePaid f) :
    Sparing capacity f { f with pools := p, memoryHeight := height } :=
  ⟨rfl, hpaid, hfits⟩

theorem runCall_ends (h : Within limit capacity m)
    (hlimit : limit ≤ transactionExecutionGasLimit) (c : CallOperands) :
    Ends (Within limit capacity) (NoAbort capacity) (runCall amsterdam capacity m c) := by
  have hroomy := h.roomy hlimit
  refine Ends.bind (callCharges_ends m.frame c) fun r hr => ?_
  cases r with
  | none => exact h.with_frame hroomy.exceptional
  | some p =>
    have hpaid := hr p rfl
    obtain ⟨hcap, hcapLe⟩ := callGasCapWord_le p.gas c.gasRequest
    dsimp only
    split
    · refine h.with_frame (exceptionalState_sparing rfl hroomy.fits ?_)
      have := heightCost_mono (Nat.le_max_left m.frame.memoryHeight (operandsHeight c.args c.ret))
      omega
    · rename_i q hq
      obtain ⟨hqgas, hqspill⟩ := spend_some hq
      have hspendable := spend_spendable hq
      refine Ends.bind (hroomy.materialize_ends (q := q) (by omega))
        fun r ⟨hheight, hfits, hargs, hret⟩ => ?_
      obtain ⟨height, args, ret⟩ := r
      dsimp only at hheight hfits hargs hret ⊢
      rw [← hheight] at hpaid
      refine Ends.bind (conservedGasAdd_ends capacity _ _) fun childGas hchild => ?_
      have hstipend := stipend_le_callFee c.valueNonzero
      generalize (if c.valueNonzero then callStipend else 0) = stipend at hchild hstipend
      -- Without a child, what was lent comes back at most once.  The
      -- stipend on top of it has been paid as part of the fee.
      have hback : ∀ p : GasPools, p.spendable ≤ q.spendable + childGas →
          Sparing capacity m.frame { m.frame with pools := p, memoryHeight := height } :=
        fun p hp => grown_sparing hfits (by omega)
      refine Ends.ite (fun _ => ?_) fun _ => ?_
      · refine Ends.bind (conservedGasAdd_ends capacity _ _) fun gas hgas => ?_
        refine Ends.bind (creditNewAccount_ends capacity _ _) fun p hp => ?_
        refine h.with_frame (hback p (hp.trans ?_))
        simp only [GasPools.spendable, hgas]
        omega
      · cases c.callee with
        | precompile cost succeeds outputLen =>
          refine Ends.bind (touchRange_ends capacity hfits hargs) fun _ _ => ?_
          refine Ends.ite (fun _ => ?_) fun _ => ?_
          · refine Ends.bind (memoryAbsolute_ends capacity _ _) fun destination hdst => ?_
            refine Ends.bind (returndataCopyPrefix_ends capacity (by omega)) fun _ _ => ?_
            refine Ends.bind (conservedGasAdd_ends capacity _ _) fun gas hgas => ?_
            refine h.with_frame (hback _ ?_)
            have hunused : gasSub childGas cost ≤ childGas := by
              unfold gasSub
              split <;> omega
            simp only [GasPools.spendable, hgas]
            omega
          · refine Ends.bind (creditNewAccount_ends capacity _ _) fun p hp => ?_
            exact h.with_frame (hback p (by omega))
        | code =>
          refine Ends.bind (touchRange_ends capacity hfits hargs) fun _ _ => ?_
          obtain ⟨budget, hfunded, hbudget, -⟩ := h
          have hgasLe : p.gas ≤ p.spendable := Nat.le_add_right _ _
          refine enterFrame_ends hfunded ?_ ?_ hret hfits
          · show q.spendable + heightCost height + childGas ≤ budget
            omega
          · show 64 * childGas ≤ 63 * (budget - heightCost height)
            omega

/-- The requirement on a creation's charges: its fee, and no gain. -/
theorem createCharges_some {p q : GasPools} {c : CreateOperands}
    (h : createCharges amsterdam p c = some q) : q.spendable + 11000 ≤ p.spendable := by
  simp only [createCharges, Option.bind_eq_bind, Option.bind_eq_some_iff] at h
  obtain ⟨p₁, h₁, p₂, h₂, p₃, h₃, h⟩ := h
  have hq : p₃ = q := by
    split at h
    · exact Option.some.inj h
    · exact nomatch h
  have haccess := createAccessCost_ge amsterdam
  have hfirst := spend_spendable h₁
  have hsecond := spend_spendable h₂
  have hthird := spend_spendable h₃
  rw [← hq]
  omega

/-- A creation keeps one sixty-fourth. -/
theorem lendCreateGas_spec (p : GasPools) :
    (lendCreateGas p).1.spendable + (lendCreateGas p).2 = p.spendable ∧
      64 * (lendCreateGas p).2 ≤ 63 * p.gas + 63 := by
  have hsub : gasSub p.gas (p.gas / 64) = p.gas - p.gas / 64 :=
    gasSub_of_le (Nat.div_le_self p.gas 64)
  simp only [lendCreateGas, GasPools.spendable, hsub]
  omega

theorem runCreate_ends (h : Within limit capacity m)
    (hlimit : limit ≤ transactionExecutionGasLimit) (c : CreateOperands) :
    Ends (Within limit capacity) (NoAbort capacity) (runCreate amsterdam capacity m c) := by
  have hroomy := h.roomy hlimit
  simp only [runCreate]
  split
  · exact h.with_frame hroomy.exceptional
  · rename_i p hp
    obtain ⟨-, hpaid⟩ := spendExpansion_some hp
    refine Ends.bind (hroomy.materialize_ends hpaid) fun r ⟨hheight, hfits, hcode, _⟩ => ?_
    obtain ⟨height, initcode, unused⟩ := r
    dsimp only at hheight hfits hcode ⊢
    rw [← hheight] at hpaid
    have hkept : ∀ q : GasPools, q.spendable ≤ p.spendable →
        Sparing capacity m.frame { m.frame with pools := q, memoryHeight := height } :=
      fun q hq => grown_sparing hfits (by unfold framePaid; omega)
    have hhalts : ∀ q : GasPools, q.spendable ≤ p.spendable →
        Sparing capacity m.frame
          (exceptionalState amsterdam { m.frame with memoryHeight := height } q) :=
      fun q hq => exceptionalState_sparing rfl hfits (by unfold framePaid; dsimp only; omega)
    split
    · exact h.with_frame (hhalts p (Nat.le_refl _))
    · rename_i p₁ hp₁
      have hcharged := createCharges_some hp₁
      refine Ends.bind (touchRange_ends capacity hfits hcode) fun _ _ => ?_
      refine Ends.ite (fun _ => ?_) fun _ => ?_
      · refine Ends.ite (fun _ => h.with_frame (hkept p₁ (by omega))) fun _ => ?_
        obtain ⟨hlend, -⟩ := lendCreateGas_spec p₁
        refine Ends.bind (conservedGasAdd_ends capacity _ _) fun gas hgas => ?_
        refine h.with_frame (hkept _ ?_)
        rw [hgas]
        simp only [GasPools.spendable] at hlend hcharged ⊢
        omega
      · refine Ends.bind (chargeNewAccount_ends capacity p₁ _) fun r hr => ?_
        cases r with
        | none => exact h.with_frame (hhalts p₁ (by omega))
        | some p₂ =>
          have hstate := hr p₂ rfl
          obtain ⟨hlend, hshare⟩ := lendCreateGas_spec p₂
          refine Ends.ite (fun _ => ?_) fun _ => ?_
          · refine Ends.bind (creditNewAccount_ends capacity _ _) fun p₃ hp₃ => ?_
            exact h.with_frame (hkept p₃ (by omega))
          · obtain ⟨budget, hfunded, hbudget, -⟩ := h
            have hgasLe : p₂.gas ≤ p₂.spendable := Nat.le_add_right _ _
            have hframe : framePaid m.frame =
              m.frame.pools.spendable + heightCost m.frame.memoryHeight := rfl
            refine enterFrame_ends hfunded ?_ ?_ trivial hfits
            · show (lendCreateGas p₂).1.spendable + heightCost height + (lendCreateGas p₂).2 ≤
                budget
              omega
            · show 64 * (lendCreateGas p₂).2 ≤ 63 * (budget - heightCost height)
              omega

/-! ## Resumption -/

theorem settleCreate_ends (child : Frame) (d : Deployment) :
    Ends (fun f => f.memoryBase = child.memoryBase ∧
        f.pools.spendable ≤ child.pools.spendable) (NoAbort capacity)
      (settleCreate amsterdam child d) := by
  have hhalts : ∀ p : GasPools, p.spendable ≤ child.pools.spendable →
      (exceptionalState amsterdam child p).memoryBase = child.memoryBase ∧
        (exceptionalState amsterdam child p).pools.spendable ≤ child.pools.spendable := by
    intro p hp
    refine ⟨rfl, le_trans ?_ hp⟩
    cases amsterdam <;> simp [exceptionalState, GasPools.spendable]
  unfold settleCreate
  refine Ends.ite (fun _ => ?_) fun _ => ⟨rfl, Nat.le_refl _⟩
  refine Ends.ite (fun _ => hhalts _ (Nat.le_refl _)) fun _ => ?_
  split
  · rename_i p hp
    have hspent := spend_spendable hp
    refine Ends.bind (spendState_ends capacity p d.stateDeposit) fun r hr => ?_
    cases r with
    | none => exact hhalts p (by omega)
    | some q =>
      have := hr q rfl
      exact ⟨rfl, by dsimp only; omega⟩
  · refine Ends.ite (fun _ => hhalts _ (Nat.le_refl _)) fun _ => ⟨rfl, ?_⟩
    simp [GasPools.spendable]

theorem settleChild_ends (child : Frame) (awaits : Awaits) (d : Deployment) :
    Ends (fun f => f.memoryBase = child.memoryBase ∧
        f.pools.spendable ≤ child.pools.spendable) (NoAbort capacity)
      (settleChild amsterdam child awaits d) := by
  cases awaits with
  | call returnOffset returnLength => exact ⟨rfl, Nat.le_refl _⟩
  | create => exact settleCreate_ends child d

theorem writeOutput_ends {base height outputLen : Nat} {awaits : Awaits}
    (hfits : base + height ≤ capacity) (hawaits : awaits.InMemory height) :
    Ends (fun _ => True) (NoAbort capacity) (writeOutput capacity base awaits outputLen) := by
  cases awaits with
  | create => trivial
  | call returnOffset returnLength =>
    have hrange : returnOffset + returnLength ≤ height := hawaits
    refine Ends.bind (memoryAbsolute_ends capacity _ _) fun destination hdst => ?_
    exact returndataCopyPrefix_ends capacity (by omega)

theorem memoryParentBase_ends (childBase parentHeight : Nat) :
    Ends (· = childBase - parentHeight) (NoAbort capacity)
      (memoryParentBase childBase parentHeight) :=
  Ends.ite (fun _ => rfl) fun _ => noAbort_fatal _ _

/-- A parent gets back at most the budget of its child. -/
theorem resumeFrame_ends (h : Within limit capacity m) (d : Deployment) :
    Ends (Within limit capacity) (NoAbort capacity) (resumeFrame amsterdam capacity m d) := by
  unfold resumeFrame
  split
  · exact h
  · rename_i checkpoint suspended hsuspended
    obtain ⟨childBudget, hfunded, hpaid, hfits⟩ := h
    rw [hsuspended] at hfunded
    generalize hchildBase : m.frame.memoryBase = childBase at hfunded hfits
    cases hfunded with
    | @nested _ base budget _ _ hparent hsum _ hawaits =>
      refine Ends.bind (settleChild_ends m.frame checkpoint.awaits d)
        fun child ⟨hbase, hspent⟩ => ?_
      refine Ends.bind (memoryParentBase_ends _ _) fun parentBase hparentBase => ?_
      have hbaseEq : parentBase = base := by
        rw [hparentBase, hbase, hchildBase]
        omega
      subst hbaseEq
      refine Ends.bind (conservedGasAdd_ends capacity _ _) fun gas hgas => ?_
      refine Ends.bind (returnChildStateGas_ends capacity _ _ _ _) fun r hr => ?_
      have hheight : parentBase + checkpoint.memoryHeight ≤ capacity := by omega
      refine Ends.bind (writeOutput_ends hheight hawaits) fun _ _ => ?_
      refine Ends.bind (creditNewAccount_ends capacity _ _) fun pools hpools => ?_
      refine ⟨budget, hparent, ?_, hheight⟩
      have hframe : framePaid m.frame =
        m.frame.pools.spendable + heightCost m.frame.memoryHeight := rfl
      show pools.spendable + heightCost checkpoint.memoryHeight ≤ budget
      simp only [GasPools.spendable] at *
      omega

/-! ## Runs -/

/-- Every effect keeps the invariant, and no effect aborts in an arena of
`arenaBound` bytes. -/
theorem step_within (h : Within limit capacity m)
    (hlimit : limit ≤ transactionExecutionGasLimit) (e : Effect) :
    Ends (Within limit capacity) (NoAbort capacity) (step amsterdam capacity m e) := by
  have hroomy := h.roomy hlimit
  have hframe : ∀ {x : Result Frame}, Ends (Sparing capacity m.frame) (NoAbort capacity) x →
      Ends (Within limit capacity) (NoAbort capacity)
        (x >>= fun f => .ok { m with frame := f }) :=
    fun hx => Ends.bind hx fun _ hf => h.with_frame hf
  refine Ends.ite (fun _ => ?_) fun _ => ?_
  · cases e with
    | charge cost => exact h.with_frame (chargeGas_sparing hroomy cost)
    | memory a b => exact hframe (accessMemory_ends hroomy a b)
    | stateCharge amount => exact hframe (chargeState_ends hroomy amount)
    | stateCredit amount => exact hframe (creditState_ends hroomy amount)
    | call c => exact runCall_ends h hlimit c
    | create c => exact runCreate_ends h hlimit c
    | fail => exact h.with_frame hroomy.exceptional
    | stop output => exact hframe (executeReturn_ends hroomy output)
    | revert output => exact hframe (executeRevert_ends hroomy output)
    | resume d => exact h
  · cases e with
    | resume d => exact resumeFrame_ends h d
    | _ => exact h

theorem run_within (hlimit : limit ≤ transactionExecutionGasLimit) (effects : List Effect) :
    ∀ {m : Machine}, Within limit capacity m →
      Ends (Within limit capacity) (NoAbort capacity) (run amsterdam capacity m effects) := by
  induction effects with
  | nil => exact fun h => h
  | cons e effects ih => exact fun h => Ends.bind (step_within h hlimit e) fun _ h' => ih h'

theorem startMachine_within (p : GasPools) :
    Within p.spendable capacity (startMachine p) := by
  refine ⟨p.spendable, Funded.outermost, ?_, Nat.zero_le _⟩
  have hpaid : framePaid (startMachine p).frame = p.spendable + heightCost 0 := rfl
  rw [hpaid, heightCost_zero]
  exact Nat.le_refl _

end

/-- The bytes of all live frames. -/
def liveMemory (m : Machine) : Nat :=
  (m.suspended.map (·.memoryHeight)).sum + m.frame.memoryHeight

/-- For every transaction of at most `2 ^ 24` execution gas, the live
frames together never hold more than `arenaBound` bytes, nor more than the
arena has; and an arena of `arenaBound` bytes never aborts. -/
theorem liveMemory_bounded (amsterdam : Bool) (capacity : Nat) (p : GasPools)
    (effects : List Effect) (hp : p.gas + p.stateSpill ≤ transactionExecutionGasLimit) :
    (∀ m, run amsterdam capacity (startMachine p) effects = .ok m →
      m.frame.memoryBase + m.frame.memoryHeight = liveMemory m ∧
        liveMemory m ≤ arenaBound ∧ liveMemory m ≤ capacity) ∧
      (arenaBound ≤ capacity →
        run amsterdam capacity (startMachine p) effects ≠ .error .guestAbort) := by
  have hrun : Ends (Within p.spendable capacity) (NoAbort capacity)
      (run amsterdam capacity (startMachine p) effects) :=
    run_within hp effects (startMachine_within p)
  refine ⟨fun m hm => ?_, fun hbig habort => hrun.of_error habort hbig rfl⟩
  have hwithin := hrun.of_ok hm
  have hbound := hwithin.le_arenaBound hp
  obtain ⟨budget, hfunded, -, hfits⟩ := hwithin
  have hlive : m.frame.memoryBase + m.frame.memoryHeight = liveMemory m := by
    rw [hfunded.base_eq]
    rfl
  exact ⟨hlive, hlive ▸ hbound, hlive ▸ hfits⟩

/-! ## The guest's arena is smaller -/

/-- A frame of `words` words, in `PUSH1 0`, `PUSH3`, `MSTORE`, five times
`PUSH1 0`, `PUSH20` and `GAS`, that then calls an untouched contract with
all its gas. -/
def deepFrame (words : Nat) : List Effect :=
  [.charge 3, .charge 3, .charge 3, .memory ⟨32 * words - 32, 32⟩ noOperand,
    .charge 3, .charge 3, .charge 3, .charge 3, .charge 3, .charge 3, .charge 2,
    .call
      { gasRequest := 2 ^ 64
        valueNonzero := false
        transfersValue := true
        args := noOperand
        ret := noOperand
        warm := false
        delegate := none
        targetEmpty := false
        insufficientBalance := false
        callee := .code }]

/-- Fifty-nine such frames, each smaller than its caller. -/
def deepRun : List Effect := (List.range 59).flatMap fun i => deepFrame (12250 - 115 * i)

/-- The pools of a transaction of `2 ^ 24` gas after the intrinsic cost. -/
def deepPools : GasPools := { gas := 16777216 - 21000, stateGas := 0, stateSpill := 0 }

set_option maxRecDepth 20000 in
/-- The transaction runs out of arena before it runs out of gas. -/
theorem guestArena_exhausted :
    deepPools.gas + deepPools.stateSpill ≤ transactionExecutionGasLimit ∧
      run false guestEvmMemoryBytes (startMachine deepPools) deepRun = .error .guestAbort := by
  refine ⟨by decide, ?_⟩
  rfl

/-- In an arena of `arenaBound` bytes it does not. -/
theorem liveMemory_bounded_deepRun :
    run false arenaBound (startMachine deepPools) deepRun ≠ .error .guestAbort :=
  (liveMemory_bounded false arenaBound deepPools deepRun (by decide)).2 (Nat.le_refl _)

end EvmSail
