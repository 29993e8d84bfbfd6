/-
# `EvmSail.Vm.Refunds` — the refund counters of a run

A frame counts refunds from zero.  Its counter joins that of the frame below
it when it succeeds, and is dropped when it fails, with what it has stored.
One counter alone can be negative: a frame may fill a slot again that a
frame below it has cleared.

`StoreRefunds` follows the counters of a transaction, whatever the frames do
in between.  Here the interpreter is shown to move them in no other way, so
that in every run all the counters of the live frames together pay for every
slot that is clear (`refunds_cover`).
-/
import EvmSail.Evm.StoreRefunds
import EvmSail.Vm.Rollback

namespace EvmSail.Vm

open Fallible Kernel Kept Relation

section

variable {ctx : Context}

/-! ## A store -/

/-- What a slot reads as is what a load of it finds. -/
theorem slotReads_of_reading {env : Env} {a : Address} {slot : Word} {entry : StorageValue}
    {h : Host} (hentry : slotReading env h.state ⟨a, slot⟩ = .ok entry) :
    SlotReads h.state.effects ⟨a, slot⟩ entry := by
  have hload := (@kSload_reading env a slot h).trans hentry
  cases hrun : (kSload env a slot).run h with
  | error halt =>
    rw [hrun] at hload
    cases hload
  | ok r =>
    rw [hrun] at hload
    cases hload
    exact loadSlot_slotReads hrun

/-- A store is paid for by the rise of what its slot is worth. -/
theorem SlotStored.secured {held : StorageValue → Prop} [DecidablePred held] {price : Nat}
    {f : Frame} {slot v : Word} {entry : StorageValue} {h h' : Host} {total delta : Int}
    (hentry : slotReading ctx.kernel h.state ⟨f.message.address, slot⟩ = .ok entry)
    (hstored : SlotStored ctx f slot v entry h h') (hchanged : ∀ u, held u → u.curr ≠ u.orig)
    (hdelta : worth held price { curr := v, orig := entry.orig } - worth held price entry ≤ delta)
    (hsecured : Secured held price h.state.effects total) :
    Secured held price h'.state.effects (total + delta) := by
  have hreads := slotReads_of_reading hentry
  by_cases hne : entry.curr ≠ v
  · have hrun := (if_pos hne).mp hstored
    cases hrun
    refine hsecured.store hchanged hreads (fun k u hu => ?_) hdelta
    rcases storageTxUpdate_holds hreads hu with hother | ⟨hkey, rfl⟩
    · exact .inl hother
    · exact .inr ⟨hkey, rfl, rfl⟩
  · obtain rfl : h' = h := (if_neg hne).mp hstored
    obtain rfl := not_not.mp hne
    rw [sub_self] at hdelta
    exact hsecured.mono (fun _ _ hv => hv) (Int.le_add_of_nonneg_right hdelta)

/-- The refund of a store pays for the slot that it clears, and takes back no
more than what was held for the slot that it fills. -/
theorem SlotStored.awarded {f : Frame} {slot v : Word} {entry : StorageValue} {cold : Bool}
    {s : MachineState} {pools : GasPools} {refund rest : Int} {kernel : Host}
    (hentry : slotReading ctx.kernel s.kernel.state ⟨f.message.address, slot⟩ = .ok entry)
    (hpaid : StorePaid
      (sstoreCosts ctx.kernel.profile.fork entry.orig entry.curr v cold) s pools refund)
    (hawarded : Awarded (clearAward ctx.kernel.profile.fork) s.kernel.state.effects
      (s.refund + rest))
    (hstored : SlotStored ctx f slot v entry s.kernel kernel) :
    Awarded (clearAward ctx.kernel.profile.fork) kernel.state.effects (refund + rest) := by
  have hrefund : refund = s.refund +
      (sstoreCosts ctx.kernel.profile.fork entry.orig entry.curr v cold).refund := by
    have htotal := hpaid.refund
    split at htotal
    · next hzero =>
      cases htotal
      rw [hzero, add_zero]
    · exact recordRefund_eq_ok htotal
  rw [hrefund, add_right_comm]
  exact (hstored.secured hentry clearEntry_changed (sstoreCosts_heldAward _ _ _ _ _)
    hawarded.secured).awarded

/-! ## A frame -/

variable (ctx) in
/-- The counters of the active frame and of the frames below it are those of
a transaction. -/
def Counting (parents : List Int) (s : MachineState) : Prop :=
  RefundsCounted ctx.kernel (s.refund :: parents) s.kernel

variable {parents : List Int}

/-- The counter is kept, and no slot is stored to. -/
theorem Counting.evolves {s s' : MachineState} (hc : Counting ctx parents s)
    (hrefund : s'.refund = s.refund) (hevolves : Evolves ctx.kernel s.kernel s'.kernel) :
    Counting ctx parents s' := by
  rw [Counting, hrefund]
  exact RefundStep.counted (.other hevolves) hc

theorem Counting.behind {s s' : MachineState} (hc : Counting ctx parents s)
    (h : Behind ctx s s') : Counting ctx parents s' := hc.evolves h.refund h.looks.evolves

theorem Move.counting {f : Frame} {s s' : MachineState} (h : Move ctx f s s')
    (hc : Counting ctx parents s) : Counting ctx parents s' := by
  cases h with
  | quiet h => exact hc.behind h.behind
  | write kernel hstatic hwrite hevolves => exact hc.evolves rfl hevolves
  | sstore slot v entry cold pools refund kernel hstatic hentry hpaid hstored =>
    have hawarded := Kernel.Counted.secured hc
    rw [List.sum_cons] at hawarded
    exact Kernel.Counted.move hc (hstored.advances (Kernel.Counted.coherent hc))
      (hstored.awarded hentry hpaid hawarded.awarded).secured
  | refund delta refund hdelta hrecord => exact RefundStep.counted (.award hdelta hrecord) hc
  | freeze => exact hc

theorem Moves.counting {f : Frame} {s s' : MachineState} (h : Moves ctx f s s')
    (hc : Counting ctx parents s) : Counting ctx parents s' := by
  induction h with
  | refl => exact hc
  | tail _ hmove ih => exact hmove.counting ih

theorem Executed.counting {f : Frame} {least : Nat} {s s' : MachineState} {status : FrameStatus}
    (h : Executed least ctx f s status s') (hc : Counting ctx parents s) :
    Counting ctx parents s' := by
  cases h with
  | goesOn hmoves hspent => exact hmoves.counting hc
  | fails kind hmoves => exact hc.behind hmoves.behind
  | ends kind hkind hmoves => exact hmoves.counting hc
  | reverts pools buffer output hmoves hpools =>
    have hlast := hmoves.moves.counting hc
    exact hlast.evolves rfl (Std.Refl.refl _)

theorem Stayed.counting {a b : Activation} (h : Stayed ctx a b)
    (hc : Counting ctx parents a.state) : Counting ctx parents b.state := by
  cases h with
  | opcode status s' h =>
    have hlast : Counting ctx parents s' := h.counting hc
    have hleave : (leave ctx a.frame status s').refund = s'.refund := by
      cases status with
      | running | halted | exceptional => rfl
    refine hlast.evolves hleave ?_
    rw [leave_kernel]
    exact Std.Refl.refl _
  | answered returndata s' h => exact hc.evolves h.refund h.evolves

/-! ## Calls -/

/-- A child counts from zero, above the counter of its parent. -/
theorem Entered.counting {b : Activation} {s₁ s' : MachineState} {k : FrameContinuation}
    {child : Frame} (h : Entered ctx b.frame (b.fetched ctx) s₁ k child s')
    (hb : Counting ctx parents b.state) :
    Counting ctx (k.checkpoint.refund :: parents) s' := by
  obtain ⟨gas, kernel, hstate, hevolves, -⟩ := h.begins
  have hs₁ : Counting ctx parents s₁ := hb.evolves h.refund h.prepares.evolves
  have hcheckpoint : k.checkpoint.refund = s₁.refund := by
    rw [h.checkpoint]
    rfl
  have hchild : RefundsCounted ctx.kernel (0 :: s₁.refund :: parents)
      (s₁.kernel.record .checkpointed) := RefundStep.counted (.enter rfl) hs₁
  rw [hcheckpoint, hstate]
  exact RefundStep.counted (.other hevolves) hchild

/-- It joins that counter, or is dropped. -/
theorem Returns.counting {child parent : Frame} {status : FrameStatus} {k : FrameContinuation}
    {s s' : MachineState} {succeeds : Bool}
    (h : Returns ctx child status k s succeeds parent s')
    (hc : Counting ctx (k.checkpoint.refund :: parents) s) : Counting ctx parents s' := by
  cases h with
  | kept settled pools base memory refund deployed kernel word hsettled hparent hgas hstateGas
      hwrites hrefund hdeploys hcommit =>
    have hdeployed : RefundsCounted ctx.kernel (s.refund :: k.checkpoint.refund :: parents)
        deployed := RefundStep.counted (.other hdeploys.evolves) hc
    exact RefundStep.counted (.commit hcommit hrefund) hdeployed
  | undone settled returned pools base memory kernel hsettled hparent hgas hstateGas hwrites
      hcredit hrevert =>
    exact RefundStep.counted (.revert hrevert) hc

/-! ## Runs -/

/-- The counters of the live frames, that of the active one first. -/
def Machine.refunds (m : Machine) : List Int :=
  m.1.state.refund :: m.2.map fun k => k.checkpoint.refund

theorem step_counted {m m' : Machine} (h : (calls ctx).Step m m')
    (hm : RefundsCounted ctx.kernel (Machine.refunds m) m.1.state.kernel) :
    RefundsCounted ctx.kernel (Machine.refunds m') m'.1.state.kernel := by
  cases h with
  | stays hstays => exact (Stays.stayed hstays).2.counting hm
  | enters henter =>
    obtain ⟨-, -, s₁, hentered⟩ := henter.entered
    exact hentered.counting hm
  | resumes hresume =>
    obtain ⟨-, -, hreturns⟩ := hresume.returns
    exact hreturns.counting hm

/-- In every run whose first frame starts with a counter that pays for every
slot that is clear then, as at the start of a transaction, the counters of
all live frames together pay for every slot that is clear.  So they are never
negative together, and neither is that of the first frame when it is active. -/
theorem refunds_cover {a₀ a : Activation} {ks : List FrameContinuation}
    (h₀ : Coherent ctx.kernel a₀.state.kernel.state)
    (hawarded : Awarded (clearAward ctx.kernel.profile.fork) a₀.state.kernel.state.effects
      a₀.state.refund)
    (hrun : (calls ctx).Steps (a₀, []) (a, ks)) :
    Awarded (clearAward ctx.kernel.profile.fork) a.state.kernel.state.effects
        (Machine.refunds (a, ks)).sum ∧
      0 ≤ (Machine.refunds (a, ks)).sum ∧ (ks = [] → 0 ≤ a.state.refund) := by
  have hcounted : ∀ m : Machine, (calls ctx).Steps (a₀, []) m →
      RefundsCounted ctx.kernel (Machine.refunds m) m.1.state.kernel := by
    intro m hm
    induction hm with
    | refl => exact .transaction h₀ hawarded.secured
    | tail _ hstep ih => exact step_counted hstep ih
  have hcovered := (hcounted (a, ks) hrun).secured.awarded
  refine ⟨hcovered, hcovered.nonneg, ?_⟩
  rintro rfl
  have hfirst := hcovered.nonneg
  rwa [Machine.refunds, List.map_nil, List.sum_singleton] at hfirst

theorem awarded_noEffects (award : Nat) (logs : List LogRecord) :
    Awarded award (noEffects logs) 0 := by
  refine (secured_zero fun key v hv => ?_).awarded
  obtain ⟨row, hrow, -⟩ := hv
  cases hrow

theorem cleared_of_reading {env : Env} {a : Address} {slot : Word} {entry : StorageValue}
    {h : Host} (hentry : slotReading env h.state ⟨a, slot⟩ = .ok entry) (horig : entry.orig ≠ 0)
    (hcurr : entry.curr = 0) : Cleared h.state.effects ⟨a, slot⟩ := by
  rcases slotReads_of_reading hentry with hholds | ⟨-, hsame⟩
  · exact ⟨entry, hholds, horig, hcurr⟩
  · exact absurd (hsame ▸ hcurr) horig

/-- The callee has cleared a slot. -/
theorem refunds_cover_paying : ∃ r : Call,
    (calls settledAmsterdam).Steps (paying destroys, []) (r.back, []) ∧
      Cleared r.back.state.kernel.state.effects ⟨callee, 1⟩ ∧ r.back.state.refund = 12480 ∧
      Awarded 12480 r.back.state.kernel.state.effects r.back.state.refund := by
  have hfound : found (payingCall 14 destroys) (fun r =>
      decide (r.back.state.refund = 12480) &&
        found (slotReading settledAmsterdam.kernel r.back.state.kernel.state ⟨callee, 1⟩ >>=
          fun entry => .ok (some entry)) fun entry => entry = ⟨0, 5⟩) = true := by
    decide +kernel
  obtain ⟨r, hrun, henter, hchild, hresume, hfacts⟩ := Call.of_any hfound
  obtain ⟨hrefund, hslot⟩ := Bool.and_eq_true_iff.mp hfacts
  obtain ⟨entry, hentry, hread⟩ := of_found hslot
  obtain ⟨_, hreading, hsome⟩ := bind_eq_ok.mp hentry
  cases hsome
  obtain rfl := of_decide_eq_true hread
  have hback := Nesting.steps_resumed hrun henter hchild hresume
  have hcoherent : Coherent settledAmsterdam.kernel (paying destroys).state.kernel.state :=
    coherent_calleeHost (by decide +kernel)
  have hcovered := (refunds_cover hcoherent (awarded_noEffects _ []) hback).1
  rw [Machine.refunds, List.map_nil, List.sum_singleton] at hcovered
  exact ⟨r, hback, cleared_of_reading hreading (by decide) rfl, of_decide_eq_true hrefund,
    hcovered⟩

end

end EvmSail.Vm
