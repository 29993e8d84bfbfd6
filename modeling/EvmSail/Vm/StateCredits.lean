/-
# `EvmSail.Vm.StateCredits` — the state gas that comes back

A slot that is set and cleared again in one transaction gives back the state
gas it has cost, and so does an account that is charged for and then not
created.  What comes back goes to the execution gas first, as far as any has
been spilled, so a run may gain the gas that was spilled before it began.

It gains no more than the state gas it has begun with.  What comes back has
been charged in the same run, and what the live frames have used pays for
every slot that is set (`UsesCovered`): a frame that fails takes its charges
and its slots with it.  The rounds that the loop declares, three for each unit
of gas and of state gas and two more, therefore suffice
(`interpret_suffices`).
-/
import EvmSail.Vm.Refunds
import EvmSail.Vm.Termination

namespace EvmSail.Vm

open Fallible Kernel Relation

/-! ## Stores -/

/-- The entry of a slot that the transaction has set. -/
def SetEntry (v : StorageValue) : Prop := v.orig = 0 ∧ v.curr ≠ 0

instance : DecidablePred SetEntry := fun v => inferInstanceAs (Decidable (v.orig = 0 ∧ v.curr ≠ 0))

theorem setEntry_changed (v : StorageValue) (h : SetEntry v) : v.curr ≠ v.orig :=
  fun hsame => h.2 (hsame.trans h.1)

/-- The state gas that comes back when such a slot is cleared. -/
def setCredit (fork : Fork) : Nat := if .amsterdam ≤ fork then gAmsterdamStateStorageSet else 0

/-- A store is charged for a slot that it sets, and gives back what a slot
has cost that it clears. -/
theorem sstoreCosts_setCredit (fork : Fork) (original current new : Word) (cold : Bool) :
    worth SetEntry (setCredit fork) { curr := new, orig := original } -
        worth SetEntry (setCredit fork) { curr := current, orig := original } ≤
      ((sstoreCosts fork original current new cold).stateCharge : Int) -
        (sstoreCosts fork original current new cold).stateCredit := by
  by_cases hfork : .amsterdam ≤ fork
  · simp only [worth, SetEntry, setCredit, sstoreCosts, if_pos hfork, amsterdamSstoreCosts]
    grind
  · simp only [worth, SetEntry, setCredit, sstoreCosts, if_neg hfork, legacySstoreCosts]
    grind

section

variable {ctx : Context}

/-- The use of state gas pays for the slot that is set. -/
theorem SlotStored.used {f : Frame} {slot v : Word} {entry : StorageValue} {cold : Bool}
    {s : MachineState} {pools : GasPools} {refund rest : Int} {kernel : Host}
    (hentry : slotReading ctx.kernel s.kernel.state ⟨f.message.address, slot⟩ = .ok entry)
    (hpaid : StorePaid
      (sstoreCosts ctx.kernel.profile.fork entry.orig entry.curr v cold) s pools refund)
    (hused : Secured SetEntry (setCredit ctx.kernel.profile.fork) s.kernel.state.effects
      (s.stateUse + rest))
    (hstored : SlotStored ctx f slot v entry s.kernel kernel) :
    Secured SetEntry (setCredit ctx.kernel.profile.fork) kernel.state.effects
      (pools.stateUse + rest) := by
  have hsums := (sstorePools_eq_some hpaid.charges).2
  have huse : pools.stateUse + rest = s.stateUse + rest +
      (((sstoreCosts ctx.kernel.profile.fork entry.orig entry.curr v cold).stateCharge : Int) -
        (sstoreCosts ctx.kernel.profile.fork entry.orig entry.curr v cold).stateCredit) := by
    simp only [GasPools.stateUse]
    omega
  rw [huse]
  exact hstored.secured hentry setEntry_changed (sstoreCosts_setCredit _ _ _ _ _) hused

/-! ## A frame -/

variable (ctx) in
/-- The uses of the live frames pay for the slots that are set. -/
abbrev UsesCounted : List Int → Host → Prop :=
  Kernel.Counted ctx.kernel SetEntry (setCredit ctx.kernel.profile.fork)

variable (ctx) in
/-- That of the active frame is counted from `start`. -/
def Using (start : Int) (parents : List Int) (s : MachineState) : Prop :=
  UsesCounted ctx ((s.stateUse + start) :: parents) s.kernel

variable {start : Int} {parents : List Int}

theorem Draw.stateUse {f : Frame} {s s' : MachineState} (h : Draw ctx f s s') :
    s.stateUse ≤ s'.stateUse := by
  cases h with
  | stateCharge amount pools h =>
    rcases chargeStateGas_eq_ok h with ⟨hhalt, -⟩ | ⟨-, hcharged⟩
    · cases hhalt
    · exact (Int.le_add_of_nonneg_right (Int.natCast_nonneg _)).trans_eq hcharged.stateUse.symm
  | reach a b pools height first second hpaid => exact (spendExpansion_stateUse hpaid).ge
  | spend | pop | look => exact Int.le_refl _

theorem QuietMove.stateUse {f : Frame} {s s' : MachineState} (h : QuietMove ctx f s s') :
    s.stateUse ≤ s'.stateUse := by
  cases h with
  | draw h => exact h.stateUse
  | push | set | jump | store => exact Int.le_refl _

theorem QuietMoves.stateUse {f : Frame} {s s' : MachineState} (h : QuietMoves ctx f s s') :
    s.stateUse ≤ s'.stateUse := by
  induction h with
  | refl => exact Int.le_refl _
  | tail _ hmove ih => exact ih.trans hmove.stateUse

/-- Before Amsterdam nothing comes back. -/
theorem FailingMoves.stateUse {f : Frame} {s s' : MachineState} (hlegacy : ctx.amsterdam = false)
    (h : FailingMoves ctx f s s') : s.stateUse ≤ s'.stateUse := by
  induction h with
  | refl => exact Int.le_refl _
  | tail _ hmove ih =>
    cases hmove with
    | quiet h => exact ih.trans h.stateUse
    | stateCredit amount pools h hamsterdam =>
      rw [hlegacy] at hamsterdam
      cases hamsterdam

theorem Moves.stateUse {f : Frame} {s s' : MachineState} (hlegacy : ctx.amsterdam = false)
    (h : Moves ctx f s s') : s.stateUse ≤ s'.stateUse := by
  induction h with
  | refl => exact Int.le_refl _
  | tail _ hmove ih =>
    cases hmove with
    | quiet h => exact ih.trans h.stateUse
    | write | refund | freeze => exact ih
    | sstore slot v entry cold pools refund kernel hstatic hentry hpaid hstored =>
      refine ih.trans ?_
      have hsums := (sstorePools_eq_some hpaid.charges).2
      have hcredit : (sstoreCosts ctx.kernel.profile.fork entry.orig entry.curr v
          cold).stateCredit = 0 := by
        by_contra hne
        exact absurd (sstoreCosts_stateCredit _ _ _ _ _ hne) (of_decide_eq_false hlegacy)
      simp only [GasPools.stateUse]
      omega

theorem Using.evolves {s s' : MachineState} (hc : Using ctx start parents s)
    (huse : s.stateUse ≤ s'.stateUse) (hevolves : Evolves ctx.kernel s.kernel s'.kernel) :
    Using ctx start parents s' :=
  Kernel.Counted.raise (Kernel.Counted.evolve hc hevolves) (Int.add_le_add_right huse _)

theorem Move.uses {f : Frame} {s s' : MachineState} (h : Move ctx f s s')
    (hc : Using ctx start parents s) : Using ctx start parents s' := by
  cases h with
  | quiet h => exact hc.evolves h.stateUse h.behind.looks.evolves
  | write kernel hstatic hwrite hevolves => exact hc.evolves (Int.le_refl _) hevolves
  | sstore slot v entry cold pools refund kernel hstatic hentry hpaid hstored =>
    have hused := Kernel.Counted.secured hc
    rw [List.sum_cons, add_assoc] at hused
    refine Kernel.Counted.move hc (hstored.advances (Kernel.Counted.coherent hc)) ?_
    rw [add_assoc]
    exact hstored.used hentry hpaid hused
  | refund | freeze => exact hc

theorem Moves.uses {f : Frame} {s s' : MachineState} (h : Moves ctx f s s')
    (hc : Using ctx start parents s) : Using ctx start parents s' := by
  induction h with
  | refl => exact hc
  | tail _ hmove ih => exact hmove.uses ih

theorem exceptionalPools_dropped (reservoir : Nat) {p q : GasPools}
    (h : ctx.amsterdam = false → p.stateUse ≤ q.stateUse) :
    UseDropped ctx.amsterdam reservoir p (exceptionalPools ctx reservoir q) := by
  rw [UseDropped, exceptionalPools]
  cases hfork : ctx.amsterdam with
  | true => exact zero_sub _
  | false => exact h hfork

theorem revertPools_dropped {reservoir : Nat} {p q r : GasPools}
    (hpools : revertPools ctx reservoir q = .ok r) (h : p.stateUse ≤ q.stateUse) :
    UseDropped ctx.amsterdam reservoir p r := by
  rw [revertPools] at hpools
  rw [UseDropped]
  cases hfork : ctx.amsterdam with
  | true =>
    rw [if_pos hfork] at hpools
    obtain ⟨gas, -, hpools⟩ := bind_eq_ok.mp hpools
    cases hpools
    exact zero_sub _
  | false =>
    rw [if_neg (by rw [hfork]; exact Bool.false_ne_true)] at hpools
    cases hpools
    exact h

/-- An opcode that succeeds uses state gas for what it sets; one that fails
leaves no use. -/
theorem Executed.uses {f : Frame} {least : Nat} {s s' : MachineState} {status : FrameStatus}
    (h : Executed least ctx f s status s') (hc : Using ctx start parents s) :
    status.succeeded = true ∧ Using ctx start parents s' ∧
        (ctx.amsterdam = false → s.stateUse ≤ s'.stateUse) ∧ leave ctx f status s' = s' ∨
      status.succeeded = false ∧ Evolves ctx.kernel s.kernel s'.kernel ∧
        UseDropped ctx.amsterdam f.message.stateGasReservoir s.toGasPools
          (leave ctx f status s').toGasPools := by
  cases h with
  | goesOn hmoves hspent =>
    exact .inl ⟨rfl, hmoves.uses hc, fun hlegacy => hmoves.stateUse hlegacy, rfl⟩
  | fails kind hmoves =>
    exact .inr ⟨rfl, hmoves.behind.looks.evolves,
      exceptionalPools_dropped _ fun hlegacy => hmoves.stateUse hlegacy⟩
  | ends kind hkind hmoves =>
    refine .inl ⟨?_, hmoves.uses hc, fun hlegacy => hmoves.stateUse hlegacy, rfl⟩
    cases kind with
    | haltRevert output => exact absurd rfl (hkind output)
    | haltStop | haltReturn | haltSelfDestruct => rfl
  | reverts pools buffer output hmoves hpools =>
    exact .inr ⟨rfl, hmoves.failing.behind.looks.evolves,
      revertPools_dropped hpools hmoves.stateUse⟩

/-! ## The frames of a machine -/

/-- What a suspended frame has used, but for an account that may still not be
created. -/
def FrameContinuation.stateUse (k : FrameContinuation) : Int :=
  k.checkpoint.stateUse - newAccountUse k.newAccountCharged

def FrameContinuation.reservoir (k : FrameContinuation) : Nat :=
  k.checkpoint.message.stateGasReservoir

/-- A frame counts its use from its reservoir, the first frame from `base`. -/
def startOf (base : Int) (reservoir : Nat) : List FrameContinuation → Int
  | [] => base
  | _ :: _ => reservoir

/-- The uses of the frames that wait.  What the frame above has been lent is
not theirs. -/
def waitingUses (base : Int) : Nat → List FrameContinuation → List Int
  | _, [] => []
  | lent, k :: ks =>
    (k.stateUse - lent + startOf base k.reservoir ks) :: waitingUses base k.reservoir ks

/-- All uses together: the reservoirs cancel. -/
theorem sum_waitingUses (base : Int) (lent : Nat) (ks : List FrameContinuation) :
    startOf base lent ks + (waitingUses base lent ks).sum =
      (ks.map FrameContinuation.stateUse).sum + base := by
  induction ks generalizing lent with
  | nil =>
    rw [startOf, waitingUses, List.map_nil, List.sum_nil]
    exact add_comm _ _
  | cons k ks ih =>
    have hrest := ih k.reservoir
    rw [waitingUses, List.map_cons, List.sum_cons, List.sum_cons]
    show (lent : Int) + _ = _
    linarith

variable (ctx) in
/-- The use of state gas of the live frames, less what the run has begun with,
pays for the slots that are set.  A frame that has failed has dropped its use,
but not yet its slots.  Before Amsterdam no frame has any. -/
structure UsesCovered (base : Int) (m : Machine) : Prop where
  counted : ∃ use,
    UsesCounted ctx (use :: waitingUses base m.1.frame.message.stateGasReservoir m.2)
      m.1.state.kernel ∧
    (m.1.status.succeeded = true →
      use ≤ m.1.state.stateUse + startOf base m.1.frame.message.stateGasReservoir m.2)
  failed : m.1.status.succeeded = false → ctx.amsterdam = true →
    m.1.state.stateUse = -m.1.frame.message.stateGasReservoir
  legacy : ctx.amsterdam = false →
    0 ≤ m.1.state.stateUse + startOf base m.1.frame.message.stateGasReservoir m.2 ∧
      ∀ use ∈ waitingUses base m.1.frame.message.stateGasReservoir m.2, 0 ≤ use
  waits : ∀ k ∈ m.2, k.checkpoint.status = .running

variable {base : Int}

/-- While a frame runs, all its use pays. -/
theorem UsesCovered.uses {a : Activation} {ks : List FrameContinuation}
    (hm : UsesCovered ctx base (a, ks)) (hrunning : a.status = .running) :
    Using ctx (startOf base a.frame.message.stateGasReservoir ks)
      (waitingUses base a.frame.message.stateGasReservoir ks) (a.fetched ctx) := by
  obtain ⟨use, hcounted, hle⟩ := hm.counted
  exact Kernel.Counted.raise hcounted (hle (by rw [hrunning]; rfl))

theorem Stayed.covered {a b : Activation} {ks : List FrameContinuation}
    (hrunning : a.status = .running) (h : Stayed ctx a b) (hm : UsesCovered ctx base (a, ks)) :
    UsesCovered ctx base (b, ks) := by
  have huses := hm.uses hrunning
  cases h with
  | opcode status s' h =>
    rcases h.uses huses with ⟨hsucceeds, huses', hlegacy, hleave⟩ | ⟨hfails, hevolves, hdropped⟩
    · refine ⟨⟨_, ?_, fun _ => Int.le_refl _⟩, fun hfails => ?_, fun hfork => ?_, hm.waits⟩
      · rw [hleave]
        exact huses'
      · rw [hsucceeds] at hfails
        cases hfails
      · obtain ⟨hactive, hwaiting⟩ := hm.legacy hfork
        refine ⟨?_, hwaiting⟩
        show 0 ≤ (leave ctx a.frame status s').stateUse + _
        rw [hleave]
        exact hactive.trans (Int.add_le_add_right (hlegacy hfork) _)
    · have hlast := Kernel.Counted.evolve huses hevolves
      rw [← @leave_kernel ctx a.frame status s'] at hlast
      refine ⟨⟨_, hlast, fun hsucceeds => ?_⟩, fun _ hfork => ?_, fun hfork => ?_, hm.waits⟩
      · rw [hfails] at hsucceeds
        cases hsucceeds
      · rwa [UseDropped, if_pos hfork] at hdropped
      · obtain ⟨hactive, hwaiting⟩ := hm.legacy hfork
        rw [UseDropped, if_neg (by rw [hfork]; exact Bool.false_ne_true)] at hdropped
        exact ⟨hactive.trans (Int.add_le_add_right hdropped _), hwaiting⟩
  | answered returndata s' h =>
    refine ⟨⟨_, huses.evolves h.stateUse h.evolves, fun _ => Int.le_refl _⟩,
      fun hfails => (by cases hfails), fun hfork => ?_, hm.waits⟩
    obtain ⟨hactive, hwaiting⟩ := hm.legacy hfork
    exact ⟨hactive.trans (Int.add_le_add_right h.stateUse _), hwaiting⟩

/-- A child begins with no use of its own. -/
theorem Entered.covered {b c : Activation} {s₁ : MachineState} {k : FrameContinuation}
    {ks : List FrameContinuation} (hrunning : b.status = .running) (hchild : c.status = .running)
    (h : Entered ctx b.frame (b.fetched ctx) s₁ k c.frame c.state)
    (hm : UsesCovered ctx base (b, ks)) : UsesCovered ctx base (c, k :: ks) := by
  obtain ⟨gas, kernel, hstate, hevolves, -⟩ := h.begins
  have hlent := h.opens.reservoir
  have hreservoir : k.reservoir = b.frame.message.stateGasReservoir := by
    rw [FrameContinuation.reservoir, h.checkpoint]
    rfl
  have hkept : k.stateUse - c.frame.message.stateGasReservoir = (b.fetched ctx).stateUse := by
    have huse := h.stateUse
    have hcheckpoint : k.checkpoint.stateUse = s₁.stateSpill := by
      rw [h.checkpoint]
      exact sub_zero _
    rw [FrameContinuation.stateUse, hcheckpoint, hlent]
    simp only [GasPools.stateUse] at huse ⊢
    omega
  have hbegins :
      c.state.stateUse + startOf base c.frame.message.stateGasReservoir (k :: ks) = 0 := by
    rw [hstate, startOf, hlent]
    simp only [GasPools.stateUse, MachineState.child]
    omega
  have hwaits : waitingUses base c.frame.message.stateGasReservoir (k :: ks) =
      ((b.fetched ctx).stateUse + startOf base b.frame.message.stateGasReservoir ks) ::
        waitingUses base b.frame.message.stateGasReservoir ks := by
    rw [waitingUses, hkept, hreservoir]
  refine ⟨⟨0, ?_, fun _ => hbegins.ge⟩, fun hfails => ?_, fun hfork => ⟨hbegins.ge, ?_⟩, ?_⟩
  · rw [hwaits, hstate]
    have hparent : UsesCounted ctx _ s₁.kernel :=
      Kernel.Counted.evolve (hm.uses hrunning) h.prepares.evolves
    exact Kernel.Counted.evolve (Kernel.Counted.enter hparent rfl) hevolves
  · rw [hchild] at hfails
    cases hfails
  · obtain ⟨hactive, hwaiting⟩ := hm.legacy hfork
    rw [hwaits]
    intro use huse
    rcases List.mem_cons.mp huse with rfl | huse
    · exact hactive
    · exact hwaiting use huse
  · intro k' hk
    rcases List.mem_cons.mp hk with rfl | hk
    · rw [h.checkpoint]
      rfl
    · exact hm.waits k' hk

/-- What a parent has used when its child has come back. -/
theorem Returns.stateUse {child parent : Frame} {status : FrameStatus} {k : FrameContinuation}
    {s s' : MachineState} {succeeds : Bool}
    (h : Returns ctx child status k s succeeds parent s') :
    ∃ settled : GasPools, k.Settles ctx child status s succeeds settled ∧
      k.stateUse + settled.stateUse ≤ s'.stateUse := by
  have hback : ∀ settled pools : GasPools,
      returnChildStateGas k.checkpoint.stateGas k.checkpoint.stateSpill settled.stateGas
        settled.stateSpill = .ok (pools.stateGas, pools.stateSpill) →
      pools.stateUse = k.checkpoint.stateUse + settled.stateUse := by
    intro settled pools hstateGas
    have hsums := returnChildStateGas_eq_ok hstateGas
    have hstate := congrArg Prod.fst hsums
    have hspill := congrArg Prod.snd hsums
    simp only [GasPools.stateUse] at hstate hspill ⊢
    omega
  have hnew := newAccountUse_nonneg k.newAccountCharged
  cases h with
  | kept settled pools base memory refund deployed kernel word hsettled hparent hgas hstateGas =>
    refine ⟨settled, hsettled, ?_⟩
    show _ ≤ pools.stateUse
    rw [hback settled pools hstateGas, FrameContinuation.stateUse]
    linarith
  | undone settled returned pools base memory kernel hsettled hparent hgas hstateGas hwrites
      hcredit =>
    refine ⟨settled, hsettled, ?_⟩
    have hreturned := hback settled returned hstateGas
    have hcredited := creditNewAccount_stateUse hcredit
    show _ ≤ pools.stateUse
    rw [FrameContinuation.stateUse]
    linarith

/-- Its slots stay with the use that pays for them, or both are dropped. -/
theorem Returns.uses {child parent : Frame} {status : FrameStatus} {k : FrameContinuation}
    {s s' : MachineState} {succeeds : Bool} {use waiting : Int} {parents : List Int}
    (h : Returns ctx child status k s succeeds parent s')
    (hc : UsesCounted ctx (use :: waiting :: parents) s.kernel) :
    UsesCounted ctx ((waiting + if succeeds then use else 0) :: parents) s'.kernel := by
  cases h with
  | kept settled pools base memory refund deployed kernel word hsettled hparent hgas hstateGas
      hwrites hrefund hdeploys hcommit =>
    exact Kernel.Counted.commit (Kernel.Counted.evolve hc hdeploys.evolves) hcommit
  | undone settled returned pools base memory kernel hsettled hparent hgas hstateGas hwrites
      hcredit hrevert =>
    have hreverted := Kernel.Counted.revert hc (List.cons_ne_nil _ _) hrevert
    exact Kernel.Counted.raise hreverted (add_zero _).ge

/-- A child that has failed has no use left. -/
theorem UsesCovered.settled {d : Activation} {k : FrameContinuation}
    {ks : List FrameContinuation} {succeeds : Bool} {settled : GasPools}
    (hm : UsesCovered ctx base (d, k :: ks))
    (hsettled : k.Settles ctx d.frame d.status d.state succeeds settled) :
    (succeeds = true → d.status.succeeded = true ∧ d.state.stateUse ≤ settled.stateUse) ∧
      (succeeds = false → 0 ≤ settled.stateUse + d.frame.message.stateGasReservoir) := by
  rcases hsettled.stateUse with ⟨hsucceeds, huse⟩ | ⟨hfails, hdropped⟩
  · refine ⟨fun htrue => ⟨hsucceeds.symm.trans htrue, huse⟩, fun hfalse => ?_⟩
    refine le_trans ?_ (Int.add_le_add_right huse _)
    cases hfork : ctx.amsterdam with
    | true =>
      have hended := hm.failed (hsucceeds.symm.trans hfalse) hfork
      simp only at hended
      rw [hended, neg_add_cancel]
    | false => exact (hm.legacy hfork).1
  · refine ⟨fun htrue => ?_, fun _ => ?_⟩
    · rw [hfails] at htrue
      cases htrue
    · rw [UseDropped] at hdropped
      cases hfork : ctx.amsterdam with
      | true =>
        rw [if_pos hfork] at hdropped
        rw [hdropped, neg_add_cancel]
      | false =>
        rw [if_neg (by rw [hfork]; exact Bool.false_ne_true)] at hdropped
        exact (hm.legacy hfork).1.trans (Int.add_le_add_right hdropped _)

theorem Returns.covered {d e : Activation} {k : FrameContinuation} {ks : List FrameContinuation}
    {succeeds : Bool} (hstatus : e.status = k.checkpoint.status)
    (h : Returns ctx d.frame d.status k d.state succeeds e.frame e.state)
    (hm : UsesCovered ctx base (d, k :: ks)) : UsesCovered ctx base (e, ks) := by
  obtain ⟨use, hcounted, hle⟩ := hm.counted
  obtain ⟨settled, hsettled, hback⟩ := h.stateUse
  obtain ⟨hkept, hdropped⟩ := hm.settled hsettled
  have hreservoir : e.frame.message.stateGasReservoir = k.reservoir := by
    rw [h.frame.1]
    rfl
  have hrunning : e.status = .running := hstatus.trans (hm.waits k List.mem_cons_self)
  refine ⟨⟨_, hreservoir ▸ h.uses hcounted, fun _ => ?_⟩, fun hfails => ?_, fun hfork => ?_,
    fun k' hk => hm.waits k' (List.mem_cons_of_mem k hk)⟩
  · have huse : (if succeeds then use else 0) ≤
        settled.stateUse + d.frame.message.stateGasReservoir := by
      cases succeeds with
      | true =>
        obtain ⟨hsucceeded, hgrows⟩ := hkept rfl
        exact (hle hsucceeded).trans (Int.add_le_add_right hgrows _)
      | false => exact hdropped rfl
    rw [hreservoir]
    linarith
  · rw [hrunning] at hfails
    cases hfails
  · obtain ⟨hactive, hwaiting⟩ := hm.legacy hfork
    have hparent := hwaiting _ List.mem_cons_self
    have hchild : 0 ≤ settled.stateUse + d.frame.message.stateGasReservoir := by
      cases succeeds with
      | true => exact hactive.trans (Int.add_le_add_right (hkept rfl).2 _)
      | false => exact hdropped rfl
    refine ⟨?_, fun u hu => hwaiting u (List.mem_cons_of_mem _ (hreservoir ▸ hu))⟩
    rw [hreservoir]
    linarith

/-! ## Runs -/

theorem step_covered {m m' : Machine} (h : (calls ctx).Step m m')
    (hm : UsesCovered ctx base m) : UsesCovered ctx base m' := by
  cases h with
  | stays hstays =>
    obtain ⟨hrunning, hstayed⟩ := Stays.stayed hstays
    exact hstayed.covered hrunning hm
  | enters henter =>
    obtain ⟨hrunning, hchild, s₁, hentered⟩ := henter.entered
    exact hentered.covered hrunning hchild hm
  | resumes hresume =>
    obtain ⟨-, hstatus, hreturns⟩ := hresume.returns
    exact hreturns.covered hstatus hm

/-- What the waiting frames have used is spilled, so it is still in their gas. -/
theorem waiting_stateUse (ks : List FrameContinuation) :
    (ks.map FrameContinuation.stateUse).sum ≤
      ((ks.map fun k => k.checkpoint.regular).sum : Nat) := by
  induction ks with
  | nil => exact Int.le_refl _
  | cons k ks ih =>
    have hnew := newAccountUse_nonneg k.newAccountCharged
    have hframe : k.stateUse ≤ (k.checkpoint.regular : Int) := by
      simp only [FrameContinuation.stateUse, GasPools.stateUse, GasPools.regular]
      omega
    rw [List.map_cons, List.map_cons, List.sum_cons, List.sum_cons, Nat.cast_add]
    exact Int.add_le_add hframe ih

/-- While a frame runs, the execution gas is no less than what has been
spilled before and is not covered by state gas. -/
theorem UsesCovered.regular {m : Machine} (hm : UsesCovered ctx base m)
    (hrunning : m.1.status = .running) : -base ≤ Machine.regular m := by
  obtain ⟨a, ks⟩ := m
  have hsecured := (Kernel.Counted.secured (hm.uses hrunning)).nonneg
  have hsum := sum_waitingUses base a.frame.message.stateGasReservoir ks
  have hwaiting := waiting_stateUse ks
  have hactive : a.state.stateUse ≤ a.state.regular := by
    simp only [GasPools.stateUse, GasPools.regular]
    omega
  have hfetched : (a.fetched ctx).stateUse = a.state.stateUse := rfl
  rw [List.sum_cons, hfetched] at hsecured
  rw [Machine.regular, Nat.cast_add]
  linarith

/-- The rounds that a machine may still go through, less three for each unit
of gas that it cannot spend. -/
def Machine.remaining (base : Int) (m : Machine) : Nat :=
  3 * (Machine.regular m + base).toNat + 2 * m.2.length + if m.1.status = .running then 1 else 0

theorem step_remaining {m m' : Machine} (h : (calls ctx).Step m m')
    (hm : UsesCovered ctx base m) : Machine.remaining base m' < Machine.remaining base m := by
  obtain ⟨hle, hless⟩ := step_rounds h
  by_cases hrunning : m'.1.status = .running
  · have hm' := (step_covered h hm).regular hrunning
    simp only [Machine.rounds, Machine.remaining] at hless ⊢
    omega
  · -- a frame that ends leaves the same frames waiting
    cases h with
    | stays hstays =>
      have hbefore := (Stays.stayed hstays).1
      simp only [Machine.remaining]
      rw [if_neg hrunning, if_pos hbefore]
      omega
    | enters henter => exact absurd henter.entered.2.1 hrunning
    | @resumes d a k ks hresume =>
      obtain ⟨-, hstatus, -⟩ := hresume.returns
      exact absurd (hstatus.trans (hm.waits k List.mem_cons_self)) hrunning

/-- Nothing has been used yet. -/
theorem usesCovered_first {a : Activation} (hrunning : a.status = .running)
    (h : Coherent ctx.kernel a.state.kernel.state)
    (hnone : ∀ key v, Kernel.Holds a.state.kernel.state.effects key v → ¬SetEntry v) :
    UsesCovered ctx (a.state.stateGas - a.state.stateSpill) (a, []) := by
  have hactive : a.state.stateUse + startOf (a.state.stateGas - a.state.stateSpill)
      a.frame.message.stateGasReservoir [] = 0 := by
    simp only [GasPools.stateUse, startOf]
    omega
  refine ⟨⟨0, .transaction h (secured_zero hnone), fun _ => hactive.ge⟩, fun hfails => ?_,
    fun _ => ⟨hactive.ge, fun use huse => absurd huse (List.not_mem_nil)⟩,
    fun k hk => absurd hk (List.not_mem_nil)⟩
  rw [hrunning] at hfails
  cases hfails

/-- In a state in which no slot is set the loop comes to its end within the
rounds that it declares, whatever has been spilled before. -/
theorem interpretWithin_suffices {a : Activation} (h : Coherent ctx.kernel a.state.kernel.state)
    (hnone : ∀ key v, Kernel.Holds a.state.kernel.state.effects key v → ¬SetEntry v) :
    Completes ctx (a, []) (interpretWithin ctx (callTreeSteps a) (a, [])) := by
  by_cases hrunning : a.status = .running
  · refine interpretWithin_completes
      (fun _ _ hm hstep => ⟨step_covered hstep hm, step_remaining hstep hm⟩)
      (usesCovered_first hrunning h hnone) ?_
    simp only [Machine.remaining, Machine.regular, callTreeSteps, GasPools.regular, List.map_nil,
      List.sum_nil, List.length_nil]
    split
    all_goals omega
  · refine .inr ⟨a, ?_, hrunning, .refl⟩
    rw [callTreeSteps, interpretWithin, interpretRound, if_neg hrunning]
    rfl

/-- The loop of `interpret` comes to its end within the rounds that it
declares, for every code, if the state gas covers what has been spilled, as
it does before Amsterdam and in a system call, or no slot is set yet, as when
a transaction begins: the frames are done, or the loop has aborted.  Without
a price of blobs it does not begin. -/
theorem interpret_suffices (a : Activation)
    (hbegins : a.state.stateSpill ≤ a.state.stateGas ∨
      Coherent ctx.kernel a.state.kernel.state ∧
        ∀ key v, Kernel.Holds a.state.kernel.state.effects key v → ¬SetEntry v) :
    (∃ halt, ctx.priced = .error halt ∧ interpret ctx a = .error halt) ∨
      ∃ priced, ctx.priced = .ok priced ∧ Completes priced (a, []) (interpret ctx a) := by
  rcases hbegins with hcovers | ⟨hcoherent, hnone⟩
  · exact (interpret_ends a).2 hcovers
  · refine interpret_priced fun priced hpriced => ?_
    have hkernel : priced.kernel = ctx.kernel := by
      obtain ⟨blobFee, -, hpriced⟩ := bind_eq_ok.mp hpriced
      cases hpriced
      rfl
    rw [← hkernel] at hcoherent
    exact interpretWithin_suffices hcoherent hnone

/-- A frame that has spilled 100000 before it begins, and that sets a slot and
clears it. -/
def resetting : Activation :=
  { caller 0x00 [] destroys with
    frame :=
      { plainFrame
          { bytes := [0x60, 0x09, 0x60, 0x02, 0x55, 0x60, 0x00, 0x60, 0x02, 0x55, 0x00]
            jumpdests := [] } with
        message := { plainMessage with address := payer, codeAddress := payer } }
    state := { (caller 0x00 [] destroys).state with stateSpill := 100000 } }

/-- What the slot has cost comes back when it is cleared. -/
theorem interpret_suffices_resetting : ∃ b : Activation,
    interpret settledAmsterdam resetting = .ok (some b) ∧ b.status = .halted .haltStop ∧
      b.state.stateSpill = 100000 ∧ ∃ priced, settledAmsterdam.priced = .ok priced ∧
        Completes priced (resetting, []) (interpret settledAmsterdam resetting) := by
  have hfound : found (interpret settledAmsterdam resetting) (fun b =>
      b.status = .halted .haltStop ∧ b.state.stateSpill = 100000) = true := by
    decide +kernel
  obtain ⟨b, hends, hfacts⟩ := of_found hfound
  obtain ⟨hstatus, hspill⟩ := of_decide_eq_true hfacts
  have hcoherent : Coherent settledAmsterdam.kernel resetting.state.kernel.state :=
    coherent_calleeHost (by decide +kernel)
  have hnone : ∀ key v, Kernel.Holds resetting.state.kernel.state.effects key v → ¬SetEntry v := by
    intro key v hv
    obtain ⟨row, hrow, -⟩ := hv
    cases hrow
  rcases interpret_suffices resetting (.inr ⟨hcoherent, hnone⟩) with ⟨halt, -, haborts⟩ | hcompletes
  · rw [hends] at haborts
    cases haborts
  · exact ⟨b, hends, hstatus, hspill, hcompletes⟩

end

end EvmSail.Vm
