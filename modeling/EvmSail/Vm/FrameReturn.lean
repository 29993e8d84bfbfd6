/-
# `EvmSail.Vm.FrameReturn` — how a suspended frame goes on

A child that has ended succeeds or fails; a creation may still fail over
the code it deploys.  What comes back is said once, by `Returns`: the
registers of the checkpoint, what the child has left of its gas, at most
the range of memory the caller asked for, and the host committed or
reverted.
-/
import EvmSail.Vm.FrameEntry

namespace EvmSail.Vm

open Fallible Kernel Kept Relation

namespace FrameContinuation

def checkpoint : FrameContinuation → FrameCheckpoint
  | .resumeCall checkpoint _ _ _ => checkpoint
  | .resumeCreate checkpoint _ _ => checkpoint

def newAccountCharged : FrameContinuation → Bool
  | .resumeCall _ _ _ charged => charged
  | .resumeCreate _ _ charged => charged

/-- What the gas of a child comes to: a creation pays for its code. -/
def Settles (ctx : Context) (child : Frame) (status : FrameStatus) (s : MachineState)
    (succeeds : Bool) (settled : GasPools) : FrameContinuation → Prop
  | .resumeCall _ _ _ _ => succeeds = status.succeeded ∧ settled = s.toGasPools
  | .resumeCreate _ _ _ => ∃ d status',
    settleCreate ctx.amsterdam (gasFrame child status s) d =
      .ok { gasFrame child status s with pools := settled, status := status' } ∧
    frameSucceeded status' = succeeds

/-- Only a call writes to the memory of its caller, and only what it has been
asked for. -/
def Writes (ctx : Context) (base : Nat) (output : OutputSlice) (memory memory' : Nat → Byte) :
    FrameContinuation → Prop
  | .resumeCall _ off len _ =>
    (∃ destination, memoryAbsolute base off = .ok destination ∧
      EvmSail.returndataCopyPrefix ctx.memoryCapacity output.len destination len = .ok ()) ∧
    ∀ i, i < base + off ∨ base + off + min len output.len ≤ i → memory' i = memory i
  | .resumeCreate _ _ _ => memory' = memory

/-- Only a creation deploys code. -/
def Deploys (ctx : Context) (h h' : Host) : FrameContinuation → Prop
  | .resumeCall _ _ _ _ => h' = h
  | .resumeCreate _ a _ => ∃ bytes, (kDeployCode ctx.kernel a bytes).run h = .ok ((), h')

/-- Whether the child succeeds: a creation may still fail over its code. -/
def succeeds (ctx : Context) (child : Frame) (status : FrameStatus) (s : MachineState) :
    FrameContinuation → Bool
  | .resumeCall _ _ _ _ => status.succeeded
  | .resumeCreate _ _ _ =>
    match settleDeployment ctx child.message.stateGasReservoir status s with
    | .ok r => r.1.1
    | .error _ => false

/-- The return data: a creation that has not reverted leaves none. -/
def returndata (status : FrameStatus) : FrameContinuation → OutputSlice
  | .resumeCall _ _ _ _ => frameOutput status
  | .resumeCreate _ _ _ => if status.succeeded then emptySlice else frameOutput status

end FrameContinuation

/-- The state a suspended frame goes on in, but for its gas, its refund and
the host. -/
def MachineState.resumed (s : MachineState) (c : FrameCheckpoint) (memory : Nat → Byte) :
    MachineState :=
  { s with
    pc := c.pc
    sp := c.sp + 1
    memoryHeight := c.memoryHeight
    row := if 0 < s.row then s.row - 1 else s.row
    memory := memory }

/-- How a suspended frame goes on over its child, which has ended in `s`. -/
inductive Returns (ctx : Context) (child : Frame) (status : FrameStatus) (k : FrameContinuation)
    (s : MachineState) : Bool → Frame → MachineState → Prop
  | kept (settled pools : GasPools) (base : Nat) (memory : Nat → Byte) (refund : Int)
      (deployed kernel : Host) (word : Word)
      (hsettled : k.Settles ctx child status s true settled)
      (hbase : memoryParentBase child.memoryBase k.checkpoint.memoryHeight = .ok base)
      (hgas : refundGas k.checkpoint.gas settled.gas = .ok pools.gas)
      (hstateGas : returnChildStateGas k.checkpoint.stateGas k.checkpoint.stateSpill
        settled.stateGas settled.stateSpill = .ok (pools.stateGas, pools.stateSpill))
      (hwrites : k.Writes ctx base (frameOutput status) s.memory memory)
      (hrefund : recordRefund k.checkpoint.refund s.refund = .ok refund)
      (hdeploys : k.Deploys ctx s.kernel deployed)
      (hcommit : stateJournalCommit deployed = .ok kernel) :
      Returns ctx child status k s true
        (parentFrame k.checkpoint base (k.returndata status))
        ({ s.resumed k.checkpoint memory with
          toGasPools := pools
          refund := refund
          kernel := kernel }.setOperand k.checkpoint.sp word)
  | undone (settled returned pools : GasPools) (base : Nat) (memory : Nat → Byte) (kernel : Host)
      (hsettled : k.Settles ctx child status s false settled)
      (hbase : memoryParentBase child.memoryBase k.checkpoint.memoryHeight = .ok base)
      (hgas : refundGas k.checkpoint.gas settled.gas = .ok returned.gas)
      (hstateGas : returnChildStateGas k.checkpoint.stateGas k.checkpoint.stateSpill
        settled.stateGas settled.stateSpill = .ok (returned.stateGas, returned.stateSpill))
      (hwrites : k.Writes ctx base (frameOutput status) s.memory memory)
      (hcredit : creditNewAccount returned k.newAccountCharged = .ok pools)
      (hrevert : stateJournalRevert s.kernel = .ok kernel) :
      Returns ctx child status k s false
        (parentFrame k.checkpoint base (k.returndata status))
        ({ s.resumed k.checkpoint memory with
          toGasPools := pools
          refund := k.checkpoint.refund
          kernel := kernel }.setOperand k.checkpoint.sp 0)

section

variable {ctx : Context}

theorem frameSucceeded_gasStatus (status : FrameStatus) :
    frameSucceeded (gasStatus status) = status.succeeded := by
  cases status with
  | running => rfl
  | halted kind =>
    cases kind with
    | haltStop | haltReturn | haltRevert | haltSelfDestruct => rfl
  | exceptional kind => rfl

theorem journal_cases {operation : Host → Result Host} {s s' : MachineState} {u : Unit}
    (h : journal operation s = .ok (u, s')) :
    ∃ kernel, operation s.kernel = .ok kernel ∧ s' = { s with kernel := kernel } := by
  obtain ⟨kernel, hkernel, h⟩ := bind_eq_ok.mp h
  cases h
  exact ⟨kernel, hkernel, rfl⟩

theorem countRefund_cases {delta : Int} {s s' : MachineState} {u : Unit}
    (h : countRefund delta s = .ok (u, s')) :
    ∃ refund, recordRefund s.refund delta = .ok refund ∧ s' = { s with refund := refund } := by
  obtain ⟨refund, hrefund, h⟩ := bind_eq_ok.mp h
  cases h
  exact ⟨refund, hrefund, rfl⟩

theorem restoreFrame_cases {child : Frame} {c : FrameCheckpoint} {s s' : MachineState} {base : Nat}
    (h : restoreFrame child c s = .ok (base, s')) :
    memoryParentBase child.memoryBase c.memoryHeight = .ok base ∧ ∃ pools : GasPools,
      refundGas c.gas s.gas = .ok pools.gas ∧
      returnChildStateGas c.stateGas c.stateSpill s.stateGas s.stateSpill =
        .ok (pools.stateGas, pools.stateSpill) ∧
      s' = { s with
        toGasPools := pools
        pc := c.pc
        refund := c.refund
        sp := c.sp
        memoryHeight := c.memoryHeight } := by
  obtain ⟨base', hbase, h⟩ := bind_eq_ok.mp h
  obtain ⟨gas, hgas, h⟩ := bind_eq_ok.mp h
  obtain ⟨stateGas, hstateGas, h⟩ := bind_eq_ok.mp h
  cases h
  exact ⟨hbase, ⟨gas, stateGas.1, stateGas.2⟩, hgas, hstateGas, rfl⟩

theorem undoChild_cases {charged : Bool} {s s' : MachineState} {u : Unit}
    (h : undoChild charged s = .ok (u, s')) :
    ∃ kernel pools, stateJournalRevert s.kernel = .ok kernel ∧
      creditNewAccount s.toGasPools charged = .ok pools ∧
      s' = { s with kernel := kernel, toGasPools := pools, sp := s.sp + 1 }.setOperand s.sp 0 := by
  obtain ⟨⟨⟩, s₁, hjournal, h₁⟩ := bind_apply_eq_ok.mp h
  obtain ⟨⟨⟩, s₂, hcredit, h₂⟩ := bind_apply_eq_ok.mp h₁
  obtain ⟨kernel, hrevert, rfl⟩ := journal_cases hjournal
  cases h₂
  cases charged with
  | false =>
    cases hcredit
    exact ⟨kernel, s.toGasPools, hrevert, rfl, rfl⟩
  | true =>
    obtain ⟨pools, hpools, hcredited⟩ := bind_eq_ok.mp hcredit
    cases hcredited
    exact ⟨kernel, pools, hrevert, hpools, rfl⟩

/-! ## Message calls -/

theorem resumeCall_cases {child parent : Frame} {status : FrameStatus} {c : FrameCheckpoint}
    {off len : Nat} {charged : Bool} {s s' : MachineState}
    (h : resumeCall ctx child status c off len charged s = .ok (parent, s')) :
    Returns ctx child status (.resumeCall c off len charged) s status.succeeded parent s' := by
  obtain ⟨s₀, s₁, hget, h₁⟩ := bind_apply_eq_ok.mp h
  obtain ⟨⟨⟩, s₂, hpop, h₂⟩ := bind_apply_eq_ok.mp h₁
  obtain ⟨base, s₃, hrestore, h₃⟩ := bind_apply_eq_ok.mp h₂
  obtain ⟨destination, s₄, hlift, h₄⟩ := bind_apply_eq_ok.mp h₃
  obtain ⟨⟨⟩, s₅, hcopy, h₅⟩ := bind_apply_eq_ok.mp h₄
  obtain ⟨⟨⟩, s₆, hend, h₆⟩ := bind_apply_eq_ok.mp h₅
  cases hget
  cases hpop
  obtain ⟨hbase, pools, hgas, hstateGas, rfl⟩ := restoreFrame_cases hrestore
  obtain ⟨hdestination, rfl⟩ := liftM_apply_eq_ok.mp hlift
  obtain ⟨hregion, bytes, hbytes, rfl⟩ := returndataCopyPrefix_cases hcopy
  cases h₆
  have hwrites : (FrameContinuation.resumeCall c off len charged).Writes ctx base
      (frameOutput status) s.memory (s.withBytes destination bytes).memory := by
    refine ⟨⟨destination, hdestination, hregion⟩, fun i hi => if_neg ?_⟩
    obtain rfl := memoryAbsolute_base hdestination
    omega
  cases hsucceeded : status.succeeded with
  | true =>
    rw [hsucceeded] at hend
    obtain ⟨⟨⟩, s₇, hcount, h₇⟩ := bind_apply_eq_ok.mp hend
    obtain ⟨⟨⟩, s₈, hjournal, h₈⟩ := bind_apply_eq_ok.mp h₇
    obtain ⟨refund, hrefund, rfl⟩ := countRefund_cases hcount
    obtain ⟨kernel, hcommit, rfl⟩ := journal_cases hjournal
    cases h₈
    exact .kept s.toGasPools pools base _ refund s.kernel kernel 1 ⟨hsucceeded.symm, rfl⟩ hbase hgas
      hstateGas hwrites hrefund rfl hcommit
  | false =>
    rw [hsucceeded] at hend
    obtain ⟨kernel, credited, hrevert, hcredit, rfl⟩ := undoChild_cases hend
    exact .undone s.toGasPools pools credited base _ kernel ⟨hsucceeded.symm, rfl⟩ hbase hgas
      hstateGas hwrites hcredit hrevert

/-! ## Creations -/

theorem exceptionalPools_eq (child : Frame) (status : FrameStatus) (s : MachineState)
    (p : GasPools) : exceptionalPools ctx child.message.stateGasReservoir p =
      (exceptionalState ctx.amsterdam (gasFrame child status s) p).pools := by
  rw [exceptionalPools, exceptionalState]
  cases ctx.amsterdam with
  | false | true => rfl

/-! The four ways a finished creation is settled. -/

section

variable {amsterdam : Bool} {g : EvmSail.Frame} {d : Deployment} {p q : GasPools}

theorem settleCreate_barred (hs : frameSucceeded g.status = true)
    (hallowed : d.codeAllowed = false) :
    settleCreate amsterdam g d = .ok (exceptionalState amsterdam g g.pools) := by
  rw [settleCreate, if_pos hs, if_pos (by rw [hallowed]; exact Bool.false_ne_true)]

theorem settleCreate_paid (hs : frameSucceeded g.status = true) (hallowed : d.codeAllowed = true)
    (hspend : spend g.pools d.executionDeposit = some p)
    (hstate : spendState p d.stateDeposit = .ok (some q)) :
    settleCreate amsterdam g d = .ok { g with pools := q } := by
  rw [settleCreate, if_pos hs, if_neg (not_not.mpr hallowed)]
  simp only [hspend, hstate]
  rfl

theorem settleCreate_unpaid (hs : frameSucceeded g.status = true) (hallowed : d.codeAllowed = true)
    (hspend : spend g.pools d.executionDeposit = some p)
    (hstate : spendState p d.stateDeposit = .ok none) :
    settleCreate amsterdam g d = .ok (exceptionalState amsterdam g p) := by
  rw [settleCreate, if_pos hs, if_neg (not_not.mpr hallowed)]
  simp only [hspend, hstate]
  rfl

theorem settleCreate_dear (hs : frameSucceeded g.status = true) (hallowed : d.codeAllowed = true)
    (hspend : spend g.pools d.executionDeposit = none) :
    settleCreate amsterdam g d =
      if d.homestead then .ok (exceptionalState amsterdam g g.pools)
      else .ok { g with pools := { g.pools with gas := 0 } } := by
  rw [settleCreate, if_pos hs, if_neg (not_not.mpr hallowed)]
  simp only [hspend]

end

/-- A creation that fails over its code has lost its gas. -/
theorem failDeployment_settles {child : Frame} {status : FrameStatus} {s : MachineState}
    {p : GasPools} {d : Deployment}
    (h : settleCreate ctx.amsterdam (gasFrame child status s) d =
      .ok (exceptionalState ctx.amsterdam (gasFrame child status s) p)) :
    ∃ d status', settleCreate ctx.amsterdam (gasFrame child status s) d =
      .ok { gasFrame child status s with
        pools := exceptionalPools ctx child.message.stateGasReservoir p
        status := status' } ∧ frameSucceeded status' = false := by
  refine ⟨d, .exceptional, h.trans ?_, rfl⟩
  rw [exceptionalPools_eq]
  rfl

theorem spendState_none {p q : GasPools} {amount : Nat}
    (h : chargeStateGas p amount = .ok (true, q)) : spendState p amount = .ok none := by
  rw [spendState, h]
  rfl

theorem spendState_some {p q : GasPools} {amount : Nat}
    (h : chargeStateGas p amount = .ok (false, q)) : spendState p amount = .ok (some q) := by
  rw [spendState, h]
  rfl

theorem payDeployment_cases {child : Frame} {status : FrameStatus} {size : Nat}
    {s s' : MachineState} {r : Bool × Bool} (hsucceeded : status.succeeded = true)
    (h : payDeployment ctx child.message.stateGasReservoir size s = .ok (r, s')) :
    ∃ settled, s' = { s with toGasPools := settled } ∧
      ∃ d status', settleCreate ctx.amsterdam (gasFrame child status s) d =
        .ok { gasFrame child status s with pools := settled, status := status' } ∧
      frameSucceeded status' = r.1 := by
  have hstatus : frameSucceeded (gasFrame child status s).status = true :=
    (frameSucceeded_gasStatus status).trans hsucceeded
  simp only [payDeployment] at h
  split at h
  · next haffordable =>
    have hle := codeDeploymentExecutionCost_covered _ _ _ haffordable
    generalize (codeDeploymentExecutionCost ctx.kernel.profile size s.gas).cost = cost at h hle
    obtain ⟨stateCost, -, h₁⟩ := bind_eq_ok.mp h
    obtain ⟨⟨halt, p⟩, hcharge, h₂⟩ := bind_eq_ok.mp h₁
    have hspend : spend s.toGasPools cost =
        some { s.toGasPools with gas := gasSub s.gas cost } := if_neg (by omega)
    cases halt with
    | true =>
      cases h₂
      obtain ⟨-, rfl⟩ | ⟨hhalt, -⟩ := chargeStateGas_eq_ok hcharge
      · exact ⟨_, rfl, failDeployment_settles (d := ⟨0, true, cost, stateCost, false⟩)
          (settleCreate_unpaid hstatus rfl hspend (spendState_none hcharge))⟩
      · cases hhalt
    | false =>
      cases h₂
      exact ⟨p, rfl, ⟨0, true, cost, stateCost, false⟩, gasStatus status,
        settleCreate_paid hstatus rfl hspend (spendState_some hcharge), hstatus⟩
  · have hspend : spend s.toGasPools (s.gas + 1) = none := if_pos (Nat.lt_succ_self _)
    split at h
    · cases h
      exact ⟨_, rfl, ⟨0, true, s.gas + 1, 0, false⟩, gasStatus status,
        settleCreate_dear hstatus rfl hspend, hstatus⟩
    · cases h
      exact ⟨_, rfl, failDeployment_settles (d := ⟨0, true, s.gas + 1, 0, true⟩)
        (settleCreate_dear hstatus rfl hspend)⟩

/-- A finished creation is settled as the gas and memory machine does it. -/
theorem settleDeployment_cases {child : Frame} {status : FrameStatus} {s s' : MachineState}
    {r : Bool × Bool}
    (h : settleDeployment ctx child.message.stateGasReservoir status s = .ok (r, s')) :
    ∃ settled, s' = { s with toGasPools := settled } ∧
      ∃ d status', settleCreate ctx.amsterdam (gasFrame child status s) d =
        .ok { gasFrame child status s with pools := settled, status := status' } ∧
      frameSucceeded status' = r.1 := by
  rw [settleDeployment] at h
  by_cases hsucceeded : status.succeeded = true
  · have hstatus : frameSucceeded (gasFrame child status s).status = true :=
      (frameSucceeded_gasStatus status).trans hsucceeded
    rw [if_pos hsucceeded] at h
    obtain ⟨s₀, s₁, hget, h₁⟩ := bind_apply_eq_ok.mp h
    cases hget
    split at h₁
    · exact payDeployment_cases hsucceeded h₁
    · cases h₁
      exact ⟨_, rfl, failDeployment_settles (d := ⟨0, false, 0, 0, false⟩)
        (settleCreate_barred hstatus rfl)⟩
  · have hstatus : frameSucceeded (gasStatus status) = false :=
      (frameSucceeded_gasStatus status).trans (Bool.eq_false_iff.mpr hsucceeded)
    rw [if_neg hsucceeded] at h
    cases h
    refine ⟨s.toGasPools, rfl, ⟨0, false, 0, 0, false⟩, gasStatus status, ?_, hstatus⟩
    rw [settleCreate, if_neg (by rw [gasFrame, hstatus]; exact Bool.false_ne_true)]
    rfl

theorem resumeCreate_cases {child parent : Frame} {status : FrameStatus} {c : FrameCheckpoint}
    {address : Address} {charged : Bool} {s s' : MachineState}
    (h : resumeCreate ctx child status c address charged s = .ok (parent, s')) :
    Returns ctx child status (.resumeCreate c address charged) s
      ((FrameContinuation.resumeCreate c address charged).succeeds ctx child status s)
      parent s' := by
  obtain ⟨s₀, s₁, hget, h₁⟩ := bind_apply_eq_ok.mp h
  obtain ⟨⟨succeeds, emptyDeposit⟩, s₂, hsettle, h₂⟩ := bind_apply_eq_ok.mp h₁
  obtain ⟨⟨⟩, s₃, hpop, h₃⟩ := bind_apply_eq_ok.mp h₂
  obtain ⟨base, s₄, hrestore, h₄⟩ := bind_apply_eq_ok.mp h₃
  obtain ⟨⟨⟩, s₅, hend, h₅⟩ := bind_apply_eq_ok.mp h₄
  cases hget
  simp only [FrameContinuation.succeeds, hsettle]
  obtain ⟨settled, rfl, hsettled⟩ := settleDeployment_cases hsettle
  cases hpop
  obtain ⟨hbase, pools, hgas, hstateGas, rfl⟩ := restoreFrame_cases hrestore
  cases h₅
  cases succeeds with
  | true =>
    obtain ⟨⟨⟩, s₆, hcount, h₆⟩ := bind_apply_eq_ok.mp hend
    obtain ⟨s₇, s₈, hread, h₇⟩ := bind_apply_eq_ok.mp h₆
    obtain ⟨bytes, s₉, hlift, h₈⟩ := bind_apply_eq_ok.mp h₇
    obtain ⟨⟨⟩, s₁₀, hdeploy, h₉⟩ := bind_apply_eq_ok.mp h₈
    obtain ⟨⟨⟩, s₁₁, hjournal, h₁₀⟩ := bind_apply_eq_ok.mp h₉
    obtain ⟨refund, hrefund, rfl⟩ := countRefund_cases hcount
    cases hread
    obtain ⟨-, rfl⟩ := liftM_apply_eq_ok.mp hlift
    obtain ⟨deployed, hrun, rfl⟩ := syscall_cases hdeploy
    obtain ⟨kernel, hcommit, rfl⟩ := journal_cases hjournal
    cases h₁₀
    exact .kept settled pools base s.memory refund deployed kernel _ hsettled hbase hgas
      hstateGas rfl hrefund ⟨bytes, hrun⟩ hcommit
  | false =>
    obtain ⟨kernel, credited, hrevert, hcredit, rfl⟩ := undoChild_cases hend
    exact .undone settled pools credited base s.memory kernel hsettled hbase hgas hstateGas
      rfl hcredit hrevert

/-- A suspended frame goes on in one of two ways. -/
theorem resumeFrame_cases {child parent : Frame} {status : FrameStatus} {k : FrameContinuation}
    {s s' : MachineState} (h : resumeFrame ctx child status k s = .ok (parent, s')) :
    Returns ctx child status k s (k.succeeds ctx child status s) parent s' := by
  cases k with
  | resumeCall c off len charged => exact resumeCall_cases h
  | resumeCreate c address charged => exact resumeCreate_cases h

/-- A creation pays, and gains nothing. -/
theorem settleCreate_regular {amsterdam : Bool} {g g' : EvmSail.Frame} {d : Deployment}
    (h : settleCreate amsterdam g d = .ok g') : g'.pools.regular ≤ g.pools.regular := by
  have hexceptional : ∀ p : GasPools, p.regular ≤ g.pools.regular →
      (exceptionalState amsterdam g p).pools.regular ≤ g.pools.regular := by
    intro p hp
    refine le_trans ?_ hp
    simp only [exceptionalState, GasPools.regular]
    split <;> omega
  rw [settleCreate] at h
  split at h
  · split at h
    · cases h
      exact hexceptional _ (Nat.le_refl _)
    · split at h
      · next p hspend =>
        have hpaid := (spend_eq_some hspend).1
        obtain ⟨q, hstate, h⟩ := bind_eq_ok.mp h
        cases q with
        | none =>
          cases h
          exact hexceptional p (by omega)
        | some q =>
          cases h
          have hcharged := (spendState_eq_some hstate).regular
          show q.regular ≤ _
          omega
      · split at h
        · cases h
          exact hexceptional _ (Nat.le_refl _)
        · cases h
          simp only [GasPools.regular]
          omega
  · cases h
    exact Nat.le_refl _

theorem FrameContinuation.Settles.regular {child : Frame} {status : FrameStatus}
    {s : MachineState} {succeeds : Bool} {settled : GasPools} {k : FrameContinuation}
    (h : k.Settles ctx child status s succeeds settled) : settled.regular ≤ s.regular := by
  cases k with
  | resumeCall c off len charged =>
    obtain ⟨-, rfl⟩ := h
    exact Nat.le_refl _
  | resumeCreate c address charged =>
    obtain ⟨d, status', hsettle, -⟩ := h
    exact settleCreate_regular hsettle

/-- The state gas that a frame has used when it has failed: from Amsterdam on
it is as it began. -/
def UseDropped (amsterdam : Bool) (reservoir : Nat) (p q : GasPools) : Prop :=
  if amsterdam then q.stateUse = -reservoir else p.stateUse ≤ q.stateUse

/-- A creation uses state gas for its code, or fails. -/
theorem settleCreate_stateUse {amsterdam : Bool} {g g' : EvmSail.Frame} {d : Deployment}
    (h : settleCreate amsterdam g d = .ok g') :
    g'.status = g.status ∧ g.pools.stateUse ≤ g'.pools.stateUse ∨
      g'.status = .exceptional ∧
        UseDropped amsterdam g.stateGasReservoir g.pools g'.pools := by
  have hexceptional : ∀ p : GasPools, p.stateUse = g.pools.stateUse →
      UseDropped amsterdam g.stateGasReservoir g.pools (exceptionalState amsterdam g p).pools := by
    intro p hp
    cases amsterdam with
    | true => exact zero_sub _
    | false => exact hp.ge
  rw [settleCreate] at h
  split at h
  · split at h
    · cases h
      exact .inr ⟨rfl, hexceptional _ rfl⟩
    · split at h
      · next p hspend =>
        have hpaid := spend_stateUse hspend
        obtain ⟨q, hstate, h⟩ := bind_eq_ok.mp h
        cases q with
        | none =>
          cases h
          exact .inr ⟨rfl, hexceptional p hpaid⟩
        | some q =>
          cases h
          have hcharged := (spendState_eq_some hstate).stateUse
          refine .inl ⟨rfl, ?_⟩
          rw [← hpaid, hcharged]
          exact Int.le_add_of_nonneg_right (Int.natCast_nonneg _)
      · split at h
        · cases h
          exact .inr ⟨rfl, hexceptional _ rfl⟩
        · cases h
          exact .inl ⟨rfl, Int.le_refl _⟩
  · cases h
    exact .inl ⟨rfl, Int.le_refl _⟩

theorem FrameContinuation.Settles.stateUse {child : Frame} {status : FrameStatus}
    {s : MachineState} {succeeds : Bool} {settled : GasPools} {k : FrameContinuation}
    (h : k.Settles ctx child status s succeeds settled) :
    succeeds = status.succeeded ∧ s.stateUse ≤ settled.stateUse ∨
      succeeds = false ∧
        UseDropped ctx.amsterdam child.message.stateGasReservoir s.toGasPools settled := by
  cases k with
  | resumeCall c off len charged =>
    obtain ⟨hsucceeds, rfl⟩ := h
    exact .inl ⟨hsucceeds, Int.le_refl _⟩
  | resumeCreate c address charged =>
    obtain ⟨d, status', hsettle, rfl⟩ := h
    rcases settleCreate_stateUse hsettle with ⟨hstatus, huse⟩ | ⟨hstatus, huse⟩
    · obtain rfl : status' = gasStatus status := hstatus
      exact .inl ⟨frameSucceeded_gasStatus status, huse⟩
    · obtain rfl : status' = .exceptional := hstatus
      exact .inr ⟨rfl, huse⟩

end

end EvmSail.Vm
