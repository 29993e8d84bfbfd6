/-
# `EvmSail.Transition.Thrift` — no step makes ether

From a coherent host whose ether fits a word, the frame of a transaction leads
to one that the journal can take back, and that has no more ether (`Thrifty`).
For the run of the interpreter this is that of the frames it calls
(`spans_solvent`); around it nothing moves ether but the transfer of the
transaction's value, and that is covered where it is guarded.

A frame that fails is reverted, and then the host reads as at its checkpoint.
-/
import EvmSail.Transition.Steady
import EvmSail.Vm.Isolation

namespace EvmSail.Vm

open Fallible Kernel Relation

/-- From a coherent host whose ether fits, nothing is lost that the journal
takes back, and no ether is made. -/
def Thrifty (env : Env) (s s' : MachineState) : Prop :=
  Coherent env s.kernel.state → ether env s.kernel.state < 2 ^ 256 →
    Advanced env s.kernel s'.kernel ∧ ether env s'.kernel.state ≤ ether env s.kernel.state

instance (env : Env) : IsPreorder MachineState (Thrifty env) where
  refl _ hc _ := ⟨.refl hc, le_refl _⟩
  trans _ _ _ h₁ h₂ hc hfits := by
    obtain ⟨hadvanced₁, hle₁⟩ := h₁ hc hfits
    obtain ⟨hadvanced₂, hle₂⟩ := h₂ hadvanced₁.coherent (hle₁.trans_lt hfits)
    exact ⟨hadvanced₁.trans hadvanced₂, hle₂.trans hle₁⟩

section

variable {ctx : Context} {α : Type}

theorem Steady.thrifty {env : Env} {s s' : MachineState} (h : Steady env s s') :
    Thrifty env s s' :=
  fun hc _ => ⟨h.evolves.advances hc, h.balances.ether.le⟩

theorem leads_thrifty {env : Env} {x : Exec α} (hx : Leads (Steady env) x) :
    Leads (Thrifty env) x :=
  hx.mono fun _ _ h => h.thrifty

/-- A change that the host does not see. -/
theorem thrifty_of_kernel {env : Env} {s s' : MachineState} (h : s'.kernel = s.kernel) :
    Thrifty env s s' := by
  intro hc _
  rw [h]
  exact ⟨.refl hc, le_refl _⟩

/-! ## The interpreter -/

/-- A loop that has ended has run its machine. -/
theorem interpretWithin_run {n : Nat} {m : Machine} {b : Activation}
    (h : interpretWithin ctx n m = .ok (some b)) :
    b.status ≠ .running ∧ (calls ctx).Steps m (b, []) := by
  induction n generalizing m with
  | zero => cases h
  | succ n ih =>
    obtain ⟨r, hround, hrest⟩ := bind_eq_ok.mp h
    cases r with
    | none =>
      cases hrest
      obtain ⟨hnone, hended⟩ := interpretRound_none hround
      obtain ⟨a, ks⟩ := m
      obtain rfl : ks = [] := hnone
      exact ⟨hended, .refl⟩
    | some m' =>
      obtain ⟨hended, hsteps⟩ := ih hrest
      exact ⟨hended, hsteps.head (interpretRound_step hround)⟩

/-- What the run of the first frame comes to. -/
theorem runInterpreter_run {f : Frame} {s s' : MachineState} {status : FrameStatus}
    (h : runInterpreter ctx f s = .ok (status, s')) :
    ∃ priced b, ctx.priced = .ok priced ∧ b.status = status ∧ b.state = s' ∧ status ≠ .running ∧
      (calls priced).Steps (⟨f, .running, { s with pc := 0 }⟩, []) (b, []) := by
  obtain ⟨r, hinterpret, hrest⟩ := bind_eq_ok.mp h
  obtain ⟨priced, hpriced, hwithin⟩ := bind_eq_ok.mp hinterpret
  cases r with
  | none => cases hrest
  | some b =>
    cases hrest
    obtain ⟨hended, hsteps⟩ := interpretWithin_run hwithin
    exact ⟨priced, b, hpriced, rfl, rfl, hended, hsteps⟩

/-- The price of blobs is none of the kernel's business. -/
theorem Context.priced_kernel {priced : Context} (h : ctx.priced = .ok priced) :
    priced.kernel = ctx.kernel := by
  obtain ⟨blobFee, -, h⟩ := bind_eq_ok.mp h
  cases h
  rfl

theorem thrifty_runInterpreter (f : Frame) :
    Leads (Thrifty ctx.kernel) (runInterpreter ctx f) := by
  intro s status s' hrun hc hfits
  obtain ⟨priced, b, hpriced, rfl, rfl, -, hsteps⟩ := runInterpreter_run hrun
  rw [← Context.priced_kernel hpriced] at hc hfits ⊢
  have hspans := Nesting.spans_of_steps hsteps
  have hsolvent := spans_solvent (n := ether priced.kernel s.kernel.state) (by exact_mod_cast hfits)
    hspans ⟨hc, supply_ether s.kernel.state⟩
  have hle := hsolvent.supply.ether_le
  exact ⟨(spans_runs hspans).advances hc, by exact_mod_cast hle⟩

/-! ## The frame -/

theorem settleDeployment_kernel {reservoir : Nat} {status : FrameStatus} {s s' : MachineState}
    {r : Bool × Bool} (h : settleDeployment ctx reservoir status s = .ok (r, s')) :
    ∃ pools, s' = { s with toGasPools := pools } := by
  let child : Frame :=
    { message := ⟨0, 0, 0, 0, reservoir, false, 0⟩
      memoryBase := 0
      code := emptyCode
      calldata := emptyCalldata
      returndata := emptySlice }
  obtain ⟨pools, hs', -⟩ := @settleDeployment_cases ctx child status s s' r h
  exact ⟨pools, hs'⟩

theorem thrifty_deployTop (address : Address) (reservoir : Nat) (status : FrameStatus) :
    Leads (Thrifty ctx.kernel) (deployTop ctx address reservoir status) := by
  refine .bind (fun s r s' hrun => ?_) fun r => .ite ?_ (.pure _)
  · obtain ⟨pools, rfl⟩ := settleDeployment_kernel hrun
    exact thrifty_of_kernel rfl
  · exact .bind .get fun _ => .bind (.lift _) fun _ =>
      .bind (leads_thrifty (steady_syscall fun _ _ _ => bindCode_sameBalances)) fun _ => .pure _

theorem thrifty_endExceptionally (reservoir : Nat) (kind : ExceptionKind) :
    Leads (Thrifty ctx.kernel) (endExceptionally ctx reservoir kind) := by
  intro s r s' hrun
  cases hrun
  exact thrifty_of_kernel rfl

variable {P : Host → Payment → Prop} [∀ h p, Decidable (P h p)] {halt : Halt}

/-- What has been paid was allowed. -/
theorem guarded_eq_ok {p : Payment} {s : MachineState} {r : Unit × MachineState}
    (h : guarded ctx.kernel P halt p s = .ok r) :
    P s.kernel p ∧ kPay ctx.kernel p s = .ok r := by
  rw [guarded] at h
  split at h
  · next hallowed => exact ⟨hallowed, h⟩
  · cases h

variable (hP : ∀ h p, P h p → p.Covered ctx.kernel h) (tx : TransactionFields) (v : TxValidity)
include hP

theorem thrifty_transfer (src dst : Address) (value : Word) :
    Leads (Thrifty ctx.kernel) (guarded ctx.kernel P halt (.transfer src dst value)) := by
  intro s r s' hrun hc hfits
  obtain ⟨hallowed, hpay⟩ := guarded_eq_ok hrun
  obtain ⟨⟨⟨⟩, kernel⟩, htransfer, hpay⟩ := bind_eq_ok.mp hpay
  cases hpay
  have hevolves : Evolves ctx.kernel s.kernel kernel := Evolving.evolves _ _ _ htransfer
  exact ⟨hevolves.advances hc, (kTransfer_ether htransfer (hP _ _ hallowed) hfits).le⟩

theorem thrifty_prepareCreated (address : Address) :
    Leads (Thrifty ctx.kernel)
      (prepareCreated ctx tx v (guarded ctx.kernel P halt) address) :=
  .bind (leads_thrifty (steady_syscall fun _ _ _ => kMarkCreated_sameBalances)) fun _ =>
    .bind (leads_thrifty (steady_syscall fun _ _ _ => kClearStorage_sameBalances)) fun _ =>
      .bind (leads_thrifty (steady_syscall fun _ _ _ => kBumpNonce_sameBalances)) fun _ =>
        .ite (thrifty_transfer hP _ _ _) (.pure _)

theorem thrifty_runCreateTransactionFrame (d : Dispatch) (reservoir : Nat) :
    Leads (Thrifty ctx.kernel)
      (runCreateTransactionFrame ctx tx v (guarded ctx.kernel P halt) d reservoir) := by
  refine .bind (.lift _) fun address => .bind (leads_thrifty (steady_look _)) fun _ =>
    .bind (leads_thrifty (steady_look _)) fun _ => .ite (thrifty_endExceptionally _ _) ?_
  refine .bind (thrifty_prepareCreated hP tx v address) fun _ => .bind ?_ fun code =>
    .bind (thrifty_runInterpreter _) fun status => .ite (thrifty_deployTop _ _ _) (.pure _)
  exact .ite (.pure _) (leads_thrifty (steady_internInitcode _))

omit hP in
theorem thrifty_runDirectPrecompile (reservoir : Nat) (id : PrecompileId) :
    Leads (Thrifty ctx.kernel) (runDirectPrecompile ctx tx reservoir id) := by
  intro s status s' hrun
  rw [runDirectPrecompile] at hrun
  split at hrun
  · split at hrun
    · cases hrun
      exact thrifty_of_kernel rfl
    · exact thrifty_endExceptionally _ _ s status s' hrun
  · exact thrifty_endExceptionally _ _ s status s' hrun

theorem thrifty_runCallTransactionFrame (d : Dispatch) (reservoir : Nat) :
    Leads (Thrifty ctx.kernel)
      (runCallTransactionFrame ctx tx v (guarded ctx.kernel P halt) d reservoir) := by
  refine .bind (leads_thrifty (steady_look _)) fun _ => .bind ?_ fun _ => .ite ?_ ?_
  · exact .ite (thrifty_transfer hP _ _ _) (.pure _)
  · exact thrifty_runDirectPrecompile tx _ _
  · exact .bind (.ite (.pure _) (leads_thrifty (steady_legacyDispatch tx))) fun _ =>
      thrifty_runInterpreter _

theorem thrifty_runTopFrame (d : Dispatch) (reservoir : Nat) :
    Leads (Thrifty ctx.kernel) (runTopFrame ctx tx v (guarded ctx.kernel P halt) d reservoir) :=
  .ite (thrifty_runCreateTransactionFrame hP tx v d reservoir)
    (thrifty_runCallTransactionFrame hP tx v d reservoir)

/-! ## Around the frame -/

omit hP in
theorem checkpoint_state {h h₁ : Host} (hcheckpoint : stateJournalCheckpoint h = .ok h₁) :
    h₁.state = h.state := by
  cases hcheckpoint
  rfl

omit hP in
/-- What a reverted frame has done is taken back. -/
theorem Thrifty.reverted {env : Env} {s s₁ s₂ s₃ : MachineState} (h : Thrifty env s₁ s₂)
    (hcheckpoint : stateJournalCheckpoint s.kernel = .ok s₁.kernel)
    (hrevert : stateJournalRevert s₂.kernel = .ok s₃.kernel) : Thrifty env s s₃ := by
  intro hc hfits
  have hstate := checkpoint_state hcheckpoint
  obtain ⟨hadvanced, -⟩ := h (hstate ▸ hc) (hstate ▸ hfits)
  obtain ⟨kernel, hrevert', hback, hview, -⟩ := revert_advanced hc hcheckpoint hadvanced
  rw [hrevert] at hrevert'
  cases hrevert'
  exact ⟨hback, (ether_of_view hview).le⟩

omit hP in
theorem Thrifty.committed {env : Env} {s s₁ s₂ s₃ : MachineState} (h : Thrifty env s₁ s₂)
    (hcheckpoint : stateJournalCheckpoint s.kernel = .ok s₁.kernel)
    (hcommit : stateJournalCommit s₂.kernel = .ok s₃.kernel) : Thrifty env s s₃ := by
  intro hc hfits
  have hstate := checkpoint_state hcheckpoint
  obtain ⟨hadvanced, hle⟩ := h (hstate ▸ hc) (hstate ▸ hfits)
  obtain ⟨hstate', hback⟩ := commit_advanced hcheckpoint hadvanced hcommit
  rw [hstate'] at *
  exact ⟨hback, hle.trans (le_of_eq (by rw [hstate]))⟩

omit hP in
theorem Thrifty.closed {env : Env} {reservoir : Nat} {authorizationStateGas : Int}
    {status : FrameStatus} {s s₁ s₂ s₃ : MachineState} {o : FrameOutcome} (h : Thrifty env s₁ s₂)
    (hcheckpoint : stateJournalCheckpoint s.kernel = .ok s₁.kernel)
    (hclose : closeTopFrame reservoir authorizationStateGas status s₂ = .ok (o, s₃)) :
    Thrifty env s s₃ := by
  obtain ⟨⟨⟩, s₄, hjournal, hrest⟩ := bind_apply_eq_ok.mp hclose
  cases hrest
  obtain ⟨kernel, hkernel, rfl⟩ := journal_cases hjournal
  split at hkernel
  · exact h.committed hcheckpoint hkernel
  · exact h.reverted hcheckpoint hkernel

theorem thrifty_legacyFrameOutcome :
    Leads (Thrifty ctx.kernel) (legacyFrameOutcome ctx tx v (guarded ctx.kernel P halt)) := by
  intro s o s' hrun
  obtain ⟨⟨⟩, s₁, hjournal, h₁⟩ := bind_apply_eq_ok.mp hrun
  obtain ⟨⟨⟩, s₂, henter, h₂⟩ := bind_apply_eq_ok.mp h₁
  obtain ⟨status, s₃, hframe, hclose⟩ := bind_apply_eq_ok.mp h₂
  obtain ⟨kernel, hcheckpoint, rfl⟩ := journal_cases hjournal
  cases henter
  exact (thrifty_runTopFrame hP tx v _ _ _ _ _ hframe).closed hcheckpoint hclose

omit hP in
theorem thrifty_prepareAmsterdamFrame (upfront : TxUpfrontResult)
    (authorizations : PreparedAuthorizationList) :
    Leads (Thrifty ctx.kernel) (prepareAmsterdamFrame ctx tx v upfront authorizations) := by
  intro s r s' hrun
  obtain ⟨s₁, hfirst, ⟨-, rfl⟩ | ⟨dispatch, hsecond, -⟩⟩ := prepareAmsterdamFrame_cases tx v hrun
  · exact hfirst.thrifty
  · have hforgotten : Thrifty ctx.kernel s₁ { s₁ with stateSpill := 0 } := thrifty_of_kernel rfl
    exact IsTrans.trans _ _ _ hfirst.thrifty (IsTrans.trans _ _ _ hforgotten hsecond.thrifty)

theorem thrifty_amsterdamFrameOutcome (upfront : TxUpfrontResult)
    (authorizations : PreparedAuthorizationList) :
    Leads (Thrifty ctx.kernel)
      (amsterdamFrameOutcome ctx tx v (guarded ctx.kernel P halt) upfront authorizations) := by
  intro s o s' hrun
  obtain ⟨⟨⟩, s₁, henter, h₁⟩ := bind_apply_eq_ok.mp hrun
  obtain ⟨⟨⟩, s₂, hjournal, h₂⟩ := bind_apply_eq_ok.mp h₁
  obtain ⟨prepared, s₃, hprepare, h₃⟩ := bind_apply_eq_ok.mp h₂
  cases henter
  obtain ⟨kernel, hcheckpoint, rfl⟩ := journal_cases hjournal
  have hprepared := thrifty_prepareAmsterdamFrame tx v _ _ _ _ _ hprepare
  cases prepared with
  | none =>
    obtain ⟨⟨⟩, s₄, hjournal, hrest⟩ := bind_apply_eq_ok.mp h₃
    cases hrest
    obtain ⟨kernel', hrevert, rfl⟩ := journal_cases hjournal
    exact hprepared.reverted hcheckpoint hrevert
  | some prepared =>
    obtain ⟨⟨⟩, s₄, hjournal, h₄⟩ := bind_apply_eq_ok.mp h₃
    obtain ⟨status, s₅, hframe, h₅⟩ := bind_apply_eq_ok.mp h₄
    obtain ⟨outcome, s₆, hclose, h₆⟩ := bind_apply_eq_ok.mp h₅
    obtain ⟨⟨⟩, s₇, hcommitted, hrest⟩ := bind_apply_eq_ok.mp h₆
    cases hrest
    obtain ⟨kernel', hcheckpoint', rfl⟩ := journal_cases hjournal
    obtain ⟨kernel'', hcommit, rfl⟩ := journal_cases hcommitted
    have hclosed := (thrifty_runTopFrame hP tx v _ _ _ _ _ hframe).closed hcheckpoint' hclose
    have hboth : Thrifty ctx.kernel _ s₆ := IsTrans.trans _ _ _ hprepared hclosed
    exact hboth.committed hcheckpoint hcommit

/-- The frame of a transaction makes no ether, and what it does to the host can
be taken back. -/
theorem thrifty_runTransactionFrame (upfront : TxUpfrontResult)
    (authorizations : PreparedAuthorizationList) :
    Leads (Thrifty ctx.kernel)
      (runTransactionFrame ctx tx v (guarded ctx.kernel P halt) upfront authorizations) :=
  .bind
    (.ite (thrifty_amsterdamFrameOutcome hP tx v upfront authorizations)
      (thrifty_legacyFrameOutcome hP tx v))
    fun _ => .lift _

end

end EvmSail.Vm
