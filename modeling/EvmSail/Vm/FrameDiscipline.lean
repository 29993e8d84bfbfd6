/-
# `EvmSail.Vm.FrameDiscipline` — nested calls, on everything that frames share

Frames have one journal, one row of stacks and one arena of memory between
them.  Every frame that is suspended has one checkpoint in the journal, in
the order of the calls; a call opens its own and closes it, by a commit or a
revert, before its caller goes on (`spine_opened`, `call_closed`).  The
caller goes on with the registers of its checkpoint (`call_restored`), with
what the child has left of its gas (`Returns.regained`), and of the memory it
sees only the range changes that it has named (`FrameDiscipline`).
-/
import EvmSail.Vm.MemoryWindow
import EvmSail.Vm.Rollback

namespace EvmSail.Vm

open Fallible Kernel Journal Relation

section

variable {ctx : Context}

/-! ## Checkpoints -/

theorem advanced_balanced {h h' : Host} (hadvanced : Advanced ctx.kernel h h') :
    ∃ j, Balanced j ∧ h'.journal = j ++ h.journal := by
  obtain ⟨j, hj, hcovers, -⟩ := hadvanced.tracks
  exact ⟨j, hcovers.balanced, hj⟩

/-- In every run there is one open checkpoint for each frame that is suspended. -/
theorem spine_opened {a₀ a : Activation} {ks : List FrameContinuation}
    (h₀ : Coherent ctx.kernel a₀.state.kernel.state) (h : (calls ctx).Spine a₀ ks a) :
    Opened a₀.state.kernel.journal ks.length a.state.kernel.journal := by
  induction h with
  | bottom h =>
    obtain ⟨j, hj, ha⟩ := advanced_balanced ((spans_runs h).advances h₀)
    rw [ha]
    exact .base hj
  | @above ks b c a k hbelow henter h ih =>
    obtain ⟨-, -, s₁, hentered⟩ := henter.entered
    have hs₁ : Advanced ctx.kernel b.state.kernel s₁.kernel :=
      hentered.prepares.evolves.advances (spine_coherent h₀ hbelow)
    obtain ⟨prepared, hprepared, hb⟩ := advanced_balanced hs₁
    obtain ⟨inner, hinner, ha⟩ :=
      advanced_balanced (child_advanced hs₁.coherent hentered (spans_runs h))
    rw [ha]
    refine .frame hinner ?_
    show Opened a₀.state.kernel.journal ks.length s₁.kernel.journal
    rw [hb]
    exact ih.append hprepared

/-- The checkpoint over `opened` is closed once, when the caller goes on: it is
committed as the innermost, over the code that a creation has deployed, or it
is gone with all that stood above it. -/
structure Closed (ctx : Context) (opened : List (Record Kernel.Entry)) (k : FrameContinuation)
    (d e : Activation) : Prop where
  committed : k.succeeds ctx d.frame d.status d.state = true → ∃ deployed inner,
    k.Deploys ctx d.state.kernel deployed ∧ Balanced inner ∧
      deployed.journal = inner ++ .checkpointed :: opened ∧
      stateJournalCommit deployed = .ok e.state.kernel ∧
      e.state.kernel.journal = .committed :: deployed.journal
  reverted : k.succeeds ctx d.frame d.status d.state = false →
    stateJournalRevert d.state.kernel = .ok e.state.kernel ∧ e.state.kernel.journal = opened

theorem call_closed {b c d e : Activation} {k : FrameContinuation} {s₁ : MachineState}
    (hb : Coherent ctx.kernel b.state.kernel.state)
    (henter : Entered ctx b.frame (b.fetched ctx) s₁ k c.frame c.state)
    (hchild : (calls ctx).Spans c d) (hresume : Resumes ctx d k e) :
    Closed ctx s₁.kernel.journal k d e := by
  obtain ⟨-, -, hreturns⟩ := hresume.returns
  obtain ⟨hkept, hundone⟩ := hreturns.closes
  have hs₁ : Advanced ctx.kernel b.state.kernel s₁.kernel := henter.prepares.evolves.advances hb
  have hframe := child_advanced hs₁.coherent henter (spans_runs hchild)
  refine ⟨fun hsucceeds => ?_, fun hfails => ⟨hundone hfails, ?_⟩⟩
  · obtain ⟨deployed, hdeploys, hcommit⟩ := hkept hsucceeds
    obtain ⟨inner, hinner, hjournal⟩ :=
      advanced_balanced (hframe.trans (hdeploys.evolves.advances hframe.coherent))
    have hclosed := congrArg Journaled.journal (kernelRollback.commit_ok deployed _ hcommit)
    exact ⟨deployed, inner, hdeploys, hinner, hjournal, hcommit, hclosed⟩
  · obtain ⟨h', hrevert, -, hjournal, -⟩ :=
      revert_exact (R := kernelRollback) (h := s₁.kernel) rfl hframe.tracks
    have hsame : stateJournalRevert d.state.kernel = .ok h' := hrevert
    rw [hundone hfails] at hsame
    cases hsame
    exact hjournal

/-! ## Gas -/

/-- The pools and the refund of a frame that goes on: those of its checkpoint,
to which is added what its child has left.  A child that has failed leaves no
refund, and the state gas of an account that has not come to be is given
back. -/
structure Regained (ctx : Context) (k : FrameContinuation) (d e : Activation)
    (settled returned : GasPools) : Prop where
  settles : k.Settles ctx d.frame d.status d.state (k.succeeds ctx d.frame d.status d.state) settled
  gas : returned.gas = k.checkpoint.gas + settled.gas
  stateGas : returned.stateGas = k.checkpoint.stateGas + settled.stateGas
  stateSpill : returned.stateSpill = k.checkpoint.stateSpill + settled.stateSpill
  kept : k.succeeds ctx d.frame d.status d.state = true →
    e.state.toGasPools = returned ∧ e.state.refund = k.checkpoint.refund + d.state.refund
  undone : k.succeeds ctx d.frame d.status d.state = false →
    creditNewAccount returned k.newAccountCharged = .ok e.state.toGasPools ∧
      e.state.refund = k.checkpoint.refund

theorem Resumes.regained {d e : Activation} {k : FrameContinuation} (h : Resumes ctx d k e) :
    ∃ settled returned, Regained ctx k d e settled returned := by
  obtain ⟨-, -, hreturns⟩ := h.returns
  generalize hsucceeds : k.succeeds ctx d.frame d.status d.state = succeeds at hreturns
  generalize hstate : e.state = s' at hreturns
  generalize e.frame = parent at hreturns
  cases hreturns with
  | kept settled pools base memory refund deployed kernel word hsettled hparent hgas hstateGas
      hwrites hrefund hdeploys hcommit =>
    have hsums := returnChildStateGas_eq_ok hstateGas
    refine ⟨settled, pools, hsucceeds ▸ hsettled, conservedGasAdd_eq_ok hgas,
      congrArg Prod.fst hsums, congrArg Prod.snd hsums, fun _ => ?_, fun hfails => ?_⟩
    · rw [hstate]
      exact ⟨rfl, recordRefund_eq_ok hrefund⟩
    · rw [hsucceeds] at hfails
      cases hfails
  | undone settled returned pools base memory kernel hsettled hparent hgas hstateGas hwrites
      hcredit hrevert =>
    have hsums := returnChildStateGas_eq_ok hstateGas
    refine ⟨settled, returned, hsucceeds ▸ hsettled, conservedGasAdd_eq_ok hgas,
      congrArg Prod.fst hsums, congrArg Prod.snd hsums, fun hkept => ?_, fun _ => ?_⟩
    · rw [hsucceeds] at hkept
      cases hkept
    · rw [hstate]
      exact ⟨hcredit, rfl⟩

/-! ## The discipline -/

/-- What a call leaves to the frame `b` that has made it, and that was suspended
in the state `s₁`: its registers, but for one word on the stack; its gas; its
memory, but for the range it has named; and no checkpoint. -/
structure Disciplined (ctx : Context) (b : Activation) (s₁ : MachineState) (k : FrameContinuation)
    (d e : Activation) : Prop where
  restored : Restored b s₁ k (frameOutput d.status) e
  regained : ∃ settled returned, Regained ctx k d e settled returned
  windowed : Windowed b.frame.memoryBase (b.writes ctx (frameOutput d.status).len) b.state e.state
  closed : Closed ctx s₁.kernel.journal k d e

theorem call_disciplined {a₀ b c d e : Activation} {k : FrameContinuation}
    {ks : List FrameContinuation} {s₁ : MachineState} (h₀ : Orderly a₀)
    (hc : Coherent ctx.kernel a₀.state.kernel.state) (hspine : (calls ctx).Spine a₀ ks b)
    (henter : Enters ctx b k c)
    (hentered : Entered ctx b.frame (b.fetched ctx) s₁ k c.frame c.state)
    (hchild : (calls ctx).Spans c d) (hresume : Resumes ctx d k e) :
    Disciplined ctx b s₁ k d e := by
  obtain ⟨r, hrequested, hasked⟩ := henter.asked
  have hrestored :=
    call_restored (spine_orderly h₀ hspine) hentered (spans_keeps hchild) hresume
  refine ⟨hrestored, hresume.regained, ?_,
    call_closed (spine_coherent hc hspine) hentered hchild hresume⟩
  rw [Activation.writes, hrequested]
  exact (hrestored.comesBack henter hentered hasked).windowed

/-- A frame begins with no memory to see. -/
theorem Entered.unseen {f child : Frame} {s s₁ s' : MachineState} {k : FrameContinuation}
    (h : Entered ctx f s s₁ k child s') (base i : Nat) : s'.window base i = 0 := by
  obtain ⟨gas, kernel, rfl, -, -⟩ := h.begins
  exact if_neg (Nat.not_lt_zero i)

/-- In every run of a first frame, at every point of it:
the depth is the number of frames that are suspended, at most 1024, and the
journal has one open checkpoint for each of them;
what the frame does by itself changes of its memory the range that its
instruction names, and memory that is added reads as zero, whatever an earlier
frame has left there;
a call opens a checkpoint over the journal of its caller and closes it, and the
caller goes on with its registers, its gas and its memory. -/
theorem frame_discipline {a₀ b : Activation} {ks : List FrameContinuation} (h₀ : Orderly a₀)
    (hc : Coherent ctx.kernel a₀.state.kernel.state) (hdepth : a₀.frame.message.depth = 0)
    (hrun : (calls ctx).Steps (a₀, []) (b, ks)) :
    (b.frame.message.depth = ks.length ∧ ks.length ≤ callDepthLimit) ∧
      (Opened a₀.state.kernel.journal ks.length b.state.kernel.journal ∧
        openFrames 0 b.state.kernel.journal =
          openFrames 0 a₀.state.kernel.journal + ks.length) ∧
      (∀ e, Stays ctx b e → e.frame.memoryBase = b.frame.memoryBase ∧
        Windowed b.frame.memoryBase (b.writes ctx e.frame.returndata.len) b.state e.state) ∧
      (∀ height s u s', growMemory ctx b.frame height s = .ok (u, s') →
        Windowed b.frame.memoryBase noOperand s s') ∧
      ∀ k c, Enters ctx b k c →
        ∃ s₁, Entered ctx b.frame (b.fetched ctx) s₁ k c.frame c.state ∧
          (∀ i, c.state.window c.frame.memoryBase i = 0) ∧
          Opened s₁.kernel.journal 1 c.state.kernel.journal ∧
          ∀ d e, (calls ctx).Spans c d → Resumes ctx d k e → Disciplined ctx b s₁ k d e := by
  have hspine := Nesting.steps_iff_spine.mp hrun
  have hopened := spine_opened hc hspine
  obtain ⟨hsuspended, -, -⟩ := spine_counted h₀ hspine
  rw [hdepth, Nat.zero_add] at hsuspended
  refine ⟨⟨hsuspended, hsuspended ▸ (spine_orderly h₀ hspine).depth⟩,
    ⟨hopened, openFrames_opened hopened⟩, fun e hstays => hstays.windowed,
    fun height s u s' hgrow => windows_growMemory height s u s' hgrow, fun k c henter => ?_⟩
  obtain ⟨-, -, s₁, hentered⟩ := henter.entered
  have hs₁ : Advanced ctx.kernel b.state.kernel s₁.kernel :=
    hentered.prepares.evolves.advances (spine_coherent hc hspine)
  obtain ⟨inner, hinner, hbegins⟩ :=
    advanced_balanced (child_advanced hs₁.coherent hentered (Std.Refl.refl c))
  refine ⟨s₁, hentered, hentered.unseen _, ?_, fun d e hchild hresume =>
    call_disciplined h₀ hc hspine henter hentered hchild hresume⟩
  rw [hbegins]
  exact .frame hinner (.base .nil)

/-- The callee has left a 9 above the memory of its caller, who grows over it
and sees a zero. -/
theorem frame_discipline_paying : ∃ (r : Call) (s₁ s' : MachineState),
    Entered settledAmsterdam r.before.frame (r.before.fetched settledAmsterdam) s₁ r.waits
        r.child.frame r.child.state ∧
      Resumes settledAmsterdam r.ended r.waits r.back ∧
      Disciplined settledAmsterdam r.before s₁ r.waits r.ended r.back ∧
      r.back.state.memory 32 = 9 ∧
      growMemory settledAmsterdam r.back.frame 64 r.back.state = .ok ((), s') ∧
      s'.window r.back.frame.memoryBase 32 = 0 := by
  have hfound : found (payingCall 14 destroys) (fun r =>
      r.back.state.memory 32 = 9 ∧ r.back.frame.memoryBase = 0 ∧
        r.back.state.memoryHeight = 32) = true := by
    decide +kernel
  obtain ⟨r, hrun, henter, hchild, hresume, hfacts⟩ := Call.of_any hfound
  obtain ⟨hleft, hbase, hheight⟩ := of_decide_eq_true hfacts
  have hcoherent : Coherent settledAmsterdam.kernel (paying destroys).state.kernel.state :=
    coherent_calleeHost (by decide +kernel)
  obtain ⟨-, -, -, -, hcalls⟩ := frame_discipline (orderly_paying destroys) hcoherent rfl hrun
  obtain ⟨s₁, hentered, -, -, hdisciplined⟩ := hcalls _ _ henter
  obtain ⟨-, -, -, hgrows, -⟩ := frame_discipline (orderly_paying destroys) hcoherent rfl
    (Nesting.steps_resumed hrun henter hchild hresume)
  have hexpand : expandMemory settledAmsterdam.memoryCapacity r.back.frame.memoryBase
      r.back.state.memoryHeight 64 = .ok 64 := by
    rw [hbase, hheight]
    rfl
  obtain ⟨s', hgrow⟩ :
      ∃ s', growMemory settledAmsterdam r.back.frame 64 r.back.state = .ok ((), s') :=
    ⟨_, bind_eq_ok.mpr ⟨64, hexpand, rfl⟩⟩
  have hwindowed := hgrows 64 r.back.state () s' hgrow
  refine ⟨r, s₁, s', hentered, hresume, hdisciplined _ _ hchild hresume, hleft, hgrow, ?_⟩
  rw [hwindowed.window 32 (.inr (Nat.zero_le 32))]
  exact if_neg (by omega)

end

end EvmSail.Vm
