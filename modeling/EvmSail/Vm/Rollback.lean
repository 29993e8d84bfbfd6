/-
# `EvmSail.Vm.Rollback` — what a call does to the host

Between the checkpoint and the end of a call the host only does what its
journal can take back (`spans_runs`), with all that is called in between.  A
child that fails therefore leaves no trace but what its parent has done
before the checkpoint, and a child that succeeds keeps all it has done
(`child_settled`); the same holds of the frames around it.  Whatever runs
below a static call, nothing reads differently afterwards
(`static_readOnly`).
-/
import EvmSail.Vm.Discipline

namespace EvmSail.Vm

open Fallible Kernel Kept Relation

section

variable {ctx : Context}

/-! ## Single frames -/

theorem Executed.touches {f : Frame} {least : Nat} {s s' : MachineState} {status : FrameStatus}
    (h : Executed least ctx f s status s') : Touches ctx f s.kernel s'.kernel := by
  cases h with
  | goesOn hmoves hspent => exact hmoves.touches
  | fails kind hmoves => exact touches_of_looks hmoves.behind.looks
  | ends kind hkind hmoves => exact hmoves.touches
  | reverts pools buffer output hmoves hpools => exact hmoves.moves.touches

theorem leave_kernel (f : Frame) (status : FrameStatus) (s : MachineState) :
    (leave ctx f status s).kernel = s.kernel := by
  cases status with
  | running | halted | exceptional => rfl

theorem Stayed.touches {a b : Activation} (h : Stayed ctx a b) :
    Touches ctx a.frame a.state.kernel b.state.kernel := by
  cases h with
  | opcode status s' h =>
    show Touches ctx a.frame a.state.kernel (leave ctx a.frame status s').kernel
    rw [leave_kernel]
    exact h.touches
  | answered returndata s' h => exact h.touches

/-! ## Calls -/

variable (ctx) in
/-- What a frame does to the host from `a` to `b`, calls included. -/
structure Runs (a b : Activation) : Prop where
  message : b.frame.message = a.frame.message
  code : b.frame.code = a.frame.code
  advances : Advances ctx.kernel a.state.kernel b.state.kernel
  readings : a.frame.message.isStatic = true → Coherent ctx.kernel a.state.kernel.state →
    SameReadings ctx.kernel a.state.kernel b.state.kernel

instance : IsPreorder Activation (Runs ctx) where
  refl a := ⟨rfl, rfl, Std.Refl.refl a.state.kernel, fun _ _ => Std.Refl.refl a.state.kernel⟩
  trans _ _ _ h₁ h₂ :=
    ⟨h₂.message.trans h₁.message, h₂.code.trans h₁.code,
      IsTrans.trans _ _ _ h₁.advances h₂.advances, fun hstatic hc =>
      IsTrans.trans _ _ _ (h₁.readings hstatic hc)
        (h₂.readings (h₁.message ▸ hstatic) (h₁.advances hc).coherent)⟩

theorem Stayed.runs {a b : Activation} (h : Stayed ctx a b) : Runs ctx a b := by
  have htouches := h.touches
  cases h with
  | opcode status s' h =>
    exact ⟨rfl, rfl, htouches.advances, fun hstatic _ => htouches.readings hstatic⟩
  | answered returndata s' h =>
    exact ⟨rfl, rfl, htouches.advances, fun hstatic _ => htouches.readings hstatic⟩

theorem FrameContinuation.Prepares.evolves {f : Frame} {h h' : Host} {k : FrameContinuation}
    (hprepares : k.Prepares ctx f h h') : Evolves ctx.kernel h h' := by
  cases k with
  | resumeCall c off len charged =>
    have hlooks : Looks ctx.kernel h h' := hprepares
    exact hlooks.evolves
  | resumeCreate c address charged => exact hprepares.2.evolves

theorem FrameContinuation.Deploys.evolves {h h' : Host} {k : FrameContinuation}
    (hdeploys : k.Deploys ctx h h') : Evolves ctx.kernel h h' := by
  cases k with
  | resumeCall c off len charged =>
    obtain rfl : h' = h := hdeploys
    exact Std.Refl.refl h'
  | resumeCreate c address charged =>
    obtain ⟨bytes, hrun⟩ := hdeploys
    exact Evolving.evolves _ _ _ hrun

/-- What the child has done since the checkpoint. -/
theorem child_advanced {b c d : Activation} {k : FrameContinuation} {s₁ : MachineState}
    (hc : Coherent ctx.kernel s₁.kernel.state)
    (henter : Entered ctx b.frame (b.fetched ctx) s₁ k c.frame c.state) (hchild : Runs ctx c d) :
    Advanced ctx.kernel (s₁.kernel.record .checkpointed) d.state.kernel := by
  obtain ⟨gas, kernel, hstate, hbegins, -⟩ := henter.begins
  have hkernel : c.state.kernel = kernel := by rw [hstate]; rfl
  have hcheckpoint : Coherent ctx.kernel (s₁.kernel.record .checkpointed).state := hc
  have hfirst := (hbegins hcheckpoint).toAdvanced
  rw [← hkernel] at hfirst
  exact hfirst.trans (hchild.advances hfirst.coherent)

theorem Returns.closes {child parent : Frame} {status : FrameStatus} {k : FrameContinuation}
    {s s' : MachineState} {succeeds : Bool}
    (h : Returns ctx child status k s succeeds parent s') :
    (succeeds = true → ∃ deployed, k.Deploys ctx s.kernel deployed ∧
      stateJournalCommit deployed = .ok s'.kernel) ∧
    (succeeds = false → stateJournalRevert s.kernel = .ok s'.kernel) := by
  cases h with
  | kept settled pools base memory refund deployed kernel word hsettled hparent hgas hstateGas
      hwrites hrefund hdeploys hcommit =>
    exact ⟨fun _ => ⟨deployed, hdeploys, hcommit⟩, fun hno => by cases hno⟩
  | undone settled returned pools base memory kernel hsettled hparent hgas hstateGas hwrites
      hcredit hrevert =>
    exact ⟨fun hno => (by cases hno), fun _ => hrevert⟩

theorem Returns.frame {child parent : Frame} {status : FrameStatus} {k : FrameContinuation}
    {s s' : MachineState} {succeeds : Bool}
    (h : Returns ctx child status k s succeeds parent s') :
    parent.message = k.checkpoint.message ∧ parent.code = k.checkpoint.code := by
  cases h with
  | kept | undone => exact ⟨rfl, rfl⟩

/-- What a call does to the host, in front of it a coherent one. -/
theorem call_advanced {b c d e : Activation} {k : FrameContinuation} {s₁ : MachineState}
    (hb : Coherent ctx.kernel b.state.kernel.state)
    (henter : Entered ctx b.frame (b.fetched ctx) s₁ k c.frame c.state) (hchild : Runs ctx c d)
    (hresume : Resumes ctx d k e) :
    Advanced ctx.kernel b.state.kernel e.state.kernel ∧
      (k.succeeds ctx d.frame d.status d.state = false →
        view ctx.kernel e.state.kernel.state = view ctx.kernel s₁.kernel.state) ∧
      (k.succeeds ctx d.frame d.status d.state = true → ∃ deployed,
        k.Deploys ctx d.state.kernel deployed ∧ e.state.kernel.state = deployed.state) := by
  obtain ⟨-, -, hreturns⟩ := hresume.returns
  obtain ⟨hkept, hundone⟩ := hreturns.closes
  have hs₁ : Advanced ctx.kernel b.state.kernel s₁.kernel := henter.prepares.evolves.advances hb
  have hframe := child_advanced hs₁.coherent henter hchild
  cases hsucceeds : k.succeeds ctx d.frame d.status d.state with
  | true =>
    obtain ⟨deployed, hdeploys, hcommit⟩ := hkept hsucceeds
    have hdeployed := hframe.trans (hdeploys.evolves.advances hframe.coherent)
    obtain ⟨hsame, hadvanced⟩ := commit_advanced rfl hdeployed hcommit
    exact ⟨hs₁.trans hadvanced, fun hno => (by cases hno), fun _ => ⟨deployed, hdeploys, hsame⟩⟩
  | false =>
    obtain ⟨h', hrevert, hadvanced, hview, -⟩ := revert_advanced hs₁.coherent rfl hframe
    rw [hundone hsucceeds] at hrevert
    cases hrevert
    exact ⟨hs₁.trans hadvanced, fun _ => hview, fun hno => (by cases hno)⟩

/-- A static child begins on a host that reads as that of its caller. -/
theorem Entered.readings {f child : Frame} {s s₁ s' : MachineState} {k : FrameContinuation}
    (henter : Entered ctx f s s₁ k child s') (hstatic : child.message.isStatic = true)
    (hlooks : Looks ctx.kernel s.kernel s₁.kernel) :
    SameReadings ctx.kernel s.kernel s₁.kernel ∧
      SameReadings ctx.kernel s₁.kernel s'.kernel ∧
      (Coherent ctx.kernel s.kernel.state → Coherent ctx.kernel s'.kernel.state) := by
  obtain ⟨gas, kernel, hstate, -, hkernel⟩ := henter.begins
  have hbegin : s'.kernel = s₁.kernel.record .checkpointed := by
    rw [hstate]
    exact hkernel hstatic
  rw [hbegin]
  exact ⟨hlooks.readings, .of_eq rfl rfl rfl, fun hc => (hlooks.advances hc).coherent⟩

/-- What a call whose child is static leaves reads as what was there. -/
theorem static_call_readings {b c d e : Activation} {k : FrameContinuation} {s₁ : MachineState}
    (hb : Coherent ctx.kernel b.state.kernel.state)
    (henter : Entered ctx b.frame (b.fetched ctx) s₁ k c.frame c.state)
    (hstatic : c.frame.message.isStatic = true)
    (hlooks : Looks ctx.kernel b.state.kernel s₁.kernel)
    (hdeploys : ∀ h h', k.Deploys ctx h h' → h' = h) (hchild : Runs ctx c d)
    (hresume : Resumes ctx d k e) : SameReadings ctx.kernel b.state.kernel e.state.kernel := by
  obtain ⟨-, -, hreturns⟩ := hresume.returns
  obtain ⟨hkept, hundone⟩ := hreturns.closes
  obtain ⟨hfirst, hbegin, hc⟩ := henter.readings hstatic hlooks
  have hs₁ : Advanced ctx.kernel b.state.kernel s₁.kernel := hlooks.advances hb
  have hframe := child_advanced hs₁.coherent henter hchild
  have hlast : SameReadings ctx.kernel s₁.kernel d.state.kernel :=
    IsTrans.trans _ _ _ hbegin (hchild.readings hstatic (hc hb))
  refine IsTrans.trans _ _ _ hfirst ?_
  cases hsucceeds : k.succeeds ctx d.frame d.status d.state with
  | true =>
    obtain ⟨deployed, hdeployed, hcommit⟩ := hkept hsucceeds
    obtain rfl := hdeploys _ _ hdeployed
    have hsame := (commit_advanced rfl hframe hcommit).1
    have hback : SameReadings ctx.kernel d.state.kernel e.state.kernel :=
      .of_eq (by rw [hsame]) (by rw [hsame]) (by rw [hsame])
    exact IsTrans.trans _ _ _ hlast hback
  | false =>
    have hrecord : SameReadings ctx.kernel (s₁.kernel.record .checkpointed) s₁.kernel :=
      .of_eq rfl rfl rfl
    exact revert_sameReadings hs₁.coherent rfl hframe (IsTrans.trans _ _ _ hrecord hlast)
      (hundone hsucceeds)

theorem call_runs {b c d e : Activation} {k : FrameContinuation} (henter : Enters ctx b k c)
    (hchild : Runs ctx c d) (hresume : Resumes ctx d k e) : Runs ctx b e := by
  obtain ⟨-, -, s₁, hentered⟩ := henter.entered
  obtain ⟨-, -, hreturns⟩ := hresume.returns
  obtain ⟨hmessage, hcode⟩ := hreturns.frame
  rw [hentered.checkpoint] at hmessage hcode
  refine ⟨hmessage, hcode, fun hb => (call_advanced hb hentered hchild hresume).1,
    fun hstatic hb => ?_⟩
  have hprepares := hentered.prepares
  cases k with
  | resumeCall c' off len charged =>
    exact static_call_readings hb hentered (hentered.opens.static hstatic) hprepares
      (fun _ _ hdeploys => hdeploys) hchild hresume
  | resumeCreate c' address charged =>
    have hno := hprepares.1
    rw [hstatic] at hno
    cases hno

theorem spans_runs {a b : Activation} (h : (calls ctx).Spans a b) : Runs ctx a b :=
  Nesting.Spans.inside (R := Runs ctx) (fun _ _ hstays => (Stays.stayed hstays).2.runs)
    (fun _ _ _ _ _ henter _ hchild hresume => call_runs henter hchild hresume) h

/-! ## Runs -/

theorem enters_coherent {b c : Activation} {k : FrameContinuation} (henter : Enters ctx b k c)
    (hb : Coherent ctx.kernel b.state.kernel.state) : Coherent ctx.kernel c.state.kernel.state := by
  obtain ⟨-, -, s₁, hentered⟩ := henter.entered
  have hs₁ : Advanced ctx.kernel b.state.kernel s₁.kernel := hentered.prepares.evolves.advances hb
  exact (child_advanced hs₁.coherent hentered (Std.Refl.refl c)).coherent

/-- The host is coherent in every run. -/
theorem spine_coherent {a₀ a : Activation} {ks : List FrameContinuation}
    (h₀ : Coherent ctx.kernel a₀.state.kernel.state) (h : (calls ctx).Spine a₀ ks a) :
    Coherent ctx.kernel a.state.kernel.state :=
  Nesting.Spine.invariant (fun _ _ hspans hc => ((spans_runs hspans).advances hc).coherent)
    (fun _ _ _ henter hc => enters_coherent henter hc) h h₀

/-- In every run, a child that fails, or a creation whose code is not
accepted, leaves every account, slot, transient slot, log and warm mark as
it was at the checkpoint, where the caller had but looked and the creator had
counted its nonce up, even though frames that it called have succeeded; a
child that succeeds leaves what it has done, a creation its code too. What
the whole call has done the journal can take back, should a frame further
down fail. -/
theorem child_settled {a₀ b c d e : Activation} {k : FrameContinuation}
    {ks : List FrameContinuation} (h₀ : Coherent ctx.kernel a₀.state.kernel.state)
    (hrun : (calls ctx).Steps (a₀, []) (b, ks)) (henter : Enters ctx b k c)
    (hchild : (calls ctx).Spans c d) (hresume : Resumes ctx d k e) :
    ∃ s₁, Entered ctx b.frame (b.fetched ctx) s₁ k c.frame c.state ∧
      k.Prepares ctx b.frame b.state.kernel s₁.kernel ∧
      (k.succeeds ctx d.frame d.status d.state = false →
        view ctx.kernel e.state.kernel.state = view ctx.kernel s₁.kernel.state) ∧
      (k.succeeds ctx d.frame d.status d.state = true → ∃ deployed,
        k.Deploys ctx d.state.kernel deployed ∧ e.state.kernel.state = deployed.state) ∧
      Advanced ctx.kernel b.state.kernel e.state.kernel := by
  have hb := spine_coherent h₀ (Nesting.steps_iff_spine.mp hrun)
  obtain ⟨-, -, s₁, hentered⟩ := henter.entered
  obtain ⟨hadvanced, hfailed, hsucceeded⟩ :=
    call_advanced hb hentered (spans_runs hchild) hresume
  exact ⟨s₁, hentered, hentered.prepares, hfailed, hsucceeded, hadvanced⟩

theorem analyzed_callee {ending : List Byte}
    (h : destinationsFrom true (calleeBytes ending) 0 = [5]) :
    Analyzed settledAmsterdam.kernel ⟨calleeBytes ending, [5]⟩ := by
  show analyzeCode true (calleeBytes ending) = .ok [5]
  rw [analyzeCode_eq, h]

theorem coherent_calleeHost {ending : List Byte}
    (h : destinationsFrom true (calleeBytes ending) 0 = [5]) :
    Coherent settledAmsterdam.kernel (calleeHost ending).state where
  sound := sound_noEffects _ [] rfl
  numbered := by
    refine ⟨fun _ => Nat.le_refl _, fun key row hrow => ?_⟩
    cases hrow
  analyzed := by
    intro hash code hcode
    have hif : (if hash = calleeHash then some (⟨calleeBytes ending, [5]⟩ : Kernel.Code)
      else none) = some code := hcode
    split at hif
    · cases hif
      exact analyzed_callee h
    · cases hif

/-- The callee has been paid, has stored, and fails. -/
theorem child_settled_failing : ∃ (r : Call) (s₁ : MachineState),
    Entered settledAmsterdam r.before.frame (r.before.fetched settledAmsterdam) s₁ r.waits
        r.child.frame r.child.state ∧
      Resumes settledAmsterdam r.ended r.waits r.back ∧
      r.ended.status = .exceptional .invalidOpcode ∧
      balanceReading settledAmsterdam.kernel r.ended.state.kernel.state callee = 17 ∧
      view settledAmsterdam.kernel r.back.state.kernel.state =
        view settledAmsterdam.kernel s₁.kernel.state := by
  have hfound : found (payingCall 13 fails) (fun r =>
      r.ended.status = .exceptional .invalidOpcode ∧
        balanceReading settledAmsterdam.kernel r.ended.state.kernel.state callee = 17 ∧
        r.waits.succeeds settledAmsterdam r.ended.frame r.ended.status r.ended.state = false) =
      true := by
    decide +kernel
  obtain ⟨r, hrun, henter, hchild, hresume, hfacts⟩ := Call.of_any hfound
  obtain ⟨hstatus, hpaid, hsucceeds⟩ := of_decide_eq_true hfacts
  have hcoherent : Coherent settledAmsterdam.kernel (paying fails).state.kernel.state :=
    coherent_calleeHost (by decide +kernel)
  obtain ⟨s₁, hentered, -, hfailed, -, -⟩ :=
    child_settled hcoherent hrun henter hchild hresume
  exact ⟨r, s₁, hentered, hresume, hstatus, hpaid, hfailed hsucceeds⟩

/-- Below a static frame every frame is static, and nothing reads differently. -/
theorem static_spine {c x : Activation} {ks : List FrameContinuation}
    (hc : Coherent ctx.kernel c.state.kernel.state) (hstatic : c.frame.message.isStatic = true)
    (h : (calls ctx).Spine c ks x) :
    x.frame.message.isStatic = true ∧ Coherent ctx.kernel x.state.kernel.state ∧
      SameReadings ctx.kernel c.state.kernel x.state.kernel := by
  refine Nesting.Spine.invariant (I := fun x => x.frame.message.isStatic = true ∧
    Coherent ctx.kernel x.state.kernel.state ∧
      SameReadings ctx.kernel c.state.kernel x.state.kernel) ?_ ?_ h
    ⟨hstatic, hc, Std.Refl.refl c.state.kernel⟩
  · rintro a b hspans ⟨hstatic, hc, hsame⟩
    have hruns := spans_runs hspans
    exact ⟨hruns.message ▸ hstatic, (hruns.advances hc).coherent,
      IsTrans.trans _ _ _ hsame (hruns.readings hstatic hc)⟩
  · rintro b k c' henter ⟨hstatic, hc, hsame⟩
    obtain ⟨-, -, s₁, hentered⟩ := henter.entered
    have hprepares := hentered.prepares
    cases k with
    | resumeCall c'' off len charged =>
      have hchild := hentered.opens.static hstatic
      obtain ⟨hfirst, hbegin, -⟩ := hentered.readings hchild hprepares
      exact ⟨hchild, enters_coherent henter hc,
        IsTrans.trans _ _ _ hsame (IsTrans.trans _ _ _ hfirst hbegin)⟩
    | resumeCreate c'' address charged =>
      have hno := hprepares.1
      rw [hstatic] at hno
      cases hno

/-- In every run, from a call whose child is static on, and in all the frames
the child calls: every account, every slot, the transient slots and the logs
read as they did in front of the call, at every point of it and behind it. -/
theorem static_readOnly {a₀ b c x : Activation} {checkpoint : FrameCheckpoint} {off len : Nat}
    {charged : Bool} {ks ks' : List FrameContinuation}
    (h₀ : Coherent ctx.kernel a₀.state.kernel.state)
    (hrun : (calls ctx).Steps (a₀, []) (b, ks))
    (henter : Enters ctx b (.resumeCall checkpoint off len charged) c)
    (hstatic : c.frame.message.isStatic = true) (hlater : (calls ctx).Steps (c, []) (x, ks')) :
    x.frame.message.isStatic = true ∧
      SameReadings ctx.kernel b.state.kernel x.state.kernel ∧
      ∀ e, ks' = [] → Resumes ctx x (.resumeCall checkpoint off len charged) e →
        SameReadings ctx.kernel b.state.kernel e.state.kernel := by
  have hb := spine_coherent h₀ (Nesting.steps_iff_spine.mp hrun)
  obtain ⟨-, -, s₁, hentered⟩ := henter.entered
  have hlooks : Looks ctx.kernel b.state.kernel s₁.kernel := hentered.prepares
  obtain ⟨hfirst, hbegin, -⟩ := hentered.readings hstatic hlooks
  obtain ⟨hxStatic, -, hsame⟩ := static_spine (enters_coherent henter hb) hstatic
    (Nesting.steps_iff_spine.mp hlater)
  refine ⟨hxStatic, IsTrans.trans _ _ _ hfirst (IsTrans.trans _ _ _ hbegin hsame), ?_⟩
  rintro e rfl hresume
  exact static_call_readings hb hentered hstatic hlooks (fun _ _ hdeploys => hdeploys)
    (spans_runs (Nesting.spans_of_steps hlater)) hresume

/-- Whether it is a call that waits. -/
def FrameContinuation.isCall : FrameContinuation → Bool
  | .resumeCall _ _ _ _ => true
  | .resumeCreate _ _ _ => false

/-- The callee of a STATICCALL tries to store. -/
theorem static_readOnly_storing : ∃ r : Call,
    Enters settledAmsterdam r.before r.waits r.child ∧
      Resumes settledAmsterdam r.ended r.waits r.back ∧
      r.ended.status = .exceptional .writeProtection ∧
      SameReadings settledAmsterdam.kernel r.before.state.kernel r.back.state.kernel := by
  have hfound : found (anyCallAt settledAmsterdam 3 6
      (caller 0xfa [500000, 0xcc, 0, 32, 0, 32] destroys)) (fun r =>
        decide (r.ended.status = .exceptional .writeProtection ∧
          r.child.frame.message.isStatic = true ∧ r.waits.isCall = true)) = true := by
    decide +kernel
  obtain ⟨⟨b, c, k, d, e⟩, hrun, henter, hchild, hresume, hfacts⟩ := Call.of_any hfound
  obtain ⟨hstatus, hstatic, hcall⟩ := of_decide_eq_true hfacts
  cases k with
  | resumeCreate checkpoint address charged => cases hcall
  | resumeCall checkpoint off len charged =>
    obtain ⟨-, -, hback⟩ := static_readOnly (coherent_calleeHost (by decide +kernel)) hrun henter
      hstatic (hchild.steps [])
    exact ⟨_, henter, hresume, hstatus, hback e rfl hresume⟩

end

end EvmSail.Vm
