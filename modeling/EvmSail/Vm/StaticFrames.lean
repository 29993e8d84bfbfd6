/-
# `EvmSail.Vm.StaticFrames` — frames that only read

A frame is static when a STATICCALL stands somewhere below it.  An
instruction that would write in such a frame fails at its guard, before the
host is asked for anything (`executeStep_mutates`).  So in a static frame,
and in all that it calls, every account, slot, transient slot and log reads
as it did when the frame was entered, and as it did in front of the call
(`static_frames_write_nothing`).
-/
import EvmSail.Vm.Rollback

namespace EvmSail.Vm

open Fallible Kernel Relation

/-- The instructions that write to the host: a call does so by the value that
it sends. -/
def Mutates (s : MachineState) : Ast → Prop
  | .sstore | .tstore | .log _ | .selfdestruct | .opcodeCreate | .create2 => True
  | .call => s.operand 2 ≠ 0
  | _ => False

section

variable {ctx : Context} {f : Frame} {s : MachineState}

/-! ## The guards -/

theorem barred_guardStatic {S : Type} [Outcome S] {k : Exec S}
    (hstatic : f.message.isStatic = true) :
    Barred (behind (guardStatic f.message.isStatic) k) s := by
  rw [hstatic]
  exact barred_failEmpty .writeProtection

theorem barred_runCreate {kind : CreateKind} (hstatic : f.message.isStatic = true) :
    Barred (runCreate ctx f kind) s := by
  refine .behind (.pop (.pop (.pop ?_)))
  cases kind with
  | createByNonce => exact .ite_pos hstatic (barred_failEmpty .writeProtection)
  | createBySalt => exact .pop (.ite_pos hstatic (barred_failEmpty .writeProtection))

theorem barred_runCall (hstatic : f.message.isStatic = true) (h : s.operand 2 ≠ 0) :
    Barred (runCall ctx f .call) s := by
  have hpop : ∃ o s₁, popCallOperands (callSemantics .call).takesValue s = .ok (o, s₁) ∧
      o.value = s.operand 2 ∧ s₁.kernel = s.kernel := ⟨_, _, rfl, rfl, rfl⟩
  obtain ⟨o, s₁, hpop, hvalue, hkernel⟩ := hpop
  rw [← hvalue] at h
  refine .behind ⟨.writeProtection, { s₁ with gas := 0 }, ?_, hkernel⟩
  refine bind_apply_eq_ok.mpr ⟨o, s₁, hpop, ?_⟩
  rw [if_pos ⟨rfl, h, hstatic⟩]
  rfl

/-- The frame fails at its instruction, with the host as it was. -/
def FailsUnseen (ctx : Context) (a : Activation) (ks : List FrameContinuation) : Prop :=
  ∃ kind s', executeStep ctx a ks = .ok (⟨a.frame, .exceptional kind, s'⟩, ks) ∧
    s'.kernel = a.state.kernel

theorem failsUnseen_entry {a : Activation} {ks : List FrameContinuation} {i : Ast}
    {entry : Exec FrameTransition} (hi : a.instruction ctx = i)
    (hentry : frameEntry ctx a.frame i = some entry) (h : Barred entry (a.fetched ctx)) :
    FailsUnseen ctx a ks := by
  obtain ⟨kind, s', hrun, hkernel⟩ := h
  refine ⟨kind, leave ctx a.frame (.exceptional kind) s', ?_, (leave_kernel _ _ _).trans hkernel⟩
  rw [← hi, Activation.instruction] at hentry
  rw [executeStep, hentry]
  exact bind_eq_ok.mpr ⟨_, hrun, rfl⟩

theorem failsUnseen_opcode {a : Activation} {ks : List FrameContinuation} {i : Ast}
    (hi : a.instruction ctx = i) (hentry : frameEntry ctx a.frame i = none)
    (h : Barred (executeOpcode ctx a.frame i) (a.fetched ctx)) : FailsUnseen ctx a ks := by
  obtain ⟨kind, s', hrun, hkernel⟩ := h
  refine ⟨kind, leave ctx a.frame (.exceptional kind) s', ?_, (leave_kernel _ _ _).trans hkernel⟩
  rw [← hi, Activation.instruction] at hentry hrun
  rw [executeStep, hentry]
  exact bind_eq_ok.mpr ⟨_, hrun, rfl⟩

/-- An instruction that would write ends a static frame. -/
theorem executeStep_mutates {a : Activation} {ks : List FrameContinuation}
    (hstatic : a.frame.message.isStatic = true)
    (h : Mutates (a.fetched ctx) (a.instruction ctx)) : FailsUnseen ctx a ks := by
  cases hi : a.instruction ctx with
  | opcodeCreate => exact failsUnseen_entry hi rfl (barred_runCreate hstatic)
  | create2 => exact failsUnseen_entry hi rfl (barred_runCreate hstatic)
  | call =>
    rw [hi] at h
    exact failsUnseen_entry hi rfl (barred_runCall hstatic h)
  | sstore => exact failsUnseen_opcode hi rfl (.ordinary (.behind (barred_guardStatic hstatic)))
  | tstore => exact failsUnseen_opcode hi rfl (.ordinary (.behind (barred_guardStatic hstatic)))
  | log n => exact failsUnseen_opcode hi rfl (.ordinary (.behind (barred_guardStatic hstatic)))
  | selfdestruct => exact failsUnseen_opcode hi rfl (.behind (barred_guardStatic hstatic))
  | _ =>
    rw [hi] at h
    cases h

/-! ## Calls -/

/-- A creation does not begin a static frame. -/
theorem runCreate_static {kind : CreateKind} {s s' : MachineState} {k : FrameContinuation}
    {child : Frame} (h : runCreate ctx f kind s = .ok (.enters k child, s')) :
    child.message.isStatic = false := by
  rcases runCreate_cases h with ⟨kind, hfailed, -⟩ |
    ⟨value, salt, c, initcode, pools, height, hpaid, -, h⟩
  · cases hfailed
  rcases guardCreate_cases h with ⟨kind, hfailed, -⟩ | hends
  · cases hfailed
  cases hends with
  | entered => exact hpaid.static

theorem runCall_waits {kind : CallKind} {s s' : MachineState} {k : FrameContinuation}
    {child : Frame} (h : runCall ctx f kind s = .ok (.enters k child, s')) :
    k.isCall = true := by
  rcases runCall_cases h with ⟨kind, hfailed, -⟩ | ⟨o, c, delegate, base, pools, kernel, hpaid, h⟩
  · cases hfailed
  obtain ⟨height, args, ret, childGas, kernel', -, -, -, hends⟩ := enterCall_cases h
  cases hends with
  | entered => rfl

/-- So a call waits for a static child. -/
theorem enters_static {b c : Activation} {k : FrameContinuation} (henter : Enters ctx b k c)
    (hstatic : c.frame.message.isStatic = true) : k.isCall = true := by
  obtain ⟨-, -, entry, hentry, hrun⟩ := henter.cases
  cases frameEntry_entry hentry with
  | call kind => exact runCall_waits hrun
  | create kind =>
    rw [runCreate_static hrun] at hstatic
    cases hstatic

/-- In a static frame and in all that it calls, whatever they run: every
account, slot, transient slot, log and stored code reads as it did when the
frame began, and an instruction that would write ends the frame that
executes it before the host is written to.  So nothing reads differently
behind the call that began the frame from in front of it. -/
theorem static_frames_write_nothing {c x : Activation} {ks : List FrameContinuation}
    (hc : Coherent ctx.kernel c.state.kernel.state) (hstatic : c.frame.message.isStatic = true)
    (hrun : (calls ctx).Steps (c, []) (x, ks)) :
    x.frame.message.isStatic = true ∧ SameReadings ctx.kernel c.state.kernel x.state.kernel ∧
      (x.status = .running → Mutates (x.fetched ctx) (x.instruction ctx) → ∀ ks, ∃ kind s',
        interpretRound ctx (x, ks) = .ok (some (⟨x.frame, .exceptional kind, s'⟩, ks)) ∧
          s'.kernel = x.state.kernel) ∧
      ∀ b k, Coherent ctx.kernel b.state.kernel.state → Enters ctx b k c →
        SameReadings ctx.kernel b.state.kernel c.state.kernel ∧
          ∀ e, ks = [] → Resumes ctx x k e →
            SameReadings ctx.kernel b.state.kernel e.state.kernel := by
  obtain ⟨hxStatic, -, hsame⟩ := static_spine hc hstatic (Nesting.steps_iff_spine.mp hrun)
  refine ⟨hxStatic, hsame, fun hrunning hmutates ks' => ?_, fun b k hb henter => ?_⟩
  · obtain ⟨kind, s', hstep, hkernel⟩ := executeStep_mutates hxStatic hmutates
    refine ⟨kind, s', ?_, hkernel⟩
    simp only [interpretRound]
    rw [if_pos hrunning, hstep]
    rfl
  · have hcall := enters_static henter hstatic
    cases k with
    | resumeCreate checkpoint address charged => cases hcall
    | resumeCall checkpoint off len charged =>
      obtain ⟨-, -, s₁, hentered⟩ := henter.entered
      have hlooks : Looks ctx.kernel b.state.kernel s₁.kernel := hentered.prepares
      obtain ⟨hfirst, hbegin, -⟩ := hentered.readings hstatic hlooks
      refine ⟨IsTrans.trans _ _ _ hfirst hbegin, ?_⟩
      rintro e rfl hresume
      exact static_call_readings hb hentered hstatic hlooks (fun _ _ hdeploys => hdeploys)
        (spans_runs (Nesting.spans_of_steps hrun)) hresume

/-- The callee of a STATICCALL, as it is about to store. -/
theorem static_frames_write_nothing_storing : ∃ (b c x : Activation) (k : FrameContinuation),
    Enters settledAmsterdam b k c ∧ (calls settledAmsterdam).Steps (c, []) (x, []) ∧
      x.instruction settledAmsterdam = .sstore ∧
      SameReadings settledAmsterdam.kernel b.state.kernel c.state.kernel ∧
      SameReadings settledAmsterdam.kernel c.state.kernel x.state.kernel ∧
      ∃ kind s', interpretRound settledAmsterdam (x, []) =
        .ok (some (⟨x.frame, .exceptional kind, s'⟩, [])) ∧ s'.kernel = x.state.kernel := by
  have hfound : found (anyCallAt settledAmsterdam 3 6
      (caller 0xfa [500000, 0xcc, 0, 32, 0, 32] destroys)) (fun r =>
        decide (r.child.frame.message.isStatic = true) &&
          found (roundsFrom settledAmsterdam (fun _ => true) 5 (r.child, [])) fun m =>
            decide (m.1.status = .running ∧ m.1.instruction settledAmsterdam = .sstore) &&
              m.2.isEmpty) = true := by
    decide +kernel
  obtain ⟨⟨b, c, k, d, e⟩, hrun, henter, -, -, hfacts⟩ := Call.of_any hfound
  obtain ⟨hstatic, hinside⟩ := Bool.and_eq_true_iff.mp hfacts
  obtain ⟨⟨x, ks⟩, hrounds, hx⟩ := of_found hinside
  obtain ⟨hx, hempty⟩ := Bool.and_eq_true_iff.mp hx
  obtain ⟨hrunning, hsstore⟩ := of_decide_eq_true hx
  obtain rfl : ks = [] := List.isEmpty_iff.mp hempty
  have hb := spine_coherent (coherent_calleeHost (by decide +kernel))
    (Nesting.steps_iff_spine.mp hrun)
  have hsteps := Nesting.steps_of_within (roundsFrom_steps hrounds)
  obtain ⟨-, hsame, hfails, hcall⟩ := static_frames_write_nothing (enters_coherent henter hb)
    (of_decide_eq_true hstatic) hsteps
  have hmutates : Mutates (x.fetched settledAmsterdam) (x.instruction settledAmsterdam) := by
    rw [hsstore]
    exact trivial
  exact ⟨b, c, x, k, henter, hsteps, hsstore, (hcall b k hb henter).1, hsame,
    hfails hrunning hmutates []⟩

end

end EvmSail.Vm
