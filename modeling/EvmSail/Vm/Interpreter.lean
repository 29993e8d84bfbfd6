/-
# `EvmSail.Vm.Interpreter` — the run loop

One loop for a whole tree of calls.  In a round the active frame executes an
instruction, or, when it has ended, the innermost suspended one goes on; the
loop ends with the first frame.  In front of it stands the price of blobs,
which no fork before Cancun has: there nothing runs.

As a machine that suspends and resumes (`calls`) the loop is an instance of
`Nesting`: what a run does to a frame is a span of local steps and of whole
calls.  `callAt` runs the loop up to one call and over it, so that what is
shown of the calls of runs can be seen at work.
-/
import EvmSail.Evm.BlobGas
import EvmSail.Lib.Nesting
import EvmSail.Vm.Fetch
import EvmSail.Vm.FrameReturn

namespace EvmSail.Vm

open Fallible Kernel

/-- An active frame. -/
structure Activation where
  frame : Frame
  status : FrameStatus
  state : MachineState

abbrev Machine := Activation × List FrameContinuation

/-- `FRAME_STACK_CAPACITY`. -/
def frameStackCapacity : Nat := 1024

section

variable (ctx : Context)

/-- The instructions that may enter a frame. -/
def frameEntry (f : Frame) : Ast → Option (Exec FrameTransition)
  | .opcodeCreate => some (runCreate ctx f .createByNonce)
  | .create2 => some (runCreate ctx f .createBySalt)
  | .call => some (runCall ctx f .call)
  | .callcode => some (runCall ctx f .callCode)
  | .delegatecall => some (runCall ctx f .delegateCall)
  | .staticcall => some (runCall ctx f .staticCall)
  | _ => none

/-- The state a frame is left in: an exceptional halt keeps no gas. -/
def leave (f : Frame) (status : FrameStatus) (s : MachineState) : MachineState :=
  match status with
  | .exceptional _ =>
    { s with toGasPools := exceptionalPools ctx f.message.stateGasReservoir s.toGasPools }
  | _ => s

/-- Installs what the instruction has come to. -/
def applyTransition (f : Frame) (ks : List FrameContinuation) (s : MachineState) :
    FrameTransition → Result Machine
  | .failed kind => .ok (⟨f, .exceptional kind, leave ctx f (.exceptional kind) s⟩, ks)
  | .stays returndata => .ok (⟨{ f with returndata := returndata }, .running, s⟩, ks)
  | .enters k child =>
    if ks.length < frameStackCapacity then .ok (⟨child, .running, s⟩, k :: ks)
    else .error .guestAbort

/-- The active frame executes an instruction. -/
def executeStep (a : Activation) (ks : List FrameContinuation) : Result Machine :=
  let fetched := fetch a.frame.code.bytes a.state.pc ctx.kernel.profile.fork
  let s := { a.state with pc := fetched.1 }
  match frameEntry ctx a.frame fetched.2 with
  | some entry => do
    let r ← entry s
    applyTransition ctx a.frame ks r.2 r.1
  | none => do
    let r ← executeOpcode ctx a.frame fetched.2 s
    .ok (⟨a.frame, r.1, leave ctx a.frame r.1 r.2⟩, ks)

/-- A suspended frame goes on. -/
def resumeStep (a : Activation) (k : FrameContinuation) (ks : List FrameContinuation) :
    Result Machine := do
  let r ← resumeFrame ctx a.frame a.status k a.state
  .ok (⟨r.1, k.checkpoint.status, r.2⟩, ks)

/-- A round of the loop; none when the first frame has ended. -/
def interpretRound : Machine → Result (Option Machine)
  | (a, ks) =>
    if a.status = .running then do
      let m ← executeStep ctx a ks
      .ok (some m)
    else
      match ks with
      | [] => .ok none
      | k :: ks => do
        let m ← resumeStep ctx a k ks
        .ok (some m)

/-- The loop, for at most `steps` rounds; none when they do not suffice. -/
def interpretWithin : Nat → Machine → Result (Option Activation)
  | 0, _ => .ok none
  | steps + 1, m => do
    match ← interpretRound ctx m with
    | none => .ok (some m.1)
    | some m' => interpretWithin steps m'

/-- The rounds that the loop declares. -/
def callTreeSteps (a : Activation) : Nat := 3 * (a.state.gas + a.state.stateGas) + 2

/-- The price of blobs is settled before the first instruction, on every
fork. -/
def Context.priced : Result Context := do
  let blobFee ← ctx.kernel.profile.blobPrice ctx.header.excessBlobGas.val
  .ok { ctx with blobFee := BitVec.ofNat 256 blobFee }

/-- `interpret`: the run of the first frame and of all that it calls. -/
def interpret (a : Activation) : Result (Option Activation) := do
  let priced ← ctx.priced
  interpretWithin priced (callTreeSteps a) (a, [])

/-! ## As a machine that suspends and resumes -/

/-- The frame goes on or ends, without a call. -/
def Stays (a b : Activation) : Prop :=
  a.status = .running ∧ ∃ ks, executeStep ctx a ks = .ok (b, ks)

/-- The frame is suspended as `k`, and `c` begins. -/
def Enters (a : Activation) (k : FrameContinuation) (c : Activation) : Prop :=
  a.status = .running ∧ ∃ ks, executeStep ctx a ks = .ok (c, k :: ks)

/-- The frame `d` has ended, and `k` goes on as `a`. -/
def Resumes (d : Activation) (k : FrameContinuation) (a : Activation) : Prop :=
  d.status ≠ .running ∧ ∃ ks, resumeStep ctx d k ks = .ok (a, ks)

def calls : Nesting Activation FrameContinuation :=
  { stays := Stays ctx, enters := Enters ctx, resumes := Resumes ctx }

end

section

variable {ctx : Context}

/-- An instruction leaves the suspended frames, or puts one on top. -/
theorem executeStep_suspended {a b : Activation} {ks ks' : List FrameContinuation}
    (h : executeStep ctx a ks = .ok (b, ks')) :
    ks' = ks ∨ ∃ k, ks' = k :: ks := by
  simp only [executeStep] at h
  split at h
  · obtain ⟨r, -, h⟩ := bind_eq_ok.mp h
    cases hr : r.1 with
    | failed kind =>
      rw [hr] at h
      cases h
      exact .inl rfl
    | stays returndata =>
      rw [hr] at h
      cases h
      exact .inl rfl
    | enters k child =>
      rw [hr, applyTransition] at h
      split at h
      · cases h
        exact .inr ⟨k, rfl⟩
      · cases h
  · obtain ⟨r, -, h⟩ := bind_eq_ok.mp h
    cases h
    exact .inl rfl

theorem resumeStep_suspended {a b : Activation} {k : FrameContinuation}
    {ks ks' : List FrameContinuation} (h : resumeStep ctx a k ks = .ok (b, ks')) : ks' = ks := by
  obtain ⟨r, -, h⟩ := bind_eq_ok.mp h
  cases h
  rfl

/-- A round is a step of the machine. -/
theorem interpretRound_step {m m' : Machine} (h : interpretRound ctx m = .ok (some m')) :
    (calls ctx).Step m m' := by
  obtain ⟨a, ks⟩ := m
  obtain ⟨b, ks'⟩ := m'
  simp only [interpretRound] at h
  split at h
  · next hrunning =>
    obtain ⟨m, hm, h⟩ := bind_eq_ok.mp h
    cases h
    rcases executeStep_suspended hm with rfl | ⟨k, rfl⟩
    · exact .stays ⟨hrunning, ks', hm⟩
    · exact .enters ⟨hrunning, ks, hm⟩
  · next hended =>
    split at h
    · cases h
    · next k ks =>
      obtain ⟨m, hm, h⟩ := bind_eq_ok.mp h
      cases h
      obtain rfl := resumeStep_suspended hm
      exact .resumes ⟨hended, ks', hm⟩

/-- The loop ends with the first frame. -/
theorem interpretRound_none {m : Machine} (h : interpretRound ctx m = .ok none) :
    m.2 = [] ∧ m.1.status ≠ .running := by
  obtain ⟨a, ks⟩ := m
  simp only [interpretRound] at h
  split at h
  · obtain ⟨m', -, h⟩ := bind_eq_ok.mp h
    cases h
  · next hended =>
    split at h
    · exact ⟨rfl, hended⟩
    · obtain ⟨m', -, h⟩ := bind_eq_ok.mp h
      cases h

/-! ## One call of a run -/

/-- Whether there is a result, and it has the property. -/
def found {α : Type} (x : Result (Option α)) (q : α → Bool) : Bool :=
  match x with
  | .ok (some r) => q r
  | _ => false

theorem of_found {α : Type} {x : Result (Option α)} {q : α → Bool} (h : found x q = true) :
    ∃ r, x = .ok (some r) ∧ q r = true := by
  match x with
  | .ok (some r) => exact ⟨r, rfl, h⟩
  | .ok none => cases h
  | .error halt => cases h

variable (ctx) in
/-- The machine after `n` rounds, each of which comes to an activation that `p`
allows. -/
def roundsFrom (p : Activation → Bool) : Nat → Machine → Result (Option Machine)
  | 0, m => .ok (some m)
  | n + 1, m => do
    match ← interpretRound ctx m with
    | none => .ok none
    | some m' => if p m'.1 then roundsFrom p n m' else .ok none

theorem roundsFrom_steps {p : Activation → Bool} {n : Nat} {m m' : Machine}
    (h : roundsFrom ctx p n m = .ok (some m')) :
    ((calls ctx).within (p · = true)).Steps m m' := by
  induction n generalizing m with
  | zero =>
    cases h
    exact .refl
  | succ n ih =>
    rw [roundsFrom] at h
    obtain ⟨r, hround, h⟩ := bind_eq_ok.mp h
    cases r with
    | none => cases h
    | some m₁ =>
      dsimp only at h
      split at h
      · next hp => exact (ih h).head ((interpretRound_step hround).within hp)
      · cases h

/-- A call: the frame in front of it, the child as it begins, what waits for
it, the child at its end, and the frame as it goes on. -/
structure Call where
  before : Activation
  child : Activation
  waits : FrameContinuation
  ended : Activation
  back : Activation

variable (ctx) in
/-- The call that the first frame makes in the round `n + 1`, and that takes
`inside` rounds of its child. -/
def callAt (p : Activation → Bool) (n inside : Nat) (a₀ : Activation) :
    Result (Option Call) := do
  match ← roundsFrom ctx p n (a₀, []) with
  | some (b, []) =>
    match ← interpretRound ctx (b, []) with
    | some (c, [k]) =>
      match ← roundsFrom ctx p inside (c, []) with
      | some (d, []) => do
        let m ← resumeStep ctx d k []
        .ok (if p c && p m.1 && decide (d.status ≠ .running) then some ⟨b, c, k, d, m.1⟩ else none)
      | _ => .ok none
    | _ => .ok none
  | _ => .ok none

/-- It is a call of the run. -/
theorem Call.of_found {p : Activation → Bool} {n inside : Nat} {a₀ : Activation}
    {q : Call → Bool} (h : found (callAt ctx p n inside a₀) q = true) :
    ∃ r : Call, ((calls ctx).within (p · = true)).Steps (a₀, []) (r.before, []) ∧
      ((calls ctx).within (p · = true)).enters r.before r.waits r.child ∧
      ((calls ctx).within (p · = true)).Spans r.child r.ended ∧
      ((calls ctx).within (p · = true)).resumes r.ended r.waits r.back ∧ q r = true := by
  obtain ⟨r, hcall, hq⟩ := Vm.of_found h
  refine ⟨r, ?_⟩
  rw [callAt] at hcall
  obtain ⟨r₁, hrounds, h₁⟩ := bind_eq_ok.mp hcall
  split at h₁
  · next b =>
    obtain ⟨r₂, hround, h₂⟩ := bind_eq_ok.mp h₁
    split at h₂
    · next c k =>
      obtain ⟨r₃, hchild, h₃⟩ := bind_eq_ok.mp h₂
      split at h₃
      · next d =>
        obtain ⟨⟨e, ks⟩, hresume, h₄⟩ := bind_eq_ok.mp h₃
        obtain rfl := resumeStep_suspended hresume
        split at h₄
        · next hallowed =>
          cases h₄
          rw [Bool.and_eq_true, Bool.and_eq_true, decide_eq_true_eq] at hallowed
          obtain ⟨⟨hc, he⟩, hended⟩ := hallowed
          refine ⟨roundsFrom_steps hrounds, ?_,
            Nesting.spans_of_steps (roundsFrom_steps hchild), ⟨⟨hended, [], hresume⟩, he⟩, hq⟩
          cases interpretRound_step hround with
          | enters henter => exact ⟨henter, hc⟩
        · cases h₄
      · cases h₃
    · cases h₂
  · cases h₁

variable (ctx) in
/-- Such a call, whatever it comes to. -/
abbrev anyCallAt (n inside : Nat) (a₀ : Activation) : Result (Option Call) :=
  callAt ctx (fun _ => true) n inside a₀

theorem Call.of_any {n inside : Nat} {a₀ : Activation} {q : Call → Bool}
    (h : found (anyCallAt ctx n inside a₀) q = true) :
    ∃ r : Call, (calls ctx).Steps (a₀, []) (r.before, []) ∧
      Enters ctx r.before r.waits r.child ∧ (calls ctx).Spans r.child r.ended ∧
      Resumes ctx r.ended r.waits r.back ∧ q r = true := by
  obtain ⟨r, hrun, henter, hchild, hresume, hq⟩ := Call.of_found h
  exact ⟨r, Nesting.steps_of_within hrun, henter.1, hchild.of_within, hresume.1, hq⟩

end

end EvmSail.Vm
