/-
# `EvmSail.Vm.Termination` — the run loop comes to its end

Every instruction that goes on spends execution gas, and a call spends more
than it lends to its child.  What is left of the gas, in the active frame
and in all that wait, therefore never grows (`gas_never_grows`), and the
number of rounds is bounded by it: three for each unit of gas, since a unit
may pay for an instruction, for a frame that begins and for the frame that
goes on behind it (`interpret_ends`).
-/
import EvmSail.Vm.Discipline

namespace EvmSail.Vm

open Fallible Kernel Relation

section

variable {ctx : Context}

/-! ## The gas of a frame -/

theorem exceptionalPools_regular (reservoir : Nat) (p : GasPools) :
    (exceptionalPools ctx reservoir p).regular ≤ p.regular := by
  simp only [exceptionalPools, GasPools.regular]
  split
  · exact Nat.zero_le _
  · show 0 + p.stateSpill ≤ p.gas + p.stateSpill
    omega

theorem revertPools_regular {reservoir : Nat} {p q : GasPools}
    (h : revertPools ctx reservoir p = .ok q) : q.regular = p.regular := by
  rw [revertPools] at h
  split at h
  · obtain ⟨gas, hgas, h⟩ := bind_eq_ok.mp h
    cases h
    exact conservedGasAdd_eq_ok hgas
  · cases h
    rfl

theorem leave_regular (f : Frame) (status : FrameStatus) (s : MachineState) :
    (leave ctx f status s).regular ≤ s.regular := by
  cases status with
  | running | halted => exact Nat.le_refl _
  | exceptional kind => exact exceptionalPools_regular _ _

theorem Executed.regular {f : Frame} {least : Nat} {s s' : MachineState} {status : FrameStatus}
    (h : Executed least ctx f s status s') :
    s'.regular ≤ s.regular ∧ (status = .running → s'.regular + least ≤ s.regular) := by
  cases h with
  | goesOn hmoves hspent => exact ⟨hmoves.regular, fun _ => hspent⟩
  | fails kind hmoves => exact ⟨hmoves.regular, fun hrunning => by cases hrunning⟩
  | ends kind hkind hmoves => exact ⟨hmoves.regular, fun hrunning => by cases hrunning⟩
  | @reverts s₁ pools buffer output hmoves hpools =>
    refine ⟨?_, fun hrunning => by cases hrunning⟩
    show pools.regular ≤ s.regular
    rw [revertPools_regular hpools]
    exact hmoves.regular

/-- A frame that goes on has spent gas. -/
theorem Stayed.regular {a b : Activation} (h : Stayed ctx a b) :
    b.state.regular ≤ a.state.regular ∧
      (b.status = .running → b.state.regular + 1 ≤ a.state.regular) := by
  cases h with
  | opcode status s' h =>
    obtain ⟨hle, hspent⟩ := h.regular
    have hleave := @leave_regular ctx a.frame status s'
    refine ⟨hleave.trans hle, fun hrunning => ?_⟩
    exact (Nat.add_le_add_right hleave 1).trans (hspent hrunning)
  | answered returndata s' h =>
    have hspent : s'.regular + 1 ≤ a.state.regular := h.spent
    exact ⟨(Nat.le_succ _).trans hspent, fun _ => hspent⟩

/-- The gas of a call is split between the frame and its child. -/
theorem enters_regular {b c : Activation} {k : FrameContinuation} (henter : Enters ctx b k c) :
    k.checkpoint.regular + c.state.regular + 1 ≤ b.state.regular := by
  obtain ⟨-, -, s₁, hentered⟩ := henter.entered
  have hspent : s₁.regular + c.state.regular + 1 ≤ b.state.regular := hentered.spent
  rw [hentered.checkpoint]
  exact hspent

/-- What comes back is what the child has left. -/
theorem Returns.regular {child parent : Frame} {status : FrameStatus} {k : FrameContinuation}
    {s s' : MachineState} {succeeds : Bool}
    (h : Returns ctx child status k s succeeds parent s') :
    s'.regular ≤ k.checkpoint.regular + s.regular := by
  have hback : ∀ settled pools : GasPools, settled.regular ≤ s.regular →
      refundGas k.checkpoint.gas settled.gas = .ok pools.gas →
      returnChildStateGas k.checkpoint.stateGas k.checkpoint.stateSpill settled.stateGas
        settled.stateSpill = .ok (pools.stateGas, pools.stateSpill) →
      pools.regular ≤ k.checkpoint.regular + s.regular := by
    intro settled pools hsettled hgas hstateGas
    have hsum := conservedGasAdd_eq_ok hgas
    have hspill := congrArg Prod.snd (returnChildStateGas_eq_ok hstateGas)
    simp only [GasPools.regular] at hsettled hspill ⊢
    omega
  cases h with
  | kept settled pools base memory refund deployed kernel word hsettled hparent hgas hstateGas =>
    exact hback settled pools hsettled.regular hgas hstateGas
  | undone settled returned pools base memory kernel hsettled hparent hgas hstateGas hwrites
      hcredit =>
    show pools.regular ≤ _
    rw [creditNewAccount_regular hcredit]
    exact hback settled returned hsettled.regular hgas hstateGas

/-! ## The gas of a run -/

/-- The execution gas of the active frame and of all that wait. -/
def Machine.regular (m : Machine) : Nat :=
  m.1.state.regular + (m.2.map fun k => k.checkpoint.regular).sum

/-- The rounds that a machine may still go through. -/
def Machine.rounds (m : Machine) : Nat :=
  3 * Machine.regular m + 2 * m.2.length + if m.1.status = .running then 1 else 0

theorem Machine.regular_cons (a : Activation) (k : FrameContinuation)
    (ks : List FrameContinuation) :
    Machine.regular (a, k :: ks) =
      a.state.regular + (k.checkpoint.regular + (ks.map fun k => k.checkpoint.regular).sum) := by
  rw [Machine.regular, List.map_cons, List.sum_cons]

/-- A step brings no gas, and is one round less. -/
theorem step_rounds {m m' : Machine} (h : (calls ctx).Step m m') :
    Machine.regular m' ≤ Machine.regular m ∧ Machine.rounds m' < Machine.rounds m := by
  cases h with
  | @stays a b ks h =>
    obtain ⟨hrunning, hstayed⟩ := Stays.stayed h
    obtain ⟨hle, hspent⟩ := hstayed.regular
    simp only [Machine.rounds, Machine.regular]
    rw [if_pos hrunning]
    split
    · next hgoes =>
      have hless := hspent hgoes
      omega
    · omega
  | @enters a c k ks h =>
    have hsplit := enters_regular h
    simp only [Machine.rounds, Machine.regular_cons, List.length_cons]
    rw [Machine.regular, if_pos h.entered.1, if_pos h.entered.2.1]
    simp only
    omega
  | @resumes d a k ks h =>
    obtain ⟨hended, -, hreturns⟩ := h.returns
    have hback := hreturns.regular
    simp only [Machine.rounds, Machine.regular_cons, List.length_cons]
    rw [Machine.regular, if_neg hended]
    simp only
    split
    all_goals omega

/-- In every run, what the active frame has of its execution gas, and what
all the frames below it have kept, is together at most what the first frame
was given: no order of calls, failures, refunds of state gas and stipends
makes gas. -/
theorem gas_never_grows {m m' : Machine} (hrun : (calls ctx).Steps m m') :
    Machine.regular m' ≤ Machine.regular m := by
  induction hrun with
  | refl => exact Nat.le_refl _
  | tail _ hstep ih => exact (step_rounds hstep).1.trans ih

/-- The call has cost 142971 of a million. -/
theorem gas_never_grows_paying : ∃ r : Call,
    (calls settledAmsterdam).Steps (paying destroys, []) (r.back, []) ∧
      r.back.state.gas = 857029 ∧ Machine.regular (r.back, []) ≤ 1000000 := by
  have hfound : found (payingCall 14 destroys) (fun r => r.back.state.gas = 857029) = true := by
    decide +kernel
  obtain ⟨r, hrun, henter, hchild, hresume, hfacts⟩ := Call.of_any hfound
  have hback := Nesting.steps_resumed hrun henter hchild hresume
  exact ⟨r, hback, of_decide_eq_true hfacts, gas_never_grows hback⟩

/-! ## The loop -/

variable (ctx) in
/-- The loop has aborted, or has run the first frame to its end. -/
def Completes (m : Machine) (result : Result (Option Activation)) : Prop :=
  (∃ halt, result = .error halt) ∨
    ∃ b, result = .ok (some b) ∧ b.status ≠ .running ∧ (calls ctx).Steps m (b, [])

/-- It ends before its rounds do: `rank` goes down in every step of a machine
that the run may come to. -/
theorem interpretWithin_completes {I : Machine → Prop} {rank : Machine → Nat}
    (hstep : ∀ m m', I m → (calls ctx).Step m m' → I m' ∧ rank m' < rank m) {n : Nat}
    {m : Machine} (hm : I m) (h : rank m < n) : Completes ctx m (interpretWithin ctx n m) := by
  induction n generalizing m with
  | zero => exact absurd h (Nat.not_lt_zero _)
  | succ n ih =>
    rw [interpretWithin]
    cases hround : interpretRound ctx m with
    | error halt => exact .inl ⟨halt, rfl⟩
    | ok r =>
      cases r with
      | none =>
        obtain ⟨hnone, hended⟩ := interpretRound_none hround
        obtain ⟨a, ks⟩ := m
        obtain rfl : ks = [] := hnone
        exact .inr ⟨a, rfl, hended, .refl⟩
      | some m' =>
        have hround' := interpretRound_step hround
        obtain ⟨hm', hless⟩ := hstep m m' hm hround'
        rcases ih hm' (by omega) with hhalt | ⟨b, hresult, hended, hrun⟩
        · exact .inl hhalt
        · exact .inr ⟨b, hresult, hended, hrun.head hround'⟩

/-- The loop runs as the priced context has it, or does not begin. -/
theorem interpret_priced {a : Activation} {P : Context → Result (Option Activation) → Prop}
    (h : ∀ priced, ctx.priced = .ok priced →
      P priced (interpretWithin priced (callTreeSteps a) (a, []))) :
    (∃ halt, ctx.priced = .error halt ∧ interpret ctx a = .error halt) ∨
      ∃ priced, ctx.priced = .ok priced ∧ P priced (interpret ctx a) := by
  rw [interpret]
  cases hpriced : ctx.priced with
  | error halt => exact .inl ⟨halt, rfl, rfl⟩
  | ok priced => exact .inr ⟨priced, rfl, h priced hpriced⟩

/-- The loop aborts or runs the first frame to its end within three rounds
for each unit of execution gas and two more; the rounds it declares suffice
when the state gas covers what has been spilled before.  Without a price of
blobs it does not begin. -/
theorem interpret_ends (a : Activation) :
    (∀ n, 3 * a.state.regular + 2 ≤ n → Completes ctx (a, []) (interpretWithin ctx n (a, []))) ∧
      (a.state.stateSpill ≤ a.state.stateGas →
        (∃ halt, ctx.priced = .error halt ∧ interpret ctx a = .error halt) ∨
          ∃ priced, ctx.priced = .ok priced ∧ Completes priced (a, []) (interpret ctx a)) := by
  have hrounds : Machine.rounds (a, []) ≤ 3 * a.state.regular + 1 := by
    simp only [Machine.rounds, Machine.regular, List.map_nil, List.sum_nil, List.length_nil]
    split
    all_goals omega
  have hstep : ∀ m m', True → (calls ctx).Step m m' → True ∧ Machine.rounds m' < Machine.rounds m :=
    fun _ _ _ h => ⟨trivial, (step_rounds h).2⟩
  refine ⟨fun n hn => interpretWithin_completes hstep trivial (by omega), fun hspill => ?_⟩
  refine interpret_priced fun priced _ => interpretWithin_completes
    (fun _ _ _ h => ⟨trivial, (step_rounds h).2⟩) trivial (hrounds.trans_lt ?_)
  rw [callTreeSteps, GasPools.regular]
  omega

theorem interpret_ends_paying :
    (∃ halt, settledAmsterdam.priced = .error halt ∧
      interpret settledAmsterdam (paying destroys) = .error halt) ∨
    ∃ priced, settledAmsterdam.priced = .ok priced ∧
      Completes priced (paying destroys, []) (interpret settledAmsterdam (paying destroys)) :=
  (interpret_ends (paying destroys)).2 (Nat.le_refl 0)

end

end EvmSail.Vm
