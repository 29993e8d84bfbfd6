/-
# `EvmSail.Vm.Placement` — where the program counter is

Code is scanned for its instructions once, when it is stored, and decoded
again as it runs.  In no run does the interpreter come to a byte that the
scan has stepped over: `fetch` follows the scan, a jump goes to a
destination the scan has found, and a frame that goes on over its child goes
on behind the instruction that made the call (`instructions_only`).

That the code of every frame is one whose analysis is right is part of the
same invariant; it rests on what the kernel keeps of stored code.
-/
import EvmSail.Vm.Rollback

namespace EvmSail.Vm

open Fallible Kernel Kept Relation

section

variable {ctx : Context}

/-! ## The counter in a handler -/

/-- The counter stays where it is, or goes to a jump destination. -/
theorem QuietMove.pc {f : Frame} {s s' : MachineState} {pc : Nat} (h : QuietMove ctx f s s')
    (hbefore : s.pc = pc ∨ s.pc ∈ f.code.jumpdests) : s'.pc = pc ∨ s'.pc ∈ f.code.jumpdests := by
  cases h with
  | draw h =>
    cases h with
    | spend | pop | look | stateCharge | reach => exact hbefore
  | jump pc' h => exact .inr h
  | _ => exact hbefore

theorem FailingMoves.pc {f : Frame} {s s' : MachineState} (h : FailingMoves ctx f s s') :
    s'.pc = s.pc ∨ s'.pc ∈ f.code.jumpdests := by
  induction h with
  | refl => exact .inl rfl
  | tail _ hmove ih =>
    cases hmove with
    | quiet h => exact h.pc ih
    | stateCredit amount pools h => exact ih

theorem Moves.pc {f : Frame} {s s' : MachineState} (h : Moves ctx f s s') :
    s'.pc = s.pc ∨ s'.pc ∈ f.code.jumpdests := by
  induction h with
  | refl => exact .inl rfl
  | tail _ hmove ih =>
    cases hmove with
    | quiet h => exact h.pc ih
    | _ => exact ih

theorem Executed.pc {f : Frame} {least : Nat} {s s' : MachineState} {status : FrameStatus}
    (h : Executed least ctx f s status s') : s'.pc = s.pc ∨ s'.pc ∈ f.code.jumpdests := by
  cases h with
  | goesOn hmoves hspent => exact hmoves.pc
  | fails kind hmoves => exact hmoves.pc
  | ends kind hkind hmoves => exact hmoves.pc
  | reverts pools buffer output hmoves hpools => exact hmoves.failing.pc

theorem Stayed.pc {a b : Activation} (h : Stayed ctx a b) :
    b.state.pc = (a.fetched ctx).pc ∨ b.state.pc ∈ a.frame.code.jumpdests := by
  cases h with
  | opcode status s' h =>
    have hleave : (leave ctx a.frame status s').pc = s'.pc := by
      cases status with
      | running | halted | exceptional => rfl
    show (leave ctx a.frame status s').pc = _ ∨ (leave ctx a.frame status s').pc ∈ _
    rw [hleave]
    exact h.pc
  | answered returndata s' h => exact .inl h.pc

theorem Returns.pc {child parent : Frame} {status : FrameStatus} {k : FrameContinuation}
    {s s' : MachineState} {succeeds : Bool}
    (h : Returns ctx child status k s succeeds parent s') : s'.pc = k.checkpoint.pc := by
  cases h with
  | kept | undone => rfl

/-! ## The invariant -/

variable (ctx) in
/-- The code of a frame has been analysed, and the frame is at one of its
instructions. -/
structure Placed (a : Activation) : Prop where
  coherent : Coherent ctx.kernel a.state.kernel.state
  code : Analyzed ctx.kernel a.frame.code
  pc : AtInstruction ctx.kernel.profile.fork a.frame.code.bytes a.state.pc

/-- So is a frame that waits. -/
structure FrameCheckpoint.Placed (ctx : Context) (c : FrameCheckpoint) : Prop where
  code : Analyzed ctx.kernel c.code
  pc : AtInstruction ctx.kernel.profile.fork c.code.bytes c.pc

theorem Stayed.placed {a b : Activation} (ha : Placed ctx a) (h : Stayed ctx a b) :
    Placed ctx b := by
  have hruns := h.runs
  refine ⟨(hruns.advances ha.coherent).coherent, hruns.code ▸ ha.code, ?_⟩
  rw [hruns.code]
  rcases h.pc with hnext | hjump
  · rw [hnext]
    exact atInstruction_fetch ha.pc
  · exact atInstruction_of_jumpdest ha.code hjump

/-- A frame waits behind the instruction that made the call, its child begins
with its first one. -/
theorem enters_placed {b c : Activation} {k : FrameContinuation} (hb : Placed ctx b)
    (henter : Enters ctx b k c) : Placed ctx c ∧ k.checkpoint.Placed ctx := by
  obtain ⟨-, -, s₁, hentered⟩ := henter.entered
  have hs₁ : Advanced ctx.kernel b.state.kernel s₁.kernel :=
    hentered.prepares.evolves.advances hb.coherent
  refine ⟨⟨enters_coherent henter hb.coherent, hentered.opens.code hs₁.coherent, ?_⟩, ?_⟩
  · obtain ⟨gas, kernel, hstate, -, -⟩ := hentered.begins
    have hzero : c.state.pc = 0 := by rw [hstate]; rfl
    rw [hzero]
    exact atInstruction_zero _ _
  · rw [hentered.checkpoint]
    refine ⟨hb.code, ?_⟩
    show AtInstruction _ b.frame.code.bytes s₁.pc
    rw [hentered.pc]
    exact atInstruction_fetch hb.pc

theorem call_placed {b c d e : Activation} {k : FrameContinuation} (hb : Placed ctx b)
    (henter : Enters ctx b k c) (hchild : (calls ctx).Spans c d) (hresume : Resumes ctx d k e) :
    Placed ctx e := by
  have hruns := call_runs henter (spans_runs hchild) hresume
  obtain ⟨-, -, s₁, hentered⟩ := henter.entered
  obtain ⟨-, -, hreturns⟩ := hresume.returns
  have hwaits := (enters_placed hb henter).2.pc
  rw [← hreturns.frame.2, ← hreturns.pc] at hwaits
  exact ⟨(hruns.advances hb.coherent).coherent, hruns.code ▸ hb.code, hwaits⟩

theorem spans_placed {a b : Activation} (h : (calls ctx).Spans a b) (ha : Placed ctx a) :
    Placed ctx b := by
  induction h with
  | refl a => exact ha
  | stays _ hstays ih => exact (Stays.stayed hstays).2.placed (ih ha)
  | calls _ henter hchild hresume ih => exact call_placed (ih ha) henter hchild hresume

/-- The active frame of a run is placed, and so are all that wait. -/
theorem steps_placed {a₀ a : Activation} {ks : List FrameContinuation} (h₀ : Placed ctx a₀)
    (hrun : (calls ctx).Steps (a₀, []) (a, ks)) :
    Placed ctx a ∧ ∀ k ∈ ks, k.checkpoint.Placed ctx := by
  have hspine := Nesting.steps_iff_spine.mp hrun
  induction hspine with
  | bottom h =>
    refine ⟨spans_placed h h₀, fun k hk => ?_⟩
    cases hk
  | @above ks b c a k hbelow henter h ih =>
    obtain ⟨hb, hwaiting⟩ := ih (Nesting.steps_iff_spine.mpr hbelow)
    obtain ⟨hc, hwaits⟩ := enters_placed hb henter
    refine ⟨spans_placed h hc, fun k' hk => ?_⟩
    rcases List.mem_cons.mp hk with rfl | hk
    · exact hwaits
    · exact hwaiting k' hk

/-! ## Where a step goes -/

variable (ctx) in
/-- What a step makes of the counter. -/
inductive Follows : Machine → Machine → Prop
  /-- It is behind the instruction, -/
  | next {a b : Activation} {ks : List FrameContinuation}
      (hpc : b.state.pc = (a.fetched ctx).pc) : Follows (a, ks) (b, ks)
  /-- or at a destination that the scan of the code has found. -/
  | jumps {a b : Activation} {ks : List FrameContinuation}
      (hpc : b.state.pc ∈
        destinationsFrom (scansDeep ctx.kernel.profile.fork) a.frame.code.bytes 0) :
      Follows (a, ks) (b, ks)
  /-- A caller waits behind its instruction, the child begins with its first. -/
  | enters {a c : Activation} {k : FrameContinuation} {ks : List FrameContinuation}
      (hwaits : k.checkpoint.code = a.frame.code ∧ k.checkpoint.pc = a.state.pc + 1)
      (hpc : c.state.pc = 0) : Follows (a, ks) (c, k :: ks)
  /-- A frame goes on where it has waited. -/
  | resumes {d e : Activation} {k : FrameContinuation} {ks : List FrameContinuation}
      (hcode : e.frame.code = k.checkpoint.code) (hpc : e.state.pc = k.checkpoint.pc) :
      Follows (d, k :: ks) (e, ks)

theorem step_follows {m m' : Machine} (hm : Placed ctx m.1) (h : (calls ctx).Step m m') :
    Follows ctx m m' := by
  cases h with
  | stays hstays =>
    rcases (Stays.stayed hstays).2.pc with hnext | hjump
    · exact .next hnext
    · have hcode : analyzeCode _ _ = .ok _ := hm.code
      rw [analyzeCode_eq] at hcode
      exact .jumps (Except.ok.inj hcode ▸ hjump)
  | enters henter =>
    obtain ⟨-, -, s₁, hentered⟩ := henter.entered
    refine .enters ?_ ?_
    · rw [hentered.checkpoint]
      exact ⟨rfl, hentered.pc.trans henter.next⟩
    · obtain ⟨gas, kernel, hstate, -, -⟩ := hentered.begins
      rw [hstate]
      rfl
  | resumes hresume =>
    obtain ⟨-, -, hreturns⟩ := hresume.returns
    exact .resumes hreturns.frame.2 hreturns.pc

/-- In every run, the active frame and all that wait are at instructions of
their code as the scan has found them, or behind its end, never within the
immediate of one.  The decoder steps as far as the scan does, and a step
goes behind the instruction, to a destination that the scan has found, to
the beginning of a child, or back behind the instruction that made the call. -/
theorem instructions_only {a₀ a : Activation} {ks : List FrameContinuation} (h₀ : Placed ctx a₀)
    (hrun : (calls ctx).Steps (a₀, []) (a, ks)) :
    Placed ctx a ∧ (∀ k ∈ ks, k.checkpoint.Placed ctx) ∧
      (a.state.pc < a.frame.code.bytes.length → (a.fetched ctx).pc =
        a.state.pc + scanStep (scansDeep ctx.kernel.profile.fork) a.frame.code.bytes a.state.pc) ∧
      ∀ m', (calls ctx).Step (a, ks) m' → Follows ctx (a, ks) m' := by
  obtain ⟨ha, hwaiting⟩ := steps_placed h₀ hrun
  exact ⟨ha, hwaiting, fetch_next, fun m' hstep => step_follows ha hstep⟩

theorem placed_paying : Placed settledAmsterdam (paying destroys) := by
  refine ⟨coherent_calleeHost (by decide +kernel), ?_, atInstruction_zero _ _⟩
  show analyzeCode true [0x60, 0x07, 0x60, 0x00, 0x53, 0xf1, 0x60, 0x5b, 0x00] = .ok []
  rw [analyzeCode_eq]
  decide +kernel

/-- The callee jumps behind an immediate that looks like a destination. -/
theorem instructions_only_jumping : ∃ m m' : Machine,
    (calls settledAmsterdam).Steps (paying destroys, []) m ∧ (calls settledAmsterdam).Step m m' ∧
      m.2.length = 1 ∧ m.1.state.pc = 2 ∧ m'.1.state.pc = 5 ∧ Placed settledAmsterdam m.1 ∧
      (∀ k ∈ m.2, k.checkpoint.Placed settledAmsterdam) ∧ Follows settledAmsterdam m m' := by
  have hfound : found (roundsFrom settledAmsterdam (fun _ => true) 5 (paying destroys, []))
      (fun m => decide (m.2.length = 1 ∧ m.1.state.pc = 2) &&
        found (interpretRound settledAmsterdam m) fun m' => m'.1.state.pc = 5) = true := by
    decide +kernel
  obtain ⟨⟨a, ks⟩, hrounds, hfacts⟩ := of_found hfound
  obtain ⟨hjump, hnext⟩ := Bool.and_eq_true_iff.mp hfacts
  obtain ⟨hone, hpc⟩ := of_decide_eq_true hjump
  obtain ⟨m', hround, hlanded⟩ := of_found hnext
  have hrun := Nesting.steps_of_within (roundsFrom_steps hrounds)
  have hstep := interpretRound_step hround
  obtain ⟨ha, hwaiting, -, hfollows⟩ := instructions_only placed_paying hrun
  exact ⟨(a, ks), m', hrun, hstep, hone, hpc, of_decide_eq_true hlanded, ha, hwaiting,
    hfollows m' hstep⟩

/-- The analysis comes to an end and marks exactly the `JUMPDEST` bytes outside
push data, in every fork the same ones, and so does the scan of the
optimised guest.  In every run that starts with the first instruction, what
is fetched below the end of the code is an instruction of the scan. -/
theorem jumpDestinations_exact :
    (∀ (fork : Fork) (code : List Byte), ∃ marks,
      analyzeCode (scansDeep fork) code = .ok marks ∧
        codeDbAnalyzeRegion (scansDeep fork) code = marks ∧
        analyzeCode false code = .ok marks ∧
        ∀ p, p ∈ marks ↔ p < code.length ∧ codeByte code p = 0x5b ∧ ¬ InsidePush code p) ∧
    ∀ (ctx : Context) (a₀ a : Activation) (ks : List FrameContinuation),
      Coherent ctx.kernel a₀.state.kernel.state → Analyzed ctx.kernel a₀.frame.code →
      a₀.state.pc = 0 → (calls ctx).Steps (a₀, []) (a, ks) →
      a.state.pc < a.frame.code.bytes.length →
      a.state.pc ∈ instructionStarts (scansDeep ctx.kernel.profile.fork) a.frame.code.bytes 0 := by
  refine ⟨fun fork code => ⟨destinationsFrom (scansDeep fork) code 0, analyzeCode_eq _ _,
    codeDbAnalyzeRegion_eq _ _, ?_, fun p => mem_destinationsFrom⟩, ?_⟩
  · rw [analyzeCode_eq]
    exact congrArg Except.ok (destinationsFrom_plain (scansDeep fork) code).symm
  · intro ctx a₀ a ks hcoherent hcode hpc hrun hlt
    have h₀ : Placed ctx a₀ := ⟨hcoherent, hcode, by rw [hpc]; exact atInstruction_zero _ _⟩
    rcases (steps_placed h₀ hrun).1.pc with hmem | hend
    · exact hmem
    · exact absurd hlt (Nat.not_lt.mpr hend)

theorem jumpDestinations_exact_jumping : ∃ m : Machine,
    (calls settledAmsterdam).Steps (paying destroys, []) m ∧ m.1.state.pc = 5 ∧
      m.1.state.pc ∈ instructionStarts true m.1.frame.code.bytes 0 := by
  have hfound : found (roundsFrom settledAmsterdam (fun _ => true) 6 (paying destroys, []))
      (fun m => m.1.state.pc = 5 ∧ m.1.state.pc < m.1.frame.code.bytes.length) = true := by
    decide +kernel
  obtain ⟨⟨a, ks⟩, hrounds, hfacts⟩ := of_found hfound
  obtain ⟨hpc, hlt⟩ := of_decide_eq_true hfacts
  have hrun := Nesting.steps_of_within (roundsFrom_steps hrounds)
  exact ⟨(a, ks), hrun, hpc, jumpDestinations_exact.2 settledAmsterdam (paying destroys) a ks
    placed_paying.coherent placed_paying.code rfl hrun hlt⟩

end

end EvmSail.Vm
