/-
# `EvmSail.Vm.GasMachine` — the interpreter's gas and memory

The gas and memory machine knows of no opcodes: it charges, reaches for
memory, lends gas to children and takes back what they leave, in any order.
`gasMachine` forgets of the interpreter all but that, and then every step of
the interpreter is a run of the gas and memory machine (`step_gas`), so that
the two go along together (`interpreter_refines`).  An opcode is effects of
the active frame on itself; a call and a creation are one effect each, with
what was found at the target as its operand, and so is the return to a
suspended frame.

What is known of every run of that machine is thereby known of the
interpreter.
-/
import EvmSail.Evm.StateGasLedger
import EvmSail.Vm.Discipline

namespace EvmSail.Vm

open Fallible Kernel Relation

/-! ## The abstraction -/

def gasAwaits : FrameContinuation → Awaits
  | .resumeCall _ off len _ => .call off len
  | .resumeCreate _ _ _ => .create

def gasCheckpoint (k : FrameContinuation) : EvmSail.FrameCheckpoint :=
  { pools := k.checkpoint.toGasPools
    memoryHeight := k.checkpoint.memoryHeight
    stateGasReservoir := k.checkpoint.message.stateGasReservoir
    depth := k.checkpoint.message.depth
    awaits := gasAwaits k
    newAccountCharged := k.newAccountCharged }

/-- What the gas and memory machine has of the interpreter. -/
def gasMachine (m : Machine) : EvmSail.Machine :=
  { frame := gasFrame m.1.frame m.1.status m.1.state
    suspended := m.2.map gasCheckpoint }

/-- What a frame does to its own gas and memory up to its end, and what leads
from one frame to another. -/
inductive EffectKind where
  | inner
  | call
  | create
  | resume

def effectKind : Effect → EffectKind
  | .call _ => .call
  | .create _ => .create
  | .resume _ => .resume
  | _ => .inner

def instructionKind : Ast → EffectKind
  | .opcodeCreate | .create2 => .create
  | .call | .callcode | .delegatecall | .staticcall => .call
  | _ => .inner

section

variable (ctx : Context)

/-- Effects of the active frame on itself lead from `m` to `m'`. -/
def GasRuns (m m' : EvmSail.Machine) : Prop :=
  ∃ es, (∀ e ∈ es, effectKind e = .inner) ∧
    run ctx.amsterdam ctx.memoryCapacity m es = .ok m'

/-- One effect of the kind does. -/
def GasStep (kind : EffectKind) (m m' : EvmSail.Machine) : Prop :=
  ∃ e, effectKind e = kind ∧ step ctx.amsterdam ctx.memoryCapacity m e = .ok m'

theorem run_append {amsterdam : Bool} {capacity : Nat} {m : EvmSail.Machine}
    (es es' : List Effect) : run amsterdam capacity m (es ++ es') =
      run amsterdam capacity m es >>= fun m' => run amsterdam capacity m' es' := by
  induction es generalizing m with
  | nil => rfl
  | cons e es ih =>
    rw [List.cons_append, run, run]
    cases step amsterdam capacity m e with
    | error halt => rfl
    | ok m₁ => exact ih

instance : IsPreorder EvmSail.Machine (GasRuns ctx) where
  refl _ := ⟨[], fun e he => (by cases he), rfl⟩
  trans _ _ _ h₁ h₂ := by
    obtain ⟨es, hinner, hes⟩ := h₁
    obtain ⟨es', hinner', hes'⟩ := h₂
    refine ⟨es ++ es', fun e he => ?_, by rw [run_append, hes, ok_bind, hes']⟩
    rcases List.mem_append.mp he with he | he
    · exact hinner e he
    · exact hinner' e he

/-- The memory of the frame is in the arena. -/
def Fits (f : Frame) (s : MachineState) : Prop :=
  f.memoryBase + s.memoryHeight ≤ ctx.memoryCapacity

/-- While the frame is running, the state comes to be what it is by effects
of the gas and memory machine. -/
def GasMoves (f : Frame) (s s' : MachineState) : Prop :=
  Fits ctx f s → Fits ctx f s' ∧ ∀ suspended,
    GasRuns ctx ⟨gasFrame f .running s, suspended⟩ ⟨gasFrame f .running s', suspended⟩

instance (f : Frame) : IsPreorder MachineState (GasMoves ctx f) where
  refl _ hfits := ⟨hfits, fun _ => Std.Refl.refl _⟩
  trans _ _ _ h₁ h₂ hfits :=
    ⟨(h₂ (h₁ hfits).1).1, fun suspended =>
      IsTrans.trans _ _ _ ((h₁ hfits).2 suspended) ((h₂ (h₁ hfits).1).2 suspended)⟩

variable {ctx}

theorem run_effect {m m' : EvmSail.Machine} {e : Effect}
    (h : step ctx.amsterdam ctx.memoryCapacity m e = .ok m') :
    run ctx.amsterdam ctx.memoryCapacity m [e] = .ok m' := by
  rw [run, h]
  rfl

theorem gasRuns_effect {m m' : EvmSail.Machine} (e : Effect) (hinner : effectKind e = .inner)
    (h : step ctx.amsterdam ctx.memoryCapacity m e = .ok m') : GasRuns ctx m m' :=
  ⟨[e], fun e' he => by rwa [List.mem_singleton.mp he], run_effect h⟩

/-- An effect of the running frame. -/
theorem gasMoves_effect {f : Frame} {s s' : MachineState} (e : Effect)
    (hinner : effectKind e = .inner) (hfits : Fits ctx f s → Fits ctx f s')
    (h : Fits ctx f s → ∀ suspended, step ctx.amsterdam ctx.memoryCapacity
      ⟨gasFrame f .running s, suspended⟩ e = .ok ⟨gasFrame f .running s', suspended⟩) :
    GasMoves ctx f s s' :=
  fun hs => ⟨hfits hs, fun suspended => gasRuns_effect e hinner (h hs suspended)⟩

/-- What the gas and memory machine does not see. -/
theorem gasMoves_unseen {f : Frame} {s s' : MachineState}
    (hpools : s'.toGasPools = s.toGasPools) (hheight : s'.memoryHeight = s.memoryHeight) :
    GasMoves ctx f s s' := by
  intro hfits
  have hframe : gasFrame f .running s' = gasFrame f .running s := by
    rw [gasFrame, gasFrame, hpools, hheight]
  refine ⟨?_, fun suspended => ?_⟩
  · rw [Fits, hheight]
    exact hfits
  · rw [hframe]
    exact Std.Refl.refl _

/-! ## Memory that has been reached -/

theorem memoryAccess_end {o : Operand} {access : MemoryAccess}
    (h : memoryAccess o = .ok access) : access.off + access.len = access.requestedHeight := by
  rw [memoryAccess] at h
  split at h
  · cases h
    rfl
  · split at h
    · split at h
      · cases h
        rfl
      · cases h
    · cases h

theorem touchRange_ok {capacity base off len : Nat} (hin : base + (off + len) ≤ capacity)
    (hregion : off ≤ memoryRegionBound - base) : touchRange capacity base off len = .ok () := by
  rw [touchRange]
  split
  · rfl
  · rw [memoryAbsolute, if_pos hregion, ok_bind, absoluteRegion]
    exact if_neg (by omega)

theorem expandMemory_ok {capacity base height required grown : Nat}
    (hfits : base + height ≤ capacity)
    (h : expandMemory capacity base height required = .ok grown) :
    required ≤ memoryRegionBound - base ∧ required ≤ grown ∧ base + grown ≤ capacity := by
  rw [expandMemory] at h
  split at h
  · next hregion =>
    refine ⟨hregion, ?_⟩
    split at h
    · obtain ⟨pointer, hexpand, h⟩ := bind_eq_ok.mp h
      cases h
      rw [evmMemoryExpand] at hexpand
      split at hexpand
      · cases hexpand
      · exact ⟨Nat.le_refl _, by omega⟩
    · cases h
      exact ⟨by omega, hfits⟩
  · cases h

/-- Memory that has been established can be read and written. -/
theorem materialize_ok {capacity base height grown : Nat} {a b : Operand}
    {first second : MemoryAccess} (hfits : base + height ≤ capacity)
    (h : materialize capacity base height a b = .ok (grown, first, second)) :
    base + grown ≤ capacity ∧ touchRange capacity base first.off first.len = .ok () ∧
      touchRange capacity base second.off second.len = .ok () := by
  obtain ⟨first', hfirst, h₁⟩ := bind_eq_ok.mp h
  obtain ⟨second', hsecond, h₂⟩ := bind_eq_ok.mp h₁
  obtain ⟨height', hexpand, h₃⟩ := bind_eq_ok.mp h₂
  cases h₃
  have hfirstEnd := memoryAccess_end hfirst
  have hsecondEnd := memoryAccess_end hsecond
  obtain ⟨hregion, hgrown, hcapacity⟩ := expandMemory_ok hfits hexpand
  have hmax : first.requestedHeight ≤ (if first.requestedHeight < second.requestedHeight then
      second.requestedHeight else first.requestedHeight) ∧
      second.requestedHeight ≤ (if first.requestedHeight < second.requestedHeight then
      second.requestedHeight else first.requestedHeight) := by
    split <;> omega
  exact ⟨hcapacity, touchRange_ok (by omega) (by omega), touchRange_ok (by omega) (by omega)⟩

/-! ## Moves -/

theorem gasFrame_running (f : Frame) (s : MachineState)
    (suspended : List EvmSail.FrameCheckpoint) :
    (⟨gasFrame f .running s, suspended⟩ : EvmSail.Machine).frame.status = .running := rfl

theorem step_charge {f : Frame} {s : MachineState} {cost : Nat} (h : cost ≤ s.gas)
    (suspended : List EvmSail.FrameCheckpoint) :
    step ctx.amsterdam ctx.memoryCapacity ⟨gasFrame f .running s, suspended⟩ (.charge cost) =
      .ok ⟨gasFrame f .running { s with gas := gasSub s.gas cost }, suspended⟩ := by
  have hspend : spend (gasFrame f .running s).pools cost =
      some { s.toGasPools with gas := gasSub s.gas cost } := if_neg (Nat.not_lt.mpr h)
  rw [step, if_pos (gasFrame_running f s suspended)]
  simp only [chargeGas, hspend]
  rfl

theorem gasMoves_stateCharge {f : Frame} {s : MachineState} {amount : Nat} {pools : GasPools}
    (h : spendState s.toGasPools amount = .ok (some pools)) :
    GasMoves ctx f s { s with toGasPools := pools } := by
  refine gasMoves_effect (.stateCharge amount) rfl id fun _ suspended => ?_
  have hspend : spendState (gasFrame f .running s).pools amount = .ok (some pools) := h
  rw [step, if_pos (gasFrame_running f s suspended)]
  simp only [EvmSail.chargeState, hspend, ok_bind]
  rfl

theorem gasMoves_stateCredit {f : Frame} {s : MachineState} {amount : Nat} {pools : GasPools}
    (h : creditStateGasRefund s.toGasPools amount = .ok pools) :
    GasMoves ctx f s { s with toGasPools := pools } := by
  refine gasMoves_effect (.stateCredit amount) rfl id fun _ suspended => ?_
  have hcredit : creditStateGasRefund (gasFrame f .running s).pools amount = .ok pools := h
  rw [step, if_pos (gasFrame_running f s suspended)]
  simp only [EvmSail.creditState, hcredit, ok_bind]
  rfl

/-- A store to a slot is three effects at most. -/
theorem gasMoves_sstorePools {f : Frame} {s : MachineState} {costs : SstoreCosts}
    {pools : GasPools} (h : sstorePools s.toGasPools costs = .ok (some pools)) :
    GasMoves ctx f s { s with toGasPools := pools } := by
  obtain ⟨credited, hcredit, h⟩ := bind_eq_ok.mp h
  have hfirst : GasMoves ctx f s { s with toGasPools := credited } := by
    split at hcredit
    · exact gasMoves_stateCredit hcredit
    · cases hcredit
      exact Std.Refl.refl s
  cases hspend : spend credited costs.execution with
  | none =>
    rw [hspend] at h
    cases h
  | some spent =>
    rw [hspend] at h
    have hle : costs.execution ≤ credited.gas := by
      have hspent := (spend_eq_some hspend).1
      by_contra hless
      rw [spend, if_pos (Nat.lt_of_not_le hless)] at hspend
      cases hspend
    have hspent : spent = { credited with gas := gasSub credited.gas costs.execution } := by
      rw [spend, if_neg (Nat.not_lt.mpr hle)] at hspend
      exact (Option.some.inj hspend).symm
    subst hspent
    have hsecond : GasMoves ctx f { s with toGasPools := credited }
        { s with toGasPools := { credited with gas := gasSub credited.gas costs.execution } } :=
      gasMoves_effect (.charge costs.execution) rfl id
        fun _ => step_charge (s := { s with toGasPools := credited }) hle
    exact IsTrans.trans _ _ _ hfirst (IsTrans.trans _ _ _ hsecond (gasMoves_stateCharge h))

theorem Draw.gas {f : Frame} {s s' : MachineState} (h : Draw ctx f s s') :
    GasMoves ctx f s s' := by
  cases h with
  | spend cost h => exact gasMoves_effect (.charge cost) rfl id fun _ => step_charge h
  | pop h => exact gasMoves_unseen rfl rfl
  | look kernel h => exact gasMoves_unseen rfl rfl
  | stateCharge amount pools h => exact gasMoves_stateCharge (spendState_some h)
  | reach a b pools height first second hpaid hreach =>
    refine gasMoves_effect (.memory a b) rfl (fun hfits => (materialize_ok hfits hreach).1)
      fun hfits suspended => ?_
    obtain ⟨-, hfirst, hsecond⟩ := materialize_ok hfits hreach
    have hpaid' : spendExpansion (gasFrame f .running s).pools
        (gasFrame f .running s).memoryHeight (operandsHeight a b) = some pools := hpaid
    have hreach' : materialize ctx.memoryCapacity (gasFrame f .running s).memoryBase
        (gasFrame f .running s).memoryHeight a b = .ok (height, first, second) := hreach
    have hfirst' : touchRange ctx.memoryCapacity (gasFrame f .running s).memoryBase first.off
        first.len = .ok () := hfirst
    have hsecond' : touchRange ctx.memoryCapacity (gasFrame f .running s).memoryBase second.off
        second.len = .ok () := hsecond
    rw [step, if_pos (gasFrame_running f s suspended)]
    simp only [accessMemory, hpaid', hreach', hfirst', hsecond', ok_bind]
    rfl

theorem QuietMove.gas {f : Frame} {s s' : MachineState} (h : QuietMove ctx f s s') :
    GasMoves ctx f s s' := by
  cases h with
  | draw h => exact h.gas
  | push | set | jump | store => exact gasMoves_unseen rfl rfl

theorem FailingMoves.gas {f : Frame} {s s' : MachineState} (h : FailingMoves ctx f s s') :
    GasMoves ctx f s s' :=
  reflTransGen_inside h fun _ _ hmove => by
    cases hmove with
    | quiet h => exact h.gas
    | stateCredit amount pools h => exact gasMoves_stateCredit h

theorem Move.gas {f : Frame} {s s' : MachineState} (h : Move ctx f s s') :
    GasMoves ctx f s s' := by
  cases h with
  | quiet h => exact h.gas
  | sstore slot v entry cold pools refund kernel hstatic hentry hpaid hstored =>
    have hpays : GasMoves ctx f s { s with toGasPools := pools } :=
      gasMoves_sstorePools hpaid.charges
    exact IsTrans.trans _ _ _ hpays (gasMoves_unseen rfl rfl)
  | write | refund | freeze => exact gasMoves_unseen rfl rfl

theorem Moves.gas {f : Frame} {s s' : MachineState} (h : Moves ctx f s s') :
    GasMoves ctx f s s' :=
  reflTransGen_inside h fun _ _ => Move.gas

/-! ## The ends of a frame -/

theorem accessMemory_noOperand {amsterdam : Bool} {capacity : Nat} (g : EvmSail.Frame) :
    accessMemory amsterdam capacity g noOperand noOperand = .ok g := by
  have hpaid : spendExpansion g.pools g.memoryHeight (operandsHeight noOperand noOperand) =
      some g.pools := by
    have hcharge : memoryExpansionGasCost g.memoryHeight
        (operandsHeight noOperand noOperand) g.pools.gas = ⟨true, 0⟩ := by
      show memoryExpansionGasCost g.memoryHeight 0 g.pools.gas = _
      rw [memoryExpansionGasCost, if_pos (Nat.zero_le _)]
      exact if_pos (Nat.zero_le _)
    simp only [spendExpansion, hcharge, gasSub_eq, Nat.sub_zero, if_true]
  have hreach : materialize capacity g.memoryBase g.memoryHeight noOperand noOperand =
      .ok (g.memoryHeight, ⟨0, 0, 0⟩, ⟨0, 0, 0⟩) := by
    have hexpand : expandMemory capacity g.memoryBase g.memoryHeight 0 = .ok g.memoryHeight := by
      rw [expandMemory, if_pos (Nat.zero_le _), if_neg (Nat.not_lt_zero _)]
    exact bind_eq_ok.mpr ⟨_, rfl, bind_eq_ok.mpr ⟨_, rfl, bind_eq_ok.mpr ⟨_, hexpand, rfl⟩⟩⟩
  have htouch : touchRange capacity g.memoryBase 0 0 = .ok () := rfl
  simp only [accessMemory, hpaid, hreach, htouch, ok_bind]

/-- The frame comes to its end by effects of the gas and memory machine. -/
theorem Executed.gas {f : Frame} {least : Nat} {s s' : MachineState} {status : FrameStatus}
    (h : Executed least ctx f s status s') (hfits : Fits ctx f s) :
    Fits ctx f (leave ctx f status s') ∧ ∀ suspended,
      GasRuns ctx ⟨gasFrame f .running s, suspended⟩
        ⟨gasFrame f status (leave ctx f status s'), suspended⟩ := by
  cases h with
  | goesOn hmoves hspent => exact hmoves.gas hfits
  | fails kind hmoves =>
    obtain ⟨hfits', hruns⟩ := hmoves.gas hfits
    refine ⟨hfits', fun suspended => IsTrans.trans _ _ _ (hruns suspended) ?_⟩
    refine gasRuns_effect .fail rfl ?_
    rw [step, if_pos (gasFrame_running f s' suspended)]
    simp only [leave, gasFrame, exceptionalPools, exceptionalState, gasStatus]
    cases ctx.amsterdam with
    | false | true => rfl
  | ends kind hkind hmoves =>
    obtain ⟨hfits', hruns⟩ := hmoves.gas hfits
    refine ⟨hfits', fun suspended => IsTrans.trans _ _ _ (hruns suspended) ?_⟩
    refine gasRuns_effect (.stop noOperand) rfl ?_
    rw [step, if_pos (gasFrame_running f s' suspended)]
    simp only [EvmSail.executeReturn, accessMemory_noOperand, ok_bind]
    cases kind with
    | haltRevert output => exact absurd rfl (hkind output)
    | haltStop | haltReturn | haltSelfDestruct => rfl
  | @reverts s₁ pools buffer output hmoves hpools =>
    obtain ⟨hfits', hruns⟩ := hmoves.moves.gas hfits
    refine ⟨hfits', fun suspended => IsTrans.trans _ _ _ (hruns suspended) ?_⟩
    refine gasRuns_effect (.revert noOperand) rfl ?_
    rw [step, if_pos (gasFrame_running f s₁ suspended)]
    simp only [EvmSail.executeRevert, accessMemory_noOperand, ok_bind]
    rw [revertPools] at hpools
    cases hamsterdam : ctx.amsterdam with
    | false =>
      rw [hamsterdam] at hpools
      cases hpools
      rfl
    | true =>
      rw [hamsterdam] at hpools
      obtain ⟨gas, hgas, hpools⟩ := bind_eq_ok.mp hpools
      cases hpools
      have hgas' : conservedGasAdd (gasFrame f .running s₁).pools.gas
          (gasFrame f .running s₁).pools.stateSpill = .ok gas := hgas
      simp only [hgas', ok_bind]
      rfl

/-! ## Calls -/

/-- A call that has paid, established its memory and read its arguments. -/
structure CallReady (ctx : Context) (g : EvmSail.Frame) (c : EvmSail.CallOperands) (q : GasPools)
    (height childGas : Nat) (ret : MemoryAccess) : Prop where
  charges : ∃ p, callCharges ctx.amsterdam g c = .ok (some p) ∧
    spend p (callGasCapWord p.gas c.gasRequest) = some q ∧
    conservedGasAdd (callGasCapWord p.gas c.gasRequest)
      (if c.valueNonzero then callStipend else 0) = .ok childGas
  reached : ∃ args,
    materialize ctx.memoryCapacity g.memoryBase g.memoryHeight c.args c.ret =
      .ok (height, args, ret) ∧
    touchRange ctx.memoryCapacity g.memoryBase args.off args.len = .ok ()

/-- What is found at the target does not bear on the charges. -/
theorem CallReady.found {g : EvmSail.Frame} {c : EvmSail.CallOperands} {q : GasPools}
    {height childGas : Nat} {ret : MemoryAccess} (h : CallReady ctx g c q height childGas ret)
    (insufficient : Bool) (callee : Callee) :
    CallReady ctx g { c with insufficientBalance := insufficient, callee := callee } q height
      childGas ret :=
  ⟨h.charges, h.reached⟩

section

variable {f : Frame} {s : MachineState} {suspended : List EvmSail.FrameCheckpoint}
  {c : EvmSail.CallOperands} {q : GasPools} {height childGas : Nat} {ret : MemoryAccess}

/-- It is refused. -/
theorem CallReady.refused (h : CallReady ctx (gasFrame f .running s) c q height childGas ret)
    (hrefused : c.insufficientBalance = true) {gas : Nat} {pools : GasPools}
    (hgas : refundGas q.gas childGas = .ok gas)
    (hcredit : creditNewAccount { q with gas := gas } (callChargesNewAccount ctx.amsterdam c) =
      .ok pools) :
    GasStep ctx .call ⟨gasFrame f .running s, suspended⟩
      ⟨{ gasFrame f .running s with pools := pools, memoryHeight := height }, suspended⟩ := by
  obtain ⟨p, hcharges, hpools, hchild⟩ := h.charges
  obtain ⟨args, hreach, -⟩ := h.reached
  refine ⟨.call c, rfl, ?_⟩
  rw [step, if_pos (gasFrame_running f s suspended)]
  simp only [EvmSail.runCall, hcharges, hpools, hreach, hchild, ok_bind]
  rw [if_pos (.inl hrefused)]
  simp only [hgas, hcredit, ok_bind]

theorem not_refused (hbalance : c.insufficientBalance = false)
    (hdepth : f.message.depth ≠ callDepthLimit) :
    ¬ (c.insufficientBalance = true ∨ (gasFrame f .running s).depth = callDepthLimit) := by
  rintro (hrefused | hlimit)
  · rw [hbalance] at hrefused
    cases hrefused
  · exact hdepth hlimit

/-- Its precompile fails. -/
theorem CallReady.precompileFailed
    (h : CallReady ctx (gasFrame f .running s) c q height childGas ret)
    (hcallee : c.callee = .precompile 0 false 0) (hbalance : c.insufficientBalance = false)
    (hdepth : f.message.depth ≠ callDepthLimit) {pools : GasPools}
    (hcredit : creditNewAccount q (callChargesNewAccount ctx.amsterdam c) = .ok pools) :
    GasStep ctx .call ⟨gasFrame f .running s, suspended⟩
      ⟨{ gasFrame f .running s with pools := pools, memoryHeight := height }, suspended⟩ := by
  obtain ⟨p, hcharges, hpools, hchild⟩ := h.charges
  obtain ⟨args, hreach, hargs⟩ := h.reached
  refine ⟨.call c, rfl, ?_⟩
  rw [step, if_pos (gasFrame_running f s suspended)]
  simp only [EvmSail.runCall, hcharges, hpools, hreach, hchild, ok_bind]
  rw [if_neg (not_refused hbalance hdepth)]
  simp only [hcallee, hargs, ok_bind]
  rw [if_neg (by rintro ⟨-, hsucceeds⟩; cases hsucceeds)]
  simp only [hcredit, ok_bind]

/-- Its precompile has run. -/
theorem CallReady.precompileRan
    (h : CallReady ctx (gasFrame f .running s) c q height childGas ret) {cost outputLen : Nat}
    (hcallee : c.callee = .precompile cost true outputLen)
    (hbalance : c.insufficientBalance = false) (hdepth : f.message.depth ≠ callDepthLimit)
    (hcost : cost ≤ childGas) {gas destination : Nat}
    (hgas : refundGas q.gas (gasSub childGas cost) = .ok gas)
    (hdestination : memoryAbsolute f.memoryBase ret.off = .ok destination)
    (hcopy : EvmSail.returndataCopyPrefix ctx.memoryCapacity outputLen destination ret.len =
      .ok ()) :
    GasStep ctx .call ⟨gasFrame f .running s, suspended⟩
      ⟨{ gasFrame f .running s with pools := { q with gas := gas }, memoryHeight := height },
        suspended⟩ := by
  obtain ⟨p, hcharges, hpools, hchild⟩ := h.charges
  obtain ⟨args, hreach, hargs⟩ := h.reached
  refine ⟨.call c, rfl, ?_⟩
  have hdestination' : memoryAbsolute (gasFrame f .running s).memoryBase ret.off =
      .ok destination := hdestination
  rw [step, if_pos (gasFrame_running f s suspended)]
  simp only [EvmSail.runCall, hcharges, hpools, hreach, hchild, ok_bind]
  rw [if_neg (not_refused hbalance hdepth)]
  simp only [hcallee, hargs, ok_bind]
  rw [if_pos ⟨hcost, trivial⟩]
  simp only [hdestination', hcopy, hgas, ok_bind]

/-- Its child begins. -/
theorem CallReady.entered
    (h : CallReady ctx (gasFrame f .running s) c q height childGas ret)
    (hcallee : c.callee = .code) (hbalance : c.insufficientBalance = false)
    (hdepth : f.message.depth ≠ callDepthLimit) {childMemoryBase : Nat}
    (hbase : memoryAbsolute f.memoryBase height = .ok childMemoryBase) :
    GasStep ctx .call ⟨gasFrame f .running s, suspended⟩
      { frame :=
          { pools := { gas := childGas, stateGas := q.stateGas, stateSpill := 0 }
            status := .running
            memoryBase := childMemoryBase
            memoryHeight := 0
            stateGasReservoir := q.stateGas
            depth := f.message.depth + 1 }
        suspended :=
          { pools := { q with stateGas := 0 }
            memoryHeight := height
            stateGasReservoir := f.message.stateGasReservoir
            depth := f.message.depth
            awaits := .call ret.off ret.len
            newAccountCharged := callChargesNewAccount ctx.amsterdam c } :: suspended } := by
  obtain ⟨p, hcharges, hpools, hchild⟩ := h.charges
  obtain ⟨args, hreach, hargs⟩ := h.reached
  refine ⟨.call c, rfl, ?_⟩
  have hbase' : memoryAbsolute (gasFrame f .running s).memoryBase height = .ok childMemoryBase :=
    hbase
  rw [step, if_pos (gasFrame_running f s suspended)]
  simp only [EvmSail.runCall, hcharges, hpools, hreach, hchild, ok_bind]
  rw [if_neg (not_refused hbalance hdepth)]
  simp only [hcallee, hargs, ok_bind, enterFrame, hbase']
  rfl

/-- The call that has paid, as the gas and memory machine has it. -/
theorem CallPaid.ready {kind : CallKind} {o : CallOperands} {base : Nat} {kernel : Host}
    {args : MemoryAccess} (h : CallPaid ctx f kind s o c base q kernel) (hfits : Fits ctx f s)
    (hreached : materialize ctx.memoryCapacity f.memoryBase s.memoryHeight o.args o.ret =
      .ok (height, args, ret))
    (hchild : conservedGasAdd base (if o.value ≠ 0 then callStipend else 0) = .ok childGas) :
    CallReady ctx (gasFrame f .running s) c q height childGas ret ∧
      Fits ctx f { s with memoryHeight := height } := by
  obtain ⟨hgrown, hargs, -⟩ := materialize_ok hfits hreached
  obtain ⟨p, hcharges, rfl, hpools⟩ := h.charges
  obtain ⟨warm, delegate, targetEmpty, rfl⟩ := h.request
  refine ⟨⟨⟨p, hcharges, hpools, ?_⟩, ⟨args, hreached, hargs⟩⟩, hgrown⟩
  simp only [callRequest, decide_eq_true_eq]
  exact hchild

end

/-- A call that has no child is one effect. -/
theorem runCall_gasStays {f : Frame} {kind : CallKind} {s s' : MachineState}
    {returndata : OutputSlice} (h : runCall ctx f kind s = .ok (.stays returndata, s'))
    (hfits : Fits ctx f s) : Fits ctx f s' ∧ ∀ suspended,
      GasStep ctx .call ⟨gasFrame f .running s, suspended⟩
        ⟨gasFrame f .running s', suspended⟩ := by
  rcases runCall_cases h with ⟨kind, hfailed, -⟩ | ⟨o, c, delegate, base, pools, kernel, hpaid, h⟩
  · cases hfailed
  obtain ⟨height, args, ret, childGas, kernel', -, hreached, hchild, hends⟩ := enterCall_cases h
  obtain ⟨hready, hgrown⟩ := hpaid.ready hfits hreached hchild
  cases hends with
  | refused gas pools hgas hcredit =>
    exact ⟨hgrown, fun suspended => (hready.found true .code).refused rfl hgas hcredit⟩
  | precompileFailed pools hdepth hcredit =>
    exact ⟨hgrown, fun suspended =>
      (hready.found false (.precompile 0 false 0)).precompileFailed rfl rfl hdepth hcredit⟩
  | precompileRan cost gas destination output bytes kernel hdepth hcost hgas hcovers htransfers
      hdestination hcopy hbytes =>
    exact ⟨hgrown, fun suspended =>
      (hready.found false (.precompile cost true output.length)).precompileRan rfl rfl hdepth
        hcost hgas hdestination hcopy⟩

/-- The child begins in the gas and memory machine too. -/
theorem runCall_gasEnters {f child : Frame} {kind : CallKind} {s s' : MachineState}
    {k : FrameContinuation} (h : runCall ctx f kind s = .ok (.enters k child, s'))
    (hfits : Fits ctx f s) : Fits ctx child s' ∧ ∀ suspended,
      GasStep ctx .call ⟨gasFrame f .running s, suspended⟩
        ⟨gasFrame child .running s', gasCheckpoint k :: suspended⟩ := by
  rcases runCall_cases h with ⟨kind, hfailed, -⟩ | ⟨o, c, delegate, base, pools, kernel, hpaid, h⟩
  · cases hfailed
  obtain ⟨height, args, ret, childGas, kernel', -, hreached, hchild, hends⟩ := enterCall_cases h
  obtain ⟨hready, hgrown⟩ := hpaid.ready hfits hreached hchild
  cases hends with
  | entered childMemoryBase bytes code kernel'' hdepth hbase hbytes hcode hcovers htransfers =>
    refine ⟨?_, fun suspended => (hready.found false .code).entered rfl rfl hdepth hbase⟩
    rw [Fits, memoryAbsolute_base hbase]
    exact hgrown

/-! ## Creations -/

/-- A creation that has paid for its initcode and read it. -/
structure CreateReady (ctx : Context) (g : EvmSail.Frame) (c : EvmSail.CreateOperands)
    (q : GasPools) (height : Nat) : Prop where
  charges : ∃ p, spendExpansion g.pools g.memoryHeight (operandsHeight c.initcode noOperand) =
    some p ∧ createCharges ctx.amsterdam p c = some q
  reached : ∃ initcode second,
    materialize ctx.memoryCapacity g.memoryBase g.memoryHeight c.initcode noOperand =
      .ok (height, initcode, second) ∧
    touchRange ctx.memoryCapacity g.memoryBase initcode.off initcode.len = .ok ()

theorem CreateReady.found {g : EvmSail.Frame} {c : EvmSail.CreateOperands} {q : GasPools}
    {height : Nat} (h : CreateReady ctx g c q height) (refused targetEmpty occupied : Bool) :
    CreateReady ctx g
      { c with refused := refused, targetEmpty := targetEmpty, occupied := occupied } q height :=
  ⟨h.charges, h.reached⟩

section

variable {f : Frame} {s : MachineState} {suspended : List EvmSail.FrameCheckpoint}
  {c : EvmSail.CreateOperands} {q : GasPools} {height : Nat}

/-- It is refused. -/
theorem CreateReady.refused (h : CreateReady ctx (gasFrame f .running s) c q height)
    (hrefused : c.refused = true) {gas : Nat}
    (hgas : if ctx.amsterdam then gas = q.gas
      else refundGas (lendCreateGas q).1.gas (lendCreateGas q).2 = .ok gas) :
    GasStep ctx .create ⟨gasFrame f .running s, suspended⟩
      ⟨{ gasFrame f .running s with pools := { q with gas := gas }, memoryHeight := height },
        suspended⟩ := by
  obtain ⟨p, hexpansion, hcharges⟩ := h.charges
  obtain ⟨initcode, second, hreach, hinitcode⟩ := h.reached
  refine ⟨.create c, rfl, ?_⟩
  rw [step, if_pos (gasFrame_running f s suspended)]
  simp only [EvmSail.runCreate, hexpansion, hreach, hcharges, hinitcode, ok_bind]
  rw [if_pos (.inl hrefused)]
  cases hamsterdam : ctx.amsterdam with
  | true =>
    rw [hamsterdam] at hgas
    obtain rfl : gas = q.gas := hgas
    rfl
  | false =>
    rw [hamsterdam] at hgas
    have hgas' : refundGas (lendCreateGas q).1.gas (lendCreateGas q).2 = .ok gas := hgas
    rw [if_neg Bool.false_ne_true, hgas']
    rfl

theorem create_not_refused (hrefused : c.refused = false)
    (hdepth : f.message.depth ≠ callDepthLimit) :
    ¬ (c.refused = true ∨ (gasFrame f .running s).depth = callDepthLimit) := by
  rintro (htrue | hlimit)
  · rw [hrefused] at htrue
    cases htrue
  · exact hdepth hlimit

/-- The new address is occupied. -/
theorem CreateReady.occupied (h : CreateReady ctx (gasFrame f .running s) c q height)
    (hrefused : c.refused = false) (hoccupied : c.occupied = true)
    (hdepth : f.message.depth ≠ callDepthLimit) {p pools : GasPools}
    (hcharge : EvmSail.chargeNewAccount q (ctx.amsterdam && c.targetEmpty) = .ok (some p))
    (hcredit : creditNewAccount (lendCreateGas p).1 (ctx.amsterdam && c.targetEmpty) =
      .ok pools) :
    GasStep ctx .create ⟨gasFrame f .running s, suspended⟩
      ⟨{ gasFrame f .running s with pools := pools, memoryHeight := height }, suspended⟩ := by
  obtain ⟨p', hexpansion, hcharges⟩ := h.charges
  obtain ⟨initcode, second, hreach, hinitcode⟩ := h.reached
  refine ⟨.create c, rfl, ?_⟩
  rw [step, if_pos (gasFrame_running f s suspended)]
  simp only [EvmSail.runCreate, hexpansion, hreach, hcharges, hinitcode, ok_bind]
  rw [if_neg (create_not_refused hrefused hdepth)]
  simp only [hcharge, ok_bind]
  rw [if_pos hoccupied]
  simp only [hcredit, ok_bind]

/-- Its child begins. -/
theorem CreateReady.entered (h : CreateReady ctx (gasFrame f .running s) c q height)
    (hrefused : c.refused = false) (hoccupied : c.occupied = false)
    (hdepth : f.message.depth ≠ callDepthLimit) {p : GasPools} {childMemoryBase : Nat}
    (hcharge : EvmSail.chargeNewAccount q (ctx.amsterdam && c.targetEmpty) = .ok (some p))
    (hbase : memoryAbsolute f.memoryBase height = .ok childMemoryBase) :
    GasStep ctx .create ⟨gasFrame f .running s, suspended⟩
      { frame :=
          { pools := { gas := (lendCreateGas p).2, stateGas := p.stateGas, stateSpill := 0 }
            status := .running
            memoryBase := childMemoryBase
            memoryHeight := 0
            stateGasReservoir := p.stateGas
            depth := f.message.depth + 1 }
        suspended :=
          { pools := { (lendCreateGas p).1 with stateGas := 0 }
            memoryHeight := height
            stateGasReservoir := f.message.stateGasReservoir
            depth := f.message.depth
            awaits := .create
            newAccountCharged := ctx.amsterdam && c.targetEmpty } :: suspended } := by
  obtain ⟨p', hexpansion, hcharges⟩ := h.charges
  obtain ⟨initcode, second, hreach, hinitcode⟩ := h.reached
  refine ⟨.create c, rfl, ?_⟩
  have hbase' : memoryAbsolute (gasFrame f .running s).memoryBase height = .ok childMemoryBase :=
    hbase
  rw [step, if_pos (gasFrame_running f s suspended)]
  simp only [EvmSail.runCreate, hexpansion, hreach, hcharges, hinitcode, ok_bind]
  rw [if_neg (create_not_refused hrefused hdepth)]
  simp only [hcharge, ok_bind]
  rw [if_neg (by rw [hoccupied]; exact Bool.false_ne_true)]
  simp only [enterFrame, hbase', ok_bind]
  rfl

theorem CreatePaid.ready {kind : CreateKind} {initcode : MemoryAccess}
    (h : CreatePaid ctx f kind s c initcode q height) (hfits : Fits ctx f s) :
    CreateReady ctx (gasFrame f .running s) c q height ∧
      Fits ctx f { s with memoryHeight := height } := by
  obtain ⟨second, hreached⟩ := h.reached
  obtain ⟨hgrown, hinitcode, -⟩ := materialize_ok hfits hreached
  exact ⟨⟨h.charges, ⟨initcode, second, hreached, hinitcode⟩⟩, hgrown⟩

end

/-- A creation that has no child is one effect. -/
theorem runCreate_gasStays {f : Frame} {kind : CreateKind} {s s' : MachineState}
    {returndata : OutputSlice} (h : runCreate ctx f kind s = .ok (.stays returndata, s'))
    (hfits : Fits ctx f s) : Fits ctx f s' ∧ ∀ suspended,
      GasStep ctx .create ⟨gasFrame f .running s, suspended⟩
        ⟨gasFrame f .running s', suspended⟩ := by
  rcases runCreate_cases h with ⟨kind, hfailed, -⟩ |
    ⟨value, salt, c, initcode, pools, height, hpaid, -, h⟩
  · cases hfailed
  obtain ⟨hready, hgrown⟩ := hpaid.ready hfits
  rcases guardCreate_cases h with ⟨kind, hfailed, -⟩ | hends
  · cases hfailed
  cases hends with
  | refused gas kernel hlooks hgas =>
    exact ⟨hgrown, fun suspended => (hready.found true false false).refused rfl hgas⟩
  | occupied targetEmpty p pools kernel hdepth hcharge hcredit hcounted =>
    exact ⟨hgrown, fun suspended =>
      (hready.found false targetEmpty true).occupied rfl rfl hdepth hcharge hcredit⟩

theorem runCreate_gasEnters {f child : Frame} {kind : CreateKind} {s s' : MachineState}
    {k : FrameContinuation} (h : runCreate ctx f kind s = .ok (.enters k child, s'))
    (hfits : Fits ctx f s) : Fits ctx child s' ∧ ∀ suspended,
      GasStep ctx .create ⟨gasFrame f .running s, suspended⟩
        ⟨gasFrame child .running s', gasCheckpoint k :: suspended⟩ := by
  rcases runCreate_cases h with ⟨kind, hfailed, -⟩ |
    ⟨value, salt, c, initcode, pools, height, hpaid, -, h⟩
  · cases hfailed
  obtain ⟨hready, hgrown⟩ := hpaid.ready hfits
  rcases guardCreate_cases h with ⟨kind, hfailed, -⟩ | hends
  · cases hfailed
  cases hends with
  | entered targetEmpty p childMemoryBase value new code kernel middle kernel' hdepth hcharge hbase
      hcounted hcode hprepared htransferred hevolves =>
    refine ⟨?_, fun suspended =>
      (hready.found false targetEmpty false).entered rfl rfl hdepth hcharge hbase⟩
    rw [Fits, memoryAbsolute_base hbase]
    exact hgrown

/-! ## Steps of the machine -/

/-- An instruction that has not entered a frame is one effect. -/
theorem frameEntry_gasStays {f : Frame} {i : Ast} {entry : Exec FrameTransition}
    {s s' : MachineState} {returndata : OutputSlice} (hentry : frameEntry ctx f i = some entry)
    (h : entry s = .ok (.stays returndata, s')) (hfits : Fits ctx f s) :
    Fits ctx f s' ∧ ∀ suspended,
      GasStep ctx (instructionKind i) ⟨gasFrame f .running s, suspended⟩
        ⟨gasFrame f .running s', suspended⟩ := by
  cases i with
  | opcodeCreate | create2 =>
    cases hentry
    exact runCreate_gasStays h hfits
  | call | callcode | delegatecall | staticcall =>
    cases hentry
    exact runCall_gasStays h hfits
  | _ => cases hentry

/-- So is one that has. -/
theorem frameEntry_gasEnters {f child : Frame} {i : Ast} {entry : Exec FrameTransition}
    {s s' : MachineState} {k : FrameContinuation} (hentry : frameEntry ctx f i = some entry)
    (h : entry s = .ok (.enters k child, s')) (hfits : Fits ctx f s) :
    Fits ctx child s' ∧ ∀ suspended,
      GasStep ctx (instructionKind i) ⟨gasFrame f .running s, suspended⟩
        ⟨gasFrame child .running s', gasCheckpoint k :: suspended⟩ := by
  cases i with
  | opcodeCreate | create2 =>
    cases hentry
    exact runCreate_gasEnters h hfits
  | call | callcode | delegatecall | staticcall =>
    cases hentry
    exact runCall_gasEnters h hfits
  | _ => cases hentry

variable (ctx) in
/-- The active frame is in the arena, and those that wait were running. -/
structure Machine.Housed (m : Machine) : Prop where
  fits : Fits ctx m.1.frame m.1.state
  waiting : ∀ k ∈ m.2, k.checkpoint.status = .running

theorem gasStatus_ended {status : FrameStatus} (h : status ≠ .running) :
    gasStatus status ≠ .running := by
  cases status with
  | running => exact absurd rfl h
  | halted kind =>
    cases kind with
    | haltStop | haltReturn | haltRevert | haltSelfDestruct => exact fun hno => by cases hno
  | exceptional kind => exact fun hno => by cases hno

/-- A finished child is settled, and its output written, as the gas and
memory machine does it. -/
theorem FrameContinuation.Settles.gas {child : Frame} {status : FrameStatus} {s : MachineState}
    {succeeds : Bool} {settled : GasPools} {k : FrameContinuation}
    (h : k.Settles ctx child status s succeeds settled) : ∃ d status',
      settleChild ctx.amsterdam (gasFrame child status s) (gasAwaits k) d =
        .ok { gasFrame child status s with pools := settled, status := status' } ∧
      frameSucceeded status' = succeeds ∧
      ∀ base memory memory', k.Writes ctx base (frameOutput status) memory memory' →
        writeOutput ctx.memoryCapacity base (gasAwaits k) d.outputLen = .ok () := by
  cases k with
  | resumeCall c off len charged =>
    obtain ⟨hsucceeds, rfl⟩ := h
    refine ⟨⟨(frameOutput status).len, false, 0, 0, false⟩, gasStatus status, rfl, ?_, ?_⟩
    · rw [frameSucceeded_gasStatus, hsucceeds]
    · intro base memory memory' hwrites
      obtain ⟨⟨destination, hdestination, hcopy⟩, -⟩ := hwrites
      exact bind_eq_ok.mpr ⟨destination, hdestination, hcopy⟩
  | resumeCreate c address charged =>
    obtain ⟨d, status', hsettle, hsucceeds⟩ := h
    exact ⟨d, status', hsettle, hsucceeds, fun _ _ _ _ => rfl⟩

theorem memoryParentBase_add {childBase height base : Nat}
    (h : memoryParentBase childBase height = .ok base) : base + height = childBase := by
  rw [memoryParentBase] at h
  split at h
  · cases h
    omega
  · cases h

/-- A frame goes on over its child in the gas and memory machine too. -/
theorem Returns.gas {child parent : Frame} {status : FrameStatus} {k : FrameContinuation}
    {s s' : MachineState} {succeeds : Bool} (hended : status ≠ .running)
    (hfits : Fits ctx child s) (h : Returns ctx child status k s succeeds parent s') :
    Fits ctx parent s' ∧ ∀ suspended,
      GasStep ctx .resume ⟨gasFrame child status s, gasCheckpoint k :: suspended⟩
        ⟨gasFrame parent .running s', suspended⟩ := by
  have hback : ∀ (settled returned pools : GasPools) (base : Nat) (memory : Nat → Byte),
      k.Settles ctx child status s succeeds settled →
      memoryParentBase child.memoryBase k.checkpoint.memoryHeight = .ok base →
      refundGas k.checkpoint.gas settled.gas = .ok returned.gas →
      returnChildStateGas k.checkpoint.stateGas k.checkpoint.stateSpill settled.stateGas
        settled.stateSpill = .ok (returned.stateGas, returned.stateSpill) →
      k.Writes ctx base (frameOutput status) s.memory memory →
      creditNewAccount returned (k.newAccountCharged && !succeeds) = .ok pools →
      parent.memoryBase = base → parent.message = k.checkpoint.message →
      s'.toGasPools = pools → s'.memoryHeight = k.checkpoint.memoryHeight →
      Fits ctx parent s' ∧ ∀ suspended,
        GasStep ctx .resume ⟨gasFrame child status s, gasCheckpoint k :: suspended⟩
          ⟨gasFrame parent .running s', suspended⟩ := by
    intro settled returned pools base memory hsettled hparent hgas hstateGas hwrites hcredit hbase
      hmessage hpools hheight
    have hadd := memoryParentBase_add hparent
    refine ⟨?_, fun suspended => ?_⟩
    · rw [Fits, hbase, hheight, hadd]
      exact (Nat.le_add_right _ _).trans hfits
    · obtain ⟨d, status', hsettle, hsucceeds, hwritten⟩ := hsettled.gas
      refine ⟨.resume d, rfl, ?_⟩
      have hnot : ¬ (⟨gasFrame child status s, gasCheckpoint k :: suspended⟩ :
          EvmSail.Machine).frame.status = .running := gasStatus_ended hended
      have hparent' : memoryParentBase (gasFrame child status s).memoryBase
          (gasCheckpoint k).memoryHeight = .ok base := hparent
      have hgas' : refundGas (gasCheckpoint k).pools.gas settled.gas = .ok returned.gas := hgas
      have hstateGas' : returnChildStateGas (gasCheckpoint k).pools.stateGas
          (gasCheckpoint k).pools.stateSpill settled.stateGas settled.stateSpill =
            .ok (returned.stateGas, returned.stateSpill) := hstateGas
      have hsettle' : settleChild ctx.amsterdam (gasFrame child status s)
          (gasCheckpoint k).awaits d =
            .ok { gasFrame child status s with pools := settled, status := status' } := hsettle
      have hwritten' : writeOutput ctx.memoryCapacity base (gasCheckpoint k).awaits d.outputLen =
          .ok () := hwritten base s.memory memory hwrites
      have hcredit' : creditNewAccount returned ((gasCheckpoint k).newAccountCharged &&
          !succeeds) = .ok pools := hcredit
      rw [step, if_neg hnot]
      simp only [EvmSail.resumeFrame, hsettle', hparent', hgas', hstateGas', hwritten', hsucceeds,
        hcredit', ok_bind]
      simp only [gasFrame, hpools, hheight, hbase, hmessage]
      rfl
  cases h with
  | kept settled pools base memory refund deployed kernel word hsettled hparent hgas hstateGas
      hwrites hrefund hdeploys hcommit =>
    refine hback settled pools pools base memory hsettled hparent hgas hstateGas hwrites ?_ rfl
      rfl rfl rfl
    rw [Bool.not_true, Bool.and_false]
    rfl
  | undone settled returned pools base memory kernel hsettled hparent hgas hstateGas hwrites
      hcredit hrevert =>
    refine hback settled returned pools base memory hsettled hparent hgas hstateGas hwrites ?_
      rfl rfl rfl rfl
    rw [Bool.not_false, Bool.and_true]
    exact hcredit

/-! ## Runs -/

section

variable (ctx)

/-- The effects that a step of the interpreter is. -/
inductive Abstracts : Machine → List Effect → Machine → Prop
  /-- An opcode, or an instruction that was to enter a frame and has failed. -/
  | inside {a b : Activation} {ks : List FrameContinuation} {es : List Effect}
      (h : Stays ctx a b)
      (hinside : instructionKind (a.instruction ctx) = .inner ∨
        ∃ kind, b.status = .exceptional kind)
      (hes : ∀ e ∈ es, effectKind e = .inner) : Abstracts (a, ks) es (b, ks)
  /-- A call or a creation without a child. -/
  | answered {a b : Activation} {ks : List FrameContinuation} {e : Effect} (h : Stays ctx a b)
      (hentry : instructionKind (a.instruction ctx) ≠ .inner)
      (he : effectKind e = instructionKind (a.instruction ctx)) : Abstracts (a, ks) [e] (b, ks)
  | enters {a c : Activation} {k : FrameContinuation} {ks : List FrameContinuation} {e : Effect}
      (h : Enters ctx a k c) (hentry : instructionKind (a.instruction ctx) ≠ .inner)
      (he : effectKind e = instructionKind (a.instruction ctx)) :
      Abstracts (a, ks) [e] (c, k :: ks)
  | resumes {d a : Activation} {k : FrameContinuation} {ks : List FrameContinuation} {e : Effect}
      (h : Resumes ctx d k a) (he : effectKind e = .resume) : Abstracts (d, k :: ks) [e] (a, ks)

/-- The gas and memory machine does `es` as the interpreter goes from `m` to
`m'`. -/
structure Simulates (m : Machine) (es : List Effect) (m' : Machine) : Prop where
  abstracts : Abstracts ctx m es m'
  run : run ctx.amsterdam ctx.memoryCapacity (gasMachine m) es = .ok (gasMachine m')

/-- The two go along together, step after step of the interpreter. -/
inductive Refines (m₀ : Machine) : List (List Effect) → Machine → Prop
  | refl : Refines m₀ [] m₀
  | tail {m m' : Machine} {trace : List (List Effect)} {es : List Effect}
      (h : Refines m₀ trace m) (hstep : Simulates ctx m es m') : Refines m₀ (trace ++ [es]) m'

end

theorem Refines.run {m m' : Machine} {trace : List (List Effect)} (h : Refines ctx m trace m') :
    run ctx.amsterdam ctx.memoryCapacity (gasMachine m) trace.flatten = .ok (gasMachine m') := by
  induction h with
  | refl => rfl
  | tail _ hstep ih =>
    rw [List.flatten_append, List.flatten_singleton, run_append, ih, ok_bind]
    exact hstep.run

theorem frameEntry_kind {f : Frame} {i : Ast} {entry : Exec FrameTransition}
    (h : frameEntry ctx f i = some entry) : instructionKind i ≠ .inner := by
  cases i with
  | opcodeCreate | create2 | call | callcode | delegatecall | staticcall =>
    exact fun hno => by cases hno
  | _ => cases h

theorem instructionKind_inner {f : Frame} {i : Ast} (h : frameEntry ctx f i = none) :
    instructionKind i = .inner := by
  cases i with
  | opcodeCreate | create2 | call | callcode | delegatecall | staticcall => cases h
  | _ => rfl

/-- Every step of the interpreter is a run of the gas and memory machine. -/
theorem step_gas {m m' : Machine} (h : (calls ctx).Step m m') (hm : m.Housed ctx) :
    m'.Housed ctx ∧ ∃ es, Simulates ctx m es m' := by
  obtain ⟨hfits, hwaiting⟩ := hm
  cases h with
  | @stays a b ks h =>
    obtain ⟨hrunning, hcases⟩ := Stays.cases h
    have hstart : gasMachine (a, ks) =
        ⟨gasFrame a.frame .running (a.fetched ctx), ks.map gasCheckpoint⟩ := by
      rw [gasMachine, hrunning]
      rfl
    rcases hcases with ⟨status, s', hexecuted, hopcode, rfl⟩ |
      ⟨entry, returndata, s', hentry, hrun, rfl⟩
    · obtain ⟨hfits', hruns⟩ := hexecuted.gas hfits
      obtain ⟨es, hinner, hes⟩ := hruns (ks.map gasCheckpoint)
      exact ⟨⟨hfits', hwaiting⟩, es, .inside h (hopcode.imp_left instructionKind_inner) hinner,
        hstart ▸ hes⟩
    · obtain ⟨hfits', hruns⟩ := frameEntry_gasStays hentry hrun hfits
      obtain ⟨e, hkind, he⟩ := hruns (ks.map gasCheckpoint)
      exact ⟨⟨hfits', hwaiting⟩, [e], .answered h (frameEntry_kind hentry) hkind,
        hstart ▸ run_effect he⟩
  | @enters a c k ks h =>
    obtain ⟨hrunning, hchild, entry, hentry, hrun⟩ := Enters.cases h
    obtain ⟨hfits', hruns⟩ := frameEntry_gasEnters hentry hrun hfits
    obtain ⟨e, hkind, he⟩ := hruns (ks.map gasCheckpoint)
    obtain ⟨s₁, hentered⟩ := (frameEntry_entry hentry).entered hrun
    have hstart : gasMachine (a, ks) =
        ⟨gasFrame a.frame .running (a.fetched ctx), ks.map gasCheckpoint⟩ := by
      rw [gasMachine, hrunning]
      rfl
    have hend : gasMachine (c, k :: ks) =
        ⟨gasFrame c.frame .running c.state, gasCheckpoint k :: ks.map gasCheckpoint⟩ := by
      rw [gasMachine, hchild]
      rfl
    refine ⟨⟨hfits', fun k' hk => ?_⟩, [e], .enters h (frameEntry_kind hentry) hkind, ?_⟩
    · rcases List.mem_cons.mp hk with rfl | hk
      · rw [hentered.checkpoint]
        rfl
      · exact hwaiting k' hk
    · rw [hstart, hend]
      exact run_effect he
  | @resumes d e k ks h =>
    obtain ⟨hended, hstatus, hreturns⟩ := Resumes.returns h
    obtain ⟨hfits', hruns⟩ := hreturns.gas hended hfits
    obtain ⟨effect, hkind, heffect⟩ := hruns (ks.map gasCheckpoint)
    have hend : gasMachine (e, ks) =
        ⟨gasFrame e.frame .running e.state, ks.map gasCheckpoint⟩ := by
      rw [gasMachine, hstatus, hwaiting k List.mem_cons_self]
    refine ⟨⟨hfits', fun k' hk => hwaiting k' (List.mem_cons_of_mem _ hk)⟩, [effect],
      .resumes h hkind, ?_⟩
    rw [hend]
    exact run_effect heffect

theorem steps_gas {m m' : Machine} (h : (calls ctx).Steps m m') (hm : m.Housed ctx) :
    m'.Housed ctx ∧ ∃ trace, Refines ctx m trace m' := by
  induction h with
  | refl => exact ⟨hm, [], .refl⟩
  | tail _ hstep ih =>
    obtain ⟨hhoused, trace, htrace⟩ := ih
    obtain ⟨hhoused', es, hes⟩ := step_gas hstep hhoused
    exact ⟨hhoused', trace ++ [es], htrace.tail hes⟩

/-- Every run of the interpreter is a run of the gas and memory machine, and at
every point of it the two are at the same machine.  Each step is some effects
on the active frame alone, when it is an opcode, and otherwise one effect: of
a call, of a creation, or of the return to a suspended frame. -/
theorem interpreter_refines {m m' : Machine} (hm : m.Housed ctx)
    (hrun : (calls ctx).Steps m m') :
    (∃ trace, Refines ctx m trace m' ∧
      run ctx.amsterdam ctx.memoryCapacity (gasMachine m) trace.flatten = .ok (gasMachine m')) ∧
    ∀ m'', (calls ctx).Step m' m'' → ∃ es, Simulates ctx m' es m'' := by
  obtain ⟨hhoused, trace, htrace⟩ := steps_gas hrun hm
  exact ⟨⟨trace, htrace, htrace.run⟩, fun m'' hstep => (step_gas hstep hhoused).2⟩

theorem housed_paying (ending : List Byte) : Machine.Housed settledAmsterdam (paying ending, []) :=
  ⟨Nat.zero_le _, fun k hk => by cases hk⟩

theorem interpreter_refines_paying : ∃ (r : Call) (trace : List (List Effect)),
    Enters settledAmsterdam r.before r.waits r.child ∧
      Resumes settledAmsterdam r.ended r.waits r.back ∧ r.back.state.gas = 857029 ∧
      Refines settledAmsterdam (paying destroys, []) trace (r.back, []) ∧
      run true guestEvmMemoryBytes (gasMachine (paying destroys, [])) trace.flatten =
        .ok (gasMachine (r.back, [])) := by
  have hfound : found (payingCall 14 destroys) (fun r => r.back.state.gas = 857029) = true := by
    decide +kernel
  obtain ⟨r, hrun, henter, hchild, hresume, hfacts⟩ := Call.of_any hfound
  obtain ⟨⟨trace, hrefines, heffects⟩, -⟩ :=
    interpreter_refines (housed_paying destroys) (Nesting.steps_resumed hrun henter hchild hresume)
  exact ⟨r, trace, henter, hresume, of_decide_eq_true hfacts, hrefines, heffects⟩

/-! ## What is known of that machine -/

/-- The first frame of a transaction keeps the memory of its run within the
bound of the gas and memory machine. -/
theorem steps_within {a₀ : Activation} {m : Machine} (hbase : a₀.frame.memoryBase = 0)
    (hheight : a₀.state.memoryHeight = 0)
    (hgas : a₀.state.regular ≤ transactionExecutionGasLimit)
    (hrun : (calls ctx).Steps (a₀, []) m) :
    Within a₀.state.regular ctx.memoryCapacity (gasMachine m) := by
  have hfits : Fits ctx a₀.frame a₀.state := by
    rw [Fits, hbase, hheight]
    exact Nat.zero_le _
  have hstart : Within a₀.state.regular ctx.memoryCapacity (gasMachine (a₀, [])) := by
    refine ⟨a₀.state.regular, ?_, ?_, hfits⟩
    · show Funded _ [] a₀.frame.memoryBase _
      rw [hbase]
      exact .outermost
    · show a₀.state.regular + heightCost a₀.state.memoryHeight ≤ _
      rw [hheight, heightCost_zero]
      exact Nat.le_refl _
  obtain ⟨trace, htrace⟩ := (steps_gas hrun ⟨hfits, fun k hk => by cases hk⟩).2
  exact (run_within hgas trace.flatten hstart).of_ok htrace.run

/-- In every run of a transaction's first frame with at most `2 ^ 24`
execution gas, the live frames together hold at most `arenaBound` bytes, and
no more than the arena has; and in an arena of `arenaBound` bytes there is
room for all memory that the active frame could ever pay for. -/
theorem frames_housed {a₀ a : Activation} {ks : List FrameContinuation}
    (hbase : a₀.frame.memoryBase = 0) (hheight : a₀.state.memoryHeight = 0)
    (hgas : a₀.state.regular ≤ transactionExecutionGasLimit)
    (hrun : (calls ctx).Steps (a₀, []) (a, ks)) :
    a.frame.memoryBase = suspendedHeight ks ∧
      suspendedHeight ks + a.state.memoryHeight ≤ arenaBound ∧
      suspendedHeight ks + a.state.memoryHeight ≤ ctx.memoryCapacity ∧
      (arenaBound ≤ ctx.memoryCapacity → ∀ (p q : GasPools) (o o' : Operand),
        p.regular ≤ a.state.regular →
        spendExpansion p a.state.memoryHeight (operandsHeight o o') = some q →
        materialize ctx.memoryCapacity a.frame.memoryBase a.state.memoryHeight o o' ≠
          .error .guestAbort) := by
  have hwithin := steps_within hbase hheight hgas hrun
  have hbound : a.frame.memoryBase + a.state.memoryHeight ≤ arenaBound :=
    hwithin.le_arenaBound hgas
  have hroomy := hwithin.roomy hgas
  obtain ⟨budget, hfunded, -, hfits⟩ := hwithin
  have hsum : a.frame.memoryBase = suspendedHeight ks := by
    have heq : a.frame.memoryBase = ((ks.map gasCheckpoint).map (·.memoryHeight)).sum :=
      hfunded.base_eq
    rw [heq, suspendedHeight, List.map_map]
    rfl
  refine ⟨hsum, hsum ▸ hbound, hsum ▸ hfits, fun hcapacity p q o o' hp hpaid habort => ?_⟩
  obtain ⟨-, hspent⟩ := spendExpansion_some hpaid
  have hroom : a.frame.memoryBase + max a.state.memoryHeight (operandsHeight o o') ≤
      ctx.memoryCapacity := by
    refine hroomy.room hcapacity _ ?_
    show _ ≤ a.state.regular + heightCost a.state.memoryHeight
    have hp' : p.spendable ≤ a.state.regular := hp
    omega
  exact (materialize_ends ctx.memoryCapacity hfits fun _ => hroom).of_error habort hcapacity rfl

/-- A frame that has written to its memory, over one that has. -/
theorem frames_housed_paying : ∃ r : Call,
    (calls settledAmsterdam).Steps (paying destroys, []) (r.ended, [r.waits]) ∧
      suspendedHeight [r.waits] = 32 ∧ r.ended.state.memoryHeight = 1 ∧
      r.ended.frame.memoryBase = suspendedHeight [r.waits] ∧
      suspendedHeight [r.waits] + r.ended.state.memoryHeight ≤ arenaBound := by
  have hfound : found (payingCall 14 destroys) (fun r =>
      suspendedHeight [r.waits] = 32 ∧ r.ended.state.memoryHeight = 1) = true := by
    decide +kernel
  obtain ⟨r, hrun, henter, hchild, -, hfacts⟩ := Call.of_any hfound
  obtain ⟨hsuspended, hheight⟩ := of_decide_eq_true hfacts
  have hended := Nesting.steps_called hrun henter hchild
  obtain ⟨hbase, hbound, -, -⟩ := frames_housed rfl rfl (by decide) hended
  exact ⟨r, hended, hsuspended, hheight, hbase, hbound⟩

/-- In every run of a first frame that starts with nothing spilled, every
frame, active or suspended, has a history: its pools come from what it was
lent by execution, by charges and credits of state gas, and by what its
children have left.  When the first frame is active again, the state gas it
has used is the signed sum of the charges that stand, and its gas is there,
spilled or spent. -/
theorem stateGas_accounted {a₀ a : Activation} {ks : List FrameContinuation}
    (hhoused : Machine.Housed ctx (a₀, []))
    (hreservoir : a₀.frame.message.stateGasReservoir = a₀.state.stateGas)
    (hspill : a₀.state.stateSpill = 0) (hrun : (calls ctx).Steps (a₀, []) (a, ks)) :
    Ledger ctx.amsterdam a₀.state.stateGas a₀.state.gas (gasMachine (a, ks)) ∧
      (ks = [] → ∃ net spent,
        FrameHistory ctx.amsterdam a₀.state.stateGas a₀.state.gas net spent a.state.toGasPools ∧
        frameStateGasUsed a₀.state.stateGas a.state.stateGas a.state.stateSpill = net ∧
        a.state.gas + a.state.stateSpill + spent = a₀.state.gas) := by
  have hstart : Ledger ctx.amsterdam a₀.state.stateGas a₀.state.gas (gasMachine (a₀, [])) := by
    refine ⟨a₀.state.gas, ?_, 0, 0, Nat.le_refl 0, ?_⟩
    · show Enclosed _ _ _ [] a₀.frame.message.stateGasReservoir _
      rw [hreservoir]
      exact .outermost
    · show FrameHistory _ a₀.frame.message.stateGasReservoir _ _ _ a₀.state.toGasPools
      have hpools : a₀.state.toGasPools = ⟨a₀.state.gas, a₀.state.stateGas, 0⟩ := by
        rw [← hspill]
      rw [hreservoir, hpools]
      exact .entered _ _
  obtain ⟨trace, htrace⟩ := (steps_gas hrun hhoused).2
  have hledger := run_ledger hstart htrace.run
  refine ⟨hledger, ?_⟩
  rintro rfl
  obtain ⟨given, henclosed, net, spent, -, hhistory⟩ := hledger
  have houtermost : Enclosed ctx.amsterdam a₀.state.stateGas a₀.state.gas []
      a.frame.message.stateGasReservoir given := henclosed
  generalize hsame : a.frame.message.stateGasReservoir = reservoir at houtermost
  have hhistory' : FrameHistory ctx.amsterdam reservoir given net spent a.state.toGasPools :=
    hsame ▸ hhistory
  cases houtermost
  obtain ⟨hused, hregular⟩ := hhistory'.account
  exact ⟨net, spent, hhistory', hused, hregular⟩

/-- The callee has set a slot, out of the gas that it was lent. -/
theorem stateGas_accounted_paying : ∃ (r : Call) (net : Int) (spent : Nat),
    (calls settledAmsterdam).Steps (paying destroys, []) (r.back, []) ∧
      r.back.state.stateSpill = 97920 ∧
      FrameHistory true 0 1000000 net spent r.back.state.toGasPools ∧
      frameStateGasUsed 0 r.back.state.stateGas r.back.state.stateSpill = net ∧
      r.back.state.gas + r.back.state.stateSpill + spent = 1000000 := by
  have hfound : found (payingCall 14 destroys) (fun r => r.back.state.stateSpill = 97920) =
      true := by
    decide +kernel
  obtain ⟨r, hrun, henter, hchild, hresume, hfacts⟩ := Call.of_any hfound
  have hback := Nesting.steps_resumed hrun henter hchild hresume
  obtain ⟨-, haccount⟩ := stateGas_accounted (housed_paying destroys) rfl rfl hback
  obtain ⟨net, spent, hhistory, hused, hregular⟩ := haccount rfl
  exact ⟨r, net, spent, hback, of_decide_eq_true hfacts, hhistory, hused, hregular⟩

end

end EvmSail.Vm
