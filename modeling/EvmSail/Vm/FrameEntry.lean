/-
# `EvmSail.Vm.FrameEntry` — what a call and a creation come to

A call that does not fail has popped its operands, paid for its memory and
its target, and lent gas to the child; only then is its memory grown.  What
it has come to is said once: `runCall_cases` and `runCreate_cases` give the
state in front of the end of the instruction, exactly, and the end it comes
to.  The charges are those of the gas and memory machine (`callCharges`), so
that what is known of that machine can be used here.
-/
import EvmSail.Kernel.WarmMarks
import EvmSail.Vm.Frames
import EvmSail.Vm.Rules

namespace EvmSail.Vm

open Fallible Kernel Kept Relation

/-! ## What an instruction asks for -/

/-- What an instruction that may enter a frame has on the stack: so many words,
and among them the memory that it reads, and the memory that the output of
its child is to be written to. -/
structure Request where
  inputs : Nat
  args : Operand
  ret : Operand

/-- The word `index` slots below the top. -/
def MachineState.operand (s : MachineState) (index : Nat) : Word :=
  s.operands s.row (s.sp - 1 - index)

def MachineState.range (s : MachineState) (index : Nat) : Operand :=
  { start := (s.operand index).toNat, size := (s.operand (index + 1)).toNat }

/-- The gas, the target, and maybe the value stand above the ranges. -/
def callRequested (kind : CallKind) (s : MachineState) : Request :=
  let first := if (callSemantics kind).takesValue then 3 else 2
  { inputs := callStackInputs kind, args := s.range first, ret := s.range (first + 2) }

/-- The value stands above the initcode. -/
def createRequested (kind : CreateKind) (s : MachineState) : Request :=
  { inputs := createStackInputs kind, args := s.range 1, ret := noOperand }

def requested : Ast → MachineState → Option Request
  | .opcodeCreate, s => some (createRequested .createByNonce s)
  | .create2, s => some (createRequested .createBySalt s)
  | .call, s => some (callRequested .call s)
  | .callcode, s => some (callRequested .callCode s)
  | .delegatecall, s => some (callRequested .delegateCall s)
  | .staticcall, s => some (callRequested .staticCall s)
  | _, _ => none

/-! ## Message calls -/

section

variable {ctx : Context} {f : Frame}

theorem chargeNewAccount_cases {charged : Bool} {k : Exec FrameTransition} {s s' : MachineState}
    {r : FrameTransition} (h : chargeNewAccount charged k s = .ok (r, s')) :
    Fails ctx f s r s' ∨ ∃ pools,
      EvmSail.chargeNewAccount s.toGasPools charged = .ok (some pools) ∧
      Draws ctx f s { s with toGasPools := pools } ∧
      k { s with toGasPools := pools } = .ok (r, s') := by
  cases charged with
  | false => exact .inr ⟨s.toGasPools, rfl, .refl, h⟩
  | true =>
    obtain ⟨⟨halt, pools⟩, hcharge, h⟩ := bind_eq_ok.mp h
    cases halt with
    | true =>
      obtain ⟨-, rfl⟩ | ⟨hhalt, -⟩ := chargeStateGas_eq_ok hcharge
      · cases h
        exact .inl ⟨.outOfGas, rfl, .refl⟩
      · cases hhalt
    | false =>
      refine .inr ⟨pools, ?_, .single (.stateCharge _ pools hcharge), h⟩
      exact bind_eq_ok.mpr ⟨(false, pools), hcharge, rfl⟩

theorem popCallOperands_state {kind : CallKind} {s s' : MachineState} {o : CallOperands}
    (h : popCallOperands (callSemantics kind).takesValue s = .ok (o, s')) :
    s' = { s with sp := s.sp - callStackInputs kind } ∧
      ((callSemantics kind).takesValue = false → o.value = 0) ∧
      o.args = (callRequested kind s).args ∧ o.ret = (callRequested kind s).ret := by
  cases kind with
  | call | callCode =>
    cases h
    exact ⟨rfl, fun hvalue => (by cases hvalue), rfl, rfl⟩
  | delegateCall | staticCall =>
    cases h
    exact ⟨rfl, fun _ => rfl, rfl, rfl⟩

def gasStatus : FrameStatus → EvmSail.FrameStatus
  | .running => .running
  | .halted (.haltRevert _) => .haltRevert
  | .halted _ => .halted
  | .exceptional _ => .exceptional

/-- The frame, as the gas and memory machine has it. -/
def gasFrame (f : Frame) (status : FrameStatus) (s : MachineState) : EvmSail.Frame :=
  { pools := s.toGasPools
    status := gasStatus status
    memoryBase := f.memoryBase
    memoryHeight := s.memoryHeight
    stateGasReservoir := f.message.stateGasReservoir
    depth := f.message.depth }

/-- The call as that machine has it: the operands, and what was found at the
target. -/
def callRequest (semantics : CallSemantics) (o : CallOperands) (warm : Bool)
    (delegate : Option Bool) (targetEmpty : Bool) : EvmSail.CallOperands :=
  { gasRequest := o.gas.toNat
    valueNonzero := decide (o.value ≠ 0)
    transfersValue := semantics.transfersValue
    args := o.args
    ret := o.ret
    warm := warm
    delegate := delegate
    targetEmpty := targetEmpty
    insufficientBalance := false
    callee := .code }

/-- The price of the delegate is that of an account, warm or not. -/
theorem delegationCost_cases {delegate : Option Address} {s s' : MachineState} {cost : Nat}
    (h : delegationCost ctx delegate s = .ok (cost, s')) :
    Peeked ctx s s' ∧ ∃ warm : Option Bool, cost = match warm with
      | some warm => accountCost ctx.amsterdam warm
      | none => 0 := by
  cases delegate with
  | none =>
    cases h
    exact ⟨Std.Refl.refl s, none, rfl⟩
  | some delegate =>
    obtain ⟨warm, s₁, hwarm, h⟩ := bind_apply_eq_ok.mp h
    cases h
    exact ⟨peeks_syscall _ s warm _ hwarm, some warm, rfl⟩

/-- The charges of a call once its target has been looked at. -/
def targetCharges (amsterdam : Bool) (p : GasPools) (c : EvmSail.CallOperands) :
    Result (Option GasPools) :=
  let delegationCost :=
    match c.delegate with
    | some warm => accountCost amsterdam warm
    | none => 0
  let createCost :=
    if ¬ amsterdam ∧ c.valueNonzero ∧ c.transfersValue ∧ c.targetEmpty then newAccountCost else 0
  match spend p (delegationCost + createCost) with
  | none => .ok none
  | some p => EvmSail.chargeNewAccount p (callChargesNewAccount amsterdam c)

theorem targetCharges_eq {amsterdam : Bool} {c : EvmSail.CallOperands} {p q : GasPools}
    (h : spend p ((match c.delegate with
        | some warm => accountCost amsterdam warm
        | none => 0) +
      if ¬ amsterdam ∧ c.valueNonzero ∧ c.transfersValue ∧ c.targetEmpty then newAccountCost
        else 0) = some q) :
    targetCharges amsterdam p c =
      EvmSail.chargeNewAccount q (callChargesNewAccount amsterdam c) := by
  simp only [targetCharges, h]

theorem callCharges_eq {amsterdam : Bool} {g : EvmSail.Frame} {c : EvmSail.CallOperands}
    {p q : GasPools}
    (hexpansion : spendExpansion g.pools g.memoryHeight (operandsHeight c.args c.ret) = some p)
    (hbase : spend p (accountCost amsterdam c.warm +
      if c.valueNonzero then callValueCost amsterdam else 0) = some q) :
    callCharges amsterdam g c = targetCharges amsterdam q c := by
  simp only [callCharges, hexpansion, hbase]
  rfl

theorem callChargesNewAccount_callRequest (amsterdam : Bool) (semantics : CallSemantics)
    (o : CallOperands) (warm : Bool) (delegate : Option Bool) (targetEmpty : Bool) :
    (amsterdam && (decide (o.value ≠ 0) && semantics.transfersValue && targetEmpty)) =
      callChargesNewAccount amsterdam (callRequest semantics o warm delegate targetEmpty) := by
  simp only [callChargesNewAccount, callRequest, Bool.and_assoc]

theorem createCost_callRequest (amsterdam : Bool) (semantics : CallSemantics)
    (o : CallOperands) (targetEmpty : Bool) :
    (if !amsterdam && (decide (o.value ≠ 0) && semantics.transfersValue && targetEmpty)
      then newAccountCost else 0) =
    if ¬ amsterdam ∧ decide (o.value ≠ 0) ∧ semantics.transfersValue ∧ targetEmpty
      then newAccountCost else 0 := by
  simp only [Bool.and_eq_true, Bool.not_eq_true', Bool.not_eq_true, and_assoc]

theorem callBaseCost_callRequest (o : CallOperands) (warm : Bool) :
    callBaseCost ctx o warm = accountCost ctx.amsterdam warm +
      if decide (o.value ≠ 0) then callValueCost ctx.amsterdam else 0 := by
  simp only [callBaseCost, accountAccessCost, decide_eq_true_eq]

/-- The charges of a call behind those for its memory and its fee. -/
theorem chargeTarget_cases {semantics : CallSemantics} {o : CallOperands} {s s' : MachineState}
    {r : FrameTransition} (warm : Bool) (h : chargeTarget ctx f semantics o s = .ok (r, s')) :
    Fails ctx f s r s' ∨ ∃ c delegate base p pools kernel,
      (∃ delegate targetEmpty, c = callRequest semantics o warm delegate targetEmpty) ∧
      Looks ctx.kernel s.kernel kernel ∧
      targetCharges ctx.amsterdam s.toGasPools c = .ok (some p) ∧
      base = callGasCapWord p.gas c.gasRequest ∧ spend p base = some pools ∧
      enterCall ctx f semantics o delegate (callChargesNewAccount ctx.amsterdam c) base
        { s with toGasPools := pools, kernel := kernel } = .ok (r, s') := by
  obtain ⟨⟨⟩, s₁, hmark, h⟩ := bind_apply_eq_ok.mp h
  obtain ⟨delegate, s₂, hdelegate, h⟩ := bind_apply_eq_ok.mp h
  obtain ⟨delegateCost, s₃, hcost, h⟩ := bind_apply_eq_ok.mp h
  obtain ⟨targetEmpty, s₄, hempty, h⟩ := bind_apply_eq_ok.mp h
  obtain ⟨hpeeked, delegateWarm, rfl⟩ := delegationCost_cases hcost
  have hpeeks : Peeked ctx s s₄ :=
    IsTrans.trans _ _ _ (peeks_syscall _ s _ s₁ hmark) (IsTrans.trans _ _ _
      (peeks_syscall _ s₁ _ s₂ hdelegate)
      (IsTrans.trans _ _ _ hpeeked (peeks_syscall _ s₃ _ s₄ hempty)))
  have hdraws : Draws ctx f s s₄ := .single hpeeks.draw
  obtain ⟨kernel, hlooks, rfl⟩ := hpeeks
  rcases charge_cases h with hfails | ⟨p₁, hp₁, hdraw₁, h⟩
  · exact .inl (hfails.after hdraws)
  rcases chargeNewAccount_cases h with hfails | ⟨p₂, hp₂, hdraws₂, h⟩
  · exact .inl (hfails.after (hdraws.tail hdraw₁))
  rcases charge_cases h with hfails | ⟨pools, hpools, -, h⟩
  · exact .inl (hfails.after ((hdraws.tail hdraw₁).trans hdraws₂))
  refine .inr ⟨callRequest semantics o warm delegateWarm targetEmpty, delegate, _, p₂, pools,
    kernel, ⟨_, _, rfl⟩, hlooks, ?_, rfl, hpools, ?_⟩
  · rw [createCost_callRequest] at hp₁
    rw [callChargesNewAccount_callRequest _ _ _ warm delegateWarm] at hp₂
    exact (targetCharges_eq hp₁).trans hp₂
  · rw [callChargesNewAccount_callRequest _ _ _ warm delegateWarm] at h
    exact h

/-- What a call has done that is about to be entered. -/
structure CallPaid (ctx : Context) (f : Frame) (kind : CallKind) (s : MachineState)
    (o : CallOperands) (c : EvmSail.CallOperands) (base : Nat) (pools : GasPools)
    (kernel : Host) : Prop where
  enough : callStackInputs kind ≤ s.sp
  room : s.sp < stackLimit + callStackInputs kind
  value : (callSemantics kind).takesValue = false → o.value = 0
  args : o.args = (callRequested kind s).args
  ret : o.ret = (callRequested kind s).ret
  static : (callSemantics kind).transfersValue = true → o.value ≠ 0 → f.message.isStatic = false
  request : ∃ warm delegate targetEmpty,
    c = callRequest (callSemantics kind) o warm delegate targetEmpty
  charges : ∃ p, callCharges ctx.amsterdam (gasFrame f .running s) c = .ok (some p) ∧
    base = callGasCapWord p.gas c.gasRequest ∧ spend p base = some pools
  looks : Looks ctx.kernel s.kernel kernel

/-- A call fails, or is about to be entered. -/
theorem runCall_cases {kind : CallKind} {s s' : MachineState} {r : FrameTransition}
    (h : runCall ctx f kind s = .ok (r, s')) :
    Fails ctx f s r s' ∨ ∃ o c delegate base pools kernel,
      CallPaid ctx f kind s o c base pools kernel ∧
      enterCall ctx f (callSemantics kind) o delegate (callChargesNewAccount ctx.amsterdam c) base
        { s with sp := s.sp - callStackInputs kind, toGasPools := pools, kernel := kernel } =
          .ok (r, s') := by
  rcases behind_guardStack_cases h with hfails | ⟨hinputs, houtputs, h⟩
  · exact .inl hfails
  obtain ⟨o, s₁, hpops, h⟩ := bind_apply_eq_ok.mp h
  obtain ⟨rfl, hvalue, hargs, hret⟩ := popCallOperands_state hpops
  have hdraws := @draws_pops ctx f _ s hinputs
  by_cases hwrites : (callSemantics kind).transfersValue ∧ o.value ≠ 0 ∧ f.message.isStatic
  · rw [if_pos hwrites] at h
    exact .inl ((failEmpty_fails h).after hdraws)
  rw [if_neg hwrites] at h
  obtain ⟨warm, s₂, hwarm, h⟩ := bind_apply_eq_ok.mp h
  have hpeeked : Peeked ctx _ s₂ := peeks_syscall _ _ _ _ hwarm
  have hdraws₁ := hdraws.tail hpeeked.draw
  obtain ⟨kernel, hlooks, rfl⟩ := hpeeked
  rcases chargeExpansion_cases h with hfails | ⟨p₁, hp₁, hdraw₂, h⟩
  · exact .inl (hfails.after hdraws₁)
  rcases charge_cases h with hfails | ⟨p₂, hp₂, hdraw₃, h⟩
  · exact .inl (hfails.after (hdraws₁.tail hdraw₂))
  rcases chargeTarget_cases warm h with hfails | ⟨c, delegate, base, p, pools, kernel',
    ⟨delegateWarm, targetEmpty, rfl⟩, hlooks', hcharges, hbase, hpools, h⟩
  · exact .inl (hfails.after ((hdraws₁.tail hdraw₂).tail hdraw₃))
  refine .inr ⟨o, _, delegate, base, pools, kernel', ?_, h⟩
  refine ⟨hinputs, by omega, hvalue, hargs, hret, ?_, ⟨warm, delegateWarm, targetEmpty, rfl⟩,
    ⟨p, ?_, hbase, hpools⟩, IsTrans.trans _ _ _ hlooks hlooks'⟩
  · intro htransfers hne
    exact Bool.eq_false_iff.mpr fun hstatic => hwrites ⟨htransfers, hne, hstatic⟩
  · rw [callBaseCost_callRequest] at hp₂
    exact (callCharges_eq hp₁ hp₂).trans hcharges

/-! ## What a call comes to -/

/-- Memory is established once it has been paid for. -/
theorem reachBoth_cases {a b : Operand} {accesses : MemoryAccess × MemoryAccess}
    {s s' : MachineState} (h : reachBoth ctx f a b s = .ok (accesses, s')) :
    ∃ height, materialize ctx.memoryCapacity f.memoryBase s.memoryHeight a b =
        .ok (height, accesses.1, accesses.2) ∧ s' = s.grown f s.toGasPools height := by
  obtain ⟨first, s₂, hlift₁, h₁⟩ := bind_apply_eq_ok.mp h
  obtain ⟨second, s₃, hlift₂, h₂⟩ := bind_apply_eq_ok.mp h₁
  obtain ⟨⟨⟩, s₄, hgrow, hpure⟩ := bind_apply_eq_ok.mp h₂
  obtain ⟨hfirst, rfl⟩ := liftM_apply_eq_ok.mp hlift₁
  obtain ⟨hsecond, rfl⟩ := liftM_apply_eq_ok.mp hlift₂
  obtain ⟨height, hheight, hgrown⟩ := bind_eq_ok.mp hgrow
  cases hgrown
  cases hpure
  refine ⟨height, ?_, rfl⟩
  rw [materialize, hfirst, ok_bind, hsecond, ok_bind]
  exact bind_eq_ok.mpr ⟨height, hheight, rfl⟩

/-- What a transfer does to the host: nothing, unless there is one. -/
def Transfers (ctx : Context) (f : Frame) (semantics : CallSemantics) (o : CallOperands)
    (h h' : Host) : Prop :=
  if semantics.transfersValue ∧ o.value ≠ 0 then
    (kTransfer ctx.kernel f.message.address o.target o.value).run h = .ok ((), h')
  else h' = h

theorem Transfers.evolves {semantics : CallSemantics} {o : CallOperands} {h h' : Host}
    (htransfers : Transfers ctx f semantics o h h') : Evolves ctx.kernel h h' := by
  rw [Transfers] at htransfers
  split at htransfers
  · exact Evolving.evolves _ _ _ htransfers
  · obtain rfl := htransfers
    exact Std.Refl.refl h'

theorem Transfers.warm {semantics : CallSemantics} {o : CallOperands} {h h' : Host}
    (htransfers : Transfers ctx f semantics o h h') : h'.state.warm = h.state.warm := by
  rw [Transfers] at htransfers
  split at htransfers
  · exact Tepid.warm _ _ _ htransfers
  · rw [htransfers]

theorem transferValue_cases {semantics : CallSemantics} {o : CallOperands} {s s' : MachineState}
    {u : Unit} (h : transferValue ctx f semantics o s = .ok (u, s')) :
    ∃ kernel, Transfers ctx f semantics o s.kernel kernel ∧
      s' = { s with kernel := kernel } := by
  by_cases htransfers : semantics.transfersValue ∧ o.value ≠ 0
  · rw [transferValue, if_pos htransfers] at h
    obtain ⟨⟨⟨⟩, kernel⟩, hrun, h⟩ := bind_eq_ok.mp h
    cases h
    exact ⟨kernel, (if_pos htransfers).mpr hrun, rfl⟩
  · rw [transferValue, if_neg htransfers] at h
    cases h
    exact ⟨s.kernel, (if_neg htransfers).mpr rfl, rfl⟩

/-- The caller has the value of the call. -/
def Covers (ctx : Context) (f : Frame) (semantics : CallSemantics) (o : CallOperands)
    (h : Host) : Prop :=
  semantics.takesValue = true → o.value ≠ 0 →
    o.value.toNat ≤ balanceReading ctx.kernel h.state f.message.address

theorem Covers.looks {semantics : CallSemantics} {o : CallOperands} {h h' : Host}
    (hcovers : Covers ctx f semantics o h) (hlooks : Looks ctx.kernel h h') :
    Covers ctx f semantics o h' := by
  rw [Covers, balanceReading_congr (hlooks.readings.account f.message.address)]
  exact hcovers

theorem insufficientBalance_covers {semantics : CallSemantics} {o : CallOperands}
    {s s' : MachineState} (h : insufficientBalance ctx f semantics o s = .ok (false, s')) :
    Covers ctx f semantics o s'.kernel := by
  intro htakes hvalue
  rw [insufficientBalance, if_pos ⟨htakes, hvalue⟩] at h
  obtain ⟨balance, s₁, hbalance, h⟩ := bind_apply_eq_ok.mp h
  have hless := congrArg Prod.fst (Except.ok.inj h)
  obtain rfl : s₁ = s' := congrArg Prod.snd (Except.ok.inj h)
  rw [kGetBalance_reading hbalance]
  exact Nat.le_of_not_lt (of_decide_eq_false hless)

/-- The ends of a call whose memory is established.  `s` is its state
then. -/
inductive CallEnds (ctx : Context) (f : Frame) (semantics : CallSemantics) (o : CallOperands)
    (ret : MemoryAccess) (charged : Bool) (childGas : Nat) (s : MachineState) :
    FrameTransition → MachineState → Prop
  /-- It is too deep, or its value is not covered. -/
  | refused (gas : Nat) (pools : GasPools) (hgas : refundGas s.gas childGas = .ok gas)
      (hcredit : creditNewAccount { s.toGasPools with gas := gas } charged = .ok pools) :
      CallEnds ctx f semantics o ret charged childGas s (.stays emptySlice)
        ({ s with toGasPools := pools, sp := s.sp + 1 }.setOperand s.sp 0)
  /-- The precompile has failed, or is too dear. -/
  | precompileFailed (pools : GasPools) (hdepth : f.message.depth ≠ callDepthLimit)
      (hcredit : creditNewAccount s.toGasPools charged = .ok pools) :
      CallEnds ctx f semantics o ret charged childGas s (.stays emptySlice)
        ({ s with toGasPools := pools, sp := s.sp + 1 }.setOperand s.sp 0)
  | precompileRan (cost gas destination : Nat) (output bytes : List Byte) (kernel : Host)
      (hdepth : f.message.depth ≠ callDepthLimit) (hcost : cost ≤ childGas)
      (hgas : refundGas s.gas (gasSub childGas cost) = .ok gas)
      (hcovers : Covers ctx f semantics o s.kernel)
      (htransfers : Transfers ctx f semantics o s.kernel kernel)
      (hdestination : memoryAbsolute f.memoryBase ret.off = .ok destination)
      (hcopy : EvmSail.returndataCopyPrefix ctx.memoryCapacity output.length destination ret.len =
        .ok ())
      (hbytes : bytes.length = min ret.len output.length) :
      CallEnds ctx f semantics o ret charged childGas s
        (.stays { off := 0, len := output.length })
        ({ s.withBytes destination bytes with
          gas := gas, kernel := kernel, output := output, sp := s.sp + 1 }.setOperand s.sp 1)
  | entered (childMemoryBase : Nat) (bytes : Slice) (code : Kernel.Code) (kernel : Host)
      (hdepth : f.message.depth ≠ callDepthLimit)
      (hbase : memoryAbsolute f.memoryBase s.memoryHeight = .ok childMemoryBase)
      (hbytes : bytes = emptySlice ∨ f.memoryBase ≤ bytes.off ∧
        bytes.off + bytes.len ≤ childMemoryBase)
      (hcode : Coherent ctx.kernel s.kernel.state → Analyzed ctx.kernel code)
      (hcovers : Covers ctx f semantics o s.kernel)
      (htransfers : Transfers ctx f semantics o (s.kernel.record .checkpointed) kernel) :
      CallEnds ctx f semantics o ret charged childGas s
        (.enters (.resumeCall (frameCheckpoint f s) ret.off ret.len charged)
          { message := childMessage f semantics o s.stateGas
            memoryBase := childMemoryBase
            code := code
            calldata := .memoryCalldata bytes
            returndata := emptySlice })
        { s with
          gas := childGas
          stateSpill := 0
          pc := 0
          refund := 0
          sp := 0
          memoryHeight := 0
          row := if s.row + 1 < operandRows then s.row + 1 else s.row
          kernel := kernel }

theorem refuse_cases {charged : Bool} {s s' : MachineState} {r : FrameTransition}
    (h : refuse charged s = .ok (r, s')) :
    ∃ pools, creditNewAccount s.toGasPools charged = .ok pools ∧ r = .stays emptySlice ∧
      s' = { s with toGasPools := pools, sp := s.sp + 1 }.setOperand s.sp 0 := by
  obtain ⟨⟨⟩, s₁, hcredit, h⟩ := bind_apply_eq_ok.mp h
  cases h
  cases charged with
  | false =>
    cases hcredit
    exact ⟨s.toGasPools, rfl, rfl, rfl⟩
  | true =>
    obtain ⟨pools, hpools, hcredit⟩ := bind_eq_ok.mp hcredit
    cases hcredit
    exact ⟨pools, hpools, rfl, rfl⟩

/-- At most `want` bytes are copied. -/
theorem returndataCopyPrefix_cases {returndata : OutputSlice} {dst want : Nat}
    {s s' : MachineState} {u : Unit}
    (h : returndataCopyPrefix ctx returndata dst want s = .ok (u, s')) :
    EvmSail.returndataCopyPrefix ctx.memoryCapacity returndata.len dst want = .ok () ∧
      ∃ bytes, bytes.length = min want returndata.len ∧ s' = s.withBytes dst bytes := by
  obtain ⟨⟨⟩, s₁, hregion, h⟩ := bind_apply_eq_ok.mp h
  cases h
  have hlen : (if want < returndata.len then want else returndata.len) =
      min want returndata.len := by
    split <;> omega
  rw [hlen] at hregion
  simp only [EvmSail.returndataCopyPrefix, hlen]
  rw [memoryRegion] at hregion
  split at hregion
  · next hzero =>
    cases hregion
    exact ⟨if_pos hzero, _, length_paddedRange _ _ _, rfl⟩
  · next hpos =>
    obtain ⟨habsolute, rfl⟩ := liftM_apply_eq_ok.mp hregion
    exact ⟨(if_neg hpos).trans habsolute, _, length_paddedRange _ _ _, rfl⟩

theorem finishPrecompile_cases {semantics : CallSemantics} {o : CallOperands}
    {ret : MemoryAccess} {charged : Bool} {cost childGas : Nat} {output : List Byte}
    {s s' : MachineState} {r : FrameTransition} (hdepth : f.message.depth ≠ callDepthLimit)
    (hcost : cost ≤ childGas) (hcovers : Covers ctx f semantics o s.kernel)
    (h : finishPrecompile ctx f semantics o ret (gasSub childGas cost) output s = .ok (r, s')) :
    CallEnds ctx f semantics o ret charged childGas s r s' := by
  obtain ⟨⟨⟩, s₁, hmodify, h₁⟩ := bind_apply_eq_ok.mp h
  obtain ⟨⟨⟩, s₂, htransfer, h₂⟩ := bind_apply_eq_ok.mp h₁
  obtain ⟨destination, s₃, hlift, h₃⟩ := bind_apply_eq_ok.mp h₂
  obtain ⟨⟨⟩, s₄, hcopy, h₄⟩ := bind_apply_eq_ok.mp h₃
  obtain ⟨⟨⟩, s₅, hgive, h₅⟩ := bind_apply_eq_ok.mp h₄
  cases hmodify
  obtain ⟨kernel, htransfers, rfl⟩ := transferValue_cases htransfer
  obtain ⟨hdestination, rfl⟩ := liftM_apply_eq_ok.mp hlift
  obtain ⟨hregion, bytes, hbytes, rfl⟩ := returndataCopyPrefix_cases hcopy
  obtain ⟨gas, hgas, hgiven⟩ := bind_eq_ok.mp hgive
  cases hgiven
  cases h₅
  exact .precompileRan cost gas destination output bytes kernel hdepth hcost hgas hcovers
    htransfers hdestination hregion hbytes

theorem activeMemoryBytes_state {access : MemoryAccess} {s s' : MachineState} {bytes : List Byte}
    (h : activeMemoryBytes ctx f access s = .ok (bytes, s')) : s' = s := by
  obtain ⟨range, s₁, hslice, h⟩ := bind_apply_eq_ok.mp h
  cases h
  exact activeMemorySlice_state hslice

theorem callPrecompile_cases {semantics : CallSemantics} {o : CallOperands}
    {args ret : MemoryAccess} {id : PrecompileId} {charged : Bool} {childGas : Nat}
    {s s' : MachineState} {r : FrameTransition} (hdepth : f.message.depth ≠ callDepthLimit)
    (hcovers : Covers ctx f semantics o s.kernel)
    (h : callPrecompile ctx f semantics o args ret id childGas charged s = .ok (r, s')) :
    CallEnds ctx f semantics o ret charged childGas s r s' := by
  obtain ⟨input, s₁, hinput, h₁⟩ := bind_apply_eq_ok.mp h
  obtain rfl := activeMemoryBytes_state hinput
  have hrefuse : refuse charged s₁ = .ok (r, s') →
      CallEnds ctx f semantics o ret charged childGas s₁ r s' := by
    intro hrefused
    obtain ⟨pools, hcredit, rfl, rfl⟩ := refuse_cases hrefused
    exact .precompileFailed pools hdepth hcredit
  by_cases haffordable :
      (precompileGas ctx.kernel.profile.fork id input childGas).affordable = true
  · rw [if_pos haffordable] at h₁
    cases hrun : ctx.runPrecompile id input with
    | none =>
      rw [hrun] at h₁
      exact hrefuse h₁
    | some output =>
      rw [hrun] at h₁
      exact finishPrecompile_cases hdepth (precompileGas_covered _ _ _ _ haffordable) hcovers h₁
  · rw [if_neg haffordable] at h₁
    exact hrefuse h₁

/-- A range of the active frame is above its base and within its height. -/
theorem activeMemorySlice_range {access : MemoryAccess} {s s' : MachineState} {data : Slice}
    (h : activeMemorySlice ctx f access s = .ok (data, s')) :
    data = emptySlice ∨
      f.memoryBase ≤ data.off ∧ data.off + data.len ≤ f.memoryBase + s.memoryHeight := by
  simp only [activeMemorySlice] at h
  split at h
  · cases h
    exact .inl rfl
  · split at h
    · next hin =>
      obtain ⟨_, -, h⟩ := bind_eq_ok.mp h
      cases h
      exact .inr ⟨Nat.le_add_right _ _, by dsimp only; omega⟩
    · cases h

theorem codeDbResolve_analyzed {env : Env} {state : State} {hash : Hash} {code : Kernel.Code}
    (hc : Coherent env state) (h : codeDbResolve state hash = .ok code) : Analyzed env code := by
  rw [codeDbResolve] at h
  split at h
  · cases h
    exact analyzed_emptyCode env
  · split at h
    · cases h
    · next hlookup =>
      split at h
      · cases h
      · cases h
        exact hc.analyzed hash code hlookup

/-- The code that is read is analysed. -/
theorem kCode_analyzed {env : Env} {a : Address} {code : Kernel.Code} {h h' : Host}
    (hc : Coherent env h'.state) (hrun : (kCode env a).run h = .ok (code, h')) :
    Analyzed env code := by
  obtain ⟨hash, h₁, -, hquery⟩ := run_bind_eq_ok.mp hrun
  obtain ⟨code', hcode, hquery⟩ := bind_eq_ok.mp hquery
  cases hquery
  exact codeDbResolve_analyzed hc hcode

theorem executableCode_cases {target : Address} {delegate : Option Address}
    {s s' : MachineState} {code : Kernel.Code}
    (h : executableCode ctx target delegate s = .ok (code, s')) :
    Peeked ctx s s' ∧ (Coherent ctx.kernel s'.kernel.state → Analyzed ctx.kernel code) := by
  have hread : ∀ a code' s₁, syscall (kCode ctx.kernel a) s = .ok (code', s₁) →
      Coherent ctx.kernel s₁.kernel.state → Analyzed ctx.kernel code' := by
    intro a code' s₁ hread hc
    obtain ⟨⟨_, kernel⟩, hrun, hrest⟩ := bind_eq_ok.mp hread
    cases hrest
    exact kCode_analyzed hc hrun
  cases delegate with
  | none => exact ⟨peeks_syscall _ s code s' h, hread target code s' h⟩
  | some delegate =>
    obtain ⟨code', s₁, hrun, h₁⟩ := bind_apply_eq_ok.mp h
    have hpeeked : Peeked ctx s s₁ := peeks_syscall _ s code' s₁ hrun
    have hanalyzed := hread delegate code' s₁ hrun
    split at h₁
    · cases h₁
      exact ⟨hpeeked, fun _ => analyzed_emptyCode ctx.kernel⟩
    · cases h₁
      exact ⟨hpeeked, hanalyzed⟩

theorem suspendFrame_cases {s s' : MachineState} {r : FrameCheckpoint × Nat}
    (h : suspendFrame f s = .ok (r, s')) :
    memoryAbsolute f.memoryBase s.memoryHeight = .ok r.2 ∧ r.1 = frameCheckpoint f s ∧
      s' = { s with
        kernel := s.kernel.record .checkpointed
        row := if s.row + 1 < operandRows then s.row + 1 else s.row
        sp := 0 } := by
  obtain ⟨⟨⟩, s₁, hjournal, h₁⟩ := bind_apply_eq_ok.mp h
  obtain ⟨s₂, s₃, hget, h₂⟩ := bind_apply_eq_ok.mp h₁
  obtain ⟨⟨⟩, s₄, hpush, h₃⟩ := bind_apply_eq_ok.mp h₂
  obtain ⟨childMemoryBase, s₅, hlift, h₄⟩ := bind_apply_eq_ok.mp h₃
  cases hjournal
  cases hget
  cases hpush
  obtain ⟨hbase, rfl⟩ := liftM_apply_eq_ok.mp hlift
  cases h₄
  exact ⟨hbase, rfl, rfl⟩

theorem callCode_cases {semantics : CallSemantics} {o : CallOperands} {args ret : MemoryAccess}
    {delegate : Option Address} {charged : Bool} {childGas : Nat} {s s' : MachineState}
    {r : FrameTransition} (hdepth : f.message.depth ≠ callDepthLimit)
    (hcovers : Covers ctx f semantics o s.kernel)
    (h : callCode ctx f semantics o args ret delegate childGas charged s = .ok (r, s')) :
    ∃ kernel, Looks ctx.kernel s.kernel kernel ∧
      CallEnds ctx f semantics o ret charged childGas { s with kernel := kernel } r s' := by
  obtain ⟨code, s₁, hcode, h₁⟩ := bind_apply_eq_ok.mp h
  obtain ⟨bytes, s₂, hslice, h₂⟩ := bind_apply_eq_ok.mp h₁
  obtain ⟨⟨checkpoint, childMemoryBase⟩, s₃, hsuspend, h₃⟩ := bind_apply_eq_ok.mp h₂
  obtain ⟨⟨⟩, s₄, htransfer, h₄⟩ := bind_apply_eq_ok.mp h₃
  obtain ⟨⟨⟩, s₅, hstart, h₅⟩ := bind_apply_eq_ok.mp h₄
  obtain ⟨hpeeked, hanalyzed⟩ := executableCode_cases hcode
  obtain ⟨kernel, hlooks, rfl⟩ := hpeeked
  obtain rfl := activeMemorySlice_state hslice
  have hbytes := activeMemorySlice_range hslice
  obtain ⟨hbase, hcheckpoint, rfl⟩ := suspendFrame_cases hsuspend
  dsimp only at hbase hcheckpoint hbytes
  subst hcheckpoint
  obtain ⟨kernel', htransfers, rfl⟩ := transferValue_cases htransfer
  cases hstart
  cases h₅
  refine ⟨kernel, hlooks,
    .entered childMemoryBase bytes code kernel' hdepth hbase ?_ hanalyzed (hcovers.looks hlooks)
      htransfers⟩
  have hadd : childMemoryBase = f.memoryBase + s.memoryHeight := memoryAbsolute_base hbase
  rw [hadd]
  exact hbytes

/-- A call whose charges are paid establishes its memory, and ends. -/
theorem enterCall_cases {semantics : CallSemantics} {o : CallOperands}
    {delegate : Option Address} {charged : Bool} {base : Nat} {s s' : MachineState}
    {r : FrameTransition}
    (h : enterCall ctx f semantics o delegate charged base s = .ok (r, s')) :
    ∃ height args ret childGas kernel,
      Looks ctx.kernel s.kernel kernel ∧
      materialize ctx.memoryCapacity f.memoryBase s.memoryHeight o.args o.ret =
        .ok (height, args, ret) ∧
      conservedGasAdd base (if o.value ≠ 0 then callStipend else 0) = .ok childGas ∧
      CallEnds ctx f semantics o ret charged childGas
        { s.grown f s.toGasPools height with kernel := kernel } r s' := by
  obtain ⟨⟨⟩, s₁, hdelegate, h₁⟩ := bind_apply_eq_ok.mp h
  obtain ⟨⟨args, ret⟩, s₂, hreach, h₂⟩ := bind_apply_eq_ok.mp h₁
  obtain ⟨childGas, s₃, hlift, h₃⟩ := bind_apply_eq_ok.mp h₂
  obtain ⟨account, s₄, hload, h₄⟩ := bind_apply_eq_ok.mp h₃
  obtain ⟨insufficient, s₅, hbalance, h₅⟩ := bind_apply_eq_ok.mp h₄
  have hpeeked₁ : Peeked ctx s s₁ := by
    cases delegate with
    | none =>
      cases hdelegate
      exact Std.Refl.refl s
    | some delegate =>
      have hpeeks : Peeks ctx (loadDelegate ctx (some delegate)) :=
        .bind (peeks_syscall _) fun _ => .bind (peeks_syscall _) fun _ =>
          .bind (peeks_syscall _) fun _ => .pure _
      exact hpeeks s _ s₁ hdelegate
  obtain ⟨kernel₁, hlooks₁, rfl⟩ := hpeeked₁
  obtain ⟨height, hheight, rfl⟩ := reachBoth_cases hreach
  obtain ⟨hchildGas, rfl⟩ := liftM_apply_eq_ok.mp hlift
  have hpeeked₂ : Peeked ctx _ s₅ :=
    IsTrans.trans _ _ _ (peeks_syscall _ _ account s₄ hload) (by
      have hpeeks : Peeks ctx (insufficientBalance ctx f semantics o) :=
        .ite (.bind (peeks_syscall _) fun _ => .pure _) (.pure _)
      exact hpeeks s₄ insufficient s₅ hbalance)
  obtain ⟨kernel₂, hlooks₂, rfl⟩ := hpeeked₂
  have hlooks : Looks ctx.kernel s.kernel kernel₂ := IsTrans.trans _ _ _ hlooks₁ hlooks₂
  by_cases hrefused : insufficient = true ∨ f.message.depth = callDepthLimit
  · rw [if_pos hrefused] at h₅
    obtain ⟨⟨⟩, s₆, hgive, h₆⟩ := bind_apply_eq_ok.mp h₅
    obtain ⟨gas, hgas, hgiven⟩ := bind_eq_ok.mp hgive
    cases hgiven
    obtain ⟨pools, hcredit, rfl, rfl⟩ := refuse_cases h₆
    exact ⟨height, args, ret, childGas, kernel₂, hlooks, hheight, hchildGas,
      .refused gas pools hgas hcredit⟩
  · rw [if_neg hrefused] at h₅
    have hdepth : f.message.depth ≠ callDepthLimit := fun hdepth => hrefused (.inr hdepth)
    obtain rfl : insufficient = false := Bool.eq_false_iff.mpr fun htrue => hrefused (.inl htrue)
    have hcovers := insufficientBalance_covers hbalance
    by_cases hid : precompileIdForAddress ctx.kernel.profile.fork o.target ≠ .notPrecompile
    · rw [if_pos hid] at h₅
      exact ⟨height, args, ret, childGas, kernel₂, hlooks, hheight, hchildGas,
        callPrecompile_cases hdepth hcovers h₅⟩
    · rw [if_neg hid] at h₅
      obtain ⟨kernel, hlooks', hends⟩ := callCode_cases hdepth hcovers h₅
      exact ⟨height, args, ret, childGas, kernel, IsTrans.trans _ _ _ hlooks hlooks', hheight,
        hchildGas, hends⟩

/-! ## Creations -/

theorem withOperand_cases {start size : Word} {k : MemoryAccess → Exec FrameTransition}
    {s s' : MachineState} {r : FrameTransition}
    (h : withOperand ctx f start size k s = .ok (r, s')) :
    Fails ctx f s r s' ∨ ∃ pools height access second,
      spendExpansion s.toGasPools s.memoryHeight
        (operandsHeight { start := start.toNat, size := size.toNat } noOperand) = some pools ∧
      materialize ctx.memoryCapacity f.memoryBase s.memoryHeight
        { start := start.toNat, size := size.toNat } noOperand = .ok (height, access, second) ∧
      Draw ctx f s (s.grown f pools height) ∧
      k access (s.grown f pools height) = .ok (r, s') := by
  rcases chargeExpansion_cases h with hfails | ⟨pools, hpools, -, h⟩
  · exact .inl hfails
  obtain ⟨access, s₁, hreach, h₁⟩ := bind_apply_eq_ok.mp h
  obtain ⟨access', s₂, hlift, h₂⟩ := bind_apply_eq_ok.mp hreach
  obtain ⟨⟨⟩, s₃, hgrow, h₃⟩ := bind_apply_eq_ok.mp h₂
  obtain ⟨haccess, rfl⟩ := liftM_apply_eq_ok.mp hlift
  obtain ⟨height, hheight, hgrown⟩ := bind_eq_ok.mp hgrow
  cases hgrown
  cases h₃
  rw [← requestedHeight_noOperand access] at hheight
  rw [← operandsHeight_noOperand ⟨start.toNat, size.toNat⟩] at hpools
  have hmaterialize : materialize ctx.memoryCapacity f.memoryBase s.memoryHeight
      { start := start.toNat, size := size.toNat } noOperand = .ok (height, access, ⟨0, 0, 0⟩) := by
    rw [materialize, haccess, ok_bind]
    exact bind_eq_ok.mpr ⟨⟨0, 0, 0⟩, rfl, bind_eq_ok.mpr ⟨height, hheight, rfl⟩⟩
  exact .inr ⟨pools, height, access, _, hpools, hmaterialize,
    .reach _ noOperand pools height access _ hpools hmaterialize, h₁⟩

/-- The creation as the gas and memory machine has it, as far as its
charges depend on it. -/
def createRequest (initcode : Operand) (initcodeCost hashingCost : Nat) : EvmSail.CreateOperands :=
  { initcode := initcode
    initcodeCost := initcodeCost
    hashingCost := hashingCost
    initcodeSizeAllowed := true
    refused := false
    targetEmpty := false
    occupied := false }

/-- What a creation has done that has paid for its initcode. -/
structure CreatePaid (ctx : Context) (f : Frame) (kind : CreateKind) (s : MachineState)
    (c : EvmSail.CreateOperands) (initcode : MemoryAccess) (pools : GasPools) (height : Nat) :
    Prop where
  enough : createStackInputs kind ≤ s.sp
  room : s.sp < stackLimit + createStackInputs kind
  static : f.message.isStatic = false
  request : ∃ initcodeCost hashingCost,
    c = createRequest (createRequested kind s).args initcodeCost hashingCost
  charges : ∃ p, spendExpansion s.toGasPools s.memoryHeight (operandsHeight c.initcode noOperand) =
      some p ∧ createCharges ctx.amsterdam p c = some pools
  reached : ∃ second, materialize ctx.memoryCapacity f.memoryBase s.memoryHeight c.initcode
    noOperand = .ok (height, initcode, second)

theorem initcodeCost_covered (words : Word) (gas : Nat) :
    (initcodeCost ctx words gas).Covered gas := by
  rw [initcodeCost]
  split
  · exact wordScaledGasCost_covered _ _ _
  · exact fun _ => Nat.zero_le _

theorem hashingCost_covered (kind : CreateKind) (words : Word) (gas : Nat) :
    (hashingCost kind words gas).Covered gas := by
  rw [hashingCost]
  split
  · exact wordScaledGasCost_covered _ _ _
  · exact fun _ => Nat.zero_le _

/-- `CREATE2` pops its salt behind the other operands. -/
def createSalt (kind : CreateKind) (s : MachineState) : Word :=
  if kind.usesSalt then s.operand 3 else 0

theorem popSalt_state {kind : CreateKind} {s s₁ s₂ s₃ s₄ : MachineState}
    {value offset length salt : Word} (hvalue : popWord s = .ok (value, s₁))
    (hoffset : popWord s₁ = .ok (offset, s₂)) (hlength : popWord s₂ = .ok (length, s₃))
    (hsalt : (if kind.usesSalt then popWord else pure 0 : Exec Word) s₃ = .ok (salt, s₄)) :
    s₄ = { s with sp := s.sp - createStackInputs kind } ∧
      (createRequested kind s).args = { start := offset.toNat, size := length.toNat } ∧
      value = s.operand 0 ∧ salt = createSalt kind s := by
  cases hvalue
  cases hoffset
  cases hlength
  cases kind with
  | createByNonce | createBySalt =>
    cases hsalt
    exact ⟨rfl, rfl, rfl, rfl⟩

/-- A creation fails, or has paid for its initcode. -/
theorem runCreate_paid {kind : CreateKind} {s s' : MachineState} {r : FrameTransition}
    (h : runCreate ctx f kind s = .ok (r, s')) :
    Fails ctx f s r s' ∨ ∃ c initcode pools height,
      CreatePaid ctx f kind s c initcode pools height ∧
      Draws ctx f s { s.grown f pools height with sp := s.sp - createStackInputs kind } ∧
      guardCreate ctx f kind (s.operand 0) (createSalt kind s) initcode
        { s.grown f pools height with sp := s.sp - createStackInputs kind } = .ok (r, s') := by
  rcases behind_guardStack_cases h with hfails | ⟨hinputs, houtputs, h⟩
  · exact .inl hfails
  obtain ⟨value, s₁, hvalue, h₁⟩ := bind_apply_eq_ok.mp h
  obtain ⟨offset, s₂, hoffset, h₂⟩ := bind_apply_eq_ok.mp h₁
  obtain ⟨length, s₃, hlength, h₃⟩ := bind_apply_eq_ok.mp h₂
  obtain ⟨salt, s₄, hsalt, h₄⟩ := bind_apply_eq_ok.mp h₃
  obtain ⟨rfl, hargs, rfl, rfl⟩ := popSalt_state hvalue hoffset hlength hsalt
  have hdraws := @draws_pops ctx f _ s hinputs
  by_cases hstatic : f.message.isStatic = true
  · rw [if_pos hstatic] at h₄
    exact .inl ((failEmpty_fails h₄).after hdraws)
  rw [if_neg hstatic] at h₄
  rcases withOperand_cases h₄ with hfails |
    ⟨p₁, height, initcode, second, hp₁, hreached, hdraw₁, h₅⟩
  · exact .inl (hfails.after hdraws)
  rcases charge_cases h₅ with hfails | ⟨p₂, hp₂, hdraw₂, h₆⟩
  · exact .inl (hfails.after (hdraws.tail hdraw₁))
  rcases chargeAffordable_cases (initcodeCost_covered _) h₆ with hfails | ⟨p₃, hp₃, hdraw₃, h₇⟩
  · exact .inl (hfails.after ((hdraws.tail hdraw₁).tail hdraw₂))
  rcases chargeAffordable_cases (hashingCost_covered _ _) h₇ with hfails | ⟨p₄, hp₄, hdraw₄, h₈⟩
  · exact .inl (hfails.after (((hdraws.tail hdraw₁).tail hdraw₂).tail hdraw₃))
  have hdraws₄ := (((hdraws.tail hdraw₁).tail hdraw₂).tail hdraw₃).tail hdraw₄
  split at h₈
  · refine .inr ⟨
      createRequest ⟨offset.toNat, length.toNat⟩
        (initcodeCost ctx (memoryWordCountWord length) p₂.gas).cost
        (hashingCost kind (memoryWordCountWord length) p₃.gas).cost,
      initcode, p₄, height, ?_, hdraws₄, h₈⟩
    refine ⟨hinputs, by omega, Bool.eq_false_iff.mpr hstatic, ⟨_, _, by rw [hargs]⟩,
      ⟨p₁, hp₁, ?_⟩, ⟨second, hreached⟩⟩
    exact Option.bind_eq_some_iff.mpr ⟨p₂, hp₂, Option.bind_eq_some_iff.mpr ⟨p₃, hp₃,
      Option.bind_eq_some_iff.mpr ⟨p₄, hp₄, rfl⟩⟩⟩
  · exact .inl ((failEmpty_fails h₈).after hdraws₄)

theorem runCreate_cases {kind : CreateKind} {s s' : MachineState} {r : FrameTransition}
    (h : runCreate ctx f kind s = .ok (r, s')) :
    Fails ctx f s r s' ∨ ∃ value salt c initcode pools height,
      CreatePaid ctx f kind s c initcode pools height ∧
      Draws ctx f s { s.grown f pools height with sp := s.sp - createStackInputs kind } ∧
      guardCreate ctx f kind value salt initcode
        { s.grown f pools height with sp := s.sp - createStackInputs kind } = .ok (r, s') := by
  rcases runCreate_paid h with hfails | ⟨c, initcode, pools, height, hpaid, hdraws, hguard⟩
  · exact .inl hfails
  · exact .inr ⟨_, _, c, initcode, pools, height, hpaid, hdraws, hguard⟩

/-- What a creator does before the checkpoint: it looks, counts its nonce
up, and has the initcode stored. -/
def Counted (ctx : Context) (f : Frame) (h h' : Host) : Prop :=
  ∃ h₁ h₂, Looks ctx.kernel h h₁ ∧
    (kBumpNonce ctx.kernel f.message.address).run h₁ = .ok ((), h₂) ∧
    view ctx.kernel h'.state = view ctx.kernel h₂.state ∧ Advances ctx.kernel h₂ h'

theorem Counted.writes {h h' : Host} (hcounted : Counted ctx f h h') :
    Writes ctx.kernel f.message.address h h' := by
  obtain ⟨h₁, h₂, hlooks, hbump, hview, hadvances⟩ := hcounted
  exact ((Relation.ReflTransGen.single (.looked hlooks)).tail (.counted hbump)).tail
    (.kept hview hadvances)

theorem Counted.evolves {h h' : Host} (hcounted : Counted ctx f h h') :
    Evolves ctx.kernel h h' := by
  obtain ⟨h₁, h₂, hlooks, hbump, hview, hadvances⟩ := hcounted
  have hbumped : Evolves ctx.kernel h₁ h₂ := Evolving.evolves _ _ _ hbump
  have heffects : h'.state.effects = h₂.state.effects := congrArg View.effects hview
  have hinterned : Evolves ctx.kernel h₂ h' :=
    fun hc => ⟨hadvances hc, fun key v hv => by rwa [heffects] at hv⟩
  exact IsTrans.trans _ _ _ hlooks.evolves (IsTrans.trans _ _ _ hbumped hinterned)

/-- The ends of a creation that has paid for its initcode.  `s` is its state
then; `charged` is the charge for the account, from Amsterdam on. -/
inductive CreateEnds (ctx : Context) (f : Frame) (s : MachineState) :
    FrameTransition → MachineState → Prop
  /-- A guard has refused it: what has been lent comes back. -/
  | refused (gas : Nat) (kernel : Host) (hlooks : Looks ctx.kernel s.kernel kernel)
      (hgas : if ctx.amsterdam then gas = s.gas
        else refundGas (lendCreateGas s.toGasPools).1.gas (lendCreateGas s.toGasPools).2 =
          .ok gas) :
      CreateEnds ctx f s (.stays emptySlice)
        ({ s with gas := gas, kernel := kernel, sp := s.sp + 1 }.setOperand s.sp 0)
  /-- The new address is occupied: what was lent is gone. -/
  | occupied (targetEmpty : Bool) (p pools : GasPools) (kernel : Host)
      (hdepth : f.message.depth ≠ callDepthLimit)
      (hcharge : EvmSail.chargeNewAccount s.toGasPools (ctx.amsterdam && targetEmpty) =
        .ok (some p))
      (hcredit : creditNewAccount (lendCreateGas p).1 (ctx.amsterdam && targetEmpty) = .ok pools)
      (hcounted : Counted ctx f s.kernel kernel) :
      CreateEnds ctx f s (.stays emptySlice)
        ({ s with toGasPools := pools, kernel := kernel, sp := s.sp + 1 }.setOperand s.sp 0)
  | entered (targetEmpty : Bool) (p : GasPools) (childMemoryBase : Nat) (value : Word)
      (new : Address) (code : Kernel.Code) (kernel middle kernel' : Host)
      (hdepth : f.message.depth ≠ callDepthLimit)
      (hcharge : EvmSail.chargeNewAccount s.toGasPools (ctx.amsterdam && targetEmpty) =
        .ok (some p))
      (hbase : memoryAbsolute f.memoryBase s.memoryHeight = .ok childMemoryBase)
      (hcounted : Counted ctx f s.kernel kernel)
      (hcode : Coherent ctx.kernel kernel.state → Analyzed ctx.kernel code)
      (hprepared : Writes ctx.kernel new (kernel.record .checkpointed) middle)
      (htransferred : Writes ctx.kernel f.message.address middle kernel')
      (hevolves : Evolves ctx.kernel (kernel.record .checkpointed) kernel')
      (hwarm : kernel'.state.warm = kernel.state.warm) :
      CreateEnds ctx f s
        (.enters
          (.resumeCreate
            (frameCheckpoint f
              { s with toGasPools := (lendCreateGas p).1, kernel := kernel })
            new (ctx.amsterdam && targetEmpty))
          { message :=
              { caller := f.message.address
                codeAddress := new
                address := new
                value := value
                stateGasReservoir := p.stateGas
                isStatic := f.message.isStatic
                depth := f.message.depth + 1 }
            memoryBase := childMemoryBase
            code := code
            calldata := emptyCalldata
            returndata := emptySlice })
        { s with
          gas := (lendCreateGas p).2
          stateGas := p.stateGas
          stateSpill := 0
          pc := 0
          refund := 0
          sp := 0
          memoryHeight := 0
          row := if s.row + 1 < operandRows then s.row + 1 else s.row
          kernel := kernel' }

/-- A kernel program that changes the host and no more. -/
theorem syscall_cases {R : Host → Host → Prop} {α : Type} {x : Kept R Halt α}
    {s s' : MachineState} {a : α} (h : syscall x s = .ok (a, s')) :
    ∃ kernel, x.run s.kernel = .ok (a, kernel) ∧ s' = { s with kernel := kernel } := by
  obtain ⟨⟨a, kernel⟩, hrun, h⟩ := bind_eq_ok.mp h
  cases h
  exact ⟨kernel, hrun, rfl⟩

/-- The new account is written to, and then paid. -/
theorem prepareAccount_cases {new : Address} {value : Word} {s s' : MachineState} {u : Unit}
    (hcovered : value.toNat ≤ balanceReading ctx.kernel s.kernel.state f.message.address)
    (h : prepareAccount ctx f new value s = .ok (u, s')) :
    ∃ middle kernel, Writes ctx.kernel new s.kernel middle ∧
      Writes ctx.kernel f.message.address middle kernel ∧ Evolves ctx.kernel s.kernel kernel ∧
      kernel.state.warm = s.kernel.state.warm ∧ s' = { s with kernel := kernel } := by
  obtain ⟨⟨⟩, s₁, hcreated, h₁⟩ := bind_apply_eq_ok.mp h
  obtain ⟨⟨⟩, s₂, hclear, h₂⟩ := bind_apply_eq_ok.mp h₁
  obtain ⟨⟨⟩, s₃, hbump, h₃⟩ := bind_apply_eq_ok.mp h₂
  obtain ⟨kernel₁, hrun₁, rfl⟩ := syscall_cases hcreated
  obtain ⟨kernel₂, hrun₂, rfl⟩ := syscall_cases hclear
  obtain ⟨kernel₃, hrun₃, rfl⟩ := syscall_cases hbump
  obtain ⟨kernel₄, hrun₄, rfl⟩ := syscall_cases h₃
  have hbalance : balanceReading ctx.kernel kernel₃.state f.message.address =
      balanceReading ctx.kernel s.kernel.state f.message.address := by
    rw [kBumpNonce_sameBalances hrun₃, kClearStorage_sameBalances hrun₂,
      kMarkCreated_sameBalances hrun₁]
  have hprepared : Writes ctx.kernel new s.kernel kernel₃ :=
    ((Relation.ReflTransGen.single (.created hrun₁)).tail (.cleared hrun₂)).tail (.counted hrun₃)
  have hevolves₁ : Evolves ctx.kernel s.kernel kernel₁ := Evolving.evolves _ _ _ hrun₁
  have hevolves₂ : Evolves ctx.kernel kernel₁ kernel₂ := Evolving.evolves _ _ _ hrun₂
  have hevolves₃ : Evolves ctx.kernel kernel₂ kernel₃ := Evolving.evolves _ _ _ hrun₃
  have hevolves₄ : Evolves ctx.kernel kernel₃ kernel₄ := Evolving.evolves _ _ _ hrun₄
  have hwarm : kernel₄.state.warm = s.kernel.state.warm := by
    rw [Tepid.warm _ _ _ hrun₄, Tepid.warm _ _ _ hrun₃, Tepid.warm _ _ _ hrun₂,
      Tepid.warm _ _ _ hrun₁]
  exact ⟨kernel₃, kernel₄, hprepared, .single (.transferred new value (by omega) hrun₄),
    IsTrans.trans _ _ _ hevolves₁ (IsTrans.trans _ _ _ hevolves₂
      (IsTrans.trans _ _ _ hevolves₃ hevolves₄)), hwarm, rfl⟩

theorem createCode_cases {targetEmpty : Bool} {value : Word} {initcode : MemoryAccess}
    {new : Address} {p : GasPools} {s : MachineState} {kernel : Host} {s' : MachineState}
    {r : FrameTransition} (hdepth : f.message.depth ≠ callDepthLimit)
    (hcharge : EvmSail.chargeNewAccount s.toGasPools (ctx.amsterdam && targetEmpty) = .ok (some p))
    (hcounted : ∀ kernel', view ctx.kernel kernel'.state = view ctx.kernel kernel.state →
      Advances ctx.kernel kernel kernel' → Counted ctx f s.kernel kernel')
    (hcovered : value.toNat ≤ balanceReading ctx.kernel kernel.state f.message.address)
    (h : createCode ctx f value initcode new (lendCreateGas p).2 (ctx.amsterdam && targetEmpty)
      { s with toGasPools := (lendCreateGas p).1, kernel := kernel } = .ok (r, s')) :
    CreateEnds ctx f s r s' := by
  obtain ⟨bytes, s₁, hbytes, h₁⟩ := bind_apply_eq_ok.mp h
  obtain ⟨bytes', s₂, hvalidated, h₂⟩ := bind_apply_eq_ok.mp h₁
  obtain ⟨hash, s₃, hintern, h₃⟩ := bind_apply_eq_ok.mp h₂
  obtain ⟨s₄, s₅, hget, h₄⟩ := bind_apply_eq_ok.mp h₃
  obtain ⟨code, s₆, hresolve, h₅⟩ := bind_apply_eq_ok.mp h₄
  obtain ⟨⟨checkpoint, childMemoryBase⟩, s₇, hsuspend, h₆⟩ := bind_apply_eq_ok.mp h₅
  obtain ⟨⟨⟩, s₈, hprepare, h₇⟩ := bind_apply_eq_ok.mp h₆
  obtain ⟨⟨⟩, s₉, hstart, h₈⟩ := bind_apply_eq_ok.mp h₇
  obtain rfl := activeMemoryBytes_state hbytes
  obtain ⟨-, rfl⟩ := liftM_apply_eq_ok.mp hvalidated
  obtain ⟨kernel₁, hrun, rfl⟩ := syscall_cases hintern
  have hadvances₁ : Advances ctx.kernel kernel kernel₁ := (Evolving.evolves _ _ _ hrun).advances
  cases hget
  obtain ⟨hcode, rfl⟩ := liftM_apply_eq_ok.mp hresolve
  obtain ⟨hbase, hcheckpoint, rfl⟩ := suspendFrame_cases hsuspend
  dsimp only at hbase hcheckpoint
  subst hcheckpoint
  have hview := (codeDbInsert_ok hrun).1
  have hbalance : balanceReading ctx.kernel kernel₁.state f.message.address =
      balanceReading ctx.kernel kernel.state f.message.address :=
    balanceReading_congr (by rw [hview])
  obtain ⟨middle, kernel₂, hprepared, htransferred, hevolves, hwarm, rfl⟩ :=
    prepareAccount_cases (hcovered.trans hbalance.ge) hprepare
  cases hstart
  cases h₈
  exact .entered targetEmpty p childMemoryBase value new code kernel₁ middle kernel₂ hdepth hcharge
    hbase (hcounted kernel₁ hview hadvances₁) (fun hc => codeDbResolve_analyzed hc hcode) hprepared
    htransferred hevolves hwarm

theorem createAccount_cases {targetEmpty : Bool} {value : Word} {initcode : MemoryAccess}
    {new : Address} {p : GasPools} {s : MachineState} {kernel : Host} {s' : MachineState}
    {r : FrameTransition} (hdepth : f.message.depth ≠ callDepthLimit)
    (hcharge : EvmSail.chargeNewAccount s.toGasPools (ctx.amsterdam && targetEmpty) = .ok (some p))
    (hlooks : Looks ctx.kernel s.kernel kernel)
    (hcovered : value.toNat ≤ balanceReading ctx.kernel kernel.state f.message.address)
    (h : createAccount ctx f value initcode new (lendCreateGas p).2 (ctx.amsterdam && targetEmpty)
      { s with toGasPools := (lendCreateGas p).1, kernel := kernel } = .ok (r, s')) :
    CreateEnds ctx f s r s' := by
  obtain ⟨occupied, s₁, hoccupied, h₁⟩ := bind_apply_eq_ok.mp h
  obtain ⟨⟨⟩, s₂, hbump, h₂⟩ := bind_apply_eq_ok.mp h₁
  have hpeeked : Peeked ctx _ s₁ := peeks_syscall _ _ occupied s₁ hoccupied
  obtain ⟨kernel₁, hlooks₁, rfl⟩ := hpeeked
  obtain ⟨kernel₂, hrun, rfl⟩ := syscall_cases hbump
  have hbalance : balanceReading ctx.kernel kernel₂.state f.message.address =
      balanceReading ctx.kernel kernel.state f.message.address := by
    rw [kBumpNonce_sameBalances hrun]
    exact balanceReading_congr (hlooks₁.readings.account f.message.address)
  have hcounted : ∀ kernel', view ctx.kernel kernel'.state = view ctx.kernel kernel₂.state →
      Advances ctx.kernel kernel₂ kernel' → Counted ctx f s.kernel kernel' :=
    fun kernel' hview hadvances =>
      ⟨kernel₁, kernel₂, IsTrans.trans _ _ _ hlooks hlooks₁, hrun, hview, hadvances⟩
  cases occupied with
  | true =>
    obtain ⟨pools, hcredit, rfl, rfl⟩ := refuse_cases h₂
    exact .occupied targetEmpty p pools kernel₂ hdepth hcharge hcredit
      (hcounted kernel₂ rfl (Std.Refl.refl kernel₂))
  | false => exact createCode_cases hdepth hcharge hcounted (hcovered.trans hbalance.ge) h₂

/-- A creation whose guards have let it pass. -/
theorem enterCreate_cases {value : Word} {initcode : MemoryAccess} {new : Address}
    {s : MachineState} {kernel : Host} {s' : MachineState} {r : FrameTransition}
    (hdepth : f.message.depth ≠ callDepthLimit) (hlooks : Looks ctx.kernel s.kernel kernel)
    (hcovered : value.toNat ≤ balanceReading ctx.kernel kernel.state f.message.address)
    (h : enterCreate ctx f value initcode new
        (if ctx.amsterdam then 0 else (lendCreateGas s.toGasPools).2)
        { s with
          gas := if ctx.amsterdam then s.gas else (lendCreateGas s.toGasPools).1.gas
          kernel := kernel } = .ok (r, s')) :
    Fails ctx f s r s' ∨ CreateEnds ctx f s r s' := by
  obtain ⟨⟨⟩, s₁, hmark, h₁⟩ := bind_apply_eq_ok.mp h
  obtain ⟨charged, s₂, hcharged, h₂⟩ := bind_apply_eq_ok.mp h₁
  have hpeeked₁ : Peeked ctx _ s₁ := peeks_syscall _ _ _ s₁ hmark
  obtain ⟨kernel₁, hlooks₁, rfl⟩ := hpeeked₁
  have hlooks₂ : Looks ctx.kernel s.kernel kernel₁ := IsTrans.trans _ _ _ hlooks hlooks₁
  have hcovered₁ : value.toNat ≤ balanceReading ctx.kernel kernel₁.state f.message.address := by
    rw [balanceReading_congr (hlooks₁.readings.account f.message.address)]
    exact hcovered
  cases hamsterdam : ctx.amsterdam with
  | false =>
    simp only [hamsterdam] at hcharged h₂
    cases hcharged
    exact .inr (@createAccount_cases ctx f false _ _ _ s.toGasPools _ _ _ _ hdepth
      (by rw [hamsterdam]; rfl) hlooks₂ hcovered₁ (by rw [hamsterdam]; exact h₂))
  | true =>
    simp only [hamsterdam] at hcharged h₂
    have hpeeked₂ : Peeked ctx _ s₂ := peeks_syscall _ _ charged s₂ hcharged
    obtain ⟨kernel₂, hlooks₃, rfl⟩ := hpeeked₂
    have hlooks₄ : Looks ctx.kernel s.kernel kernel₂ := IsTrans.trans _ _ _ hlooks₂ hlooks₃
    have hcovered₂ : value.toNat ≤ balanceReading ctx.kernel kernel₂.state f.message.address := by
      rw [balanceReading_congr (hlooks₃.readings.account f.message.address)]
      exact hcovered₁
    have hdraw : Draw ctx f s { s with kernel := kernel₂ } := .look kernel₂ hlooks₄
    rcases chargeNewAccount_cases h₂ with hfails | ⟨p, hp, -, h₃⟩
    · exact .inl (hfails.after (.single hdraw))
    · obtain ⟨childGas, s₃, hlend, h₄⟩ := bind_apply_eq_ok.mp h₃
      cases hlend
      exact .inr (@createAccount_cases ctx f charged _ _ _ p s _ _ _ hdepth
        (by rw [hamsterdam]; exact hp) hlooks₄ hcovered₂ (by rw [hamsterdam]; exact h₄))

theorem peeks_newAddress (kind : CreateKind) (nonce : Nat) (salt : Word) (initcode : MemoryAccess) :
    Peeks ctx (newAddress ctx f kind nonce salt initcode) :=
  .ite (.bind (peeks_memKeccak initcode) fun _ => .pure _) (.lift _)

/-- A creation that has paid for its initcode fails, or comes to an end. -/
theorem guardCreate_cases {kind : CreateKind} {value salt : Word} {initcode : MemoryAccess}
    {s s' : MachineState} {r : FrameTransition}
    (h : guardCreate ctx f kind value salt initcode s = .ok (r, s')) :
    Fails ctx f s r s' ∨ CreateEnds ctx f s r s' := by
  obtain ⟨nonce, s₁, hnonce, h₁⟩ := bind_apply_eq_ok.mp h
  obtain ⟨new, s₂, hnew, h₂⟩ := bind_apply_eq_ok.mp h₁
  obtain ⟨early, s₃, hearly, h₃⟩ := bind_apply_eq_ok.mp h₂
  obtain ⟨balance, s₄, hbalance, h₄⟩ := bind_apply_eq_ok.mp h₃
  have hpeeked₁ : Peeked ctx s s₂ :=
    IsTrans.trans _ _ _ (peeks_syscall _ s nonce s₁ hnonce)
      (peeks_newAddress _ _ _ _ s₁ new s₂ hnew)
  obtain ⟨kernel₁, hlooks₁, rfl⟩ := hpeeked₁
  have hlent : early = (if ctx.amsterdam then 0 else (lendCreateGas s.toGasPools).2) ∧
      s₃ = { s with
        gas := if ctx.amsterdam then s.gas else (lendCreateGas s.toGasPools).1.gas
        kernel := kernel₁ } := by
    cases hamsterdam : ctx.amsterdam with
    | false | true =>
      rw [hamsterdam] at hearly
      cases hearly
      exact ⟨rfl, rfl⟩
  obtain ⟨rfl, rfl⟩ := hlent
  have hpeeked₂ : Peeked ctx _ s₄ := peeks_syscall _ _ balance s₄ hbalance
  obtain ⟨kernel₂, hlooks₂, rfl⟩ := hpeeked₂
  have hlooks : Looks ctx.kernel s.kernel kernel₂ := IsTrans.trans _ _ _ hlooks₁ hlooks₂
  by_cases hrefused : balance < value ∨ nonce = accountNonceBound ∨
      f.message.depth = callDepthLimit
  · rw [if_pos hrefused] at h₄
    obtain ⟨⟨⟩, s₅, hgive, h₅⟩ := bind_apply_eq_ok.mp h₄
    cases h₅
    refine .inr ?_
    cases hamsterdam : ctx.amsterdam with
    | true =>
      simp only [hamsterdam] at hgive
      cases hgive
      exact .refused s.gas kernel₂ hlooks (by rw [hamsterdam]; rfl)
    | false =>
      simp only [hamsterdam] at hgive
      obtain ⟨gas, hgas, hgiven⟩ := bind_eq_ok.mp hgive
      cases hgiven
      exact .refused gas kernel₂ hlooks (by rw [hamsterdam]; exact hgas)
  · rw [if_neg hrefused] at h₄
    have hcovered : value.toNat ≤ balance.toNat :=
      Nat.le_of_not_lt fun hless => hrefused (.inl (BitVec.lt_def.mpr hless))
    rw [← kGetBalance_reading hbalance] at hcovered
    exact enterCreate_cases (fun hdepth => hrefused (.inr (.inr hdepth))) hlooks hcovered h₄

end

end EvmSail.Vm
