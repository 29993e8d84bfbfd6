/-
# `EvmSail.Vm.Steps` — what a step of the interpreter can do

Everything that is shown of runs rests on three inversions, one for each
kind of step: a frame that goes on or ends has made the moves of an opcode
or has got an answer without a child (`Stays.cases`), a frame that is
suspended has left its checkpoint and a fresh child (`Enters.entered`), and
a frame that goes on over its child takes back its registers
(`Resumes.returns`).
-/
import EvmSail.Evm.MemoryPrice
import EvmSail.Vm.HandlerMoves
import EvmSail.Vm.Interpreter

namespace EvmSail.Vm

open Fallible Kernel Kept Relation

/-! ## The host -/

section

variable (ctx : Context) (f : Frame)

/-- What a frame may do to the host, before it ends: what the journal takes
back, and in a static frame nothing that can be read. -/
structure Touches (h h' : Host) : Prop where
  advances : Advances ctx.kernel h h'
  readings : f.message.isStatic = true → SameReadings ctx.kernel h h'

instance : IsPreorder Host (Touches ctx f) where
  refl h := ⟨Std.Refl.refl h, fun _ => Std.Refl.refl h⟩
  trans _ _ _ h₁ h₂ :=
    ⟨IsTrans.trans _ _ _ h₁.advances h₂.advances,
      fun hstatic => IsTrans.trans _ _ _ (h₁.readings hstatic) (h₂.readings hstatic)⟩

variable {ctx f}

theorem touches_of_looks {h h' : Host} (hlooks : Looks ctx.kernel h h') : Touches ctx f h h' :=
  ⟨hlooks.advances, fun _ => hlooks.readings⟩

theorem touches_of_advances {h h' : Host} (hstatic : f.message.isStatic = false)
    (hadvances : Advances ctx.kernel h h') : Touches ctx f h h' :=
  ⟨hadvances, fun htrue => by rw [hstatic] at htrue; cases htrue⟩

theorem Move.touches {s s' : MachineState} (h : Move ctx f s s') :
    Touches ctx f s.kernel s'.kernel := by
  cases h with
  | quiet h => exact touches_of_looks h.behind.looks
  | write kernel hstatic hwrite => exact touches_of_advances hstatic hwrite.advances
  | sstore slot v entry cold pools refund kernel hstatic hentry hpaid hstored =>
    exact touches_of_advances hstatic hstored.advances
  | _ => exact Std.Refl.refl s.kernel

theorem Moves.touches {s s' : MachineState} (h : Moves ctx f s s') :
    Touches ctx f s.kernel s'.kernel := by
  induction h with
  | refl => exact Std.Refl.refl s.kernel
  | tail _ hmove ih => exact IsTrans.trans _ _ _ ih hmove.touches

end

/-! ## Answers -/

/-- An instruction that may enter a frame has not entered one. -/
structure Answered (ctx : Context) (f : Frame) (s s' : MachineState) : Prop where
  inside : Inside f s s'
  pc : s'.pc = s.pc
  room : s'.sp ≤ stackLimit
  touches : Touches ctx f s.kernel s'.kernel
  spent : s'.regular + 1 ≤ s.regular
  writes : Writes ctx.kernel f.message.address s.kernel s'.kernel
  evolves : Evolves ctx.kernel s.kernel s'.kernel
  refund : s'.refund = s.refund
  stateUse : s.stateUse ≤ s'.stateUse

theorem creditNewAccount_regular {p q : GasPools} {charged : Bool}
    (h : creditNewAccount p charged = .ok q) : q.regular = p.regular := by
  rw [creditNewAccount] at h
  split at h
  · exact (creditStateGasRefund_eq_ok h).regular.symm
  · cases h
    rfl

theorem chargeNewAccount_regular {p q : GasPools} {charged : Bool}
    (h : EvmSail.chargeNewAccount p charged = .ok (some q)) : q.regular = p.regular := by
  rw [EvmSail.chargeNewAccount] at h
  split at h
  · exact (spendState_eq_some h).regular
  · cases h
    rfl

section

variable {ctx : Context} {f : Frame}

/-- The gas of a call: what it keeps and what it lends, the stipend included,
is less than what it had, by the price of the memory it grows to. -/
theorem CallPaid.paid {kind : CallKind} {s : MachineState} {o : CallOperands}
    {c : EvmSail.CallOperands} {base childGas : Nat} {pools : GasPools} {kernel : Host}
    (h : CallPaid ctx f kind s o c base pools kernel)
    (hchild : conservedGasAdd base (if o.value ≠ 0 then callStipend else 0) = .ok childGas) :
    pools.regular + childGas + heightCost (max s.memoryHeight (operandsHeight o.args o.ret)) + 1 ≤
      s.regular + heightCost s.memoryHeight := by
  obtain ⟨p, hcharges, rfl, hpools⟩ := h.charges
  obtain ⟨warm, delegate, targetEmpty, rfl⟩ := h.request
  have hpaid := (@callCharges_ends 0 ctx.amsterdam _ _).of_ok hcharges p rfl
  have hlent := (spend_eq_some hpools).1
  have hstipend := stipend_le_callFee (decide (o.value ≠ 0))
  obtain rfl := conservedGasAdd_eq_ok hchild
  simp only [framePaid, gasFrame, callRequest, GasPools.spendable] at hpaid hlent hstipend
  simp only [GasPools.regular, callRequest, decide_eq_true_eq] at hlent hstipend ⊢
  omega

theorem CallPaid.regular {kind : CallKind} {s : MachineState} {o : CallOperands}
    {c : EvmSail.CallOperands} {base childGas : Nat} {pools : GasPools} {kernel : Host}
    (h : CallPaid ctx f kind s o c base pools kernel)
    (hchild : conservedGasAdd base (if o.value ≠ 0 then callStipend else 0) = .ok childGas) :
    pools.regular + childGas + 1 ≤ s.regular := by
  have hpaid := h.paid hchild
  have hheight : heightCost s.memoryHeight ≤ heightCost (max s.memoryHeight
      (operandsHeight o.args o.ret)) := heightCost_mono (Nat.le_max_left _ _)
  omega

/-- Of the state gas it uses that of the account it creates. -/
theorem CallPaid.stateUse {kind : CallKind} {s : MachineState} {o : CallOperands}
    {c : EvmSail.CallOperands} {base : Nat} {pools : GasPools} {kernel : Host}
    (h : CallPaid ctx f kind s o c base pools kernel) :
    pools.stateUse = s.stateUse + newAccountUse (callChargesNewAccount ctx.amsterdam c) := by
  obtain ⟨p, hcharges, -, hpools⟩ := h.charges
  rw [spend_stateUse hpools]
  simp only [callCharges] at hcharges
  split at hcharges
  · cases hcharges
  next p₁ hexpansion =>
  split at hcharges
  · cases hcharges
  next p₂ hspend₂ =>
  split at hcharges
  · cases hcharges
  next p₃ hspend₃ =>
  rw [chargeNewAccount_stateUse hcharges, spend_stateUse hspend₃, spend_stateUse hspend₂,
    spendExpansion_stateUse hexpansion]
  rfl

/-- The gas of a creation. -/
theorem CreatePaid.paid {kind : CreateKind} {s : MachineState} {c : EvmSail.CreateOperands}
    {initcode : MemoryAccess} {pools : GasPools} {height : Nat}
    (h : CreatePaid ctx f kind s c initcode pools height) :
    pools.regular + heightCost (max s.memoryHeight (operandsHeight c.initcode noOperand)) + 1 ≤
      s.regular + heightCost s.memoryHeight := by
  obtain ⟨p, hexpansion, hcharges⟩ := h.charges
  have hspent := (spendExpansion_some hexpansion).2
  have hpaid := createCharges_some hcharges
  simp only [GasPools.spendable] at hspent hpaid
  simp only [GasPools.regular]
  omega

theorem CreatePaid.regular {kind : CreateKind} {s : MachineState} {c : EvmSail.CreateOperands}
    {initcode : MemoryAccess} {pools : GasPools} {height : Nat}
    (h : CreatePaid ctx f kind s c initcode pools height) : pools.regular + 1 ≤ s.regular := by
  have hpaid := h.paid
  have hheight : heightCost s.memoryHeight ≤ heightCost (max s.memoryHeight
      (operandsHeight c.initcode noOperand)) := heightCost_mono (Nat.le_max_left _ _)
  omega

/-- It has used no state gas yet. -/
theorem CreatePaid.stateUse {kind : CreateKind} {s : MachineState} {c : EvmSail.CreateOperands}
    {initcode : MemoryAccess} {pools : GasPools} {height : Nat}
    (h : CreatePaid ctx f kind s c initcode pools height) : pools.stateUse = s.stateUse := by
  obtain ⟨p, hexpansion, hcharges⟩ := h.charges
  obtain ⟨p₁, hspend₁, hcharges⟩ := Option.bind_eq_some_iff.mp hcharges
  obtain ⟨p₂, hspend₂, hcharges⟩ := Option.bind_eq_some_iff.mp hcharges
  obtain ⟨p₃, hspend₃, hcharges⟩ := Option.bind_eq_some_iff.mp hcharges
  split at hcharges
  · cases hcharges
    rw [spend_stateUse hspend₃, spend_stateUse hspend₂, spend_stateUse hspend₁,
      spendExpansion_stateUse hexpansion]
  · cases hcharges

/-- What an answer needs to know of the state in front of it: `before` its
memory and its host, `least` its gas. -/
theorem Inside.answer {s s₁ : MachineState} (h : Inside f s s₁) (pools : GasPools)
    (kernel : Host) (memory : Nat → Byte) (output : List Byte) (word : Word)
    (hmemory : ∀ i, i < f.memoryBase → memory i = s₁.memory i) :
    Inside f s ({ s₁ with
      toGasPools := pools, kernel := kernel, memory := memory, output := output
      sp := s₁.sp + 1 }.setOperand s₁.sp word) :=
  ⟨h.row, fun row hrow => (Function.update_of_ne (h.row ▸ hrow) _ _).trans (h.others row hrow),
    fun i hi => (hmemory i hi).trans (h.below i hi)⟩

/-- A transfer is for a frame that may write. -/
theorem Transfers.touches {semantics : CallSemantics} {o : CallOperands} {h h' : Host}
    (htransfers : Transfers ctx f semantics o h h')
    (hstatic : semantics.transfersValue = true → o.value ≠ 0 → f.message.isStatic = false) :
    Touches ctx f h h' := by
  refine ⟨htransfers.evolves.advances, fun htrue => ?_⟩
  have hno : ¬ (semantics.transfersValue ∧ o.value ≠ 0) := by
    rintro ⟨hsemantics, hvalue⟩
    rw [hstatic hsemantics hvalue] at htrue
    cases htrue
  obtain rfl := (if_neg hno).mp htransfers
  exact Std.Refl.refl h'

/-- It sends what the caller has. -/
theorem Transfers.writes {kind : CallKind} {o : CallOperands} {h h' : Host}
    (htransfers : Transfers ctx f (callSemantics kind) o h h')
    (hcovers : Covers ctx f (callSemantics kind) o h) :
    Writes ctx.kernel f.message.address h h' := by
  by_cases hvalue : (callSemantics kind).transfersValue ∧ o.value ≠ 0
  · have htakes : (callSemantics kind).takesValue = true := by
      cases kind with
      | call => rfl
      | callCode | delegateCall | staticCall => cases hvalue.1
    exact .single (.transferred o.target o.value (hcovers htakes hvalue.2)
      ((if_pos hvalue).mp htransfers))
  · obtain rfl := (if_neg hvalue).mp htransfers
    exact .refl

theorem CallEnds.answered {kind : CallKind} {s s₁ s' : MachineState} {o : CallOperands}
    {ret : MemoryAccess} {charged : Bool} {childGas : Nat} {returndata : OutputSlice}
    (h : CallEnds ctx f (callSemantics kind) o ret charged childGas s₁ (.stays returndata) s')
    (hinside : Inside f s s₁) (hpc : s₁.pc = s.pc) (hroom : s₁.sp < stackLimit)
    (hlooks : Looks ctx.kernel s.kernel s₁.kernel)
    (hstatic : (callSemantics kind).transfersValue = true → o.value ≠ 0 →
      f.message.isStatic = false)
    (hspent : s₁.regular + childGas + 1 ≤ s.regular) (hrefund : s₁.refund = s.refund)
    (huse : s₁.stateUse = s.stateUse + newAccountUse charged) :
    Answered ctx f s s' := by
  have htouches : Touches ctx f s.kernel s₁.kernel := touches_of_looks hlooks
  have hlooked : Writes ctx.kernel f.message.address s.kernel s₁.kernel := .single (.looked hlooks)
  cases h with
  | refused gas pools hgas hcredit =>
    have hback := creditNewAccount_stateUse hcredit
    obtain rfl := conservedGasAdd_eq_ok hgas
    refine ⟨hinside.answer _ _ _ _ _ fun _ _ => rfl, hpc, hroom, htouches, ?_, hlooked,
      hlooks.evolves, hrefund, Int.le_of_eq (add_right_cancel (huse.symm.trans hback.symm))⟩
    show pools.regular + 1 ≤ _
    rw [creditNewAccount_regular hcredit]
    simp only [GasPools.regular] at hspent ⊢
    omega
  | precompileFailed pools hdepth hcredit =>
    have hback := creditNewAccount_stateUse hcredit
    refine ⟨hinside.answer _ _ _ _ _ fun _ _ => rfl, hpc, hroom, htouches, ?_, hlooked,
      hlooks.evolves, hrefund, Int.le_of_eq (add_right_cancel (huse.symm.trans hback.symm))⟩
    show pools.regular + 1 ≤ _
    rw [creditNewAccount_regular hcredit]
    omega
  | precompileRan cost gas destination output bytes kernel hdepth hcost hgas hcovers
      htransfers hdestination hcopy hbytes =>
    obtain rfl := memoryAbsolute_base hdestination
    obtain rfl := conservedGasAdd_eq_ok hgas
    refine ⟨hinside.answer _ _ _ _ _ fun i hi => withBytes_below s₁ _ bytes (by omega), hpc, hroom,
      IsTrans.trans _ _ _ htouches (htransfers.touches hstatic), ?_,
      hlooked.trans (htransfers.writes hcovers),
      IsTrans.trans _ _ _ hlooks.evolves htransfers.evolves, hrefund,
      (Int.le_add_of_nonneg_right (newAccountUse_nonneg _)).trans_eq huse.symm⟩
    show s₁.gas + gasSub childGas cost + s₁.stateSpill + 1 ≤ _
    rw [gasSub_eq]
    simp only [GasPools.regular] at hspent ⊢
    omega

theorem CreateEnds.answered {s s₁ s' : MachineState} {returndata : OutputSlice}
    (h : CreateEnds ctx f s₁ (.stays returndata) s') (hinside : Inside f s s₁)
    (hpc : s₁.pc = s.pc) (hroom : s₁.sp < stackLimit) (hkernel : s₁.kernel = s.kernel)
    (hstatic : f.message.isStatic = false) (hspent : s₁.regular + 1 ≤ s.regular)
    (hrefund : s₁.refund = s.refund) (huse : s₁.stateUse = s.stateUse) :
    Answered ctx f s s' := by
  cases h with
  | refused gas kernel hlooks hgas =>
    refine ⟨hinside.answer _ _ _ _ _ fun _ _ => rfl, hpc, hroom,
      touches_of_looks (hkernel ▸ hlooks), ?_, hkernel ▸ .single (.looked hlooks),
      hkernel ▸ hlooks.evolves, hrefund, huse.ge⟩
    have hback : gas = s₁.gas := by
      split at hgas
      · exact hgas
      · rw [conservedGasAdd_eq_ok hgas]
        show s₁.gas / 64 + gasSub s₁.gas (s₁.gas / 64) = s₁.gas
        rw [gasSub_eq]
        omega
    rw [hback]
    exact hspent
  | occupied targetEmpty p pools kernel hdepth hcharge hcredit hcounted =>
    have hcharged : (lendCreateGas p).1.stateUse =
        s₁.stateUse + newAccountUse (ctx.amsterdam && targetEmpty) := by
      have hpaid := chargeNewAccount_stateUse hcharge
      exact hpaid
    have hback : pools.stateUse + newAccountUse (ctx.amsterdam && targetEmpty) =
        s.stateUse + newAccountUse (ctx.amsterdam && targetEmpty) := by
      rw [creditNewAccount_stateUse hcredit, hcharged, huse]
    refine ⟨hinside.answer _ _ _ _ _ fun _ _ => rfl, hpc, hroom,
      touches_of_advances hstatic (hkernel ▸ hcounted.evolves.advances), ?_,
      hkernel ▸ hcounted.writes, hkernel ▸ hcounted.evolves, hrefund,
      (add_right_cancel hback).ge⟩
    have hlent : (lendCreateGas p).1.regular + (lendCreateGas p).2 = p.regular :=
      (lendCreateGas_spec p).1
    have hcharged := chargeNewAccount_regular hcharge
    show pools.regular + 1 ≤ _
    rw [creditNewAccount_regular hcredit]
    omega

end

/-! ## Children -/

/-- The frame of a child. -/
structure Opens (ctx : Context) (f : Frame) (s : MachineState) (child : Frame) : Prop where
  memoryBase : child.memoryBase = f.memoryBase + s.memoryHeight
  depth : child.message.depth = f.message.depth + 1
  limit : f.message.depth ≠ callDepthLimit
  static : f.message.isStatic = true → child.message.isStatic = true
  reservoir : child.message.stateGasReservoir = s.stateGas
  calldata : child.calldata = emptyCalldata ∨ ∃ range, child.calldata = .memoryCalldata range ∧
    (range = emptySlice ∨ f.memoryBase ≤ range.off ∧ range.off + range.len ≤ child.memoryBase)
  code : Coherent ctx.kernel s.kernel.state → Analyzed ctx.kernel child.code

/-- The state of a child that begins. -/
def MachineState.child (s : MachineState) (gas : Nat) (kernel : Host) : MachineState :=
  { s with
    gas := gas
    stateSpill := 0
    pc := 0
    refund := 0
    sp := 0
    memoryHeight := 0
    row := if s.row + 1 < operandRows then s.row + 1 else s.row
    kernel := kernel }

/-- What the parent does to the host before the checkpoint: a caller looks, a
creator counts its nonce up. -/
def FrameContinuation.Prepares (ctx : Context) (f : Frame) (h h' : Host) :
    FrameContinuation → Prop
  | .resumeCall _ _ _ _ => Looks ctx.kernel h h'
  | .resumeCreate _ _ _ => f.message.isStatic = false ∧ Counted ctx f h h'

/-- A frame is suspended in `s₁`, and its child begins. -/
structure Entered (ctx : Context) (f : Frame) (s s₁ : MachineState) (k : FrameContinuation)
    (child : Frame) (s' : MachineState) : Prop where
  checkpoint : k.checkpoint = frameCheckpoint f s₁
  opens : Opens ctx f s₁ child
  begins : ∃ gas kernel, s' = s₁.child gas kernel ∧
    Evolves ctx.kernel (s₁.kernel.record .checkpointed) kernel ∧
    (child.message.isStatic = true → kernel = s₁.kernel.record .checkpointed)
  prepares : k.Prepares ctx f s.kernel s₁.kernel
  warm : s'.kernel.state.warm = s₁.kernel.state.warm
  row : s₁.row = s.row
  operands : s₁.operands = s.operands
  pc : s₁.pc = s.pc
  refund : s₁.refund = s.refund
  sp : s₁.sp ≤ s.sp
  room : s₁.sp < stackLimit
  height : s.memoryHeight ≤ s₁.memoryHeight
  memory : ∀ i, i < f.memoryBase + s.memoryHeight → s₁.memory i = s.memory i
  fresh : ∀ i, f.memoryBase + s.memoryHeight ≤ i → i < f.memoryBase + s₁.memoryHeight →
    s₁.memory i = 0
  spent : s₁.regular + s'.regular + 1 ≤ s.regular
  stateUse : s₁.stateUse = s.stateUse + newAccountUse k.newAccountCharged
  address : ∀ c new charged, k = .resumeCreate c new charged → child.message.address = new
  /-- A new account is written to at its own address, and paid from the creator's. -/
  writes : ∃ middle,
    Writes ctx.kernel child.message.address (s₁.kernel.record .checkpointed) middle ∧
    Writes ctx.kernel f.message.address middle s'.kernel

/-! ## Requests -/

/-- The frame that is suspended has popped the operands, has paid for the memory
they reach to and grown to it, and waits for the range it has named. -/
structure Asked (r : Request) (s : MachineState) (k : FrameContinuation) (s' : MachineState) :
    Prop where
  enough : r.inputs ≤ s.sp
  popped : k.checkpoint.sp = s.sp - r.inputs
  height : k.checkpoint.memoryHeight = max s.memoryHeight (operandsHeight r.args r.ret)
  paid : k.checkpoint.regular + s'.regular + heightCost k.checkpoint.memoryHeight + 1 ≤
    s.regular + heightCost s.memoryHeight
  range : ∀ c off len charged, k = .resumeCall c off len charged →
    len = r.ret.size ∧ (len ≠ 0 → off = r.ret.start)

section

variable {ctx : Context} {f : Frame}

/-- Memory that has grown is as it was, up to its old height. -/
theorem MachineState.grown_below (s : MachineState) (pools : GasPools) (height : Nat) {i : Nat}
    (h : i < f.memoryBase + s.memoryHeight) :
    (s.grown f pools height).memory i = s.memory i :=
  if_neg fun hin => absurd hin.1 (by omega)

/-- What it has gained reads as zero. -/
theorem MachineState.grown_fresh (s : MachineState) (pools : GasPools) (height : Nat) {i : Nat}
    (hge : f.memoryBase + s.memoryHeight ≤ i) (hlt : i < f.memoryBase + height) :
    (s.grown f pools height).memory i = 0 := by
  have hin : i < f.memoryBase + s.memoryHeight +
      (List.replicate (height - s.memoryHeight) (0 : Byte)).length := by
    rw [List.length_replicate]
    omega
  refine (if_pos ⟨hge, hin⟩).trans ?_
  rw [sliceByte, List.getElem?_replicate, if_pos (by omega), Option.getD_some]

theorem materialize_height {capacity base height grown : Nat} {a b : Operand}
    {first second : MemoryAccess}
    (h : materialize capacity base height a b = .ok (grown, first, second)) : height ≤ grown := by
  obtain ⟨_, -, h₁⟩ := bind_eq_ok.mp h
  obtain ⟨_, -, h₂⟩ := bind_eq_ok.mp h₁
  obtain ⟨_, hexpand, h₃⟩ := bind_eq_ok.mp h₂
  cases h₃
  exact (le_expandMemory hexpand).1

theorem memoryAccess_cases {o : Operand} {access : MemoryAccess}
    (h : memoryAccess o = .ok access) :
    access.requestedHeight = memoryRequestedHeight o.start o.size ∧ access.len = o.size ∧
      (access.len ≠ 0 → access.off = o.start) := by
  rw [memoryAccess] at h
  rw [memoryRequestedHeight]
  split at h
  · next hzero =>
    cases h
    exact ⟨(if_pos hzero).symm, hzero.symm, fun hne => absurd rfl hne⟩
  · next hne =>
    split at h
    · next hstart =>
      split at h
      · next hsize =>
        cases h
        refine ⟨?_, rfl, fun _ => rfl⟩
        rw [if_neg hne, if_pos hstart, if_pos hsize]
      · cases h
    · cases h

/-- Memory grows to what the operands reach to, and no further. -/
theorem materialize_max {capacity base height grown : Nat} {a b : Operand}
    {first second : MemoryAccess}
    (h : materialize capacity base height a b = .ok (grown, first, second)) :
    grown = max height (operandsHeight a b) ∧ second.len = b.size ∧
      (second.len ≠ 0 → second.off = b.start) := by
  obtain ⟨first', hfirst, h₁⟩ := bind_eq_ok.mp h
  obtain ⟨second', hsecond, h₂⟩ := bind_eq_ok.mp h₁
  obtain ⟨grown', hexpand, h₃⟩ := bind_eq_ok.mp h₂
  cases h₃
  obtain ⟨hfirstHeight, -, -⟩ := memoryAccess_cases hfirst
  obtain ⟨hsecondHeight, hlen, hoff⟩ := memoryAccess_cases hsecond
  refine ⟨?_, hlen, hoff⟩
  rw [hfirstHeight, hsecondHeight] at hexpand
  have hrequired : expandMemory capacity base height (operandsHeight a b) = .ok grown := hexpand
  rw [expandMemory] at hrequired
  split at hrequired
  · split at hrequired
    · next hless =>
      obtain ⟨pointer, -, hrequired⟩ := bind_eq_ok.mp hrequired
      cases hrequired
      exact (Nat.max_eq_right (Nat.le_of_lt hless)).symm
    · next hle =>
      cases hrequired
      exact (Nat.max_eq_left (Nat.le_of_not_lt hle)).symm
  · cases hrequired

theorem childMessage_static {semantics : CallSemantics} {o : CallOperands} {stateGas : Nat}
    (h : f.message.isStatic = true) : (childMessage f semantics o stateGas).isStatic = true := by
  show (if semantics.entersStaticContext then true else f.message.isStatic) = true
  split
  · rfl
  · exact h

/-- A static child gets no value. -/
theorem childMessage_transfers {kind : CallKind} {o : CallOperands} {stateGas : Nat}
    (hstatic : (callSemantics kind).transfersValue = true → o.value ≠ 0 →
      f.message.isStatic = false)
    (h : (childMessage f (callSemantics kind) o stateGas).isStatic = true) :
    ¬ ((callSemantics kind).transfersValue ∧ o.value ≠ 0) := by
  rintro ⟨htransfers, hvalue⟩
  have hno := hstatic htransfers hvalue
  cases kind with
  | call =>
    have hsame : f.message.isStatic = true := h
    rw [hno] at hsame
    cases hsame
  | callCode | delegateCall | staticCall => cases htransfers

/-- A call that has paid, and then comes to its end. -/
theorem runCall_entered {kind : CallKind} {s s' : MachineState} {k : FrameContinuation}
    {child : Frame} (h : runCall ctx f kind s = .ok (.enters k child, s')) :
    ∃ s₁, Entered ctx f s s₁ k child s' := by
  rcases runCall_cases h with ⟨kind, hfailed, -⟩ | ⟨o, c, delegate, base, pools, kernel, hpaid, h⟩
  · cases hfailed
  obtain ⟨height, args, ret, childGas, kernel', hlooks, hreached, hchild, hends⟩ :=
    enterCall_cases h
  have hheight : s.memoryHeight ≤ height := materialize_height hreached
  have hspent := hpaid.regular hchild
  cases hends with
  | entered childMemoryBase bytes code kernel'' hdepth hbase hbytes hcode hcovers htransfers =>
    refine ⟨_, rfl, ⟨memoryAbsolute_base hbase, rfl, hdepth, childMessage_static, rfl,
      .inr ⟨bytes, rfl, hbytes⟩, hcode⟩, ⟨childGas, kernel'', rfl, htransfers.evolves,
      fun hstatic => (if_neg (childMessage_transfers hpaid.static hstatic)).mp htransfers⟩,
      IsTrans.trans _ _ _ hpaid.looks hlooks, htransfers.warm, rfl, rfl, rfl, rfl,
      Nat.sub_le _ _, ?_, hheight,
      fun i hi => MachineState.grown_below _ pools height hi,
      fun i hge hlt => MachineState.grown_fresh _ pools height hge hlt, ?_, hpaid.stateUse,
      fun _ _ _ heq => (by cases heq), ⟨_, .refl, htransfers.writes hcovers⟩⟩
    · have hroom := hpaid.room
      have henough := hpaid.enough
      show s.sp - callStackInputs kind < stackLimit
      omega
    · show pools.regular + (childGas + 0) + 1 ≤ s.regular
      omega

theorem runCall_answered {kind : CallKind} {s s' : MachineState} {returndata : OutputSlice}
    (h : runCall ctx f kind s = .ok (.stays returndata, s')) : Answered ctx f s s' := by
  rcases runCall_cases h with ⟨kind, hfailed, -⟩ | ⟨o, c, delegate, base, pools, kernel, hpaid, h⟩
  · cases hfailed
  obtain ⟨height, args, ret, childGas, kernel', hlooks, hreached, hchild, hends⟩ :=
    enterCall_cases h
  refine hends.answered (s := s) ?_ rfl ?_ ?_ hpaid.static ?_ rfl hpaid.stateUse
  · exact ⟨rfl, fun _ _ => rfl, fun i hi => MachineState.grown_below _ pools height (by
      show i < f.memoryBase + s.memoryHeight
      omega)⟩
  · have hroom := hpaid.room
    have henough := hpaid.enough
    show s.sp - callStackInputs kind < stackLimit
    omega
  · exact IsTrans.trans _ _ _ hpaid.looks hlooks
  · exact hpaid.regular hchild

theorem runCreate_answered {kind : CreateKind} {s s' : MachineState} {returndata : OutputSlice}
    (h : runCreate ctx f kind s = .ok (.stays returndata, s')) : Answered ctx f s s' := by
  rcases runCreate_cases h with ⟨kind, hfailed, -⟩ |
    ⟨value, salt, c, initcode, pools, height, hpaid, -, h⟩
  · cases hfailed
  rcases guardCreate_cases h with ⟨kind, hfailed, -⟩ | hends
  · cases hfailed
  refine hends.answered (s := s) ?_ rfl ?_ rfl hpaid.static hpaid.regular rfl hpaid.stateUse
  · exact ⟨rfl, fun _ _ => rfl, fun i hi => MachineState.grown_below s pools height (by omega)⟩
  · have hroom := hpaid.room
    have henough := hpaid.enough
    show s.sp - createStackInputs kind < stackLimit
    omega

theorem runCreate_entered {kind : CreateKind} {s s' : MachineState} {k : FrameContinuation}
    {child : Frame} (h : runCreate ctx f kind s = .ok (.enters k child, s')) :
    ∃ s₁, Entered ctx f s s₁ k child s' := by
  rcases runCreate_cases h with ⟨kind, hfailed, -⟩ |
    ⟨value, salt, c, initcode, pools, height, hpaid, -, h⟩
  · cases hfailed
  rcases guardCreate_cases h with ⟨kind, hfailed, -⟩ | hends
  · cases hfailed
  have hspent := hpaid.regular
  obtain ⟨second, hreached⟩ := hpaid.reached
  cases hends with
  | entered targetEmpty p childMemoryBase value new code kernel middle kernel' hdepth hcharge hbase
      hcounted hcode hprepared htransferred hevolves hwarm =>
    refine ⟨_, rfl, ⟨memoryAbsolute_base hbase, rfl, hdepth, id, rfl, .inl rfl, hcode⟩,
      ⟨(lendCreateGas p).2, kernel', rfl, hevolves, fun htrue => ?_⟩,
      ⟨hpaid.static, hcounted⟩, hwarm,
      rfl, rfl, rfl, rfl, Nat.sub_le _ _, ?_, materialize_height hreached,
      fun i hi => MachineState.grown_below s pools height hi,
      fun i hge hlt => MachineState.grown_fresh s pools height hge hlt, ?_, ?_,
      fun _ _ _ heq => (by cases heq; rfl), ⟨middle, hprepared, htransferred⟩⟩
    · have hstatic : f.message.isStatic = true := htrue
      rw [hpaid.static] at hstatic
      cases hstatic
    · have hroom := hpaid.room
      have henough := hpaid.enough
      show s.sp - createStackInputs kind < stackLimit
      omega
    · have hlent : (lendCreateGas p).1.regular + (lendCreateGas p).2 = p.regular :=
        (lendCreateGas_spec p).1
      have hcharged : p.regular = pools.regular := chargeNewAccount_regular hcharge
      show (lendCreateGas p).1.regular + ((lendCreateGas p).2 + 0) + 1 ≤ s.regular
      omega
    · have hcharged : p.stateUse = pools.stateUse + newAccountUse (ctx.amsterdam && targetEmpty) :=
        chargeNewAccount_stateUse hcharge
      rw [← hpaid.stateUse]
      exact hcharged

theorem runCall_failed {kind : CallKind} {s s' : MachineState} {e : ExceptionKind}
    (h : runCall ctx f kind s = .ok (.failed e, s')) : Draws ctx f s s' := by
  rcases runCall_cases h with ⟨e', he, hdraws⟩ | ⟨o, c, delegate, base, pools, kernel, hpaid, h⟩
  · exact hdraws
  · obtain ⟨height, args, ret, childGas, kernel', hlooks, hreached, hchild, hends⟩ :=
      enterCall_cases h
    cases hends

theorem runCreate_failed {kind : CreateKind} {s s' : MachineState} {e : ExceptionKind}
    (h : runCreate ctx f kind s = .ok (.failed e, s')) : Draws ctx f s s' := by
  rcases runCreate_cases h with ⟨e', he, hdraws⟩ |
    ⟨value, salt, c, initcode, pools, height, hpaid, hdraws, h⟩
  · exact hdraws
  · rcases guardCreate_cases h with ⟨e', he, hdraws'⟩ | hends
    · exact hdraws.trans hdraws'
    · cases hends

/-- A call that is entered has asked for what stands on the stack. -/
theorem runCall_asked {kind : CallKind} {s s' : MachineState} {k : FrameContinuation}
    {child : Frame} (h : runCall ctx f kind s = .ok (.enters k child, s')) :
    Asked (callRequested kind s) s k s' := by
  rcases runCall_cases h with ⟨kind, hfailed, -⟩ | ⟨o, c, delegate, base, pools, kernel, hpaid, h⟩
  · cases hfailed
  obtain ⟨height, args, ret, childGas, kernel', hlooks, hreached, hchild, hends⟩ :=
    enterCall_cases h
  obtain ⟨hheight, hlen, hoff⟩ := materialize_max hreached
  have hspent := hpaid.paid hchild
  rw [← hheight] at hspent
  rw [hpaid.args, hpaid.ret] at hheight
  rw [hpaid.ret] at hlen hoff
  cases hends with
  | entered childMemoryBase bytes code kernel'' hdepth hbase hbytes hcode hcovers htransfers =>
    refine ⟨hpaid.enough, rfl, hheight, ?_, fun c off len charged heq => ?_⟩
    · show pools.regular + (childGas + 0) + heightCost height + 1 ≤ _
      omega
    · cases heq
      exact ⟨hlen, hoff⟩

/-- A creation waits for no range. -/
theorem runCreate_asked {kind : CreateKind} {s s' : MachineState} {k : FrameContinuation}
    {child : Frame} (h : runCreate ctx f kind s = .ok (.enters k child, s')) :
    Asked (createRequested kind s) s k s' := by
  rcases runCreate_cases h with ⟨kind, hfailed, -⟩ |
    ⟨value, salt, c, initcode, pools, height, hpaid, -, h⟩
  · cases hfailed
  rcases guardCreate_cases h with ⟨kind, hfailed, -⟩ | hends
  · cases hfailed
  obtain ⟨second, hreached⟩ := hpaid.reached
  obtain ⟨hheight, -, -⟩ := materialize_max hreached
  have hspent := hpaid.paid
  rw [← hheight] at hspent
  obtain ⟨initcodeCost, hashingCost, rfl⟩ := hpaid.request
  cases hends with
  | entered targetEmpty p childMemoryBase value new code kernel middle kernel' hdepth hcharge hbase
      hcounted hcode hprepared htransferred hevolves =>
    refine ⟨hpaid.enough, rfl, hheight, ?_, fun c off len charged heq => (by cases heq)⟩
    have hlent : (lendCreateGas p).1.regular + (lendCreateGas p).2 = p.regular :=
      (lendCreateGas_spec p).1
    have hcharged : p.regular = pools.regular := chargeNewAccount_regular hcharge
    show (lendCreateGas p).1.regular + ((lendCreateGas p).2 + 0) + heightCost height + 1 ≤ _
    omega

/-! ## Steps -/

/-- The instructions that may enter a frame. -/
inductive Entry (ctx : Context) (f : Frame) : Exec FrameTransition → Prop
  | call (kind : CallKind) : Entry ctx f (runCall ctx f kind)
  | create (kind : CreateKind) : Entry ctx f (runCreate ctx f kind)

theorem frameEntry_entry {i : Ast} {entry : Exec FrameTransition}
    (h : frameEntry ctx f i = some entry) : Entry ctx f entry := by
  cases i with
  | opcodeCreate =>
    cases h
    exact .create .createByNonce
  | create2 =>
    cases h
    exact .create .createBySalt
  | call =>
    cases h
    exact .call .call
  | callcode =>
    cases h
    exact .call .callCode
  | delegatecall =>
    cases h
    exact .call .delegateCall
  | staticcall =>
    cases h
    exact .call .staticCall
  | _ => cases h

theorem frameEntry_asked {i : Ast} {entry : Exec FrameTransition} {s s' : MachineState}
    {k : FrameContinuation} {child : Frame} (hentry : frameEntry ctx f i = some entry)
    (h : entry s = .ok (.enters k child, s')) :
    ∃ r, requested i s = some r ∧ Asked r s k s' := by
  cases i with
  | opcodeCreate | create2 =>
    cases hentry
    exact ⟨_, rfl, runCreate_asked h⟩
  | call | callcode | delegatecall | staticcall =>
    cases hentry
    exact ⟨_, rfl, runCall_asked h⟩
  | _ => cases hentry

theorem Entry.failed {entry : Exec FrameTransition} {s s' : MachineState} {e : ExceptionKind}
    (hentry : Entry ctx f entry) (h : entry s = .ok (.failed e, s')) : Draws ctx f s s' := by
  cases hentry with
  | call kind => exact runCall_failed h
  | create kind => exact runCreate_failed h

theorem Entry.answered {entry : Exec FrameTransition} {s s' : MachineState}
    {returndata : OutputSlice} (hentry : Entry ctx f entry)
    (h : entry s = .ok (.stays returndata, s')) : Answered ctx f s s' := by
  cases hentry with
  | call kind => exact runCall_answered h
  | create kind => exact runCreate_answered h

theorem Entry.entered {entry : Exec FrameTransition} {s s' : MachineState}
    {k : FrameContinuation} {child : Frame} (hentry : Entry ctx f entry)
    (h : entry s = .ok (.enters k child, s')) : ∃ s₁, Entered ctx f s s₁ k child s' := by
  cases hentry with
  | call kind => exact runCall_entered h
  | create kind => exact runCreate_entered h

end

/-- The frame behind the fetch of its instruction. -/
def Activation.fetched (ctx : Context) (a : Activation) : MachineState :=
  { a.state with pc := (fetch a.frame.code.bytes a.state.pc ctx.kernel.profile.fork).1 }

/-- The instruction that it has fetched. -/
def Activation.instruction (ctx : Context) (a : Activation) : Ast :=
  (fetch a.frame.code.bytes a.state.pc ctx.kernel.profile.fork).2

/-- A frame has gone on, or ended, by itself. -/
inductive Stayed (ctx : Context) (a : Activation) : Activation → Prop
  | opcode (status : FrameStatus) (s' : MachineState)
      (h : Executed 1 ctx a.frame (a.fetched ctx) status s') :
      Stayed ctx a ⟨a.frame, status, leave ctx a.frame status s'⟩
  | answered (returndata : OutputSlice) (s' : MachineState)
      (h : Answered ctx a.frame (a.fetched ctx) s') :
      Stayed ctx a ⟨{ a.frame with returndata := returndata }, .running, s'⟩

section

variable {ctx : Context}

/-- A frame that goes on or ends has executed an opcode, or an instruction
that may enter a frame has failed or has not entered one. -/
theorem Stays.ran {a b : Activation} (h : Stays ctx a b) :
    a.status = .running ∧
      ((∃ status s', frameEntry ctx a.frame (a.instruction ctx) = none ∧
          executeOpcode ctx a.frame (a.instruction ctx) (a.fetched ctx) = .ok (status, s') ∧
          b = ⟨a.frame, status, leave ctx a.frame status s'⟩) ∨
        ∃ entry r s', frameEntry ctx a.frame (a.instruction ctx) = some entry ∧
          entry (a.fetched ctx) = .ok (r, s') ∧
          ((∃ kind, r = .failed kind ∧
              b = ⟨a.frame, .exceptional kind, leave ctx a.frame (.exceptional kind) s'⟩) ∨
            ∃ returndata, r = .stays returndata ∧
              b = ⟨{ a.frame with returndata := returndata }, .running, s'⟩)) := by
  obtain ⟨hrunning, ks, h⟩ := h
  refine ⟨hrunning, ?_⟩
  simp only [executeStep] at h
  split at h
  · next entry hentry =>
    obtain ⟨⟨r, s'⟩, hrun, h⟩ := bind_eq_ok.mp h
    refine .inr ⟨entry, r, s', hentry, hrun, ?_⟩
    cases r with
    | failed kind =>
      cases h
      exact .inl ⟨kind, rfl, rfl⟩
    | stays returndata =>
      cases h
      exact .inr ⟨returndata, rfl, rfl⟩
    | enters k child =>
      simp only [applyTransition] at h
      split at h
      · have hsuspended : k :: ks = ks := congrArg Prod.snd (Except.ok.inj h)
        exact absurd hsuspended (List.cons_ne_self k ks)
      · cases h
  · next hopcode =>
    obtain ⟨⟨status, s'⟩, hrun, h⟩ := bind_eq_ok.mp h
    cases h
    exact .inl ⟨status, s', hopcode, hrun, rfl⟩

/-- The same, with the moves of what has ended or gone on by itself. -/
theorem Stays.cases {a b : Activation} (h : Stays ctx a b) :
    a.status = .running ∧
      ((∃ status s', Executed 1 ctx a.frame (a.fetched ctx) status s' ∧
          (frameEntry ctx a.frame (a.instruction ctx) = none ∨ ∃ kind, status = .exceptional kind) ∧
          b = ⟨a.frame, status, leave ctx a.frame status s'⟩) ∨
        ∃ entry returndata s', frameEntry ctx a.frame (a.instruction ctx) = some entry ∧
          entry (a.fetched ctx) = .ok (.stays returndata, s') ∧
          b = ⟨{ a.frame with returndata := returndata }, .running, s'⟩) := by
  obtain ⟨hrunning, h⟩ := h.ran
  refine ⟨hrunning, ?_⟩
  rcases h with ⟨status, s', hopcode, hrun, rfl⟩ |
    ⟨entry, r, s', hentry, hrun, ⟨kind, rfl, rfl⟩ | ⟨returndata, rfl, rfl⟩⟩
  · exact .inl ⟨status, s', executeOpcode_executed hrun, .inl hopcode, rfl⟩
  · exact .inl ⟨_, s', .fails kind ((frameEntry_entry hentry).failed hrun).quiet.failing,
      .inr ⟨kind, rfl⟩, rfl⟩
  · exact .inr ⟨entry, returndata, s', hentry, hrun, rfl⟩

theorem Stays.stayed {a b : Activation} (h : Stays ctx a b) :
    a.status = .running ∧ Stayed ctx a b := by
  obtain ⟨hrunning, h⟩ := h.cases
  refine ⟨hrunning, ?_⟩
  rcases h with ⟨status, s', hexecuted, -, rfl⟩ | ⟨entry, returndata, s', hentry, hrun, rfl⟩
  · exact .opcode status s' hexecuted
  · exact .answered returndata s' ((frameEntry_entry hentry).answered hrun)

/-- A frame that is suspended has executed an instruction that enters one. -/
theorem Enters.cases {a c : Activation} {k : FrameContinuation} (h : Enters ctx a k c) :
    a.status = .running ∧ c.status = .running ∧
      ∃ entry, frameEntry ctx a.frame (a.instruction ctx) = some entry ∧
        entry (a.fetched ctx) = .ok (.enters k c.frame, c.state) := by
  obtain ⟨hrunning, ks, h⟩ := h
  refine ⟨hrunning, ?_⟩
  simp only [executeStep] at h
  split at h
  · next entry hentry =>
    obtain ⟨⟨r, s'⟩, hrun, h⟩ := bind_eq_ok.mp h
    cases r with
    | failed e =>
      have hsuspended : ks = k :: ks := congrArg Prod.snd (Except.ok.inj h)
      exact absurd hsuspended.symm (List.cons_ne_self k ks)
    | stays returndata =>
      have hsuspended : ks = k :: ks := congrArg Prod.snd (Except.ok.inj h)
      exact absurd hsuspended.symm (List.cons_ne_self k ks)
    | enters k' child =>
      simp only [applyTransition] at h
      split at h
      · cases h
        exact ⟨rfl, entry, hentry, hrun⟩
      · cases h
  · obtain ⟨⟨status, s'⟩, hrun, h⟩ := bind_eq_ok.mp h
    have hsuspended : ks = k :: ks := congrArg Prod.snd (Except.ok.inj h)
    exact absurd hsuspended.symm (List.cons_ne_self k ks)

theorem Enters.entered {a c : Activation} {k : FrameContinuation} (h : Enters ctx a k c) :
    a.status = .running ∧ c.status = .running ∧
      ∃ s₁, Entered ctx a.frame (a.fetched ctx) s₁ k c.frame c.state := by
  obtain ⟨hrunning, hchild, entry, hentry, hrun⟩ := h.cases
  exact ⟨hrunning, hchild, (frameEntry_entry hentry).entered hrun⟩

/-- The caller waits for what it has asked. -/
theorem Enters.asked {a c : Activation} {k : FrameContinuation} (h : Enters ctx a k c) :
    ∃ r, requested (a.instruction ctx) (a.fetched ctx) = some r ∧
      Asked r (a.fetched ctx) k c.state := by
  obtain ⟨-, -, entry, hentry, hrun⟩ := h.cases
  exact frameEntry_asked hentry hrun

/-- The instructions that enter a frame have no immediate. -/
theorem frameEntry_next {f : Frame} {code : List Byte} {current : Nat} {fork : Fork}
    {entry : Exec FrameTransition} (h : frameEntry ctx f (fetch code current fork).2 = some entry) :
    (fetch code current fork).1 = current + 1 := by
  simp only [fetch] at h ⊢
  split
  · next hend =>
    rw [if_pos hend] at h
    cases h
  next hin =>
  rw [if_neg hin] at h
  split
  · rfl
  next havailable =>
  rw [if_neg havailable] at h
  split
  · next hpush =>
    rw [if_pos hpush] at h
    cases h
  next hpush =>
  rw [if_neg hpush] at h
  split
  · next hdeep =>
    rw [hdeep] at h
    cases h
  · next hdeep =>
    rw [hdeep] at h
    cases h
  · next hdeep =>
    rw [hdeep] at h
    cases h
  · rfl

theorem Enters.next {a c : Activation} {k : FrameContinuation} (h : Enters ctx a k c) :
    (a.fetched ctx).pc = a.state.pc + 1 := by
  obtain ⟨-, -, entry, hentry, -⟩ := h.cases
  exact frameEntry_next hentry

theorem Resumes.returns {d a : Activation} {k : FrameContinuation} (h : Resumes ctx d k a) :
    d.status ≠ .running ∧ a.status = k.checkpoint.status ∧
      Returns ctx d.frame d.status k d.state (k.succeeds ctx d.frame d.status d.state) a.frame
        a.state := by
  obtain ⟨hended, ks, h⟩ := h
  obtain ⟨⟨parent, s'⟩, hrun, h⟩ := bind_eq_ok.mp h
  cases h
  exact ⟨hended, rfl, resumeFrame_cases hrun⟩

end

end EvmSail.Vm
