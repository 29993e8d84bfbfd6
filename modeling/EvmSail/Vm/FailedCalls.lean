/-
# `EvmSail.Vm.FailedCalls` — a call that fails leaves no trace

In front of the checkpoint a caller marks its target warm, and the account
that the target delegates to; a creator marks the new address warm and
counts its nonce up.  Nothing else of what they do there is seen, and only
that stays when the child fails, when its code is not accepted, or when it
is not entered at all: too deep, too dear in value, or at an address that is
taken (`failed_calls_leave_no_trace`).
-/
import EvmSail.Vm.StaticFrames

namespace EvmSail.Vm

open Fallible Kernel Kept Relation

/-! ## Warm marks of a program -/

/-- At most the addresses of `A` become warm. -/
def Warmer (A : List Address) (s s' : MachineState) : Prop := Warms A s.kernel s'.kernel

instance (A : List Address) : IsPreorder MachineState (Warmer A) where
  refl s := Std.Refl.refl (r := Warms A) s.kernel
  trans s s₁ s₂ h₁ h₂ := IsTrans.trans (r := Warms A) s.kernel s₁.kernel s₂.kernel h₁ h₂

abbrev Warming (A : List Address) {α : Type} (x : Exec α) : Prop := Leads (Warmer A) x

section

variable {ctx : Context} {f : Frame} {A : List Address} {α S : Type} [Outcome S]

theorem warming_of_kernel {x : Exec α}
    (h : ∀ s a s', x s = .ok (a, s') → s'.kernel = s.kernel) : Warming A x := by
  intro s a s' hrun
  refine .of_eq ?_
  rw [h s a s' hrun]

theorem warming_syscall {R : Host → Host → Prop} {x : Kept R Halt α} [hx : Tepid x] :
    Warming A (syscall x) := by
  intro s a s' hrun
  obtain ⟨kernel, hread, rfl⟩ := syscall_cases hrun
  exact .of_eq (hx.warm s.kernel a kernel hread)

theorem warming_mark {a : Address} (ha : a ∈ A) :
    Warming A (syscall (kAccountMarkWarm ctx.kernel a)) := by
  intro s u s' hrun
  obtain ⟨kernel, hmark, rfl⟩ := syscall_cases hrun
  exact kAccountMarkWarm_warms ha hmark

theorem warming_failEmpty {kind : ExceptionKind} : Warming A (failEmpty kind : Exec S) :=
  warming_of_kernel fun s r s' hrun => by
    cases hrun
    rfl

theorem warming_charge {cost : Nat} {k : Exec S} (hk : Warming A k) :
    Warming A (charge cost k) := by
  intro s r s' hrun
  rw [charge] at hrun
  split at hrun
  · exact warming_failEmpty s r s' hrun
  · have hrest := hk _ r s' hrun
    exact hrest

theorem warming_lend {request : Nat} {k : Nat → Exec S} (hk : ∀ base, Warming A (k base)) :
    Warming A (lend request k) := by
  intro s r s' hrun
  exact warming_charge (hk _) s r s' hrun

theorem warming_chargeNewAccount {charged : Bool} {k : Exec FrameTransition}
    (hk : Warming A k) : Warming A (chargeNewAccount charged k) := by
  refine .ite (fun s r s' hrun => ?_) hk
  obtain ⟨⟨halt, pools⟩, hcharge, hrun⟩ := bind_eq_ok.mp hrun
  dsimp only at hrun
  split at hrun
  · cases hrun
    exact .of_eq rfl
  · have hrest := hk _ r s' hrun
    exact hrest

theorem warming_giveBack (amount : Nat) : Warming A (giveBack amount) :=
  warming_of_kernel fun s u s' hrun => by
    obtain ⟨gas, -, hrun⟩ := bind_eq_ok.mp hrun
    cases hrun
    rfl

theorem warming_refuse (charged : Bool) : Warming A (refuse charged) :=
  warming_of_kernel fun s r s' hrun => by
    obtain ⟨pools, -, -, rfl⟩ := refuse_cases hrun
    rfl

theorem warming_stayWith (returned : Word) (returndata : OutputSlice) :
    Warming A (stayWith returned returndata) :=
  warming_of_kernel fun s r s' hrun => by
    cases hrun
    rfl

theorem warming_activeMemoryBytes (access : MemoryAccess) :
    Warming A (activeMemoryBytes ctx f access) :=
  warming_of_kernel fun s bytes s' hrun => by rw [activeMemoryBytes_state hrun]

/-! ## Calls -/

theorem warming_delegationCost (delegate : Option Address) :
    Warming A (delegationCost ctx delegate) := by
  cases delegate with
  | none => exact .pure _
  | some delegate => exact .bind warming_syscall fun _ => .pure _

theorem warming_loadDelegate {delegate : Option Address} (h : delegate.toList ⊆ A) :
    Warming A (loadDelegate ctx delegate) := by
  cases delegate with
  | none => exact .pure _
  | some delegate =>
    have hmem : delegate ∈ A := h (List.mem_singleton_self delegate)
    exact .bind (warming_mark hmem) fun _ =>
      .bind warming_syscall fun _ => .bind warming_syscall fun _ => .pure _

theorem warming_transferValue (semantics : CallSemantics) (o : CallOperands) :
    Warming A (transferValue ctx f semantics o) :=
  .ite warming_syscall (.pure _)

theorem warming_finishPrecompile (semantics : CallSemantics) (o : CallOperands)
    (ret : MemoryAccess) (unused : Nat) (output : List Byte) :
    Warming A (finishPrecompile ctx f semantics o ret unused output) := by
  refine .bind (warming_of_kernel fun s u s' hrun => ?_) fun _ => ?_
  · cases hrun
    rfl
  refine .bind (warming_transferValue semantics o) fun _ => .bind (.lift _) fun _ =>
    .bind (warming_of_kernel fun s u s' hrun => ?_) fun _ =>
      .bind (warming_giveBack _) fun _ => warming_stayWith _ _
  obtain ⟨-, bytes, -, rfl⟩ := returndataCopyPrefix_cases hrun
  rfl

theorem warming_callPrecompile (semantics : CallSemantics) (o : CallOperands)
    (args ret : MemoryAccess) (id : PrecompileId) (childGas : Nat) (charged : Bool) :
    Warming A (callPrecompile ctx f semantics o args ret id childGas charged) := by
  refine .bind (warming_activeMemoryBytes args) fun input => .ite ?_ (warming_refuse charged)
  cases ctx.runPrecompile id input with
  | none => exact warming_refuse charged
  | some output => exact warming_finishPrecompile _ _ _ _ _

theorem warming_executableCode (target : Address) (delegate : Option Address) :
    Warming A (executableCode ctx target delegate) := by
  cases delegate with
  | none => exact warming_syscall
  | some delegate => exact .bind warming_syscall fun _ => .ite (.pure _) (.pure _)

theorem warming_suspendFrame : Warming A (suspendFrame f) := by
  intro s r s' hrun
  obtain ⟨-, -, rfl⟩ := suspendFrame_cases hrun
  exact .of_eq rfl

theorem warming_startFrame (gas : Nat) : Warming A (startFrame gas) :=
  warming_of_kernel fun s u s' hrun => by
    cases hrun
    rfl

theorem warming_callCode (semantics : CallSemantics) (o : CallOperands)
    (args ret : MemoryAccess) (delegate : Option Address) (childGas : Nat) (charged : Bool) :
    Warming A (callCode ctx f semantics o args ret delegate childGas charged) := by
  refine .bind (warming_executableCode _ _) fun _ =>
    .bind (warming_of_kernel fun s data s' hrun => ?_) fun _ => .bind warming_suspendFrame fun _ =>
      .bind (warming_transferValue _ _) fun _ => .bind (warming_startFrame _) fun _ =>
        .bind .get fun _ => .pure _
  rw [activeMemorySlice_state hrun]

theorem warming_enterCall {delegate : Option Address} (h : delegate.toList ⊆ A)
    (semantics : CallSemantics) (o : CallOperands) (charged : Bool) (base : Nat) :
    Warming A (enterCall ctx f semantics o delegate charged base) := by
  refine .bind (warming_loadDelegate h) fun _ =>
    .bind (warming_of_kernel fun s accesses s' hrun => ?_) fun _ => .bind (.lift _) fun _ =>
      .bind warming_syscall fun _ => .bind (.ite (.bind warming_syscall fun _ => .pure _) (.pure _))
        fun _ => .ite (.bind (warming_giveBack _) fun _ => warming_refuse _)
          (.ite (warming_callPrecompile _ _ _ _ _ _ _) (warming_callCode _ _ _ _ _ _ _))
  obtain ⟨height, -, rfl⟩ := reachBoth_cases hrun
  rfl

/-- The target is marked, and then its delegate. -/
theorem chargeTarget_warms {semantics : CallSemantics} {o : CallOperands} {s s' : MachineState}
    {r : FrameTransition} (h : chargeTarget ctx f semantics o s = .ok (r, s')) :
    ∃ delegate h₁ h₂, Looks ctx.kernel s.kernel h₁ ∧
      (kDelegTarget ctx.kernel o.target).run h₁ = .ok (delegate, h₂) ∧
      Warms (o.target :: delegate.toList) s.kernel s'.kernel := by
  obtain ⟨⟨⟩, s₁, hmark, h₁⟩ := bind_apply_eq_ok.mp h
  obtain ⟨delegate, s₂, hdelegate, h₂⟩ := bind_apply_eq_ok.mp h₁
  have hmarked := @warming_mark ctx (o.target :: delegate.toList) _ List.mem_cons_self _ _ _ hmark
  have hread := @warming_syscall (o.target :: delegate.toList) _ _ _ inferInstance _ _ _ hdelegate
  have hpeeked : Peeked ctx s s₁ := peeks_syscall _ _ _ _ hmark
  obtain ⟨kernel₁, hlooks, rfl⟩ := hpeeked
  obtain ⟨kernel₂, hrun, rfl⟩ := syscall_cases hdelegate
  refine ⟨delegate, kernel₁, kernel₂, hlooks, hrun, ?_⟩
  have hrest : Warming (o.target :: delegate.toList) (do
      let delegateCost ← delegationCost ctx delegate
      let targetEmpty ← syscall (kAccountIsEmpty ctx.kernel o.target)
      let creates := decide (o.value ≠ 0) && semantics.transfersValue && targetEmpty
      let newAccountCharged := ctx.amsterdam && creates
      let createCost := if !ctx.amsterdam && creates then newAccountCost else 0
      charge (delegateCost + createCost) <| chargeNewAccount newAccountCharged <|
        lend o.gas.toNat fun base =>
          enterCall ctx f semantics o delegate newAccountCharged base) :=
    .bind (warming_delegationCost delegate) fun _ => .bind warming_syscall fun _ =>
      warming_charge (warming_chargeNewAccount (warming_lend fun _ =>
        warming_enterCall (List.subset_cons_self _ _) _ _ _ _))
  exact IsTrans.trans (r := Warmer _) _ _ _ hmarked
    (IsTrans.trans (r := Warmer _) _ _ _ hread (hrest _ r s' h₂))

/-- The word below the gas names the target of a call. -/
def MachineState.called (s : MachineState) : Address := wordToAddress (s.operand 1)

theorem popCallOperands_target {kind : CallKind} {s s' : MachineState} {o : CallOperands}
    (h : popCallOperands (callSemantics kind).takesValue s = .ok (o, s')) :
    o.target = s.called ∧ s'.kernel = s.kernel := by
  cases kind with
  | call | callCode | delegateCall | staticCall =>
    cases h
    exact ⟨rfl, rfl⟩

theorem runCall_warms {kind : CallKind} {s s' : MachineState} {r : FrameTransition}
    (h : runCall ctx f kind s = .ok (r, s')) :
    Fails ctx f s r s' ∨ ∃ delegate h₁ h₂, Looks ctx.kernel s.kernel h₁ ∧
      (kDelegTarget ctx.kernel s.called).run h₁ = .ok (delegate, h₂) ∧
      Warms (s.called :: delegate.toList) s.kernel s'.kernel := by
  rcases behind_guardStack_cases h with hfails | ⟨hinputs, -, h⟩
  · exact .inl hfails
  obtain ⟨o, s₁, hpops, h⟩ := bind_apply_eq_ok.mp h
  obtain ⟨htarget, hkernel⟩ := popCallOperands_target hpops
  obtain ⟨rfl, -, -, -⟩ := popCallOperands_state hpops
  have hdraws := @draws_pops ctx f _ s hinputs
  by_cases hwrites : (callSemantics kind).transfersValue ∧ o.value ≠ 0 ∧ f.message.isStatic
  · rw [if_pos hwrites] at h
    exact .inl ((failEmpty_fails h).after hdraws)
  rw [if_neg hwrites] at h
  obtain ⟨warm, s₂, hwarm, h⟩ := bind_apply_eq_ok.mp h
  have hpeeked : Peeked ctx _ s₂ := peeks_syscall _ _ _ _ hwarm
  have htepid := @warming_syscall [] _ _ _ inferInstance _ _ _ hwarm
  have hdraws₁ := hdraws.tail hpeeked.draw
  obtain ⟨kernel, hlooks, rfl⟩ := hpeeked
  rcases chargeExpansion_cases h with hfails | ⟨p₁, hp₁, hdraw₂, h⟩
  · exact .inl (hfails.after hdraws₁)
  rcases charge_cases h with hfails | ⟨p₂, hp₂, hdraw₃, h⟩
  · exact .inl (hfails.after (hdraws₁.tail hdraw₂))
  obtain ⟨delegate, h₁, h₂, hlooks₁, hdelegate, hwarms⟩ := chargeTarget_warms h
  rw [htarget] at hdelegate hwarms
  exact .inr ⟨delegate, h₁, h₂, IsTrans.trans (r := Looks ctx.kernel) _ _ _ hlooks hlooks₁,
    hdelegate, IsTrans.trans (r := Warms _) _ _ _ (Warms.mono htepid (List.nil_subset _)) hwarms⟩

/-! ## Creations -/

theorem warming_newAddress (kind : CreateKind) (nonce : Nat) (salt : Word)
    (initcode : MemoryAccess) : Warming A (newAddress ctx f kind nonce salt initcode) :=
  .ite (.bind (.bind (warming_activeMemoryBytes initcode) fun _ => .pure _) fun _ => .pure _)
    (.lift _)

theorem warming_lendCreate : Warming A lendCreate :=
  warming_of_kernel fun s r s' hrun => by
    cases hrun
    rfl

theorem warming_createCode (value : Word) (initcode : MemoryAccess) (new : Address)
    (childGas : Nat) (charged : Bool) :
    Warming A (createCode ctx f value initcode new childGas charged) :=
  .bind (warming_activeMemoryBytes initcode) fun _ => .bind (.lift _) fun _ =>
    .bind warming_syscall fun _ => .bind .get fun _ => .bind (.lift _) fun _ =>
      .bind warming_suspendFrame fun _ =>
        .bind (.bind warming_syscall fun _ => .bind warming_syscall fun _ =>
          .bind warming_syscall fun _ => warming_syscall) fun _ =>
            .bind (warming_startFrame _) fun _ => .bind .get fun _ => .pure _

theorem warming_enterCreate {new : Address} (hnew : new ∈ A) (value : Word)
    (initcode : MemoryAccess) (early : Nat) :
    Warming A (enterCreate ctx f value initcode new early) :=
  .bind (warming_mark hnew) fun _ => .bind (.ite warming_syscall (.pure _)) fun _ =>
    warming_chargeNewAccount (.bind (.ite warming_lendCreate (.pure _)) fun _ =>
      .bind warming_syscall fun _ => .bind warming_syscall fun _ =>
        .ite (warming_refuse _) (warming_createCode _ _ _ _ _))

/-- The new address is marked. -/
theorem guardCreate_warms {kind : CreateKind} {value salt : Word} {initcode : MemoryAccess}
    {s s' : MachineState} {r : FrameTransition}
    (h : guardCreate ctx f kind value salt initcode s = .ok (r, s')) :
    ∃ nonce s₁ new s₂, syscall (kGetNonce ctx.kernel f.message.address) s = .ok (nonce, s₁) ∧
      newAddress ctx f kind nonce salt initcode s₁ = .ok (new, s₂) ∧
      Warms [new] s.kernel s'.kernel := by
  obtain ⟨nonce, s₁, hnonce, h₁⟩ := bind_apply_eq_ok.mp h
  obtain ⟨new, s₂, hnew, h₂⟩ := bind_apply_eq_ok.mp h₁
  refine ⟨nonce, s₁, new, s₂, hnonce, hnew, ?_⟩
  have hread := @warming_syscall [new] _ _ _ inferInstance _ _ _ hnonce
  have hcomputed := @warming_newAddress ctx f [new] _ _ _ _ _ _ _ hnew
  have hrest : Warming [new] (do
      let early ← (if ctx.amsterdam then pure 0 else lendCreate : Exec Nat)
      let balance ← syscall (kGetBalance ctx.kernel f.message.address)
      if balance < value ∨ nonce = accountNonceBound ∨ f.message.depth = callDepthLimit then do
        (if ctx.amsterdam then pure () else giveBack early : Exec Unit)
        stayWith 0 emptySlice
      else enterCreate ctx f value initcode new early) :=
    .bind (.ite (.pure _) warming_lendCreate) fun _ => .bind warming_syscall fun _ =>
      .ite (.bind (.ite (.pure _) (warming_giveBack _)) fun _ => warming_stayWith _ _)
        (warming_enterCreate (List.mem_singleton_self new) _ _ _)
  exact IsTrans.trans (r := Warmer _) _ _ _ hread
    (IsTrans.trans (r := Warmer _) _ _ _ hcomputed (hrest _ r s' h₂))

/-! ## What is marked -/

variable (ctx) in
/-- What an instruction marks warm in front of the checkpoint: the target of a
call and the account that it delegates to, or the address of the account
that is to be created. -/
inductive Marked (b : Activation) : List Address → Prop
  | called (kind : CallKind) (delegate : Option Address) (h₁ h₂ : Host)
      (hentry : frameEntry ctx b.frame (b.instruction ctx) = some (runCall ctx b.frame kind))
      (hlooks : Looks ctx.kernel b.state.kernel h₁)
      (hdelegate : (kDelegTarget ctx.kernel (b.fetched ctx).called).run h₁ = .ok (delegate, h₂)) :
      Marked b ((b.fetched ctx).called :: delegate.toList)
  | created (kind : CreateKind) (acc : Account) (height sp : Nat) (initcode second : MemoryAccess)
      (pools : GasPools) (kernel : Host) (new : Address) (s' : MachineState)
      (hentry : frameEntry ctx b.frame (b.instruction ctx) = some (runCreate ctx b.frame kind))
      (hnonce : (view ctx.kernel b.state.kernel.state).readAccount b.frame.message.address =
        .ok acc)
      (hreached : materialize ctx.memoryCapacity b.frame.memoryBase b.state.memoryHeight
        (createRequested kind (b.fetched ctx)).args noOperand = .ok (height, initcode, second))
      (hnew : newAddress ctx b.frame kind acc.info.nonce (createSalt kind (b.fetched ctx)) initcode
        { (b.fetched ctx).grown b.frame pools height with sp := sp, kernel := kernel } =
          .ok (new, s')) :
      Marked b [new]

theorem kGetNonce_reading {a : Address} {nonce : Nat} {h h' : Host}
    (hrun : (kGetNonce ctx.kernel a).run h = .ok (nonce, h')) :
    ∃ acc, (view ctx.kernel h.state).readAccount a = .ok acc ∧ acc.info.nonce = nonce := by
  obtain ⟨acc, h₁, hload, hpure⟩ := run_bind_eq_ok.mp hrun
  cases hpure
  exact ⟨acc, kAload_eq_ok ctx.kernel hload, rfl⟩

/-- An instruction that may enter a frame fails, or has marked these. -/
theorem frameEntry_marked {b : Activation} {entry : Exec FrameTransition} {r : FrameTransition}
    {s' : MachineState} (hentry : frameEntry ctx b.frame (b.instruction ctx) = some entry)
    (hrun : entry (b.fetched ctx) = .ok (r, s')) :
    Fails ctx b.frame (b.fetched ctx) r s' ∨
      ∃ marks, Marked ctx b marks ∧ Warms marks b.state.kernel s'.kernel := by
  cases frameEntry_entry hentry with
  | call kind =>
    rcases runCall_warms hrun with hfails | ⟨delegate, h₁, h₂, hlooks, hdelegate, hwarms⟩
    · exact .inl hfails
    · exact .inr ⟨_, .called kind delegate h₁ h₂ hentry hlooks hdelegate, hwarms⟩
  | create kind =>
    rcases runCreate_paid hrun with hfails | ⟨c, initcode, pools, height, hpaid, -, hguard⟩
    · exact .inl hfails
    obtain ⟨nonce, s₁, new, s₂, hnonce, hnew, hwarms⟩ := guardCreate_warms hguard
    obtain ⟨kernel, hread, rfl⟩ := syscall_cases hnonce
    obtain ⟨acc, hacc, rfl⟩ := kGetNonce_reading hread
    obtain ⟨second, hreached⟩ := hpaid.reached
    obtain ⟨initcodeCost, hashingCost, rfl⟩ := hpaid.request
    exact .inr ⟨[new], .created kind acc height _ initcode second pools kernel new s₂ hentry hacc
      hreached hnew, hwarms⟩

/-! ## What is left -/

/-- The instruction is a creation. -/
def Activation.Creates (ctx : Context) (b : Activation) : Prop :=
  ∃ kind, frameEntry ctx b.frame (b.instruction ctx) = some (runCreate ctx b.frame kind)

variable (ctx) in
/-- Everything reads as in front of the instruction of `b`, but that a
creator may have counted its nonce up. -/
structure Unchanged (b : Activation) (h' : Host) : Prop where
  others : ∀ a, a ≠ b.frame.message.address →
    (view ctx.kernel h'.state).readAccount a =
      (view ctx.kernel b.state.kernel.state).readAccount a
  self : (view ctx.kernel h'.state).readAccount b.frame.message.address =
      (view ctx.kernel b.state.kernel.state).readAccount b.frame.message.address ∨
    b.Creates ctx ∧ ∃ acc,
      (view ctx.kernel b.state.kernel.state).readAccount b.frame.message.address = .ok acc ∧
      (view ctx.kernel h'.state).readAccount b.frame.message.address = .ok acc.counted
  slot : ∀ key, slotReading ctx.kernel h'.state key =
    slotReading ctx.kernel b.state.kernel.state key
  transient : h'.state.effects.transient = b.state.kernel.state.effects.transient
  logs : h'.state.effects.logs = b.state.kernel.state.effects.logs

theorem unchanged_of_looks {b : Activation} {h' : Host}
    (hlooks : Looks ctx.kernel b.state.kernel h') : Unchanged ctx b h' :=
  ⟨fun a _ => hlooks.readings.account a, .inl (hlooks.readings.account _), hlooks.readings.slot,
    congrArg Effects.transient hlooks.readings.effects,
    congrArg Effects.logs hlooks.readings.effects⟩

/-- The same view gives the same answers. -/
theorem Unchanged.of_view {b : Activation} {h h' : Host} (hunchanged : Unchanged ctx b h)
    (hc : Coherent ctx.kernel h.state)
    (hview : view ctx.kernel h'.state = view ctx.kernel h.state) : Unchanged ctx b h' := by
  have halike := alike_of_view hc.sound hview
  refine ⟨fun a ha => ?_, ?_, fun key => ?_, halike.transient.trans hunchanged.transient, ?_⟩
  · rw [halike.account, hunchanged.others a ha]
  · rw [halike.account]
    exact hunchanged.self
  · rw [halike.slot, hunchanged.slot]
  · have hlogs : h'.state.effects.logs = h.state.effects.logs :=
      congrArg (fun v => v.effects.logs) hview
    rw [hlogs, hunchanged.logs]

theorem unchanged_of_counted {b : Activation} {h' : Host}
    (hc : Coherent ctx.kernel b.state.kernel.state) (hcreates : b.Creates ctx)
    (hcounted : Counted ctx b.frame b.state.kernel h') : Unchanged ctx b h' := by
  obtain ⟨h₁, h₂, hlooks, hbump, hview, -⟩ := hcounted
  obtain ⟨acc, hacc, hrewrites, hslots, hlogs⟩ := kBumpNonce_rewrites hbump
  have hfirst := unchanged_of_looks hlooks
  have hbumped : Unchanged ctx b h₂ := by
    refine ⟨fun a ha => ?_, .inr ⟨hcreates, acc, ?_, hrewrites.account⟩, fun key => ?_,
      hrewrites.transient.trans hfirst.transient, hlogs.trans hfirst.logs⟩
    · rw [hrewrites.others a ha, hfirst.others a ha]
    · rw [← hlooks.readings.account, hacc]
    · rw [← hfirst.slot]
      by_cases hkey : key.addr = b.frame.message.address
      · obtain ⟨a, slot⟩ := key
        obtain rfl : a = b.frame.message.address := hkey
        exact hslots slot
      · exact hrewrites.slot key hkey
  have hlooked : Coherent ctx.kernel h₁.state := (hlooks.advances hc).coherent
  have hcoherent : Coherent ctx.kernel h₂.state :=
    ((Evolving.evolves _ _ _ hbump : Evolves ctx.kernel h₁ h₂).advances hlooked).coherent
  exact hbumped.of_view hcoherent hview

variable (ctx) in
/-- What is left of a call or a creation that has come to nothing. -/
structure Traceless (b : Activation) (h' : Host) : Prop where
  unchanged : Unchanged ctx b h'
  warms : ∃ marks, Marked ctx b marks ∧ Warms marks b.state.kernel h'

/-! ## Calls that come to nothing -/

/-- What the parent of a child has done in front of the checkpoint. -/
theorem entered_unchanged {b c : Activation} {k : FrameContinuation} {s₁ : MachineState}
    (hb : Coherent ctx.kernel b.state.kernel.state) (henter : Enters ctx b k c)
    (hentered : Entered ctx b.frame (b.fetched ctx) s₁ k c.frame c.state) :
    Unchanged ctx b s₁.kernel := by
  have hprepares := hentered.prepares
  cases k with
  | resumeCall checkpoint off len charged => exact unchanged_of_looks hprepares
  | resumeCreate checkpoint new charged =>
    refine unchanged_of_counted hb ?_ hprepares.2
    obtain ⟨-, -, entry, hentry, hrun⟩ := henter.cases
    cases frameEntry_entry hentry with
    | call kind => cases runCall_waits hrun
    | create kind => exact ⟨kind, hentry⟩

theorem failed_child_traceless {b c d e : Activation} {k : FrameContinuation}
    (hb : Coherent ctx.kernel b.state.kernel.state) (henter : Enters ctx b k c)
    (hchild : (calls ctx).Spans c d) (hresume : Resumes ctx d k e)
    (hfails : k.succeeds ctx d.frame d.status d.state = false) :
    Traceless ctx b e.state.kernel := by
  obtain ⟨-, -, s₁, hentered⟩ := henter.entered
  obtain ⟨-, -, entry, hentry, hrun⟩ := henter.cases
  obtain ⟨-, hfailed, -⟩ := call_advanced hb hentered (spans_runs hchild) hresume
  have hview := hfailed hfails
  have hs₁ : Advanced ctx.kernel b.state.kernel s₁.kernel := hentered.prepares.evolves.advances hb
  have hwarm : e.state.kernel.state.warm = c.state.kernel.state.warm :=
    (congrArg View.warm hview).trans hentered.warm.symm
  rcases frameEntry_marked hentry hrun with ⟨kind, hfailed, -⟩ | ⟨marks, hmarked, hwarms⟩
  · cases hfailed
  · exact ⟨(entered_unchanged hb henter hentered).of_view hs₁.coherent hview, marks, hmarked,
      hwarms.congr hwarm⟩

theorem pushed_top {s : MachineState} {index : Nat} {word : Word} (h : s.sp = index + 1) :
    (s.setOperand index word).top = word := by
  have htop : (s.setOperand index word).sp - 1 = index := by
    show s.sp - 1 = index
    omega
  rw [MachineState.top, htop]
  simp [MachineState.setOperand]

/-- An instruction that has answered zero has looked, or has counted up. -/
theorem answered_unchanged {b : Activation} {entry : Exec FrameTransition}
    {returndata : OutputSlice} {s' : MachineState}
    (hb : Coherent ctx.kernel b.state.kernel.state)
    (hentry : frameEntry ctx b.frame (b.instruction ctx) = some entry)
    (hrun : entry (b.fetched ctx) = .ok (.stays returndata, s')) (hzero : s'.top = 0) :
    Unchanged ctx b s'.kernel := by
  cases frameEntry_entry hentry with
  | call kind =>
    rcases runCall_cases hrun with ⟨kind, hfailed, -⟩ |
      ⟨o, c, delegate, base, pools, kernel, hpaid, henter⟩
    · cases hfailed
    obtain ⟨height, args, ret, childGas, kernel', hlooks, -, -, hends⟩ := enterCall_cases henter
    have hlooked : Looks ctx.kernel b.state.kernel kernel' :=
      IsTrans.trans _ _ _ hpaid.looks hlooks
    cases hends with
    | refused | precompileFailed => exact unchanged_of_looks hlooked
    | precompileRan cost gas destination output bytes kernel'' =>
      -- a precompile that has run has answered one
      have hone : (1 : Word) = 0 := (pushed_top rfl).symm.trans hzero
      cases hone
  | create kind =>
    rcases runCreate_cases hrun with ⟨kind, hfailed, -⟩ |
      ⟨value, salt, c, initcode, pools, height, hpaid, -, hguard⟩
    · cases hfailed
    rcases guardCreate_cases hguard with ⟨kind, hfailed, -⟩ | hends
    · cases hfailed
    cases hends with
    | refused gas kernel hlooks => exact unchanged_of_looks hlooks
    | occupied targetEmpty p pools' kernel hdepth hcharge hcredit hcounted =>
      exact unchanged_of_counted hb ⟨kind, hentry⟩ hcounted

theorem refused_traceless {b e : Activation} (hb : Coherent ctx.kernel b.state.kernel.state)
    (hstays : Stays ctx b e) (hrunning : e.status = .running)
    (hentry : (frameEntry ctx b.frame (b.instruction ctx)).isSome) (hzero : e.state.top = 0) :
    Traceless ctx b e.state.kernel := by
  obtain ⟨-, ⟨status, s', -, hnone | ⟨kind, rfl⟩, rfl⟩ |
    ⟨entry, returndata, s', hsome, hrun, rfl⟩⟩ := hstays.cases
  · rw [hnone] at hentry
    cases hentry
  · cases hrunning
  · have hunchanged := answered_unchanged hb hsome hrun hzero
    rcases frameEntry_marked hsome hrun with ⟨kind, hfailed, -⟩ | hmarked
    · cases hfailed
    · exact ⟨hunchanged, hmarked⟩

/-- In every run: a call or a creation whose child fails, or whose code is not
accepted, or which answers zero without a child, leaves of the host what was
there in front of it, but for the marks and the nonce of its parent.  One
that succeeds keeps what it has done, until a frame around it fails. -/
theorem failed_calls_leave_no_trace {a₀ b : Activation} {ks : List FrameContinuation}
    (h₀ : Coherent ctx.kernel a₀.state.kernel.state)
    (hrun : (calls ctx).Steps (a₀, []) (b, ks)) :
    (∀ k c d e, Enters ctx b k c → (calls ctx).Spans c d → Resumes ctx d k e →
      (k.succeeds ctx d.frame d.status d.state = false → Traceless ctx b e.state.kernel) ∧
      (k.succeeds ctx d.frame d.status d.state = true →
        (∃ deployed, k.Deploys ctx d.state.kernel deployed ∧
          e.state.kernel.state = deployed.state) ∧
        ∀ b' k' c' d' e' ks' inside, (calls ctx).Steps (a₀, []) (b', ks') → Enters ctx b' k' c' →
          (calls ctx).Steps (c', []) (b, inside) → (calls ctx).Steps (e, inside) (d', []) →
          Resumes ctx d' k' e' → k'.succeeds ctx d'.frame d'.status d'.state = false →
          Traceless ctx b' e'.state.kernel)) ∧
    ∀ e, Stays ctx b e → e.status = .running →
      (frameEntry ctx b.frame (b.instruction ctx)).isSome → e.state.top = 0 →
      Traceless ctx b e.state.kernel := by
  have hcoherent : ∀ x xs, (calls ctx).Steps (a₀, []) (x, xs) →
      Coherent ctx.kernel x.state.kernel.state :=
    fun x xs h => spine_coherent h₀ (Nesting.steps_iff_spine.mp h)
  have hb := hcoherent b ks hrun
  refine ⟨fun k c d e henter hchild hresume => ⟨failed_child_traceless hb henter hchild hresume,
    fun hsucceeds => ⟨?_, ?_⟩⟩, fun e hstays => refused_traceless hb hstays⟩
  · obtain ⟨s₁, -, -, -, hsucceeded, -⟩ := child_settled h₀ hrun henter hchild hresume
    exact hsucceeded hsucceeds
  · intro b' k' c' d' e' ks' inside hrun' henter' hbefore hbehind hresume' hfails
    have haround : (calls ctx).Spans c' d' := Nesting.spans_of_steps
      ((Nesting.steps_resumed hbefore henter hchild hresume).trans hbehind)
    exact failed_child_traceless (hcoherent b' ks' hrun') henter' haround hresume' hfails

/-- The callee has been paid, has stored, and fails. -/
theorem failed_calls_leave_no_trace_paid : ∃ r : Call,
    Resumes settledAmsterdam r.ended r.waits r.back ∧
      balanceReading settledAmsterdam.kernel r.ended.state.kernel.state callee = 17 ∧
      Traceless settledAmsterdam r.before r.back.state.kernel := by
  have hfound : found (payingCall 13 fails) (fun r =>
      balanceReading settledAmsterdam.kernel r.ended.state.kernel.state callee = 17 ∧
        r.waits.succeeds settledAmsterdam r.ended.frame r.ended.status r.ended.state = false) =
      true := by
    decide +kernel
  obtain ⟨r, hrun, henter, hchild, hresume, hfacts⟩ := Call.of_any hfound
  obtain ⟨hpaid, hsucceeds⟩ := of_decide_eq_true hfacts
  have hcoherent : Coherent settledAmsterdam.kernel (paying fails).state.kernel.state :=
    coherent_calleeHost (by decide +kernel)
  obtain ⟨hcalls, -⟩ := failed_calls_leave_no_trace hcoherent hrun
  exact ⟨r, hresume, hpaid, (hcalls _ _ _ _ henter hchild hresume).1 hsucceeds⟩

end

end EvmSail.Vm
