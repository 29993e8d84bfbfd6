/-
# `EvmSail.Vm.Rules` — the moves of a program, rule by rule

The judgement `Meets` over the height of the operand stack: from a state
with at least `lo` and at most `hi` operands.  The guard in front of a
handler gives both bounds, what pops a word lowers them and what pushes one
needs room for it.

What comes first in a program only has to be `Calm`: it leaves the height
and moves quietly.  Behind the last failure it may be `Free` as well.
-/
import EvmSail.Evm.ArenaBound
import EvmSail.Vm.Moves

namespace EvmSail.Vm

open Fallible Kernel Relation

section

variable (ctx : Context) (f : Frame)

/-- Only the caches of the host, its recorder and its warm marks differ. -/
def Peeked (s s' : MachineState) : Prop :=
  ∃ kernel, Looks ctx.kernel s.kernel kernel ∧ s' = { s with kernel := kernel }

instance : IsPreorder MachineState (Peeked ctx) where
  refl s := ⟨s.kernel, Std.Refl.refl s.kernel, rfl⟩
  trans s s₁ s₂ h₁ h₂ := by
    obtain ⟨kernel, hlooks, rfl⟩ := h₁
    obtain ⟨kernel', hlooks', rfl⟩ := h₂
    exact ⟨kernel', IsTrans.trans _ _ _ hlooks hlooks', rfl⟩

def Calmly (s s' : MachineState) : Prop := QuietMoves ctx f s s' ∧ s'.sp = s.sp

def Freely (s s' : MachineState) : Prop := Moves ctx f s s' ∧ s'.sp = s.sp

instance : IsPreorder MachineState (Calmly ctx f) where
  refl _ := ⟨.refl, rfl⟩
  trans _ _ _ h₁ h₂ := ⟨h₁.1.trans h₂.1, h₂.2.trans h₁.2⟩

instance : IsPreorder MachineState (Freely ctx f) where
  refl _ := ⟨.refl, rfl⟩
  trans _ _ _ h₁ h₂ := ⟨h₁.1.trans h₂.1, h₂.2.trans h₁.2⟩

/-- The stack holds between `lo` and `hi` words. -/
def Height (lo hi : Nat) (s : MachineState) : Prop := lo ≤ s.sp ∧ s.sp ≤ hi

abbrev Peeks {α : Type} (x : Exec α) : Prop := Leads (Peeked ctx) x

abbrev Calm {α : Type} (x : Exec α) : Prop := Leads (Calmly ctx f) x

abbrev Free {α : Type} (x : Exec α) : Prop := Leads (Freely ctx f) x

end

/-- The judgement on handlers. -/
def Does {S : Type} (P : Context → Frame → MachineState → S → MachineState → Prop) (ctx : Context)
    (f : Frame) (lo hi : Nat) (x : Exec S) : Prop :=
  Meets (Height lo hi) (P ctx f) x

section

variable {ctx : Context} {f : Frame} {α S : Type} {lo hi : Nat}
  {P : Context → Frame → MachineState → S → MachineState → Prop}

/-! ## What leaves the height -/

theorem Calmly.of_move {s s' : MachineState} (h : QuietMove ctx f s s') (hsp : s'.sp = s.sp) :
    Calmly ctx f s s' := ⟨.single h, hsp⟩

theorem Peeked.draw {s s' : MachineState} (h : Peeked ctx s s') : Draw ctx f s s' := by
  obtain ⟨kernel, hlooks, rfl⟩ := h
  exact .look kernel hlooks

theorem Peeked.sp {s s' : MachineState} (h : Peeked ctx s s') : s'.sp = s.sp := by
  obtain ⟨kernel, -, rfl⟩ := h
  rfl

theorem Peeks.calm {x : Exec α} (hx : Peeks ctx x) : Calm ctx f x :=
  hx.mono fun _ _ h => .of_move (.draw h.draw) h.sp

theorem Calm.free {x : Exec α} (hx : Calm ctx f x) : Free ctx f x :=
  hx.mono fun _ _ h => ⟨h.1.moves, h.2⟩

/-- A kernel program that looks. -/
theorem peeks_syscall {R : Host → Host → Prop} (x : Kept R Halt α)
    [hx : @Looking ctx.kernel R α x] : Peeks ctx (syscall x) := by
  intro s a s' hrun
  obtain ⟨r, hr, hrun⟩ := bind_eq_ok.mp hrun
  cases hrun
  exact ⟨r.2, hx.looks s.kernel r.1 r.2 hr, rfl⟩

/-- The balance that is read. -/
theorem kGetBalance_reading {a : Address} {s s' : MachineState} {bal : Word}
    (h : syscall (kGetBalance ctx.kernel a) s = .ok (bal, s')) :
    balanceReading ctx.kernel s'.kernel.state a = bal.toNat := by
  obtain ⟨⟨bal', kernel⟩, hread, h⟩ := bind_eq_ok.mp h
  cases h
  obtain ⟨⟨acc, kernel'⟩, hload, hread⟩ := bind_eq_ok.mp hread
  cases hread
  obtain ⟨hacc, hsame, -⟩ := kAload_loaded hload
  exact balanceReading_ok ((hsame.account a).trans hacc)

/-- A kernel program that writes, and stores to no slot. -/
theorem free_syscall {R : Host → Host → Prop} {x : Kept R Halt α} [hx : @Evolving ctx.kernel R α x]
    (hstatic : f.message.isStatic = false)
    (hwrite : ∀ h a h', x.run h = .ok (a, h') → Write ctx.kernel f.message.address h h') :
    Free ctx f (syscall x) := by
  intro s a s' hrun
  obtain ⟨r, hr, hrun⟩ := bind_eq_ok.mp hrun
  cases hrun
  have hevolves := hx.evolves s.kernel r.1 r.2 hr
  exact ⟨.single (.write r.2 hstatic (hwrite s.kernel r.1 r.2 hr) hevolves), rfl⟩

theorem peeks_stackSlotRead (index : Nat) : Peeks ctx (stackSlotRead index) := by
  intro s a s' hrun
  cases hrun
  exact Std.Refl.refl s

theorem peeks_memoryRegion (off len : Nat) : Peeks ctx (memoryRegion ctx off len) :=
  .ite (.pure _) (.lift _)

/-- The bytes below `off` stay. -/
theorem withBytes_below (s : MachineState) (off : Nat) (bytes : List Byte) {i : Nat}
    (h : i < off) : (s.withBytes off bytes).memory i = s.memory i :=
  if_neg fun hin => absurd hin.1 (by omega)

theorem calm_writeBytes {off : Nat} (bytes : MachineState → List Byte)
    (h : f.memoryBase ≤ off) : Calm ctx f (writeBytes off bytes) := by
  intro s a s' hrun
  cases hrun
  refine .of_move (.store _ fun i hi => ?_) rfl
  exact withBytes_below s off (bytes s) (by omega)

theorem memoryAbsolute_base {base relative absolute : Nat}
    (h : memoryAbsolute base relative = .ok absolute) : absolute = base + relative := by
  rw [memoryAbsolute] at h
  split at h
  · cases h
    rfl
  · cases h

/-- What follows an absolute position of the frame. -/
theorem calm_absolute {off : Nat} {k : Nat → Exec α}
    (hk : ∀ absolute, f.memoryBase ≤ absolute → Calm ctx f (k absolute)) :
    Calm ctx f (liftM (memoryAbsolute f.memoryBase off) >>= k) := by
  intro s a s' hrun
  obtain ⟨absolute, s₁, hlift, hrun⟩ := bind_apply_eq_ok.mp hrun
  obtain ⟨habsolute, rfl⟩ := liftM_apply_eq_ok.mp hlift
  obtain rfl := memoryAbsolute_base habsolute
  exact hk _ (Nat.le_add_right _ _) _ a s' hrun

theorem activeMemorySlice_state {access : MemoryAccess} {s s' : MachineState} {data : Slice}
    (hrun : activeMemorySlice ctx f access s = .ok (data, s')) : s' = s := by
  simp only [activeMemorySlice] at hrun
  split at hrun
  · cases hrun
    rfl
  · split at hrun
    · obtain ⟨_, -, hrun⟩ := bind_eq_ok.mp hrun
      cases hrun
      rfl
    · cases hrun

theorem peeks_activeMemorySlice (access : MemoryAccess) :
    Peeks ctx (activeMemorySlice ctx f access) := by
  intro s data s' hrun
  obtain rfl := activeMemorySlice_state hrun
  exact Std.Refl.refl s'

theorem peeks_activeMemoryBytes (access : MemoryAccess) :
    Peeks ctx (activeMemoryBytes ctx f access) :=
  .bind (peeks_activeMemorySlice access) fun _ => .bind .get fun _ => .pure _

theorem peeks_memLoad (off : Nat) : Peeks ctx (memLoad ctx f off) :=
  .bind (.lift _) fun _ => .bind (peeks_memoryRegion _ _) fun _ => .bind .get fun _ => .pure _

theorem calm_memWrite (off : Nat) (bytes : List Byte) : Calm ctx f (memWrite ctx f off bytes) :=
  calm_absolute fun _ habsolute =>
    .bind (peeks_memoryRegion _ _).calm fun _ => calm_writeBytes _ habsolute

theorem calm_memMcopy (dst src len : Nat) : Calm ctx f (memMcopy ctx f dst src len) := by
  refine .ite (calm_absolute fun absoluteDst habsolute => ?_) (.pure _)
  refine .bind (.lift _) fun absoluteSrc => .bind (peeks_memoryRegion _ _).calm fun _ => ?_
  exact .bind (peeks_memoryRegion _ _).calm fun _ => calm_writeBytes _ habsolute

theorem peeks_memKeccak (access : MemoryAccess) : Peeks ctx (memKeccak ctx f access) :=
  .bind (peeks_activeMemoryBytes access) fun _ => .pure _

theorem calm_sliceCopy {dst : Nat} (bytes : MachineState → List Byte) (off len : Nat)
    (h : f.memoryBase ≤ dst) : Calm ctx f (sliceCopy ctx bytes dst off len) :=
  .bind (peeks_memoryRegion _ _).calm fun _ => calm_writeBytes _ h

theorem calm_sliceCopyWordOffset {dst : Nat} (bytes : MachineState → List Byte) (off : Word)
    (len : Nat) (h : f.memoryBase ≤ dst) :
    Calm ctx f (sliceCopyWordOffset ctx bytes dst off len) :=
  .bind .get fun _ => .ite (calm_sliceCopy _ _ _ h) (calm_sliceCopy _ _ _ h)

theorem freezeOutput_state {data : Slice} {s s' : MachineState} {output : OutputSlice}
    (hrun : freezeOutput ctx data s = .ok (output, s')) :
    ∃ buffer, s' = { s with output := buffer } := by
  simp only [freezeOutput] at hrun
  split at hrun
  · cases hrun
    exact ⟨s.output, rfl⟩
  · split at hrun
    · cases hrun
      exact ⟨_, rfl⟩
    · cases hrun
      exact ⟨s.output, rfl⟩

theorem free_freezeOutput (data : Slice) : Free ctx f (freezeOutput ctx data) := by
  intro s output s' hrun
  obtain ⟨buffer, rfl⟩ := freezeOutput_state hrun
  exact ⟨.single (.freeze buffer), rfl⟩

theorem free_countRefund {delta : Int} (hdelta : 0 ≤ delta) : Free ctx f (countRefund delta) := by
  intro s a s' hrun
  obtain ⟨refund, hrefund, hrun⟩ := bind_eq_ok.mp hrun
  cases hrun
  exact ⟨.single (.refund delta refund hdelta hrefund), rfl⟩

theorem calm_setPc {pc : Nat} (h : pc ∈ f.code.jumpdests) : Calm ctx f (setPc pc) := by
  intro s a s' hrun
  cases hrun
  exact .of_move (.jump pc h) rfl

/-! ## Sequences -/

namespace Does

/-- What is done first leads from one height to the next. -/
theorem first (R : MachineState → MachineState → Prop) [FollowsOn R (P ctx f)] {mid top : Nat}
    {x : Exec α} {k : α → Exec S}
    (hx : ∀ s a s', Height lo hi s → x s = .ok (a, s') → R s s' ∧ Height mid top s')
    (hk : ∀ a, Does P ctx f mid top (k a)) : Does P ctx f lo hi (x >>= k) :=
  Meets.bind hx hk

theorem ite {c : Prop} [Decidable c] {x y : Exec S} (hx : Does P ctx f lo hi x)
    (hy : Does P ctx f lo hi y) : Does P ctx f lo hi (if c then x else y) :=
  Meets.ite hx hy

/-- What follows an absolute position of the frame. -/
theorem absolute {off : Nat} {k : Nat → Exec S}
    (hk : ∀ absolute, f.memoryBase ≤ absolute → Does P ctx f lo hi (k absolute)) :
    Does P ctx f lo hi (liftM (memoryAbsolute f.memoryBase off) >>= k) := by
  intro s r s' hs hrun
  obtain ⟨absolute, s₁, hlift, hrest⟩ := bind_apply_eq_ok.mp hrun
  obtain ⟨habsolute, rfl⟩ := liftM_apply_eq_ok.mp hlift
  obtain rfl := memoryAbsolute_base habsolute
  exact hk _ (Nat.le_add_right _ _) s₁ r s' hs hrest

theorem peek [FollowsOn (Draws ctx f) (P ctx f)] {x : Exec α} {k : α → Exec S} (hx : Peeks ctx x)
    (hk : ∀ a, Does P ctx f lo hi (k a)) : Does P ctx f lo hi (x >>= k) :=
  first (Draws ctx f) (fun s a s' hs hrun => by
    have hpeeked := hx s a s' hrun
    exact ⟨.single hpeeked.draw, by rwa [Height, hpeeked.sp]⟩) hk

theorem pop [FollowsOn (Draws ctx f) (P ctx f)] {k : Word → Exec S}
    (hk : ∀ word, Does P ctx f lo hi (k word)) :
    Does P ctx f (lo + 1) (hi + 1) (popWord >>= k) :=
  first (Draws ctx f) (fun s word s' hs hrun => by
    obtain ⟨hlo, hhi⟩ := hs
    cases hrun
    refine ⟨.single (.pop (by omega)), ?_⟩
    show lo ≤ s.sp - 1 ∧ s.sp - 1 ≤ hi
    omega) hk

theorem calm [FollowsOn (QuietMoves ctx f) (P ctx f)] {x : Exec α} {k : α → Exec S}
    (hx : Calm ctx f x) (hk : ∀ a, Does P ctx f lo hi (k a)) : Does P ctx f lo hi (x >>= k) :=
  first (QuietMoves ctx f) (fun s a s' hs hrun => by
    obtain ⟨hmoves, hsp⟩ := hx s a s' hrun
    exact ⟨hmoves, by rwa [Height, hsp]⟩) hk

theorem free [FollowsOn (Moves ctx f) (P ctx f)] {x : Exec α} {k : α → Exec S} (hx : Free ctx f x)
    (hk : ∀ a, Does P ctx f lo hi (k a)) : Does P ctx f lo hi (x >>= k) :=
  first (Moves ctx f) (fun s a s' hs hrun => by
    obtain ⟨hmoves, hsp⟩ := hx s a s' hrun
    exact ⟨hmoves, by rwa [Height, hsp]⟩) hk

theorem push [FollowsOn (QuietMoves ctx f) (P ctx f)] {k : Unit → Exec S} {word : Word}
    (hroom : hi < stackLimit) (hk : Does P ctx f (lo + 1) (hi + 1) (k ())) :
    Does P ctx f lo hi (pushWord word >>= k) :=
  first (QuietMoves ctx f) (fun s _ s' hs hrun => by
    obtain ⟨hlo, hhi⟩ := hs
    cases hrun
    refine ⟨.single ?_, ?_⟩
    · exact .push (by omega) word
    · show lo + 1 ≤ s.sp + 1 ∧ s.sp + 1 ≤ hi + 1
      omega) fun _ => hk

theorem set [FollowsOn (QuietMoves ctx f) (P ctx f)] {k : Unit → Exec S} {index : Nat}
    {word : Word} (hindex : index < lo) (hk : Does P ctx f lo hi (k ())) :
    Does P ctx f lo hi (stackSlotWrite index word >>= k) :=
  first (QuietMoves ctx f) (fun s _ s' hs hrun => by
    cases hrun
    exact ⟨.single (.set index (lt_of_lt_of_le hindex hs.1) word), hs⟩) fun _ => hk

end Does

/-! ## Operands of memory -/

theorem operandsHeight_noOperand (a : Operand) :
    operandsHeight a noOperand = memoryRequestedHeight a.start a.size := by
  rw [operandsHeight]
  exact if_neg (Nat.not_lt_zero _)

theorem requestedHeight_noOperand (access : MemoryAccess) :
    (if access.requestedHeight < 0 then 0 else access.requestedHeight) = access.requestedHeight :=
  if_neg (Nat.not_lt_zero _)

/-- A paid endpoint that is materialized is one move. -/
theorem draw_reach {a b : Operand} {first second : MemoryAccess} {s s' : MachineState}
    (haffordable : (memoryExpansionGasCost s.memoryHeight (operandsHeight a b) s.gas).affordable
      = true)
    (ha : memoryAccess a = .ok first) (hb : memoryAccess b = .ok second)
    (hgrow : growMemory ctx f
      (if first.requestedHeight < second.requestedHeight then second.requestedHeight
        else first.requestedHeight)
      { s with gas := gasSub s.gas
                 (memoryExpansionGasCost s.memoryHeight (operandsHeight a b) s.gas).cost } =
        .ok ((), s')) : Draw ctx f s s' ∧ s'.sp = s.sp := by
  obtain ⟨height, hheight, hgrow⟩ := bind_eq_ok.mp hgrow
  cases hgrow
  refine ⟨.reach a b _ height first second (if_pos haffordable) ?_, rfl⟩
  rw [materialize, ha, ok_bind, hb, ok_bind]
  exact bind_eq_ok.mpr ⟨height, hheight, rfl⟩

/-! ## Failing -/

/-- A program may always fail. -/
class Failing (ctx : Context) (f : Frame) [Outcome S]
    (P : Context → Frame → MachineState → S → MachineState → Prop) : Prop where
  fails : ∀ s s' kind, QuietMoves ctx f s s' → P ctx f s (Outcome.failed kind) s'

instance (least : Nat) : Failing ctx f (Executed least) where
  fails _ _ kind hmoves := .fails kind hmoves.failing

instance (least : Nat) : Failing ctx f (Acted least) where
  fails _ _ kind hmoves := .fails kind hmoves.failing

namespace Does

variable [Outcome S] [hP : Failing ctx f P]

theorem fail (kind : ExceptionKind) : Does P ctx f lo hi (fail kind) := by
  intro s r s' _ hrun
  cases hrun
  exact hP.fails s s kind .refl

theorem failEmpty_eq {s s' : MachineState} {r : S} {kind : ExceptionKind}
    (hrun : Vm.failEmpty kind s = .ok (r, s')) : P ctx f s r s' := by
  cases hrun
  have hmove : QuietMove ctx f s { s with gas := gasSub s.gas s.gas } :=
    .draw (.spend s.gas (Nat.le_refl _))
  rw [gasSub_eq, Nat.sub_self] at hmove
  exact hP.fails s _ kind (.single hmove)

theorem failEmpty (kind : ExceptionKind) : Does P ctx f lo hi (failEmpty kind) :=
  fun _ _ _ _ hrun => failEmpty_eq hrun

/-- What is behind the guard of the stack knows its height. -/
theorem guardStack {inputs outputs lo' hi' : Nat} {k : Exec S}
    (hhi : stackLimit + inputs ≤ hi + outputs) (hk : Does P ctx f inputs hi k) :
    Does P ctx f lo' hi' (behind (guardStack inputs outputs) k) := by
  intro s r s' _ hrun
  rw [behind] at hrun
  rw [Vm.guardStack] at hrun
  simp only [validateStack] at hrun
  split at hrun
  · next hguard => exact failEmpty_eq hrun
  · next hguard =>
    refine hk s r s' ?_ hrun
    split at hguard
    · next hvalid =>
      split at hvalid
      · cases hvalid
      · split at hvalid
        · cases hvalid
        · exact ⟨by omega, by omega⟩
    · cases hguard
    · cases hguard

/-- What is behind the guard of static frames is not in one. -/
theorem guardStatic {k : Exec S}
    (hk : f.message.isStatic = false → Does P ctx f lo hi k) :
    Does P ctx f lo hi (behind (guardStatic f.message.isStatic) k) := by
  intro s r s' hs hrun
  rw [behind, Vm.guardStatic] at hrun
  cases hstatic : f.message.isStatic with
  | true =>
    rw [hstatic] at hrun
    exact failEmpty_eq hrun
  | false =>
    rw [hstatic] at hrun
    exact hk hstatic s r s' hs hrun

variable [FollowsOn (Draws ctx f) (P ctx f)]

theorem charge {cost : Nat} {k : Exec S} (hk : Does P ctx f lo hi k) :
    Does P ctx f lo hi (charge cost k) := by
  intro s r s' hs hrun
  rw [Vm.charge] at hrun
  split at hrun
  · exact failEmpty_eq hrun
  · exact FollowsOn.follow (R := Draws ctx f) s _ r s'
      (.single (.spend cost (by omega))) (hk _ r s' hs hrun)

theorem chargeAffordable {cost : Nat → GasCharge} {k : Exec S}
    (hcost : ∀ gas, (cost gas).Covered gas) (hk : Does P ctx f lo hi k) :
    Does P ctx f lo hi (chargeAffordable cost k) := by
  intro s r s' hs hrun
  rw [Vm.chargeAffordable] at hrun
  split at hrun
  · next haffordable =>
    exact FollowsOn.follow (R := Draws ctx f) s _ r s'
      (.single (.spend _ (hcost s.gas haffordable))) (hk _ r s' hs hrun)
  · exact failEmpty_eq hrun

theorem chargeState {amount : Nat} {k : Exec S} (hk : Does P ctx f lo hi k) :
    Does P ctx f lo hi (chargeState amount k) := by
  intro s r s' hs hrun
  obtain ⟨⟨halt, pools⟩, hcharge, hrun⟩ := bind_eq_ok.mp hrun
  cases halt with
  | true =>
    obtain ⟨-, rfl⟩ | ⟨hhalt, -⟩ := chargeStateGas_eq_ok hcharge
    · exact fail .outOfGas s r s' hs hrun
    · cases hhalt
  | false =>
    exact FollowsOn.follow (R := Draws ctx f) s _ r s'
      (.single (.stateCharge amount pools hcharge)) (hk _ r s' hs hrun)

/-- One operand of memory. -/
theorem withOperand {start size : Word} {k : MemoryAccess → Exec S}
    (hk : ∀ access, Does P ctx f lo hi (k access)) :
    Does P ctx f lo hi (withOperand ctx f start size k) := by
  intro s r s' hs hrun
  rw [Vm.withOperand, ← operandsHeight_noOperand ⟨start.toNat, size.toNat⟩, chargeExpansion,
    Vm.chargeAffordable] at hrun
  split at hrun
  · next haffordable =>
    obtain ⟨access, s₁, hreach, hrun⟩ := bind_apply_eq_ok.mp hrun
    obtain ⟨access', s₂, hlift, hreach⟩ := bind_apply_eq_ok.mp hreach
    obtain ⟨haccess, rfl⟩ := liftM_apply_eq_ok.mp hlift
    obtain ⟨⟨⟩, s₃, hgrow, hreach⟩ := bind_apply_eq_ok.mp hreach
    cases hreach
    rw [← requestedHeight_noOperand access] at hgrow
    obtain ⟨hdraw, hsp⟩ := @draw_reach ctx f _ noOperand access ⟨0, 0, 0⟩ s s₁ haffordable
      haccess rfl hgrow
    exact FollowsOn.follow (R := Draws ctx f) s _ r s' (.single hdraw)
      (hk _ _ r s' (by rwa [Height, hsp]) hrun)
  · exact failEmpty_eq hrun

/-- Two operands of memory. -/
theorem withOperands {a b : Operand} {k : MemoryAccess × MemoryAccess → Exec S}
    (hk : ∀ accesses, Does P ctx f lo hi (k accesses)) :
    Does P ctx f lo hi (chargeExpansion (operandsHeight a b) (reachBoth ctx f a b >>= k)) := by
  intro s r s' hs hrun
  rw [chargeExpansion, Vm.chargeAffordable] at hrun
  split at hrun
  · next haffordable =>
    obtain ⟨accesses, s₁, hreach, hrun⟩ := bind_apply_eq_ok.mp hrun
    obtain ⟨first, s₂, hlift₁, hreach⟩ := bind_apply_eq_ok.mp hreach
    obtain ⟨hfirst, rfl⟩ := liftM_apply_eq_ok.mp hlift₁
    obtain ⟨second, s₃, hlift₂, hreach⟩ := bind_apply_eq_ok.mp hreach
    obtain ⟨hsecond, rfl⟩ := liftM_apply_eq_ok.mp hlift₂
    obtain ⟨⟨⟩, s₄, hgrow, hreach⟩ := bind_apply_eq_ok.mp hreach
    cases hreach
    obtain ⟨hdraw, hsp⟩ := draw_reach haffordable hfirst hsecond hgrow
    exact FollowsOn.follow (R := Draws ctx f) s _ r s' (.single hdraw)
      (hk _ _ r s' (by rwa [Height, hsp]) hrun)
  · exact failEmpty_eq hrun

end Does

/-! ## Ends -/

theorem does_proceed : Does Proceeded ctx f lo hi proceed := by
  intro s r s' _ hrun
  cases hrun
  exact ⟨rfl, .refl⟩

theorem Does.of_proceeded {x : Handler} (hx : Does Proceeded ctx f lo hi x) :
    Does (Acted 0) ctx f lo hi x :=
  Meets.mono hx fun s r s' h => by
    obtain ⟨rfl, hmoves⟩ := h
    exact .goesOn hmoves hmoves.regular

theorem does_proceed_acted : Does (Acted 0) ctx f lo hi proceed :=
  does_proceed.of_proceeded

theorem Does.of_ended {x : Exec FrameStatus} {least : Nat}
    (hx : Does Ended ctx f lo hi x) :
    Does (Executed least) ctx f lo hi x :=
  Meets.mono hx fun s r s' h => by
    obtain ⟨kind, rfl, hkind, hmoves⟩ := h
    exact .ends kind hkind hmoves

theorem Executed.afterCharge {cost least : Nat} {s s' : MachineState} {r : OpcodeOutcome}
    (hle : cost ≤ s.gas) (hleast : least ≤ cost)
    (h : Acted 0 ctx f { s with gas := gasSub s.gas cost } r s') : Acted least ctx f s r s' := by
  have hspend : QuietMoves ctx f s { s with gas := gasSub s.gas cost } :=
    .single (.draw (.spend cost hle))
  rw [Acted] at h ⊢
  generalize opcodeFrameStatus r = status at h ⊢
  cases h with
  | goesOn hmoves hspent =>
    refine .goesOn (hspend.moves.trans hmoves) ?_
    simp only [GasPools.regular, gasSub_eq] at hspent ⊢
    omega
  | fails kind hmoves => exact .fails kind (hspend.failing.trans hmoves)
  | ends kind hkind hmoves => exact .ends kind hkind (hspend.moves.trans hmoves)
  | reverts pools buffer output hmoves hpools =>
    exact .reverts pools buffer output (hspend.trans hmoves) hpools

/-- The charge by which an opcode that goes on has spent gas. -/
theorem Does.chargeAtLeast {cost least : Nat} {k : Handler} (hcost : least ≤ cost)
    (hk : Does (Acted 0) ctx f lo hi k) :
    Does (Acted least) ctx f lo hi (Vm.charge cost k) := by
  intro s r s' hs hrun
  rw [Vm.charge] at hrun
  split at hrun
  · exact failEmpty_eq hrun
  · next hle => exact Executed.afterCharge (by omega) hcost (hk _ r s' hs hrun)

theorem Does.chargeAffordableAtLeast {cost : Nat → GasCharge} {least : Nat} {k : Handler}
    (hcost : ∀ gas, (cost gas).Covered gas)
    (hleast : ∀ gas, (cost gas).affordable = true → least ≤ (cost gas).cost)
    (hk : Does (Acted 0) ctx f lo hi k) :
    Does (Acted least) ctx f lo hi (Vm.chargeAffordable cost k) := by
  intro s r s' hs hrun
  rw [Vm.chargeAffordable] at hrun
  split at hrun
  · next haffordable =>
    exact Executed.afterCharge (hcost s.gas haffordable) (hleast s.gas haffordable)
      (hk _ r s' hs hrun)
  · exact failEmpty_eq hrun

end

section

variable {ctx : Context} {f : Frame} {S : Type} [Outcome S]

/-! ## Failing, or going on -/

variable (ctx f) in
/-- The instruction has failed, and has only drawn on its frame. -/
def Fails (s : MachineState) (r : S) (s' : MachineState) : Prop :=
  ∃ kind, r = Outcome.failed kind ∧ Draws ctx f s s'

theorem Fails.after {s s₁ s' : MachineState} {r : S} (hdraws : Draws ctx f s s₁)
    (h : Fails ctx f s₁ r s') : Fails ctx f s r s' := by
  obtain ⟨kind, hr, hdraws'⟩ := h
  exact ⟨kind, hr, hdraws.trans hdraws'⟩

theorem failEmpty_fails {kind : ExceptionKind} {s s' : MachineState} {r : S}
    (h : failEmpty kind s = .ok (r, s')) : Fails ctx f s r s' := by
  cases h
  have hdraw : Draw ctx f s { s with gas := gasSub s.gas s.gas } := .spend s.gas (Nat.le_refl _)
  rw [gasSub_eq, Nat.sub_self] at hdraw
  exact ⟨kind, rfl, .single hdraw⟩

theorem behind_guardStack_cases {inputs outputs : Nat} {k : Exec S} {s s' : MachineState} {r : S}
    (h : behind (guardStack inputs outputs) k s = .ok (r, s')) :
    Fails ctx f s r s' ∨
      inputs ≤ s.sp ∧ s.sp + outputs ≤ stackLimit + inputs ∧ k s = .ok (r, s') := by
  rw [behind, guardStack] at h
  by_cases hinputs : s.sp < inputs
  · rw [validateStack, if_pos hinputs] at h
    exact .inl (failEmpty_fails h)
  · by_cases houtputs : stackLimit < s.sp - inputs + outputs
    · rw [validateStack, if_neg hinputs, if_pos houtputs] at h
      exact .inl (failEmpty_fails h)
    · rw [validateStack, if_neg hinputs, if_neg houtputs] at h
      exact .inr ⟨by omega, by omega, h⟩

theorem charge_cases {cost : Nat} {k : Exec S} {s s' : MachineState} {r : S}
    (h : charge cost k s = .ok (r, s')) :
    Fails ctx f s r s' ∨ ∃ pools, spend s.toGasPools cost = some pools ∧
      Draw ctx f s { s with toGasPools := pools } ∧
      k { s with toGasPools := pools } = .ok (r, s') := by
  rw [charge] at h
  split at h
  · exact .inl (failEmpty_fails h)
  · next hle => exact .inr ⟨_, if_neg hle, .spend cost (by omega), h⟩

theorem chargeAffordable_cases {cost : Nat → GasCharge} {k : Exec S} {s s' : MachineState} {r : S}
    (hcost : ∀ gas, (cost gas).Covered gas) (h : chargeAffordable cost k s = .ok (r, s')) :
    Fails ctx f s r s' ∨ ∃ pools, spend s.toGasPools (cost s.gas).cost = some pools ∧
      Draw ctx f s { s with toGasPools := pools } ∧
      k { s with toGasPools := pools } = .ok (r, s') := by
  rw [chargeAffordable] at h
  split at h
  · next haffordable =>
    have hle := hcost s.gas haffordable
    exact .inr ⟨_, if_neg (by omega), .spend _ hle, h⟩
  · exact .inl (failEmpty_fails h)

theorem chargeExpansion_cases {requestedHeight : Nat} {k : Exec S} {s s' : MachineState} {r : S}
    (h : chargeExpansion requestedHeight k s = .ok (r, s')) :
    Fails ctx f s r s' ∨ ∃ pools,
      spendExpansion s.toGasPools s.memoryHeight requestedHeight = some pools ∧
      Draw ctx f s { s with toGasPools := pools } ∧
      k { s with toGasPools := pools } = .ok (r, s') := by
  rw [chargeExpansion, chargeAffordable] at h
  split at h
  · next haffordable =>
    have hle := (memoryExpansionGasCost_affordable haffordable).2.1
    exact .inr ⟨_, if_pos haffordable, .spend _ hle, h⟩
  · exact .inl (failEmpty_fails h)

theorem draws_pops {n : Nat} {s : MachineState} (h : n ≤ s.sp) :
    Draws ctx f s { s with sp := s.sp - n } := by
  induction n with
  | zero => exact .refl
  | succ n ih => exact (ih (by omega)).tail (.pop (by show 0 < s.sp - n; omega))

end

end EvmSail.Vm
