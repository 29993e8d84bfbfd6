/-
# `EvmSail.Vm.MemoryWindow` — the memory that a frame sees

All frames share one arena.  Of it a frame sees what is above its base and
below its height, and zeros behind that: whatever an earlier frame has left
there is overwritten when the height is raised (`MachineState.window`).  So
growth is not seen, and a step of a frame changes of its memory only the
range that its instruction names: `stored` gives the range for the
instructions that write themselves, and a call has named the range for the
output of its child (`Stays.windowed`, `call_windowed`).
-/
import EvmSail.Vm.Discipline

namespace EvmSail.Vm

open Fallible Kernel Kept Relation

/-! ## Windows -/

/-- The byte `i` of a frame's memory. -/
def MachineState.window (base : Nat) (s : MachineState) (i : Nat) : Byte :=
  if i < s.memoryHeight then s.memory (base + i) else 0

/-- Of the memory of a frame nothing changes but the range `o`; it may grow. -/
structure Windowed (base : Nat) (o : Operand) (s s' : MachineState) : Prop where
  height : s.memoryHeight ≤ s'.memoryHeight
  window : ∀ i, i < o.start ∨ o.start + o.size ≤ i → s'.window base i = s.window base i

instance (base : Nat) (o : Operand) : IsPreorder MachineState (Windowed base o) where
  refl _ := ⟨Nat.le_refl _, fun _ _ => rfl⟩
  trans _ _ _ h₁ h₂ :=
    ⟨h₁.height.trans h₂.height, fun i hi => (h₂.window i hi).trans (h₁.window i hi)⟩

section

variable {base : Nat} {o : Operand} {s s' : MachineState}

theorem Windowed.of_same (hmemory : s'.memory = s.memory)
    (hheight : s'.memoryHeight = s.memoryHeight) : Windowed base o s s' := by
  refine ⟨hheight.ge, fun i _ => ?_⟩
  rw [MachineState.window, MachineState.window, hmemory, hheight]

/-- What changes nothing changes no range. -/
theorem Windowed.widen (h : Windowed base noOperand s s') (o : Operand) : Windowed base o s s' :=
  ⟨h.height, fun i _ => h.window i (.inr (Nat.zero_le i))⟩

/-- Memory that grows is zero where it has grown. -/
theorem windowed_grown (f : Frame) (pools : GasPools) {height : Nat}
    (h : s.memoryHeight ≤ height) :
    Windowed f.memoryBase noOperand s (s.grown f pools height) := by
  refine ⟨h, fun i _ => ?_⟩
  show (if i < height then _ else 0) = if i < s.memoryHeight then _ else 0
  by_cases hbelow : i < s.memoryHeight
  · rw [if_pos hbelow, if_pos (by omega)]
    exact MachineState.grown_below s pools height (by omega)
  · rw [if_neg hbelow]
    split
    · exact MachineState.grown_fresh s pools height (by omega) (by omega)
    · rfl

theorem windowed_withBytes (s : MachineState) (off : Nat) (bytes : List Byte) :
    Windowed base { start := off, size := bytes.length } s (s.withBytes (base + off) bytes) := by
  refine ⟨Nat.le_refl _, fun i hi => ?_⟩
  show (if i < s.memoryHeight then (s.withBytes (base + off) bytes).memory (base + i) else 0) = _
  have hkept : (s.withBytes (base + off) bytes).memory (base + i) = s.memory (base + i) :=
    if_neg (by dsimp only at hi; omega)
  rw [hkept]
  rfl

/-- A range that is established is the one that was named, unless it is empty. -/
theorem Windowed.named {access : MemoryAccess} (haccess : memoryAccess o = .ok access)
    (h : Windowed base { start := access.off, size := access.len } s s') :
    Windowed base o s s' := by
  obtain ⟨-, hlen, hoff⟩ := memoryAccess_cases haccess
  refine ⟨h.height, fun i hi => h.window i ?_⟩
  show i < access.off ∨ access.off + access.len ≤ i
  by_cases hzero : access.len = 0
  · omega
  · rw [hoff hzero, hlen]
    exact hi

end

/-! ## Rules -/

/-- The judgement on programs. -/
abbrev Windows {α : Type} (base : Nat) (o : Operand) (x : Exec α) : Prop :=
  Leads (Windowed base o) x

/-- The judgement on a program in a state whose operands name the range. -/
def WindowsAt {α : Type} (base : Nat) (o : Operand) (s : MachineState) (x : Exec α) : Prop :=
  ∀ a s', x s = .ok (a, s') → Windowed base o s s'

section

variable {ctx : Context} {f : Frame} {base : Nat} {o : Operand} {α S : Type} [Outcome S]

theorem windows_of_same {x : Exec α} (h : ∀ s a s', x s = .ok (a, s') →
    s'.memory = s.memory ∧ s'.memoryHeight = s.memoryHeight) : Windows base o x :=
  fun s a s' hrun => .of_same (h s a s' hrun).1 (h s a s' hrun).2

theorem windows_popWord : Windows base o popWord :=
  windows_of_same fun _ _ _ hrun => by
    cases hrun
    exact ⟨rfl, rfl⟩

theorem windows_pushWord (word : Word) : Windows base o (pushWord word) :=
  windows_of_same fun _ _ _ hrun => by
    cases hrun
    exact ⟨rfl, rfl⟩

theorem windows_stackSlotRead (index : Nat) : Windows base o (stackSlotRead index) :=
  windows_of_same fun _ _ _ hrun => by
    cases hrun
    exact ⟨rfl, rfl⟩

theorem windows_stackSlotWrite (index : Nat) (word : Word) :
    Windows base o (stackSlotWrite index word) :=
  windows_of_same fun _ _ _ hrun => by
    cases hrun
    exact ⟨rfl, rfl⟩

theorem windows_syscall {R : Host → Host → Prop} (x : Kept R Halt α) :
    Windows base o (syscall x) :=
  windows_of_same fun _ _ _ hrun => by
    obtain ⟨kernel, -, rfl⟩ := syscall_cases hrun
    exact ⟨rfl, rfl⟩

theorem windows_setPc (pc : Nat) : Windows base o (setPc pc) :=
  windows_of_same fun _ _ _ hrun => by
    cases hrun
    exact ⟨rfl, rfl⟩

theorem windows_countRefund (delta : Int) : Windows base o (countRefund delta) :=
  windows_of_same fun _ _ _ hrun => by
    obtain ⟨refund, -, rfl⟩ := countRefund_cases hrun
    exact ⟨rfl, rfl⟩

theorem windows_creditState (amount : Nat) : Windows base o (creditState amount) :=
  windows_of_same fun _ _ _ hrun => by
    obtain ⟨pools, -, hrun⟩ := bind_eq_ok.mp hrun
    cases hrun
    exact ⟨rfl, rfl⟩

theorem windows_giveBackPools : Windows base o (giveBackPools ctx f) :=
  windows_of_same fun _ _ _ hrun => by
    obtain ⟨pools, -, hrun⟩ := bind_eq_ok.mp hrun
    cases hrun
    exact ⟨rfl, rfl⟩

theorem windows_freezeOutput (data : Slice) : Windows base o (freezeOutput ctx data) :=
  windows_of_same fun _ _ _ hrun => by
    obtain ⟨buffer, rfl⟩ := freezeOutput_state hrun
    exact ⟨rfl, rfl⟩

theorem windows_fail (kind : ExceptionKind) : Windows base o (fail kind : Exec S) := .pure _

theorem windows_failEmpty (kind : ExceptionKind) : Windows base o (failEmpty kind : Exec S) :=
  windows_of_same fun _ _ _ hrun => by
    cases hrun
    exact ⟨rfl, rfl⟩

theorem windows_behind {guarded : MachineState → OpcodeOutcome} {k : Exec S}
    (hk : Windows base o k) : Windows base o (behind guarded k) := by
  intro s r s' hrun
  rw [behind] at hrun
  split at hrun
  · exact windows_failEmpty _ s r s' hrun
  · exact hk s r s' hrun

theorem windows_charge {cost : Nat} {k : Exec S} (hk : Windows base o k) :
    Windows base o (charge cost k) := by
  intro s r s' hrun
  rw [charge] at hrun
  split at hrun
  · exact windows_failEmpty _ s r s' hrun
  · have hrest := hk _ r s' hrun
    exact ⟨hrest.height, hrest.window⟩

theorem windows_chargeAffordable {cost : Nat → GasCharge} {k : Exec S} (hk : Windows base o k) :
    Windows base o (chargeAffordable cost k) := by
  intro s r s' hrun
  rw [chargeAffordable] at hrun
  split at hrun
  · have hrest := hk _ r s' hrun
    exact ⟨hrest.height, hrest.window⟩
  · exact windows_failEmpty _ s r s' hrun

theorem windows_chargeExpansion {requestedHeight : Nat} {k : Exec S} (hk : Windows base o k) :
    Windows base o (chargeExpansion requestedHeight k) :=
  fun s => windows_chargeAffordable hk s

theorem windows_chargeState {amount : Nat} {k : Exec S} (hk : Windows base o k) :
    Windows base o (chargeState amount k) := by
  intro s r s' hrun
  obtain ⟨⟨halt, pools⟩, -, hrun⟩ := bind_eq_ok.mp hrun
  dsimp only at hrun
  split at hrun
  · cases hrun
    exact .of_same rfl rfl
  · have hrest := hk _ r s' hrun
    exact ⟨hrest.height, hrest.window⟩

/-! ### Memory -/

theorem windows_growMemory (requestedHeight : Nat) :
    Windows f.memoryBase o (growMemory ctx f requestedHeight) := by
  intro s u s' hrun
  obtain ⟨height, hheight, hrun⟩ := bind_eq_ok.mp hrun
  cases hrun
  exact (windowed_grown f s.toGasPools (le_expandMemory hheight).1).widen o

theorem windows_withOperand {start size : Word} {k : MemoryAccess → Exec S}
    (hk : ∀ access, memoryAccess { start := start.toNat, size := size.toNat } = .ok access →
      Windows f.memoryBase o (k access)) :
    Windows f.memoryBase o (withOperand ctx f start size k) := by
  refine windows_chargeExpansion fun s r s' hrun => ?_
  obtain ⟨access, s₁, hreach, hrest⟩ := bind_apply_eq_ok.mp hrun
  obtain ⟨access', s₂, hlift, hreach₁⟩ := bind_apply_eq_ok.mp hreach
  obtain ⟨haccess, rfl⟩ := liftM_apply_eq_ok.mp hlift
  obtain ⟨⟨⟩, s₃, hgrow, hreach₂⟩ := bind_apply_eq_ok.mp hreach₁
  cases hreach₂
  exact IsTrans.trans (r := Windowed _ _) _ _ _ (windows_growMemory _ _ _ _ hgrow)
    (hk access haccess _ _ _ hrest)

theorem windows_activeMemorySlice (access : MemoryAccess) :
    Windows base o (activeMemorySlice ctx f access) :=
  windows_of_same fun _ _ _ hrun => by
    obtain rfl := activeMemorySlice_state hrun
    exact ⟨rfl, rfl⟩

theorem windows_memoryRegion (off len : Nat) : Windows base o (memoryRegion ctx off len) :=
  .ite (.pure _) (.lift _)

theorem windows_writeBytes {off : Nat} {bytes : MachineState → List Byte} {len : Nat}
    (hlen : ∀ s, (bytes s).length = len) :
    Windows base { start := off, size := len } (writeBytes (base + off) bytes) := by
  intro s u s' hrun
  cases hrun
  rw [← hlen s]
  exact windowed_withBytes s off (bytes s)

theorem windows_absolute {off : Nat} {k : Nat → Exec α}
    (hk : Windows f.memoryBase o (k (f.memoryBase + off))) :
    Windows f.memoryBase o (liftM (memoryAbsolute f.memoryBase off) >>= k) := by
  intro s a s' hrun
  obtain ⟨absolute, s₁, hlift, hrun⟩ := bind_apply_eq_ok.mp hrun
  obtain ⟨habsolute, rfl⟩ := liftM_apply_eq_ok.mp hlift
  obtain rfl := memoryAbsolute_base habsolute
  exact hk _ a s' hrun

theorem windows_memWrite (off : Nat) (bytes : List Byte) :
    Windows f.memoryBase { start := off, size := bytes.length } (memWrite ctx f off bytes) :=
  windows_absolute (.bind (windows_memoryRegion _ _) fun _ => windows_writeBytes fun _ => rfl)

theorem windows_sliceCopy (bytes : MachineState → List Byte) (dst off len : Nat) :
    Windows base { start := dst, size := len } (sliceCopy ctx bytes (base + dst) off len) :=
  .bind (windows_memoryRegion _ _) fun _ => windows_writeBytes fun _ => length_paddedRange _ _ _

theorem windows_sliceCopyWordOffset (bytes : MachineState → List Byte) (dst : Nat) (off : Word)
    (len : Nat) :
    Windows base { start := dst, size := len }
      (sliceCopyWordOffset ctx bytes (base + dst) off len) :=
  .bind .get fun _ => .ite (windows_sliceCopy _ _ _ _) (windows_sliceCopy _ _ _ _)

theorem windows_memMcopy (dst src len : Nat) :
    Windows f.memoryBase { start := dst, size := len } (memMcopy ctx f dst src len) := by
  refine .ite (windows_absolute (windows_absolute ?_)) (.pure _)
  refine .bind (windows_memoryRegion _ _) fun _ => .bind (windows_memoryRegion _ _) fun _ => ?_
  exact windows_writeBytes fun s => by rw [MachineState.bytesAt, List.length_map, List.length_range]

end

/-! ## Handlers that write nothing -/

section

variable {ctx : Context} {f : Frame} {base : Nat} {o : Operand}

theorem windows_proceed : Windows base o proceed := .pure _

theorem windows_binaryWord (cost : Nat) (op : Word → Word → Word) :
    Windows base o (binaryWord cost op) :=
  windows_behind (windows_charge (.bind windows_popWord fun _ =>
    .bind (windows_stackSlotRead 0) fun _ => .bind (windows_stackSlotWrite 0 _) fun _ =>
      windows_proceed))

theorem windows_ternaryWord (cost : Nat) (op : Word → Word → Word → Word) :
    Windows base o (ternaryWord cost op) :=
  windows_behind (windows_charge (.bind windows_popWord fun _ => .bind windows_popWord fun _ =>
    .bind (windows_stackSlotRead 0) fun _ => .bind (windows_stackSlotWrite 0 _) fun _ =>
      windows_proceed))

theorem windows_unaryWord (cost : Nat) (op : Word → Word) : Windows base o (unaryWord cost op) :=
  windows_behind (windows_charge (.bind (windows_stackSlotRead 0) fun _ =>
    .bind (windows_stackSlotWrite 0 _) fun _ => windows_proceed))

theorem windows_executeExp : Windows base o executeExp :=
  windows_behind (.bind windows_popWord fun _ => .bind (windows_stackSlotRead 0) fun _ =>
    windows_charge (.bind (windows_stackSlotWrite 0 _) fun _ => windows_proceed))

theorem windows_pushValue {cost : Nat} {value : Exec Word} (hvalue : Windows base o value) :
    Windows base o (pushValue cost value) :=
  windows_behind (windows_charge (.bind hvalue fun _ => .bind (windows_pushWord _) fun _ =>
    windows_proceed))

theorem windows_replaceTop {cost : Nat} {value : Word → Exec Word}
    (hvalue : ∀ index, Windows base o (value index)) : Windows base o (replaceTop cost value) :=
  windows_behind (windows_charge (.bind windows_popWord fun _ => .bind (hvalue _) fun _ =>
    .bind (windows_pushWord _) fun _ => windows_proceed))

theorem windows_executePop : Windows base o executePop :=
  windows_behind (windows_charge (.bind windows_popWord fun _ => windows_proceed))

theorem windows_executeDup (n : Nat) : Windows base o (executeDup n) :=
  windows_behind (windows_charge (.bind (windows_stackSlotRead _) fun _ =>
    .bind (windows_pushWord _) fun _ => windows_proceed))

theorem windows_exchangeSlots (n m : Nat) : Windows base o (exchangeSlots n m) :=
  windows_behind (windows_charge (.bind (windows_stackSlotRead n) fun _ =>
    .bind (windows_stackSlotRead m) fun _ => .bind (windows_stackSlotWrite n _) fun _ =>
      .bind (windows_stackSlotWrite m _) fun _ => windows_proceed))

theorem windows_executeDupn (immediate : Byte) : Windows base o (executeDupn immediate) :=
  .ite (.bind (.lift _) fun n => windows_executeDup n) (windows_fail _)

theorem windows_executeSwapn (immediate : Byte) : Windows base o (executeSwapn immediate) :=
  .ite (.bind (.lift _) fun n => windows_exchangeSlots 0 n) (windows_fail _)

theorem windows_executeExchange (immediate : Byte) :
    Windows base o (executeExchange immediate) :=
  .ite (.bind (.lift _) fun _ => windows_exchangeSlots _ _) (windows_fail _)

theorem windows_readAccount {cost : Bool → Nat} {read : Address → Exec Word}
    (hread : ∀ a, Windows base o (read a)) : Windows base o (readAccount ctx cost read) :=
  windows_behind (.bind windows_popWord fun _ => .bind (windows_syscall _) fun _ =>
    windows_charge (.bind (windows_syscall _) fun _ => .bind (hread _) fun _ =>
      .bind (windows_pushWord _) fun _ => windows_proceed))

theorem windows_executeSload : Windows base o (executeSload ctx f) :=
  windows_behind (.bind windows_popWord fun _ => .bind (windows_syscall _) fun _ =>
    windows_charge (.bind (windows_syscall _) fun _ => .bind (windows_syscall _) fun _ =>
      .bind (windows_pushWord _) fun _ => windows_proceed))

theorem windows_storeSlot (slot v : Word) (entry : StorageValue) :
    Windows base o (storeSlot ctx f slot v entry) :=
  .ite (.bind (windows_syscall _) fun _ => windows_proceed) windows_proceed

theorem windows_payStore (slot v : Word) (entry : StorageValue) (costs : SstoreCosts) :
    Windows base o (payStore ctx f slot v entry costs) :=
  windows_charge (windows_chargeState (.ite (windows_storeSlot _ _ _)
    (.bind (windows_countRefund _) fun _ => windows_storeSlot _ _ _)))

theorem windows_chargeStore (slot v : Word) (warm : Bool) :
    Windows base o (chargeStore ctx f slot v warm) :=
  .bind (windows_syscall _) fun _ => .bind (windows_syscall _) fun _ =>
    .ite (.bind (windows_creditState _) fun _ => windows_payStore _ _ _ _)
      (windows_payStore _ _ _ _)

theorem windows_executeSstore : Windows base o (executeSstore ctx f) :=
  windows_behind (windows_behind (.bind .get fun _ => .ite (windows_fail _)
    (.bind windows_popWord fun _ => .bind windows_popWord fun _ =>
      .bind (windows_syscall _) fun _ => .ite (windows_failEmpty _) (windows_chargeStore _ _ _))))

theorem windows_executeTstore : Windows base o (executeTstore ctx f) :=
  windows_behind (windows_behind (windows_charge (.bind windows_popWord fun _ =>
    .bind windows_popWord fun _ => .bind (windows_syscall _) fun _ => windows_proceed)))

theorem windows_doJump (destination : Word) : Windows base o (doJump f destination) :=
  .ite (.ite (.bind (windows_setPc _) fun _ => windows_proceed) (windows_failEmpty _))
    (windows_failEmpty _)

theorem windows_executeJump : Windows base o (executeJump f) :=
  windows_behind (windows_charge (.bind windows_popWord fun _ => windows_doJump _))

theorem windows_executeJumpi : Windows base o (executeJumpi f) :=
  windows_behind (windows_charge (.bind windows_popWord fun _ => .bind windows_popWord fun _ =>
    .ite windows_proceed (windows_doJump _)))

theorem windows_activeMemoryBytes (access : MemoryAccess) :
    Windows base o (activeMemoryBytes ctx f access) :=
  .bind (windows_activeMemorySlice access) fun _ => .bind .get fun _ => .pure _

theorem windows_executeKeccak256 : Windows f.memoryBase o (executeKeccak256 ctx f) :=
  windows_behind (.bind windows_popWord fun _ => .bind windows_popWord fun _ =>
    windows_chargeAffordable (windows_withOperand fun access _ =>
      .bind (.bind (windows_activeMemoryBytes access) fun _ => .pure _) fun _ =>
        .bind (windows_pushWord _) fun _ => windows_proceed))

theorem windows_executeMload : Windows f.memoryBase o (executeMload ctx f) :=
  windows_behind (windows_charge (.bind windows_popWord fun _ => windows_withOperand fun _ _ =>
    .bind (windows_absolute (.bind (windows_memoryRegion _ _) fun _ => .bind .get fun _ => .pure _))
      fun _ => .bind (windows_pushWord _) fun _ => windows_proceed))

theorem windows_popLogTopics (n : Nat) : Windows base o (popLogTopics n) := by
  induction n with
  | zero => exact .pure _
  | succ n ih => exact .bind windows_popWord fun _ => .bind ih fun _ => .pure _

theorem windows_executeLog (n : Nat) : Windows f.memoryBase o (executeLog ctx f n) :=
  windows_behind (windows_behind (.bind windows_popWord fun _ => .bind windows_popWord fun _ =>
    .bind (windows_popLogTopics n) fun _ => windows_chargeAffordable (windows_withOperand
      fun access _ => .bind (windows_activeMemoryBytes access) fun _ =>
        .bind (windows_syscall _) fun _ => windows_proceed)))

/-! ### Ends of a frame -/

theorem windows_executeReturn : Windows f.memoryBase o (executeReturn ctx f) :=
  windows_behind (.bind windows_popWord fun _ => .bind windows_popWord fun _ =>
    windows_withOperand fun access _ => .bind (windows_activeMemorySlice access) fun _ =>
      .bind (windows_freezeOutput _) fun _ => .pure _)

theorem windows_executeRevert : Windows f.memoryBase o (executeRevert ctx f) :=
  windows_behind (.bind windows_popWord fun _ => .bind windows_popWord fun _ =>
    windows_withOperand fun access _ => .bind windows_giveBackPools fun _ =>
      .bind (windows_activeMemorySlice access) fun _ => .bind (windows_freezeOutput _) fun _ =>
        .pure _)

theorem windows_selfdestructAmsterdam (beneficiary : Address) :
    Windows base o (selfdestructAmsterdam ctx f beneficiary) := by
  refine .bind (windows_syscall _) fun _ => .bind .get fun _ => .ite (windows_failEmpty _) ?_
  refine .bind (windows_syscall _) fun _ => .bind (windows_syscall _) fun _ =>
    .bind (windows_syscall _) fun _ => windows_charge (windows_chargeState ?_)
  exact .bind (windows_syscall _) fun _ => .bind (windows_syscall _) fun _ =>
    .ite (.bind (windows_syscall _) fun _ => .pure _) (.pure _)

theorem windows_destroyAccount : Windows base o (destroyAccount ctx f) :=
  .bind (.ite (.pure _) (windows_syscall _)) fun _ =>
    .ite (.bind (windows_syscall _) fun _ => .bind (windows_syscall _) fun _ => .pure _) (.pure _)

theorem windows_moveAndDestroy (beneficiary : Address) (bal : Word) :
    Windows base o (moveAndDestroy ctx f beneficiary bal) :=
  .bind (windows_syscall _) fun _ => windows_destroyAccount

theorem windows_selfdestructLegacy (beneficiary : Address) :
    Windows base o (selfdestructLegacy ctx f beneficiary) := by
  refine .bind (windows_syscall _) fun _ => .bind (windows_syscall _) fun _ =>
    windows_charge (windows_charge ?_)
  refine .bind (windows_syscall _) fun _ => .bind (windows_syscall _) fun _ => windows_charge ?_
  exact .bind (windows_syscall _) fun _ =>
    .ite (.bind (windows_countRefund _) fun _ => windows_moveAndDestroy _ _)
      (windows_moveAndDestroy _ _)

theorem windows_executeSelfdestruct : Windows base o (executeSelfdestruct ctx f) :=
  windows_behind (windows_behind (.bind windows_popWord fun _ =>
    .ite (windows_selfdestructAmsterdam _) (windows_selfdestructLegacy _)))

end

/-! ## Handlers that write to memory -/

/-- The range of memory that an instruction writes itself. -/
def stored (s : MachineState) : Ast → Operand
  | .mstore => { start := (s.operand 0).toNat, size := 32 }
  | .mstore8 => { start := (s.operand 0).toNat, size := 1 }
  | .calldatacopy | .codecopy | .returndatacopy | .mcopy =>
    { start := (s.operand 0).toNat, size := (s.operand 2).toNat }
  | .extcodecopy => { start := (s.operand 1).toNat, size := (s.operand 3).toNat }
  | _ => noOperand

namespace WindowsAt

variable {base : Nat} {o : Operand} {s : MachineState} {S : Type} [Outcome S]

theorem behind {guarded : MachineState → OpcodeOutcome} {k : Exec S} (hk : WindowsAt base o s k) :
    WindowsAt base o s (behind guarded k) := by
  intro r s' hrun
  rw [Vm.behind] at hrun
  split at hrun
  · exact windows_failEmpty _ s r s' hrun
  · exact hk r s' hrun

theorem charge {cost : Nat} {k : Exec S}
    (hk : WindowsAt base o { s with gas := gasSub s.gas cost } k) :
    WindowsAt base o s (charge cost k) := by
  intro r s' hrun
  rw [Vm.charge] at hrun
  split at hrun
  · exact windows_failEmpty _ s r s' hrun
  · have hrest := hk r s' hrun
    exact ⟨hrest.height, hrest.window⟩

theorem pop {α : Type} {k : Word → Exec α}
    (hk : WindowsAt base o { s with sp := s.sp - 1 } (k s.top)) :
    WindowsAt base o s (popWord >>= k) := by
  intro a s' hrun
  obtain ⟨word, s₁, hpop, hrun⟩ := bind_apply_eq_ok.mp hrun
  cases hpop
  have hrest := hk a s' hrun
  exact ⟨hrest.height, hrest.window⟩

end WindowsAt

section

variable {ctx : Context} {f : Frame}

/-- What is done to an established range is done to the one that was named. -/
theorem windows_named {α : Type} {base : Nat} {o : Operand} {access : MemoryAccess} {x : Exec α}
    (haccess : memoryAccess o = .ok access)
    (hx : Windows base { start := access.off, size := access.len } x) : Windows base o x :=
  hx.mono fun _ _ h => h.named haccess

theorem windowsAt_storeMemory {size : Word} {store : Nat → Word → Exec Unit} (s : MachineState)
    (hstore : ∀ off v, Windows f.memoryBase { start := off, size := size.toNat } (store off v)) :
    WindowsAt f.memoryBase { start := (s.operand 0).toNat, size := size.toNat } s
      (storeMemory ctx f size store) := by
  refine .behind (.charge (.pop (.pop ?_)))
  refine windows_withOperand (fun access haccess => windows_named haccess ?_) _
  rw [(memoryAccess_cases haccess).2.1]
  exact .bind (hstore _ _) fun _ => windows_proceed

theorem windows_copyCharged {destination length : Word} {copy : Nat → Nat → Handler}
    (hcopy : ∀ off, Windows f.memoryBase { start := off, size := length.toNat }
      (copy (f.memoryBase + off) length.toNat)) :
    Windows f.memoryBase { start := destination.toNat, size := length.toNat }
      (copyCharged ctx f destination length copy) := by
  refine windows_chargeAffordable (windows_withOperand fun access haccess =>
    windows_named haccess (windows_absolute ?_))
  rw [(memoryAccess_cases haccess).2.1]
  exact hcopy access.off

theorem windowsAt_copyBytes (source : MachineState → List Byte) (s : MachineState) :
    WindowsAt f.memoryBase { start := (s.operand 0).toNat, size := (s.operand 2).toNat } s
      (copyBytes ctx f source) :=
  .behind (.charge (.pop (.pop (.pop (windows_copyCharged
    (fun _ => .bind (windows_sliceCopyWordOffset _ _ _ _) fun _ => windows_proceed) _)))))

theorem windowsAt_executeReturndatacopy (s : MachineState) :
    WindowsAt f.memoryBase { start := (s.operand 0).toNat, size := (s.operand 2).toNat } s
      (executeReturndatacopy ctx f) :=
  .behind (.charge (.pop (.pop (.pop (Leads.ite (.ite
    (windows_copyCharged fun _ => .bind (windows_sliceCopy _ _ _ _) fun _ => windows_proceed)
    (windows_failEmpty _)) (windows_failEmpty _) _)))))

theorem windowsAt_executeExtcodecopy (s : MachineState) :
    WindowsAt f.memoryBase { start := (s.operand 1).toNat, size := (s.operand 3).toNat } s
      (executeExtcodecopy ctx f) := by
  refine .behind (.pop (.pop (.pop (.pop ?_))))
  refine Leads.bind (windows_syscall _) (fun _ => windows_charge (windows_chargeAffordable
    (windows_withOperand fun access haccess => windows_named haccess ?_))) _
  exact .bind (windows_syscall _) fun _ => windows_absolute (.bind (windows_syscall _) fun _ =>
    .bind (windows_sliceCopyWordOffset _ _ _ _) fun _ => windows_proceed)

theorem windows_reachBoth {a b : Operand} {k : MemoryAccess × MemoryAccess → Handler}
    (hk : ∀ accesses, memoryAccess a = .ok accesses.1 → Windows f.memoryBase a (k accesses)) :
    Windows f.memoryBase a (reachBoth ctx f a b >>= k) := by
  intro s r s' hrun
  obtain ⟨accesses, s₁, hreach, hrest⟩ := bind_apply_eq_ok.mp hrun
  obtain ⟨height, hmaterialize, rfl⟩ := reachBoth_cases hreach
  have hgrown := windowed_grown f s.toGasPools (materialize_height hmaterialize)
  obtain ⟨first, hfirst, hmaterialize⟩ := bind_eq_ok.mp hmaterialize
  obtain ⟨second, hsecond, hmaterialize⟩ := bind_eq_ok.mp hmaterialize
  obtain ⟨height', hheight, hmaterialize⟩ := bind_eq_ok.mp hmaterialize
  obtain rfl : first = accesses.1 :=
    congrArg (fun r => r.2.1) (Except.ok.inj hmaterialize)
  exact IsTrans.trans (r := Windowed _ _) _ _ _ (hgrown.widen a) (hk accesses hfirst _ _ _ hrest)

theorem windowsAt_executeMcopy (s : MachineState) :
    WindowsAt f.memoryBase { start := (s.operand 0).toNat, size := (s.operand 2).toNat } s
      (executeMcopy ctx f) := by
  refine .behind (.charge (.pop (.pop (.pop ?_))))
  refine windows_chargeAffordable (windows_chargeExpansion (windows_reachBoth
    fun accesses haccess => windows_named haccess ?_)) _
  exact .bind (windows_memMcopy _ _ _) fun _ => windows_proceed

/-! ## Opcodes -/

/-- An opcode changes of the memory of its frame what it stores. -/
theorem executeOpcode_windowed (i : Ast) (s : MachineState) :
    WindowsAt f.memoryBase (stored s i) s (executeOpcode ctx f i) := by
  have ordinary {o : Operand} {handler : Handler} (h : Windows f.memoryBase o handler) :
      WindowsAt f.memoryBase o s (ordinary handler) := Leads.bind h (fun _ => .pure _) s
  have storing {o : Operand} {handler : Handler} (h : WindowsAt f.memoryBase o s handler) :
      WindowsAt f.memoryBase o s (Vm.ordinary handler) := by
    intro status s' hrun
    obtain ⟨result, s₁, hrun, hrest⟩ := bind_apply_eq_ok.mp hrun
    cases hrest
    exact h result _ hrun
  have value {o : Operand} {cost : Nat} {x : Exec Word} (hx : Windows f.memoryBase o x) :
      WindowsAt f.memoryBase o s (Vm.ordinary (pushValue cost x)) := ordinary (windows_pushValue hx)
  cases i with
  | stop => exact Leads.pure _ s
  | addmod | mulmod => exact ordinary (windows_ternaryWord _ _)
  | add | mul | sub | div | sdiv | mod | smod | signextend | lt | gt | slt | sgt | eq | and | or
  | xor | byte | shl | shr | sar => exact ordinary (windows_binaryWord _ _)
  | iszero | not | clz => exact ordinary (windows_unaryWord _ _)
  | exp => exact ordinary windows_executeExp
  | keccak256 => exact ordinary windows_executeKeccak256
  | address | origin | caller | callvalue | gasprice | coinbase | timestamp | number | prevrandao
  | gaslimit | chainid | basefee | blobbasefee | slotnum => exact value (.pure _)
  | calldatasize | codesize | returndatasize => exact value (.lift _)
  | selfbalance => exact value (windows_syscall _)
  | pc => exact value (.bind .get fun _ => .bind (.lift _) fun _ => .pure _)
  | msize | gas => exact value (.bind .get fun _ => .lift _)
  | push n v => exact value (.pure _)
  | balance => exact ordinary (windows_readAccount fun _ => windows_syscall _)
  | extcodehash =>
    exact ordinary (windows_readAccount fun _ => .bind (windows_syscall _) fun _ => .pure _)
  | extcodesize =>
    exact ordinary (windows_readAccount fun _ => .bind (windows_syscall _) fun _ => .lift _)
  | calldataload => exact ordinary (windows_replaceTop fun _ => .bind .get fun _ => .pure _)
  | blockhash => exact ordinary (windows_replaceTop fun _ => .bind (.lift _) fun _ => .pure _)
  | blobhash => exact ordinary (windows_replaceTop fun _ => .pure _)
  | tload => exact ordinary (windows_replaceTop fun _ => windows_syscall _)
  | calldatacopy | codecopy => exact storing (windowsAt_copyBytes _ s)
  | returndatacopy => exact storing (windowsAt_executeReturndatacopy s)
  | extcodecopy => exact storing (windowsAt_executeExtcodecopy s)
  | mcopy => exact storing (windowsAt_executeMcopy s)
  | mstore =>
    refine storing (windowsAt_storeMemory s fun off v => ?_)
    have hwrite := @windows_memWrite ctx f off (wordToHash v).toList
    rwa [Vector.length_toList] at hwrite
  | mstore8 => exact storing (windowsAt_storeMemory s fun off v => windows_memWrite off _)
  | mload => exact ordinary windows_executeMload
  | pop => exact ordinary windows_executePop
  | sload => exact ordinary windows_executeSload
  | sstore => exact ordinary windows_executeSstore
  | tstore => exact ordinary windows_executeTstore
  | jump => exact ordinary windows_executeJump
  | jumpi => exact ordinary windows_executeJumpi
  | jumpdest => exact ordinary (windows_charge windows_proceed)
  | dup n => exact ordinary (windows_executeDup n)
  | swap n => exact ordinary (windows_exchangeSlots 0 n)
  | log n => exact ordinary (windows_executeLog n)
  | dupn immediate => exact ordinary (windows_executeDupn immediate)
  | swapn immediate => exact ordinary (windows_executeSwapn immediate)
  | exchange immediate => exact ordinary (windows_executeExchange immediate)
  | return_ => exact windows_executeReturn s
  | revert => exact windows_executeRevert s
  | invalid => exact ordinary (windows_fail _)
  | selfdestruct => exact windows_executeSelfdestruct s
  | opcodeCreate | call | callcode | delegatecall | create2 | staticcall =>
    intro status s' hrun
    cases hrun

/-! ## Calls -/

theorem Draw.windowed {s s' : MachineState} (h : Draw ctx f s s') :
    Windowed f.memoryBase noOperand s s' := by
  cases h with
  | reach a b pools height first second hpaid hreach =>
    exact windowed_grown f pools (materialize_height hreach)
  | _ => exact .of_same rfl rfl

theorem Draws.windowed {s s' : MachineState} (h : Draws ctx f s s') :
    Windowed f.memoryBase noOperand s s' := reflTransGen_inside h fun _ _ => Draw.windowed

/-- The range that a call has named, as far as there is output for it. -/
def Request.returned (r : Request) (outputLen : Nat) : Operand :=
  { start := r.ret.start, size := min r.ret.size outputLen }

/-- A call that has answered: a precompile has written its output. -/
theorem runCall_windowed {kind : CallKind} {s s' : MachineState} {returndata : OutputSlice}
    (h : runCall ctx f kind s = .ok (.stays returndata, s')) :
    Windowed f.memoryBase ((callRequested kind s).returned returndata.len) s s' := by
  rcases runCall_cases h with ⟨kind, hfailed, -⟩ | ⟨o, c, delegate, base, pools, kernel, hpaid, h⟩
  · cases hfailed
  obtain ⟨height, args, ret, childGas, kernel', -, hreached, -, hends⟩ := enterCall_cases h
  obtain ⟨-, hlen, hoff⟩ := materialize_max hreached
  rw [hpaid.ret] at hlen hoff
  have hgrown : Windowed f.memoryBase noOperand s (s.grown f pools height) :=
    windowed_grown f pools (materialize_height hreached)
  cases hends with
  | refused | precompileFailed =>
    have hrest := hgrown.widen ((callRequested kind s).returned emptySlice.len)
    exact ⟨hrest.height, hrest.window⟩
  | precompileRan cost gas destination output bytes kernel'' hdepth hcost hgas hcovers htransfers
      hdestination hcopy hbytes =>
    obtain rfl := memoryAbsolute_base hdestination
    have hwritten := @windowed_withBytes f.memoryBase (s.grown f pools height) ret.off bytes
    refine ⟨hgrown.height, fun i hi => ?_⟩
    have hbelow := hgrown.window i (.inr (Nat.zero_le i))
    rw [← hbelow]
    refine hwritten.window i ?_
    dsimp only [Request.returned] at hi ⊢
    rw [hbytes]
    by_cases hzero : ret.len = 0
    · omega
    · rw [hoff hzero, hlen]
      exact hi

theorem runCreate_windowed {kind : CreateKind} {s s' : MachineState} {returndata : OutputSlice}
    (h : runCreate ctx f kind s = .ok (.stays returndata, s')) :
    Windowed f.memoryBase noOperand s s' := by
  rcases runCreate_cases h with ⟨kind, hfailed, -⟩ |
    ⟨value, salt, c, initcode, pools, height, hpaid, -, h⟩
  · cases hfailed
  rcases guardCreate_cases h with ⟨kind, hfailed, -⟩ | hends
  · cases hfailed
  obtain ⟨second, hreached⟩ := hpaid.reached
  have hgrown : Windowed f.memoryBase noOperand s (s.grown f pools height) :=
    windowed_grown f pools (materialize_height hreached)
  cases hends with
  | refused | occupied => exact ⟨hgrown.height, hgrown.window⟩

end

/-- The range of memory that changes when the instruction of `a` is executed,
and a call among them has got `outputLen` bytes. -/
def Activation.writes (ctx : Context) (a : Activation) (outputLen : Nat) : Operand :=
  match requested (a.instruction ctx) (a.fetched ctx) with
  | some r => r.returned outputLen
  | none => stored (a.fetched ctx) (a.instruction ctx)

section

variable {ctx : Context}

theorem leave_windowed {base : Nat} {o : Operand} (f : Frame) (status : FrameStatus)
    (s : MachineState) : Windowed base o s (leave ctx f status s) := by
  cases status with
  | running | halted | exceptional => exact .of_same rfl rfl

theorem frameEntry_requested {f : Frame} {i : Ast} {s : MachineState}
    (h : frameEntry ctx f i = none) : requested i s = none := by
  cases i with
  | opcodeCreate | create2 | call | callcode | delegatecall | staticcall => cases h
  | _ => rfl

/-- What an instruction that may enter a frame does to the memory of its own. -/
theorem frameEntry_windowed {f : Frame} {i : Ast} {entry : Exec FrameTransition}
    {s s' : MachineState} {returndata : OutputSlice} (hentry : frameEntry ctx f i = some entry)
    (h : entry s = .ok (.stays returndata, s')) :
    ∃ r, requested i s = some r ∧ Windowed f.memoryBase (r.returned returndata.len) s s' := by
  cases i with
  | opcodeCreate | create2 =>
    cases hentry
    exact ⟨_, rfl, (runCreate_windowed h).widen _⟩
  | call | callcode | delegatecall | staticcall =>
    cases hentry
    exact ⟨_, rfl, runCall_windowed h⟩
  | _ => cases hentry

/-- A frame that goes on or ends by itself has changed of its memory what its
instruction names. -/
theorem Stays.windowed {a b : Activation} (h : Stays ctx a b) :
    b.frame.memoryBase = a.frame.memoryBase ∧
      Windowed a.frame.memoryBase (a.writes ctx b.frame.returndata.len) a.state b.state := by
  obtain ⟨-, ⟨status, s', hopcode, hrun, rfl⟩ |
    ⟨entry, r, s', hentry, hrun, ⟨kind, rfl, rfl⟩ | ⟨returndata, rfl, rfl⟩⟩⟩ := h.ran
  · refine ⟨rfl, ?_⟩
    rw [Activation.writes, frameEntry_requested hopcode]
    have hstored := executeOpcode_windowed _ _ _ _ hrun
    have hleft := IsTrans.trans (r := Windowed _ _) _ _ _ hstored
      (@leave_windowed ctx _ _ a.frame status s')
    exact ⟨hleft.height, hleft.window⟩
  · have hdrawn := ((frameEntry_entry hentry).failed hrun).windowed
    have hleft := (IsTrans.trans (r := Windowed _ _) _ _ _ hdrawn
      (@leave_windowed ctx _ _ a.frame (.exceptional kind) s')).widen
        (a.writes ctx a.frame.returndata.len)
    exact ⟨rfl, hleft.height, hleft.window⟩
  · obtain ⟨r, hrequested, hwindowed⟩ := frameEntry_windowed hentry hrun
    refine ⟨rfl, ?_⟩
    rw [Activation.writes, hrequested]
    exact ⟨hwindowed.height, hwindowed.window⟩

/-- And so has a call: the output of the child, where it was asked for. -/
theorem ComesBack.windowed {b e : Activation} {r : Request} {output : OutputSlice}
    (h : ComesBack b r output e) :
    Windowed b.frame.memoryBase (r.returned output.len) b.state e.state := by
  have hheight : b.state.memoryHeight ≤ e.state.memoryHeight := by
    rw [h.height]
    exact Nat.le_max_left _ _
  refine ⟨hheight, fun i hi => ?_⟩
  have houtside : r.Outside b.frame.memoryBase output.len (b.frame.memoryBase + i) := by
    dsimp only [Request.returned] at hi
    rw [Request.Outside]
    omega
  rw [MachineState.window, MachineState.window]
  by_cases hbelow : i < b.state.memoryHeight
  · rw [if_pos hbelow, if_pos (by omega)]
    exact h.memory _ (by omega) houtside
  · rw [if_neg hbelow]
    split
    · exact h.fresh _ (by omega) (by omega) houtside
    · rfl

end

end EvmSail.Vm
