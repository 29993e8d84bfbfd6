/-
# `EvmSail.Vm.Moves` — what a handler does, move by move

Handlers are long and alike.  What they can do to the state is said once,
as a relation that has one constructor for each kind of move:

  * `Draw`: what every instruction begins with.  It pays, pops its operands,
    looks at the host and reaches for memory it has paid for;
  * `QuietMove`: it also works on the operands of its row, jumps to a jump
    destination, and writes at or above the base of its frame;
  * `FailingMove`: the moves a handler may have made when it fails.  A store
    to a slot is credited with state gas before its charges are made;
  * `Move`: in front of its end a handler that does not fail may also write
    to the host (never in a static frame), store to a slot against payment,
    count a refund and overwrite the output buffer.

`Executed` joins the moves to the result.  Whatever an opcode is to keep is
shown of the moves, by induction; that each handler is made of them is the
subject of `HandlerMoves`, along the rules of `Rules`.
-/
import EvmSail.Kernel.Writes
import EvmSail.Vm.Handlers
import Mathlib.Logic.Relation

namespace EvmSail.Vm

open Fallible Kernel Relation

/-! ## Covered charges -/

theorem wordScaledGasCost_covered (perUnit : Nat) (units : Word) (available : Nat) :
    (wordScaledGasCost perUnit units available).Covered available := by
  intro h
  simp only [wordScaledGasCost] at h ⊢
  split
  · exact Nat.zero_le _
  · next hzero =>
    rw [if_neg hzero] at h
    split
    · next hle =>
      rw [if_pos hle] at h
      split
      · next hexact => exact hexact
      · next hexact =>
        rw [if_neg hexact] at h
        cases h
    · exact Nat.zero_le _

theorem scaledGasCost_covered (base perUnit : Nat) (units : Word) (available : Nat) :
    (scaledGasCost base perUnit units available).Covered available := by
  intro h
  simp only [scaledGasCost] at h ⊢
  split at h
  · cases h
  · next hbase =>
    rw [if_neg hbase]
    split at h
    · next hvariable =>
      rw [if_pos hvariable]
      split at h
      · next hexact =>
        rw [if_pos hexact]
        exact hexact
      · cases h
    · cases h

/-! ## Moves -/

section

variable (ctx : Context) (f : Frame)

/-- The state with its memory grown to a height it has been charged for. -/
def MachineState.grown (s : MachineState) (pools : GasPools) (height : Nat) : MachineState :=
  { s.withBytes (f.memoryBase + s.memoryHeight) (List.replicate (height - s.memoryHeight) 0) with
    toGasPools := pools
    memoryHeight := height }

/-- What any instruction may do first: it pays, pops, looks at the host,
and reaches for memory it has paid for. -/
inductive Draw (s : MachineState) : MachineState → Prop
  | spend (cost : Nat) (h : cost ≤ s.gas) : Draw s { s with gas := gasSub s.gas cost }
  | pop (h : 0 < s.sp) : Draw s { s with sp := stackTopRetreat s.sp 1 }
  | look (kernel : Host) (h : Looks ctx.kernel s.kernel kernel) :
      Draw s { s with kernel := kernel }
  | stateCharge (amount : Nat) (pools : GasPools)
      (h : chargeStateGas s.toGasPools amount = .ok (false, pools)) :
      Draw s { s with toGasPools := pools }
  | reach (a b : Operand) (pools : GasPools) (height : Nat) (first second : MemoryAccess)
      (hpaid : spendExpansion s.toGasPools s.memoryHeight (operandsHeight a b) = some pools)
      (hreach : materialize ctx.memoryCapacity f.memoryBase s.memoryHeight a b =
        .ok (height, first, second)) : Draw s (s.grown f pools height)

/-- A move of a handler that may still fail. -/
inductive QuietMove (s : MachineState) : MachineState → Prop
  | draw {s' : MachineState} (h : Draw ctx f s s') : QuietMove s s'
  | push (h : s.sp < stackLimit) (value : Word) :
      QuietMove s ({ s with sp := stackTopAdvance s.sp 1 }.setOperand s.sp value)
  | set (index : Nat) (h : index < s.sp) (value : Word) :
      QuietMove s (s.setOperand (s.sp - 1 - index) value)
  | jump (pc : Nat) (h : pc ∈ f.code.jumpdests) : QuietMove s { s with pc := pc }
  | store (memory : Nat → Byte) (h : ∀ i, i < f.memoryBase → memory i = s.memory i) :
      QuietMove s { s with memory := memory }

/-- A move of a handler that then fails. -/
inductive FailingMove (s : MachineState) : MachineState → Prop
  | quiet {s' : MachineState} (h : QuietMove ctx f s s') : FailingMove s s'
  | stateCredit (amount : Nat) (pools : GasPools)
      (h : creditStateGasRefund s.toGasPools amount = .ok pools)
      (hamsterdam : ctx.amsterdam = true) : FailingMove s { s with toGasPools := pools }

/-- What a store to a slot pays: the credit comes first, and the refund is
counted behind the charges. -/
structure StorePaid (costs : SstoreCosts) (s : MachineState) (pools : GasPools) (refund : Int) :
    Prop where
  charges : sstorePools s.toGasPools costs = .ok (some pools)
  refund : (if costs.refund = 0 then .ok s.refund else recordRefund s.refund costs.refund) =
    .ok refund

/-- What it writes: nothing, when the slot holds the value. -/
def SlotStored (slot v : Word) (entry : StorageValue) (h h' : Host) : Prop :=
  if entry.curr ≠ v then
    (kSstore ctx.kernel f.message.address slot { curr := v, orig := entry.orig }).run h =
      .ok ((), h')
  else h' = h

/-- A move of a handler that does not fail any more. -/
inductive Move (s : MachineState) : MachineState → Prop
  | quiet {s' : MachineState} (h : QuietMove ctx f s s') : Move s s'
  | write (kernel : Host) (hstatic : f.message.isStatic = false)
      (hwrite : Write ctx.kernel f.message.address s.kernel kernel)
      (hevolves : Evolves ctx.kernel s.kernel kernel) : Move s { s with kernel := kernel }
  | sstore (slot v : Word) (entry : StorageValue) (cold : Bool) (pools : GasPools) (refund : Int)
      (kernel : Host) (hstatic : f.message.isStatic = false)
      (hentry : slotReading ctx.kernel s.kernel.state ⟨f.message.address, slot⟩ = .ok entry)
      (hpaid : StorePaid
        (sstoreCosts ctx.kernel.profile.fork entry.orig entry.curr v cold) s pools refund)
      (hstored : SlotStored ctx f slot v entry s.kernel kernel) :
      Move s { s with toGasPools := pools, refund := refund, kernel := kernel }
  | refund (delta refund : Int) (hdelta : 0 ≤ delta)
      (h : recordRefund s.refund delta = .ok refund) : Move s { s with refund := refund }
  | freeze (output : List Byte) : Move s { s with output := output }

abbrev Draws : MachineState → MachineState → Prop := ReflTransGen (Draw ctx f)

abbrev QuietMoves : MachineState → MachineState → Prop := ReflTransGen (QuietMove ctx f)

abbrev FailingMoves : MachineState → MachineState → Prop := ReflTransGen (FailingMove ctx f)

abbrev Moves : MachineState → MachineState → Prop := ReflTransGen (Move ctx f)

end

/-- What an opcode has done, by the status it leaves its frame in.  When
the frame goes on, at least `least` of its gas is spent. -/
inductive Executed (least : Nat) (ctx : Context) (f : Frame) (s : MachineState) :
    FrameStatus → MachineState → Prop
  | goesOn {s' : MachineState} (hmoves : Moves ctx f s s')
      (hspent : s'.regular + least ≤ s.regular) : Executed least ctx f s .running s'
  | fails {s' : MachineState} (kind : ExceptionKind) (hmoves : FailingMoves ctx f s s') :
      Executed least ctx f s (.exceptional kind) s'
  | ends {s' : MachineState} (kind : HaltKind) (hkind : ∀ output, kind ≠ .haltRevert output)
      (hmoves : Moves ctx f s s') : Executed least ctx f s (.halted kind) s'
  | reverts {s₁ : MachineState} (pools : GasPools) (buffer : List Byte) (output : OutputSlice)
      (hmoves : QuietMoves ctx f s s₁)
      (hpools : revertPools ctx f.message.stateGasReservoir s₁.toGasPools = .ok pools) :
      Executed least ctx f s (.halted (.haltRevert output))
        { s₁ with toGasPools := pools, output := buffer }

/-- The same of a handler that does not end its frame. -/
def Acted (least : Nat) (ctx : Context) (f : Frame) (s : MachineState) (result : OpcodeOutcome)
    (s' : MachineState) : Prop :=
  Executed least ctx f s (opcodeFrameStatus result) s'

/-- It goes on. -/
def Proceeded (ctx : Context) (f : Frame) (s : MachineState) (result : OpcodeOutcome)
    (s' : MachineState) : Prop :=
  result = .continues ∧ Moves ctx f s s'

/-- It ends its frame. -/
def Ended (ctx : Context) (f : Frame) (s : MachineState) (status : FrameStatus)
    (s' : MachineState) : Prop :=
  ∃ kind, status = .halted kind ∧ (∀ output, kind ≠ .haltRevert output) ∧ Moves ctx f s s'

/-! ## What moves keep -/

section

variable {ctx : Context} {f : Frame}

theorem Draws.quiet {s s' : MachineState} (h : Draws ctx f s s') : QuietMoves ctx f s s' := by
  induction h with
  | refl => exact .refl
  | tail _ hdraw ih => exact ih.tail (.draw hdraw)

theorem QuietMoves.failing {s s' : MachineState} (h : QuietMoves ctx f s s') :
    FailingMoves ctx f s s' := by
  induction h with
  | refl => exact .refl
  | tail _ hmove ih => exact ih.tail (.quiet hmove)

theorem QuietMoves.moves {s s' : MachineState} (h : QuietMoves ctx f s s') :
    Moves ctx f s s' := by
  induction h with
  | refl => exact .refl
  | tail _ hmove ih => exact ih.tail (.quiet hmove)

theorem SlotStored.advances {slot v : Word} {entry : StorageValue} {h h' : Host}
    (hstored : SlotStored ctx f slot v entry h h') : Advances ctx.kernel h h' := by
  by_cases hne : entry.curr ≠ v
  · exact kSstore_advances ((if_pos hne).mp hstored)
  · obtain rfl := (if_neg hne).mp hstored
    exact Std.Refl.refl h'

/-- What a frame has around it: the rows of the other frames, and the arena
below its base. -/
structure Inside (f : Frame) (s s' : MachineState) : Prop where
  row : s'.row = s.row
  others : ∀ row, row ≠ s.row → s'.operands row = s.operands row
  below : ∀ i, i < f.memoryBase → s'.memory i = s.memory i

instance : IsPreorder MachineState (Inside f) where
  refl _ := ⟨rfl, fun _ _ => rfl, fun _ _ => rfl⟩
  trans _ _ _ h₁ h₂ :=
    ⟨h₂.row.trans h₁.row,
      fun row hrow => (h₂.others row (h₁.row ▸ hrow)).trans (h₁.others row hrow),
      fun i hi => (h₂.below i hi).trans (h₁.below i hi)⟩

/-- The memory a frame gains is above its base. -/
theorem Inside.grown (s : MachineState) (pools : GasPools) (height : Nat) :
    Inside f s (s.grown f pools height) :=
  ⟨rfl, fun _ _ => rfl, fun i hi => if_neg fun hin => absurd hin.1 (by omega)⟩

theorem Draw.inside {s s' : MachineState} (h : Draw ctx f s s') : Inside f s s' := by
  cases h with
  | reach a b pools height first second hpaid hreach => exact .grown s pools height
  | _ => exact ⟨rfl, fun _ _ => rfl, fun _ _ => rfl⟩

/-- Handlers work inside their frame. -/
theorem QuietMove.inside {s s' : MachineState} (h : QuietMove ctx f s s') : Inside f s s' := by
  cases h with
  | draw h => exact h.inside
  | push h value => exact ⟨rfl, fun _ hrow => Function.update_of_ne hrow _ _, fun _ _ => rfl⟩
  | set index h value => exact ⟨rfl, fun _ hrow => Function.update_of_ne hrow _ _, fun _ _ => rfl⟩
  | store memory h => exact ⟨rfl, fun _ _ => rfl, h⟩
  | jump pc h => exact ⟨rfl, fun _ _ => rfl, fun _ _ => rfl⟩

theorem FailingMove.inside {s s' : MachineState} (h : FailingMove ctx f s s') :
    Inside f s s' := by
  cases h with
  | quiet h => exact h.inside
  | stateCredit amount pools h => exact ⟨rfl, fun _ _ => rfl, fun _ _ => rfl⟩

theorem FailingMoves.inside {s s' : MachineState} (h : FailingMoves ctx f s s') :
    Inside f s s' := reflTransGen_inside h fun _ _ => FailingMove.inside

theorem Move.inside {s s' : MachineState} (h : Move ctx f s s') : Inside f s s' := by
  cases h with
  | quiet h => exact h.inside
  | _ => exact ⟨rfl, fun _ _ => rfl, fun _ _ => rfl⟩

/-- What is behind the frame as a whole, and untouched before its end. -/
structure Behind (ctx : Context) (s s' : MachineState) : Prop where
  looks : Looks ctx.kernel s.kernel s'.kernel
  refund : s'.refund = s.refund
  output : s'.output = s.output

instance : IsPreorder MachineState (Behind ctx) where
  refl s := ⟨Std.Refl.refl s.kernel, rfl, rfl⟩
  trans _ _ _ h₁ h₂ :=
    ⟨IsTrans.trans _ _ _ h₁.looks h₂.looks, h₂.refund.trans h₁.refund,
      h₂.output.trans h₁.output⟩

theorem Draw.behind {s s' : MachineState} (h : Draw ctx f s s') : Behind ctx s s' := by
  cases h with
  | look kernel h => exact ⟨h, rfl, rfl⟩
  | _ => exact ⟨Std.Refl.refl s.kernel, rfl, rfl⟩

theorem QuietMove.behind {s s' : MachineState} (h : QuietMove ctx f s s') : Behind ctx s s' := by
  cases h with
  | draw h => exact h.behind
  | _ => exact ⟨Std.Refl.refl s.kernel, rfl, rfl⟩

theorem FailingMove.behind {s s' : MachineState} (h : FailingMove ctx f s s') :
    Behind ctx s s' := by
  cases h with
  | quiet h => exact h.behind
  | stateCredit amount pools h => exact ⟨Std.Refl.refl s.kernel, rfl, rfl⟩

theorem FailingMoves.behind {s s' : MachineState} (h : FailingMoves ctx f s s') :
    Behind ctx s s' := reflTransGen_inside h fun _ _ => FailingMove.behind

theorem spendExpansion_regular {p q : GasPools} {height requestedHeight : Nat}
    (h : spendExpansion p height requestedHeight = some q) : q.regular ≤ p.regular := by
  simp only [spendExpansion] at h
  split at h
  · cases h
    simp only [GasPools.regular, gasSub_eq]
    omega
  · cases h

theorem spendExpansion_stateUse {p q : GasPools} {height requestedHeight : Nat}
    (h : spendExpansion p height requestedHeight = some q) : q.stateUse = p.stateUse := by
  simp only [spendExpansion] at h
  split at h
  · cases h
    rfl
  · cases h

/-- No move brings execution gas. -/
theorem Draw.regular {s s' : MachineState} (h : Draw ctx f s s') : s'.regular ≤ s.regular := by
  cases h with
  | spend cost h =>
    simp only [GasPools.regular, gasSub_eq]
    omega
  | reach a b pools height first second hpaid => exact spendExpansion_regular hpaid
  | stateCharge amount pools h =>
    rcases chargeStateGas_eq_ok h with ⟨hhalt, -⟩ | ⟨-, hcharged⟩
    · cases hhalt
    · exact hcharged.regular.le
  | _ => exact Nat.le_refl _

theorem QuietMove.regular {s s' : MachineState} (h : QuietMove ctx f s s') :
    s'.regular ≤ s.regular := by
  cases h with
  | draw h => exact h.regular
  | _ => exact Nat.le_refl _

theorem FailingMove.regular {s s' : MachineState} (h : FailingMove ctx f s s') :
    s'.regular ≤ s.regular := by
  cases h with
  | quiet h => exact h.regular
  | stateCredit amount pools h => exact (creditStateGasRefund_eq_ok h).regular.ge

theorem FailingMoves.regular {s s' : MachineState} (h : FailingMoves ctx f s s') :
    s'.regular ≤ s.regular := by
  induction h with
  | refl => exact Nat.le_refl _
  | tail _ hmove ih => exact hmove.regular.trans ih

theorem QuietMoves.regular {s s' : MachineState} (h : QuietMoves ctx f s s') :
    s'.regular ≤ s.regular := by
  induction h with
  | refl => exact Nat.le_refl _
  | tail _ hmove ih => exact hmove.regular.trans ih

theorem Move.regular {s s' : MachineState} (h : Move ctx f s s') : s'.regular ≤ s.regular := by
  cases h with
  | quiet h => exact h.regular
  | sstore slot v entry cold pools refund kernel hstatic hentry hpaid hstored =>
    have hregular := (sstorePools_eq_some hpaid.charges).1
    show pools.regular ≤ s.regular
    omega
  | _ => exact Nat.le_refl _

theorem Moves.regular {s s' : MachineState} (h : Moves ctx f s s') : s'.regular ≤ s.regular := by
  induction h with
  | refl => exact Nat.le_refl _
  | tail _ hmove ih => exact hmove.regular.trans ih

instance (least : Nat) : FollowsOn (QuietMoves ctx f) (Executed least ctx f) where
  follow s s₁ status s' hfirst h := by
    cases h with
    | goesOn hmoves hspent =>
      exact .goesOn (hfirst.moves.trans hmoves) (hspent.trans hfirst.regular)
    | fails kind hmoves => exact .fails kind (hfirst.failing.trans hmoves)
    | ends kind hkind hmoves => exact .ends kind hkind (hfirst.moves.trans hmoves)
    | reverts pools buffer output hmoves hpools =>
      exact .reverts pools buffer output (hfirst.trans hmoves) hpools

instance (least : Nat) : FollowsOn (QuietMoves ctx f) (Acted least ctx f) where
  follow s s₁ result s' hfirst h :=
    FollowsOn.follow (P := Executed least ctx f) s s₁ (opcodeFrameStatus result) s' hfirst h

instance {S : Type} {P : MachineState → S → MachineState → Prop}
    [h : FollowsOn (QuietMoves ctx f) P] : FollowsOn (Draws ctx f) P where
  follow s s₁ r s' hfirst := h.follow s s₁ r s' (Draws.quiet hfirst)

instance : FollowsOn (Moves ctx f) (Proceeded ctx f) where
  follow _ _ _ _ hfirst h := ⟨h.1, hfirst.trans h.2⟩

instance : FollowsOn (QuietMoves ctx f) (Proceeded ctx f) where
  follow _ _ _ _ hfirst h := ⟨h.1, hfirst.moves.trans h.2⟩

instance : FollowsOn (Moves ctx f) (Ended ctx f) where
  follow _ _ _ _ hfirst h := by
    obtain ⟨kind, hstatus, hkind, hmoves⟩ := h
    exact ⟨kind, hstatus, hkind, hfirst.trans hmoves⟩

instance : FollowsOn (QuietMoves ctx f) (Ended ctx f) where
  follow _ _ _ _ hfirst h := by
    obtain ⟨kind, hstatus, hkind, hmoves⟩ := h
    exact ⟨kind, hstatus, hkind, hfirst.moves.trans hmoves⟩

end

end EvmSail.Vm
