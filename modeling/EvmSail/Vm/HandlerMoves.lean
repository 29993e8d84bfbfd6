/-
# `EvmSail.Vm.HandlerMoves` — every handler is made of moves

`executeOpcode_executed`: what an opcode does to the state of its frame is
a run of moves, and an opcode whose frame goes on has spent gas.  Handler by
handler, along the rules of `Rules`.
-/
import EvmSail.Vm.Rules

namespace EvmSail.Vm

open Fallible Kernel Relation

section

variable {ctx : Context} {f : Frame} {lo hi : Nat}

/-! ## Words and the stack -/

theorem does_binaryWord {cost : Nat} (op : Word → Word → Word) (hcost : 1 ≤ cost) :
    Does (Acted 1) ctx f lo hi (binaryWord cost op) := by
  refine .guardStack (by decide : stackLimit + 2 ≤ 1025 + 1) ?_
  refine .chargeAtLeast hcost ?_
  refine .pop fun a => .peek (peeks_stackSlotRead 0) fun b => ?_
  exact .set (by decide) does_proceed_acted

theorem does_ternaryWord {cost : Nat} (op : Word → Word → Word → Word) (hcost : 1 ≤ cost) :
    Does (Acted 1) ctx f lo hi (ternaryWord cost op) := by
  refine .guardStack (by decide : stackLimit + 3 ≤ 1026 + 1) ?_
  refine .chargeAtLeast hcost ?_
  refine .pop fun a => .pop fun b => .peek (peeks_stackSlotRead 0) fun n => ?_
  exact .set (by decide) does_proceed_acted

theorem does_unaryWord {cost : Nat} (op : Word → Word) (hcost : 1 ≤ cost) :
    Does (Acted 1) ctx f lo hi (unaryWord cost op) := by
  refine .guardStack (by decide : stackLimit + 1 ≤ 1024 + 1) ?_
  refine .chargeAtLeast hcost (.peek (peeks_stackSlotRead 0) fun a => ?_)
  exact .set (by decide) does_proceed_acted

theorem does_executeExp : Does (Acted 1) ctx f lo hi executeExp := by
  refine .guardStack (by decide : stackLimit + 2 ≤ 1025 + 1) ?_
  refine .pop fun a => .peek (peeks_stackSlotRead 0) fun e => ?_
  have hcost : 1 ≤ expGas e := le_trans (by decide : 1 ≤ gExp) (Nat.le_add_left _ _)
  exact .chargeAtLeast hcost (.set (by decide) does_proceed_acted)

theorem does_pushValue {cost : Nat} {value : Exec Word} (hcost : 1 ≤ cost)
    (hvalue : Peeks ctx value) : Does (Acted 1) ctx f lo hi (pushValue cost value) := by
  refine .guardStack (by decide : stackLimit + 0 ≤ 1023 + 1) ?_
  refine .chargeAtLeast hcost (.peek hvalue fun word => ?_)
  exact .push (by decide) does_proceed_acted

theorem does_replaceTop {cost : Nat} {value : Word → Exec Word} (hcost : 1 ≤ cost)
    (hvalue : ∀ index, Peeks ctx (value index)) :
    Does (Acted 1) ctx f lo hi (replaceTop cost value) := by
  refine .guardStack (by decide : stackLimit + 1 ≤ 1024 + 1) ?_
  refine .chargeAtLeast hcost (.pop fun index => .peek (hvalue index) fun word => ?_)
  exact .push (by decide) does_proceed_acted

theorem does_executePop : Does (Acted 1) ctx f lo hi executePop := by
  refine .guardStack (by decide : stackLimit + 1 ≤ 1025 + 0) ?_
  exact .chargeAtLeast (by decide) (.pop fun _ => does_proceed_acted)

theorem does_executePush (n : Nat) (v : Word) : Does (Acted 1) ctx f lo hi (executePush n v) := by
  refine does_pushValue ?_ (.pure v)
  split
  · decide
  · decide

theorem does_executeDup (n : Nat) : Does (Acted 1) ctx f lo hi (executeDup n) := by
  refine .guardStack (by rw [stackLimit]; omega : stackLimit + n ≤ 1023 + (n + 1)) ?_
  refine .chargeAtLeast (by decide) (.peek (peeks_stackSlotRead _) fun value => ?_)
  exact .push (by decide) does_proceed_acted

theorem does_exchangeSlots {n m : Nat} (h : n ≤ m) :
    Does (Acted 1) ctx f lo hi (exchangeSlots n m) := by
  refine .guardStack (Nat.le_refl (stackLimit + (m + 1))) ?_
  refine .chargeAtLeast (by decide) ?_
  refine .peek (peeks_stackSlotRead n) fun first => .peek (peeks_stackSlotRead m) fun second => ?_
  exact .set (by omega) (.set (by omega) does_proceed_acted)

theorem does_executeSwap (n : Nat) : Does (Acted 1) ctx f lo hi (executeSwap n) :=
  does_exchangeSlots (Nat.zero_le n)

theorem does_executeDupn (immediate : Byte) :
    Does (Acted 1) ctx f lo hi (executeDupn immediate) :=
  .ite (.peek (.lift _) fun n => does_executeDup n) (.fail .invalidOpcode)

theorem does_executeSwapn (immediate : Byte) :
    Does (Acted 1) ctx f lo hi (executeSwapn immediate) :=
  .ite (.peek (.lift _) fun n => does_executeSwap n) (.fail .invalidOpcode)

theorem exchangeNibbles (i : Fin 256) :
    let shifted := BitVec.ofFin (w := 8) i ^^^ 0x8f
    exchangeImmediateValid (BitVec.ofFin (w := 8) i) = true →
      (highNibble shifted).val < (lowNibble shifted).val ∨
        (lowNibble shifted).val + 1 < 29 - (highNibble shifted).val := by
  revert i
  decide +kernel

/-- `EXCHANGE` exchanges two depths of which the second is the deeper. -/
theorem decodeExchangeStackIndices_lt {immediate : Byte} {n m : Nat}
    (h : decodeExchangeStackIndices immediate = .ok (n, m)) : n < m := by
  obtain ⟨⟨⟩, hvalid, h⟩ := bind_eq_ok.mp h
  have hnibbles := exchangeNibbles immediate.toFin (assertThat_eq_ok hvalid)
  simp only at h
  split at h
  · cases h
    omega
  · next hle =>
    cases h
    exact hnibbles.resolve_left hle

theorem does_executeExchange (immediate : Byte) :
    Does (Acted 1) ctx f lo hi (executeExchange immediate) := by
  refine .ite ?_ (.fail .invalidOpcode)
  intro s r s' hs hrun
  obtain ⟨⟨n, m⟩, s₁, hlift, hexchange⟩ := bind_apply_eq_ok.mp hrun
  obtain ⟨hdepths, rfl⟩ := liftM_apply_eq_ok.mp hlift
  exact does_exchangeSlots (decodeExchangeStackIndices_lt hdepths).le s₁ r s' hs hexchange

/-! ## Accounts and storage -/

theorem accountAccessCost_pos (warm : Bool) : 1 ≤ accountAccessCost ctx warm := by
  rw [accountAccessCost, accountCost]
  split
  · decide
  · split
    · decide
    · decide

theorem slotAccessCost_pos (warm : Bool) : 1 ≤ slotAccessCost ctx warm := by
  rw [slotAccessCost, sloadCost]
  split
  · decide
  · split
    · decide
    · decide

theorem does_readAccount {cost : Bool → Nat} {read : Address → Exec Word}
    (hcost : ∀ warm, 1 ≤ cost warm) (hread : ∀ a, Peeks ctx (read a)) :
    Does (Acted 1) ctx f lo hi (readAccount ctx cost read) := by
  refine .guardStack (by decide : stackLimit + 1 ≤ 1024 + 1) (.pop fun addressWord => ?_)
  refine .peek (peeks_syscall _) fun warm => .chargeAtLeast (hcost warm) ?_
  refine .peek (peeks_syscall _) fun _ => .peek (hread _) fun word => ?_
  exact .push (by decide) does_proceed_acted

theorem does_executeBalance : Does (Acted 1) ctx f lo hi (executeBalance ctx) :=
  does_readAccount accountAccessCost_pos fun _ => peeks_syscall _

theorem codeAccessCost_pos (warm : Bool) : 1 ≤ codeAccessCost ctx warm :=
  (accountAccessCost_pos warm).trans (Nat.le_add_right _ _)

theorem does_executeExtcodesize : Does (Acted 1) ctx f lo hi (executeExtcodesize ctx) :=
  does_readAccount codeAccessCost_pos fun _ => .bind (peeks_syscall _) fun _ => .lift _

theorem does_executeExtcodehash : Does (Acted 1) ctx f lo hi (executeExtcodehash ctx) :=
  does_readAccount accountAccessCost_pos fun _ => .bind (peeks_syscall _) fun _ => .pure _

theorem does_executeSload : Does (Acted 1) ctx f lo hi (executeSload ctx f) := by
  refine .guardStack (by decide : stackLimit + 1 ≤ 1024 + 1) (.pop fun slot => ?_)
  refine .peek (peeks_syscall _) fun warm => .chargeAtLeast (slotAccessCost_pos warm) ?_
  refine .peek (peeks_syscall _) fun _ => .peek (peeks_syscall _) fun entry => ?_
  exact .push (by decide) does_proceed_acted

/-- What a slot reads as is what the transaction knows of it. -/
theorem kSload_entry {a : Address} {slot : Word} {s s' : MachineState} {entry : StorageValue}
    (h : syscall (kSload ctx.kernel a slot) s = .ok (entry, s')) :
    slotReading ctx.kernel s'.kernel.state ⟨a, slot⟩ = .ok entry := by
  obtain ⟨⟨entry', kernel⟩, hrun, h⟩ := bind_eq_ok.mp h
  cases h
  rw [(kSload_sameReadings hrun).slot, ← kSload_reading, hrun]
  rfl

theorem storeSlot_stored {slot v : Word} {entry : StorageValue} {s s' : MachineState}
    {r : OpcodeOutcome} (h : storeSlot ctx f slot v entry s = .ok (r, s')) :
    r = .continues ∧ ∃ kernel, SlotStored ctx f slot v entry s.kernel kernel ∧
      s' = { s with kernel := kernel } := by
  by_cases hne : entry.curr ≠ v
  · rw [storeSlot, if_pos hne] at h
    obtain ⟨⟨⟩, s₁, hstore, h₁⟩ := bind_apply_eq_ok.mp h
    obtain ⟨⟨⟨⟩, kernel⟩, hrun, hstore⟩ := bind_eq_ok.mp hstore
    cases hstore
    cases h₁
    exact ⟨rfl, kernel, (if_pos hne).mpr hrun, rfl⟩
  · rw [storeSlot, if_neg hne] at h
    cases h
    exact ⟨rfl, s.kernel, (if_neg hne).mpr rfl, rfl⟩

theorem applyStore_stored {slot v : Word} {entry : StorageValue} {refund : Int}
    {s s' : MachineState} {r : OpcodeOutcome}
    (h : applyStore ctx f slot v entry refund s = .ok (r, s')) :
    r = .continues ∧ ∃ total kernel,
      (if refund = 0 then .ok s.refund else recordRefund s.refund refund) = .ok total ∧
      SlotStored ctx f slot v entry s.kernel kernel ∧
      s' = { s with refund := total, kernel := kernel } := by
  by_cases hzero : refund = 0
  · rw [applyStore, if_pos hzero] at h
    obtain ⟨hr, kernel, hstored, rfl⟩ := storeSlot_stored h
    exact ⟨hr, s.refund, kernel, if_pos hzero, hstored, rfl⟩
  · rw [applyStore, if_neg hzero] at h
    obtain ⟨⟨⟩, s₁, hcount, h₁⟩ := bind_apply_eq_ok.mp h
    obtain ⟨total, htotal, hcount⟩ := bind_eq_ok.mp hcount
    cases hcount
    obtain ⟨hr, kernel, hstored, rfl⟩ := storeSlot_stored h₁
    exact ⟨hr, total, kernel, (if_neg hzero).trans htotal, hstored, rfl⟩

/-- Behind its credit a store fails, or has paid and goes on. -/
theorem payStore_cases {slot v : Word} {entry : StorageValue} {costs : SstoreCosts}
    {s s' : MachineState} {r : OpcodeOutcome}
    (h : payStore ctx f slot v entry costs s = .ok (r, s')) :
    Fails ctx f s r s' ∨ ∃ q pools total kernel, spend s.toGasPools costs.execution = some q ∧
      chargeStateGas q costs.stateCharge = .ok (false, pools) ∧ r = .continues ∧
      (if costs.refund = 0 then .ok s.refund else recordRefund s.refund costs.refund) = .ok total ∧
      SlotStored ctx f slot v entry s.kernel kernel ∧
      s' = { s with toGasPools := pools, refund := total, kernel := kernel } := by
  rcases charge_cases h with hfails | ⟨q, hq, hdraw, h⟩
  · exact .inl hfails
  obtain ⟨⟨halt, pools⟩, hcharge, h⟩ := bind_eq_ok.mp h
  cases halt with
  | true =>
    obtain ⟨-, rfl⟩ | ⟨hhalt, -⟩ := chargeStateGas_eq_ok hcharge
    · cases h
      exact .inl ⟨.outOfGas, rfl, .single hdraw⟩
    · cases hhalt
  | false =>
    obtain ⟨hr, total, kernel, htotal, hstored, rfl⟩ := applyStore_stored h
    exact .inr ⟨q, pools, total, kernel, hq, hcharge, hr, htotal, hstored, rfl⟩

/-- The credit of a store, if there is one. -/
theorem storeCredit_cases {amount : Nat} {k : Unit → Handler} {s s' : MachineState}
    {r : OpcodeOutcome}
    (hamsterdam : amount ≠ 0 → ctx.amsterdam = true)
    (h : (if amount ≠ 0 then creditState amount >>= k else k ()) s = .ok (r, s')) :
    ∃ pools, (if amount ≠ 0 then creditStateGasRefund s.toGasPools amount
        else .ok s.toGasPools) = .ok pools ∧ FailingMoves ctx f s { s with toGasPools := pools } ∧
      k () { s with toGasPools := pools } = .ok (r, s') := by
  by_cases hne : amount ≠ 0
  · rw [if_pos hne] at h
    obtain ⟨⟨⟩, s₁, hcredit, h⟩ := bind_apply_eq_ok.mp h
    obtain ⟨pools, hpools, hcredit⟩ := bind_eq_ok.mp hcredit
    cases hcredit
    exact ⟨pools, (if_pos hne).trans hpools,
      .single (.stateCredit amount pools hpools (hamsterdam hne)), h⟩
  · rw [if_neg hne] at h
    exact ⟨s.toGasPools, if_neg hne, .refl, h⟩

theorem does_chargeStore (slot v : Word) (warm : Bool) (hstatic : f.message.isStatic = false) :
    Does (Acted 1) ctx f lo hi (chargeStore ctx f slot v warm) := by
  intro s r s' _ hrun
  obtain ⟨⟨⟩, s₁, hmark, h₁⟩ := bind_apply_eq_ok.mp hrun
  obtain ⟨entry, s₂, hload, h₂⟩ := bind_apply_eq_ok.mp h₁
  obtain ⟨p, hp, hcredited, h₃⟩ := @storeCredit_cases ctx f _ _ _ _ _
    (fun hne => decide_eq_true (sstoreCosts_stateCredit _ _ _ _ _ hne)) h₂
  have hpeeked : Peeked ctx s s₂ :=
    IsTrans.trans _ _ _ (peeks_syscall _ s _ s₁ hmark) (peeks_syscall _ s₁ _ s₂ hload)
  have hdraws : QuietMoves ctx f s s₂ := .single (.draw hpeeked.draw)
  have hentry := kSload_entry hload
  rcases payStore_cases h₃ with ⟨kind, rfl, hfails⟩ |
    ⟨q, pools, total, kernel, hq, hcharge, rfl, htotal, hstored, rfl⟩
  · exact .fails kind (hdraws.failing.trans (hcredited.trans hfails.quiet.failing))
  · have hcharges : sstorePools s₂.toGasPools (sstoreCosts ctx.kernel.profile.fork entry.orig
        entry.curr v (!warm)) = .ok (some pools) := by
      refine bind_eq_ok.mpr ⟨p, hp, ?_⟩
      dsimp only at hq
      simp only [hq]
      exact bind_eq_ok.mpr ⟨(false, pools), hcharge, rfl⟩
    have hmove : Move ctx f s₂ _ :=
      .sstore slot v entry (!warm) pools total kernel hstatic hentry ⟨hcharges, htotal⟩ hstored
    refine .goesOn (hdraws.moves.tail hmove) ?_
    have hcost := sstoreCosts_execution ctx.kernel.profile.fork entry.orig entry.curr v (!warm)
    have hspent := (sstorePools_eq_some hcharges).1
    have hbefore := hdraws.regular
    have hwarm : 1 ≤ gWarmAccess := by decide
    show pools.regular + 1 ≤ s.regular
    omega

theorem does_executeSstore : Does (Acted 1) ctx f lo hi (executeSstore ctx f) := by
  refine .guardStack (by decide : stackLimit + 2 ≤ 1026 + 0) (.guardStatic fun hstatic => ?_)
  refine .peek .get fun s => .ite (.fail .outOfGas) (.pop fun slot => .pop fun v => ?_)
  refine .peek (peeks_syscall _) fun warm => ?_
  exact .ite (.failEmpty .outOfGas) (does_chargeStore slot v warm hstatic)

theorem does_executeTload : Does (Acted 1) ctx f lo hi (executeTload ctx f) :=
  does_replaceTop (by decide) fun _ => peeks_syscall _

theorem does_executeTstore : Does (Acted 1) ctx f lo hi (executeTstore ctx f) := by
  refine .guardStack (by decide : stackLimit + 2 ≤ 1026 + 0) (.guardStatic fun hstatic => ?_)
  refine .chargeAtLeast (by decide) (.of_proceeded (.pop fun slot => .pop fun v => ?_))
  exact .free (free_syscall hstatic fun _ _ _ hrun => .tstored slot v hrun) fun _ => does_proceed

/-! ## Memory -/

theorem keccakGasCost_pos {length : Word} {gas : Nat}
    (h : (keccakGasCost length gas).affordable = true) : 1 ≤ (keccakGasCost length gas).cost :=
  le_trans (by decide) (scaledGasCost_base h)

theorem logGasCost_pos {n : Nat} {length : Word} {gas : Nat}
    (h : (logGasCost n length gas).affordable = true) : 1 ≤ (logGasCost n length gas).cost :=
  le_trans (le_trans (by decide : 1 ≤ gLog) (Nat.le_add_right _ _)) (scaledGasCost_base h)

theorem does_executeKeccak256 : Does (Acted 1) ctx f lo hi (executeKeccak256 ctx f) := by
  refine .guardStack (by decide : stackLimit + 2 ≤ 1025 + 1) (.pop fun offset => .pop fun len => ?_)
  refine .chargeAffordableAtLeast (fun _ => scaledGasCost_covered _ _ _ _)
    (fun _ => keccakGasCost_pos) (.withOperand fun access => ?_)
  exact .peek (peeks_memKeccak access) fun digest => .push (by decide) does_proceed_acted

/-- What is copied starts inside the frame. -/
theorem does_copyCharged {destination length : Word} {copy : Nat → Nat → Handler}
    (hcopy : ∀ dst len, f.memoryBase ≤ dst → Does (Acted 0) ctx f lo hi (copy dst len)) :
    Does (Acted 0) ctx f lo hi (copyCharged ctx f destination length copy) := by
  refine .chargeAffordable (fun _ => scaledGasCost_covered _ _ _ _) (.withOperand fun access => ?_)
  exact .absolute fun dst hdst => hcopy dst access.len hdst

theorem does_copyBytes (source : MachineState → List Byte) :
    Does (Acted 1) ctx f lo hi (copyBytes ctx f source) := by
  refine .guardStack (by decide : stackLimit + 3 ≤ 1027 + 0) (.chargeAtLeast (by decide) ?_)
  refine .pop fun destination => .pop fun offset => .pop fun length => ?_
  refine does_copyCharged fun dst len hdst => ?_
  exact .calm (calm_sliceCopyWordOffset source offset len hdst) fun _ => does_proceed_acted

theorem does_executeReturndatacopy :
    Does (Acted 1) ctx f lo hi (executeReturndatacopy ctx f) := by
  refine .guardStack (by decide : stackLimit + 3 ≤ 1027 + 0) (.chargeAtLeast (by decide) ?_)
  refine .pop fun destination => .pop fun offset => .pop fun length => ?_
  refine .ite (.ite (does_copyCharged fun dst len hdst => ?_) (.failEmpty _)) (.failEmpty _)
  exact .calm (calm_sliceCopy _ _ _ hdst) fun _ => does_proceed_acted

theorem does_executeExtcodecopy : Does (Acted 1) ctx f lo hi (executeExtcodecopy ctx f) := by
  refine .guardStack (by decide : stackLimit + 4 ≤ 1028 + 0) (.pop fun addressWord => ?_)
  refine .pop fun destination => .pop fun offset => .pop fun length => ?_
  refine .peek (peeks_syscall _) fun warm => .chargeAtLeast (codeAccessCost_pos warm) ?_
  refine .chargeAffordable (fun _ => scaledGasCost_covered _ _ _ _) (.withOperand fun access => ?_)
  refine .peek (peeks_syscall _) fun _ => .absolute fun dst hdst => ?_
  refine .peek (peeks_syscall _) fun code => ?_
  exact .calm (calm_sliceCopyWordOffset _ _ _ hdst) fun _ => does_proceed_acted

theorem does_executeMload : Does (Acted 1) ctx f lo hi (executeMload ctx f) := by
  refine .guardStack (by decide : stackLimit + 1 ≤ 1024 + 1) (.chargeAtLeast (by decide) ?_)
  refine .pop fun offset => .withOperand fun access => ?_
  exact .peek (peeks_memLoad access.off) fun value => .push (by decide) does_proceed_acted

theorem does_storeMemory {size : Word} {store : Nat → Word → Exec Unit}
    (hstore : ∀ off v, Calm ctx f (store off v)) :
    Does (Acted 1) ctx f lo hi (storeMemory ctx f size store) := by
  refine .guardStack (by decide : stackLimit + 2 ≤ 1026 + 0) (.chargeAtLeast (by decide) ?_)
  refine .pop fun offset => .pop fun v => .withOperand fun access => ?_
  exact .calm (hstore access.off v) fun _ => does_proceed_acted

theorem does_executeMcopy : Does (Acted 1) ctx f lo hi (executeMcopy ctx f) := by
  refine .guardStack (by decide : stackLimit + 3 ≤ 1027 + 0) (.chargeAtLeast (by decide) ?_)
  refine .pop fun destination => .pop fun source => .pop fun length => ?_
  refine .chargeAffordable (fun _ => scaledGasCost_covered _ _ _ _) (.withOperands ?_)
  intro accesses
  exact .calm (calm_memMcopy _ _ _) fun _ => does_proceed_acted

/-! ## Flow and logs -/

theorem does_doJump (destination : Word) : Does (Acted 0) ctx f lo hi (doJump f destination) := by
  rw [doJump]
  split
  · split
    · next hdestination => exact .calm (calm_setPc hdestination) fun _ => does_proceed_acted
    · exact .failEmpty .invalidJump
  · exact .failEmpty .invalidJump

theorem does_executeJump : Does (Acted 1) ctx f lo hi (executeJump f) := by
  refine .guardStack (by decide : stackLimit + 1 ≤ 1025 + 0) (.chargeAtLeast (by decide) ?_)
  exact .pop fun dest => does_doJump dest

theorem does_executeJumpi : Does (Acted 1) ctx f lo hi (executeJumpi f) := by
  refine .guardStack (by decide : stackLimit + 2 ≤ 1026 + 0) (.chargeAtLeast (by decide) ?_)
  exact .pop fun dest => .pop fun cond => .ite does_proceed_acted (does_doJump dest)

/-- The topics are popped one by one. -/
theorem does_popLogTopics {n : Nat} {k : List Word → Handler}
    (hk : ∀ topics, Does (Acted 1) ctx f 0 hi (k topics)) :
    Does (Acted 1) ctx f n (hi + n) (popLogTopics n >>= k) := by
  induction n generalizing k with
  | zero => exact hk []
  | succ n ih =>
    simp only [popLogTopics, bind_assoc, pure_bind]
    exact .pop fun topic => ih fun topics => hk (topic :: topics)

theorem does_executeLog (n : Nat) : Does (Acted 1) ctx f lo hi (executeLog ctx f n) := by
  refine .guardStack (by omega : stackLimit + (n + 2) ≤ stackLimit + n + 2 + 0)
    (.guardStatic fun hstatic => ?_)
  refine .pop fun offset => .pop fun length => does_popLogTopics fun topics => ?_
  refine .chargeAffordableAtLeast (fun _ => scaledGasCost_covered _ _ _ _)
    (fun _ => logGasCost_pos) (.withOperand fun access => .of_proceeded ?_)
  refine .peek (peeks_activeMemoryBytes access) fun data => ?_
  refine .free (free_syscall hstatic fun _ _ _ hrun => ?_) fun _ => does_proceed
  exact .logged topics data hrun

/-! ## Ends of a frame -/

theorem does_halted {kind : HaltKind} (hkind : ∀ output, kind ≠ .haltRevert output) :
    Does Ended ctx f lo hi (pure (.halted kind)) := by
  intro s r s' _ hrun
  cases hrun
  exact ⟨kind, rfl, hkind, .refl⟩

theorem does_executeStop {least : Nat} : Does (Executed least) ctx f lo hi executeStop :=
  .of_ended (does_halted fun _ h => by cases h)

theorem does_executeReturn {least : Nat} :
    Does (Executed least) ctx f lo hi (executeReturn ctx f) := by
  refine .guardStack (by decide : stackLimit + 2 ≤ 1026 + 0) (.pop fun offset => ?_)
  refine .pop fun length => .withOperand fun access => .of_ended ?_
  refine .peek (peeks_activeMemorySlice access) fun data => .free (free_freezeOutput data) ?_
  exact fun output => does_halted fun _ h => by cases h

/-- The output of a revert is frozen behind the gas that is given back. -/
theorem does_executeRevert {least : Nat} :
    Does (Executed least) ctx f lo hi (executeRevert ctx f) := by
  refine .guardStack (by decide : stackLimit + 2 ≤ 1026 + 0) (.pop fun offset => ?_)
  refine .pop fun length => .withOperand fun access => ?_
  intro s r s' _ hrun
  obtain ⟨⟨⟩, s₁, hgive, hrun⟩ := bind_apply_eq_ok.mp hrun
  obtain ⟨pools, hpools, hgive⟩ := bind_eq_ok.mp hgive
  cases hgive
  obtain ⟨data, s₂, hdata, hrun⟩ := bind_apply_eq_ok.mp hrun
  obtain ⟨output, s₃, hfreeze, hrun⟩ := bind_apply_eq_ok.mp hrun
  cases hrun
  obtain rfl := activeMemorySlice_state hdata
  obtain ⟨buffer, rfl⟩ := freezeOutput_state hfreeze
  exact @Executed.reverts least ctx f s s pools buffer output .refl hpools

/-- The account has the ether that it is about to send. -/
def Owns (ctx : Context) (f : Frame) (v : Word) (s : MachineState) : Prop :=
  v.toNat ≤ balanceReading ctx.kernel s.kernel.state f.message.address

theorem Owns.draw {v : Word} {s s' : MachineState} (h : Owns ctx f v s) (hdraw : Draw ctx f s s') :
    Owns ctx f v s' := by
  rw [Owns, balanceReading_congr (hdraw.behind.looks.readings.account f.message.address)]
  exact h

/-- The judgement on the end of a handler that sends what the account owns. -/
def Sending (P : Context → Frame → MachineState → FrameStatus → MachineState → Prop)
    (ctx : Context) (f : Frame) (v : Word) (x : Exec FrameStatus) : Prop :=
  Meets (Owns ctx f v) (P ctx f) x

/-- What has been asked for its balance owns it. -/
theorem Does.owning {P : Context → Frame → MachineState → FrameStatus → MachineState → Prop}
    [FollowsOn (Draws ctx f) (P ctx f)] {k : Word → Exec FrameStatus}
    (hk : ∀ bal, Sending P ctx f bal (k bal)) :
    Does P ctx f lo hi (syscall (kGetBalance ctx.kernel f.message.address) >>= k) := by
  intro s status s' _ hrun
  obtain ⟨bal, s₁, hbal, hrun⟩ := bind_apply_eq_ok.mp hrun
  have hpeeks : Peeks ctx (syscall (kGetBalance ctx.kernel f.message.address)) := peeks_syscall _
  refine FollowsOn.follow (R := Draws ctx f) s s₁ status s' (.single (hpeeks s bal s₁ hbal).draw) ?_
  exact hk bal s₁ status s' (kGetBalance_reading hbal).ge hrun

namespace Sending

variable {v : Word} {P : Context → Frame → MachineState → FrameStatus → MachineState → Prop}

theorem peek [FollowsOn (Draws ctx f) (P ctx f)] {α : Type} {x : Exec α} {k : α → Exec FrameStatus}
    (hx : Peeks ctx x) (hk : ∀ a, Sending P ctx f v (k a)) :
    Sending P ctx f v (x >>= k) := by
  intro s status s' hs hrun
  obtain ⟨a, s₁, hread, hrun⟩ := bind_apply_eq_ok.mp hrun
  have hdraw : Draw ctx f s s₁ := (hx s a s₁ hread).draw
  exact FollowsOn.follow (R := Draws ctx f) s s₁ status s' (.single hdraw)
    (hk a s₁ status s' (hs.draw hdraw) hrun)

variable {least : Nat}

theorem charge {cost : Nat} {k : Exec FrameStatus}
    (hk : Sending (Executed least) ctx f v k) :
    Sending (Executed least) ctx f v (Vm.charge cost k) := by
  intro s status s' hs hrun
  rcases charge_cases hrun with ⟨kind, rfl, hdraws⟩ | ⟨pools, -, hdraw, hrun⟩
  · exact .fails kind hdraws.quiet.failing
  · exact FollowsOn.follow (R := Draws ctx f) s _ status s' (.single hdraw)
      (hk _ status s' (hs.draw hdraw) hrun)

theorem chargeState {amount : Nat} {k : Exec FrameStatus}
    (hk : Sending (Executed least) ctx f v k) :
    Sending (Executed least) ctx f v (Vm.chargeState amount k) := by
  intro s status s' hs hrun
  obtain ⟨⟨halt, pools⟩, hcharge, hrun⟩ := bind_eq_ok.mp hrun
  cases halt with
  | true =>
    obtain ⟨-, rfl⟩ | ⟨hhalt, -⟩ := chargeStateGas_eq_ok hcharge
    · cases hrun
      exact .fails .outOfGas .refl
    · cases hhalt
  | false =>
    have hdraw : Draw ctx f s { s with toGasPools := pools } := .stateCharge amount pools hcharge
    exact FollowsOn.follow (R := Draws ctx f) s _ status s' (.single hdraw)
      (hk _ status s' (hs.draw hdraw) hrun)

/-- It sends what it owns. -/
theorem transfer {beneficiary : Address} {k : Unit → Exec FrameStatus}
    (hstatic : f.message.isStatic = false) (hk : ∀ lo hi, Does Ended ctx f lo hi (k ())) :
    Sending Ended ctx f v
      (syscall (kTransfer ctx.kernel f.message.address beneficiary v) >>= k) := by
  intro s status s' hs hrun
  obtain ⟨⟨⟩, s₁, hsend, hrun⟩ := bind_apply_eq_ok.mp hrun
  obtain ⟨⟨⟨⟩, kernel⟩, hkernel, hsend⟩ := bind_eq_ok.mp hsend
  cases hsend
  have hwrite : Write ctx.kernel f.message.address s.kernel kernel :=
    .transferred beneficiary v hs hkernel
  have hevolves : Evolves ctx.kernel s.kernel kernel := Evolving.evolves _ _ _ hkernel
  have hmove : Move ctx f s { s with kernel := kernel } := .write kernel hstatic hwrite hevolves
  exact FollowsOn.follow (R := Moves ctx f) s _ status s' (.single hmove)
    (hk s.sp s.sp _ status s' ⟨le_refl _, le_refl _⟩ hrun)

theorem of_ended {x : Exec FrameStatus} (hx : Sending Ended ctx f v x) :
    Sending (Executed least) ctx f v x :=
  Meets.mono hx fun s status s' h => by
    obtain ⟨kind, rfl, hkind, hmoves⟩ := h
    exact .ends kind hkind hmoves

end Sending

theorem owns_destroyAmsterdam (beneficiary : Address) (bal : Word)
    (hstatic : f.message.isStatic = false) :
    Sending Ended ctx f bal (destroyAmsterdam ctx f beneficiary bal) := by
  refine .transfer hstatic fun lo hi => .peek (peeks_syscall _) fun created => ?_
  have hend : Does Ended ctx f lo hi (pure (.halted .haltSelfDestruct)) :=
    does_halted fun _ h => by cases h
  exact .ite (.free (free_syscall hstatic fun _ _ _ hrun => .destroyed hrun) fun _ => hend) hend

theorem does_selfdestructAmsterdam {least : Nat} (beneficiary : Address)
    (hstatic : f.message.isStatic = false) :
    Does (Executed least) ctx f lo hi (selfdestructAmsterdam ctx f beneficiary) := by
  refine .peek (peeks_syscall _) fun warm => .peek .get fun s => .ite (.failEmpty .outOfGas) ?_
  refine .peek (peeks_syscall _) fun _ => .owning fun bal => ?_
  refine .peek (peeks_syscall _) fun beneficiaryEmpty => .charge (.chargeState ?_)
  exact .of_ended (owns_destroyAmsterdam beneficiary bal hstatic)

theorem does_destroyAccount (hstatic : f.message.isStatic = false) :
    Does Ended ctx f lo hi (destroyAccount ctx f) := by
  have hend : Does Ended ctx f lo hi (pure (.halted .haltSelfDestruct)) :=
    does_halted fun _ h => by cases h
  refine .peek ?_ fun destroyed => .ite ?_ hend
  · exact .ite (.pure true) (peeks_syscall _)
  · refine .free (free_syscall hstatic fun _ _ _ hrun => .swept hrun) fun _ => ?_
    exact .free (free_syscall hstatic fun _ _ _ hrun => .destroyed hrun) fun _ => hend

theorem owns_moveAndDestroy (beneficiary : Address) (bal : Word)
    (hstatic : f.message.isStatic = false) :
    Sending Ended ctx f bal (moveAndDestroy ctx f beneficiary bal) :=
  .transfer hstatic fun _ _ => does_destroyAccount hstatic

theorem owns_destroyLegacy (beneficiary : Address) (bal : Word)
    (hstatic : f.message.isStatic = false) :
    Sending Ended ctx f bal (destroyLegacy ctx f beneficiary bal) := by
  refine .peek (peeks_syscall _) fun selfdestructed => .ite ?_ ?_
  · intro s status s' hs hrun
    obtain ⟨⟨⟩, s₁, hcount, hrun⟩ := bind_apply_eq_ok.mp hrun
    obtain ⟨hmoves, -⟩ := @free_countRefund ctx f rSelfdestructPreLondon (by decide) s _ s₁ hcount
    obtain ⟨total, -, hcount⟩ := bind_eq_ok.mp hcount
    cases hcount
    exact FollowsOn.follow (R := Moves ctx f) s _ status s' hmoves
      (owns_moveAndDestroy beneficiary bal hstatic _ status s' hs hrun)
  · exact owns_moveAndDestroy beneficiary bal hstatic

theorem does_selfdestructLegacy {least : Nat} (beneficiary : Address)
    (hstatic : f.message.isStatic = false) :
    Does (Executed least) ctx f lo hi (selfdestructLegacy ctx f beneficiary) := by
  refine .owning fun bal => .peek (peeks_syscall _) fun warm => .charge (.charge ?_)
  refine .peek (peeks_syscall _) fun _ => .peek (peeks_syscall _) fun beneficiaryEmpty => .charge ?_
  exact .of_ended (owns_destroyLegacy beneficiary bal hstatic)

theorem does_executeSelfdestruct {least : Nat} :
    Does (Executed least) ctx f lo hi (executeSelfdestruct ctx f) := by
  refine .guardStack (by decide : stackLimit + 1 ≤ 1025 + 0) (.guardStatic fun hstatic => ?_)
  refine .pop fun beneficiaryWord => .ite ?_ ?_
  · exact does_selfdestructAmsterdam _ hstatic
  · exact does_selfdestructLegacy _ hstatic

/-! ## Dispatch -/

theorem does_ordinary {least : Nat} {handler : Handler}
    (hhandler : Does (Acted least) ctx f lo hi handler) :
    Does (Executed least) ctx f lo hi (ordinary handler) := by
  intro s status s' hs hrun
  obtain ⟨result, s₁, hrun, hrest⟩ := bind_apply_eq_ok.mp hrun
  cases hrest
  exact hhandler s result _ hs hrun

theorem does_executeOpcode (i : Ast) : Does (Executed 1) ctx f lo hi (executeOpcode ctx f i) := by
  have binary {cost : Nat} {op : Word → Word → Word} (hcost : 1 ≤ cost) :
      Does (Executed 1) ctx f lo hi (ordinary (binaryWord cost op)) :=
    does_ordinary (does_binaryWord op hcost)
  have value {word : Word} :
      Does (Executed 1) ctx f lo hi (ordinary (pushValue gBase (pure word))) :=
    does_ordinary (does_pushValue (by decide) (.pure word))
  have count {n : Nat} :
      Does (Executed 1) ctx f lo hi (ordinary (pushValue gBase (liftM (wordOfNatByteCount n)))) :=
    does_ordinary (does_pushValue (by decide) (.lift _))
  cases i with
  | stop => exact does_executeStop
  | add => exact binary (by decide)
  | mul => exact binary (by decide)
  | sub => exact binary (by decide)
  | div => exact binary (by decide)
  | sdiv => exact binary (by decide)
  | mod => exact binary (by decide)
  | smod => exact binary (by decide)
  | addmod => exact does_ordinary (does_ternaryWord aluAddmod (by decide))
  | mulmod => exact does_ordinary (does_ternaryWord aluMulmod (by decide))
  | exp => exact does_ordinary does_executeExp
  | signextend => exact binary (by decide)
  | lt => exact binary (by decide)
  | gt => exact binary (by decide)
  | slt => exact binary (by decide)
  | sgt => exact binary (by decide)
  | eq => exact binary (by decide)
  | iszero => exact does_ordinary (does_unaryWord aluIszero (by decide))
  | and => exact binary (by decide)
  | or => exact binary (by decide)
  | xor => exact binary (by decide)
  | not => exact does_ordinary (does_unaryWord aluNot (by decide))
  | byte => exact binary (by decide)
  | shl => exact binary (by decide)
  | shr => exact binary (by decide)
  | sar => exact binary (by decide)
  | clz => exact does_ordinary (does_unaryWord aluClz (by decide))
  | keccak256 => exact does_ordinary does_executeKeccak256
  | address => exact value
  | balance => exact does_ordinary does_executeBalance
  | origin => exact value
  | caller => exact value
  | callvalue => exact value
  | calldataload =>
    exact does_ordinary (does_replaceTop (by decide) fun _ => .bind .get fun _ => .pure _)
  | calldatasize => exact count
  | calldatacopy => exact does_ordinary (does_copyBytes _)
  | codesize => exact count
  | codecopy => exact does_ordinary (does_copyBytes _)
  | gasprice => exact value
  | extcodesize => exact does_ordinary does_executeExtcodesize
  | extcodecopy => exact does_ordinary does_executeExtcodecopy
  | returndatasize => exact count
  | returndatacopy => exact does_ordinary does_executeReturndatacopy
  | extcodehash => exact does_ordinary does_executeExtcodehash
  | blockhash =>
    exact does_ordinary (does_replaceTop (by decide) fun _ => .bind (.lift _) fun _ => .pure _)
  | coinbase => exact value
  | timestamp => exact value
  | number => exact value
  | prevrandao => exact value
  | gaslimit => exact value
  | chainid => exact value
  | selfbalance => exact does_ordinary (does_pushValue (by decide) (peeks_syscall _))
  | basefee => exact value
  | blobhash => exact does_ordinary (does_replaceTop (by decide) fun _ => .pure _)
  | blobbasefee => exact value
  | slotnum => exact value
  | pop => exact does_ordinary does_executePop
  | mload => exact does_ordinary does_executeMload
  | mstore => exact does_ordinary (does_storeMemory fun off _ => calm_memWrite off _)
  | mstore8 => exact does_ordinary (does_storeMemory fun off _ => calm_memWrite off _)
  | sload => exact does_ordinary does_executeSload
  | sstore => exact does_ordinary does_executeSstore
  | jump => exact does_ordinary does_executeJump
  | jumpi => exact does_ordinary does_executeJumpi
  | pc => exact does_ordinary (does_pushValue (by decide) (.bind .get fun _ =>
      .bind (.lift _) fun _ => .pure _))
  | msize => exact does_ordinary (does_pushValue (by decide) (.bind .get fun _ => .lift _))
  | gas => exact does_ordinary (does_pushValue (by decide) (.bind .get fun _ => .lift _))
  | jumpdest => exact does_ordinary (.chargeAtLeast (by decide) does_proceed_acted)
  | tload => exact does_ordinary does_executeTload
  | tstore => exact does_ordinary does_executeTstore
  | mcopy => exact does_ordinary does_executeMcopy
  | push n v => exact does_ordinary (does_executePush n v)
  | dup n => exact does_ordinary (does_executeDup n)
  | swap n => exact does_ordinary (does_executeSwap n)
  | log n => exact does_ordinary (does_executeLog n)
  | dupn immediate => exact does_ordinary (does_executeDupn immediate)
  | swapn immediate => exact does_ordinary (does_executeSwapn immediate)
  | exchange immediate => exact does_ordinary (does_executeExchange immediate)
  | return_ => exact does_executeReturn
  | revert => exact does_executeRevert
  | invalid => exact does_ordinary (.fail .invalidOpcode)
  | selfdestruct => exact does_executeSelfdestruct
  | opcodeCreate | call | callcode | delegatecall | create2 | staticcall =>
    intro s status s' _ hrun
    cases hrun

/-- Every opcode is made of moves, and one whose frame goes on spends
gas. -/
theorem executeOpcode_executed {i : Ast} {s s' : MachineState} {status : FrameStatus}
    (hrun : executeOpcode ctx f i s = .ok (status, s')) : Executed 1 ctx f s status s' :=
  does_executeOpcode i s status s' ⟨Nat.zero_le s.sp, Nat.le_refl s.sp⟩ hrun

end

end EvmSail.Vm
