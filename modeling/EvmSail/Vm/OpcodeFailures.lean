/-
# `EvmSail.Vm.OpcodeFailures` — an opcode that fails has done nothing

Handlers pop, charge, mark warm, read and write, each in its own order.
Whatever the order, a failure comes before the first write to the host
(`executeOpcode_failed`).

From Amsterdam on the accesses of a block are committed to, and a read that
fills a cache counts as one.  There the price of an access is settled while
the host is as it was (`executeOpcode_unpaid`).
-/
import EvmSail.Vm.HandlerMoves

namespace EvmSail.Vm

open Fallible Kernel Relation

/-! ## Failures -/

section

variable {ctx : Context} {f : Frame} {i : Ast} {s s' : MachineState}

/-- Only moves that handlers may still fail after come before a failure. -/
theorem executeOpcode_fails {kind : ExceptionKind}
    (hrun : executeOpcode ctx f i s = .ok (.exceptional kind, s')) : FailingMoves ctx f s s' := by
  cases executeOpcode_executed hrun with
  | fails _ hmoves => exact hmoves

/-- An opcode that fails leaves every account, slot, transient slot and log
as it was, the counted refunds and the last output too, and what is around
its frame. -/
theorem executeOpcode_failed {kind : ExceptionKind}
    (hrun : executeOpcode ctx f i s = .ok (.exceptional kind, s')) :
    SameReadings ctx.kernel s.kernel s'.kernel ∧ s'.refund = s.refund ∧
      s'.output = s.output ∧ Inside f s s' := by
  have hmoves := executeOpcode_fails hrun
  have hbehind := hmoves.behind
  exact ⟨hbehind.looks.readings, hbehind.refund, hbehind.output, hmoves.inside⟩

end

/-! ### A store that cannot be paid for -/

def zeroHeader : BlockHeader :=
  { number := 0
    timestamp := 0
    gasLimit := 0
    gasUsed := 0
    prevRandao := 0
    baseFee := 0
    blobGasUsed := 0
    excessBlobGas := 0
    stateRoot := zeroHash
    receiptsRoot := zeroHash
    logsBloom := ⟨List.replicate 256 0, List.length_replicate⟩
    feeRecipient := 0
    parentHash := zeroHash
    parentBeaconBlockRoot := zeroHash
    slotNumber := 0
    extraData := [] }

/-- Amsterdam over an empty parent state. -/
def emptyAmsterdam : Context :=
  { kernel :=
      { profile := packProtocolProfile .amsterdam bpo2BlobSchedule 65536 131072 sszUintBound
          eip7825TransactionGasLimit 6 5
        keccak256 := fun _ => zeroHash
        parentStateRoot := emptyTrieRoot
        statelessAccountByKey := fun _ _ => .ok emptyAccount
        statelessStorageByKey := fun _ _ => .ok 0 }
    header := zeroHeader
    chainId := 1
    tx := { origin := 0, gasPrice := 0, blobHashes := emptyBlobHashes }
    blobFee := 1
    nHeaders := 0
    ancestors := fun _ => zeroHash
    memoryCapacity := guestEvmMemoryBytes
    storesOutput := fun _ => true
    runPrecompile := fun _ _ => none }

def plainMessage : Message :=
  { caller := 0
    codeAddress := 0
    address := 0
    value := 0
    stateGasReservoir := 0
    isStatic := false
    depth := 0 }

/-- A frame at the bottom of the arena. -/
def plainFrame (code : Kernel.Code) : Frame :=
  { message := plainMessage
    memoryBase := 0
    code := code
    calldata := emptyCalldata
    returndata := emptySlice }

def emptyHost : Host :=
  { state :=
      { effects := noEffects []
        warm := coldWarm
        acctTxRows := []
        storageTxRows := []
        nextGeneration := ⟨initialGeneration, Nat.le_refl initialGeneration⟩
        block := { accounts := fun _ => none, storage := fun _ => none, storageRows := [] }
        bal := []
        codes := fun _ => none }
    journal := [] }

/-- A machine with `gas` and a stack of ones. -/
def plainState (gas sp : Nat) : MachineState :=
  { gas := gas
    stateGas := 0
    stateSpill := 0
    pc := 0
    refund := 0
    sp := sp
    memoryHeight := 0
    kernel := emptyHost
    row := 0
    operands := fun _ _ => 1
    memory := fun _ => 0
    output := [] }

/-- The gas covers the access to the slot, and not the write. -/
theorem executeOpcode_failed_store : ∃ s', executeOpcode emptyAmsterdam (plainFrame emptyCode)
      .sstore (plainState 5000 2) = .ok (.exceptional .outOfGas, s') ∧
    SameReadings emptyAmsterdam.kernel emptyHost s'.kernel := by
  obtain ⟨s', hrun⟩ : ∃ s', executeOpcode emptyAmsterdam (plainFrame emptyCode)
      .sstore (plainState 5000 2) = .ok (.exceptional .outOfGas, s') := ⟨_, rfl⟩
  exact ⟨s', hrun, (executeOpcode_failed hrun).1⟩

/-! ## Unpaid accesses -/

section

variable (ctx : Context) (f : Frame)

/-- The answer of `kAccountIsWarm`. -/
def accountWarm (h : Host) (a : Address) : Bool :=
  if precompileIdForAddress ctx.kernel.profile.fork a ≠ .notPrecompile then true
  else h.state.warm.accounts a

def slotWarm (h : Host) (slot : Word) : Bool :=
  h.state.warm.slots { addr := f.message.address, slot := slot }

/-- The word on top of the active stack. -/
def MachineState.top (s : MachineState) : Word := s.operands s.row (s.sp - 1)

/-- What an opcode has to pay before it accesses the account or the slot
that the word on top names. -/
def accessPrice (s : MachineState) (i : Ast) : Option Nat :=
  let account := accountWarm ctx s.kernel (wordToAddress s.top)
  let slot := slotWarm f s.kernel s.top
  match i with
  | .balance | .extcodehash => some (accountAccessCost ctx account)
  | .extcodesize | .extcodecopy => some (codeAccessCost ctx account)
  | .selfdestruct => some (beneficiaryAccessCost account)
  | .sload => some (slotAccessCost ctx slot)
  | .sstore => some (sstoreSentryCost (!slot))
  | _ => none

end

section

variable {ctx : Context} {f : Frame} {S : Type} [Outcome S] {s : MachineState}

/-- It fails, and the host is as it was. -/
def Barred (x : Exec S) (s : MachineState) : Prop :=
  ∃ kind s', x s = .ok (Outcome.failed kind, s') ∧ s'.kernel = s.kernel

theorem barred_failEmpty (kind : ExceptionKind) : Barred (failEmpty kind : Exec S) s :=
  ⟨kind, { s with gas := 0 }, rfl, rfl⟩

theorem Barred.behind {guarded : MachineState → OpcodeOutcome} {k : Exec S} (hk : Barred k s) :
    Barred (behind guarded k) s := by
  rw [Barred, Vm.behind]
  split
  · exact barred_failEmpty _
  · exact hk

theorem Barred.pop {k : Word → Exec S} (hk : Barred (k s.top) { s with sp := s.sp - 1 }) :
    Barred (popWord >>= k) s := hk

theorem Barred.accountIsWarm {a : Address} {k : Bool → Exec S}
    (hk : Barred (k (accountWarm ctx s.kernel a)) s) :
    Barred (syscall (kAccountIsWarm ctx.kernel a) >>= k) s := by
  have hwarm : syscall (kAccountIsWarm ctx.kernel a) s =
      .ok (accountWarm ctx s.kernel a, s) := by
    simp only [syscall, kAccountIsWarm, accountWarm]
    split
    · rfl
    · rfl
  obtain ⟨kind, s', hrun, hkernel⟩ := hk
  exact ⟨kind, s', bind_apply_eq_ok.mpr ⟨_, _, hwarm, hrun⟩, hkernel⟩

theorem Barred.charge {cost : Nat} {k : Exec S} (h : s.gas < cost) : Barred (charge cost k) s := by
  rw [Barred, Vm.charge, if_pos h]
  exact barred_failEmpty .outOfGas

theorem barred_readAccount {cost : Bool → Nat} {read : Address → Exec Word}
    (h : s.gas < cost (accountWarm ctx s.kernel (wordToAddress s.top))) :
    Barred (readAccount ctx cost read) s :=
  .behind (.pop (.accountIsWarm (.charge h)))

theorem barred_executeExtcodecopy
    (h : s.gas < codeAccessCost ctx (accountWarm ctx s.kernel (wordToAddress s.top))) :
    Barred (executeExtcodecopy ctx f) s :=
  .behind (.pop (.pop (.pop (.pop (.accountIsWarm (.charge h))))))

theorem barred_executeSload (h : s.gas < slotAccessCost ctx (slotWarm f s.kernel s.top)) :
    Barred (executeSload ctx f) s :=
  .behind (.pop (.charge h))

theorem Barred.get {k : MachineState → Exec S} (hk : Barred (k s) s) :
    Barred (MonadState.get >>= k) s := hk

theorem Barred.slotIsWarm {slot : Word} {k : Bool → Exec S}
    (hk : Barred (k (slotWarm f s.kernel slot)) s) :
    Barred (syscall (kSlotIsWarm ctx.kernel f.message.address slot) >>= k) s := hk

theorem Barred.ite_neg {c : Prop} [Decidable c] {x y : Exec S} (hc : ¬ c) (hy : Barred y s) :
    Barred (if c then x else y) s := by
  rwa [if_neg hc]

theorem Barred.ite_pos {c : Prop} [Decidable c] {x y : Exec S} (hc : c) (hx : Barred x s) :
    Barred (if c then x else y) s := by
  rwa [if_pos hc]

theorem barred_executeSstore (hfork : .amsterdam ≤ ctx.kernel.profile.fork)
    (h : s.gas < sstoreSentryCost (!slotWarm f s.kernel s.top)) :
    Barred (executeSstore ctx f) s := by
  refine .behind (.behind (.get (.ite_neg (fun hold => Nat.not_lt.mpr hfork hold.1) ?_)))
  exact .pop (.pop (.slotIsWarm (.ite_pos ⟨hfork, h⟩ (barred_failEmpty .outOfGas))))

theorem barred_executeSelfdestruct (hfork : .amsterdam ≤ ctx.kernel.profile.fork)
    (h : s.gas < beneficiaryAccessCost (accountWarm ctx s.kernel (wordToAddress s.top))) :
    Barred (executeSelfdestruct ctx f) s := by
  refine .behind (.behind (.pop (.ite_pos hfork (.accountIsWarm ?_))))
  exact .get (.ite_pos h (barred_failEmpty .outOfGas))

theorem Barred.ordinary {handler : Handler} (h : Barred handler s) :
    Barred (ordinary handler) s := by
  obtain ⟨kind, s', hrun, hkernel⟩ := h
  exact ⟨kind, s', bind_apply_eq_ok.mpr ⟨_, _, hrun, rfl⟩, hkernel⟩

theorem barred_executeOpcode {i : Ast} {price : Nat}
    (hfork : .amsterdam ≤ ctx.kernel.profile.fork) (hprice : accessPrice ctx f s i = some price)
    (hgas : s.gas < price) : Barred (executeOpcode ctx f i) s := by
  cases i with
  | balance =>
    cases hprice
    exact .ordinary (barred_readAccount hgas)
  | extcodehash =>
    cases hprice
    exact .ordinary (barred_readAccount hgas)
  | extcodesize =>
    cases hprice
    exact .ordinary (barred_readAccount hgas)
  | extcodecopy =>
    cases hprice
    exact .ordinary (barred_executeExtcodecopy hgas)
  | selfdestruct =>
    cases hprice
    exact barred_executeSelfdestruct hfork hgas
  | sload =>
    cases hprice
    exact .ordinary (barred_executeSload hgas)
  | sstore =>
    cases hprice
    exact .ordinary (barred_executeSstore hfork hgas)
  | _ => cases hprice

/-- From Amsterdam on, an opcode whose gas does not cover the price of its
access fails with the host as it was: no access is recorded, no cache
filled, nothing marked warm. -/
theorem executeOpcode_unpaid {i : Ast} {price : Nat}
    (hfork : .amsterdam ≤ ctx.kernel.profile.fork) (hprice : accessPrice ctx f s i = some price)
    (hgas : s.gas < price) :
    ∃ kind s', executeOpcode ctx f i s = .ok (.exceptional kind, s') ∧ s'.kernel = s.kernel :=
  barred_executeOpcode hfork hprice hgas

theorem executeOpcode_unpaid_store : ∃ kind s', executeOpcode emptyAmsterdam
      (plainFrame emptyCode) .sstore (plainState 2999 2) = .ok (.exceptional kind, s') ∧
    s'.kernel = emptyHost :=
  executeOpcode_unpaid (s := plainState 2999 2) (i := .sstore) (by decide) rfl (by decide)

end

/-! ## Failures and the host -/

/-- An opcode that fails leaves accounts, storage, transient storage and logs
as they were.  From Amsterdam on, one that cannot pay the price of its access
fails and leaves no trace of it either: the recorded accesses are as they
were. -/
theorem executeOpcode_harmless (ctx : Context) (f : Frame) (i : Ast) (s : MachineState) :
    (∀ kind s', executeOpcode ctx f i s = .ok (.exceptional kind, s') →
      SameReadings ctx.kernel s.kernel s'.kernel) ∧
    (.amsterdam ≤ ctx.kernel.profile.fork →
      ∀ price, accessPrice ctx f s i = some price → s.gas < price →
        ∃ kind s', executeOpcode ctx f i s = .ok (.exceptional kind, s') ∧
          s'.kernel = s.kernel) := by
  constructor
  · intro kind s' hrun
    exact (executeOpcode_fails hrun).behind.looks.readings
  · intro hfork price hprice hgas
    exact barred_executeOpcode hfork hprice hgas

def staticFrame : Frame :=
  { plainFrame emptyCode with message := { plainMessage with isStatic := true } }

/-- SLOAD of a cold slot with one unit of gas too little, and TSTORE in a
static frame. -/
theorem executeOpcode_harmless_cold :
    (∃ kind s', executeOpcode emptyAmsterdam (plainFrame emptyCode) .sload
        (plainState (gAmsterdamColdStorageAccess - 1) 1) = .ok (.exceptional kind, s') ∧
      s'.kernel = emptyHost) ∧
    ∃ s', executeOpcode emptyAmsterdam staticFrame .tstore (plainState 5000 2) =
        .ok (.exceptional .writeProtection, s') ∧
      SameReadings emptyAmsterdam.kernel emptyHost s'.kernel := by
  obtain ⟨s', hrun⟩ : ∃ s', executeOpcode emptyAmsterdam staticFrame .tstore
      (plainState 5000 2) = .ok (.exceptional .writeProtection, s') := ⟨_, rfl⟩
  refine ⟨?_, s', hrun, (executeOpcode_harmless _ _ _ _).1 _ _ hrun⟩
  exact (executeOpcode_harmless emptyAmsterdam (plainFrame emptyCode) .sload
    (plainState (gAmsterdamColdStorageAccess - 1) 1)).2 (Nat.le_refl _) _ rfl (by decide)

end EvmSail.Vm
