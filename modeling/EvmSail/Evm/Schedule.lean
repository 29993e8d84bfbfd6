/-
# `EvmSail.Evm.Schedule` — what the opcodes cost

The operand-dependent part of the gas schedule: per-word and per-byte
charges, access costs, code deposits, and the four effects of a store to a
slot.  A charge that no live gas could pay is said to be unaffordable
instead of being computed.
-/
import EvmSail.Evm.Alu
import EvmSail.Evm.MemoryGas
import EvmSail.Primitives.Profile

namespace EvmSail

/-! ## Constants -/

def gJumpdest : Nat := 1
def gBase : Nat := 2
def gVerylow : Nat := 3
def gLow : Nat := 5
def gMid : Nat := 8
def gHigh : Nat := 10
def gWarmAccess : Nat := 100
def gColdSload : Nat := 2100
def gColdAccount : Nat := 2600
def gKeccak : Nat := 30
def gKeccakWord : Nat := 6
def gCopyWord : Nat := 3
def gLog : Nat := 375
def gLogtopic : Nat := 375
def gLogdata : Nat := 8
def gExp : Nat := 10
def gExpbyte : Nat := 50
def gSset : Nat := 20000
def gSreset : Nat := 2900
def rSclearPreLondon : Nat := 15000
def rSclearLondon : Nat := 4800
def rSelfdestructPreLondon : Nat := 24000
def gCodedeposit : Nat := 200
def gSelfdestruct : Nat := 5000
def gInitcodeWord : Nat := 2
def gBlockhash : Nat := 20

def gAmsterdamColdAccountAccess : Nat := 3000
def gAmsterdamColdStorageAccess : Nat := 3000
def gAmsterdamStorageWrite : Nat := 10000
def gAmsterdamAccountWrite : Nat := 8000
def gAmsterdamStateByte : Nat := 1530
def gAmsterdamStateStorageSet : Nat := 97920
def rAmsterdamStorageClear : Nat := 12480
def gSstoreSentry : Nat := 2301

/-! ## Charges by size -/

def gasCharge (cost : Nat) : GasCharge := { affordable := true, cost := cost }

def gasChargeUnaffordable : GasCharge := { affordable := false, cost := 0 }

/-- A covered charge, or none. -/
def GasCharge.Covered (c : GasCharge) (available : Nat) : Prop :=
  c.affordable = true → c.cost ≤ available

/-- The words covering a word-sized length, without forming `byteLen + 31`. -/
def memoryWordCountWord (byteLen : Word) : Word :=
  let quotient := wordDiv byteLen 32
  let remainder := wordMod byteLen 32
  if remainder = 0 then quotient else quotient + 1

def wordScaledGasCost (perUnit : Nat) (units : Word) (available : Nat) : GasCharge :=
  if perUnit = 0 ∨ units = 0 then gasCharge 0
  else if units.toNat ≤ available then
    let exactCost := perUnit * units.toNat
    if exactCost ≤ available then gasCharge exactCost else gasChargeUnaffordable
  else gasChargeUnaffordable

/-- A fixed cost and a cost per unit on top of it. -/
def scaledGasCost (base perUnit : Nat) (units : Word) (available : Nat) : GasCharge :=
  if base > available then gasChargeUnaffordable
  else
    let afterBase := available - base
    let variableCost := wordScaledGasCost perUnit units afterBase
    if variableCost.affordable then
      let exactCost := base + variableCost.cost
      if exactCost ≤ available then gasCharge exactCost else gasChargeUnaffordable
    else gasChargeUnaffordable

def memoryWordGasCost (base perWord : Nat) (size : Word) (available : Nat) : GasCharge :=
  scaledGasCost base perWord (memoryWordCountWord size) available

def keccakGasCost (size : Word) (available : Nat) : GasCharge :=
  memoryWordGasCost gKeccak gKeccakWord size available

def copyGasCost (size : Word) (available : Nat) : GasCharge :=
  memoryWordGasCost 0 gCopyWord size available

def logGasCost (numTopics : Nat) (size : Word) (available : Nat) : GasCharge :=
  scaledGasCost (gLog + gLogtopic * numTopics) gLogdata size available

def expGas (exponent : Word) : Nat := gExpbyte * wordByteLength exponent + gExp

theorem scaledGasCost_base {base perUnit available : Nat} {units : Word}
    (h : (scaledGasCost base perUnit units available).affordable = true) :
    base ≤ (scaledGasCost base perUnit units available).cost := by
  simp only [scaledGasCost] at h ⊢
  split at h
  · cases h
  · next hbase =>
    rw [if_neg hbase]
    split at h
    · next hvariable =>
      rw [if_pos hvariable]
      split at h
      · next hexact =>
        rw [if_pos hexact]
        exact Nat.le_add_right _ _
      · cases h
    · cases h

/-! ## Access -/

section

variable (fork : Fork)

def externalCodeReadCost : Nat := if .amsterdam ≤ fork then gWarmAccess else 0

def sloadCost (warm : Bool) : Nat :=
  if warm then gWarmAccess
  else if .amsterdam ≤ fork then gAmsterdamColdStorageAccess
  else gColdSload

/-! ## Code -/

def deployedCodeSizeAllowed (profile : ProtocolProfile) (size : Nat) : Bool :=
  decide (size ≤ profile.deployedCodeSizeLimit)

def codeDeploymentExecutionCost (profile : ProtocolProfile) (byteLen available : Nat) :
    GasCharge :=
  if .amsterdam ≤ profile.fork then
    if byteLen ≤ profile.deployedCodeSizeLimit then
      let words := memoryWordCount byteLen
      if words ≤ available / gKeccakWord then gasCharge (gKeccakWord * words)
      else gasChargeUnaffordable
    else gasChargeUnaffordable
  else if byteLen ≤ available / gCodedeposit then gasCharge (gCodedeposit * byteLen)
  else gasChargeUnaffordable

def codeDeploymentStateCost (profile : ProtocolProfile) (byteLen : Nat) : Result Nat :=
  if .amsterdam ≤ profile.fork then
    if byteLen ≤ profile.deployedCodeSizeLimit then .ok (gAmsterdamStateByte * byteLen)
    else fatalError .executionInvalid
  else .ok 0

theorem codeDeploymentExecutionCost_covered (profile : ProtocolProfile)
    (byteLen available : Nat) :
    (codeDeploymentExecutionCost profile byteLen available).Covered available := by
  intro h
  simp only [codeDeploymentExecutionCost] at h ⊢
  split
  · next hfork =>
    rw [if_pos hfork] at h
    split
    · next hlen =>
      rw [if_pos hlen] at h
      split
      · next hwords =>
        show gKeccakWord * memoryWordCount byteLen ≤ available
        have := Nat.mul_le_of_le_div _ _ _ hwords
        rwa [Nat.mul_comm]
      · exact Nat.zero_le _
    · exact Nat.zero_le _
  · split
    · next hlen =>
      show gCodedeposit * byteLen ≤ available
      have := Nat.mul_le_of_le_div _ _ _ hlen
      rwa [Nat.mul_comm]
    · exact Nat.zero_le _

/-! ## Stores -/

/-- The effects of one store: execution gas, the refund, the state gas
charged and the state gas returned. -/
structure SstoreCosts where
  execution : Nat
  refund : Int
  stateCharge : Nat
  stateCredit : Nat

def sstoreClearRefund : Nat := if .london ≤ fork then rSclearLondon else rSclearPreLondon

def amsterdamStorageAccessCost (cold : Bool) : Nat :=
  if cold then gAmsterdamColdStorageAccess else gWarmAccess

def sstoreSentryCost (cold : Bool) : Nat :=
  let accessCost := amsterdamStorageAccessCost cold
  if accessCost < gSstoreSentry then gSstoreSentry else accessCost

/-- The refund a dirty slot has earned or lost by clears. -/
def clearDelta (original current new : Word) : Int :=
  let clearRefund := sstoreClearRefund fork
  if original = 0 then 0
  else
    let withdrawn : Int := if current = 0 then 0 - clearRefund else 0
    let awarded : Int := if new = 0 then clearRefund else 0
    withdrawn + awarded

/-- The refund for going back to the original value. -/
def resetDelta (original new : Word) : Int :=
  if original = new then
    if original = 0 then gSset - gWarmAccess else gSreset - gWarmAccess
  else 0

def legacySstoreRefund (original current new : Word) : Int :=
  if current = new then 0
  else if original = current then
    if original ≠ 0 ∧ new = 0 then sstoreClearRefund fork else 0
  else clearDelta fork original current new + resetDelta original new

/-- EIP-2200 and EIP-2929. -/
def legacySstoreCosts (original current new : Word) (cold : Bool) : SstoreCosts :=
  let coldCost := if cold then gColdSload else 0
  let cleanChange := current ≠ new ∧ original = current
  let base := if cleanChange then if original = 0 then gSset else gSreset else gWarmAccess
  { execution := base + coldCost
    refund := legacySstoreRefund fork original current new
    stateCharge := 0
    stateCredit := 0 }

def amsterdamSstoreRefund (original current new : Word) : Int :=
  let clear : Int :=
    if current ≠ new ∧ original ≠ 0 ∧ current ≠ 0 ∧ new = 0 then rAmsterdamStorageClear
    else if current ≠ new ∧ original ≠ 0 ∧ current = 0 then 0 - rAmsterdamStorageClear
    else 0
  let restore : Int := if current ≠ new ∧ original = new then gAmsterdamStorageWrite else 0
  clear + restore

/-- EIP-8037. -/
def amsterdamSstoreCosts (original current new : Word) (cold : Bool) : SstoreCosts :=
  let cleanChange := original = current ∧ current ≠ new
  let access := amsterdamStorageAccessCost cold
  { execution := if cleanChange then access + gAmsterdamStorageWrite else access
    refund := amsterdamSstoreRefund original current new
    stateCharge := if cleanChange ∧ original = 0 then gAmsterdamStateStorageSet else 0
    stateCredit :=
      if current ≠ new ∧ original = new ∧ original = 0 then gAmsterdamStateStorageSet else 0 }

def sstoreCosts (original current new : Word) (cold : Bool) : SstoreCosts :=
  if .amsterdam ≤ fork then amsterdamSstoreCosts original current new cold
  else legacySstoreCosts fork original current new cold

end

end EvmSail
