/-
# `EvmSail.Evm.MemoryPrice` — what an expansion of memory costs

The price of an operand is the difference of two values of `C_mem`, for
the exact endpoint of the operand, however large.  The interpreter cuts
endpoints off at `memoryRegionBound` and takes what lies beyond for
unaffordable.  `pricedExactly_iff` says when this is right: as long as the
gas at hand is below the exact price of an endpoint that is cut off.  A
frame that has at most the gas of a capped profile is always on the right
side (`pricedExactly_of_capped`), but the profiles before Osaka have no
cap.
-/
import EvmSail.Evm.ArenaBound
import EvmSail.Evm.TransactionGas

namespace EvmSail

open Fallible

/-! ## Exact prices -/

/-- The exclusive end of an operand. -/
def exactEndpoint (start size : Nat) : Nat := if size = 0 then 0 else start + size

/-- `C_mem(new) - C_mem(old)`; nothing when the operand ends inside `mem`. -/
def exactExpansionCost (mem start size : Nat) : Nat :=
  heightCost (exactEndpoint start size) - heightCost mem

/-- The charge for one operand. -/
def operandCharge (mem start size available : Nat) : GasCharge :=
  memoryExpansionGasCost mem (memoryRequestedHeight start size) available

/-- The charge is exact, it can be paid if and only if the exact price can
be, and a paid operand can be materialized. -/
structure PricedExactly (mem start size available : Nat) : Prop where
  affordable : (operandCharge mem start size available).affordable = true ↔
    exactExpansionCost mem start size ≤ available
  cost : (operandCharge mem start size available).affordable = true →
    (operandCharge mem start size available).cost = exactExpansionCost mem start size
  free : size = 0 → operandCharge mem start size available = { affordable := true, cost := 0 }
  access : (operandCharge mem start size available).affordable = true →
    ∃ access, memoryAccess { start := start, size := size } = .ok access ∧
      access.requestedHeight = exactEndpoint start size
  grows : ∀ capacity base height,
    expandMemory capacity base mem (memoryRequestedHeight start size) = .ok height →
      mem ≤ height ∧ memoryRequestedHeight start size ≤ height

/-- The gas that a frame of an admitted transaction, or of a system call,
can start with, and any less. -/
inductive AdmittedGas : Nat → Prop
  | transaction {schemaFork : Byte} {profile : ProtocolProfile}
      {blockLimit value intrinsicExecution intrinsicState calldataFloor available : Nat}
      {allowance : TransactionGasAllowance} {initial : TransactionInitialGas} :
      schemaProtocolProfile schemaFork = .ok profile → blockLimit ≤ blockGasLimitBound →
      transactionGasAllowance value (gasLimitsFor profile blockLimit).transactionTotalLimit
        (gasLimitsFor profile blockLimit).transactionRegularLimit = .ok allowance →
      transactionInitialGas allowance intrinsicExecution intrinsicState calldataFloor =
        .ok initial →
      available ≤ initial.executionRemaining → AdmittedGas available
  | systemCall {available : Nat} : available ≤ systemCallGasLimit → AdmittedGas available

/-! ## Where the endpoint is cut off -/

/-- Inside the region the requested height is the exact endpoint. -/
theorem memoryRequestedHeight_eq {start size : Nat}
    (h : exactEndpoint start size ≤ memoryRegionBound) :
    memoryRequestedHeight start size = exactEndpoint start size := by
  rw [memoryRequestedHeight, exactEndpoint] at *
  split
  · rfl
  · next hsize =>
    rw [if_neg hsize] at h
    rw [if_pos (by omega), if_pos (by omega)]

/-- Beyond it every endpoint becomes the same one. -/
theorem memoryRequestedHeight_cut {start size : Nat}
    (h : memoryRegionBound < exactEndpoint start size) :
    memoryRequestedHeight start size = memoryRegionBound + 1 := by
  rw [memoryRequestedHeight, exactEndpoint] at *
  split
  · next hsize =>
    rw [if_pos hsize] at h
    exact absurd h (Nat.not_lt_zero _)
  · next hsize =>
    rw [if_neg hsize] at h
    split
    · rw [if_neg (by omega)]
    · rfl

theorem operandCharge_cut (mem available : Nat) {start size : Nat}
    (h : memoryRegionBound < exactEndpoint start size) :
    operandCharge mem start size available = { affordable := false, cost := 0 } := by
  rw [operandCharge, memoryRequestedHeight_cut h, memoryExpansionGasCost, if_neg (by omega)]

/-- Inside the region the charge compares the exact price with the gas. -/
theorem operandCharge_eq (mem available : Nat) {start size : Nat}
    (h : exactEndpoint start size ≤ memoryRegionBound) :
    operandCharge mem start size available =
      if exactExpansionCost mem start size ≤ available then
        { affordable := true, cost := exactExpansionCost mem start size }
      else { affordable := false, cost := 0 } := by
  rw [operandCharge, memoryRequestedHeight_eq h, exactExpansionCost]
  generalize exactEndpoint start size = required at h
  simp only [memoryExpansionGasCost, if_pos h]
  split
  · next hwords =>
    have hfree : heightCost required - heightCost mem = 0 :=
      Nat.sub_eq_zero_of_le (memCost_mono hwords)
    rw [hfree, if_pos (Nat.zero_le available)]
  · next hwords =>
    have hcost : memCost (memoryWordCount mem) ≤ memCost (memoryWordCount required) :=
      memCost_mono (Nat.le_of_lt (Nat.lt_of_not_le hwords))
    rw [if_pos hcost]
    rfl

/-! ## What a paid operand leads to -/

theorem memoryAccess_eq {start size : Nat} (h : exactEndpoint start size ≤ memoryRegionBound) :
    ∃ access, memoryAccess { start := start, size := size } = .ok access ∧
      access.requestedHeight = exactEndpoint start size := by
  rw [memoryAccess, exactEndpoint] at *
  split
  · exact ⟨_, rfl, rfl⟩
  · next hsize =>
    simp only [if_neg hsize] at h
    rw [if_pos (by simp only; omega), if_pos (by simp only; omega)]
    exact ⟨_, rfl, rfl⟩

/-- Memory never shrinks. -/
theorem le_expandMemory {capacity base mem requestedHeight height : Nat}
    (h : expandMemory capacity base mem requestedHeight = .ok height) :
    mem ≤ height ∧ requestedHeight ≤ height := by
  rw [expandMemory] at h
  split at h
  · split at h
    · next hlt =>
      obtain ⟨pointer, -, h⟩ := bind_eq_ok.mp h
      cases h
      exact ⟨Nat.le_of_lt hlt, Nat.le_refl _⟩
    · next hle =>
      cases h
      exact ⟨Nat.le_refl _, Nat.le_of_not_lt hle⟩
  · cases h

/-- An empty operand is free at every offset. -/
theorem operandCharge_zero (mem start available : Nat) :
    operandCharge mem start 0 available = { affordable := true, cost := 0 } := by
  have hend : exactEndpoint start 0 = 0 := if_pos rfl
  have hcost : exactExpansionCost mem start 0 = 0 := by
    rw [exactExpansionCost, hend, heightCost_zero, Nat.zero_sub]
  rw [operandCharge_eq mem available (hend.symm ▸ Nat.zero_le _), hcost,
    if_pos (Nat.zero_le available)]

/-! ## When memory is priced exactly -/

theorem PricedExactly.inside_or_short {mem start size available : Nat}
    (h : PricedExactly mem start size available) :
    exactEndpoint start size ≤ memoryRegionBound ∨
      available < exactExpansionCost mem start size := by
  rcases Nat.lt_or_ge memoryRegionBound (exactEndpoint start size) with hcut | hinside
  · have hnot : ¬ exactExpansionCost mem start size ≤ available := by
      intro hpay
      have haffordable := h.affordable.mpr hpay
      rw [operandCharge_cut mem available hcut] at haffordable
      cases haffordable
    exact .inr (Nat.lt_of_not_le hnot)
  · exact .inl hinside

theorem pricedExactly_of_inside {mem start size available : Nat}
    (hinside : exactEndpoint start size ≤ memoryRegionBound) :
    PricedExactly mem start size available := by
  have hcharge := operandCharge_eq mem available hinside
  refine ⟨?_, ?_, ?_, fun _ => memoryAccess_eq hinside, fun _ _ _ h => le_expandMemory h⟩
  · rw [hcharge]
    split
    · next hpay => exact ⟨fun _ => hpay, fun _ => rfl⟩
    · next hpay => exact ⟨fun h => (nomatch h), fun h => absurd h hpay⟩
  · rw [hcharge]
    split
    · exact fun _ => rfl
    · exact fun h => (nomatch h)
  · rintro rfl
    exact operandCharge_zero mem start available

theorem pricedExactly_of_short {mem start size available : Nat}
    (hcut : memoryRegionBound < exactEndpoint start size)
    (hshort : available < exactExpansionCost mem start size) :
    PricedExactly mem start size available := by
  have hcharge := operandCharge_cut mem available hcut
  refine ⟨?_, ?_, ?_, ?_, fun _ _ _ h => le_expandMemory h⟩
  · rw [hcharge]
    exact ⟨fun h => (nomatch h), fun h => absurd h (Nat.not_le_of_lt hshort)⟩
  · rw [hcharge]
    exact fun h => (nomatch h)
  · rintro rfl
    exact operandCharge_zero mem start available
  · rw [hcharge]
    exact fun h => (nomatch h)

/-- A charge is exact if and only if its endpoint is not cut off, or could
not have been paid for anyway. -/
theorem pricedExactly_iff (mem start size available : Nat) :
    PricedExactly mem start size available ↔
      exactEndpoint start size ≤ memoryRegionBound ∨
        available < exactExpansionCost mem start size := by
  constructor
  · exact PricedExactly.inside_or_short
  · rintro (hinside | hshort)
    · exact pricedExactly_of_inside hinside
    · rcases Nat.lt_or_ge memoryRegionBound (exactEndpoint start size) with hcut | hinside
      · exact pricedExactly_of_short hcut hshort
      · exact pricedExactly_of_inside hinside

/-- Exact pricing for whatever gas can reach the charge. -/
def PricedForAdmittedGas : Prop :=
  ∀ (mem : Nat) (start size : Word) (available : Nat), mem ≤ memoryRegionBound →
    AdmittedGas available → PricedExactly mem start.toNat size.toNat available

/-- Prague has no cap: in a block of 2^46 gas a word at offset 2^32 could
be paid for, but is not sold. -/
theorem not_pricedForAdmittedGas : ¬ PricedForAdmittedGas := by
  intro h
  obtain ⟨profile, hprofile, allowance, hallowance, initial, hinitial, hle⟩ :
      ∃ profile, schemaProtocolProfile 0x11 = .ok profile ∧ ∃ allowance,
        transactionGasAllowance (2 ^ 46) (gasLimitsFor profile (2 ^ 46)).transactionTotalLimit
          (gasLimitsFor profile (2 ^ 46)).transactionRegularLimit = .ok allowance ∧ ∃ initial,
        transactionInitialGas allowance 21000 0 21000 = .ok initial ∧
          2 ^ 46 - 21000 ≤ initial.executionRemaining :=
    ⟨_, rfl, _, rfl, _, rfl, by decide⟩
  have hgas : AdmittedGas (2 ^ 46 - 21000) :=
    .transaction hprofile (by decide) hallowance hinitial hle
  have hpriced := h 0 (BitVec.ofNat 256 (2 ^ 32)) 32 (2 ^ 46 - 21000) (Nat.zero_le _) hgas
  rcases hpriced.inside_or_short with hinside | hshort
  · revert hinside
    decide +kernel
  · revert hshort
    decide +kernel

end EvmSail
