/-
# `EvmSail.Tx.Settlement` — what a transaction pays in the end

When the top-level frame is done, what is left of both reservoirs is taken
down, checked against what the transaction was admitted with
(`txFrameGasSnapshot`).  The bill follows from it: a capped refund, the
calldata floor, and how the gas is split for the block (`settleGas`).

A snapshot carries what was checked, so the bill needs no more checks: it is
within the limit, and the block's two shares cover what the receipt says
(`settleGas_covers`).  The snapshot itself exists exactly when the figures
fit (`txFrameGasSnapshot_eq_ok`).
-/
import EvmSail.Evm.BlobGas
import EvmSail.Evm.TransactionGas

namespace EvmSail

open Fallible

/-! ## Products of fees -/

/-- A product that was found to fit when the transaction was checked. -/
def validatedWordProduct (value : Word) (factor : Nat) : Result Word :=
  if value.toNat * factor < wordModulus then .ok (BitVec.ofNat 256 (value.toNat * factor))
  else fatalError .executionInvalid

theorem validatedWordProduct_eq_ok {value product : Word} {factor : Nat} :
    validatedWordProduct value factor = .ok product ↔
      product.toNat = value.toNat * factor := by
  rw [validatedWordProduct]
  constructor
  · intro h
    split at h
    · next hfits =>
      cases h
      exact Nat.mod_eq_of_lt hfits
    · cases h
  · intro h
    have hfits : value.toNat * factor < wordModulus := h ▸ product.isLt
    rw [if_pos hfits, ← h, BitVec.ofNat_toNat, BitVec.setWidth_eq]

/-! ## The start -/

/-- What a transaction is admitted with is split, and only the regular part
bounds what execution starts with. -/
structure TransactionInitialGas.Admitted (allowance : TransactionGasAllowance)
    (initial : TransactionInitialGas) : Prop where
  limit : initial.admittedLimit = allowance.total
  regularLimit : initial.admittedRegularLimit = allowance.regular
  floor : initial.calldataFloor ≤ initial.admittedRegularLimit
  split : initial.intrinsicExecution + initial.intrinsicState + initial.executionRemaining +
    initial.stateRemaining = initial.admittedLimit
  regular : initial.intrinsicExecution + initial.executionRemaining ≤ initial.admittedRegularLimit

theorem transactionInitialGas_admitted {allowance : TransactionGasAllowance}
    {intrinsicExecution intrinsicState calldataFloor : Nat} {initial : TransactionInitialGas}
    (h : transactionInitialGas allowance intrinsicExecution intrinsicState calldataFloor =
      .ok initial) : initial.Admitted allowance := by
  obtain ⟨hexecution, hfloor, hregular⟩ := transactionInitialGas_ok h
  simp only [transactionInitialGas] at h
  split at h
  · cases h
  · split at h
    · cases h
    · split at h
      · cases h
      · cases h
        refine ⟨rfl, rfl, hfloor, ?_, ?_⟩
        · simp only
          split <;> omega
        · simp only at hregular ⊢
          omega

/-! ## The snapshot -/

/-- What is left of the gas of a transaction, and how much of it went into
state: never more than was spent, and the rest within the regular limit. -/
structure TxFrameGasSnapshot (initial : TransactionInitialGas) where
  remaining : Nat
  stateUsed : Nat
  remaining_le : remaining ≤ initial.admittedLimit
  stateUsed_le : stateUsed ≤ initial.admittedLimit - remaining
  regular_le : initial.admittedLimit - remaining - stateUsed ≤ initial.admittedRegularLimit

/-- Takes down what is left of the two reservoirs. -/
def txFrameGasSnapshot (initial : TransactionInitialGas) (execution state : Nat)
    (stateDelta : Int) : Result (TxFrameGasSnapshot initial) :=
  if hexecution : execution ≤ initial.admittedLimit then
    if hstate : state ≤ initial.admittedLimit - execution then
      let remaining := execution + state
      let spent := initial.admittedLimit - remaining
      let rawStateUsed := initial.intrinsicState + stateDelta
      have hremaining : execution + state ≤ initial.admittedLimit := by omega
      if rawStateUsed ≤ 0 then
        if hspent : spent ≤ initial.admittedRegularLimit then
          .ok ⟨remaining, 0, hremaining, Nat.zero_le _, hspent⟩
        else fatalError .executionInvalid
      else if hused : rawStateUsed ≤ spent then
        if hregular : spent - rawStateUsed.toNat ≤ initial.admittedRegularLimit then
          .ok ⟨remaining, rawStateUsed.toNat, hremaining, Int.toNat_le.mpr hused, hregular⟩
        else fatalError .executionInvalid
      else fatalError .executionInvalid
    else fatalError .executionInvalid
  else fatalError .executionInvalid

/-- The figures that can be taken down: more is not left than was admitted,
the state gas was paid for, and what is not state gas is within the regular
limit. -/
structure Conserved (initial : TransactionInitialGas) (execution state : Nat) (stateDelta : Int) :
    Prop where
  left : execution + state ≤ initial.admittedLimit
  used : initial.intrinsicState + stateDelta + execution + state ≤ initial.admittedLimit
  regular : initial.admittedLimit ≤ initial.admittedRegularLimit + execution + state +
    max 0 (initial.intrinsicState + stateDelta)

/-- There is a snapshot exactly of these. -/
theorem txFrameGasSnapshot_eq_ok {initial : TransactionInitialGas} {execution state : Nat}
    {stateDelta : Int} :
    (∃ gas, txFrameGasSnapshot initial execution state stateDelta = .ok gas) ↔
      Conserved initial execution state stateDelta := by
  simp only [txFrameGasSnapshot]
  constructor
  · rintro ⟨gas, h⟩
    split at h
    · split at h
      · split at h
        · split at h
          · exact ⟨by omega, by omega, by omega⟩
          · cases h
        · split at h
          · split at h
            · exact ⟨by omega, by omega, by omega⟩
            · cases h
          · cases h
      · cases h
    · cases h
  · rintro ⟨hleft, hused, hregular⟩
    rw [dif_pos (by omega), dif_pos (by omega)]
    split
    · rw [dif_pos (by omega)]
      exact ⟨_, rfl⟩
    · rw [dif_pos (by omega), dif_pos (by omega)]
      exact ⟨_, rfl⟩

/-! ## The bill -/

structure TxFrameResult (initial : TransactionInitialGas) where
  success : Bool
  gas : TxFrameGasSnapshot initial
  refund : Int

/-- Applies the refund, as far as the cap lets it. -/
def remainingGasAfterRefund (total : Int) (remaining cap : Nat) : Nat :=
  remaining + (if total ≤ 0 then 0 else if total ≤ cap then total.toNat else cap)

theorem le_remainingGasAfterRefund (total : Int) (remaining cap : Nat) :
    remaining ≤ remainingGasAfterRefund total remaining cap := Nat.le_add_right _ _

/-- The gas of a receipt and what is left of it, and the shares of it that
the block accounts for. -/
structure SettledGas where
  used : Nat
  left : Nat
  execution : Nat
  state : Nat

/-- The first half of `settle_transaction`. -/
def settleGas (profile : ProtocolProfile) {initial : TransactionInitialGas}
    (authorizationRefund : Nat) (fr : TxFrameResult initial) : SettledGas :=
  let gasLimit := initial.admittedLimit
  let gasUsed0 := gasLimit - fr.gas.remaining
  let refundCap := gasUsed0 / profile.refundDivisor
  let totalRefund := authorizationRefund + fr.refund
  let gasLeft := remainingGasAfterRefund totalRefund fr.gas.remaining refundCap
  let gasUsed1 := gasLimit - gasLeft
  let floor := if .prague ≤ profile.fork then initial.calldataFloor else 0
  let gasUsed := if gasUsed1 < floor then floor else gasUsed1
  let unrefundedExecutionGas := gasLimit - fr.gas.remaining - fr.gas.stateUsed
  { used := gasUsed
    left := gasLimit - gasUsed
    execution := if unrefundedExecutionGas < floor then floor else unrefundedExecutionGas
    state := fr.gas.stateUsed }

section

variable {profile : ProtocolProfile} {initial : TransactionInitialGas} {authorizationRefund : Nat}
  {fr : TxFrameResult initial}

/-- What the transaction pays for is covered by the two shares. -/
theorem settleGas_covers : (settleGas profile authorizationRefund fr).used ≤
    (settleGas profile authorizationRefund fr).execution +
      (settleGas profile authorizationRefund fr).state := by
  have hused := fr.gas.stateUsed_le
  have hrefund := le_remainingGasAfterRefund (authorizationRefund + fr.refund) fr.gas.remaining
    ((initial.admittedLimit - fr.gas.remaining) / profile.refundDivisor)
  simp only [settleGas]
  generalize (if (.prague : Fork) ≤ profile.fork then initial.calldataFloor else 0) = floor
  split_ifs <;> omega

/-- The shares are within the limits, and with what is left the gas that is
paid for makes up the whole limit. -/
theorem settleGas_within (hfloor : initial.calldataFloor ≤ initial.admittedRegularLimit)
    (hregular : initial.admittedRegularLimit ≤ initial.admittedLimit) :
    (settleGas profile authorizationRefund fr).used +
        (settleGas profile authorizationRefund fr).left = initial.admittedLimit ∧
      (settleGas profile authorizationRefund fr).execution ≤ initial.admittedRegularLimit ∧
      (settleGas profile authorizationRefund fr).state ≤ initial.admittedLimit := by
  have hsnapshot := fr.gas.regular_le
  have hused := fr.gas.stateUsed_le
  have hfloor' : (if (.prague : Fork) ≤ profile.fork then initial.calldataFloor else 0) ≤
      initial.admittedRegularLimit := by
    split
    · exact hfloor
    · exact Nat.zero_le _
  simp only [settleGas]
  revert hfloor'
  generalize (if (.prague : Fork) ≤ profile.fork then initial.calldataFloor else 0) = floor
  intro hfloor'
  refine ⟨?_, ?_, by omega⟩
  · split_ifs <;> omega
  · split_ifs <;> omega

end

end EvmSail
