/-
# `EvmSail.Evm.TransactionGas` — what gas a transaction starts with

The limits that a protocol profile sets for a block, the allowance they
admit for one transaction, and its split, after the intrinsic charges,
into execution gas and state gas.
-/
import EvmSail.Primitives.Profile

namespace EvmSail

open Fallible

def blockGasLimitBound : Nat := sszUintBound

/-- The execution gas of each protocol system call. -/
def systemCallGasLimit : Nat := 30000000

/-- The limits of a profile under a header. -/
structure GasLimits where
  blockLimit : Nat
  transactionTotalLimit : Nat
  transactionRegularLimit : Nat
  systemRegularLimit : Nat
  systemStateLimit : Nat

def gasLimitsFor (profile : ProtocolProfile) (blockLimit : Nat) : GasLimits :=
  let transactionTotalLimit :=
    if blockLimit < profile.transactionTotalGasLimit then blockLimit
    else profile.transactionTotalGasLimit
  let transactionRegularLimit :=
    if transactionTotalLimit < profile.transactionRegularGasLimit then transactionTotalLimit
    else profile.transactionRegularGasLimit
  { blockLimit := blockLimit
    transactionTotalLimit := transactionTotalLimit
    transactionRegularLimit := transactionRegularLimit
    systemRegularLimit := systemCallGasLimit
    systemStateLimit := 0 }

/-- The gas of a transaction, and the part of it that regular execution
may use. -/
structure TransactionGasAllowance where
  total : Nat
  regular : Nat

def transactionGasAllowance (value totalLimit regularLimit : Nat) :
    Result TransactionGasAllowance :=
  if totalLimit < value then fatalError .executionInvalid
  else .ok { total := value, regular := if value < regularLimit then value else regularLimit }

/-- A transaction's gas when its frame starts. -/
structure TransactionInitialGas where
  admittedLimit : Nat
  admittedRegularLimit : Nat
  intrinsicExecution : Nat
  intrinsicState : Nat
  calldataFloor : Nat
  executionRemaining : Nat
  stateRemaining : Nat

def transactionInitialGas (allowance : TransactionGasAllowance)
    (intrinsicExecution intrinsicState calldataFloor : Nat) : Result TransactionInitialGas :=
  if allowance.total < intrinsicExecution then fatalError .executionInvalid
  else
    let afterExecution := allowance.total - intrinsicExecution
    if afterExecution < intrinsicState then fatalError .executionInvalid
    else if allowance.regular < intrinsicExecution ∨ allowance.regular < calldataFloor then
      fatalError .executionInvalid
    else
      let available := afterExecution - intrinsicState
      let regularBudget := allowance.regular - intrinsicExecution
      .ok
        { admittedLimit := allowance.total
          admittedRegularLimit := allowance.regular
          intrinsicExecution := intrinsicExecution
          intrinsicState := intrinsicState
          calldataFloor := calldataFloor
          executionRemaining := if available < regularBudget then available else regularBudget
          stateRemaining := if available < regularBudget then 0 else available - regularBudget }

/-- A transaction never starts with more regular gas than its profile
lets it have. -/
theorem transactionGasAllowance_regular {value totalLimit regularLimit : Nat}
    {allowance : TransactionGasAllowance}
    (h : transactionGasAllowance value totalLimit regularLimit = .ok allowance) :
    allowance.total = value ∧ value ≤ totalLimit ∧ allowance.regular ≤ regularLimit ∧
      allowance.regular ≤ value := by
  rw [transactionGasAllowance] at h
  split at h
  · cases h
  · next hle =>
    cases h
    refine ⟨rfl, Nat.le_of_not_lt hle, ?_, ?_⟩
    · show (if value < regularLimit then value else regularLimit) ≤ regularLimit
      split
      · next hlt => exact Nat.le_of_lt hlt
      · exact Nat.le_refl _
    · show (if value < regularLimit then value else regularLimit) ≤ value
      split
      · exact Nat.le_refl _
      · next hlt => exact Nat.le_of_not_lt hlt

/-- The intrinsic charges are covered, in total and by the regular part. -/
theorem transactionInitialGas_ok {allowance : TransactionGasAllowance}
    {intrinsicExecution intrinsicState calldataFloor : Nat} {initial : TransactionInitialGas}
    (h : transactionInitialGas allowance intrinsicExecution intrinsicState calldataFloor =
      .ok initial) :
    intrinsicExecution ≤ allowance.regular ∧ calldataFloor ≤ allowance.regular ∧
      initial.executionRemaining + intrinsicExecution ≤ allowance.regular := by
  simp only [transactionInitialGas] at h
  split at h
  · cases h
  · split at h
    · cases h
    · split at h
      · cases h
      · next hcovered =>
        obtain ⟨hexecution, hfloor⟩ := not_or.mp hcovered
        cases h
        refine ⟨Nat.le_of_not_lt hexecution, Nat.le_of_not_lt hfloor, ?_⟩
        simp only
        split <;> omega

end EvmSail
