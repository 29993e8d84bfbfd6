/-
# `EvmSail.Evm.Pools` — how gas moves between the pools of a frame

A frame has execution gas, state gas, and the spill: execution gas that
went into state.  Two sums say all there is to know about a movement:

  * the regular gas, spent on state or not, which state gas never changes
    (`Charged`);
  * the state gas less the spill, which a charge lowers and a credit
    raises by exactly its amount.

The operations are partial: a sum that leaves its range is fatal.  For each
it is said what it returns.
-/
import EvmSail.Evm.Schedule

namespace EvmSail

open Fallible

/-! ## Sums -/

def gasBound : Nat := 2 ^ 64 - 1

theorem gasSub_eq (left right : Nat) : gasSub left right = left - right := by
  rw [gasSub]
  split
  · rfl
  · omega

theorem conservedGasAdd_eq_ok {available credit g : Nat}
    (h : conservedGasAdd available credit = .ok g) : g = available + credit := by
  rw [conservedGasAdd] at h
  split at h
  · exact (Except.ok.inj h).symm
  · cases h

theorem stateGasSpillAdd_eq_ok {left right s : Nat} (h : stateGasSpillAdd left right = .ok s) :
    s = left + right := by
  rw [stateGasSpillAdd] at h
  split at h
  · exact (Except.ok.inj h).symm
  · cases h

/-! ## Charges and credits -/

/-- The execution gas of a frame: what is left of it, and what it has spent
on state. -/
def GasPools.regular (p : GasPools) : Nat := p.gas + p.stateSpill

/-- The state gas that a frame has used, counted from an empty reservoir. -/
def GasPools.stateUse (p : GasPools) : Int := p.stateSpill - p.stateGas

/-- The signed state gas that a frame has consumed. -/
def frameStateGasUsed (stateGasReservoir stateGasRemaining stateGasSpilled : Nat) : Int :=
  (stateGasReservoir : Int) - stateGasRemaining + stateGasSpilled

/-- Gas was spent: execution gas goes down, and state gas that is gone is
accounted for by the spill. -/
structure GasPools.Spent (p p' : GasPools) : Prop where
  regular : p'.regular ≤ p.regular
  state : p'.stateGas + p.stateSpill ≤ p.stateGas + p'.stateSpill

/-- `amount` of state gas was charged, from the reservoir or from execution
gas. -/
structure GasPools.Charged (amount : Nat) (p p' : GasPools) : Prop where
  regular : p'.regular = p.regular
  state : p'.stateGas + p.stateSpill + amount = p.stateGas + p'.stateSpill

theorem GasPools.Spent.refl (p : GasPools) : p.Spent p := ⟨Nat.le_refl _, Nat.le_refl _⟩

theorem GasPools.Spent.trans {p p' p'' : GasPools} (h₁ : p.Spent p') (h₂ : p'.Spent p'') :
    p.Spent p'' := by
  obtain ⟨hr₁, hs₁⟩ := h₁
  obtain ⟨hr₂, hs₂⟩ := h₂
  exact ⟨hr₂.trans hr₁, by omega⟩

theorem GasPools.Charged.refl (p : GasPools) : Charged 0 p p := ⟨rfl, rfl⟩

theorem GasPools.Charged.spent {amount : Nat} {p p' : GasPools} (h : Charged amount p p') :
    p.Spent p' := by
  obtain ⟨hregular, hstate⟩ := h
  exact ⟨hregular.le, by omega⟩

theorem GasPools.Charged.stateUse {amount : Nat} {p p' : GasPools} (h : Charged amount p p') :
    p'.stateUse = p.stateUse + amount := by
  have hstate := h.state
  simp only [GasPools.stateUse]
  omega

/-- A charge that cannot be paid changes nothing. -/
theorem chargeStateGas_eq_ok {p p' : GasPools} {amount : Nat} {halt : Bool}
    (h : chargeStateGas p amount = .ok (halt, p')) :
    halt = true ∧ p' = p ∨ halt = false ∧ p.Charged amount p' := by
  simp only [chargeStateGas] at h
  split at h
  · next hzero =>
    cases h
    exact .inr ⟨rfl, hzero ▸ .refl p⟩
  · split at h
    · cases h
      exact .inr ⟨rfl, rfl, by simp only; omega⟩
    · split at h
      · obtain ⟨spilled, hspill, h⟩ := bind_eq_ok.mp h
        cases h
        obtain rfl := stateGasSpillAdd_eq_ok hspill
        exact .inr ⟨rfl, by simp only [GasPools.regular]; omega, by simp only; omega⟩
      · cases h
        exact .inl ⟨rfl, rfl⟩

theorem creditStateGasRefund_eq_ok {p p' : GasPools} {amount : Nat}
    (h : creditStateGasRefund p amount = .ok p') : p'.Charged amount p := by
  simp only [creditStateGasRefund] at h
  split at h
  · split at h
    · obtain ⟨gas, hgas, h⟩ := bind_eq_ok.mp h
      cases h
      obtain rfl := conservedGasAdd_eq_ok hgas
      exact ⟨by simp only [GasPools.regular]; omega, by simp only; omega⟩
    · cases h
      exact ⟨rfl, by omega⟩
  · obtain ⟨credited, hcredited, h⟩ := bind_eq_ok.mp h
    obtain ⟨stateGas, hstate, h⟩ := bind_eq_ok.mp h
    cases h
    obtain rfl := conservedGasAdd_eq_ok hstate
    have hgas : credited = p.gas + p.stateSpill := by
      split at hcredited
      · exact conservedGasAdd_eq_ok hcredited
      · cases hcredited
        omega
    exact ⟨by simp only [GasPools.regular]; omega, by simp only; omega⟩

theorem returnChildStateGas_eq_ok {parentRemaining parentSpilled childRemaining childSpilled : Nat}
    {r : Nat × Nat}
    (h : returnChildStateGas parentRemaining parentSpilled childRemaining childSpilled = .ok r) :
    r = (parentRemaining + childRemaining, parentSpilled + childSpilled) := by
  rw [returnChildStateGas] at h
  split at h
  · obtain ⟨spilled, hspill, h⟩ := bind_eq_ok.mp h
    cases h
    rw [stateGasSpillAdd_eq_ok hspill]
  · cases h

/-! ## Refunds -/

/-- The most refund that a unit of execution gas can earn. -/
def refundPerGas : Nat := 199

def gasRefundBound : Nat := refundPerGas * gasBound

/-- `validated_refund_add`. -/
def recordRefund (refund delta : Int) : Result Int :=
  let total := refund + delta
  if -(gasRefundBound : Int) ≤ total ∧ total ≤ gasRefundBound then .ok total
  else fatalError .executionInvalid

theorem recordRefund_eq_ok {refund delta total : Int} (h : recordRefund refund delta = .ok total) :
    total = refund + delta := by
  simp only [recordRefund] at h
  split at h
  · exact (Except.ok.inj h).symm
  · cases h

/-! ## Stores -/

theorem amsterdamStorageAccessCost_ge (cold : Bool) : 100 ≤ amsterdamStorageAccessCost cold := by
  cases cold
  · decide
  · decide

section

variable (fork : Fork) (original current new : Word) (cold : Bool)

/-- Before Amsterdam a store gives no state gas back. -/
theorem sstoreCosts_stateCredit (h : (sstoreCosts fork original current new cold).stateCredit ≠ 0) :
    .amsterdam ≤ fork := by
  by_contra hlegacy
  rw [sstoreCosts, if_neg hlegacy] at h
  exact h rfl

/-- A store costs a warm access at least. -/
theorem sstoreCosts_execution :
    gWarmAccess ≤ (sstoreCosts fork original current new cold).execution := by
  have haccess := amsterdamStorageAccessCost_ge cold
  rw [sstoreCosts]
  split
  · simp only [amsterdamSstoreCosts]
    split
    · exact haccess.trans (Nat.le_add_right _ _)
    · exact haccess
  · simp only [legacySstoreCosts]
    refine le_trans ?_ (Nat.le_add_right _ _)
    split_ifs <;> decide

end

/-- What a store does to the pools: credit, execution cost, state charge.
A store that cannot be paid has no result. -/
def sstorePools (p : GasPools) (costs : SstoreCosts) : Result (Option GasPools) := do
  let p ← (if costs.stateCredit ≠ 0 then creditStateGasRefund p costs.stateCredit else .ok p :
    Result GasPools)
  match spend p costs.execution with
  | none => .ok none
  | some p => spendState p costs.stateCharge

theorem spend_eq_some {p p' : GasPools} {cost : Nat} (h : spend p cost = some p') :
    p'.regular + cost = p.regular ∧ p'.stateGas = p.stateGas ∧ p'.stateSpill = p.stateSpill := by
  rw [spend] at h
  split at h
  · cases h
  · cases h
    refine ⟨?_, rfl, rfl⟩
    simp only [GasPools.regular, gasSub_eq]
    omega

theorem spend_stateUse {p p' : GasPools} {cost : Nat} (h : spend p cost = some p') :
    p'.stateUse = p.stateUse := by
  obtain ⟨-, hstate, hspill⟩ := spend_eq_some h
  rw [GasPools.stateUse, hstate, hspill, GasPools.stateUse]

theorem spendState_eq_some {p p' : GasPools} {amount : Nat}
    (h : spendState p amount = .ok (some p')) : p.Charged amount p' := by
  obtain ⟨r, hcharge, h⟩ := bind_eq_ok.mp h
  have hr : chargeStateGas p amount = .ok (r.1, r.2) := hcharge
  rcases chargeStateGas_eq_ok hr with ⟨htrue, -⟩ | ⟨hfalse, hcharged⟩
  · simp only [htrue] at h
    cases h
  · simp only [hfalse] at h
    cases h
    exact hcharged

/-- The state gas for an account that is created. -/
def newAccountUse (charged : Bool) : Int := if charged then stateNewAccount else 0

theorem newAccountUse_nonneg (charged : Bool) : 0 ≤ newAccountUse charged := by
  cases charged with
  | false => exact Int.le_refl 0
  | true => exact Int.natCast_nonneg _

theorem chargeNewAccount_stateUse {p p' : GasPools} {charged : Bool}
    (h : chargeNewAccount p charged = .ok (some p')) :
    p'.stateUse = p.stateUse + newAccountUse charged := by
  cases charged with
  | false =>
    cases h
    exact (add_zero _).symm
  | true => exact (spendState_eq_some h).stateUse

theorem creditNewAccount_stateUse {p p' : GasPools} {charged : Bool}
    (h : creditNewAccount p charged = .ok p') :
    p'.stateUse + newAccountUse charged = p.stateUse := by
  cases charged with
  | false =>
    cases h
    exact add_zero _
  | true => exact (creditStateGasRefund_eq_ok h).stateUse.symm

/-- The sums after a store. -/
theorem sstorePools_eq_some {p p' : GasPools} {costs : SstoreCosts}
    (h : sstorePools p costs = .ok (some p')) :
    p'.regular + costs.execution = p.regular ∧
      p'.stateGas + p.stateSpill + costs.stateCharge =
        p.stateGas + p'.stateSpill + costs.stateCredit := by
  obtain ⟨p₁, hcredit, h⟩ := bind_eq_ok.mp h
  have hcredited : p₁.Charged costs.stateCredit p := by
    split at hcredit
    · exact creditStateGasRefund_eq_ok hcredit
    · next hzero =>
      cases hcredit
      rw [not_not.mp hzero]
      exact .refl p
  obtain ⟨hregular₁, hstate₁⟩ := hcredited
  cases hspend : spend p₁ costs.execution with
  | none =>
    simp only [hspend] at h
    cases h
  | some p₂ =>
    simp only [hspend] at h
    obtain ⟨hregular₂, hstate₂, hspill₂⟩ := spend_eq_some hspend
    obtain ⟨hregular₃, hstate₃⟩ := spendState_eq_some h
    exact ⟨by omega, by omega⟩

end EvmSail
