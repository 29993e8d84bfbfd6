/-
# `EvmSail.Tx.Fees` — what an accepted transaction can pay

The check of a transaction prices it at its caps, for all the gas and all the
blobs it may use, and compares that with the sender's balance.  What is
debited later is the effective price, which is no more than the cap
(`effGasPriceFor_bounds`); so the debits and the value are there
(`Payable.covered`).

What is given back and what the coinbase gets is computed anew, from what is
left and what was used.  Both products fit, and together they are no more
than what was debited (`Payable.settles`).
-/
import EvmSail.Kernel.Writes
import EvmSail.Tx.Settlement
import EvmSail.Tx.Validity

namespace EvmSail

open Fallible Kept Kernel

/-! ## Prices -/

/-- What is added below the cap stays below it. -/
theorem le_add_of_covered {baseFee maxFee priority : Word} (hbase : baseFee ≤ maxFee)
    (hcovered : priority ≤ maxFee - baseFee) :
    baseFee ≤ baseFee + priority ∧ baseFee + priority ≤ maxFee := by
  have hmax := maxFee.isLt
  rw [BitVec.le_def, BitVec.toNat_sub_of_le hbase] at hcovered
  have hadd : (baseFee + priority).toNat = baseFee.toNat + priority.toNat := by
    rw [BitVec.toNat_add, Nat.mod_eq_of_lt (by omega)]
  rw [BitVec.le_def, BitVec.le_def, hadd]
  rw [BitVec.le_def] at hbase
  exact ⟨Nat.le_add_right _ _, by omega⟩

/-- The effective price lies between the base fee and the cap, and the coinbase
gets what is above the base fee. -/
theorem effGasPriceFor_bounds {baseFee maxFee maxPriorityFee : Word} (hbase : baseFee ≤ maxFee) :
    (effGasPriceFor baseFee maxFee maxPriorityFee).1 ≤ maxFee ∧
      baseFee.toNat + (effGasPriceFor baseFee maxFee maxPriorityFee).2.toNat =
        (effGasPriceFor baseFee maxFee maxPriorityFee).1.toNat := by
  have habove : ∀ price : Word, baseFee ≤ price →
      baseFee.toNat + (price - baseFee).toNat = price.toNat := by
    intro price hprice
    rw [BitVec.toNat_sub_of_le hprice]
    exact Nat.add_sub_cancel' (BitVec.le_def.mp hprice)
  simp only [effGasPriceFor]
  split
  · exact ⟨BitVec.le_refl _, habove maxFee hbase⟩
  · split
    · next hcovered =>
      obtain ⟨hprice, hcap⟩ := le_add_of_covered hbase hcovered
      rw [if_pos hprice]
      exact ⟨hcap, habove _ hprice⟩
    · exact ⟨BitVec.le_refl _, habove maxFee hbase⟩

/-- The blob fee is no more than its cap, and what the transaction may cost
fits a word. -/
theorem transactionCosts_bounds {profile : ProtocolProfile} {excessBlobGas blobFee upfront : Nat}
    {tx : BlobTransaction}
    (h : transactionCosts profile excessBlobGas tx = .ok (blobFee, upfront)) :
    upfront < wordModulus ∧ tx.maxFee * tx.gasLimit + tx.value + blobFee ≤ upfront := by
  obtain ⟨fee, hfee, h⟩ := bind_eq_ok.mp h
  have hcap : fee ≤ tx.maxBlobFee * (gasPerBlob * tx.blobCount) := by
    split at hfee
    · cases hfee
      exact Nat.zero_le _
    · obtain ⟨blobPrice, -, hfee⟩ := bind_eq_ok.mp hfee
      split at hfee
      · next hle =>
        cases hfee
        exact Nat.mul_le_mul_right _ hle
      · cases hfee
  have hcost : tx.maxFee * tx.gasLimit + tx.value + fee ≤ transactionUpfrontCost tx.maxFee
      tx.gasLimit tx.value tx.maxBlobFee (gasPerBlob * tx.blobCount) :=
    Nat.add_le_add_left hcap _
  dsimp only at h
  split at h
  · next hfits =>
    cases h
    exact ⟨hfits.2, hcost⟩
  · cases h

/-! ## Accepted transactions -/

/-- What the check has found out about the fees. -/
structure Payable (ve : ValidityEnv) (tx : TransactionFields) (allowance : TransactionGasAllowance)
    (h : Host) (v : TxValidity) : Prop where
  sender : v.sender = tx.sender
  gas : v.gas.Admitted allowance
  gasPrice : v.gasPrice ≤ tx.maxFee
  priorityFee : ve.baseFee.toNat + v.priorityFee.toNat = v.gasPrice.toNat
  covered : tx.maxFee.toNat * allowance.total + tx.value.toNat + v.blobFee ≤
    balanceReading ve.kernel h.state tx.sender
  fits : tx.maxFee.toNat * allowance.total < wordModulus

instance {env : Env} {c : Prop} [Decidable c] :
    @Looking env _ _ (rejectIf c : Kept (Reads env) Halt Unit) := by
  unfold rejectIf
  infer_instance

/-- A step of a program that only looks. -/
theorem looks_bind_eq_ok {env : Env} {α β : Type} {x : Kept (Reads env) Halt α}
    {f : α → Kept (Reads env) Halt β} [@Looking env _ _ x] {h₀ h h' : Host} {b : β}
    (hbefore : Looks env h₀ h) (hh : (x >>= f).run h = .ok (b, h')) :
    ∃ a h₁, x.run h = .ok (a, h₁) ∧ Looks env h₀ h₁ ∧ (f a).run h₁ = .ok (b, h') := by
  obtain ⟨a, h₁, hx, hf⟩ := run_bind_eq_ok.mp hh
  exact ⟨a, h₁, hx, IsTrans.trans _ _ _ hbefore (Looking.looks h a h₁ hx), hf⟩

theorem kGetBalance_balance {env : Env} {a : Address} {h h' : Host} {balance : Word}
    (hh : (kGetBalance env a).run h = .ok (balance, h')) :
    balanceReading env h.state a = balance.toNat := by
  obtain ⟨acc, h₁, hload, hh⟩ := run_bind_eq_ok.mp hh
  cases hh
  exact balanceReading_ok (kAload_loaded hload).1

/-- The check only looks, and an accepted transaction can be paid for. -/
theorem checkTransactionValidity_payable {ve : ValidityEnv} {tx : TransactionFields}
    {allowance : TransactionGasAllowance} {h h' : Host} {v : TxValidity}
    (hh : (checkTransactionValidity ve tx allowance).run h = .ok (v, h')) :
    Payable ve tx allowance h v ∧ Looks ve.kernel h h' := by
  dsimp only [checkTransactionValidity] at hh
  have hstart : Looks ve.kernel h h := Std.Refl.refl h
  obtain ⟨parity, h₁, -, hlooks, hh⟩ := looks_bind_eq_ok hstart hh
  obtain ⟨_, h₂, -, hlooks, hh⟩ := looks_bind_eq_ok hlooks hh
  obtain ⟨nonceBefore, h₃, -, hlooks, hh⟩ := looks_bind_eq_ok hlooks hh
  obtain ⟨intrinsic, h₄, -, hlooks, hh⟩ := looks_bind_eq_ok hlooks hh
  obtain ⟨fees, h₅, hfees, hlooks, hh⟩ := looks_bind_eq_ok hlooks hh
  obtain ⟨_, h₆, -, hlooks, hh⟩ := looks_bind_eq_ok hlooks hh
  obtain ⟨senderDeleg, h₇, -, hlooks, hh⟩ := looks_bind_eq_ok hlooks hh
  obtain ⟨_, h₈, -, hlooks, hh⟩ := looks_bind_eq_ok hlooks hh
  obtain ⟨_, h₉, -, hbefore, hh⟩ := looks_bind_eq_ok hlooks hh
  obtain ⟨senderBalance, _, hbalance, hlooks, hh⟩ := looks_bind_eq_ok hbefore hh
  obtain ⟨_, _, hcovered, hlooks, hh⟩ := looks_bind_eq_ok hlooks hh
  obtain ⟨senderCodeKey, _, -, hlooks, hh⟩ := looks_bind_eq_ok hlooks hh
  obtain ⟨_, _, -, hlooks, hh⟩ := looks_bind_eq_ok hlooks hh
  obtain ⟨_, _, -, hlooks, hh⟩ := looks_bind_eq_ok hlooks hh
  obtain ⟨_, _, hbaseFee, hlooks, hh⟩ := looks_bind_eq_ok hlooks hh
  obtain ⟨_, _, -, hlooks, hh⟩ := looks_bind_eq_ok hlooks hh
  obtain ⟨_, _, -, hlooks, hh⟩ := looks_bind_eq_ok hlooks hh
  obtain ⟨_, _, -, hlooks, hh⟩ := looks_bind_eq_ok hlooks hh
  obtain ⟨_, _, -, hlooks, hh⟩ := looks_bind_eq_ok hlooks hh
  obtain ⟨_, _, -, hlooks, hh⟩ := looks_bind_eq_ok hlooks hh
  obtain ⟨_, _, -, hlooks, hh⟩ := looks_bind_eq_ok hlooks hh
  obtain ⟨_, _, -, hlooks, hh⟩ := looks_bind_eq_ok hlooks hh
  obtain ⟨initialGas, _, hgas, hlooks, hh⟩ := looks_bind_eq_ok hlooks hh
  cases hh
  refine ⟨?_, hlooks⟩
  obtain ⟨hfits, hcosts⟩ := transactionCosts_bounds (query_run hfees)
  obtain ⟨hcap, hprice⟩ := @effGasPriceFor_bounds ve.baseFee tx.maxFee tx.maxPriorityFee
    (BitVec.not_lt.mp (rejectIf_run hbaseFee))
  have hbalance' : balanceReading ve.kernel h.state tx.sender = senderBalance.toNat :=
    (hbefore.readings.sameBalances tx.sender).symm.trans (kGetBalance_balance hbalance)
  have hupfront : fees.2 ≤ senderBalance.toNat := Nat.le_of_not_lt (rejectIf_run hcovered)
  exact
    { sender := rfl
      gas := transactionInitialGas_admitted (query_run hgas)
      gasPrice := hcap
      priorityFee := hprice
      covered := by
        rw [hbalance']
        exact hcosts.trans hupfront
      fits := by
        show (feeFields tx allowance.total).maxFee * (feeFields tx allowance.total).gasLimit < _
        omega }

/-! ## Debits and credits -/

variable {ve : ValidityEnv} {tx : TransactionFields} {allowance : TransactionGasAllowance}
  {h : Host} {v : TxValidity}

/-- The gas debit fits, and the sender has it, the blob fee and the value. -/
theorem Payable.debit (hv : Payable ve tx allowance h v) :
    ∃ gasDebit, validatedWordProduct v.gasPrice v.gas.admittedLimit = .ok gasDebit ∧
      gasDebit.toNat + v.blobFee + tx.value.toNat ≤ balanceReading ve.kernel h.state v.sender := by
  have hcap : v.gasPrice.toNat * v.gas.admittedLimit ≤ tx.maxFee.toNat * allowance.total := by
    rw [hv.gas.limit]
    exact Nat.mul_le_mul_right _ hv.gasPrice
  have hfits : v.gasPrice.toNat * v.gas.admittedLimit < 2 ^ 256 := hcap.trans_lt hv.fits
  refine ⟨BitVec.ofNat 256 (v.gasPrice.toNat * v.gas.admittedLimit),
    validatedWordProduct_eq_ok.mpr (Nat.mod_eq_of_lt hfits), ?_⟩
  have hcovered := hv.covered
  rw [hv.sender, BitVec.toNat_ofNat, Nat.mod_eq_of_lt hfits]
  omega

/-- Whatever the frame has left, what goes back to the sender and what goes to
the coinbase fits, and together it is the debit without the base fee. -/
theorem Payable.settles (hv : Payable ve tx allowance h v)
    (hregular : allowance.regular ≤ allowance.total) {gasDebit : Word}
    (hdebit : validatedWordProduct v.gasPrice v.gas.admittedLimit = .ok gasDebit)
    (profile : ProtocolProfile) (authorizationRefund : Nat) (fr : TxFrameResult v.gas) :
    ∃ senderRefund priorityPayment,
      validatedWordProduct v.gasPrice (settleGas profile authorizationRefund fr).left =
          .ok senderRefund ∧
        validatedWordProduct v.priorityFee (settleGas profile authorizationRefund fr).used =
          .ok priorityPayment ∧
        senderRefund.toNat + priorityPayment.toNat +
          ve.baseFee.toNat * (settleGas profile authorizationRefund fr).used = gasDebit.toNat := by
  obtain ⟨hlimit, -, -⟩ := @settleGas_within profile v.gas authorizationRefund fr hv.gas.floor (by
    rw [hv.gas.regularLimit, hv.gas.limit]
    exact hregular)
  revert hlimit
  generalize settleGas profile authorizationRefund fr = settled
  intro hlimit
  have hgasDebit := validatedWordProduct_eq_ok.mp hdebit
  have hsum : v.gasPrice.toNat * settled.left + v.priorityFee.toNat * settled.used +
      ve.baseFee.toNat * settled.used = gasDebit.toNat :=
    calc v.gasPrice.toNat * settled.left + v.priorityFee.toNat * settled.used +
          ve.baseFee.toNat * settled.used
        = v.gasPrice.toNat * settled.left +
            (ve.baseFee.toNat + v.priorityFee.toNat) * settled.used := by ring
      _ = v.gasPrice.toNat * (settled.used + settled.left) := by
          rw [hv.priorityFee]
          ring
      _ = gasDebit.toNat := by rw [hlimit, hgasDebit]
  have hbound := gasDebit.isLt
  have hrefund : v.gasPrice.toNat * settled.left < 2 ^ 256 := by omega
  have hpriority : v.priorityFee.toNat * settled.used < 2 ^ 256 := by omega
  refine ⟨BitVec.ofNat 256 (v.gasPrice.toNat * settled.left),
    BitVec.ofNat 256 (v.priorityFee.toNat * settled.used),
    validatedWordProduct_eq_ok.mpr (Nat.mod_eq_of_lt hrefund),
    validatedWordProduct_eq_ok.mpr (Nat.mod_eq_of_lt hpriority), ?_⟩
  rw [BitVec.toNat_ofNat, BitVec.toNat_ofNat, Nat.mod_eq_of_lt hrefund,
    Nat.mod_eq_of_lt hpriority, hsum]

end EvmSail
