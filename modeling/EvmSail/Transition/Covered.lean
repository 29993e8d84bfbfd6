/-
# `EvmSail.Transition.Covered` — a transaction pays what is there

The operations that move ether compute modulo 2^256 and do not look whether
the ether is there.  A transaction that is guarded, and halts where a payment
would wrap, does the same as one that is not (`balances_never_wrap`): the
check has compared the sender's balance with all that is debited, nothing in
between changes a balance, and what is paid in the end is no more than what
was debited.
-/
import EvmSail.Transition.Thrift
import EvmSail.Tx.Fees

namespace EvmSail.Vm

open Fallible Kernel Relation

section

/-- The account has `value`.  Where `B` is assumed the host is coherent, and
`owed` more ether still fits. -/
structure Affords (B : Prop) (env : Env) (a : Address) (value owed : Nat) (s : MachineState) :
    Prop where
  covered : value ≤ balanceReading env s.kernel.state a
  coherent : B → Coherent env s.kernel.state
  fits : B → ether env s.kernel.state + owed < 2 ^ 256

variable {B : Prop} {env : Env} {a : Address} {value owed : Nat} {s s' : MachineState}

theorem Affords.steady (h : Affords B env a value owed s) (hsteady : Steady env s s') :
    Affords B env a value owed s' where
  covered := by
    rw [hsteady.balances a]
    exact h.covered
  coherent hB := (hsteady.evolves.advances (h.coherent hB)).coherent
  fits hB := by
    rw [hsteady.balances.ether]
    exact h.fits hB

theorem Affords.of_state (h : Affords B env a value owed s)
    (hstate : s'.kernel.state = s.kernel.state) : Affords B env a value owed s' := by
  obtain ⟨hcovered, hcoherent, hfits⟩ := h
  exact ⟨by rwa [hstate], by rwa [hstate], by rwa [hstate]⟩

/-- Behind the transfer there is nothing more to cover. -/
theorem Affords.thrifty (h : Affords B env a value owed s) (hthrifty : Thrifty env s s') :
    Affords B env a 0 owed s' where
  covered := Nat.zero_le _
  coherent hB :=
    (hthrifty (h.coherent hB) ((Nat.le_add_right _ owed).trans_lt (h.fits hB))).1.coherent
  fits hB := by
    have hfits := h.fits hB
    have hle := (hthrifty (h.coherent hB) ((Nat.le_add_right _ owed).trans_lt hfits)).2
    omega

/-- A transfer of what is there fits. -/
theorem Affords.transferFits {dst : Address} {v : Word}
    (h : Affords B env a v.toNat owed s) (hB : B) :
    (Payment.transfer a dst v).Fits env s.kernel := by
  by_cases hsame : a = dst
  · exact .inl hsame
  · have htwo := (@supply_ether env s.kernel.state).two hsame
    have hcovered := h.covered
    have hfits := h.fits hB
    exact .inr (by omega)

theorem Affords.creditFits {dst : Address} {v : Word} (h : Affords B env a value owed s)
    (hv : v.toNat ≤ owed) (hB : B) : (Payment.credit dst v).Fits env s.kernel := by
  have hle := @balanceReading_le_ether env s.kernel.state dst
  have hfits := h.fits hB
  show balanceReading env s.kernel.state dst + v.toNat < 2 ^ 256
  omega

end

/-! ## The frame -/

section

variable {ctx : Context} {B : Prop} {P : Host → Payment → Prop} [∀ h p, Decidable (P h p)]
  {halt : Halt} {owed : Nat} {α : Type}

theorem affords_leads {a : Address} {value : Nat} {x : Exec α}
    (hx : Leads (Steady ctx.kernel) x) (s : MachineState) (r : α) (s' : MachineState)
    (hs : Affords B ctx.kernel a value owed s) (hrun : x s = .ok (r, s')) :
    Affords B ctx.kernel a value owed s' := hs.steady (hx s r s' hrun)

theorem affords_checkpoint {a : Address} {value : Nat} (s : MachineState) (u : Unit)
    (s' : MachineState) (hs : Affords B ctx.kernel a value owed s)
    (hrun : journal stateJournalCheckpoint s = .ok (u, s')) :
    Affords B ctx.kernel a value owed s' := by
  obtain ⟨kernel, hcheckpoint, rfl⟩ := journal_cases hrun
  exact hs.of_state (checkpoint_state hcheckpoint)

theorem affords_enter {a : Address} {value : Nat} {gas : TransactionInitialGas}
    (s : MachineState) (u : Unit) (s' : MachineState) (hs : Affords B ctx.kernel a value owed s)
    (hrun : enterTransactionFrame gas s = .ok (u, s')) :
    Affords B ctx.kernel a value owed s' := by
  cases hrun
  exact hs.of_state rfl

variable (hallow : ∀ h p, p.Covered ctx.kernel h → (B → p.Fits ctx.kernel h) → P h p)
  (tx : TransactionFields) (v : TxValidity)
include hallow

theorem agree_transfer (dst : Address) :
    Agrees (Affords B ctx.kernel v.sender tx.value.toNat owed)
      (guarded ctx.kernel P halt (.transfer v.sender dst tx.value))
      (kPay ctx.kernel (.transfer v.sender dst tx.value)) :=
  fun s hs => if_pos (hallow s.kernel (.transfer v.sender dst tx.value) hs.covered hs.transferFits)

theorem agree_prepareCreated (address : Address) :
    Agrees (Affords B ctx.kernel v.sender tx.value.toNat owed)
      (prepareCreated ctx tx v (guarded ctx.kernel P halt) address)
      (prepareCreated ctx tx v (kPay ctx.kernel) address) :=
  .after (affords_leads (steady_syscall fun _ _ _ => kMarkCreated_sameBalances)) fun _ =>
    .after (affords_leads (steady_syscall fun _ _ _ => kClearStorage_sameBalances)) fun _ =>
      .after (affords_leads (steady_syscall fun _ _ _ => kBumpNonce_sameBalances)) fun _ =>
        .ite (agree_transfer hallow tx v address) (.refl _)

theorem agree_runCreateTransactionFrame (d : Dispatch) (reservoir : Nat) :
    Agrees (Affords B ctx.kernel v.sender tx.value.toNat owed)
      (runCreateTransactionFrame ctx tx v (guarded ctx.kernel P halt) d reservoir)
      (runCreateTransactionFrame ctx tx v (kPay ctx.kernel) d reservoir) :=
  .after (affords_leads (.lift _)) fun address =>
    .after (affords_leads (steady_look _)) fun _ =>
      .after (affords_leads (steady_look _)) fun _ =>
        .ite (.refl _) (.before (agree_prepareCreated hallow tx v address) _)

theorem agree_runCallTransactionFrame (d : Dispatch) (reservoir : Nat) :
    Agrees (Affords B ctx.kernel v.sender tx.value.toNat owed)
      (runCallTransactionFrame ctx tx v (guarded ctx.kernel P halt) d reservoir)
      (runCallTransactionFrame ctx tx v (kPay ctx.kernel) d reservoir) :=
  .after (affords_leads (steady_look _)) fun _ =>
    .before (.ite (agree_transfer hallow tx v tx.recipient) (.refl _)) _

theorem agree_runTopFrame (d : Dispatch) (reservoir : Nat) :
    Agrees (Affords B ctx.kernel v.sender tx.value.toNat owed)
      (runTopFrame ctx tx v (guarded ctx.kernel P halt) d reservoir)
      (runTopFrame ctx tx v (kPay ctx.kernel) d reservoir) :=
  .ite (agree_runCreateTransactionFrame hallow tx v d reservoir)
    (agree_runCallTransactionFrame hallow tx v d reservoir)

omit hallow in
theorem affords_prepareAmsterdamFrame {a : Address} {value : Nat} {upfront : TxUpfrontResult}
    {authorizations : PreparedAuthorizationList} (s : MachineState)
    (r : Option (Int × Nat × Dispatch)) (s' : MachineState)
    (hs : Affords B ctx.kernel a value owed s)
    (hrun : prepareAmsterdamFrame ctx tx v upfront authorizations s = .ok (r, s')) :
    Affords B ctx.kernel a value owed s' := by
  obtain ⟨s₁, hfirst, ⟨-, rfl⟩ | ⟨dispatch, hsecond, -⟩⟩ := prepareAmsterdamFrame_cases tx v hrun
  · exact hs.steady hfirst
  · have hforgotten : Affords B ctx.kernel a value owed { s₁ with stateSpill := 0 } :=
      (hs.steady hfirst).of_state rfl
    exact hforgotten.steady hsecond

theorem agree_frameOutcomeOf (upfront : TxUpfrontResult)
    (authorizations : PreparedAuthorizationList) :
    Agrees (Affords B ctx.kernel v.sender tx.value.toNat owed)
      (frameOutcomeOf ctx tx v (guarded ctx.kernel P halt) upfront authorizations)
      (frameOutcomeOf ctx tx v (kPay ctx.kernel) upfront authorizations) := by
  refine .ite ?_ ?_
  · refine .after affords_enter fun _ => .after affords_checkpoint fun _ =>
      .after (affords_prepareAmsterdamFrame tx v) fun prepared => ?_
    cases prepared with
    | none => exact .refl _
    | some prepared =>
      exact .after affords_checkpoint fun _ => .before (agree_runTopFrame hallow tx v _ _) _
  · exact .after affords_checkpoint fun _ => .after affords_enter fun _ =>
      .before (agree_runTopFrame hallow tx v _ _) _

theorem agree_runTransactionFrame (upfront : TxUpfrontResult)
    (authorizations : PreparedAuthorizationList) :
    Agrees (Affords B ctx.kernel v.sender tx.value.toNat owed)
      (runTransactionFrame ctx tx v (guarded ctx.kernel P halt) upfront authorizations)
      (runTransactionFrame ctx tx v (kPay ctx.kernel) upfront authorizations) :=
  .before (agree_frameOutcomeOf hallow tx v upfront authorizations) _

/-! ## Debits and credits -/

omit hallow in
theorem Affords.mono {env : Env} {a : Address} {value owed' : Nat} {s : MachineState}
    (h : Affords B env a value owed s) (hle : owed' ≤ owed) : Affords B env a value owed' s :=
  ⟨h.covered, h.coherent, fun hB => (Nat.add_le_add_left hle _).trans_lt (h.fits hB)⟩

theorem agree_debit {a : Address} {amount : Word} {rest : Nat} :
    Agrees (Affords B ctx.kernel a (amount.toNat + rest) owed)
      (guarded ctx.kernel P halt (.debit a amount)) (kPay ctx.kernel (.debit a amount)) :=
  fun s hs => if_pos (hallow s.kernel (.debit a amount)
    ((Nat.le_add_right _ rest).trans hs.covered) fun _ => trivial)

omit hallow in
theorem affords_debit {a : Address} {amount : Word} {rest : Nat} (s : MachineState) (u : Unit)
    (s' : MachineState) (hs : Affords B ctx.kernel a (amount.toNat + rest) owed s)
    (hrun : kPay ctx.kernel (.debit a amount) s = .ok (u, s')) :
    Affords B ctx.kernel a rest (owed + amount.toNat) s' := by
  obtain ⟨⟨⟨⟩, kernel⟩, hdebit, hrun⟩ := bind_eq_ok.mp hrun
  cases hrun
  have hcovered := hs.covered
  have hdebited := kSubBalance_debited hdebit (by omega)
  have hevolves : Evolves ctx.kernel s.kernel kernel := Evolving.evolves _ _ _ hdebit
  refine ⟨?_, fun hB => (hevolves.advances (hs.coherent hB)).coherent, fun hB => ?_⟩
  · have haccount := hdebited.account
    show rest ≤ balanceReading ctx.kernel kernel.state a
    omega
  · have hether := hdebited.ether
    have hfits := hs.fits hB
    show ether ctx.kernel kernel.state + (owed + amount.toNat) < 2 ^ 256
    omega

theorem agree_credit {a dst : Address} {value : Nat} {amount : Word}
    (hamount : amount.toNat ≤ owed) :
    Agrees (Affords B ctx.kernel a value owed) (guarded ctx.kernel P halt (.credit dst amount))
      (kPay ctx.kernel (.credit dst amount)) :=
  fun s hs => if_pos (hallow s.kernel (.credit dst amount) trivial (hs.creditFits hamount))

omit hallow in
theorem affords_credit {a dst : Address} {value : Nat} {amount : Word}
    (hamount : amount.toNat ≤ owed) (s : MachineState) (u : Unit) (s' : MachineState)
    (hs : Affords B ctx.kernel a value owed s)
    (hrun : kPay ctx.kernel (.credit dst amount) s = .ok (u, s')) :
    Affords B ctx.kernel a 0 (owed - amount.toNat) s' := by
  obtain ⟨⟨⟨⟩, kernel⟩, hcredit, hrun⟩ := bind_eq_ok.mp hrun
  cases hrun
  have hevolves : Evolves ctx.kernel s.kernel kernel := Evolving.evolves _ _ _ hcredit
  refine ⟨Nat.zero_le _, fun hB => (hevolves.advances (hs.coherent hB)).coherent, fun hB => ?_⟩
  have hether := (kAddBalance_credited hcredit (hs.creditFits hamount hB)).ether
  have hfits := hs.fits hB
  show ether ctx.kernel kernel.state + (owed - amount.toNat) < 2 ^ 256
  omega

/-! ## Upfront effects and settlement -/

theorem agree_applyTransactionUpfrontEffects {gasDebit : Word}
    (hdebit : validatedWordProduct v.gasPrice v.gas.admittedLimit = .ok gasDebit)
    (hblob : v.blobFee < 2 ^ 256) (authorizations : PreparedAuthorizationList) :
    Agrees (Affords B ctx.kernel v.sender (gasDebit.toNat + (v.blobFee + tx.value.toNat)) 0)
      (applyTransactionUpfrontEffects ctx (guarded ctx.kernel P halt) tx v authorizations)
      (applyTransactionUpfrontEffects ctx (kPay ctx.kernel) tx v authorizations) := by
  have hfee : (BitVec.ofNat 256 v.blobFee).toNat = v.blobFee := Nat.mod_eq_of_lt hblob
  have hblobDebit : Agrees
      (Affords B ctx.kernel v.sender ((BitVec.ofNat 256 v.blobFee).toNat + tx.value.toNat)
        (0 + gasDebit.toNat))
      (guarded ctx.kernel P halt (.debit v.sender (BitVec.ofNat 256 v.blobFee)))
      (kPay ctx.kernel (.debit v.sender (BitVec.ofNat 256 v.blobFee))) := agree_debit hallow
  rw [hfee] at hblobDebit
  exact .after (affords_leads (steady_createTargetEmpty tx v)) fun _ => .lift hdebit <|
    .bind (agree_debit hallow) affords_debit fun _ => .before (.ite hblobDebit (.refl _)) _

omit hallow in
theorem affords_applyTransactionUpfrontEffects {gasDebit : Word}
    (hdebit : validatedWordProduct v.gasPrice v.gas.admittedLimit = .ok gasDebit)
    (hblob : v.blobFee < 2 ^ 256) (authorizations : PreparedAuthorizationList) (s : MachineState)
    (upfront : TxUpfrontResult) (s' : MachineState)
    (hs : Affords B ctx.kernel v.sender (gasDebit.toNat + (v.blobFee + tx.value.toNat)) 0 s)
    (hrun : applyTransactionUpfrontEffects ctx (kPay ctx.kernel) tx v authorizations s =
      .ok (upfront, s')) :
    Affords B ctx.kernel v.sender tx.value.toNat gasDebit.toNat s' := by
  have hfee : (BitVec.ofNat 256 v.blobFee).toNat = v.blobFee := Nat.mod_eq_of_lt hblob
  obtain ⟨targetEmpty, s₁, htarget, h₁⟩ := bind_apply_eq_ok.mp hrun
  obtain ⟨gasDebit', s₂, hproduct, h₂⟩ := bind_apply_eq_ok.mp h₁
  obtain ⟨⟨⟩, s₃, hpaid, h₃⟩ := bind_apply_eq_ok.mp h₂
  obtain ⟨⟨⟩, s₄, hblobPaid, h₄⟩ := bind_apply_eq_ok.mp h₃
  obtain ⟨hsame, rfl⟩ := liftM_apply_eq_ok.mp hproduct
  rw [hdebit] at hsame
  cases hsame
  have htargeted := affords_leads (steady_createTargetEmpty tx v) _ _ _ hs htarget
  have hfirst := affords_debit s₂ () s₃ htargeted hpaid
  have hrest : Leads (Steady ctx.kernel) (do
      syscall (kBumpNonce ctx.kernel v.sender)
      prewarm ctx tx
      let authorizationRefund ← (if ctx.amsterdam then pure 0
        else processAuthList ctx authorizations : Exec Nat)
      pure
        { authorizationRefund := authorizationRefund
          createTargetPrestateEmpty := targetEmpty } : Exec TxUpfrontResult) :=
    .bind (steady_syscall fun _ _ _ => kBumpNonce_sameBalances) fun _ =>
      .bind (steady_prewarm tx) fun _ =>
        .bind (.ite (.pure _) (steady_processAuthCursor _ _)) fun _ => .pure _
  refine affords_leads hrest s₄ upfront s' ?_ h₄
  split at hblobPaid
  · rw [← hfee] at hfirst
    exact (affords_debit s₃ () s₄ hfirst hblobPaid).mono (by omega)
  · next hnone =>
    cases hblobPaid
    have hzero := not_not.mp hnone
    rw [hzero, Nat.zero_add, Nat.zero_add] at hfirst
    exact hfirst

theorem agree_settleTransaction {gasDebit : Word} (logsStart authorizationRefund : Nat)
    (fr : TxFrameResult v.gas) {senderRefund priorityPayment : Word}
    (hrefund : validatedWordProduct v.gasPrice
      (settleGas ctx.kernel.profile authorizationRefund fr).left = .ok senderRefund)
    (hpriority : validatedWordProduct v.priorityFee
      (settleGas ctx.kernel.profile authorizationRefund fr).used = .ok priorityPayment)
    (hle : senderRefund.toNat + priorityPayment.toNat ≤ gasDebit.toNat) :
    Agrees (Affords B ctx.kernel v.sender 0 gasDebit.toNat)
      (settleTransaction ctx (guarded ctx.kernel P halt) tx v logsStart authorizationRefund fr)
      (settleTransaction ctx (kPay ctx.kernel) tx v logsStart authorizationRefund fr) := by
  refine .lift hrefund ?_
  refine .bind (agree_credit hallow (by omega)) (affords_credit (by omega)) fun _ =>
    .lift hpriority ?_
  exact .before (agree_credit hallow (by omega)) _

/-! ## The whole transaction -/

omit hallow in
/-- The frame leaves what is owed. -/
theorem affords_runTransactionFrame (upfront : TxUpfrontResult)
    (authorizations : PreparedAuthorizationList) (s : MachineState) (fr : TxFrameResult v.gas)
    (s' : MachineState) (hs : Affords B ctx.kernel v.sender tx.value.toNat owed s)
    (hrun : runTransactionFrame ctx tx v (kPay ctx.kernel) upfront authorizations s =
      .ok (fr, s')) : Affords B ctx.kernel v.sender 0 owed s' := by
  have hguarded : runTransactionFrame ctx tx v (guarded ctx.kernel (Payment.Covered ctx.kernel)
      .guestAbort) upfront authorizations s = .ok (fr, s') := by
    rw [← hrun]
    exact agree_runTransactionFrame (fun _ _ hcovered _ => hcovered) tx v upfront authorizations
      s hs
  exact hs.thrifty (thrifty_runTransactionFrame (fun _ _ hcovered => hcovered) tx v upfront
    authorizations s fr s' hguarded)

theorem agree_runTransaction {gasDebit : Word}
    (hdebit : validatedWordProduct v.gasPrice v.gas.admittedLimit = .ok gasDebit)
    (hblob : v.blobFee < 2 ^ 256)
    (hsettles : ∀ authorizationRefund (fr : TxFrameResult v.gas), ∃ senderRefund priorityPayment,
      validatedWordProduct v.gasPrice (settleGas ctx.kernel.profile authorizationRefund fr).left =
          .ok senderRefund ∧
        validatedWordProduct v.priorityFee
            (settleGas ctx.kernel.profile authorizationRefund fr).used = .ok priorityPayment ∧
        senderRefund.toNat + priorityPayment.toNat ≤ gasDebit.toNat)
    (logsStart : Nat) (authorizations : PreparedAuthorizationList) :
    Agrees (Affords B ctx.kernel v.sender (gasDebit.toNat + (v.blobFee + tx.value.toNat)) 0)
      (runTransaction ctx (guarded ctx.kernel P halt) tx v logsStart authorizations)
      (runTransaction ctx (kPay ctx.kernel) tx v logsStart authorizations) := by
  refine .bind (agree_applyTransactionUpfrontEffects hallow tx v hdebit hblob authorizations)
    (affords_applyTransactionUpfrontEffects tx v hdebit hblob authorizations) fun upfront =>
    .bind (agree_runTransactionFrame hallow tx v upfront authorizations)
      (affords_runTransactionFrame tx v upfront authorizations) fun fr => ?_
  obtain ⟨senderRefund, priorityPayment, hrefund, hpriority, hle⟩ :=
    hsettles upfront.authorizationRefund fr
  exact agree_settleTransaction hallow tx v logsStart _ fr hrefund hpriority hle

omit hallow in
/-- What is known of a transaction that has been admitted. -/
theorem admitTransaction_payable {ecrecover : Hash → Fin 2 → Word → Word → AddressResult}
    {allowance : TransactionGasAllowance} {s s' : MachineState}
    {admitted : TxValidity × PreparedAuthorizationList}
    (hrun : admitTransaction ctx ecrecover tx allowance s = .ok (admitted, s')) :
    Payable (ctx.validityEnv ecrecover) tx allowance (kTxReset s.kernel) admitted.1 ∧
      Looks ctx.kernel (kTxReset s.kernel) s'.kernel := by
  obtain ⟨⟨⟩, s₁, hreset, h₁⟩ := bind_apply_eq_ok.mp hrun
  obtain ⟨v, s₂, hvalid, h₂⟩ := bind_apply_eq_ok.mp h₁
  obtain ⟨authorizations, s₃, hprepared, h₃⟩ := bind_apply_eq_ok.mp h₂
  cases hreset
  cases h₃
  obtain ⟨-, rfl⟩ := liftM_apply_eq_ok.mp hprepared
  obtain ⟨kernel, hchecked, rfl⟩ := syscall_cases hvalid
  exact checkTransactionValidity_payable hchecked

/-- The payments of a transaction are allowed, if it comes to them. -/
theorem agree_processTransaction {ecrecover : Hash → Fin 2 → Word → Word → AddressResult}
    {allowance : TransactionGasAllowance} (hregular : allowance.regular ≤ allowance.total)
    {s : MachineState} (hcoherent : B → Coherent ctx.kernel (kTxReset s.kernel).state)
    (hfits : B → ether ctx.kernel (kTxReset s.kernel).state < 2 ^ 256) :
    processTransactionWith ctx ecrecover (guarded ctx.kernel P halt) tx allowance s =
      processTransaction ctx ecrecover tx allowance s := by
  refine Agrees.after (I := (· = s)) (J := fun _ s' => s' = s) ?_ (fun s₀ => ?_) s rfl
  · rintro s _ s' rfl hget
    cases hget
    rfl
  · refine .after (J := fun admitted s' =>
      Payable (ctx.validityEnv ecrecover) tx allowance (kTxReset s.kernel) admitted.1 ∧
        Looks ctx.kernel (kTxReset s.kernel) s'.kernel) ?_ ?_
    · rintro s admitted s' rfl hadmitted
      exact admitTransaction_payable tx hadmitted
    · rintro ⟨v, authorizations⟩ s₁ ⟨hpayable, hlooks⟩
      obtain ⟨gasDebit, hdebit, hcovered⟩ := hpayable.debit
      have hcovered' : gasDebit.toNat + (v.blobFee + tx.value.toNat) ≤
          balanceReading ctx.kernel s₁.kernel.state v.sender := by
        rw [hlooks.readings.sameBalances v.sender]
        exact (Nat.add_assoc _ _ _).symm.le.trans hcovered
      have hblob : v.blobFee ≤ balanceReading ctx.kernel s₁.kernel.state v.sender := by omega
      have hs₁ : Affords B ctx.kernel v.sender (gasDebit.toNat + (v.blobFee + tx.value.toNat)) 0
          s₁ :=
        ⟨hcovered', fun hB => (hlooks.advances (hcoherent hB)).coherent, fun hB => by
          rw [Nat.add_zero, hlooks.readings.sameBalances.ether]
          exact hfits hB⟩
      refine @agree_runTransaction (ctx.withTx tx v) B P _ halt hallow tx v gasDebit hdebit
        (hblob.trans_lt (balanceReading_lt _ _)) (fun authorizationRefund fr => ?_)
        (retainedLogs s₀.kernel).length authorizations s₁ hs₁
      obtain ⟨senderRefund, priorityPayment, hrefund, hpriority, hsum⟩ :=
        hpayable.settles hregular hdebit ctx.kernel.profile authorizationRefund fr
      exact ⟨senderRefund, priorityPayment, hrefund, hpriority, by omega⟩

end

/-! ## Balances -/

/-- A host that begins a transaction holds no rows of one. -/
theorem coherent_kTxReset {env : Env} {h : Host} (hc : Coherent env h.state) :
    Coherent env (kTxReset h).state where
  sound := sound_noEffects _ h.state.effects.logs rfl
  numbered :=
    { accounts := fun _ => Nat.le_refl _
      rows := fun _ _ hrow => by cases hrow }
  analyzed := hc.analyzed

/-- Balance arithmetic never wraps, whatever the transaction and the host.  A
transaction that halts where a debit or the transfer of its value is not
covered does the same as one that does not look, and so does one that halts
where a credit would overflow, if the ether at its start fits a word.  A
transaction that is accepted pays between the base fee and its cap; the
product of its debit fits, and with the blob fee and the value the sender has
it.  What is given back and what the coinbase gets fit as well, and with the
base fee make up the debit.  In the interpreter, all ether that moves in a step
is sent by a transfer that the sender covers. -/
theorem balances_never_wrap (ctx : Context)
    (ecrecover : Hash → Fin 2 → Word → Word → AddressResult) (tx : TransactionFields)
    (allowance : TransactionGasAllowance) (hregular : allowance.regular ≤ allowance.total)
    (s : MachineState) :
    (∀ halt, processTransactionWith ctx ecrecover
      (guarded ctx.kernel (fun h p => p.Covered ctx.kernel h) halt) tx allowance s =
        processTransaction ctx ecrecover tx allowance s) ∧
    (Coherent ctx.kernel s.kernel.state → ether ctx.kernel (kTxReset s.kernel).state < 2 ^ 256 →
      ∀ halt, processTransactionWith ctx ecrecover (guarded ctx.kernel
        (fun h p => p.Covered ctx.kernel h ∧ p.Fits ctx.kernel h) halt) tx allowance s =
          processTransaction ctx ecrecover tx allowance s) ∧
    (∀ v h', (checkTransactionValidity (ctx.validityEnv ecrecover) tx allowance).run
        (kTxReset s.kernel) = .ok (v, h') →
      ctx.header.baseFee ≤ v.gasPrice ∧ v.gasPrice ≤ tx.maxFee ∧
      ∃ gasDebit, validatedWordProduct v.gasPrice v.gas.admittedLimit = .ok gasDebit ∧
        gasDebit.toNat + v.blobFee + tx.value.toNat ≤
          balanceReading ctx.kernel (kTxReset s.kernel).state v.sender ∧
        ∀ authorizationRefund (fr : TxFrameResult v.gas), ∃ senderRefund priorityPayment,
          validatedWordProduct v.gasPrice
              (settleGas ctx.kernel.profile authorizationRefund fr).left = .ok senderRefund ∧
            validatedWordProduct v.priorityFee
              (settleGas ctx.kernel.profile authorizationRefund fr).used = .ok priorityPayment ∧
            senderRefund.toNat + priorityPayment.toNat + ctx.header.baseFee.toNat *
              (settleGas ctx.kernel.profile authorizationRefund fr).used = gasDebit.toNat) ∧
    ∀ ctx m m', (calls ctx).Step m m' → Moved ctx m m' := by
  refine ⟨fun halt => ?_, fun hc hfits halt => ?_, fun v h' hvalid => ?_,
    fun ctx m m' hstep => step_moved hstep⟩
  · exact agree_processTransaction (B := False) (fun h p hcovered _ => hcovered) tx hregular
      False.elim False.elim
  · exact agree_processTransaction (B := True) (fun h p hcovered hfits => ⟨hcovered, hfits trivial⟩)
      tx hregular (fun _ => coherent_kTxReset hc) fun _ => hfits
  · obtain ⟨hpayable, -⟩ := checkTransactionValidity_payable hvalid
    obtain ⟨gasDebit, hdebit, hcovered⟩ := hpayable.debit
    have hbaseFee : ctx.header.baseFee.toNat ≤ v.gasPrice.toNat :=
      (Nat.le_add_right _ _).trans hpayable.priorityFee.le
    exact ⟨BitVec.le_def.mpr hbaseFee, hpayable.gasPrice, gasDebit, hdebit, hcovered,
      hpayable.settles hregular hdebit ctx.kernel.profile⟩

/-! ## A transaction to look at -/

def wealthyAccounts : Nat → Account
  | 0xaa => settledAccount 1000000000 keccakEmpty
  | 0xcc => settledAccount 10 calleeHash
  | _ => emptyAccount

/-- The payer can pay for gas, and the bystander is the coinbase. -/
def wealthyAmsterdam : Context :=
  { settledAmsterdam with
    kernel :=
      { settledAmsterdam.kernel with
        statelessAccountByKey := fun _ key => .ok (wealthyAccounts (natOfBytes key.toList)) }
    header := { settledAmsterdam.header with baseFee := 8, feeRecipient := bystander } }

/-- The payer calls the callee, and sends it 7. -/
def payingTransaction : TransactionFields :=
  { txType := .feeMarketTx
    sender := payer
    raw := []
    nonce := 1
    chainId := 1
    gasLimit := 400000
    isCreate := false
    recipient := callee
    value := 7
    inputSrc := [1, 0]
    accessList := emptyAccessListRef
    maxFee := 12
    maxBlobFee := 0
    maxPriorityFee := 3
    authorizations := emptyAuthorizationListRef
    blobHashes := emptyBlobHashes
    pubkey := []
    signingHash := zeroHash
    sigV := 0
    sigR := 1
    sigS := 1 }

def recoversPayer : Hash → Fin 2 → Word → Word → AddressResult :=
  fun _ _ _ _ => { success := true, address := payer }

/-- Before any frame has run. -/
def idleMachine (h : Host) : MachineState :=
  { gas := 0
    stateGas := 0
    stateSpill := 0
    pc := 0
    refund := 0
    sp := 0
    memoryHeight := 0
    kernel := h
    row := 0
    operands := fun _ _ => 0
    memory := fun _ => 0
    output := [] }

theorem balanceReading_wealthy (a : Address) :
    balanceReading wealthyAmsterdam.kernel (kTxReset (calleeHost destroys)).state a =
      (wealthyAccounts a.toNat).info.balance.toNat := by
  have hkey : natOfBytes (hashFromBits (natOfBytes (addressBytes a))).toList = a.toNat := by
    rw [natOfBytes_addressBytes]
    exact natOfBytes_hashFromBits (a.isLt.trans (by decide))
  have hread : (view wealthyAmsterdam.kernel (kTxReset (calleeHost destroys)).state).readAccount a =
      .ok (wealthyAccounts (natOfBytes (hashFromBits (natOfBytes (addressBytes a))).toList)) := rfl
  rw [balanceReading, hread, hkey]

theorem wealthyAccounts_balance (a : Address) :
    ((wealthyAccounts a.toNat).info.balance.toNat : Int) ≤
      (if a = payer then 1000000000 else 0) + if a = callee then 10 else 0 := by
  unfold wealthyAccounts
  split
  · next h =>
    obtain rfl : a = payer := BitVec.eq_of_toNat_eq h
    decide
  · next h =>
    obtain rfl : a = callee := BitVec.eq_of_toNat_eq h
    decide
  · show (0 : Int) ≤ _
    positivity

theorem ether_wealthy :
    ether wealthyAmsterdam.kernel (kTxReset (calleeHost destroys)).state < 2 ^ 256 := by
  have hsums : SumsWithin (fun a : Address => (if a = payer then (1000000000 : Int) else 0) +
      if a = callee then 10 else 0) (1000000000 + 10) :=
    (SumsWithin.single payer (by decide)).add (SumsWithin.single callee (by decide))
  have hsupply : Supply wealthyAmsterdam.kernel (kTxReset (calleeHost destroys)).state
      (1000000000 + 10) :=
    hsums.mono (fun a => by
      rw [balanceReading_wealthy]
      exact wealthyAccounts_balance a) (le_refl _)
  have hle := hsupply.ether_le
  have hfits : (1000000000 + 10 : Int) < 2 ^ 256 := by decide
  exact_mod_cast hle.trans_lt hfits

/-- The callee destroys itself in favour of the coinbase, which gets the 10 that
it had, the 7 that it was sent, and 3 for each of 329099 units of gas. -/
theorem balances_never_wrap_paying : ∃ r s',
    processTransactionWith wealthyAmsterdam recoversPayer
      (guarded wealthyAmsterdam.kernel (fun h p => p.Covered wealthyAmsterdam.kernel h ∧
        p.Fits wealthyAmsterdam.kernel h) .guestAbort) payingTransaction
      { total := 400000, regular := 400000 } (idleMachine (calleeHost destroys)) = .ok (r, s') ∧
      r.success = true ∧ r.gasUsed = 329099 ∧
      balanceReading wealthyAmsterdam.kernel s'.kernel.state payer =
        1000000000 - 7 - 11 * 329099 ∧
      balanceReading wealthyAmsterdam.kernel s'.kernel.state bystander = 17 + 3 * 329099 := by
  have hcoherent : Coherent wealthyAmsterdam.kernel (calleeHost destroys).state :=
    { coherent_kTxReset (@coherent_calleeHost destroys (by decide +kernel)) with
      sound := sound_noEffects _ [] rfl }
  have hguarded := (balances_never_wrap wealthyAmsterdam recoversPayer payingTransaction
    { total := 400000, regular := 400000 } (by decide) (idleMachine (calleeHost destroys))).2.1
    hcoherent ether_wealthy .guestAbort
  have hran : (processTransaction wealthyAmsterdam recoversPayer payingTransaction
      { total := 400000, regular := 400000 } (idleMachine (calleeHost destroys))).map
      (fun r => decide (r.1.success = true ∧ r.1.gasUsed = 329099 ∧
        balanceReading wealthyAmsterdam.kernel r.2.kernel.state payer =
          1000000000 - 7 - 11 * 329099 ∧
        balanceReading wealthyAmsterdam.kernel r.2.kernel.state bystander =
          17 + 3 * 329099)) = .ok true := by
    decide +kernel
  rw [hguarded]
  cases hrun : processTransaction wealthyAmsterdam recoversPayer payingTransaction
      { total := 400000, regular := 400000 } (idleMachine (calleeHost destroys)) with
  | error halt =>
    rw [hrun] at hran
    cases hran
  | ok r =>
    rw [hrun] at hran
    exact ⟨r.1, r.2, rfl, of_decide_eq_true (Except.ok.inj hran)⟩

end EvmSail.Vm
