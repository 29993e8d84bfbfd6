/-
# `EvmSail.Transition.Steady` — what moves no ether

Around its payments a transaction looks at accounts, marks them warm, counts
nonces, and sets delegations.  None of this changes a balance, and the gas
that a preparation charges is spent, not made: `Steady` relates the states,
and `Leads` follows the programs.
-/
import EvmSail.Transition.Transaction
import EvmSail.Vm.FrameReturn
import EvmSail.Vm.Rules

namespace EvmSail.Vm

open Fallible Kernel Kept

/-! ## The kernel's marks -/

section

variable {env : Env}

instance (a : Address) (slot : Word) : Quiet (kPrewarmSlot env a slot) where
  next h b h' hx := by
    cases hx
    simp only [storageMarkWarm]
    split
    · rfl
    · rfl

instance (a : Address) (slot : Word) : @Looking env _ _ (kPrewarmSlot env a slot) :=
  looking_of_evolving fun h u h' hrun => by
    cases hrun
    exact storageMarkWarm_sameReadings _ h

theorem marks_looks (marks : List AccessMark) {h h' : Host} {u : Unit}
    (hrun : (forM marks (kernelWarmSets env).mark).run h = .ok (u, h')) : Looks env h h' := by
  induction marks generalizing h with
  | nil =>
    cases hrun
    exact Std.Refl.refl _
  | cons m marks ih =>
    rw [List.forM_cons] at hrun
    obtain ⟨_, h₁, hmark, hrest⟩ := run_bind_eq_ok.mp hrun
    refine IsTrans.trans _ _ _ ?_ (ih hrest)
    cases m with
    | account a =>
      exact (inferInstance : @Looking env _ _ (kAccountMarkWarm env a)).looks h _ h₁ hmark
    | slot a key =>
      exact (inferInstance : @Looking env _ _ (kPrewarmSlot env a key)).looks h _ h₁ hmark

/-- Warming an access list only marks. -/
instance (c : List Byte) : @Looking env _ _ (warmAccessList (kernelWarmSets env) c) where
  looks h u h' hrun := by
    obtain ⟨es, -, hmarks⟩ := warmAccessList_eq_ok.mp hrun
    exact marks_looks (accessMarks es) hmarks

/-! ## The kernel's writes -/

theorem sameBalances_of_view {h h' : Host} (hview : view env h'.state = view env h.state) :
    SameBalances env h h' := fun _ => balanceReading_congr (by rw [hview])

theorem kInternCode_sameBalances {code : List Byte} {hash : Hash} {h h' : Host}
    (hrun : (kInternCode env code).run h = .ok (hash, h')) : SameBalances env h h' :=
  sameBalances_of_view (codeDbInsert_ok hrun).1

theorem kSetDelegation_sameBalances {a target : Address} {h h' : Host} {u : Unit}
    (hrun : (kSetDelegation env a target).run h = .ok (u, h')) : SameBalances env h h' := by
  obtain ⟨code, -, hbind⟩ := run_query_bind_eq_ok.mp hrun
  exact bindCode_sameBalances hbind

theorem kClearCode_sameBalances {a : Address} {h h' : Host} {u : Unit}
    (hrun : (kClearCode env a).run h = .ok (u, h')) : SameBalances env h h' := by
  rcases updateInfo_rewrites hrun with hsame | ⟨acc, info, hacc, hinfo, hrewrites⟩
  · exact hsame.sameBalances
  · refine hrewrites.sameBalances hacc ?_
    rw [accountSetInfo_balance]
    cases hinfo
    rfl

end

/-! ## Steady programs -/

/-- The host evolves, nobody's balance changes, and gas is spent. -/
structure Steady (env : Env) (s s' : MachineState) : Prop where
  evolves : Evolves env s.kernel s'.kernel
  balances : SameBalances env s.kernel s'.kernel
  spent : s.toGasPools.Spent s'.toGasPools

instance (env : Env) : IsPreorder MachineState (Steady env) where
  refl s := ⟨Std.Refl.refl s.kernel, fun _ => rfl, .refl _⟩
  trans _ _ _ h₁ h₂ :=
    { evolves := IsTrans.trans _ _ _ h₁.evolves h₂.evolves
      balances := fun a => (h₂.balances a).trans (h₁.balances a)
      spent := h₁.spent.trans h₂.spent }

section

variable {ctx : Context} {α S : Type}

theorem Peeked.steady {s s' : MachineState} (h : Peeked ctx s s') : Steady ctx.kernel s s' := by
  obtain ⟨kernel, hlooks, rfl⟩ := h
  exact ⟨hlooks.evolves, hlooks.readings.sameBalances, .refl _⟩

theorem Peeks.steady {x : Exec α} (hx : Peeks ctx x) : Leads (Steady ctx.kernel) x :=
  hx.mono fun _ _ h => h.steady

theorem steady_look {R : Host → Host → Prop} (x : Kept R Halt α) [@Looking ctx.kernel R α x] :
    Leads (Steady ctx.kernel) (syscall x) := (peeks_syscall x).steady

theorem steady_syscall {R : Host → Host → Prop} {x : Kept R Halt α}
    [hx : @Evolving ctx.kernel R α x]
    (hbalances : ∀ h a h', x.run h = .ok (a, h') → SameBalances ctx.kernel h h') :
    Leads (Steady ctx.kernel) (syscall x) := by
  intro s a s' hrun
  obtain ⟨r, hr, hrun⟩ := bind_eq_ok.mp hrun
  cases hrun
  exact ⟨hx.evolves s.kernel r.1 r.2 hr, hbalances s.kernel r.1 r.2 hr, .refl _⟩

theorem steady_fail [Outcome S] (kind : ExceptionKind) :
    Leads (Steady ctx.kernel) (fail kind : Exec S) := .pure _

/-- A charge, and what follows it. -/
theorem steady_charge [Outcome S] {cost : Nat} {k : Exec S} (hk : Leads (Steady ctx.kernel) k) :
    Leads (Steady ctx.kernel) (charge cost k) := by
  intro s r s' hrun
  rw [charge] at hrun
  split at hrun
  · cases hrun
    refine ⟨Std.Refl.refl s.kernel, fun _ => rfl, ?_, le_refl _⟩
    simp only [GasPools.regular]
    omega
  · refine IsTrans.trans _ _ _ ?_ (hk _ r s' hrun)
    refine ⟨Std.Refl.refl s.kernel, fun _ => rfl, ?_, le_refl _⟩
    simp only [GasPools.regular, gasSub_eq]
    omega

theorem steady_chargeState [Outcome S] {amount : Nat} {k : Exec S}
    (hk : Leads (Steady ctx.kernel) k) : Leads (Steady ctx.kernel) (chargeState amount k) := by
  intro s r s' hrun
  obtain ⟨⟨halt, pools⟩, hcharge, hrun⟩ := bind_eq_ok.mp hrun
  have hcharged : Steady ctx.kernel s { s with toGasPools := pools } := by
    refine ⟨Std.Refl.refl s.kernel, fun _ => rfl, ?_⟩
    rcases chargeStateGas_eq_ok hcharge with ⟨-, rfl⟩ | ⟨-, hpaid⟩
    · exact .refl _
    · exact hpaid.spent
  refine IsTrans.trans _ _ _ hcharged ?_
  split at hrun
  · exact steady_fail .outOfGas _ r s' hrun
  · exact hk _ r s' hrun

theorem steady_chargeWhen [Outcome S] {due : Bool} {cost : Nat} {k : Exec S}
    (hk : Leads (Steady ctx.kernel) k) : Leads (Steady ctx.kernel) (chargeWhen due cost k) :=
  .ite (steady_charge hk) hk

theorem steady_chargeStateWhen [Outcome S] {due : Bool} {amount : Nat} {k : Exec S}
    (hk : Leads (Steady ctx.kernel) k) :
    Leads (Steady ctx.kernel) (chargeStateWhen due amount k) :=
  .ite (steady_chargeState hk) hk

/-! ## Authorizations -/

theorem steady_installDelegation (au : Authorization) :
    Leads (Steady ctx.kernel) (installDelegation ctx au) :=
  .bind
    (.ite (steady_syscall fun _ _ _ => kClearCode_sameBalances)
      (steady_syscall fun _ _ _ => kSetDelegation_sameBalances))
    fun _ => steady_syscall fun _ _ _ => kBumpNonce_sameBalances

theorem steady_readAuthority (au : Authorization) :
    Leads (Steady ctx.kernel) (readAuthority ctx au) :=
  .bind (steady_look _) fun _ => .bind (steady_look _) fun _ => .bind (steady_look _) fun _ =>
    .bind (steady_look _) fun _ => .pure _

theorem steady_processAuth (au : Authorization) :
    Leads (Steady ctx.kernel) (processAuth ctx au) :=
  .ite
    (.bind (steady_readAuthority au) fun _ =>
      .ite
        (.bind (steady_look _) fun _ => .bind (steady_installDelegation au) fun _ => .pure _)
        (.pure _))
    (.pure _)

theorem steady_processAuthCursor (authorizations : List Authorization) (count : Nat) :
    Leads (Steady ctx.kernel) (processAuthCursor ctx authorizations count) := by
  induction authorizations generalizing count with
  | nil =>
    cases count with
    | zero => exact .pure _
    | succ count => exact .lift _
  | cons au rest ih =>
    cases count with
    | zero => exact .pure _
    | succ count =>
      exact .bind (steady_processAuth au) fun _ => .bind (ih count) fun _ => .lift _

theorem steady_processAmsterdamAuth (sender currentTarget : Address) (transfersValue : Bool)
    (tracker : AuthorizationTracker) (au : Authorization) :
    Leads (Steady ctx.kernel)
      (processAmsterdamAuth ctx sender currentTarget transfersValue tracker au) :=
  .ite
    (.bind (steady_readAuthority au) fun _ =>
      .ite
        (.bind (steady_look _) fun _ =>
          steady_chargeStateWhen <| steady_chargeWhen <| steady_chargeStateWhen <|
            .bind (steady_installDelegation au) fun _ => .pure _)
        (.pure _))
    (.pure _)

theorem steady_processAmsterdamAuthCursor (sender currentTarget : Address)
    (transfersValue : Bool) (authorizations : List Authorization) (count : Nat)
    (tracker : AuthorizationTracker) :
    Leads (Steady ctx.kernel) (processAmsterdamAuthCursor ctx sender currentTarget transfersValue
      authorizations count tracker) := by
  induction authorizations generalizing count tracker with
  | nil =>
    cases count with
    | zero => exact .pure _
    | succ count => exact .lift _
  | cons au rest ih =>
    cases count with
    | zero => exact .pure _
    | succ count =>
      refine .bind (steady_processAmsterdamAuth _ _ _ _ _) fun applied => ?_
      cases applied with
      | none => exact .pure _
      | some tracker => exact ih count tracker

/-! ## Around the frame -/

variable (tx : TransactionFields) (v : TxValidity)

theorem steady_prewarm : Leads (Steady ctx.kernel) (prewarm ctx tx) :=
  .bind (steady_look _) fun _ =>
    .bind (.ite (.pure _) (steady_look _)) fun _ =>
      .bind (.ite (steady_look _) (.pure _)) fun _ => steady_look _

theorem steady_createTargetEmpty : Leads (Steady ctx.kernel) (createTargetEmpty ctx tx v) :=
  .ite (.bind (.lift _) fun _ => .bind (steady_look _) fun _ => .pure _) (.pure _)

theorem steady_executableCode (target : Address) (delegate : Option Address) :
    Leads (Steady ctx.kernel) (executableCode ctx target delegate) :=
  fun _ _ _ hrun => (executableCode_cases hrun).1.steady

theorem steady_internInitcode (input : List Byte) :
    Leads (Steady ctx.kernel) (internInitcode ctx input) :=
  .bind (.lift _) fun _ =>
    .bind (steady_syscall fun _ _ _ => kInternCode_sameBalances) fun _ =>
      .bind .get fun _ => .lift _

theorem steady_chargeDelegate {k : Exec (Option Dispatch)} (hk : Leads (Steady ctx.kernel) k)
    (delegate : Option Address) : Leads (Steady ctx.kernel) (chargeDelegate ctx k delegate) := by
  cases delegate with
  | none => exact hk
  | some delegate =>
    exact .bind (steady_look _) fun _ =>
      steady_charge (.bind (steady_look _) fun _ => hk)

theorem steady_prepareAmsterdamTransactionDispatch (upfront : TxUpfrontResult) :
    Leads (Steady ctx.kernel) (prepareAmsterdamTransactionDispatch ctx tx v upfront) :=
  .ite
    (.bind (.lift _) fun _ =>
      steady_chargeStateWhen (.bind (steady_internInitcode _) fun _ => .pure _))
    (.bind (steady_look _) fun _ =>
      steady_chargeStateWhen <| .bind (steady_look _) fun _ =>
        steady_chargeDelegate (.bind (steady_executableCode _ _) fun _ => .pure _) _)

theorem steady_warmDelegate (delegate : Option Address) :
    Leads (Steady ctx.kernel) (warmDelegate ctx delegate) := by
  cases delegate with
  | none => exact .pure _
  | some delegate => exact .bind (steady_look _) fun _ => .bind (steady_look _) fun _ => .pure _

theorem steady_legacyDispatch : Leads (Steady ctx.kernel) (legacyDispatch ctx tx) :=
  .bind (steady_look _) fun _ => .bind (steady_warmDelegate _) fun _ =>
    .bind (steady_executableCode _ _) fun _ => .pure _

/-- The preparation is steady, except that what the authorizations have spilled
is taken down and forgotten before the dispatch. -/
theorem prepareAmsterdamFrame_cases {upfront : TxUpfrontResult}
    {authorizations : PreparedAuthorizationList} {s s' : MachineState}
    {r : Option (Int × Nat × Dispatch)}
    (h : prepareAmsterdamFrame ctx tx v upfront authorizations s = .ok (r, s')) :
    ∃ s₁, Steady ctx.kernel s s₁ ∧
      (r = none ∧ s' = s₁ ∨
        ∃ dispatch : Option Dispatch, Steady ctx.kernel { s₁ with stateSpill := 0 } s' ∧
          r = dispatch.map fun d =>
            (frameStateGasUsed s.stateGas s₁.stateGas s₁.stateSpill, s₁.stateGas, d)) := by
  obtain ⟨s₀, _, hget, h₀⟩ := bind_apply_eq_ok.mp h
  cases hget
  obtain ⟨currentTarget, s₁, htarget, h₁⟩ := bind_apply_eq_ok.mp h₀
  obtain ⟨processed, s₂, hcursor, h₂⟩ := bind_apply_eq_ok.mp h₁
  have hfirst : Steady ctx.kernel s s₁ :=
    Leads.ite (.lift _) (.pure _) s currentTarget s₁ htarget
  have hsecond := steady_processAmsterdamAuthCursor _ _ _ _ _ _ s₁ processed s₂ hcursor
  refine ⟨s₂, IsTrans.trans _ _ _ hfirst hsecond, ?_⟩
  cases processed with
  | false =>
    cases h₂
    exact .inl ⟨rfl, rfl⟩
  | true =>
    obtain ⟨s₃, _, hget, h₃⟩ := bind_apply_eq_ok.mp h₂
    cases hget
    obtain ⟨⟨⟩, s₄, hmodify, h₄⟩ := bind_apply_eq_ok.mp h₃
    cases hmodify
    obtain ⟨dispatch, s₅, hdispatch, h₅⟩ := bind_apply_eq_ok.mp h₄
    cases h₅
    have hthird := steady_prepareAmsterdamTransactionDispatch tx v upfront _ dispatch _ hdispatch
    exact .inr ⟨dispatch, hthird, rfl⟩

end

end EvmSail.Vm
