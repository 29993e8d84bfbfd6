/-
# `EvmSail.Vm.Isolation` — who can touch an account

Whatever a frame does to the host it does at its own address
(`Stayed.writes`): it stores, logs, counts and destroys there, and sends what
is owned there.  When a creator starts a child, the new account is written to
at the child's address and paid from the creator's.

So two things hold of every run.  The balances of any finitely many accounts
stay within their bound, and no credit overflows (`ether_never_made`).  And an
account at whose address no frame runs is only ever paid: its nonce, its
code, its storage and its transient storage are as they were, whatever the
other frames call, create, destroy and revert (`bystander_spared`).
-/
import EvmSail.Vm.Rollback

namespace EvmSail.Vm

open Fallible Kernel Kept Relation

section

variable {ctx : Context}

/-! ## Writes of a frame -/

theorem Move.writes {f : Frame} {s s' : MachineState} (h : Move ctx f s s') :
    Writes ctx.kernel f.message.address s.kernel s'.kernel := by
  cases h with
  | quiet h => exact .single (.looked h.behind.looks)
  | write kernel hstatic hwrite hevolves => exact .single hwrite
  | sstore slot v entry cold pools refund kernel hstatic hentry hpaid hstored =>
    by_cases hne : entry.curr ≠ v
    · exact .single (.stored slot _ ((if_pos hne).mp hstored))
    · obtain rfl : kernel = s.kernel := (if_neg hne).mp hstored
      exact .refl
  | refund | freeze => exact .refl

theorem Moves.writes {f : Frame} {s s' : MachineState} (h : Moves ctx f s s') :
    Writes ctx.kernel f.message.address s.kernel s'.kernel := by
  induction h with
  | refl => exact .refl
  | tail _ hmove ih => exact ih.trans hmove.writes

theorem Executed.writes {f : Frame} {least : Nat} {s s' : MachineState} {status : FrameStatus}
    (h : Executed least ctx f s status s') :
    Writes ctx.kernel f.message.address s.kernel s'.kernel := by
  cases h with
  | goesOn hmoves hspent => exact hmoves.writes
  | fails kind hmoves => exact .single (.looked hmoves.behind.looks)
  | ends kind hkind hmoves => exact hmoves.writes
  | reverts pools buffer output hmoves hpools => exact hmoves.moves.writes

/-- A frame writes at its own address. -/
theorem Stayed.writes {a b : Activation} (h : Stayed ctx a b) :
    Writes ctx.kernel a.frame.message.address a.state.kernel b.state.kernel := by
  cases h with
  | opcode status s' h =>
    show Writes _ _ a.state.kernel (leave ctx a.frame status s').kernel
    rw [leave_kernel]
    exact h.writes
  | answered returndata s' h => exact h.writes

theorem FrameContinuation.Prepares.writes {f : Frame} {h h' : Host} {k : FrameContinuation}
    (hprepares : k.Prepares ctx f h h') : Kernel.Writes ctx.kernel f.message.address h h' := by
  cases k with
  | resumeCall c off len charged => exact .single (.looked hprepares)
  | resumeCreate c address charged => exact hprepares.2.writes

/-- Code is deployed at the address of the child. -/
theorem FrameContinuation.Deploys.writes {child : Address} {h h' : Host} {k : FrameContinuation}
    (haddress : ∀ c new charged, k = .resumeCreate c new charged → child = new)
    (hdeploys : k.Deploys ctx h h') : Kernel.Writes ctx.kernel child h h' := by
  cases k with
  | resumeCall c off len charged =>
    obtain rfl : h' = h := hdeploys
    exact .refl
  | resumeCreate c new charged =>
    obtain ⟨bytes, hrun⟩ := hdeploys
    rw [haddress c new charged rfl]
    exact .single (.deployed bytes hrun)

/-! ## Ether -/

variable (ctx) in
/-- The balances of any finitely many accounts are at most `n` together. -/
structure Solvent (n : Int) (a : Activation) : Prop where
  coherent : Coherent ctx.kernel a.state.kernel.state
  supply : Supply ctx.kernel a.state.kernel.state n

variable {n : Int}

theorem Stayed.solvent {a b : Activation} (hn : n < 2 ^ 256) (h : Stayed ctx a b)
    (ha : Solvent ctx n a) : Solvent ctx n b :=
  ⟨(h.runs.advances ha.coherent).coherent, h.writes.supply ha.supply hn⟩

/-- The state in which the checkpoint is made. -/
theorem Entered.suspended {b : Activation} {s₁ s' : MachineState} {k : FrameContinuation}
    {child : Frame} (hn : n < 2 ^ 256) (hb : Solvent ctx n b)
    (h : Entered ctx b.frame (b.fetched ctx) s₁ k child s') :
    Coherent ctx.kernel s₁.kernel.state ∧ Supply ctx.kernel s₁.kernel.state n := by
  have hwrites : Writes ctx.kernel b.frame.message.address b.state.kernel s₁.kernel :=
    h.prepares.writes
  exact ⟨(hwrites.advances hb.coherent).coherent, hwrites.supply hb.supply hn⟩

theorem enters_solvent {b c : Activation} {k : FrameContinuation} (hn : n < 2 ^ 256)
    (henter : Enters ctx b k c) (hb : Solvent ctx n b) : Solvent ctx n c := by
  obtain ⟨-, -, s₁, hentered⟩ := henter.entered
  obtain ⟨-, hsupply⟩ := hentered.suspended hn hb
  obtain ⟨middle, hprepared, htransferred⟩ := hentered.writes
  have hrecorded : Supply ctx.kernel (s₁.kernel.record .checkpointed).state n := hsupply
  exact ⟨enters_coherent henter hb.coherent,
    htransferred.supply (hprepared.supply hrecorded hn) hn⟩

theorem call_solvent {b c d e : Activation} {k : FrameContinuation} (hn : n < 2 ^ 256)
    (hb : Solvent ctx n b) (henter : Enters ctx b k c) (hchild : Runs ctx c d)
    (hd : Solvent ctx n d) (hresume : Resumes ctx d k e) : Solvent ctx n e := by
  obtain ⟨-, -, s₁, hentered⟩ := henter.entered
  obtain ⟨hadvanced, hfailed, hsucceeded⟩ :=
    call_advanced hb.coherent hentered hchild hresume
  refine ⟨hadvanced.coherent, ?_⟩
  cases hsucceeds : k.succeeds ctx d.frame d.status d.state with
  | true =>
    obtain ⟨deployed, hdeploys, hstate⟩ := hsucceeded hsucceeds
    rw [hstate]
    exact (hdeploys.writes hentered.address).supply hd.supply hn
  | false =>
    exact (hentered.suspended hn hb).2.of_view (hfailed hsucceeds)

theorem spans_solvent {a b : Activation} (hn : n < 2 ^ 256) (h : (calls ctx).Spans a b)
    (ha : Solvent ctx n a) : Solvent ctx n b := by
  induction h with
  | refl a => exact ha
  | stays _ hstays ih => exact (Stays.stayed hstays).2.solvent hn (ih ha)
  | calls _ henter hchild hresume ih ihchild =>
    have hb := ih ha
    exact call_solvent hn hb henter (spans_runs hchild) (ihchild (enters_solvent hn henter hb))
      hresume

variable (ctx) in
/-- What a step does to the host: writes of the frame at its own address, where
all ether that moves is sent by a transfer that the sender covers
(`Write.transferred`), and at the end of a child what the journal does. -/
inductive Moved : Machine → Machine → Prop
  | stays {a b : Activation} {ks : List FrameContinuation}
      (h : Writes ctx.kernel a.frame.message.address a.state.kernel b.state.kernel) :
      Moved (a, ks) (b, ks)
  /-- A new account is written to at its own address, and paid from the caller's. -/
  | enters {a c : Activation} {k : FrameContinuation} {ks : List FrameContinuation}
      (suspended middle : Host)
      (hprepares : Writes ctx.kernel a.frame.message.address a.state.kernel suspended)
      (hbegins : Writes ctx.kernel c.frame.message.address (suspended.record .checkpointed) middle)
      (hpays : Writes ctx.kernel a.frame.message.address middle c.state.kernel) :
      Moved (a, ks) (c, k :: ks)
  | kept {d e : Activation} {k : FrameContinuation} {ks : List FrameContinuation}
      (deployed : Host) (hdeploys : k.Deploys ctx d.state.kernel deployed)
      (hcommit : stateJournalCommit deployed = .ok e.state.kernel) : Moved (d, k :: ks) (e, ks)
  | undone {d e : Activation} {k : FrameContinuation} {ks : List FrameContinuation}
      (hrevert : stateJournalRevert d.state.kernel = .ok e.state.kernel) :
      Moved (d, k :: ks) (e, ks)

theorem step_moved {m m' : Machine} (h : (calls ctx).Step m m') : Moved ctx m m' := by
  cases h with
  | stays hstays => exact .stays (Stays.stayed hstays).2.writes
  | enters henter =>
    obtain ⟨-, -, s₁, hentered⟩ := henter.entered
    obtain ⟨middle, hbegins, hpays⟩ := hentered.writes
    exact .enters s₁.kernel middle hentered.prepares.writes hbegins hpays
  | @resumes d e k ks hresume =>
    obtain ⟨-, -, hreturns⟩ := hresume.returns
    obtain ⟨hkept, hundone⟩ := hreturns.closes
    cases hsucceeds : k.succeeds ctx d.frame d.status d.state with
    | true =>
      obtain ⟨deployed, hdeploys, hcommit⟩ := hkept hsucceeds
      exact .kept deployed hdeploys hcommit
    | false => exact .undone (hundone hsucceeds)

/-- In every run, what any finitely many accounts have is together at most what
bounds it at the start, when that is less than 2^256: calls, creations,
self-destructs and reverts move ether or burn it, and whoever sends it has
it.  In particular what two accounts have never overflows when the one is
credited what the other is debited. -/
theorem ether_never_made {a₀ a : Activation} {ks : List FrameContinuation} (hn : n < 2 ^ 256)
    (h₀ : Coherent ctx.kernel a₀.state.kernel.state)
    (hsupply : Supply ctx.kernel a₀.state.kernel.state n)
    (hrun : (calls ctx).Steps (a₀, []) (a, ks)) :
    Supply ctx.kernel a.state.kernel.state n ∧
      (∀ x y, x ≠ y → balanceReading ctx.kernel a.state.kernel.state x +
        balanceReading ctx.kernel a.state.kernel.state y < 2 ^ 256) ∧
      ∀ m', (calls ctx).Step (a, ks) m' → Moved ctx (a, ks) m' := by
  have ha : Solvent ctx n a :=
    Nesting.Spine.invariant (fun _ _ hspans hc => spans_solvent hn hspans hc)
      (fun _ _ _ henter hc => enters_solvent hn henter hc) (Nesting.steps_iff_spine.mp hrun)
      ⟨h₀, hsupply⟩
  refine ⟨ha.supply, fun x y hxy => ?_, fun m' hstep => step_moved hstep⟩
  have htwo := ha.supply.two hxy
  omega

theorem balanceReading_calleeHost (ending : List Byte) (a : Address) :
    balanceReading settledAmsterdam.kernel (calleeHost ending).state a =
      (settledAccounts a.toNat).info.balance.toNat := by
  have hkey : natOfBytes (hashFromBits (natOfBytes (addressBytes a))).toList = a.toNat := by
    rw [natOfBytes_addressBytes]
    exact natOfBytes_hashFromBits (a.isLt.trans (by decide))
  have hread : (view settledAmsterdam.kernel (calleeHost ending).state).readAccount a =
      .ok (settledAccounts (natOfBytes (hashFromBits (natOfBytes (addressBytes a))).toList)) := rfl
  rw [balanceReading, hread, hkey]

theorem settledAccounts_balance (a : Address) :
    ((settledAccounts a.toNat).info.balance.toNat : Int) ≤ (if a = payer then 1000 else 0) +
      ((if a = bystander then 3 else 0) + if a = callee then 10 else 0) := by
  unfold settledAccounts
  split
  · next h =>
    obtain rfl : a = payer := BitVec.eq_of_toNat_eq h
    decide
  · next h =>
    obtain rfl : a = bystander := BitVec.eq_of_toNat_eq h
    decide
  · next h =>
    obtain rfl : a = callee := BitVec.eq_of_toNat_eq h
    decide
  · show (0 : Int) ≤ _
    positivity

/-- Three accounts have something. -/
theorem supply_calleeHost (ending : List Byte) :
    Supply settledAmsterdam.kernel (calleeHost ending).state 1013 := by
  have hsums : SumsWithin (fun a : Address => (if a = payer then (1000 : Int) else 0) +
      ((if a = bystander then 3 else 0) + if a = callee then 10 else 0)) (1000 + (3 + 10)) :=
    (SumsWithin.single payer (by decide)).add
      ((SumsWithin.single bystander (by decide)).add (SumsWithin.single callee (by decide)))
  refine hsums.mono (fun a => ?_) (le_refl _)
  rw [balanceReading_calleeHost]
  exact settledAccounts_balance a

/-- The payer has sent 7, and the callee all that it had to the bystander. -/
theorem ether_never_made_paying : ∃ r : Call,
    (calls settledAmsterdam).Steps (paying destroys, []) (r.back, []) ∧
      balanceReading settledAmsterdam.kernel r.back.state.kernel.state payer = 993 ∧
      balanceReading settledAmsterdam.kernel r.back.state.kernel.state bystander = 20 ∧
      Supply settledAmsterdam.kernel r.back.state.kernel.state 1013 := by
  have hfound : found (payingCall 14 destroys) (fun r =>
      balanceReading settledAmsterdam.kernel r.back.state.kernel.state payer = 993 ∧
        balanceReading settledAmsterdam.kernel r.back.state.kernel.state bystander = 20) =
      true := by
    decide +kernel
  obtain ⟨r, hrun, henter, hchild, hresume, hfacts⟩ := Call.of_any hfound
  obtain ⟨hpayer, hbystander⟩ := of_decide_eq_true hfacts
  have hback := Nesting.steps_resumed hrun henter hchild hresume
  have hcoherent : Coherent settledAmsterdam.kernel (paying destroys).state.kernel.state :=
    coherent_calleeHost (by decide +kernel)
  exact ⟨r, hback, hpayer, hbystander,
    (ether_never_made (by decide) hcoherent (supply_calleeHost destroys) hback).1⟩

/-! ## Bystanders -/

/-- The frame does not run at the address `x`. -/
def Elsewhere (x : Address) (a : Activation) : Prop := a.frame.message.address ≠ x

variable {x : Address}

/-- What a caller does to the host before its child begins. -/
theorem Entered.spares {b : Activation} {s₁ s' : MachineState} {k : FrameContinuation}
    {child : Frame} (hn : n < 2 ^ 256) (hb : Solvent ctx n b) (hx : Elsewhere x b)
    (hchild : child.message.address ≠ x)
    (h : Entered ctx b.frame (b.fetched ctx) s₁ k child s') :
    Spares ctx.kernel x b.state.kernel s₁.kernel ∧ Spares ctx.kernel x s₁.kernel s'.kernel := by
  have hwrites : Writes ctx.kernel b.frame.message.address b.state.kernel s₁.kernel :=
    h.prepares.writes
  obtain ⟨hcoherent, hsupply⟩ := h.suspended hn hb
  obtain ⟨middle, hprepared, htransferred⟩ := h.writes
  have hrecorded : Coherent ctx.kernel (s₁.kernel.record .checkpointed).state := hcoherent
  have hrecordedSupply : Supply ctx.kernel (s₁.kernel.record .checkpointed).state n := hsupply
  have hmiddle := (hprepared.advances hrecorded).coherent
  refine ⟨hwrites.spares hb.coherent hb.supply hn hx.symm, ?_⟩
  have hcheckpointed : Spares ctx.kernel x s₁.kernel (s₁.kernel.record .checkpointed) :=
    spares_of_state rfl
  exact IsTrans.trans _ _ _ hcheckpointed (IsTrans.trans _ _ _
    (hprepared.spares hrecorded hrecordedSupply hn hchild.symm)
    (htransferred.spares hmiddle (hprepared.supply hrecordedSupply hn) hn hx.symm))

/-- A call whose child spares the account spares it, whether the child succeeds
or fails. -/
theorem call_spares {b c d e : Activation} {k : FrameContinuation} (hn : n < 2 ^ 256)
    (hb : Solvent ctx n b) (hx : Elsewhere x b) (hc : Elsewhere x c) (henter : Enters ctx b k c)
    (hchild : Runs ctx c d) (hd : Solvent ctx n d)
    (hspares : Spares ctx.kernel x c.state.kernel d.state.kernel) (hresume : Resumes ctx d k e) :
    Spares ctx.kernel x b.state.kernel e.state.kernel := by
  obtain ⟨-, -, s₁, hentered⟩ := henter.entered
  obtain ⟨hbefore, hbegins⟩ := hentered.spares hn hb hx hc
  obtain ⟨hcoherent, -⟩ := hentered.suspended hn hb
  obtain ⟨-, hfailed, hsucceeded⟩ := call_advanced hb.coherent hentered hchild hresume
  refine IsTrans.trans _ _ _ hbefore ?_
  cases hsucceeds : k.succeeds ctx d.frame d.status d.state with
  | true =>
    obtain ⟨deployed, hdeploys, hstate⟩ := hsucceeded hsucceeds
    have hdeployed : Spares ctx.kernel x d.state.kernel deployed :=
      (hdeploys.writes hentered.address).spares hd.coherent hd.supply hn hc.symm
    have hback : Spares ctx.kernel x deployed e.state.kernel := spares_of_state hstate
    exact IsTrans.trans _ _ _ hbegins (IsTrans.trans _ _ _ hspares
      (IsTrans.trans _ _ _ hdeployed hback))
  | false => exact (alike_of_view hcoherent.sound (hfailed hsucceeds)).spares

theorem spans_spares {a b : Activation} (hn : n < 2 ^ 256)
    (h : ((calls ctx).within (Elsewhere x)).Spans a b) (hx : Elsewhere x a)
    (ha : Solvent ctx n a) : Spares ctx.kernel x a.state.kernel b.state.kernel := by
  induction h with
  | refl a => exact Std.Refl.refl a.state.kernel
  | stays hbefore hstays ih =>
    have hb := spans_solvent hn hbefore.of_within ha
    have hwrites := (Stays.stayed hstays.1).2.writes
    exact IsTrans.trans _ _ _ (ih hx ha)
      (hwrites.spares hb.coherent hb.supply hn (hbefore.chosen hx).symm)
  | calls hbefore henter hchild hresume ih ihchild =>
    have hb := spans_solvent hn hbefore.of_within ha
    have hc := enters_solvent hn henter.1 hb
    have hd := spans_solvent hn hchild.of_within hc
    exact IsTrans.trans _ _ _ (ih hx ha) (call_spares hn hb (hbefore.chosen hx) henter.2 henter.1
      (spans_runs hchild.of_within) hd (ihchild henter.2 hc) hresume.1)

/-- In every run in which no frame runs at the address `x`, the account there
keeps its nonce, its code, its storage and its transient storage, and loses
no ether: others can only pay it, and can neither destroy nor clear it. -/
theorem bystander_spared {a₀ a : Activation} {ks : List FrameContinuation} (hn : n < 2 ^ 256)
    (h₀ : Coherent ctx.kernel a₀.state.kernel.state)
    (hsupply : Supply ctx.kernel a₀.state.kernel.state n) (hx : Elsewhere x a₀)
    (hrun : ((calls ctx).within (Elsewhere x)).Steps (a₀, []) (a, ks)) :
    Spares ctx.kernel x a₀.state.kernel a.state.kernel := by
  suffices h : Elsewhere x a ∧ Solvent ctx n a ∧
      Spares ctx.kernel x a₀.state.kernel a.state.kernel from h.2.2
  refine Nesting.Spine.invariant (I := fun a => Elsewhere x a ∧ Solvent ctx n a ∧
    Spares ctx.kernel x a₀.state.kernel a.state.kernel) ?_ ?_ (Nesting.steps_iff_spine.mp hrun)
    ⟨hx, ⟨h₀, hsupply⟩, Std.Refl.refl a₀.state.kernel⟩
  · rintro b c hspans ⟨hbx, hb, hspares⟩
    exact ⟨hspans.chosen hbx, spans_solvent hn hspans.of_within hb,
      IsTrans.trans _ _ _ hspares (spans_spares hn hspans hbx hb)⟩
  · rintro b k c henter ⟨hbx, hb, hspares⟩
    obtain ⟨-, -, s₁, hentered⟩ := henter.1.entered
    obtain ⟨hbefore, hbegins⟩ := hentered.spares hn hb hbx henter.2
    exact ⟨henter.2, enters_solvent hn henter.1 hb,
      IsTrans.trans _ _ _ hspares (IsTrans.trans _ _ _ hbefore hbegins)⟩

/-- The callee destroys itself in favour of the bystander, at whose address
nothing runs. -/
theorem bystander_spared_paying : ∃ r : Call,
    ((calls settledAmsterdam).within (Elsewhere bystander)).Steps (paying destroys, [])
        (r.back, []) ∧
      balanceReading settledAmsterdam.kernel (calleeHost destroys).state bystander = 3 ∧
      balanceReading settledAmsterdam.kernel r.back.state.kernel.state bystander = 20 ∧
      Spares settledAmsterdam.kernel bystander (calleeHost destroys) r.back.state.kernel := by
  have hfound : found (callAt settledAmsterdam
      (fun a => decide (a.frame.message.address ≠ bystander)) 3 14 (paying destroys)) (fun r =>
        balanceReading settledAmsterdam.kernel r.back.state.kernel.state bystander = 20) =
      true := by
    decide +kernel
  obtain ⟨r, hrun, henter, hchild, hresume, hfacts⟩ := Call.of_found hfound
  simp only [decide_eq_true_eq] at hrun henter hchild hresume
  have hback : ((calls settledAmsterdam).within (Elsewhere bystander)).Steps (paying destroys, [])
      (r.back, []) := Nesting.steps_resumed hrun henter hchild hresume
  have hcoherent : Coherent settledAmsterdam.kernel (paying destroys).state.kernel.state :=
    coherent_calleeHost (by decide +kernel)
  have helsewhere : Elsewhere bystander (paying destroys) := by
    rw [Elsewhere]
    decide
  have hbefore : balanceReading settledAmsterdam.kernel (calleeHost destroys).state bystander =
      3 := by decide +kernel
  exact ⟨r, hback, hbefore, of_decide_eq_true hfacts,
    bystander_spared (by decide) hcoherent (supply_calleeHost destroys) helsewhere hback⟩

end

end EvmSail.Vm
