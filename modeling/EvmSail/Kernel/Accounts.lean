/-
# `EvmSail.Kernel.Accounts` — account reads and mutations

The kernel's account operations over the two overlays.  `readAccount` is
what `k_aload` answers, as a function of the view; every mutation first
loads the account and then stores a changed tuple (`storeAccountInfo`) or
a changed flag.  Each operation is a `Kept` program: it carries the proof
of how far it goes.
-/
import EvmSail.Kernel.Stores
import EvmSail.Primitives.Precompile

namespace EvmSail.Kernel

open Fallible Journal Kept

/-! ## Reading -/

/-- What an account reads as. -/
def View.readAccount (v : View) (a : Address) : Result Account :=
  match v.effects.accounts a with
  | some r => .ok r.curr
  | none => v.account a

theorem acctTxRow_curr {env : Env} {s : State} {a : Address} {acc : Account} {r : AcctValue}
    (hacc : (view env s).readAccount a = .ok acc) (hr : acctTxRow s a = some r) :
    r.curr = acc := by
  cases hrow : s.effects.accounts a with
  | some r' =>
    simp only [acctTxRow, hrow, Option.some.injEq] at hr
    simp only [View.readAccount, view, hrow, Except.ok.injEq] at hacc
    exact hr ▸ hacc
  | none =>
    simp only [acctTxRow, hrow] at hr
    obtain ⟨b, hb, rfl⟩ := Option.map_eq_some_iff.mp hr
    simp only [View.readAccount, view, hrow, blockAccount, hb, Except.ok.injEq] at hacc
    exact hacc

section

variable (env : Env)

/-- Resolves an account: the transaction's row, the block's row, the
witness.  A miss in the transaction is recorded as a touch. -/
def kAload (a : Address) : Kept (Reads env) Halt Account where
  run h :=
    match h.state.effects.accounts a with
    | some r => .ok (r.curr, h)
    | none =>
      let h := balNote (.accountTouch a) h
      match h.state.block.accounts a with
      | some v => .ok (v.curr, h)
      | none => do
        let acc ← env.statelessAccountByKey env.parentStateRoot (env.keccak256Address a)
        .ok (acc, acctBlockCache a acc h)
  keeps h acc h' hh := by
    split at hh
    · cases hh
      exact Std.Refl.refl (r := Reads env) h
    · have htouch := @balNote_reads env (.accountTouch a) h
      simp only at hh
      split at hh
      · cases hh
        exact htouch
      · next hb =>
        obtain ⟨acc', hacc, hh⟩ := bind_eq_ok.mp hh
        cases hh
        refine IsTrans.trans (r := Reads env) _ _ _ htouch (acctBlockCache_reads ?_)
        rw [blockAccount, hb]
        exact hacc

theorem kAload_eq_ok {a : Address} {acc : Account} {h h' : Host}
    (hh : (kAload env a).run h = .ok (acc, h')) :
    (view env h.state).readAccount a = .ok acc := by
  simp only [kAload] at hh
  rw [View.readAccount]
  simp only [view]
  split at hh
  · cases hh
    rfl
  · split at hh
    · next v hb =>
      cases hh
      have hb' : h.state.block.accounts a = some v := hb
      rw [blockAccount, hb']
    · next hb =>
      obtain ⟨acc', hacc, hh⟩ := bind_eq_ok.mp hh
      cases hh
      have hb' : h.state.block.accounts a = none := hb
      rw [blockAccount, hb']
      exact hacc

/-- After a load a write finds its row. -/
theorem kAload_row {a : Address} {acc : Account} {h h' : Host}
    (hh : (kAload env a).run h = .ok (acc, h')) : ∃ r, acctTxRow h'.state a = some r := by
  simp only [kAload] at hh
  split at hh
  · next r hr =>
    cases hh
    exact ⟨r, by rw [acctTxRow, hr]⟩
  · next hr =>
    have hr' : (balNote (.accountTouch a) h).state.effects.accounts a = none := hr
    split at hh
    · next v hb =>
      cases hh
      exact ⟨_, by rw [acctTxRow, hr', hb]; rfl⟩
    · next hb =>
      obtain ⟨acc', -, hh⟩ := bind_eq_ok.mp hh
      cases hh
      refine ⟨{ curr := acc, orig := acc }, ?_⟩
      rw [acctBlockCache, hb]
      show acctTxRow ((balNote (.accountTouch a) h).state.cacheAccount a acc) a = _
      rw [acctTxRow]
      simp only [State.cacheAccount, hr', Function.update_self]
      rfl

/-! ## Storing -/

/-- Writes a whole-account row. -/
def storeAccount (a : Address) (v : Account) (h : Host) : Host := acctTxUpdate a v h

/-- Writes one field when it changes. -/
def setWhen (changed : Bool) (set : Host → Host) (h : Host) : Host :=
  if changed then set h else h

/-- Applies a tuple change.  A tuple that collapses to empty clears the
storage; when neither existence nor storage state changes, only the fields
that differ are written. -/
def storeAccountInfo (a : Address) (acc : Account) (info : AccountInfo) (h : Host) :
    Result Host := do
  let h ← (if accountInfoEmpty info then storageTxClear a h else .ok h : Result Host)
  let next := accountSetInfo acc info
  if next.info.storageRoot ≠ acc.info.storageRoot ∨ next.present ≠ acc.present ∨
      next.storageCleared ≠ acc.storageCleared then
    .ok (storeAccount a next h)
  else
    let h := setWhen (next.info.balance != acc.info.balance)
      (acctTxSetBalance a next.info.balance) h
    let h := setWhen (next.info.nonce != acc.info.nonce) (acctTxSetNonce a next.info.nonce) h
    .ok
      (setWhen (next.info.codeHash != acc.info.codeHash)
        (acctTxSetCodeHash a next.info.codeHash) h)

/-- What a store leaves alone: every other account, storage and transient
storage, logs, warm sets, the block's rows and the code store. -/
structure StoresOnly (a : Address) (h h' : Host) : Prop where
  accounts : ∀ b, b ≠ a → h'.state.effects.accounts b = h.state.effects.accounts b
  storage : h'.state.effects.storage = h.state.effects.storage
  transient : h'.state.effects.transient = h.state.effects.transient
  logs : h'.state.effects.logs = h.state.effects.logs
  warm : h'.state.warm = h.state.warm
  block : h'.state.block = h.state.block
  codes : h'.state.codes = h.state.codes

variable {env}

theorem StoresOnly.refl (a : Address) (h : Host) : StoresOnly a h h :=
  ⟨fun _ _ => rfl, rfl, rfl, rfl, rfl, rfl, rfl⟩

theorem StoresOnly.trans {a : Address} {h h' h'' : Host} (h₁ : StoresOnly a h h')
    (h₂ : StoresOnly a h' h'') : StoresOnly a h h'' :=
  ⟨fun b hb => (h₂.accounts b hb).trans (h₁.accounts b hb), h₂.storage.trans h₁.storage,
    h₂.transient.trans h₁.transient, h₂.logs.trans h₁.logs, h₂.warm.trans h₁.warm,
    h₂.block.trans h₁.block, h₂.codes.trans h₁.codes⟩

theorem StoresOnly.readAccount {a b : Address} {h h' : Host} (hs : StoresOnly a h h')
    (hb : b ≠ a) :
    (view env h'.state).readAccount b = (view env h.state).readAccount b := by
  simp only [View.readAccount, view, hs.accounts b hb, blockAccount, hs.block]

theorem acctTxWrite_storesOnly (a : Address) (f : Account → Account) (h : Host) :
    StoresOnly a h (acctTxWrite a f h) := by
  rw [acctTxWrite]
  split
  · exact .refl a h
  · exact ⟨fun b hb => Function.update_of_ne hb _ _, rfl, rfl, rfl, rfl, rfl, rfl⟩

theorem acctTxSetField_storesOnly (a : Address) (f : Account → Account) (h : Host) :
    StoresOnly a h (acctTxSetField a f h) := by
  rw [acctTxSetField]
  split
  · exact .refl a h
  · split
    · exact ⟨fun _ _ => rfl, rfl, rfl, rfl, rfl, rfl, rfl⟩
    · exact acctTxWrite_storesOnly a f h

theorem storageTxClear_storesOnly {a : Address} {h h' : Host} (hh : storageTxClear a h = .ok h') :
    StoresOnly a h h' := by
  simp only [storageTxClear] at hh
  split at hh
  · cases hh
  · cases hh
    exact ⟨fun _ _ => rfl, rfl, rfl, rfl, rfl, rfl, rfl⟩

theorem setWhen_storesOnly (a : Address) (changed : Bool) (f : Account → Account) (h : Host) :
    StoresOnly a h (setWhen changed (acctTxSetField a f) h) := by
  rw [setWhen]
  split
  · exact acctTxSetField_storesOnly a f h
  · exact .refl a h

theorem storeAccountInfo_storesOnly {a : Address} {acc : Account} {info : AccountInfo}
    {h h' : Host} (hh : storeAccountInfo a acc info h = .ok h') : StoresOnly a h h' := by
  simp only [storeAccountInfo] at hh
  obtain ⟨h₁, h₁eq, hh⟩ := bind_eq_ok.mp hh
  have hclear : StoresOnly a h h₁ := by
    split at h₁eq
    · exact storageTxClear_storesOnly h₁eq
    · cases h₁eq
      exact .refl a h
  refine hclear.trans ?_
  split at hh
  · cases hh
    exact acctTxWrite_storesOnly a (fun _ => accountSetInfo acc info) h₁
  · cases hh
    have hbalance := setWhen_storesOnly a
      ((accountSetInfo acc info).info.balance != acc.info.balance)
      (Account.withBalance (accountSetInfo acc info).info.balance) h₁
    exact (hbalance.trans (setWhen_storesOnly a _ (Account.withNonce _) _)).trans
      (setWhen_storesOnly a _ (Account.withCodeHash _) _)

theorem storeAccount_changes {a : Address} {v : Account} {h : Host}
    (hv : ∀ r, acctTxRow h.state a = some r →
      v.info.storageRoot = r.curr.info.storageRoot ∧
        (h.state.effects.generation a = initialGeneration →
          v.storageCleared = r.curr.storageCleared)) :
    Changes env h (storeAccount a v h) := by
  show Changes env h (acctTxWrite a (fun _ => v) h)
  exact acctTxWrite_changes hv

theorem setWhen_changes (a : Address) (changed : Bool) (f : Account → Account) (h : Host)
    (hf : ∀ acc, (f acc).info.storageRoot = acc.info.storageRoot ∧
      (f acc).storageCleared = acc.storageCleared) :
    Changes env h (setWhen changed (acctTxSetField a f) h) := by
  rw [setWhen]
  split
  · exact acctTxSetField_changes hf
  · exact Std.Refl.refl (r := Changes env) h

/-- A store that keeps the storage root is a change the journal takes
back. -/
theorem storeAccountInfo_changes {a : Address} {acc : Account} {info : AccountInfo} {h h' : Host}
    (hacc : (view env h.state).readAccount a = .ok acc)
    (hh : storeAccountInfo a acc info h = .ok h')
    (hroot : info.storageRoot = acc.info.storageRoot) : Changes env h h' := by
  simp only [storeAccountInfo] at hh
  obtain ⟨h₁, h₁eq, hh⟩ := bind_eq_ok.mp hh
  have hclear : Changes env h h₁ ∧ (view env h₁.state).readAccount a = .ok acc ∧
      (h₁.state.effects.generation a = initialGeneration →
        (accountSetInfo acc info).storageCleared = acc.storageCleared) := by
    split at h₁eq
    · obtain ⟨hchanges, hgen, haccounts, hblock⟩ := @storageTxClear_changes env a _ _ h₁eq
      refine ⟨hchanges, ?_, fun h => absurd h hgen⟩
      simpa only [View.readAccount, view, blockAccount, haccounts, hblock] using hacc
    · next hempty =>
      cases h₁eq
      refine ⟨Std.Refl.refl (r := Changes env) h, hacc, fun _ => ?_⟩
      rw [accountSetInfo, if_neg hempty]
  obtain ⟨hchanges, hacc₁, hcleared⟩ := hclear
  refine IsTrans.trans (r := Changes env) _ _ _ hchanges ?_
  have hnextroot : (accountSetInfo acc info).info.storageRoot = acc.info.storageRoot := by
    rw [accountSetInfo]
    split
    · rfl
    · exact hroot
  split at hh
  · cases hh
    refine storeAccount_changes fun r hr => ?_
    rw [acctTxRow_curr hacc₁ hr]
    exact ⟨hnextroot, hcleared⟩
  · cases hh
    have hbalance := @setWhen_changes env a
      ((accountSetInfo acc info).info.balance != acc.info.balance)
      (Account.withBalance (accountSetInfo acc info).info.balance) h₁ fun _ => ⟨rfl, rfl⟩
    refine IsTrans.trans (r := Changes env) _ _ _ hbalance ?_
    exact IsTrans.trans (r := Changes env) _ _ _
      (setWhen_changes a _ (Account.withNonce _) _ fun _ => ⟨rfl, rfl⟩)
      (setWhen_changes a _ (Account.withCodeHash _) _ fun _ => ⟨rfl, rfl⟩)

/-! ### What a store makes the account read as -/

theorem readAccount_of_row {s : State} {a : Address} {r : AcctValue}
    (hr : acctTxRow s a = some r) : (view env s).readAccount a = .ok r.curr := by
  simp only [acctTxRow] at hr
  simp only [View.readAccount, view]
  cases hrow : s.effects.accounts a with
  | some r' =>
    simp only [hrow] at hr
    cases hr
    rfl
  | none =>
    simp only [hrow] at hr
    obtain ⟨b, hb, rfl⟩ := Option.map_eq_some_iff.mp hr
    simp only [blockAccount, hb]

theorem acctTxWrite_row {a : Address} {f : Account → Account} {h : Host} {r : AcctValue}
    (hr : acctTxRow h.state a = some r) :
    acctTxRow (acctTxWrite a f h).state a = some { curr := f r.curr, orig := r.orig } := by
  rw [acctTxWrite, hr]
  simp only [Host.push, acctTxRow, State.setAccountRow, Function.update_self]

theorem setWhen_row {a : Address} (changed : Bool) (f : Account → Account) {h : Host}
    {r : AcctValue} (hr : acctTxRow h.state a = some r) (hf : changed = false → f r.curr = r.curr) :
    ∃ r', acctTxRow (setWhen changed (acctTxSetField a f) h).state a = some r' ∧
      r'.curr = f r.curr := by
  rw [setWhen]
  split
  · rw [acctTxSetField, hr]
    simp only
    split
    · next hsame => exact ⟨r, hr, hsame.symm⟩
    · exact ⟨_, acctTxWrite_row hr, rfl⟩
  · next hchanged => exact ⟨r, hr, (hf (Bool.eq_false_iff.mpr hchanged)).symm⟩

/-- After a store the account reads as the tuple it was given. -/
theorem storeAccountInfo_readAccount {a : Address} {acc : Account} {info : AccountInfo}
    {h h' : Host} {r : AcctValue} (hr : acctTxRow h.state a = some r) (hacc : r.curr = acc)
    (hh : storeAccountInfo a acc info h = .ok h') :
    (view env h'.state).readAccount a = .ok (accountSetInfo acc info) := by
  simp only [storeAccountInfo] at hh
  obtain ⟨h₁, h₁eq, hh⟩ := bind_eq_ok.mp hh
  have hr₁ : acctTxRow h₁.state a = some r := by
    split at h₁eq
    · obtain ⟨-, -, haccounts, hblock⟩ := @storageTxClear_changes env a _ _ h₁eq
      simpa only [acctTxRow, haccounts, hblock] using hr
    · cases h₁eq
      exact hr
  split at hh
  · cases hh
    exact readAccount_of_row (acctTxWrite_row hr₁)
  · next hsame =>
    simp only [not_or, ne_eq, not_not] at hsame
    obtain ⟨hroot, hpresent, hcleared⟩ := hsame
    cases hh
    obtain ⟨r₂, hr₂, hcurr₂⟩ := setWhen_row
      ((accountSetInfo acc info).info.balance != acc.info.balance)
      (Account.withBalance (accountSetInfo acc info).info.balance)
      hr₁ (by intro hb; rw [bne_eq_false_iff_eq] at hb; rw [hb, hacc]; rfl)
    obtain ⟨r₃, hr₃, hcurr₃⟩ := setWhen_row
      ((accountSetInfo acc info).info.nonce != acc.info.nonce)
      (Account.withNonce (accountSetInfo acc info).info.nonce)
      hr₂ (by intro hb; rw [bne_eq_false_iff_eq] at hb; rw [hb, hcurr₂, hacc]; rfl)
    obtain ⟨r₄, hr₄, hcurr₄⟩ := setWhen_row
      ((accountSetInfo acc info).info.codeHash != acc.info.codeHash)
      (Account.withCodeHash (accountSetInfo acc info).info.codeHash)
      hr₃ (by intro hb; rw [bne_eq_false_iff_eq] at hb; rw [hb, hcurr₃, hcurr₂, hacc]; rfl)
    refine (readAccount_of_row hr₄).trans ?_
    rw [hcurr₄, hcurr₃, hcurr₂, hacc]
    have hflags : (accountSetInfo acc info).created = acc.created ∧
        (accountSetInfo acc info).selfdestructed = acc.selfdestructed := by
      rw [accountSetInfo]
      split
      · exact ⟨rfl, rfl⟩
      · exact ⟨rfl, rfl⟩
    generalize accountSetInfo acc info = next at *
    obtain ⟨⟨n, b, c, s⟩, p, sc, cr, sd⟩ := next
    simp only at hroot hpresent hcleared hflags
    obtain ⟨rfl, rfl⟩ := hflags
    rw [hroot, hpresent, hcleared]
    rfl

end

/-! ## Logs -/

def eip7708SystemAddress : Address := 0xfffffffffffffffffffffffffffffffffffffffe

def eip7708TransferTopic : Word :=
  0xddf252ad1be2c89b69c2b068fc378daa952ba7f163c4a11628f55a4df523b3ef

def addressToWord (a : Address) : Word := a.setWidth 256

section

variable (env : Env)

def kLog (a : Address) (topics : List Word) (data : List Byte) : Kept (Changes env) Halt Unit :=
  change (logAppend { address := a, topics := topics, data := data }) fun h =>
    logAppend_changes _ h

/-- The EIP-7708 log of a nonzero transfer to another account. -/
def kEmitTransferLog (src dst : Address) (v : Word) : Kept (Changes env) Halt Unit :=
  if env.profile.fork < .amsterdam ∨ v = 0 ∨ src = dst then pure ()
  else
    kLog env eip7708SystemAddress
      [eip7708TransferTopic, addressToWord src, addressToWord dst] (wordToHash v).toList

/-! ## Reads of single accounts -/

def kGetBalance (a : Address) : Kept (Reads env) Halt Word := do
  let acc ← kAload env a
  pure acc.info.balance

def kGetNonce (a : Address) : Kept (Reads env) Halt Nat := do
  let acc ← kAload env a
  pure acc.info.nonce

def kAccountIsEmpty (a : Address) : Kept (Reads env) Halt Bool := do
  let acc ← kAload env a
  pure (accountInfoEmpty acc.info)

/-- The collision test of EIP-684 and EIP-7610. -/
def kAccountOccupied (a : Address) : Kept (Reads env) Halt Bool := do
  let acc ← kAload env a
  let anchoredStorage := !acc.storageCleared && acc.info.storageRoot != emptyTrieRoot
  if acc.info.codeHash != keccakEmpty || acc.info.nonce != 0 || anchoredStorage then pure true
  else ask fun h => storageHasWrites h.state a

/-! ## Mutations -/

/-- Loads an account and goes on with what it reads as. -/
def onAccount (a : Address) (f : Account → Host → Result Host)
    (hf : ∀ acc h h', (view env h.state).readAccount a = .ok acc → f acc h = .ok h' →
      Changes env h h') : Kept (Changes env) Halt Unit where
  run h := do
    let r ← (kAload env a).run h
    let h ← f r.1 r.2
    .ok ((), h)
  keeps h u h' hh := by
    obtain ⟨r, hload, hh⟩ := bind_eq_ok.mp hh
    obtain ⟨h₂, hstore, hh⟩ := bind_eq_ok.mp hh
    cases hh
    intro hs
    have hreads := (kAload env a).keeps _ _ _ hload
    have hacc : (view env r.2.state).readAccount a = .ok r.1 :=
      (hreads hs).view.symm ▸ kAload_eq_ok env hload
    exact IsTrans.trans (r := Changes env) _ _ _ hreads.changes (hf r.1 r.2 h' hacc hstore) hs

/-- Loads an account and stores what `f` makes of its tuple, if anything.
The storage root is never changed. -/
def updateInfo (a : Address) (f : AccountInfo → Result (Option AccountInfo)) :
    Kept (Changes env) Halt Unit :=
  onAccount env a
    (fun acc h => do
      match ← f acc.info with
      | none => .ok h
      | some info =>
        storeAccountInfo a acc { info with storageRoot := acc.info.storageRoot } h)
    (by
      intro acc h h' hacc hh
      obtain ⟨info, -, hh⟩ := bind_eq_ok.mp hh
      cases info with
      | none =>
        cases hh
        exact Std.Refl.refl (r := Changes env) h
      | some info => exact storeAccountInfo_changes hacc hh rfl)

/-- Credits `v` wei. -/
def kAddBalance (a : Address) (v : Word) : Kept (Changes env) Halt Unit :=
  updateInfo env a fun info =>
    .ok (if v = 0 then none else some { info with balance := info.balance + v })

/-- Debits `v` wei; the caller guarantees sufficiency. -/
def kSubBalance (a : Address) (v : Word) : Kept (Changes env) Halt Unit :=
  updateInfo env a fun info =>
    .ok (if v = 0 then none else some { info with balance := info.balance - v })

def kBumpNonce (a : Address) : Kept (Changes env) Halt Unit :=
  updateInfo env a fun info =>
    if info.nonce < accountNonceBound then .ok (some { info with nonce := info.nonce + 1 })
    else fatalError .executionInvalid

/-- The sweep of a self-beneficiary. -/
def kZeroBalance (a : Address) : Kept (Changes env) Halt Unit :=
  updateInfo env a fun info =>
    .ok (if info.balance = 0 then none else some { info with balance := 0 })

/-- Clears the account's storage. -/
def kClearStorage (a : Address) : Kept (Changes env) Halt Unit :=
  onAccount env a
    (fun acc h => do
      let h ← storageTxClear a h
      .ok (storeAccount a (accountClearStorage acc) h))
    (by
      intro acc h h' hacc hh
      obtain ⟨h₁, hclear, hh⟩ := bind_eq_ok.mp hh
      cases hh
      obtain ⟨hchanges, hgen, haccounts, hblock⟩ := @storageTxClear_changes env a _ _ hclear
      have hacc₁ : (view env h₁.state).readAccount a = .ok acc := by
        simpa only [View.readAccount, view, blockAccount, haccounts, hblock] using hacc
      refine IsTrans.trans (r := Changes env) _ _ _ hchanges (storeAccount_changes fun r hr => ?_)
      rw [acctTxRow_curr hacc₁ hr]
      exact ⟨rfl, fun h => absurd h hgen⟩)

/-- Rewrites flags of an account. -/
def updateFlags (a : Address) (f : Account → Option Account)
    (hf : ∀ acc acc', f acc = some acc' → acc'.info = acc.info ∧
      acc'.storageCleared = acc.storageCleared) : Kept (Changes env) Halt Unit :=
  onAccount env a
    (fun acc h =>
      match f acc with
      | none => .ok h
      | some acc' => .ok (storeAccount a acc' h))
    (by
      intro acc h h' hacc hh
      split at hh
      · cases hh
        exact Std.Refl.refl (r := Changes env) h
      · next acc' hacc' =>
        cases hh
        refine storeAccount_changes fun r hr => ?_
        obtain ⟨hinfo, hcleared⟩ := hf acc acc' hacc'
        rw [acctTxRow_curr hacc hr, hinfo]
        exact ⟨rfl, fun _ => hcleared⟩)

/-- Marks an account selfdestructed. -/
def kSelfdestruct (a : Address) : Kept (Changes env) Halt Unit :=
  updateFlags env a
    (fun acc => if acc.selfdestructed then none else some { acc with selfdestructed := true })
    (by
      intro acc acc' h
      split at h
      · cases h
      · cases h
        exact ⟨rfl, rfl⟩)

/-- Marks an account created in this transaction. -/
def kMarkCreated (a : Address) : Kept (Changes env) Halt Unit :=
  updateFlags env a (fun acc => some { acc with created := true })
    (by
      intro acc acc' h
      cases h
      exact ⟨rfl, rfl⟩)

def kWasCreated (a : Address) : Kept (Reads env) Halt Bool := do
  let acc ← kAload env a
  pure acc.created

/-- Moves `v` wei; the caller guarantees sufficiency. -/
def kTransfer (src dst : Address) (v : Word) : Kept (Changes env) Halt Unit where
  run h := do
    let srcAcc ← (kAload env src).run h
    let dstAcc ← (kAload env dst).run srcAcc.2
    if v = 0 ∨ src = dst then .ok ((), dstAcc.2)
    else do
      let sourceBalance := srcAcc.1.info.balance - v
      let h ← storeAccountInfo src srcAcc.1 { srcAcc.1.info with balance := sourceBalance } dstAcc.2
      let destinationBalance := dstAcc.1.info.balance + v
      let h ← storeAccountInfo dst dstAcc.1 { dstAcc.1.info with balance := destinationBalance } h
      (kEmitTransferLog env src dst v).run h
  keeps h u h' hh := by
    obtain ⟨srcAcc, hsrc, hh⟩ := bind_eq_ok.mp hh
    obtain ⟨dstAcc, hdst, hh⟩ := bind_eq_ok.mp hh
    intro hs
    have hreads₁ := (kAload env src).keeps _ _ _ hsrc
    have hreads₂ := (kAload env dst).keeps _ _ _ hdst
    have hreads := IsTrans.trans (r := Reads env) _ _ _ hreads₁ hreads₂
    split at hh
    · cases hh
      exact hreads.changes hs
    · next hmoves =>
      obtain ⟨-, hne⟩ := not_or.mp hmoves
      obtain ⟨h₁, hstore₁, hh⟩ := bind_eq_ok.mp hh
      obtain ⟨h₂, hstore₂, hh⟩ := bind_eq_ok.mp hh
      have hview₁ := (hreads₁ hs).view
      have hview₂ := (hreads hs).view
      have hsrcAcc : (view env dstAcc.2.state).readAccount src = .ok srcAcc.1 :=
        hview₂.symm ▸ kAload_eq_ok env hsrc
      have hdstAcc : (view env h₁.state).readAccount dst = .ok dstAcc.1 := by
        rw [(storeAccountInfo_storesOnly hstore₁).readAccount (Ne.symm hne), hview₂, ← hview₁]
        exact kAload_eq_ok env hdst
      have hchanges₁ := storeAccountInfo_changes hsrcAcc hstore₁ rfl
      have hchanges₂ := storeAccountInfo_changes hdstAcc hstore₂ rfl
      have hlog := (kEmitTransferLog env src dst v).keeps _ _ _ hh
      refine IsTrans.trans (r := Changes env) _ _ _ hreads.changes ?_ hs
      refine IsTrans.trans (r := Changes env) _ _ _ hchanges₁ ?_
      exact IsTrans.trans (r := Changes env) _ _ _ hchanges₂ hlog

end

end EvmSail.Kernel
