/-
# `EvmSail.Kernel.Writes` — what running code writes

Code that runs at an address writes through a handful of kernel operations,
each of which takes that address: `Write` lists them.  A call is a write of
the caller, a creation starts with writes at the new address.

Two things hold of every write, and so of every run.  Ether is moved or
burned, never made: `Supply` bounds the balances of any finitely many
accounts, and so no credit overflows.  And an account at whose address no
code runs keeps its nonce, its code, its storage and its transient storage,
and loses no ether (`Spares`): others can only pay it.
-/
import EvmSail.Kernel.Rewrites
import EvmSail.Lib.BoundedSums
import EvmSail.Lib.Judgements

namespace EvmSail.Kernel

open Fallible Journal Kept

/-! ## What an operation does to the answers -/

section

variable {env : Env}

theorem SameReadings.rewrites {a : Address} {acc' : Account} {h h₁ h' : Host}
    (hsame : SameReadings env h h₁) (hrewrites : Rewrites env a acc' h₁ h') :
    Rewrites env a acc' h h' :=
  ⟨hrewrites.account, fun b hb => (hrewrites.others b hb).trans (hsame.account b),
    hrewrites.transient.trans (congrArg Effects.transient hsame.effects),
    fun key hkey => (hrewrites.slot key hkey).trans (hsame.slot key)⟩

/-- After a load the account has a row to write to, and it holds what was
read. -/
theorem kAload_loaded {a : Address} {acc : Account} {h h' : Host}
    (hh : (kAload env a).run h = .ok (acc, h')) :
    (view env h.state).readAccount a = .ok acc ∧ SameReadings env h h' ∧
      ∃ r, acctTxRow h'.state a = some r ∧ r.curr = acc := by
  have hreading := kAload_eq_ok env hh
  have hsame := kAload_sameReadings hh
  obtain ⟨r, hr⟩ := kAload_row env hh
  refine ⟨hreading, hsame, r, hr, ?_⟩
  exact acctTxRow_curr ((hsame.account a).trans hreading) hr

theorem acctTxRow_of_some {s : State} {a : Address} {r : AcctValue}
    (h : s.effects.accounts a = some r) : acctTxRow s a = some r := by
  rw [acctTxRow, h]

theorem acctTxRow_of_none {s : State} {a : Address} (h : s.effects.accounts a = none) :
    acctTxRow s a = (s.block.accounts a).map fun b => { curr := b.curr, orig := b.curr } := by
  rw [acctTxRow, h]

/-- Caching an account leaves the rows there are. -/
theorem acctTxRow_cacheAccount {s : State} {a b : Address} {acc : Account} {r : AcctValue}
    (hnone : s.block.accounts b = none) (hr : acctTxRow s a = some r) :
    acctTxRow (s.cacheAccount b acc) a = some r := by
  cases hrow : s.effects.accounts a with
  | some r' =>
    rw [acctTxRow_of_some hrow] at hr
    rw [acctTxRow_of_some (s := s.cacheAccount b acc) hrow]
    exact hr
  | none =>
    rw [acctTxRow_of_none hrow] at hr
    obtain ⟨v, hv, -⟩ := Option.map_eq_some_iff.mp hr
    have hne : a ≠ b := by
      rintro rfl
      rw [hnone] at hv
      cases hv
    have hblock : (s.cacheAccount b acc).block.accounts a = s.block.accounts a :=
      Function.update_of_ne hne _ _
    rw [acctTxRow_of_none (s := s.cacheAccount b acc) hrow, hblock]
    exact hr

/-- A load leaves the rows of other accounts that have been loaded. -/
theorem kAload_keepsRow {a b : Address} {acc acc' : Account} {h h' : Host} {r : AcctValue}
    (hh : (kAload env b).run h = .ok (acc', h')) (hr : acctTxRow h.state a = some r)
    (hcurr : r.curr = acc) : ∃ r', acctTxRow h'.state a = some r' ∧ r'.curr = acc := by
  have hcached : ∀ g : Host, ∀ acc'', acctTxRow g.state a = some r →
      acctTxRow (acctBlockCache b acc'' g).state a = some r := by
    intro g acc'' hg
    rw [acctBlockCache]
    split
    · exact hg
    · next hnone => exact acctTxRow_cacheAccount hnone hg
  simp only [kAload] at hh
  split at hh
  · cases hh
    exact ⟨r, hr, hcurr⟩
  · split at hh
    · cases hh
      exact ⟨r, hr, hcurr⟩
    · obtain ⟨acc'', -, hh⟩ := bind_eq_ok.mp hh
      cases hh
      exact ⟨r, hcached (balNote (.accountTouch b) h) _ hr, hcurr⟩

/-- A change of the tuple. -/
theorem updateInfo_rewrites {a : Address} {f : AccountInfo → Result (Option AccountInfo)}
    {h h' : Host} {u : Unit} (hh : (updateInfo env a f).run h = .ok (u, h')) :
    SameReadings env h h' ∨ ∃ acc info, (view env h.state).readAccount a = .ok acc ∧
      f acc.info = .ok (some info) ∧
      Rewrites env a (accountSetInfo acc { info with storageRoot := acc.info.storageRoot })
        h h' := by
  obtain ⟨⟨acc, h₁⟩, hload, hh⟩ := bind_eq_ok.mp hh
  obtain ⟨h₂, hstore, hh⟩ := bind_eq_ok.mp hh
  cases hh
  obtain ⟨hreading, hsame, r, hr, hcurr⟩ := kAload_loaded hload
  obtain ⟨info, hinfo, hstore⟩ := bind_eq_ok.mp hstore
  cases info with
  | none =>
    cases hstore
    exact .inl hsame
  | some info =>
    exact .inr ⟨acc, info, hreading, hinfo,
      hsame.rewrites (storeAccountInfo_rewrites hr hcurr hstore rfl).1⟩

/-- A counted account: it exists, and its nonce is one higher. -/
def Account.counted (acc : Account) : Account :=
  { acc with info := { acc.info with nonce := acc.info.nonce + 1 }, present := true }

/-- A nonce counts up, and slots and logs stay. -/
theorem kBumpNonce_rewrites {a : Address} {h h' : Host} {u : Unit}
    (hh : (kBumpNonce env a).run h = .ok (u, h')) :
    ∃ acc, (view env h.state).readAccount a = .ok acc ∧ Rewrites env a acc.counted h h' ∧
      (∀ slot, slotReading env h'.state ⟨a, slot⟩ = slotReading env h.state ⟨a, slot⟩) ∧
      h'.state.effects.logs = h.state.effects.logs := by
  obtain ⟨⟨acc, h₁⟩, hload, hh⟩ := bind_eq_ok.mp hh
  obtain ⟨h₂, hstore, hh⟩ := bind_eq_ok.mp hh
  cases hh
  obtain ⟨hreading, hsame, r, hr, hcurr⟩ := kAload_loaded hload
  obtain ⟨info, hinfo, hstore⟩ := bind_eq_ok.mp hstore
  dsimp only at hinfo
  split at hinfo
  · cases hinfo
    have hempty : accountInfoEmpty { acc.info with nonce := acc.info.nonce + 1 } = false := by
      rw [accountInfoEmpty, beq_eq_false_iff_ne.mpr (Nat.succ_ne_zero _), Bool.and_false,
        Bool.false_and]
    have hset : accountSetInfo acc { acc.info with nonce := acc.info.nonce + 1 } = acc.counted := by
      rw [accountSetInfo, if_neg (by rw [hempty]; exact Bool.false_ne_true)]
      rfl
    obtain ⟨hrewrites, hslots⟩ := @storeAccountInfo_rewrites env a _ _ _ _ _ hr hcurr hstore rfl
    have hrewritten : Rewrites env a acc.counted h₁ h' := hset ▸ hrewrites
    refine ⟨acc, hreading, hsame.rewrites hrewritten, fun slot => ?_, ?_⟩
    · exact (hslots hempty slot).trans (hsame.slot ⟨a, slot⟩)
    · rw [(storeAccountInfo_storesOnly hstore).logs, hsame.effects]
  · cases hinfo

/-- A change of flags. -/
theorem updateFlags_rewrites {a : Address} {f : Account → Option Account}
    {hf : ∀ acc acc', f acc = some acc' → acc'.info = acc.info ∧
      acc'.storageCleared = acc.storageCleared} {h h' : Host} {u : Unit}
    (hh : (updateFlags env a f hf).run h = .ok (u, h')) :
    SameReadings env h h' ∨ ∃ acc acc', (view env h.state).readAccount a = .ok acc ∧
      acc'.info = acc.info ∧ Rewrites env a acc' h h' := by
  obtain ⟨⟨acc, h₁⟩, hload, hh⟩ := bind_eq_ok.mp hh
  obtain ⟨h₂, hstore, hh⟩ := bind_eq_ok.mp hh
  cases hh
  obtain ⟨hreading, hsame, r, hr, hcurr⟩ := kAload_loaded hload
  dsimp only at hstore
  split at hstore
  · cases hstore
    exact .inl hsame
  · next acc' hacc' =>
    cases hstore
    exact .inr ⟨acc, acc', hreading, (hf acc acc' hacc').1,
      hsame.rewrites (storeAccount_rewrites hr)⟩

theorem kClearStorage_rewrites {a : Address} {h h' : Host} {u : Unit}
    (hh : (kClearStorage env a).run h = .ok (u, h')) :
    ∃ acc, (view env h.state).readAccount a = .ok acc ∧
      Rewrites env a (accountClearStorage acc) h h' := by
  obtain ⟨⟨acc, h₁⟩, hload, hh⟩ := bind_eq_ok.mp hh
  obtain ⟨h₂, hstore, hh⟩ := bind_eq_ok.mp hh
  cases hh
  obtain ⟨hreading, hsame, r, hr, hcurr⟩ := kAload_loaded hload
  obtain ⟨h₃, hclear, hstore⟩ := bind_eq_ok.mp hstore
  cases hstore
  obtain ⟨-, -, haccounts, hblock⟩ := @storageTxClear_changes env a _ _ hclear
  have hr₃ : acctTxRow h₃.state a = some r := by
    simpa only [acctTxRow, haccounts, hblock] using hr
  have hstores := (storageTxClear_storesOnly hclear).trans
    (acctTxWrite_storesOnly a (fun _ => accountClearStorage acc) h₃)
  refine ⟨acc, hreading, hsame.rewrites (hstores.rewrites (fun b hb => ?_) ?_)⟩
  · rw [← storageTxClear_generation hclear b hb]
    exact congrFun (acctTxWrite_generation a _ h₃) b
  · exact readAccount_of_row (acctTxWrite_row hr₃)

theorem codeDbStore_state (hash : Hash) (code : Code) (h : Host) :
    (codeDbStore hash code h).2.state.effects = h.state.effects ∧
      (codeDbStore hash code h).2.state.block = h.state.block := by
  rw [codeDbStore]
  split
  · exact ⟨rfl, rfl⟩
  · split
    · split
      · exact ⟨rfl, rfl⟩
      · exact ⟨rfl, rfl⟩
    · exact ⟨rfl, rfl⟩

theorem codeDbInsert_state {code : List Byte} {hash : Hash} {h h' : Host}
    (hh : codeDbInsert env code h = .ok (hash, h')) :
    h'.state.effects = h.state.effects ∧ h'.state.block = h.state.block := by
  obtain ⟨jumpdests, -, hh⟩ := bind_eq_ok.mp hh
  have hkept := @codeDbStore_state (env.keccak256 code)
    { bytes := code, jumpdests := jumpdests } h
  rw [Except.ok.inj hh] at hkept
  exact hkept

/-- Code is deployed. -/
theorem bindCode_rewrites {a : Address} {code : List Byte} {h h' : Host} {u : Unit}
    (hh : (bindCode env a code).run h = .ok (u, h')) :
    ∃ acc hash, (view env h.state).readAccount a = .ok acc ∧
      Rewrites env a (accountSetInfo acc { acc.info with codeHash := hash }) h h' := by
  obtain ⟨⟨acc, h₁⟩, hload, hh⟩ := bind_eq_ok.mp hh
  obtain ⟨h₂, hstore, hh⟩ := bind_eq_ok.mp hh
  cases hh
  obtain ⟨hreading, hsame, r, hr, hcurr⟩ := kAload_loaded hload
  obtain ⟨⟨hash, h₃⟩, hinsert, hstore⟩ := bind_eq_ok.mp hstore
  obtain ⟨heffects, hblock⟩ := codeDbInsert_state hinsert
  have hr₃ : acctTxRow h₃.state a = some r := by
    rw [acctTxRow, heffects, hblock]
    exact hr
  have hrewrites : Rewrites env a _ h₃ h' := (storeAccountInfo_rewrites hr₃ hcurr hstore rfl).1
  have haccount : ∀ b, (view env h₃.state).readAccount b = (view env h₁.state).readAccount b := by
    intro b
    simp only [View.readAccount, view, blockAccount, heffects, hblock]
  refine ⟨acc, hash, hreading, hsame.rewrites ⟨hrewrites.account, fun b hb => ?_, ?_, ?_⟩⟩
  · exact (hrewrites.others b hb).trans (haccount b)
  · rw [hrewrites.transient, heffects]
  · intro key hkey
    rw [hrewrites.slot key hkey]
    refine slotReading_congr (by rw [heffects]) (by rw [heffects]) (by rw [hblock]) ?_
    rw [haccount]

end

/-- Who looks stores to no slot. -/
theorem Looks.evolves {env : Env} {h h' : Host} (hlooks : Looks env h h') : Evolves env h h' :=
  fun hc => ⟨hlooks.advances hc, fun key v hv => by rwa [hlooks.readings.effects] at hv⟩

/-! ## Balances -/

section

variable (env : Env)

/-- The balance of an account; that of one that cannot be read counts as
nothing. -/
def balanceReading (s : State) (a : Address) : Nat :=
  match (view env s).readAccount a with
  | .ok acc => acc.info.balance.toNat
  | .error _ => 0

/-- The balances of any finitely many accounts are at most `n` together. -/
def Supply (s : State) (n : Int) : Prop := SumsWithin (fun a => (balanceReading env s a : Int)) n

/-- Nobody has more than before. -/
def NoRicher (h h' : Host) : Prop :=
  ∀ a, balanceReading env h'.state a ≤ balanceReading env h.state a

/-- Everybody has what they had. -/
def SameBalances (h h' : Host) : Prop :=
  ∀ a, balanceReading env h'.state a = balanceReading env h.state a

variable {env}

theorem balanceReading_ok {s : State} {a : Address} {acc : Account}
    (h : (view env s).readAccount a = .ok acc) :
    balanceReading env s a = acc.info.balance.toNat := by
  rw [balanceReading, h]

theorem balanceReading_congr {s s' : State} {a b : Address}
    (h : (view env s').readAccount b = (view env s).readAccount a) :
    balanceReading env s' b = balanceReading env s a := by
  rw [balanceReading, balanceReading, h]

theorem NoRicher.supply {h h' : Host} {n : Int} (hno : NoRicher env h h')
    (hsupply : Supply env h.state n) : Supply env h'.state n :=
  hsupply.mono (fun a => Int.ofNat_le.mpr (hno a)) (le_refl n)

/-- A view that is back has its balances back. -/
theorem Supply.of_view {s s' : State} {n : Int} (hview : view env s' = view env s)
    (hsupply : Supply env s n) : Supply env s' n :=
  hsupply.mono (fun a => (congrArg Int.ofNat (balanceReading_congr (by rw [hview]))).le) (le_refl n)

/-- An empty tuple has no balance. -/
theorem accountSetInfo_balance (acc : Account) (info : AccountInfo) :
    (accountSetInfo acc info).info.balance = info.balance := by
  rw [accountSetInfo]
  split
  · next hempty =>
    simp only [accountInfoEmpty, Bool.and_eq_true, beq_iff_eq] at hempty
    exact hempty.2.symm
  · rfl

theorem SameReadings.noRicher {h h' : Host} (hsame : SameReadings env h h') : NoRicher env h h' :=
  fun a => (balanceReading_congr (hsame.account a)).le

theorem SameBalances.noRicher {h h' : Host} (hsame : SameBalances env h h') : NoRicher env h h' :=
  fun a => (hsame a).le

theorem Rewrites.sameBalances {a : Address} {acc acc' : Account} {h h' : Host}
    (hrewrites : Rewrites env a acc' h h') (hacc : (view env h.state).readAccount a = .ok acc)
    (heq : acc'.info.balance = acc.info.balance) : SameBalances env h h' := by
  intro b
  by_cases hb : b = a
  · subst hb
    rw [balanceReading_ok hrewrites.account, balanceReading_ok hacc, heq]
  · exact balanceReading_congr (hrewrites.others b hb)

theorem Rewrites.noRicher {a : Address} {acc acc' : Account} {h h' : Host}
    (hrewrites : Rewrites env a acc' h h') (hacc : (view env h.state).readAccount a = .ok acc)
    (hle : acc'.info.balance ≤ acc.info.balance) : NoRicher env h h' := by
  intro b
  by_cases hb : b = a
  · subst hb
    rw [balanceReading_ok hrewrites.account, balanceReading_ok hacc]
    exact hle
  · exact (balanceReading_congr (hrewrites.others b hb)).le

end

/-! ## Transfers -/

section

variable {env : Env}

variable (env) in
/-- Accounts, slots and transient slots read the same. -/
structure Alike (h h' : Host) : Prop where
  account : ∀ a, (view env h'.state).readAccount a = (view env h.state).readAccount a
  transient : h'.state.effects.transient = h.state.effects.transient
  slot : ∀ key, slotReading env h'.state key = slotReading env h.state key

theorem SameReadings.alike {h h' : Host} (hsame : SameReadings env h h') : Alike env h h' :=
  ⟨hsame.account, congrArg Effects.transient hsame.effects, hsame.slot⟩

theorem alike_of_view {h h' : Host} (hs : Sound (view env h.state))
    (hview : view env h'.state = view env h.state) : Alike env h h' :=
  ⟨fun a => by rw [hview], congrArg (fun v => v.effects.transient) hview,
    slotReading_of_view hs hview⟩

theorem kLog_alike {a : Address} {topics : List Word} {data : List Byte} {h h' : Host} {u : Unit}
    (hh : (kLog env a topics data).run h = .ok (u, h')) : Alike env h h' := by
  cases hh
  exact ⟨fun _ => rfl, rfl, fun _ => slotReading_congr rfl rfl rfl rfl⟩

theorem kEmitTransferLog_alike {src dst : Address} {v : Word} {h h' : Host} {u : Unit}
    (hh : (kEmitTransferLog env src dst v).run h = .ok (u, h')) : Alike env h h' := by
  rw [kEmitTransferLog] at hh
  split at hh
  · cases hh
    exact ⟨fun _ => rfl, rfl, fun _ => rfl⟩
  · exact kLog_alike hh

/-- A transfer debits the one account, then credits the other. -/
structure Transferred (env : Env) (src dst : Address) (v : Word) (srcAcc dstAcc : Account)
    (h h₁ h₂ h' : Host) : Prop where
  distinct : src ≠ dst
  value : v ≠ 0
  source : (view env h.state).readAccount src = .ok srcAcc
  destination : (view env h.state).readAccount dst = .ok dstAcc
  debited : Rewrites env src
    (accountSetInfo srcAcc { srcAcc.info with balance := srcAcc.info.balance - v }) h h₁
  credited : Rewrites env dst
    (accountSetInfo dstAcc { dstAcc.info with balance := dstAcc.info.balance + v }) h₁ h₂
  slots : dstAcc.info.balance + v ≠ 0 → ∀ slot,
    slotReading env h₂.state ⟨dst, slot⟩ = slotReading env h₁.state ⟨dst, slot⟩
  logged : Alike env h₂ h'

theorem kTransfer_cases {src dst : Address} {v : Word} {h h' : Host} {u : Unit}
    (hh : (kTransfer env src dst v).run h = .ok (u, h')) :
    SameReadings env h h' ∨
      ∃ srcAcc dstAcc h₁ h₂, Transferred env src dst v srcAcc dstAcc h h₁ h₂ h' := by
  obtain ⟨⟨srcAcc, h₁⟩, hsrc, hh⟩ := bind_eq_ok.mp hh
  obtain ⟨⟨dstAcc, h₂⟩, hdst, hh⟩ := bind_eq_ok.mp hh
  obtain ⟨hsource, hsame₁, r, hr, hcurr⟩ := kAload_loaded hsrc
  obtain ⟨hdestination, hsame₂, r', hr', hcurr'⟩ := kAload_loaded hdst
  have hsame : SameReadings env h h₂ := IsTrans.trans _ _ _ hsame₁ hsame₂
  split at hh
  · cases hh
    exact .inl hsame
  · next hmoves =>
    obtain ⟨hvalue, hdistinct⟩ := not_or.mp hmoves
    obtain ⟨h₃, hstore₁, hh⟩ := bind_eq_ok.mp hh
    obtain ⟨h₄, hstore₂, hh⟩ := bind_eq_ok.mp hh
    -- the second load leaves the row of the first account
    have hrow : ∃ r, acctTxRow h₂.state src = some r ∧ r.curr = srcAcc :=
      kAload_keepsRow hdst hr hcurr
    obtain ⟨r₂, hr₂, hcurr₂⟩ := hrow
    have hdebited : Rewrites env src _ h₂ h₃ :=
      (storeAccountInfo_rewrites hr₂ hcurr₂ hstore₁ rfl).1
    have hstores := storeAccountInfo_storesOnly hstore₁
    have hr₃ : acctTxRow h₃.state dst = some r' := by
      rw [acctTxRow, hstores.accounts dst (Ne.symm hdistinct), hstores.block]
      exact hr'
    obtain ⟨hcredited, hslots⟩ := @storeAccountInfo_rewrites env _ _ _ _ _ _ hr₃ hcurr' hstore₂ rfl
    refine .inr ⟨srcAcc, dstAcc, h₃, h₄, hdistinct, hvalue, hsource,
      (hsame₁.account dst).symm.trans hdestination, hsame.rewrites hdebited, hcredited,
      fun hne => hslots ?_, kEmitTransferLog_alike hh⟩
    rw [accountInfoEmpty, beq_eq_false_iff_ne.mpr hne, Bool.and_false]

/-- The bound of the balances is also one of a sum of two. -/
theorem Supply.no_overflow {s : State} {n : Int} (hsupply : Supply env s n) (hn : n < 2 ^ 256)
    {a b : Address} {acc acc' : Account} (hab : a ≠ b)
    (hacc : (view env s).readAccount a = .ok acc)
    (hacc' : (view env s).readAccount b = .ok acc') :
    acc.info.balance.toNat + acc'.info.balance.toNat < 2 ^ 256 := by
  have htwo := hsupply.two hab
  rw [balanceReading_ok hacc, balanceReading_ok hacc'] at htwo
  omega

theorem Transferred.reads {src dst : Address} {v : Word} {srcAcc dstAcc : Account}
    {h h₁ h₂ h' : Host} (ht : Transferred env src dst v srcAcc dstAcc h h₁ h₂ h') :
    (view env h'.state).readAccount src = .ok
        (accountSetInfo srcAcc { srcAcc.info with balance := srcAcc.info.balance - v }) ∧
      (view env h'.state).readAccount dst = .ok
        (accountSetInfo dstAcc { dstAcc.info with balance := dstAcc.info.balance + v }) ∧
      ∀ b, b ≠ src → b ≠ dst →
        (view env h'.state).readAccount b = (view env h.state).readAccount b := by
  refine ⟨?_, ?_, fun b hsrc hdst => ?_⟩
  · rw [ht.logged.account, ht.credited.others src ht.distinct, ht.debited.account]
  · rw [ht.logged.account, ht.credited.account]
  · rw [ht.logged.account, ht.credited.others b hdst, ht.debited.others b hsrc]

/-- A transfer that is covered credits what it debits, without overflow. -/
theorem Transferred.balances {src dst : Address} {v : Word} {srcAcc dstAcc : Account} {n : Int}
    {h h₁ h₂ h' : Host} (ht : Transferred env src dst v srcAcc dstAcc h h₁ h₂ h')
    (hsupply : Supply env h.state n) (hn : n < 2 ^ 256)
    (hcovered : v.toNat ≤ srcAcc.info.balance.toNat) :
    balanceReading env h'.state src = balanceReading env h.state src - v.toNat ∧
      (dstAcc.info.balance + v).toNat = dstAcc.info.balance.toNat + v.toNat ∧
      balanceReading env h'.state dst = balanceReading env h.state dst + v.toNat := by
  obtain ⟨hsrc, hdst, -⟩ := ht.reads
  have hfits := hsupply.no_overflow hn ht.distinct ht.source ht.destination
  have hadd : (dstAcc.info.balance + v).toNat = dstAcc.info.balance.toNat + v.toNat := by
    rw [BitVec.toNat_add, Nat.mod_eq_of_lt (by omega)]
  refine ⟨?_, hadd, ?_⟩
  · rw [balanceReading_ok hsrc, balanceReading_ok ht.source, accountSetInfo_balance]
    exact BitVec.toNat_sub_of_le (BitVec.le_def.mpr hcovered)
  · rw [balanceReading_ok hdst, balanceReading_ok ht.destination, accountSetInfo_balance]
    exact hadd

/-- Ether is moved, not made. -/
theorem Transferred.supply {src dst : Address} {v : Word} {srcAcc dstAcc : Account} {n : Int}
    {h h₁ h₂ h' : Host} (ht : Transferred env src dst v srcAcc dstAcc h h₁ h₂ h')
    (hsupply : Supply env h.state n) (hn : n < 2 ^ 256)
    (hcovered : v.toNat ≤ srcAcc.info.balance.toNat) : Supply env h'.state n := by
  obtain ⟨hsource, -, hdestination⟩ := ht.balances hsupply hn hcovered
  have hsrc := balanceReading_ok ht.source
  refine SumsWithin.move (v := (v.toNat : Int)) hsupply ht.distinct (Int.natCast_nonneg _)
    (Int.natCast_nonneg _) ?_ ?_ fun b hbsrc hbdst => ?_
  · omega
  · omega
  · exact (congrArg Int.ofNat (balanceReading_congr (ht.reads.2.2 b hbsrc hbdst))).le

end

/-! ## Bystanders -/

/-- An account has been paid, if anything. -/
structure Gains (acc acc' : Account) : Prop where
  nonce : acc'.info.nonce = acc.info.nonce
  codeHash : acc'.info.codeHash = acc.info.codeHash
  storageRoot : acc'.info.storageRoot = acc.info.storageRoot
  storageCleared : acc'.storageCleared = acc.storageCleared
  created : acc'.created = acc.created
  selfdestructed : acc'.selfdestructed = acc.selfdestructed
  balance : acc.info.balance.toNat ≤ acc'.info.balance.toNat

instance : IsPreorder Account Gains where
  refl _ := ⟨rfl, rfl, rfl, rfl, rfl, rfl, le_refl _⟩
  trans _ _ _ h₁ h₂ :=
    ⟨h₂.nonce.trans h₁.nonce, h₂.codeHash.trans h₁.codeHash, h₂.storageRoot.trans h₁.storageRoot,
      h₂.storageCleared.trans h₁.storageCleared, h₂.created.trans h₁.created,
      h₂.selfdestructed.trans h₁.selfdestructed, h₁.balance.trans h₂.balance⟩

section

variable (env : Env)

/-- Nothing has happened to the account `a` but that it has been paid: its
nonce, its code, its storage and its transient storage are as they were. -/
structure Spares (a : Address) (h h' : Host) : Prop where
  account : ∀ acc, (view env h.state).readAccount a = .ok acc →
    ∃ acc', (view env h'.state).readAccount a = .ok acc' ∧ Gains acc acc'
  unreadable : ∀ e, (view env h.state).readAccount a = .error e →
    (view env h'.state).readAccount a = .error e
  transient : h'.state.effects.transient a = h.state.effects.transient a
  slot : ∀ slot, slotReading env h'.state ⟨a, slot⟩ = slotReading env h.state ⟨a, slot⟩

instance (a : Address) : IsPreorder Host (Spares env a) where
  refl h := ⟨fun acc hacc => ⟨acc, hacc, Std.Refl.refl acc⟩, fun _ he => he, rfl, fun _ => rfl⟩
  trans _ _ _ h₁ h₂ :=
    ⟨fun acc hacc => by
        obtain ⟨acc', hacc', hgains⟩ := h₁.account acc hacc
        obtain ⟨acc'', hacc'', hgains'⟩ := h₂.account acc' hacc'
        exact ⟨acc'', hacc'', IsTrans.trans _ _ _ hgains hgains'⟩,
      fun e he => h₂.unreadable e (h₁.unreadable e he), h₂.transient.trans h₁.transient,
      fun slot => (h₂.slot slot).trans (h₁.slot slot)⟩

variable {env}

/-- The account reads as it did. -/
theorem spares_of_eq {a : Address} {h h' : Host}
    (haccount : (view env h'.state).readAccount a = (view env h.state).readAccount a)
    (htransient : h'.state.effects.transient a = h.state.effects.transient a)
    (hslot : ∀ slot, slotReading env h'.state ⟨a, slot⟩ = slotReading env h.state ⟨a, slot⟩) :
    Spares env a h h' :=
  ⟨fun acc hacc => ⟨acc, haccount.trans hacc, Std.Refl.refl acc⟩, fun _ he => haccount.trans he,
    htransient, hslot⟩

theorem spares_of_state {a : Address} {h h' : Host} (hstate : h'.state = h.state) :
    Spares env a h h' :=
  spares_of_eq (by rw [hstate]) (by rw [hstate]) fun slot => by rw [hstate]

theorem Alike.spares {a : Address} {h h' : Host} (halike : Alike env h h') : Spares env a h h' :=
  spares_of_eq (halike.account a) (congrFun halike.transient a) fun slot => halike.slot ⟨a, slot⟩

theorem Rewrites.spares {a b : Address} {acc' : Account} {h h' : Host} (hba : b ≠ a)
    (hrewrites : Rewrites env a acc' h h') : Spares env b h h' :=
  spares_of_eq (hrewrites.others b hba) (congrFun hrewrites.transient b)
    fun slot => hrewrites.slot ⟨b, slot⟩ hba

/-- Who is paid keeps storage and code. -/
theorem Transferred.spares {src dst a : Address} {v : Word} {srcAcc dstAcc : Account} {n : Int}
    {h h₁ h₂ h' : Host} (ht : Transferred env src dst v srcAcc dstAcc h h₁ h₂ h')
    (hsupply : Supply env h.state n) (hn : n < 2 ^ 256)
    (hcovered : v.toNat ≤ srcAcc.info.balance.toNat) (ha : a ≠ src) : Spares env a h h' := by
  by_cases hdst : a = dst
  · subst hdst
    obtain ⟨-, hadd, -⟩ := ht.balances hsupply hn hcovered
    obtain ⟨-, hreads, -⟩ := ht.reads
    have hpos : 0 < v.toNat := by
      have hne : v.toNat ≠ 0 := fun hzero => ht.value (BitVec.eq_of_toNat_eq hzero)
      omega
    have hne : dstAcc.info.balance + v ≠ 0 := by
      intro hzero
      rw [hzero] at hadd
      have hsum : 0 = dstAcc.info.balance.toNat + v.toNat := hadd
      omega
    have hset : accountSetInfo dstAcc { dstAcc.info with balance := dstAcc.info.balance + v } =
        { dstAcc with
          info := { dstAcc.info with balance := dstAcc.info.balance + v }
          present := true } := by
      rw [accountSetInfo, if_neg]
      rw [accountInfoEmpty, beq_eq_false_iff_ne.mpr hne, Bool.and_false]
      exact Bool.false_ne_true
    refine ⟨fun acc hacc => ⟨_, hreads, ?_⟩, fun _ he => ?_, ?_, fun slot => ?_⟩
    · rw [ht.destination] at hacc
      cases hacc
      rw [hset]
      refine ⟨rfl, rfl, rfl, rfl, rfl, rfl, ?_⟩
      show dstAcc.info.balance.toNat ≤ (dstAcc.info.balance + v).toNat
      omega
    · rw [ht.destination] at he
      cases he
    · rw [ht.logged.transient, ht.credited.transient, ht.debited.transient]
    · rw [ht.logged.slot, ht.slots hne, ht.debited.slot ⟨a, slot⟩ ha]
  · exact IsTrans.trans _ _ _ (ht.debited.spares ha)
      (IsTrans.trans _ _ _ (ht.credited.spares hdst) ht.logged.spares)

end

/-! ## Writes -/

section

variable (env : Env) (self : Address)

/-- One thing that code which runs at `self` may do to the host. -/
inductive Write (h h' : Host) : Prop
  | looked (hlooks : Looks env h h')
  /-- Nothing that a revert gives back has changed, as when code is stored. -/
  | kept (hview : view env h'.state = view env h.state) (hadvances : Advances env h h')
  | logged (topics : List Word) (data : List Byte)
      (hrun : (kLog env self topics data).run h = .ok ((), h'))
  | tstored (slot value : Word) (hrun : (kTstore env self slot value).run h = .ok ((), h'))
  | stored (slot : Word) (value : StorageValue)
      (hrun : (kSstore env self slot value).run h = .ok ((), h'))
  | counted (hrun : (kBumpNonce env self).run h = .ok ((), h'))
  | created (hrun : (kMarkCreated env self).run h = .ok ((), h'))
  | cleared (hrun : (kClearStorage env self).run h = .ok ((), h'))
  | deployed (code : List Byte) (hrun : (kDeployCode env self code).run h = .ok ((), h'))
  | swept (hrun : (kZeroBalance env self).run h = .ok ((), h'))
  | destroyed (hrun : (kSelfdestruct env self).run h = .ok ((), h'))
  /-- It sends what it has. -/
  | transferred (dst : Address) (value : Word)
      (hcovered : value.toNat ≤ balanceReading env h.state self)
      (hrun : (kTransfer env self dst value).run h = .ok ((), h'))

abbrev Writes : Host → Host → Prop := Relation.ReflTransGen (Write env self)

variable {env self}

theorem kSstore_advances {slot : Word} {value : StorageValue} {h h' : Host} {u : Unit}
    (hrun : (kSstore env self slot value).run h = .ok (u, h')) : Advances env h h' := by
  intro hc
  cases hrun
  exact storageTxUpdate_advanced _ value hc

theorem Write.advances {h h' : Host} (hw : Write env self h h') : Advances env h h' := by
  cases hw with
  | looked hlooks => exact hlooks.advances
  | kept hview hadvances => exact hadvances
  | stored slot value hrun => exact kSstore_advances hrun
  | logged topics data hrun | tstored slot value hrun | counted hrun | created hrun
  | cleared hrun | deployed code hrun | swept hrun | destroyed hrun
  | transferred dst value hcovered hrun => exact (Evolving.evolves _ _ _ hrun).advances

theorem Writes.advances {h h' : Host} (hw : Writes env self h h') : Advances env h h' :=
  reflTransGen_inside hw fun _ _ => Write.advances

theorem SameReadings.sameBalances {h h' : Host} (hsame : SameReadings env h h') :
    SameBalances env h h' := fun a => balanceReading_congr (hsame.account a)

/-- A change of flags leaves the balance. -/
theorem updateFlags_sameBalances {f : Account → Option Account}
    {hf : ∀ acc acc', f acc = some acc' → acc'.info = acc.info ∧
      acc'.storageCleared = acc.storageCleared} {h h' : Host} {u : Unit}
    (hrun : (updateFlags env self f hf).run h = .ok (u, h')) : SameBalances env h h' := by
  rcases updateFlags_rewrites hrun with hsame | ⟨acc, acc', hacc, hinfo, hrewrites⟩
  · exact hsame.sameBalances
  · exact hrewrites.sameBalances hacc (by rw [hinfo])

theorem kMarkCreated_sameBalances {h h' : Host} {u : Unit}
    (hrun : (kMarkCreated env self).run h = .ok (u, h')) : SameBalances env h h' :=
  updateFlags_sameBalances hrun

theorem kClearStorage_sameBalances {h h' : Host} {u : Unit}
    (hrun : (kClearStorage env self).run h = .ok (u, h')) : SameBalances env h h' := by
  obtain ⟨acc, hacc, hrewrites⟩ := kClearStorage_rewrites hrun
  exact hrewrites.sameBalances hacc rfl

theorem kBumpNonce_sameBalances {h h' : Host} {u : Unit}
    (hrun : (kBumpNonce env self).run h = .ok (u, h')) : SameBalances env h h' := by
  rcases updateInfo_rewrites hrun with hsame | ⟨acc, info, hacc, hinfo, hrewrites⟩
  · exact hsame.sameBalances
  · refine hrewrites.sameBalances hacc ?_
    rw [accountSetInfo_balance]
    split at hinfo
    · cases hinfo
      rfl
    · cases hinfo

theorem bindCode_sameBalances {code : List Byte} {h h' : Host} {u : Unit}
    (hrun : (bindCode env self code).run h = .ok (u, h')) : SameBalances env h h' := by
  obtain ⟨acc, hash, hacc, hrewrites⟩ := bindCode_rewrites hrun
  exact hrewrites.sameBalances hacc (accountSetInfo_balance _ _)

theorem kZeroBalance_noRicher {h h' : Host} {u : Unit}
    (hrun : (kZeroBalance env self).run h = .ok (u, h')) : NoRicher env h h' := by
  rcases updateInfo_rewrites hrun with hsame | ⟨acc, info, hacc, hinfo, hrewrites⟩
  · exact hsame.noRicher
  · refine hrewrites.noRicher hacc (BitVec.le_def.mpr ?_)
    rw [accountSetInfo_balance]
    split at hinfo
    · cases hinfo
    · cases hinfo
      exact Nat.zero_le _

theorem Alike.noRicher {h h' : Host} (halike : Alike env h h') : NoRicher env h h' :=
  fun a => (balanceReading_congr (halike.account a)).le

/-- Code that runs makes no ether. -/
theorem Write.supply {h h' : Host} {n : Int} (hw : Write env self h h')
    (hsupply : Supply env h.state n) (hn : n < 2 ^ 256) : Supply env h'.state n := by
  cases hw with
  | looked hlooks => exact hlooks.readings.noRicher.supply hsupply
  | kept hview hadvances => exact hsupply.of_view hview
  | logged topics data hrun => exact (kLog_alike hrun).noRicher.supply hsupply
  | tstored slot value hrun =>
    cases hrun
    exact hsupply
  | stored slot value hrun =>
    cases hrun
    exact hsupply
  | counted hrun => exact (kBumpNonce_sameBalances hrun).noRicher.supply hsupply
  | created hrun => exact (kMarkCreated_sameBalances hrun).noRicher.supply hsupply
  | destroyed hrun => exact (updateFlags_sameBalances hrun).noRicher.supply hsupply
  | cleared hrun => exact (kClearStorage_sameBalances hrun).noRicher.supply hsupply
  | swept hrun => exact (kZeroBalance_noRicher hrun).supply hsupply
  | deployed code hrun => exact (bindCode_sameBalances hrun).noRicher.supply hsupply
  | transferred dst value hcovered hrun =>
    rcases kTransfer_cases hrun with hsame | ⟨srcAcc, dstAcc, h₁, h₂, ht⟩
    · exact hsame.noRicher.supply hsupply
    · rw [balanceReading_ok ht.source] at hcovered
      exact ht.supply hsupply hn hcovered

theorem Writes.supply {h h' : Host} {n : Int} (hw : Writes env self h h')
    (hsupply : Supply env h.state n) (hn : n < 2 ^ 256) : Supply env h'.state n := by
  induction hw with
  | refl => exact hsupply
  | tail _ hwrite ih => exact hwrite.supply ih hn

/-- Code that runs elsewhere can only pay an account. -/
theorem Write.spares {a : Address} {h h' : Host} {n : Int} (hw : Write env self h h')
    (hc : Coherent env h.state) (hsupply : Supply env h.state n) (hn : n < 2 ^ 256)
    (ha : a ≠ self) : Spares env a h h' := by
  cases hw with
  | looked hlooks => exact hlooks.readings.alike.spares
  | kept hview hadvances => exact (alike_of_view hc.sound hview).spares
  | logged topics data hrun => exact (kLog_alike hrun).spares
  | tstored slot value hrun =>
    cases hrun
    exact spares_of_eq rfl (Function.update_of_ne ha _ _)
      fun _ => slotReading_congr rfl rfl rfl rfl
  | stored slot value hrun =>
    cases hrun
    refine spares_of_eq rfl rfl fun slot' => slotReading_congr ?_ rfl rfl rfl
    exact Function.update_of_ne (fun heq => ha (congrArg StorageKey.addr heq)) _ _
  | counted hrun =>
    rcases updateInfo_rewrites hrun with hsame | ⟨acc, info, hacc, hinfo, hrewrites⟩
    · exact hsame.alike.spares
    · exact hrewrites.spares ha
  | swept hrun =>
    rcases updateInfo_rewrites hrun with hsame | ⟨acc, info, hacc, hinfo, hrewrites⟩
    · exact hsame.alike.spares
    · exact hrewrites.spares ha
  | created hrun =>
    rcases updateFlags_rewrites hrun with hsame | ⟨acc, acc', hacc, hinfo, hrewrites⟩
    · exact hsame.alike.spares
    · exact hrewrites.spares ha
  | destroyed hrun =>
    rcases updateFlags_rewrites hrun with hsame | ⟨acc, acc', hacc, hinfo, hrewrites⟩
    · exact hsame.alike.spares
    · exact hrewrites.spares ha
  | cleared hrun =>
    obtain ⟨acc, hacc, hrewrites⟩ := kClearStorage_rewrites hrun
    exact hrewrites.spares ha
  | deployed code hrun =>
    obtain ⟨acc, hash, hacc, hrewrites⟩ := bindCode_rewrites hrun
    exact hrewrites.spares ha
  | transferred dst value hcovered hrun =>
    rcases kTransfer_cases hrun with hsame | ⟨srcAcc, dstAcc, h₁, h₂, ht⟩
    · exact hsame.alike.spares
    · rw [balanceReading_ok ht.source] at hcovered
      exact ht.spares hsupply hn hcovered ha

/-- However much it does. -/
theorem Writes.spares {a : Address} {h h' : Host} {n : Int} (hw : Writes env self h h')
    (hc : Coherent env h.state) (hsupply : Supply env h.state n) (hn : n < 2 ^ 256)
    (ha : a ≠ self) : Spares env a h h' := by
  induction hw with
  | refl => exact Std.Refl.refl h
  | tail hbefore hwrite ih =>
    have hcoherent := (Writes.advances hbefore hc).coherent
    exact IsTrans.trans _ _ _ ih (hwrite.spares hcoherent (Writes.supply hbefore hsupply hn) hn ha)

end

end EvmSail.Kernel
