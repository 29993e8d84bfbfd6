/-
# `EvmSail.Kernel.Rewrites` — what the mutations make the host answer

`Readings` is about programs that leave every answer as it is.  A mutation
of an account rewrites the answers for that account and leaves all others:
`Rewrites` gives the account as it reads then.  Its slots are another
matter, for an account that becomes empty loses its storage; those of an
account that does not are left, too.
-/
import EvmSail.Kernel.Readings

namespace EvmSail.Kernel

open Fallible Journal Kept

/-! ## Slots -/

section

variable {env : Env}

/-- A slot is found through its row, the generation of its account, the
block's row, and what the account says of its storage. -/
theorem slotReading_congr {s s' : State} {key : StorageKey}
    (hstorage : s'.effects.storage key = s.effects.storage key)
    (hgeneration : s'.effects.generation key.addr = s.effects.generation key.addr)
    (hblock : s'.block.storage key = s.block.storage key)
    (haccount : (view env s').readAccount key.addr >>= (slotOfAccount env · key.slot) =
      (view env s).readAccount key.addr >>= (slotOfAccount env · key.slot)) :
    slotReading env s' key = slotReading env s key := by
  have hget : storageTxGet s' key = storageTxGet s key := by
    rw [storageTxGet, storageTxGet, storageActiveGeneration, storageActiveGeneration, hstorage,
      hgeneration]
  have hsplit : ∀ t : State, (view env t).readAccount key.addr >>= (fun acc => do
      let value ← slotOfAccount env acc key.slot
      .ok (StorageValue.unchanged value)) =
      ((view env t).readAccount key.addr >>= (slotOfAccount env · key.slot)) >>= fun value =>
        .ok (.unchanged value) := by
    intro t
    cases (view env t).readAccount key.addr with
    | error e => rfl
    | ok acc => rfl
  simp only [slotReading, hget, hblock]
  rw [hsplit, hsplit, haccount]

/-- What an account says of its storage. -/
theorem slotOfAccount_congr {acc acc' : Account} {slot : Word}
    (hroot : acc'.info.storageRoot = acc.info.storageRoot)
    (hcleared : acc'.storageCleared = acc.storageCleared) :
    slotOfAccount env acc' slot = slotOfAccount env acc slot := by
  rw [slotOfAccount, slotOfAccount, hroot, hcleared]

/-- A slot reads as the view says, on a sound state. -/
theorem slotReading_of_view {s s' : State} (hs : Sound (view env s))
    (hview : view env s' = view env s) (key : StorageKey) :
    slotReading env s' key = slotReading env s key := by
  have heffects : s'.effects = s.effects := congrArg View.effects hview
  have hget : storageTxGet s' key = storageTxGet s key := by
    rw [storageTxGet, storageTxGet, storageActiveGeneration, storageActiveGeneration, heffects]
  -- while the storage of the account is not cleared, the block's rows decide
  have hmiss : ∀ t : State, Sound (view env t) → storageTxGet t key = .miss →
      slotReading env t key = (view env t).slot key >>= fun value => .ok (.unchanged value) := by
    intro t ht hmiss
    have hgen : (view env t).effects.generation key.addr = initialGeneration :=
      storageTxGet_miss hmiss
    rw [slotReading, hmiss]
    show _ = blockSlot env t key >>= _
    rw [blockSlot]
    cases hblock : t.block.storage key with
    | some v => rfl
    | none =>
      cases hacc : (view env t).readAccount key.addr with
      | ok acc =>
        obtain ⟨orig, horig, hroot, hcleared⟩ := readAccount_anchored ht hgen hacc
        have horig' : blockAccount env t key.addr = .ok orig := horig
        simp only [horig', ok_bind]
        rw [slotOfAccount, hroot, hcleared]
      | error e =>
        have hblockAccount : blockAccount env t key.addr = .error e := by
          rw [View.readAccount] at hacc
          cases hrow : (view env t).effects.accounts key.addr with
          | none =>
            rw [hrow] at hacc
            exact hacc
          | some r =>
            rw [hrow] at hacc
            cases hacc
        simp only [hblockAccount]
        rfl
  cases hlookup : storageTxGet s key with
  | hit value => rw [slotReading, slotReading, hget, hlookup]
  | cleared => rw [slotReading, slotReading, hget, hlookup]
  | miss =>
    rw [hmiss s hs hlookup, hmiss s' (hview.symm ▸ hs) (hget.trans hlookup), hview]

/-! ## Rewriting an account -/

variable (env) in
/-- The account `a` reads as `acc'` now, and nothing else reads
differently. -/
structure Rewrites (a : Address) (acc' : Account) (h h' : Host) : Prop where
  account : (view env h'.state).readAccount a = .ok acc'
  others : ∀ b, b ≠ a → (view env h'.state).readAccount b = (view env h.state).readAccount b
  transient : h'.state.effects.transient = h.state.effects.transient
  slot : ∀ key, key.addr ≠ a → slotReading env h'.state key = slotReading env h.state key

/-- What a store leaves alone, and that generations of other accounts stay. -/
theorem StoresOnly.rewrites {a : Address} {acc' : Account} {h h' : Host}
    (hstores : StoresOnly a h h')
    (hgeneration : ∀ b, b ≠ a → h'.state.effects.generation b = h.state.effects.generation b)
    (haccount : (view env h'.state).readAccount a = .ok acc') : Rewrites env a acc' h h' := by
  refine ⟨haccount, fun b hb => hstores.readAccount hb, hstores.transient, fun key hkey => ?_⟩
  refine slotReading_congr (congrFun hstores.storage key) (hgeneration key.addr hkey) ?_ ?_
  · rw [hstores.block]
  · rw [hstores.readAccount hkey]

theorem acctTxWrite_generation (a : Address) (f : Account → Account) (h : Host) :
    (acctTxWrite a f h).state.effects.generation = h.state.effects.generation := by
  rw [acctTxWrite]
  split
  · rfl
  · rfl

theorem setWhen_generation (a : Address) (changed : Bool) (f : Account → Account) (h : Host) :
    (setWhen changed (acctTxSetField a f) h).state.effects.generation =
      h.state.effects.generation := by
  rw [setWhen]
  split
  · rw [acctTxSetField]
    split
    · rfl
    · split
      · rfl
      · exact acctTxWrite_generation a f h
  · rfl

theorem storageTxClear_generation {a : Address} {h h' : Host} (hh : storageTxClear a h = .ok h') :
    ∀ b, b ≠ a → h'.state.effects.generation b = h.state.effects.generation b := by
  intro b hb
  simp only [storageTxClear] at hh
  split at hh
  · cases hh
  · cases hh
    exact Function.update_of_ne hb _ _

/-- A store clears the storage of its account at most, and only when the
account becomes empty. -/
theorem storeAccountInfo_generation {a : Address} {acc : Account} {info : AccountInfo}
    {h h' : Host} (hh : storeAccountInfo a acc info h = .ok h') :
    (∀ b, b ≠ a → h'.state.effects.generation b = h.state.effects.generation b) ∧
      (accountInfoEmpty info = false →
        h'.state.effects.generation = h.state.effects.generation) := by
  simp only [storeAccountInfo] at hh
  obtain ⟨h₁, hclear, hh⟩ := bind_eq_ok.mp hh
  have hlast : h'.state.effects.generation = h₁.state.effects.generation := by
    split at hh
    · cases hh
      exact acctTxWrite_generation a _ h₁
    · cases hh
      rw [acctTxSetCodeHash, acctTxSetNonce, acctTxSetBalance, setWhen_generation,
        setWhen_generation, setWhen_generation]
  rw [hlast]
  split at hclear
  · next hempty =>
    refine ⟨storageTxClear_generation hclear, fun hno => ?_⟩
    rw [hno] at hempty
    cases hempty
  · cases hclear
    exact ⟨fun _ _ => rfl, fun _ => rfl⟩

/-- After a store the account reads as the tuple it was given; its slots stay
when the tuple is not empty. -/
theorem storeAccountInfo_rewrites {a : Address} {acc : Account} {info : AccountInfo}
    {h h' : Host} {r : AcctValue} (hr : acctTxRow h.state a = some r) (hacc : r.curr = acc)
    (hh : storeAccountInfo a acc info h = .ok h')
    (hroot : info.storageRoot = acc.info.storageRoot) :
    Rewrites env a (accountSetInfo acc info) h h' ∧
      (accountInfoEmpty info = false → ∀ slot,
        slotReading env h'.state ⟨a, slot⟩ = slotReading env h.state ⟨a, slot⟩) := by
  have hstores := storeAccountInfo_storesOnly hh
  obtain ⟨hothers, hsame⟩ := storeAccountInfo_generation hh
  have haccount := @storeAccountInfo_readAccount env a acc info h h' r hr hacc hh
  refine ⟨hstores.rewrites hothers haccount, fun hempty slot => ?_⟩
  refine slotReading_congr (congrFun hstores.storage _) (congrFun (hsame hempty) a) ?_ ?_
  · rw [hstores.block]
  · dsimp only
    rw [haccount, readAccount_of_row hr, hacc, ok_bind, ok_bind]
    have hset : accountSetInfo acc info = { acc with info := info, present := true } := by
      rw [accountSetInfo, if_neg (by rw [hempty]; exact Bool.false_ne_true)]
    rw [hset]
    exact slotOfAccount_congr hroot rfl

/-- The same of a store of a whole row. -/
theorem storeAccount_rewrites {a : Address} {acc' : Account} {h : Host} {r : AcctValue}
    (hr : acctTxRow h.state a = some r) :
    Rewrites env a acc' h (storeAccount a acc' h) :=
  (acctTxWrite_storesOnly a (fun _ => acc') h).rewrites
    (fun b _ => congrFun (acctTxWrite_generation a _ h) b)
    (readAccount_of_row (acctTxWrite_row hr))

end

end EvmSail.Kernel
