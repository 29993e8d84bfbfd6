/-
# `EvmSail.Kernel.Readings` — what the kernel answers, from any state

An account reads as what `k_aload` returns and a slot as what `k_sload`
returns.  Both operations also fill the block's caches and tell the
recorder, and a slot is found through the account it belongs to, so that
what a read leaves behind could in principle be read by the next one.  It
is not: `SameReadings` holds across every read and every warm mark.
`Looks` says so together with what the journal can take back, and `Looking`
of a kernel program that it does no more than look.

Unlike `Reads`, which speaks of the view that a revert gives back and
needs it to be sound, this is said of the answers themselves, and of every
state of the host.
-/
import EvmSail.Kernel.Evolution

namespace EvmSail.Kernel

open Fallible Journal Kept

section

variable (env : Env)

/-- What a slot reads as. -/
def slotReading (s : State) (key : StorageKey) : Result StorageValue :=
  match storageTxGet s key with
  | .hit value => .ok value
  | .cleared => .ok (.unchanged 0)
  | .miss =>
    match s.block.storage key with
    | some v => .ok (.unchanged v.curr)
    | none => do
      let acc ← (view env s).readAccount key.addr
      let value ← slotOfAccount env acc key.slot
      .ok (.unchanged value)

/-- The effects of the transaction, transient storage and logs among them,
are the same, and so is what every account and every slot reads as. -/
structure SameReadings (h h' : Host) : Prop where
  effects : h'.state.effects = h.state.effects
  account : ∀ a, (view env h'.state).readAccount a = (view env h.state).readAccount a
  slot : ∀ key, slotReading env h'.state key = slotReading env h.state key
  codes : h'.state.codes = h.state.codes

instance : IsPreorder Host (SameReadings env) where
  refl _ := ⟨rfl, fun _ => rfl, fun _ => rfl, rfl⟩
  trans _ _ _ h₁ h₂ :=
    ⟨h₂.effects.trans h₁.effects, fun a => (h₂.account a).trans (h₁.account a),
      fun key => (h₂.slot key).trans (h₁.slot key), h₂.codes.trans h₁.codes⟩

variable {env}

/-! ## What the operations answer -/

theorem kAload_reading (a : Address) (h : Host) :
    ((kAload env a).run h).map Prod.fst = (view env h.state).readAccount a := by
  simp only [kAload, View.readAccount, view]
  split
  · rfl
  · rw [blockAccount]
    cases hb : (balNote (.accountTouch a) h).state.block.accounts a with
    | some v =>
      have hb' : h.state.block.accounts a = some v := hb
      rw [hb']
      rfl
    | none =>
      have hb' : h.state.block.accounts a = none := hb
      rw [hb']
      dsimp only
      cases env.statelessAccountByKey env.parentStateRoot (env.keccak256Address a) with
      | error e => rfl
      | ok acc => rfl

theorem kSload_reading (a : Address) (slot : Word) (h : Host) :
    ((kSload env a slot).run h).map Prod.fst =
      slotReading env h.state { addr := a, slot := slot } := by
  show (loadSlot env { addr := a, slot := slot } h).map Prod.fst = _
  rw [loadSlot, slotReading]
  cases storageTxGet h.state { addr := a, slot := slot } with
  | hit value => rfl
  | cleared => rfl
  | miss =>
    dsimp only
    cases hb : h.state.block.storage { addr := a, slot := slot } with
    | some v =>
      have hb' : (balNote (.storageRead a slot) h).state.block.storage
          { addr := a, slot := slot } = some v := hb
      rw [hb']
      rfl
    | none =>
      have hb' : (balNote (.storageRead a slot) h).state.block.storage
          { addr := a, slot := slot } = none := hb
      have hload := @kAload_reading env a (balNote (.storageRead a slot) h)
      rw [hb']
      dsimp only
      rw [loadAnchoredSlot]
      have hview : (view env (balNote (.storageRead a slot) h).state).readAccount a =
          (view env h.state).readAccount a := rfl
      rw [hview] at hload
      rw [← hload]
      cases (kAload env a).run (balNote (.storageRead a slot) h) with
      | error e => rfl
      | ok r =>
        show ((slotOfAccount env r.1 slot >>= fun value => _) : Result _).map Prod.fst =
          slotOfAccount env r.1 slot >>= _
        cases slotOfAccount env r.1 slot with
        | error e => rfl
        | ok value => rfl

/-! ## What leaves them as they are -/

/-- The recorder, the warm sets and the worklists are not read. -/
theorem SameReadings.of_eq {h h' : Host} (heffects : h'.state.effects = h.state.effects)
    (hblock : h'.state.block = h.state.block) (hcodes : h'.state.codes = h.state.codes) :
    SameReadings env h h' := by
  have haccount : ∀ a, blockAccount env h'.state a = blockAccount env h.state a := by
    intro a
    rw [blockAccount, blockAccount, hblock]
  have hread : ∀ a, (view env h'.state).readAccount a = (view env h.state).readAccount a := by
    intro a
    simp only [View.readAccount, view, heffects, haccount]
  refine ⟨heffects, hread, fun key => ?_, hcodes⟩
  have hget : storageTxGet h'.state key = storageTxGet h.state key := by
    rw [storageTxGet, storageTxGet, storageActiveGeneration, storageActiveGeneration, heffects]
  simp only [slotReading, hget, hblock, hread]

theorem acctBlockCache_sameReadings {a : Address} {acc : Account} {h : Host}
    (hacc : blockAccount env h.state a = .ok acc) :
    SameReadings env h (acctBlockCache a acc h) := by
  rw [acctBlockCache]
  split
  · exact Std.Refl.refl (r := SameReadings env) h
  · have haccount : ∀ b, blockAccount env (h.state.cacheAccount a acc) b =
        blockAccount env h.state b := by
      intro b
      by_cases hb : b = a
      · subst hb
        rw [hacc]
        simp only [blockAccount, State.cacheAccount, Function.update_self]
      · simp only [blockAccount, State.cacheAccount, Function.update_of_ne hb]
    have hread : ∀ b, (view env (h.state.cacheAccount a acc)).readAccount b =
        (view env h.state).readAccount b := by
      intro b
      simp only [View.readAccount, view, haccount]
      rfl
    refine ⟨rfl, hread, fun key => ?_, rfl⟩
    have hget : storageTxGet (h.state.cacheAccount a acc) key = storageTxGet h.state key := rfl
    have hstorage : (h.state.cacheAccount a acc).block.storage = h.state.block.storage := rfl
    show slotReading env (h.state.cacheAccount a acc) key = _
    simp only [slotReading, hget, hstorage, hread]

theorem kAload_sameReadings {a : Address} {acc : Account} {h h' : Host}
    (hh : (kAload env a).run h = .ok (acc, h')) : SameReadings env h h' := by
  simp only [kAload] at hh
  have htouch : SameReadings env h (balNote (.accountTouch a) h) := .of_eq rfl rfl rfl
  split at hh
  · cases hh
    exact Std.Refl.refl (r := SameReadings env) h
  · split at hh
    · cases hh
      exact htouch
    · next hb =>
      obtain ⟨acc', hacc, hh⟩ := bind_eq_ok.mp hh
      cases hh
      refine IsTrans.trans (r := SameReadings env) _ _ _ htouch (acctBlockCache_sameReadings ?_)
      rw [blockAccount, hb]
      exact hacc

/-- A cached slot reads as what it was before. -/
theorem storageBlockCache_sameReadings {key : StorageKey} {value : Word} {h : Host}
    (hget : storageTxGet h.state key = .miss)
    (hvalue : slotReading env h.state key = .ok (.unchanged value)) :
    SameReadings env h (storageBlockCache key value h) := by
  rw [storageBlockCache]
  split
  · exact Std.Refl.refl (r := SameReadings env) h
  · refine ⟨rfl, fun _ => rfl, fun key' => ?_, rfl⟩
    show slotReading env (h.state.cacheSlot key value) key' = _
    have hget' : storageTxGet (h.state.cacheSlot key value) key' = storageTxGet h.state key' := rfl
    have hread : (view env (h.state.cacheSlot key value)).readAccount key'.addr =
        (view env h.state).readAccount key'.addr := rfl
    by_cases hkey : key' = key
    · subst hkey
      rw [hvalue, slotReading, hget', hget]
      simp only [State.cacheSlot, Function.update_self]
    · rw [slotReading, slotReading, hget', hread]
      simp only [State.cacheSlot, Function.update_of_ne hkey]

theorem kSload_sameReadings {a : Address} {slot : Word} {value : StorageValue} {h h' : Host}
    (hh : (kSload env a slot).run h = .ok (value, h')) : SameReadings env h h' := by
  have hrun : loadSlot env { addr := a, slot := slot } h = .ok (value, h') := hh
  have hnote : SameReadings env h (balNote (.storageRead a slot) h) := .of_eq rfl rfl rfl
  rw [loadSlot] at hrun
  cases hget : storageTxGet h.state { addr := a, slot := slot } with
  | hit v =>
    simp only [hget] at hrun
    cases hrun
    exact Std.Refl.refl (r := SameReadings env) h
  | cleared =>
    simp only [hget] at hrun
    cases hrun
    exact hnote
  | miss =>
    simp only [hget] at hrun
    refine IsTrans.trans (r := SameReadings env) _ _ _ hnote ?_
    cases hblock : (balNote (.storageRead a slot) h).state.block.storage
        { addr := a, slot := slot } with
    | some v =>
      simp only [hblock] at hrun
      cases hrun
      exact Std.Refl.refl (r := SameReadings env) _
    | none =>
      simp only [hblock] at hrun
      -- the account is read in the state the slot is then cached in
      obtain ⟨r, hload, hrun⟩ := bind_eq_ok.mp hrun
      obtain ⟨w, hslot, hrun⟩ := bind_eq_ok.mp hrun
      cases hrun
      have hreads := kAload_sameReadings hload
      have hget' : storageTxGet r.2.state { addr := a, slot := slot } = .miss := by
        have heffects := hreads.effects
        simp only [storageTxGet, storageActiveGeneration, heffects] at hget ⊢
        exact hget
      refine IsTrans.trans (r := SameReadings env) _ _ _ hreads
        (storageBlockCache_sameReadings hget' ?_)
      rw [hreads.slot, slotReading]
      have hget₁ : storageTxGet (balNote (.storageRead a slot) h).state
          { addr := a, slot := slot } = .miss := hget
      rw [hget₁]
      dsimp only
      rw [hblock]
      dsimp only
      have hread : (view env (balNote (.storageRead a slot) h).state).readAccount a = .ok r.1 :=
        kAload_eq_ok env hload
      rw [hread, ok_bind, hslot]
      rfl

theorem accountMarkWarm_sameReadings (a : Address) (h : Host) :
    SameReadings env h (accountMarkWarm a h) := by
  rw [accountMarkWarm]
  dsimp only
  split
  · exact Std.Refl.refl (r := SameReadings env) h
  · exact .of_eq rfl rfl rfl

theorem storageMarkWarm_sameReadings (key : StorageKey) (h : Host) :
    SameReadings env h (storageMarkWarm key h) := by
  rw [storageMarkWarm]
  dsimp only
  split
  · exact Std.Refl.refl (r := SameReadings env) h
  · exact .of_eq rfl rfl rfl

theorem restore_block {e : Entry} {s s' : State} (h : restore e s = .ok s') :
    s'.block = s.block := by
  cases e with
  | warmSlot key =>
    simp only [restore] at h
    split at h
    · cases h
      rfl
    · cases h
  | log =>
    simp only [restore] at h
    split at h
    · cases h
    · cases h
      rfl
  | account | storageWrite | storageClear | transient | warmAccount =>
    cases h
    rfl

/-- A revert leaves the rows of the block. -/
theorem replay_block {n : Nat} {j : List (Record Entry)} {s : State} {h' : Host}
    (h : replay restore .guestAbort n j s = .ok h') : h'.state.block = s.block := by
  induction j generalizing n s with
  | nil => cases h
  | cons r j ih =>
    cases r with
    | change e =>
      simp only [replay] at h
      obtain ⟨s₁, hrestore, hreplay⟩ := bind_eq_ok.mp h
      exact (ih hreplay).trans (restore_block hrestore)
    | checkpointed =>
      cases n with
      | zero =>
        cases h
        rfl
      | succ n => exact ih h
    | committed => exact ih h

/-- What has only been read is not read differently once it is reverted. -/
theorem revert_sameReadings {h h₁ h₂ h' : Host} (hc : Coherent env h.state)
    (hcheckpoint : stateJournalCheckpoint h = .ok h₁) (hframe : Advanced env h₁ h₂)
    (hreadings : SameReadings env h₁ h₂) (hrevert : stateJournalRevert h₂ = .ok h') :
    SameReadings env h h' := by
  obtain ⟨h'', hrevert', -, hview, hcodes⟩ := revert_advanced hc hcheckpoint hframe
  rw [hrevert] at hrevert'
  cases hrevert'
  have hstate : h₁.state = h.state := by
    cases hcheckpoint
    rfl
  have heffects : h'.state.effects = h.state.effects := congrArg View.effects hview
  have hback : SameReadings env h₂ h' := by
    refine .of_eq ?_ (replay_block hrevert) hcodes
    rw [heffects, hreadings.effects, hstate]
  have hfirst : SameReadings env h h₁ := .of_eq (by rw [hstate]) (by rw [hstate]) (by rw [hstate])
  exact IsTrans.trans (r := SameReadings env) _ _ _ hfirst
    (IsTrans.trans (r := SameReadings env) _ _ _ hreadings hback)

/-! ## Looking -/

variable (env)

/-- A coherent state advances. -/
def Advances (h h' : Host) : Prop := Coherent env h.state → Advanced env h h'

instance : IsPreorder Host (Advances env) where
  refl _ hc := .refl hc
  trans _ _ _ h₁ h₂ hc := (h₁ hc).trans (h₂ (h₁ hc).coherent)

/-- Nothing reads differently, and the journal takes back what is done. -/
structure Looks (h h' : Host) : Prop where
  readings : SameReadings env h h'
  advances : Advances env h h'

instance : IsPreorder Host (Looks env) where
  refl h := ⟨Std.Refl.refl h, Std.Refl.refl h⟩
  trans _ _ _ h₁ h₂ :=
    ⟨IsTrans.trans (r := SameReadings env) _ _ _ h₁.readings h₂.readings,
      IsTrans.trans (r := Advances env) _ _ _ h₁.advances h₂.advances⟩

variable {env}

theorem Evolves.advances {h h' : Host} (hh : Evolves env h h') : Advances env h h' :=
  fun hc => (hh hc).toAdvanced

/-- A program that leaves every answer as it is. -/
class Looking {R : Host → Host → Prop} {α : Type} (x : Kept R Halt α) : Prop where
  looks : ∀ h a h', x.run h = .ok (a, h') → Looks env h h'

theorem looking_of_evolving {R : Host → Host → Prop} {α : Type} {x : Kept R Halt α}
    [@Evolving env _ _ x]
    (hreadings : ∀ h a h', x.run h = .ok (a, h') → SameReadings env h h') : @Looking env _ _ x :=
  ⟨fun h a h' hrun => ⟨hreadings h a h' hrun, (Evolving.evolves h a h' hrun).advances⟩⟩

section

variable {R : Host → Host → Prop} [IsPreorder Host R] {α β : Type}

instance (a : α) : @Looking env _ _ (pure a : Kept R Halt α) where
  looks h b h' hx := by
    cases hx
    exact Std.Refl.refl h

instance (f : Host → α) : @Looking env _ _ (ask f : Kept R Halt α) where
  looks h b h' hx := by
    cases hx
    exact Std.Refl.refl h

instance (f : Host → Except Halt α) : @Looking env _ _ (query f : Kept R Halt α) where
  looks h b h' hx := by
    obtain ⟨b', -, hx⟩ := bind_eq_ok.mp hx
    cases hx
    exact Std.Refl.refl h

instance lookingBind (x : Kept R Halt α) (f : α → Kept R Halt β) [@Looking env _ _ x]
    [∀ a, @Looking env _ _ (f a)] : @Looking env _ _ (x >>= f) where
  looks h b h' hx := by
    obtain ⟨a, h₁, hx, hf⟩ := run_bind_eq_ok.mp hx
    exact IsTrans.trans (r := Looks env) _ _ _ (Looking.looks h a h₁ hx)
      (Looking.looks h₁ b h' hf)

omit [IsPreorder Host R] in
theorem looking_ite {c : Prop} [Decidable c] {x y : Kept R Halt α} (hx : @Looking env _ _ x)
    (hy : @Looking env _ _ y) : @Looking env _ _ (if c then x else y) := by
  split
  · exact hx
  · exact hy

end

instance (a : Address) : @Looking env _ _ (kAload env a) :=
  looking_of_evolving fun _ _ _ hrun => kAload_sameReadings hrun

instance (a : Address) (slot : Word) : @Looking env _ _ (kSload env a slot) :=
  looking_of_evolving fun _ _ _ hrun => kSload_sameReadings hrun

instance (a : Address) : @Looking env _ _ (kGetBalance env a) := by
  unfold kGetBalance
  infer_instance

instance (a : Address) : @Looking env _ _ (kGetNonce env a) := by
  unfold kGetNonce
  infer_instance

instance (a : Address) : @Looking env _ _ (kAccountIsEmpty env a) := by
  unfold kAccountIsEmpty
  infer_instance

instance (a : Address) : @Looking env _ _ (kWasCreated env a) := by
  unfold kWasCreated
  infer_instance

instance (a : Address) : @Looking env _ _ (kIsSelfdestructed env a) := by
  unfold kIsSelfdestructed
  infer_instance

instance (a : Address) : @Looking env _ _ (kAccountExists env a) := by
  unfold kAccountExists
  infer_instance

instance (a : Address) : @Looking env _ _ (kCodeKey env a) := by
  unfold kCodeKey
  infer_instance

instance (a : Address) : @Looking env _ _ (kGetCodehash env a) := by
  unfold kGetCodehash
  infer_instance

instance (a : Address) : @Looking env _ _ (kDelegTarget env a) := by
  unfold kDelegTarget
  infer_instance

instance (a : Address) : @Looking env _ _ (kCode env a) := by
  unfold kCode
  infer_instance

instance (a : Address) : @Looking env _ _ (kGetCodeSize env a) := by
  unfold kGetCodeSize
  infer_instance

instance (a : Address) : @Looking env _ _ (kAccountIsWarm env a) := by
  unfold kAccountIsWarm
  exact looking_ite inferInstance inferInstance

instance (a : Address) (slot : Word) : @Looking env _ _ (kSlotIsWarm env a slot) := by
  unfold kSlotIsWarm
  infer_instance

instance (a : Address) (slot : Word) : @Looking env _ _ (kTload env a slot) := by
  unfold kTload
  infer_instance

instance (a : Address) : @Looking env _ _ (kAccountOccupied env a) := by
  unfold kAccountOccupied
  exact @lookingBind _ _ _ _ _ _ _ inferInstance fun _ => looking_ite inferInstance inferInstance

instance (a : Address) : @Looking env _ _ (kAccountMarkWarm env a) :=
  looking_of_evolving fun h u h' hrun => by
    simp only [kAccountMarkWarm] at hrun
    split at hrun
    · cases hrun
      exact Std.Refl.refl (r := SameReadings env) h
    · cases hrun
      exact accountMarkWarm_sameReadings a h

instance (a : Address) (slot : Word) : @Looking env _ _ (kSlotMarkWarm env a slot) :=
  looking_of_evolving fun h u h' hrun => by
    cases hrun
    exact storageMarkWarm_sameReadings _ h

end

end EvmSail.Kernel
