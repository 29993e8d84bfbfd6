/-
# `EvmSail.Kernel.Evolution` — what every kernel operation keeps

The preorders of `Stores` say which changes of the view the journal takes
back.  Execution rests on three further facts about the state as a whole:

  * stored code is analysed;
  * a storage generation that is given out is newer than every row;
  * only a store to a slot gives the slot a row (`Holds`).  Clearing an
    account's storage takes the rows of its slots away.

`Evolves` joins them to `Changes`.  `Evolving` says of a kernel program
that it keeps `Evolves`; the operations of the kernel do, `k_sstore` apart.
-/
import EvmSail.Kernel.Storage

namespace EvmSail.Kernel

open Fallible Journal Kept

/-- The transaction has written the slot, in the active storage
generation. -/
def Holds (e : Effects) (key : StorageKey) (v : StorageValue) : Prop :=
  ∃ row, e.storage key = some row ∧ row.generation = e.generation key.addr ∧ row.value = v

theorem Holds.unique {e : Effects} {key : StorageKey} {v w : StorageValue} (hv : Holds e key v)
    (hw : Holds e key w) : v = w := by
  obtain ⟨row, hrow, -, rfl⟩ := hv
  obtain ⟨row', hrow', -, rfl⟩ := hw
  rw [hrow] at hrow'
  rw [Option.some.inj hrow']

/-- No generation in use is newer than the last one given out. -/
structure Numbered (e : Effects) (nextGeneration : Nat) : Prop where
  accounts : ∀ a, e.generation a ≤ nextGeneration
  rows : ∀ key row, e.storage key = some row → row.generation ≤ nextGeneration

theorem Numbered.mono {e : Effects} {n n' : Nat} (h : Numbered e n) (hn : n ≤ n') :
    Numbered e n' :=
  ⟨fun a => (h.accounts a).trans hn, fun key row hrow => (h.rows key row hrow).trans hn⟩

section

variable (env : Env)

/-- The jump destinations of the code are those of its analysis. -/
def Analyzed (code : Code) : Prop :=
  analyzeCode (env.atLeast .amsterdam) code.bytes = .ok code.jumpdests

theorem analyzed_emptyCode : Analyzed env emptyCode := rfl

/-- The invariant of the kernel's state. -/
structure Coherent (s : State) : Prop where
  sound : Sound (view env s)
  numbered : Numbered s.effects s.nextGeneration
  analyzed : ∀ hash code, s.codes hash = some code → Analyzed env code

/-- A coherent state advances: the journal takes the change back, and
stored code stays. -/
structure Advanced (h h' : Host) : Prop where
  coherent : Coherent env h'.state
  tracks : Tracks (kernelInverse env) h h'
  codes : ∀ hash code, h.state.codes hash = some code → h'.state.codes hash = some code
  next : h.state.nextGeneration.val ≤ h'.state.nextGeneration.val

/-- It evolves when no slot is written either. -/
structure Evolved (h h' : Host) : Prop extends Advanced env h h' where
  kept : ∀ key v, Holds h'.state.effects key v → Holds h.state.effects key v

def Evolves (h h' : Host) : Prop := Coherent env h.state → Evolved env h h'

variable {env}

theorem Advanced.refl {h : Host} (hc : Coherent env h.state) : Advanced env h h :=
  ⟨hc, .refl h, fun _ _ hcode => hcode, Nat.le_refl _⟩

theorem Advanced.trans {h h' h'' : Host} (h₁ : Advanced env h h') (h₂ : Advanced env h' h'') :
    Advanced env h h'' :=
  ⟨h₂.coherent, h₁.tracks.trans h₂.tracks,
    fun hash code hcode => h₂.codes hash code (h₁.codes hash code hcode), h₁.next.trans h₂.next⟩

theorem Evolved.refl {h : Host} (hc : Coherent env h.state) : Evolved env h h :=
  ⟨.refl hc, fun _ _ hv => hv⟩

theorem Evolved.trans {h h' h'' : Host} (h₁ : Evolved env h h') (h₂ : Evolved env h' h'') :
    Evolved env h h'' :=
  ⟨h₁.toAdvanced.trans h₂.toAdvanced, fun key v hv => h₁.kept key v (h₂.kept key v hv)⟩

instance : IsPreorder Host (Evolves env) where
  refl _ hc := .refl hc
  trans _ _ _ h₁ h₂ hc := (h₁ hc).trans (h₂ (h₁ hc).coherent)

/-! ## Footprints -/

/-- What an operation other than a store to a slot does to storage and to
the code store. -/
structure Footprint (h h' : Host) : Prop where
  storage : h'.state.effects.storage = h.state.effects.storage
  generation : ∀ a, h'.state.effects.generation a = h.state.effects.generation a ∨
    h.state.nextGeneration.val < h'.state.effects.generation a ∧
      h'.state.effects.generation a ≤ h'.state.nextGeneration.val
  next : h.state.nextGeneration.val ≤ h'.state.nextGeneration.val
  codes : ∀ hash code, h'.state.codes hash = some code →
    h.state.codes hash = some code ∨ Analyzed env code

/-- Storage, generations and the code store stay as they are. -/
theorem Footprint.of_eq {h h' : Host}
    (hstorage : h'.state.effects.storage = h.state.effects.storage)
    (hgeneration : h'.state.effects.generation = h.state.effects.generation)
    (hnext : h'.state.nextGeneration = h.state.nextGeneration)
    (hcodes : h'.state.codes = h.state.codes) : @Footprint env h h' :=
  ⟨hstorage, fun a => .inl (congrFun hgeneration a), (congrArg Subtype.val hnext).ge,
    fun _ _ hcode => .inl (hcodes ▸ hcode)⟩

theorem Footprint.refl (h : Host) : @Footprint env h h := .of_eq rfl rfl rfl rfl

theorem Footprint.trans {h h' h'' : Host} (h₁ : @Footprint env h h') (h₂ : @Footprint env h' h'') :
    @Footprint env h h'' where
  storage := h₂.storage.trans h₁.storage
  generation a := by
    have hle₁ := h₁.next
    have hle₂ := h₂.next
    rcases h₂.generation a with hsame | ⟨hlt, hle⟩
    · rcases h₁.generation a with hsame' | ⟨hlt, hle⟩
      · exact .inl (hsame.trans hsame')
      · exact .inr ⟨by omega, by omega⟩
    · exact .inr ⟨by omega, hle⟩
  next := h₁.next.trans h₂.next
  codes hash code hcode := by
    rcases h₂.codes hash code hcode with hcode | hcode
    · exact h₁.codes hash code hcode
    · exact .inr hcode

/-- A change with a footprint is an evolution. -/
theorem Changes.evolves {h h' : Host} (hchanges : Changes env h h')
    (hfoot : @Footprint env h h') : Evolves env h h' := by
  intro hc
  obtain ⟨hsound, htracks, hcodes⟩ := hchanges hc.sound
  obtain ⟨haccounts, hrows⟩ := hc.numbered
  have hnext := hfoot.next
  refine ⟨⟨⟨hsound, ⟨fun a => ?_, fun key row hrow => ?_⟩, fun hash code hcode => ?_⟩, htracks,
    hcodes, hnext⟩, ?_⟩
  · rcases hfoot.generation a with hsame | ⟨-, hle⟩
    · rw [hsame]
      exact (haccounts a).trans hnext
    · exact hle
  · rw [hfoot.storage] at hrow
    exact (hrows key row hrow).trans hnext
  · rcases hfoot.codes hash code hcode with hcode | hcode
    · exact hc.analyzed hash code hcode
    · exact hcode
  · rintro key v ⟨row, hrow, hgen, hv⟩
    rw [hfoot.storage] at hrow
    rcases hfoot.generation key.addr with hsame | ⟨hlt, -⟩
    · exact ⟨row, hrow, hgen.trans hsame, hv⟩
    · have := hrows key row hrow
      omega

/-! ## Programs -/

/-- A program that gives out no storage generation. -/
class Quiet {R : Host → Host → Prop} {α : Type} (x : Kept R Halt α) : Prop where
  next : ∀ h a h', x.run h = .ok (a, h') → h'.state.nextGeneration = h.state.nextGeneration

/-- A program that changes the state as `Evolves` says. -/
class Evolving {R : Host → Host → Prop} {α : Type} (x : Kept R Halt α) : Prop where
  evolves : ∀ h a h', x.run h = .ok (a, h') → Evolves env h h'

theorem evolves_of_sameWorld {h h' : Host} (hchanges : Changes env h h')
    (hsame : Sound (view env h.state) → SameWorld env h h')
    (hnext : h'.state.nextGeneration = h.state.nextGeneration) : Evolves env h h' := by
  intro hc
  obtain ⟨heffects, -, -, hcodes⟩ := hsame hc.sound
  exact hchanges.evolves (.of_eq (congrArg Effects.storage heffects)
    (congrArg Effects.generation heffects) hnext hcodes) hc

instance {α : Type} (x : Kept (Reads env) Halt α) [Quiet x] : @Evolving env _ _ x where
  evolves h a h' hx :=
    evolves_of_sameWorld (x.keeps _ _ _ hx).changes (x.keeps _ _ _ hx).marks.2
      (Quiet.next h a h' hx)

instance {α : Type} (x : Kept (Marks env) Halt α) [Quiet x] : @Evolving env _ _ x where
  evolves h a h' hx :=
    evolves_of_sameWorld (x.keeps _ _ _ hx).1 (x.keeps _ _ _ hx).2 (Quiet.next h a h' hx)

/-! ### Quiet programs -/

section

variable {R : Host → Host → Prop} [IsPreorder Host R] {α β : Type}

instance (a : α) : Quiet (pure a : Kept R Halt α) where
  next h b h' hx := by
    cases hx
    rfl

instance (f : Host → α) : Quiet (ask f : Kept R Halt α) where
  next h b h' hx := by
    cases hx
    rfl

instance (f : Host → Except Halt α) : Quiet (query f : Kept R Halt α) where
  next h b h' hx := by
    obtain ⟨b', -, hx⟩ := bind_eq_ok.mp hx
    cases hx
    rfl

instance quietBind (x : Kept R Halt α) (f : α → Kept R Halt β) [Quiet x] [∀ a, Quiet (f a)] :
    Quiet (x >>= f) where
  next h b h' hx := by
    obtain ⟨a, h₁, hx, hf⟩ := run_bind_eq_ok.mp hx
    exact (Quiet.next h₁ b h' hf).trans (Quiet.next h a h₁ hx)

omit [IsPreorder Host R] in
theorem quiet_ite {c : Prop} [Decidable c] {x y : Kept R Halt α} (hx : Quiet x) (hy : Quiet y) :
    Quiet (if c then x else y) := by
  split
  · exact hx
  · exact hy

end

theorem acctBlockCache_next (a : Address) (acc : Account) (h : Host) :
    (acctBlockCache a acc h).state.nextGeneration = h.state.nextGeneration := by
  rw [acctBlockCache]
  split
  · rfl
  · rfl

instance (a : Address) : Quiet (kAload env a) where
  next h b h' hx := by
    simp only [kAload] at hx
    split at hx
    · cases hx
      rfl
    · split at hx
      · cases hx
        rfl
      · obtain ⟨acc, -, hx⟩ := bind_eq_ok.mp hx
        cases hx
        exact acctBlockCache_next a _ _

instance (a : Address) : Quiet (kGetBalance env a) := by
  unfold kGetBalance
  infer_instance

instance (a : Address) : Quiet (kGetNonce env a) := by
  unfold kGetNonce
  infer_instance

instance (a : Address) : Quiet (kAccountIsEmpty env a) := by
  unfold kAccountIsEmpty
  infer_instance

instance (a : Address) : Quiet (kWasCreated env a) := by
  unfold kWasCreated
  infer_instance

instance (a : Address) : Quiet (kIsSelfdestructed env a) := by
  unfold kIsSelfdestructed
  infer_instance

instance (a : Address) : Quiet (kAccountExists env a) := by
  unfold kAccountExists
  infer_instance

instance (a : Address) : Quiet (kCodeKey env a) := by
  unfold kCodeKey
  infer_instance

instance (a : Address) : Quiet (kGetCodehash env a) := by
  unfold kGetCodehash
  infer_instance

instance (a : Address) : Quiet (kDelegTarget env a) := by
  unfold kDelegTarget
  infer_instance

instance (a : Address) : Quiet (kCode env a) := by
  unfold kCode
  infer_instance

instance (a : Address) : Quiet (kGetCodeSize env a) := by
  unfold kGetCodeSize
  infer_instance

instance (a : Address) : Quiet (kAccountIsWarm env a) := by
  unfold kAccountIsWarm
  exact quiet_ite inferInstance inferInstance

instance (a : Address) (slot : Word) : Quiet (kSlotIsWarm env a slot) := by
  unfold kSlotIsWarm
  infer_instance

instance (a : Address) (slot : Word) : Quiet (kTload env a slot) := by
  unfold kTload
  infer_instance

instance (a : Address) : Quiet (kAccountOccupied env a) := by
  unfold kAccountOccupied
  exact @quietBind _ _ _ _ _ _ inferInstance fun _ => quiet_ite inferInstance inferInstance

instance (a : Address) (slot : Word) : Quiet (kSload env a slot) where
  next h b h' hx := by
    simp only [kSload, loadSlot] at hx
    split at hx
    · cases hx
      rfl
    · cases hx
      rfl
    · split at hx
      · cases hx
        rfl
      · obtain ⟨r, hload, hx⟩ := bind_eq_ok.mp hx
        obtain ⟨value, -, hx⟩ := bind_eq_ok.mp hx
        cases hx
        have hquiet := Quiet.next _ _ _ hload
        refine Eq.trans ?_ hquiet
        rw [storageBlockCache]
        split
        · rfl
        · rfl

instance (a : Address) : Quiet (kAccountMarkWarm env a) := by
  unfold kAccountMarkWarm
  refine quiet_ite inferInstance ⟨fun h b h' hx => ?_⟩
  cases hx
  simp only [accountMarkWarm]
  split
  · rfl
  · rfl

instance (a : Address) (slot : Word) : Quiet (kSlotMarkWarm env a slot) where
  next h b h' hx := by
    cases hx
    simp only [storageMarkWarm]
    split
    · rfl
    · rfl

/-! ### Mutations -/

theorem acctTxWrite_footprint (a : Address) (f : Account → Account) (h : Host) :
    @Footprint env h (acctTxWrite a f h) := by
  rw [acctTxWrite]
  split
  · exact .refl h
  · exact .of_eq rfl rfl rfl rfl

theorem setWhen_footprint (a : Address) (changed : Bool) (f : Account → Account) (h : Host) :
    @Footprint env h (setWhen changed (acctTxSetField a f) h) := by
  rw [setWhen]
  split
  · rw [acctTxSetField]
    split
    · exact .refl h
    · split
      · exact .of_eq rfl rfl rfl rfl
      · exact acctTxWrite_footprint a f h
  · exact .refl h

theorem storageTxClear_footprint {a : Address} {h h' : Host} (hh : storageTxClear a h = .ok h') :
    @Footprint env h h' := by
  simp only [storageTxClear] at hh
  split at hh
  · cases hh
  · cases hh
    refine ⟨rfl, fun b => ?_, Nat.le_succ _, fun _ _ hcode => .inl hcode⟩
    by_cases hb : b = a
    · subst hb
      refine .inr ?_
      simp only [Host.push, Function.update_self]
      omega
    · exact .inl (Function.update_of_ne hb _ _)

theorem storeAccountInfo_footprint {a : Address} {acc : Account} {info : AccountInfo}
    {h h' : Host} (hh : storeAccountInfo a acc info h = .ok h') : @Footprint env h h' := by
  simp only [storeAccountInfo] at hh
  obtain ⟨h₁, h₁eq, hh⟩ := bind_eq_ok.mp hh
  have hclear : @Footprint env h h₁ := by
    split at h₁eq
    · exact storageTxClear_footprint h₁eq
    · cases h₁eq
      exact .refl h
  refine hclear.trans ?_
  split at hh
  · cases hh
    exact acctTxWrite_footprint a (fun _ => accountSetInfo acc info) h₁
  · cases hh
    have hbalance := @setWhen_footprint env a
      ((accountSetInfo acc info).info.balance != acc.info.balance)
      (Account.withBalance (accountSetInfo acc info).info.balance) h₁
    exact (hbalance.trans (setWhen_footprint a _ (Account.withNonce _) _)).trans
      (setWhen_footprint a _ (Account.withCodeHash _) _)

theorem codeDbInsert_footprint {code : List Byte} {hash : Hash} {h h' : Host}
    (hh : codeDbInsert env code h = .ok (hash, h')) : @Footprint env h h' := by
  rw [codeDbInsert] at hh
  obtain ⟨jumpdests, hanalysis, hh⟩ := bind_eq_ok.mp hh
  have hstore : (codeDbStore (env.keccak256 code) { bytes := code, jumpdests := jumpdests } h).2 =
      h' := congrArg Prod.snd (Except.ok.inj hh)
  subst hstore
  rw [codeDbStore]
  split
  · exact .refl h
  · split
    · split
      · exact .refl h
      · exact .refl h
    · refine ⟨rfl, fun _ => .inl rfl, Nat.le_refl _, fun key c hc => ?_⟩
      have hupdate : Function.update h.state.codes (env.keccak256 code)
          (some { bytes := code, jumpdests := jumpdests }) key = some c := hc
      by_cases hkey : key = env.keccak256 code
      · subst hkey
        rw [Function.update_self] at hupdate
        cases hupdate
        exact .inr hanalysis
      · rw [Function.update_of_ne hkey] at hupdate
        exact .inl hupdate

/-- A load caches and records, nothing else. -/
theorem kAload_footprint {a : Address} {acc : Account} {h h' : Host}
    (hh : (kAload env a).run h = .ok (acc, h')) : @Footprint env h h' := by
  have hnext := Quiet.next _ _ _ hh
  simp only [kAload] at hh
  split at hh
  · cases hh
    exact .refl h
  · split at hh
    · cases hh
      exact .of_eq rfl rfl rfl rfl
    · obtain ⟨acc', -, hh⟩ := bind_eq_ok.mp hh
      cases hh
      have hcache : ∀ g : Host, (acctBlockCache a acc g).state.effects = g.state.effects ∧
          (acctBlockCache a acc g).state.codes = g.state.codes := by
        intro g
        rw [acctBlockCache]
        split
        · exact ⟨rfl, rfl⟩
        · exact ⟨rfl, rfl⟩
      obtain ⟨heffects, hcodes⟩ := hcache (balNote (.accountTouch a) h)
      exact .of_eq (congrArg Effects.storage heffects) (congrArg Effects.generation heffects)
        hnext hcodes

theorem evolving_of_footprint {α : Type} {x : Kept (Changes env) Halt α}
    (hx : ∀ h a h', x.run h = .ok (a, h') → @Footprint env h h') : @Evolving env _ _ x :=
  ⟨fun h a h' hrun => (x.keeps _ _ _ hrun).evolves (hx h a h' hrun)⟩

theorem evolving_onAccount {a : Address} {f : Account → Host → Result Host}
    {hf : ∀ acc h h', (view env h.state).readAccount a = .ok acc → f acc h = .ok h' →
      Changes env h h'}
    (hfoot : ∀ acc h h', f acc h = .ok h' → @Footprint env h h') :
    @Evolving env _ _ (onAccount env a f hf) := by
  refine evolving_of_footprint fun h u h' hh => ?_
  obtain ⟨r, hload, hh⟩ := bind_eq_ok.mp hh
  obtain ⟨h₂, hstore, hh⟩ := bind_eq_ok.mp hh
  cases hh
  exact (kAload_footprint hload).trans (hfoot r.1 r.2 h' hstore)

theorem evolving_updateInfo (a : Address) (f : AccountInfo → Result (Option AccountInfo)) :
    @Evolving env _ _ (updateInfo env a f) := by
  refine evolving_onAccount fun acc h h' hh => ?_
  obtain ⟨info, -, hh⟩ := bind_eq_ok.mp hh
  cases info with
  | none =>
    cases hh
    exact .refl h
  | some info => exact storeAccountInfo_footprint hh

instance (a : Address) (v : Word) : @Evolving env _ _ (kAddBalance env a v) :=
  evolving_updateInfo a _

instance (a : Address) (v : Word) : @Evolving env _ _ (kSubBalance env a v) :=
  evolving_updateInfo a _

instance (a : Address) : @Evolving env _ _ (kBumpNonce env a) := evolving_updateInfo a _

instance (a : Address) : @Evolving env _ _ (kZeroBalance env a) := evolving_updateInfo a _

theorem evolving_updateFlags (a : Address) (f : Account → Option Account)
    (hf : ∀ acc acc', f acc = some acc' → acc'.info = acc.info ∧
      acc'.storageCleared = acc.storageCleared) :
    @Evolving env _ _ (updateFlags env a f hf) := by
  refine evolving_onAccount fun acc h h' hh => ?_
  split at hh
  · cases hh
    exact .refl h
  · next acc' _ =>
    cases hh
    exact acctTxWrite_footprint a (fun _ => acc') h

instance (a : Address) : @Evolving env _ _ (kSelfdestruct env a) := evolving_updateFlags a _ _

instance (a : Address) : @Evolving env _ _ (kMarkCreated env a) := evolving_updateFlags a _ _

instance (a : Address) : @Evolving env _ _ (kClearStorage env a) := by
  refine evolving_onAccount fun acc h h' hh => ?_
  obtain ⟨h₁, hclear, hh⟩ := bind_eq_ok.mp hh
  cases hh
  exact (storageTxClear_footprint hclear).trans
    (acctTxWrite_footprint a (fun _ => accountClearStorage acc) h₁)

instance (code : List Byte) : @Evolving env _ _ (kInternCode env code) :=
  evolving_of_footprint fun _ _ _ hh => codeDbInsert_footprint hh

theorem evolving_bindCode (a : Address) (code : List Byte) :
    @Evolving env _ _ (bindCode env a code) := by
  unfold bindCode
  refine evolving_onAccount fun acc h h' hh => ?_
  obtain ⟨r, hinsert, hh⟩ := bind_eq_ok.mp hh
  exact (codeDbInsert_footprint hinsert).trans (storeAccountInfo_footprint hh)

instance (a : Address) (code : List Byte) : @Evolving env _ _ (kDeployCode env a code) :=
  evolving_bindCode a code

instance (a target : Address) : @Evolving env _ _ (kSetDelegation env a target) where
  evolves h u h' hh := by
    obtain ⟨code, -, hh⟩ := run_query_bind_eq_ok.mp hh
    exact (evolving_bindCode a code).evolves h u h' hh

instance (a : Address) : @Evolving env _ _ (kClearCode env a) := evolving_updateInfo a _

theorem kLog_footprint {a : Address} {topics : List Word} {data : List Byte} {h h' : Host}
    {u : Unit} (hh : (kLog env a topics data).run h = .ok (u, h')) : @Footprint env h h' := by
  cases hh
  exact .of_eq rfl rfl rfl rfl

instance (a : Address) (topics : List Word) (data : List Byte) :
    @Evolving env _ _ (kLog env a topics data) :=
  evolving_of_footprint fun _ _ _ hh => kLog_footprint hh

instance (a : Address) (slot value : Word) : @Evolving env _ _ (kTstore env a slot value) := by
  refine evolving_of_footprint fun h u h' hh => ?_
  cases hh
  exact .of_eq rfl rfl rfl rfl

theorem kEmitTransferLog_footprint {src dst : Address} {v : Word} {h h' : Host} {u : Unit}
    (hh : (kEmitTransferLog env src dst v).run h = .ok (u, h')) : @Footprint env h h' := by
  rw [kEmitTransferLog] at hh
  split at hh
  · cases hh
    exact .refl h
  · exact kLog_footprint hh

instance (src dst : Address) (v : Word) : @Evolving env _ _ (kTransfer env src dst v) := by
  refine evolving_of_footprint fun h u h' hh => ?_
  obtain ⟨srcAcc, hsrc, hh⟩ := bind_eq_ok.mp hh
  obtain ⟨dstAcc, hdst, hh⟩ := bind_eq_ok.mp hh
  refine (kAload_footprint hsrc).trans ((kAload_footprint hdst).trans ?_)
  split at hh
  · cases hh
    exact .refl _
  · obtain ⟨h₁, hstore₁, hh⟩ := bind_eq_ok.mp hh
    obtain ⟨h₂, hstore₂, hh⟩ := bind_eq_ok.mp hh
    exact (storeAccountInfo_footprint hstore₁).trans
      ((storeAccountInfo_footprint hstore₂).trans (kEmitTransferLog_footprint hh))

/-! ## Stores to a slot -/

/-- What the transaction knows of a slot, or that it has not changed it. -/
def SlotReads (e : Effects) (key : StorageKey) (v : StorageValue) : Prop :=
  Holds e key v ∨ (∀ w, ¬Holds e key w) ∧ v.curr = v.orig

theorem storageTxGet_cases (s : State) (key : StorageKey) :
    (∃ v, Holds s.effects key v ∧ storageTxGet s key = .hit v) ∨
    (∀ v, ¬Holds s.effects key v) ∧
      (storageTxGet s key = .cleared ∨ storageTxGet s key = .miss) := by
  have hmiss : ∀ x, (if storageActiveGeneration s key.addr ≠ initialGeneration then
      StorageTxLookup.cleared else .miss) = x → x = .cleared ∨ x = .miss := by
    rintro x rfl
    split
    · exact .inl rfl
    · exact .inr rfl
  cases hrow : s.effects.storage key with
  | none =>
    simp only [storageTxGet, hrow]
    refine .inr ⟨fun v hv => ?_, hmiss _ rfl⟩
    obtain ⟨row, hrow', -⟩ := hv
    rw [hrow] at hrow'
    cases hrow'
  | some row =>
    by_cases hgen : row.generation = storageActiveGeneration s key.addr
    · simp only [storageTxGet, hrow, if_pos hgen]
      exact .inl ⟨row.value, ⟨row, hrow, hgen, rfl⟩, rfl⟩
    · simp only [storageTxGet, hrow, if_neg hgen]
      refine .inr ⟨fun v hv => ?_, hmiss _ rfl⟩
      obtain ⟨row', hrow', hgen', -⟩ := hv
      rw [hrow] at hrow'
      cases hrow'
      exact hgen hgen'

theorem loadSlot_slotReads {key : StorageKey} {v : StorageValue} {h h' : Host}
    (hh : loadSlot env key h = .ok (v, h')) : SlotReads h.state.effects key v := by
  rw [loadSlot] at hh
  rcases storageTxGet_cases h.state key with ⟨w, hw, hget⟩ | ⟨hnone, hget | hget⟩
  · simp only [hget] at hh
    cases hh
    exact .inl hw
  · simp only [hget] at hh
    cases hh
    exact .inr ⟨hnone, rfl⟩
  · simp only [hget] at hh
    refine .inr ⟨hnone, ?_⟩
    split at hh
    · cases hh
      rfl
    · obtain ⟨r, -, hh⟩ := bind_eq_ok.mp hh
      obtain ⟨w, -, hh⟩ := bind_eq_ok.mp hh
      cases hh
      rfl

/-- A slot whose value differs from that before the transaction has been
written. -/
theorem SlotReads.holds {e : Effects} {key : StorageKey} {v : StorageValue}
    (h : SlotReads e key v) (hne : v.curr ≠ v.orig) : Holds e key v := by
  rcases h with hv | ⟨-, hsame⟩
  · exact hv
  · exact absurd hsame hne

/-- A store keeps the original value that was read. -/
theorem storageTxUpdate_storage {key : StorageKey} {v : StorageValue} (w : Word) {h : Host}
    (hv : SlotReads h.state.effects key v) :
    (storageTxUpdate key { curr := w, orig := v.orig } h).state.effects.storage =
      Function.update h.state.effects.storage key
        (some { generation := h.state.effects.generation key.addr
                value := { curr := w, orig := v.orig } }) := by
  simp only [storageTxUpdate, Host.push]
  rcases hv with ⟨row, hrow, hactive, rfl⟩ | ⟨hnone, -⟩
  · have hactive' : row.generation = storageActiveGeneration h.state key.addr := hactive
    simp only [hrow, if_pos hactive']
    rfl
  · cases hrow : h.state.effects.storage key with
    | none => rfl
    | some row =>
      have hne : ¬ row.generation = storageActiveGeneration h.state key.addr := fun hgen =>
        hnone row.value ⟨row, hrow, hgen, rfl⟩
      simp only [if_neg hne]
      rfl

/-- A store writes its own slot and no other. -/
theorem storageTxUpdate_holds {key k : StorageKey} {v u : StorageValue} {w : Word} {h : Host}
    (hv : SlotReads h.state.effects key v)
    (hk : Holds (storageTxUpdate key { curr := w, orig := v.orig } h).state.effects k u) :
    k ≠ key ∧ Holds h.state.effects k u ∨ k = key ∧ u = { curr := w, orig := v.orig } := by
  obtain ⟨row, hrow, hgen, hvalue⟩ := hk
  rw [storageTxUpdate_storage w hv] at hrow
  by_cases hkey : k = key
  · subst hkey
    rw [Function.update_self] at hrow
    cases hrow
    exact .inr ⟨rfl, hvalue.symm⟩
  · rw [Function.update_of_ne hkey] at hrow
    exact .inl ⟨hkey, row, hrow, hgen, hvalue⟩

theorem storageTxUpdate_advanced (key : StorageKey) (value : StorageValue) {h : Host}
    (hc : Coherent env h.state) : Advanced env h (storageTxUpdate key value h) := by
  obtain ⟨hsound, htracks, hcodes⟩ := storageTxUpdate_changes key value h hc.sound
  refine ⟨⟨hsound, ⟨hc.numbered.accounts, fun k row hrow => ?_⟩, hc.analyzed⟩, htracks, hcodes,
    Nat.le_refl _⟩
  simp only [storageTxUpdate, Host.push] at hrow
  by_cases hk : k = key
  · subst hk
    rw [Function.update_self] at hrow
    cases hrow
    exact hc.numbered.accounts k.addr
  · rw [Function.update_of_ne hk] at hrow
    exact hc.numbered.rows k row hrow

/-! ## Frames -/

/-- A replay leaves the code store and the generation counter alone. -/
theorem replay_keeps {n : Nat} {j : List (Record Entry)} {s : State} {h' : Host}
    (hh : replay restore .guestAbort n j s = .ok h') :
    h'.state.codes = s.codes ∧ h'.state.nextGeneration = s.nextGeneration := by
  have hrestore : ∀ e s s', restore e s = .ok s' →
      s'.codes = s.codes ∧ s'.nextGeneration = s.nextGeneration := by
    intro e s s' hs
    cases e with
    | warmSlot key =>
      simp only [restore] at hs
      split at hs
      · cases hs
        exact ⟨rfl, rfl⟩
      · cases hs
    | log =>
      simp only [restore] at hs
      split at hs
      · cases hs
      · cases hs
        exact ⟨rfl, rfl⟩
    | account a prior =>
      cases hs
      exact ⟨rfl, rfl⟩
    | storageWrite key prior =>
      cases hs
      exact ⟨rfl, rfl⟩
    | storageClear a prior =>
      cases hs
      exact ⟨rfl, rfl⟩
    | transient a slot prior =>
      cases hs
      exact ⟨rfl, rfl⟩
    | warmAccount a =>
      cases hs
      exact ⟨rfl, rfl⟩
  induction j generalizing n s with
  | nil => cases hh
  | cons r j ih =>
    cases r with
    | change e =>
      simp only [replay] at hh
      obtain ⟨s₁, hs₁, hh⟩ := bind_eq_ok.mp hh
      obtain ⟨hcodes, hnext⟩ := hrestore e s s₁ hs₁
      obtain ⟨hcodes', hnext'⟩ := ih hh
      exact ⟨hcodes'.trans hcodes, hnext'.trans hnext⟩
    | checkpointed =>
      cases n with
      | zero =>
        cases hh
        exact ⟨rfl, rfl⟩
      | succ n => exact ih hh
    | committed =>
      simp only [replay] at hh
      exact ih hh

section

variable {h h₁ h₂ h' : Host}

/-- What a frame has done since its checkpoint can be reverted, and then
the view is that of the checkpoint. -/
theorem revert_advanced (hc : Coherent env h.state)
    (hcheckpoint : stateJournalCheckpoint h = .ok h₁)
    (hframe : Advanced env h₁ h₂) :
    ∃ h', stateJournalRevert h₂ = .ok h' ∧ Advanced env h h' ∧
      view env h'.state = view env h.state ∧ h'.state.codes = h₂.state.codes := by
  have hstate : h₁.state = h.state := by
    cases hcheckpoint
    rfl
  obtain ⟨h', hrevert, hview, hjournal, -⟩ := revert_exact (R := kernelRollback) hcheckpoint
    hframe.tracks
  obtain ⟨hcodes, hnext⟩ := replay_keeps hrevert
  have hview' : view env h'.state = view env h.state := hview
  have heffects : h'.state.effects = h.state.effects := congrArg View.effects hview'
  have hle : h.state.nextGeneration.val ≤ h'.state.nextGeneration.val := by
    rw [hnext, ← hstate]
    exact hframe.next
  refine ⟨h', hrevert, ⟨⟨hview' ▸ hc.sound, ?_, ?_⟩, .of_view_eq hjournal hview' fun _ _ => trivial,
    ?_, hle⟩, hview', hcodes⟩
  · rw [heffects]
    exact hc.numbered.mono hle
  · rw [hcodes]
    exact hframe.coherent.analyzed
  · intro hash code hcode
    rw [hcodes]
    exact hframe.codes hash code (hstate ▸ hcode)

/-- A committed frame is part of what its parent has done. -/
theorem commit_advanced (hcheckpoint : stateJournalCheckpoint h = .ok h₁)
    (hframe : Advanced env h₁ h₂) (hcommit : stateJournalCommit h₂ = .ok h') :
    h'.state = h₂.state ∧ Advanced env h h' := by
  have hstate : h₁.state = h.state := by
    cases hcheckpoint
    rfl
  have hstate' : h'.state = h₂.state := by
    rw [kernelRollback.commit_ok h₂ h' hcommit]
    rfl
  refine ⟨hstate', hstate' ▸ hframe.coherent,
    commit_tracks (R := kernelRollback) hcheckpoint hframe.tracks hcommit, ?_, ?_⟩
  · intro hash code hcode
    rw [hstate']
    exact hframe.codes hash code (hstate ▸ hcode)
  · rw [hstate', ← hstate]
    exact hframe.next

end

end

end EvmSail.Kernel
