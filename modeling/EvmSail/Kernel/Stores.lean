/-
# `EvmSail.Kernel.Stores` — the host's stores, and what they may change

The operations of the stores on a `Host`, and the three preorders that say
how far a kernel program may go:

  * `Reads` — the view, the journal and the code store stay as they are
    (caches and the access-list recorder may grow);
  * `Marks` — besides, addresses and slots may become warm;
  * `Changes` — anything, so long as the journal can take it back.

Each is conditional on the state being `Sound`: a row of the transaction
holds what the account was before it, and says that the storage was
cleared only together with a fresh storage generation.  Reads rely on it
when they cache what a slot holds.
-/
import EvmSail.Kernel.State

namespace EvmSail.Kernel

open Fallible Journal Kept

/-! ## Soundness -/

/-- What a row of the transaction says of its account before the
transaction. -/
structure SoundRow (v : View) (a : Address) (r : AcctValue) : Prop where
  orig : v.account a = .ok r.orig
  root : r.curr.info.storageRoot = r.orig.info.storageRoot
  cleared : v.effects.generation a = initialGeneration →
    r.curr.storageCleared = r.orig.storageCleared

/-- Every row of the transaction is sound. -/
def Sound (v : View) : Prop := ∀ a r, v.effects.accounts a = some r → SoundRow v a r

theorem sound_noEffects (v : View) (logs : List LogRecord) (h : v.effects = noEffects logs) :
    Sound v := by
  intro a r hr
  rw [h] at hr
  cases hr

/-! ## The preorders -/

section

variable (env : Env)

/-- Neither the view nor the journal nor the code store is touched. -/
structure SameView (h h' : Host) : Prop where
  view : Kernel.view env h'.state = Kernel.view env h.state
  journal : h'.journal = h.journal
  codes : h'.state.codes = h.state.codes

/-- Nothing but warmth differs. -/
structure SameWorld (h h' : Host) : Prop where
  effects : h'.state.effects = h.state.effects
  account : blockAccount env h'.state = blockAccount env h.state
  slot : blockSlot env h'.state = blockSlot env h.state
  codes : h'.state.codes = h.state.codes

def Reads (h h' : Host) : Prop := Sound (view env h.state) → SameView env h h'

/-- The journal takes back what changed; stored code stays stored. -/
structure Changed (h h' : Host) : Prop where
  sound : Sound (Kernel.view env h'.state)
  tracks : Tracks (kernelInverse env) h h'
  codes : ∀ hash code, h.state.codes hash = some code → h'.state.codes hash = some code

def Changes (h h' : Host) : Prop := Sound (view env h.state) → Changed env h h'

/-- A change that only marks what is warm. -/
def Marks (h h' : Host) : Prop :=
  Changes env h h' ∧ (Sound (view env h.state) → SameWorld env h h')

variable {env}

theorem SameWorld.refl (h : Host) : SameWorld env h h := ⟨rfl, rfl, rfl, rfl⟩

theorem SameWorld.trans {h h' h'' : Host} (h₁ : SameWorld env h h') (h₂ : SameWorld env h' h'') :
    SameWorld env h h'' :=
  ⟨h₂.effects.trans h₁.effects, h₂.account.trans h₁.account, h₂.slot.trans h₁.slot,
    h₂.codes.trans h₁.codes⟩

theorem SameView.sameWorld {h h' : Host} (hv : SameView env h h') : SameWorld env h h' :=
  ⟨congrArg View.effects hv.view, congrArg View.account hv.view, congrArg View.slot hv.view,
    hv.codes⟩

instance : IsPreorder Host (Reads env) where
  refl _ _ := ⟨rfl, rfl, rfl⟩
  trans h h' h'' h₁ h₂ hs := by
    have hv₁ := h₁ hs
    have hv₂ := h₂ (hv₁.view.symm ▸ hs)
    exact ⟨hv₂.view.trans hv₁.view, hv₂.journal.trans hv₁.journal, hv₂.codes.trans hv₁.codes⟩

instance : IsPreorder Host (Changes env) where
  refl h hs := ⟨hs, .refl h, fun _ _ hcode => hcode⟩
  trans h h' h'' h₁ h₂ hs := by
    obtain ⟨hs', ht₁, hcodes₁⟩ := h₁ hs
    obtain ⟨hs'', ht₂, hcodes₂⟩ := h₂ hs'
    exact ⟨hs'', ht₁.trans ht₂, fun hash code hcode => hcodes₂ hash code (hcodes₁ hash code hcode)⟩

instance : IsPreorder Host (Marks env) where
  refl h := ⟨Std.Refl.refl (r := Changes env) h, fun _ => .refl h⟩
  trans h h' h'' h₁ h₂ :=
    ⟨IsTrans.trans (r := Changes env) h h' h'' h₁.1 h₂.1,
      fun hs => (h₁.2 hs).trans (h₂.2 (h₁.1 hs).sound)⟩

theorem Reads.changes {h h' : Host} (hr : Reads env h h') : Changes env h h' := by
  intro hs
  obtain ⟨hv, hj, hcodes⟩ := hr hs
  exact ⟨hv.symm ▸ hs, .of_view_eq hj hv fun _ _ => trivial,
    fun hash code hcode => by rw [hcodes, hcode]⟩

theorem Reads.marks {h h' : Host} (hr : Reads env h h') : Marks env h h' :=
  ⟨hr.changes, fun hs => (hr hs).sameWorld⟩

instance : Finer (Reads env) (Marks env) := ⟨fun _ _ => Reads.marks⟩

instance : Finer (Reads env) (Changes env) := ⟨fun _ _ => Reads.changes⟩

instance : Finer (Marks env) (Changes env) := ⟨fun _ _ h => h.1⟩

/-- One journaled change of the view. -/
theorem changes_push {h : Host} {e : Entry} {s : State}
    (hundo : undo e (view env s) = some (view env h.state))
    (hcodes : s.codes = h.state.codes)
    (hsound : Sound (view env h.state) → Sound (view env s)) : Changes env h (h.push e s) :=
  fun hs => ⟨hsound hs, .change rfl hundo trivial fun _ _ => trivial,
    fun hash code hcode => by rw [Host.push, hcodes, hcode]⟩

/-- A change of what neither the view nor the code store contains. -/
theorem reads_put {h : Host} {s : State} (hview : view env s = view env h.state)
    (hcodes : s.codes = h.state.codes) : Reads env h (h.put s) :=
  fun _ => ⟨hview, rfl, hcodes⟩

end

/-! ## The recorder -/

def balNote (e : BalEvent) (h : Host) : Host := h.put { h.state with bal := e :: h.state.bal }

theorem balNote_reads {env : Env} (e : BalEvent) (h : Host) : Reads env h (balNote e h) :=
  reads_put rfl rfl

/-! ## Account rows -/

/-- The row a write to `a` goes to: the transaction's, or a fresh one over
the block's. -/
def acctTxRow (s : State) (a : Address) : Option AcctValue :=
  match s.effects.accounts a with
  | some r => some r
  | none => (s.block.accounts a).map fun b => { curr := b.curr, orig := b.curr }

def acctTxList (rows : List Address) (a : Address) : List Address :=
  if a ∈ rows then rows else a :: rows

/-- The state with a row for `a`. -/
def State.setAccountRow (s : State) (a : Address) (r : AcctValue) : State :=
  { s with
    effects := { s.effects with accounts := Function.update s.effects.accounts a (some r) }
    acctTxRows := acctTxList s.acctTxRows a }

/-- Rewrites the row of `a`, which `k_aload` has established. -/
def acctTxWrite (a : Address) (f : Account → Account) (h : Host) : Host :=
  match acctTxRow h.state a with
  | none => h
  | some r =>
    h.push (.account a (h.state.effects.accounts a))
      (h.state.setAccountRow a { curr := f r.curr, orig := r.orig })

/-- `acct_tx_update`. -/
def acctTxUpdate (a : Address) (v : Account) (h : Host) : Host := acctTxWrite a (fun _ => v) h

/-- The one-field fast paths: a value that is there already is not written. -/
def acctTxSetField (a : Address) (f : Account → Account) (h : Host) : Host :=
  match acctTxRow h.state a with
  | none => h
  | some r =>
    if f r.curr = r.curr then
      h.put { h.state with acctTxRows := acctTxList h.state.acctTxRows a }
    else
      acctTxWrite a f h

def Account.withBalance (balance : Word) (acc : Account) : Account :=
  { acc with info := { acc.info with balance := balance } }

def Account.withNonce (nonce : Nat) (acc : Account) : Account :=
  { acc with info := { acc.info with nonce := nonce } }

def Account.withCodeHash (codeHash : Hash) (acc : Account) : Account :=
  { acc with info := { acc.info with codeHash := codeHash } }

def acctTxSetBalance (a : Address) (balance : Word) : Host → Host :=
  acctTxSetField a (Account.withBalance balance)

def acctTxSetNonce (a : Address) (nonce : Nat) : Host → Host :=
  acctTxSetField a (Account.withNonce nonce)

def acctTxSetCodeHash (a : Address) (codeHash : Hash) : Host → Host :=
  acctTxSetField a (Account.withCodeHash codeHash)

/-- The state with `acc` in the block's row of `a`. -/
def State.cacheAccount (s : State) (a : Address) (acc : Account) : State :=
  { s with
    block :=
      { s.block with
        accounts := Function.update s.block.accounts a (some { curr := acc, orig := acc }) } }

/-- Caches an account of the parent state; an existing row stays. -/
def acctBlockCache (a : Address) (acc : Account) (h : Host) : Host :=
  match h.state.block.accounts a with
  | some _ => h
  | none => h.put (h.state.cacheAccount a acc)

section

variable {env : Env}

theorem acctTxRow_sound {s : State} (hs : Sound (view env s)) {a : Address} {r : AcctValue}
    (hr : acctTxRow s a = some r) : SoundRow (view env s) a r := by
  rw [acctTxRow] at hr
  cases hrow : s.effects.accounts a with
  | some r' =>
    rw [hrow] at hr
    cases hr
    exact hs a r hrow
  | none =>
    rw [hrow] at hr
    obtain ⟨b, hb, rfl⟩ := Option.map_eq_some_iff.mp hr
    refine ⟨?_, rfl, fun _ => rfl⟩
    show blockAccount env s a = .ok b.curr
    rw [blockAccount, hb]

/-- A write keeps the rows sound when it keeps the storage root, and marks
storage as cleared only in a fresh generation. -/
theorem acctTxWrite_changes {a : Address} {f : Account → Account} {h : Host}
    (hf : ∀ r, acctTxRow h.state a = some r →
      (f r.curr).info.storageRoot = r.curr.info.storageRoot ∧
        (h.state.effects.generation a = initialGeneration →
          (f r.curr).storageCleared = r.curr.storageCleared)) :
    Changes env h (acctTxWrite a f h) := by
  rw [acctTxWrite]
  split
  · exact Std.Refl.refl (r := Changes env) h
  · next r hr =>
    obtain ⟨hroot, hcleared⟩ := hf r hr
    refine changes_push ?_ rfl ?_
    · simp only [undo, view, State.setAccountRow, Function.update_idem, Function.update_eq_self]
      rfl
    · intro hs b r' hr'
      have hrow := acctTxRow_sound hs hr
      have hupdate : Function.update h.state.effects.accounts a
          (some { curr := f r.curr, orig := r.orig }) b = some r' := hr'
      by_cases hb : b = a
      · subst hb
        rw [Function.update_self] at hupdate
        cases hupdate
        exact ⟨hrow.orig, hroot.trans hrow.root,
          fun hgen => (hcleared hgen).trans (hrow.cleared hgen)⟩
      · rw [Function.update_of_ne hb] at hupdate
        obtain ⟨horig, hroot', hcleared'⟩ := hs b r' hupdate
        exact ⟨horig, hroot', hcleared'⟩

theorem acctTxSetField_changes {a : Address} {f : Account → Account} {h : Host}
    (hf : ∀ acc, (f acc).info.storageRoot = acc.info.storageRoot ∧
      (f acc).storageCleared = acc.storageCleared) :
    Changes env h (acctTxSetField a f h) := by
  rw [acctTxSetField]
  split
  · exact Std.Refl.refl (r := Changes env) h
  · next r hr =>
    split
    · refine (reads_put ?_ ?_).changes
      · rfl
      · rfl
    · exact acctTxWrite_changes fun r' _ => ⟨(hf r'.curr).1, fun _ => (hf r'.curr).2⟩

/-- Caching what a read of the parent state returns is not seen. -/
theorem acctBlockCache_reads {a : Address} {acc : Account} {h : Host}
    (hacc : blockAccount env h.state a = .ok acc) : Reads env h (acctBlockCache a acc h) := by
  rw [acctBlockCache]
  split
  · exact Std.Refl.refl (r := Reads env) h
  · refine reads_put ?_ rfl
    have haccount : ∀ b, blockAccount env (h.state.cacheAccount a acc) b =
        blockAccount env h.state b := by
      intro b
      by_cases hb : b = a
      · subst hb
        rw [hacc]
        simp only [blockAccount, State.cacheAccount, Function.update_self]
      · simp only [blockAccount, State.cacheAccount, Function.update_of_ne hb]
    have hslot : ∀ key, blockSlot env (h.state.cacheAccount a acc) key =
        blockSlot env h.state key := by
      intro key
      simp only [blockSlot, haccount]
      rfl
    rw [view, funext haccount, funext hslot]
    rfl

end

/-! ## Storage rows -/

def storageActiveGeneration (s : State) (a : Address) : Nat := s.effects.generation a

/-- Starts a fresh storage generation of `a`. -/
def storageTxClear (a : Address) (h : Host) : Result Host :=
  let s := h.state
  if s.nextGeneration.val = 2 ^ 64 - 1 then .error .guestAbort
  else
    let next := s.nextGeneration.val + 1
    .ok
      (h.push (.storageClear a (storageActiveGeneration s a))
        { s with
          effects := { s.effects with generation := Function.update s.effects.generation a next }
          nextGeneration := ⟨next, Nat.le_succ_of_le s.nextGeneration.property⟩ })

/-- What the transaction's storage knows of a slot. -/
def storageTxGet (s : State) (key : StorageKey) : StorageTxLookup :=
  let generation := storageActiveGeneration s key.addr
  match s.effects.storage key with
  | some row =>
    if row.generation = generation then .hit row.value
    else if generation ≠ initialGeneration then .cleared else .miss
  | none => if generation ≠ initialGeneration then .cleared else .miss

/-- `storage_tx_update`: the first write of a generation fixes the
original value. -/
def storageTxUpdate (key : StorageKey) (value : StorageValue) (h : Host) : Host :=
  let s := h.state
  let generation := storageActiveGeneration s key.addr
  let orig :=
    match s.effects.storage key with
    | some row => if row.generation = generation then row.value.orig else value.orig
    | none => value.orig
  h.push (.storageWrite key (s.effects.storage key))
    { s with
      effects :=
        { s.effects with
          storage :=
            Function.update s.effects.storage key
              (some { generation := generation, value := { curr := value.curr, orig := orig } }) }
      storageTxRows :=
        if key ∈ s.storageTxRows then s.storageTxRows else key :: s.storageTxRows }

/-- Whether the transaction or, under the initial generation, the block
left a nonzero value in the storage of `a`. -/
def storageHasWrites (s : State) (a : Address) : Bool :=
  let generation := storageActiveGeneration s a
  let txWrite := s.storageTxRows.any fun key =>
    key.addr == a &&
      match s.effects.storage key with
      | some row => row.generation == generation && row.value.curr != 0
      | none => false
  let blockWrite := s.block.storageRows.any fun key =>
    key.addr == a &&
      match s.block.storage key with
      | some v => v.curr != 0
      | none => false
  if txWrite then true
  else if generation ≠ initialGeneration then false
  else blockWrite

/-- The state with `value` in the block's row of `key`. -/
def State.cacheSlot (s : State) (key : StorageKey) (value : Word) : State :=
  { s with
    block :=
      { s.block with
        storage := Function.update s.block.storage key (some { curr := value, orig := value })
        storageRows := key :: s.block.storageRows } }

/-- Caches a value of the parent state; an existing row stays. -/
def storageBlockCache (key : StorageKey) (value : Word) (h : Host) : Host :=
  match h.state.block.storage key with
  | some _ => h
  | none => h.put (h.state.cacheSlot key value)

section

variable {env : Env}

/-- A fresh generation is not the initial one. -/
theorem storageTxClear_changes {a : Address} {h h' : Host} (hh : storageTxClear a h = .ok h') :
    Changes env h h' ∧ h'.state.effects.generation a ≠ initialGeneration ∧
      h'.state.effects.accounts = h.state.effects.accounts ∧
      h'.state.block = h.state.block := by
  simp only [storageTxClear] at hh
  split at hh
  · cases hh
  · cases hh
    refine ⟨changes_push ?_ rfl ?_, ?_, rfl, rfl⟩
    · simp only [undo, view, Function.update_idem, storageActiveGeneration,
        Function.update_eq_self]
      rfl
    · intro hs b r hr
      obtain ⟨horig, hroot, hcleared⟩ := hs b r hr
      refine ⟨horig, hroot, fun hgen => hcleared ?_⟩
      by_cases hb : b = a
      · subst hb
        simp only [view, Function.update_self] at hgen
        have := h.state.nextGeneration.property
        omega
      · simpa only [view, Function.update_of_ne hb] using hgen
    · show Function.update h.state.effects.generation a (h.state.nextGeneration.val + 1) a ≠ _
      rw [Function.update_self]
      have := h.state.nextGeneration.property
      omega

theorem storageTxUpdate_changes (key : StorageKey) (value : StorageValue) (h : Host) :
    Changes env h (storageTxUpdate key value h) := by
  refine changes_push ?_ rfl ?_
  · simp only [undo, view, Function.update_idem, Function.update_eq_self]
    rfl
  · intro hs b r hr
    obtain ⟨horig, hroot, hcleared⟩ := hs b r hr
    exact ⟨horig, hroot, hcleared⟩

/-- Caching what a read of the parent state returns is not seen. -/
theorem storageBlockCache_reads {key : StorageKey} {value : Word} {h : Host}
    (hvalue : blockSlot env h.state key = .ok value) :
    Reads env h (storageBlockCache key value h) := by
  rw [storageBlockCache]
  split
  · exact Std.Refl.refl (r := Reads env) h
  · refine reads_put ?_ rfl
    have hslot : ∀ key', blockSlot env (h.state.cacheSlot key value) key' =
        blockSlot env h.state key' := by
      intro key'
      by_cases hkey : key' = key
      · subst hkey
        rw [hvalue]
        simp only [blockSlot, State.cacheSlot, Function.update_self]
      · simp only [blockSlot, State.cacheSlot, Function.update_of_ne hkey]
        rfl
    rw [view, funext hslot]
    rfl

end

/-! ## Transient storage, warm sets, logs -/

def transientStore (a : Address) (slot value : Word) (h : Host) : Host :=
  let s := h.state
  h.push (.transient a slot (s.effects.transient a slot))
    { s with
      effects :=
        { s.effects with
          transient :=
            Function.update s.effects.transient a
              (Function.update (s.effects.transient a) slot value) } }

def accountMarkWarm (a : Address) (h : Host) : Host :=
  let s := h.state
  if s.warm.accounts a then h
  else
    h.push (.warmAccount a)
      { s with warm := { s.warm with accounts := Function.update s.warm.accounts a true } }

def storageMarkWarm (key : StorageKey) (h : Host) : Host :=
  let s := h.state
  if s.warm.slots key then h
  else
    h.push (.warmSlot key)
      { s with warm := { s.warm with slots := Function.update s.warm.slots key true } }

/-- Appends a log record. -/
def logAppend (r : LogRecord) (h : Host) : Host :=
  let s := h.state
  h.push .log { s with effects := { s.effects with logs := r :: s.effects.logs } }

section

variable {env : Env}

theorem transientStore_changes (a : Address) (slot value : Word) (h : Host) :
    Changes env h (transientStore a slot value h) := by
  refine changes_push ?_ rfl ?_
  · simp only [undo, view, Function.update_idem, Function.update_self, Function.update_eq_self]
    rfl
  · intro hs b r hr
    obtain ⟨horig, hroot, hcleared⟩ := hs b r hr
    exact ⟨horig, hroot, hcleared⟩

theorem logAppend_changes (r : LogRecord) (h : Host) : Changes env h (logAppend r h) := by
  refine changes_push rfl rfl ?_
  intro hs b r' hr'
  obtain ⟨horig, hroot, hcleared⟩ := hs b r' hr'
  exact ⟨horig, hroot, hcleared⟩

theorem accountMarkWarm_marks (a : Address) (h : Host) : Marks env h (accountMarkWarm a h) := by
  simp only [accountMarkWarm]
  split
  · exact Std.Refl.refl (r := Marks env) h
  · next hcold =>
    refine ⟨changes_push ?_ rfl ?_, fun _ => ⟨rfl, rfl, rfl, rfl⟩⟩
    · have hfalse : false = h.state.warm.accounts a := by simpa using hcold
      simp only [undo, view, Function.update_idem]
      rw [hfalse, Function.update_eq_self]
      rfl
    · intro hs b r hr
      obtain ⟨horig, hroot, hcleared⟩ := hs b r hr
      exact ⟨horig, hroot, hcleared⟩

theorem storageMarkWarm_marks (key : StorageKey) (h : Host) :
    Marks env h (storageMarkWarm key h) := by
  simp only [storageMarkWarm]
  split
  · exact Std.Refl.refl (r := Marks env) h
  · next hcold =>
    refine ⟨changes_push ?_ rfl ?_, fun _ => ⟨rfl, rfl, rfl, rfl⟩⟩
    · have hfalse : false = h.state.warm.slots key := by simpa using hcold
      simp only [undo, view, Function.update_idem, Function.update_self, if_pos]
      rw [hfalse, Function.update_eq_self]
      rfl
    · intro hs b r hr
      obtain ⟨horig, hroot, hcleared⟩ := hs b r hr
      exact ⟨horig, hroot, hcleared⟩

end

end EvmSail.Kernel
