/-
# `EvmSail.Optimised.Rollback` — reverting a frame restores what reads return

Fifteen kinds of inverse record are replayed through the account, storage,
transient and log tables.  `Sound` is the invariant that makes the replay
exact.  A row that no transaction holds has no flags, no worklist and the
epoch zero.  The storage rows that an account has listed are distinct,
active and of its own interval, so the interval has room for one more.

Every operation of the host covers its own change (`HostOp.step_kept`),
every reachable host is sound (`Reachable.sound`), and
`stateJournal_exact` puts the two together.
-/
import EvmSail.Optimised.HostView

namespace EvmSail.Optimised

open Fallible Journal

/-! ## The invariant -/

/-- The storage rows of an account. -/
def AccountEntry.Owns (entry : AccountEntry) (id : StorageId) : Prop :=
  entry.storageBegin ≤ id ∧ id < entry.storageBegin + entry.storageCount

/-- An account that no transaction holds. -/
structure AccountSeen.Idle (account : AccountSeen) : Prop where
  epoch : account.transactionEpoch = 0
  overlay : account.overlay = none
  worklist : account.worklist = []
  created : account.created = false
  selfdestructed : account.selfdestructed = false

theorem AccountSeen.Idle.forget_eq {account : AccountSeen} (h : account.Idle) :
    account.forget = account := by
  obtain ⟨h₁, h₂, h₃, h₄, h₅⟩ := h
  cases account
  simp_all [AccountSeen.forget]

structure Sound (v : View) : Prop where
  epoch : v.currentWarmEpoch ≠ 0
  rows : v.acctTxRows.Nodup
  held : ∀ id ∈ v.acctTxRows, (v.accounts id).transactionEpoch = v.currentWarmEpoch
  idle : ∀ id ∉ v.acctTxRows, (v.accounts id).Idle
  nodup : ∀ id, (v.accounts id).worklist.Nodup
  listed : ∀ id, ∀ storageId ∈ (v.accounts id).worklist,
    (v.entries id).Owns storageId ∧ (v.slots storageId).transactionEpoch = v.currentWarmEpoch
  active : ∀ storageId,
    ((v.slots storageId).transactionEpoch = 0 ∧ (v.slots storageId).overlay = none) ∨
      ∃ id, storageId ∈ (v.accounts id).worklist
  disjoint : ∀ id id', id ≠ id' → ∀ storageId,
    (v.entries id).Owns storageId → ¬ (v.entries id').Owns storageId

namespace Sound

variable {v : View}

theorem not_listed_of_epoch (h : Sound v) {id : AccountId}
    (hne : (v.accounts id).transactionEpoch ≠ v.currentWarmEpoch) : id ∉ v.acctTxRows :=
  fun hmem => hne (h.held id hmem)

/-- The interval of an entry does not depend on its epochs. -/
theorem setEntry (h : Sound v) {id : AccountId} {entry : AccountEntry}
    (hfirst : entry.storageBegin = (v.entries id).storageBegin)
    (hcount : entry.storageCount = (v.entries id).storageCount) : Sound (v.setEntry id entry) := by
  have howns : ∀ id' storageId,
      ((v.setEntry id entry).entries id').Owns storageId ↔ (v.entries id').Owns storageId := by
    intro id' storageId
    by_cases hid : id' = id
    · subst hid
      simp [View.setEntry, AccountEntry.Owns, hfirst, hcount]
    · simp [View.setEntry, hid]
  exact
    { epoch := h.epoch
      rows := h.rows
      held := h.held
      idle := h.idle
      nodup := h.nodup
      listed := fun id' storageId hmem =>
        ⟨(howns id' storageId).mpr (h.listed id' storageId hmem).1,
          (h.listed id' storageId hmem).2⟩
      active := h.active
      disjoint := fun id₁ id₂ hne storageId h₁ h₂ =>
        h.disjoint id₁ id₂ hne storageId ((howns id₁ storageId).mp h₁)
          ((howns id₂ storageId).mp h₂) }

/-- A write to a slot that leaves its epoch. -/
theorem setSlot (h : Sound v) {id : StorageId} {row : SlotSeen}
    (hepoch : row.transactionEpoch = (v.slots id).transactionEpoch)
    (hoverlay : row.overlay = (v.slots id).overlay) : Sound (v.setSlot id row) := by
  have hslot : ∀ id', ((v.setSlot id row).slots id').transactionEpoch =
        (v.slots id').transactionEpoch ∧
      ((v.setSlot id row).slots id').overlay = (v.slots id').overlay := by
    intro id'
    by_cases hid : id' = id
    · subst hid
      simp [View.setSlot, hepoch, hoverlay]
    · simp [View.setSlot, hid]
  exact
    { epoch := h.epoch
      rows := h.rows
      held := h.held
      idle := h.idle
      nodup := h.nodup
      listed := fun id' storageId hmem =>
        ⟨(h.listed id' storageId hmem).1,
          (hslot storageId).1.trans (h.listed id' storageId hmem).2⟩
      active := fun storageId => by
        rw [(hslot storageId).1, (hslot storageId).2]
        exact h.active storageId
      disjoint := h.disjoint }

/-- A write to an account that a transaction holds. -/
theorem setAccount (h : Sound v) {id : AccountId} {account : AccountSeen}
    (hmem : id ∈ v.acctTxRows)
    (hepoch : account.transactionEpoch = (v.accounts id).transactionEpoch)
    (hworklist : account.worklist = (v.accounts id).worklist) :
    Sound (v.setAccount id account) := by
  have haccount : ∀ id', ((v.setAccount id account).accounts id').transactionEpoch =
        (v.accounts id').transactionEpoch ∧
      ((v.setAccount id account).accounts id').worklist = (v.accounts id').worklist := by
    intro id'
    by_cases hid : id' = id
    · subst hid
      simp [View.setAccount, hepoch, hworklist]
    · simp [View.setAccount, hid]
  exact
    { epoch := h.epoch
      rows := h.rows
      held := fun id' hid' => (haccount id').1.trans (h.held id' hid')
      idle := fun id' hid' => by
        have hne : id' ≠ id := fun heq => hid' (heq ▸ hmem)
        have hsame : (v.setAccount id account).accounts id' = v.accounts id' := by
          simp [View.setAccount, hne]
        rw [hsame]
        exact h.idle id' hid'
      nodup := fun id' => (haccount id').2 ▸ h.nodup id'
      listed := fun id' storageId hlisted =>
        h.listed id' storageId ((haccount id').2 ▸ hlisted)
      active := fun storageId => (h.active storageId).imp_right (Exists.imp fun id' hid' =>
        (haccount id').2.symm ▸ hid')
      disjoint := h.disjoint }

end Sound

/-! ### Updates that undo each other -/

namespace View

variable (v : View)

theorem setEntry_restore {id : AccountId} {entry : AccountEntry}
    (f : AccountEntry → AccountEntry) (h : f entry = v.entries id) :
    (v.setEntry id entry).setEntry id (f ((v.setEntry id entry).entries id)) = v := by
  simp [setEntry, h]

theorem setAccount_restore {id : AccountId} {account : AccountSeen}
    (f : AccountSeen → AccountSeen) (h : f account = v.accounts id) :
    (v.setAccount id account).setAccount id (f ((v.setAccount id account).accounts id)) = v := by
  simp [setAccount, h]

theorem setSchema_restore {id : StorageId} {row : StorageSchema}
    (f : StorageSchema → StorageSchema) (h : f row = v.schema id) :
    (v.setSchema id row).setSchema id (f ((v.setSchema id row).schema id)) = v := by
  simp [setSchema, h]

theorem setSlot_restore {id : StorageId} {row : SlotSeen}
    (f : SlotSeen → SlotSeen) (h : f row = v.slots id) :
    (v.setSlot id row).setSlot id (f ((v.setSlot id row).slots id)) = v := by
  simp [setSlot, h]

@[simp] theorem setAccount_accounts (id : AccountId) (account : AccountSeen) :
    (v.setAccount id account).accounts id = account := by
  simp [setAccount]

@[simp] theorem setSlot_slots (id : StorageId) (row : SlotSeen) :
    (v.setSlot id row).slots id = row := by
  simp [setSlot]

end View

/-! ## Operations cover their changes -/

/-- From a sound host, `h'` covers its change from `h` and is sound. -/
def Keeps (h h' : Host) : Prop :=
  Sound (view h.state) → Tracks hostInverse h h' ∧ Sound (view h'.state)

theorem Keeps.refl (h : Host) : Keeps h h := fun hs => ⟨.refl h, hs⟩

theorem Keeps.trans {h h' h'' : Host} (h₁ : Keeps h h') (h₂ : Keeps h' h'') : Keeps h h'' :=
  fun hs =>
    have ⟨ht, hs'⟩ := h₁ hs
    have ⟨ht', hs''⟩ := h₂ hs'
    ⟨ht.trans ht', hs''⟩

/-- One record, which undoes the change of the view. -/
theorem Keeps.change_sound {h h' : Host} {e : JournalEntry}
    (hj : h'.journal = .change e :: h.journal) (hready : ready e h'.state)
    (hkeys : ∀ key ∈ h.state.transient.keys, key ∈ h'.state.transient.keys)
    (hundo : Sound (view h.state) →
      undo e (view h'.state) = some (view h.state) ∧ Sound (view h'.state)) :
    Keeps h h' := by
  intro hs
  have hmono : ∀ e', ready e' h.state → ready e' h'.state := by
    intro e' he'
    cases e' with
    | transientChanged accountId slot prior => exact hkeys _ he'
    | _ => trivial
  exact ⟨.change hj (hundo hs).1 hready hmono, (hundo hs).2⟩

theorem Keeps.change {h h' : Host} {e : JournalEntry} {v : View}
    (hview : view h'.state = v) (hj : h'.journal = .change e :: h.journal)
    (hready : ready e h'.state)
    (hkeys : ∀ key ∈ h.state.transient.keys, key ∈ h'.state.transient.keys)
    (hundo : Sound (view h.state) → undo e v = some (view h.state) ∧ Sound v) :
    Keeps h h' := by
  subst hview
  exact .change_sound hj hready hkeys hundo

/-- An operation that keeps the invariant whenever it returns. -/
abbrev Kept (h : Host) (x : Result Host) : Prop := Ends (Keeps h) (fun _ => True) x

theorem Kept.bind {h : Host} {x : Result Host} {f : Host → Result Host} (hx : Kept h x)
    (hf : ∀ h', Kept h' (f h')) : Kept h (x >>= f) :=
  Ends.bind hx fun h' hh' => (hf h').mono fun _ hh'' => hh'.trans hh''

section

variable (capacity : Nat) (h : Host)

theorem push_ends (r : Record JournalEntry) :
    Ends (· = h.record r) (fun _ => True) (push capacity h r) :=
  Ends.ite (fun _ => trivial) fun _ => rfl

theorem getAccountId_ends (address : Address) :
    Ends (fun _ => True) (fun _ => True) (getAccountId h.state address) := by
  unfold getAccountId
  split <;> trivial

/-! ### Warm marks -/

theorem accountMarkWarm_kept (address : Address) :
    Kept h (accountMarkWarm capacity h address) := by
  unfold accountMarkWarm
  split
  · exact Keeps.refl h
  · rename_i id _
    refine Ends.ite (fun _ => ?_) fun _ => Keeps.refl h
    refine Ends.bind (push_ends capacity h _) fun h₁ hh₁ => ?_
    subst hh₁
    refine Keeps.change (view_setEntry h.state id _ ?_) rfl trivial (fun _ hkey => hkey)
      fun hs => ?_
    · rfl
    · exact ⟨congrArg some (View.setEntry_restore _ (fun e => { e with warmEpoch := _ }) rfl),
        hs.setEntry rfl rfl⟩

theorem storageIdMarkWarm_kept (storageId : Option StorageId) :
    Kept h (storageIdMarkWarm capacity h storageId) := by
  unfold storageIdMarkWarm
  split
  · exact Keeps.refl h
  · rename_i id
    refine Ends.ite (fun _ => ?_) fun _ => Keeps.refl h
    refine Ends.bind (push_ends capacity h _) fun h₁ hh₁ => ?_
    subst hh₁
    refine Keeps.change (view_setSchema h.state id _) rfl trivial (fun _ hkey => hkey) fun hs => ?_
    exact ⟨congrArg some (View.setSchema_restore _ (fun r => { r with warmEpoch := _ }) rfl),
      ⟨hs.epoch, hs.rows, hs.held, hs.idle, hs.nodup, hs.listed, hs.active, hs.disjoint⟩⟩

theorem storageResolveSlotRange_mem {schema : StorageId → StorageSchema} {slot : Word}
    {low high id : Nat} (hid : storageResolveSlotRange schema slot low high = some id) :
    low ≤ id ∧ id < high := by
  induction low, high using storageResolveSlotRange.induct schema slot with
  | case1 low high hlt middle hmiddle ih =>
    rw [storageResolveSlotRange, if_pos hlt, if_pos hmiddle] at hid
    have hle : low ≤ middle := Nat.le_add_right low _
    exact ⟨hle.trans (Nat.le_of_succ_le (ih hid).1), (ih hid).2⟩
  | case2 low high hlt middle hmiddle hmiddle' ih =>
    rw [storageResolveSlotRange, if_pos hlt, if_neg hmiddle, if_pos hmiddle'] at hid
    have hlt' : middle < high := by
      show low + (high - low) / 2 < high
      omega
    exact ⟨(ih hid).1, (ih hid).2.trans hlt'⟩
  | case3 low high hlt middle hmiddle hmiddle' =>
    rw [storageResolveSlotRange, if_pos hlt, if_neg hmiddle, if_neg hmiddle'] at hid
    injection hid with hid
    subst hid
    show low ≤ low + (high - low) / 2 ∧ low + (high - low) / 2 < high
    omega
  | case4 low high hlt =>
    rw [storageResolveSlotRange, if_neg hlt] at hid
    exact nomatch hid

/-- A resolved slot lies in the interval that was searched. -/
theorem storageResolveSlot_ends (s : State) (first changeCount count : Nat) (slot : Word) :
    Ends (fun r => ∀ id : Nat, r = some id → first ≤ id ∧ id < first + count) (fun _ => True)
      (storageResolveSlot s first changeCount count slot) := by
  refine Ends.ite (fun _ => trivial) fun hbounds => ?_
  have hcount : changeCount ≤ count := Nat.le_of_not_lt fun hlt => hbounds (.inl hlt)
  split
  · rename_i found hfound
    intro id hid
    injection hid with hid
    subst hid
    obtain ⟨hlow, hhigh⟩ := storageResolveSlotRange_mem hfound
    exact ⟨hlow, hhigh.trans_le (Nat.add_le_add_left hcount first)⟩
  · intro id hid
    obtain ⟨hlow, hhigh⟩ := storageResolveSlotRange_mem hid
    exact ⟨(Nat.le_add_right first changeCount).trans hlow, hhigh⟩

theorem storageMarkWarm_kept (address : Address) (slot : Word) :
    Kept h (storageMarkWarm capacity h address slot) := by
  unfold storageMarkWarm
  split
  · exact Keeps.refl h
  · refine Ends.bind (storageResolveSlot_ends _ _ _ _ _) fun storageId _ => ?_
    exact storageIdMarkWarm_kept capacity h storageId

/-! ### Accounts -/

/-- A row that a transaction takes hold of. -/
theorem Sound.touch {v : View} (hs : Sound v) {id : AccountId} {account : AccountSeen}
    (hid : id ∉ v.acctTxRows) (hepoch : account.transactionEpoch = v.currentWarmEpoch)
    (hworklist : account.worklist = []) :
    Sound { v.setAccount id account with acctTxRows := v.acctTxRows ++ [id] } := by
  have hidle := hs.idle id hid
  have hother : ∀ id', id' ≠ id → (v.setAccount id account).accounts id' = v.accounts id' :=
    fun id' hne => by simp [View.setAccount, hne]
  have hlists : ∀ id', ((v.setAccount id account).accounts id').worklist =
      (v.accounts id').worklist := by
    intro id'
    by_cases heq : id' = id
    · subst heq
      simp [hworklist, hidle.worklist]
    · rw [hother id' heq]
  exact
    { epoch := hs.epoch
      rows := by
        refine hs.rows.append (List.nodup_singleton id) ?_
        simpa using hid
      held := by
        intro id' hmem
        by_cases heq : id' = id
        · subst heq
          exact (congrArg AccountSeen.transactionEpoch (v.setAccount_accounts id' account)).trans
            hepoch
        · have hmem' : id' ∈ v.acctTxRows := by simpa [heq] using hmem
          have hsame := congrArg AccountSeen.transactionEpoch (hother id' heq)
          exact hsame.trans (hs.held id' hmem')
      idle := by
        intro id' hmem
        have hne : id' ≠ id := fun heq => hmem (by simp [heq])
        have hmem' : id' ∉ v.acctTxRows := fun hin => hmem (by simp [hin])
        have hsame : (v.setAccount id account).accounts id' = v.accounts id' := hother id' hne
        show ((v.setAccount id account).accounts id').Idle
        rw [hsame]
        exact hs.idle id' hmem'
      nodup := fun id' => (hlists id').symm ▸ hs.nodup id'
      listed := fun id' storageId hmem => hs.listed id' storageId ((hlists id') ▸ hmem)
      active := fun storageId => (hs.active storageId).imp_right (Exists.imp fun id' hid' =>
        (hlists id').symm ▸ hid')
      disjoint := hs.disjoint }

theorem Sound.mem_rows {v : View} (hs : Sound v) {id : AccountId}
    (hheld : (v.accounts id).transactionEpoch = v.currentWarmEpoch) : id ∈ v.acctTxRows := by
  by_contra hid
  exact hs.epoch (hheld.symm.trans (hs.idle id hid).epoch)

/-- The transaction holds the account. -/
structure Touched (id : AccountId) (h h' : Host) : Prop where
  keeps : Keeps h h'
  held : (h'.state.states id).transactionEpoch = h'.state.currentWarmEpoch

theorem Touched.trans {id : AccountId} {h h' h'' : Host} (h₁ : Touched id h h')
    (h₂ : Touched id h' h'') : Touched id h h'' :=
  ⟨h₁.keeps.trans h₂.keeps, h₂.held⟩

theorem undo_accountTransactionListed {v : View} (hepoch : v.currentWarmEpoch ≠ 0)
    {id : AccountId} {account : AccountSeen} (hforget : account.forget = v.accounts id) :
    undo .accountTransactionListed
      { v.setAccount id account with acctTxRows := v.acctTxRows ++ [id] } = some v := by
  simp [undo, hepoch, View.setAccount, hforget]

theorem accountTransactionTouch_ends (id : AccountId) :
    Ends (fun h' => Touched id h h' ∧ h'.state.entries = h.state.entries) (fun _ => True)
      (accountTransactionTouch capacity h id) := by
  refine Ends.ite (fun hheld => ⟨⟨.refl h, hheld⟩, rfl⟩) fun hidle => ?_
  refine Ends.bind (push_ends capacity h _) fun h₁ hh₁ => ?_
  subst hh₁
  refine ⟨⟨?_, by simp [modify, State.setAccount, Journaled.record]⟩, rfl⟩
  refine Keeps.change (view_setAccount_rows h.state id _ _) rfl trivial (fun _ hkey => hkey)
    fun hs => ?_
  have hid : id ∉ h.state.acctTxRows := hs.not_listed_of_epoch hidle
  exact ⟨undo_accountTransactionListed hs.epoch (hs.idle id hid).forget_eq, hs.touch hid rfl rfl⟩

/-- Writes to the fields of an account that the transaction holds. -/
theorem writeField_ends {id : AccountId} (next : AccountField)
    (hheld : (h.state.states id).transactionEpoch = h.state.currentWarmEpoch) :
    Ends (Touched id h) (fun _ => True) (writeField capacity h id next) := by
  refine Ends.ite (fun _ => ⟨.refl h, hheld⟩) fun _ => ?_
  refine Ends.bind (push_ends capacity h _) fun h₁ hh₁ => ?_
  subst hh₁
  refine ⟨?_, ?_⟩
  · refine Keeps.change (view_setAccount h.state id _) rfl trivial (fun _ hkey => hkey)
      fun hs => ⟨?_, hs.setAccount (hs.mem_rows hheld) ?_ ?_⟩
    · refine congrArg some (View.setAccount_restore _ (AccountField.writeSeen _) ?_)
      cases next <;> rfl
    · cases next <;> rfl
    · cases next <;> rfl
  · have hwrite : (next.write (h.state.states id)).transactionEpoch =
        (h.state.states id).transactionEpoch := by cases next <;> rfl
    simpa [modify, State.setAccount, Journaled.record, hwrite] using hheld

theorem accountClearStorageGeneration_ends (id : AccountId) :
    Ends (Touched id h) (fun _ => True) (accountClearStorageGeneration capacity h id) := by
  refine Ends.bind (accountTransactionTouch_ends capacity h id) fun h₁ ⟨ht, _⟩ => ?_
  refine Ends.bind (push_ends capacity h₁ _) fun h₂ hh₂ => ?_
  subst hh₂
  refine Ends.ite (fun _ => trivial) fun _ => ht.trans ⟨?_, ht.held⟩
  refine Keeps.change (view_setEntry h₁.state id _ ?_) rfl trivial (fun _ hkey => hkey)
    fun hs => ⟨?_, hs.setEntry rfl rfl⟩
  · rfl
  · exact congrArg some
      (View.setEntry_restore _ (fun e => { e with storageGeneration := _ }) rfl)

theorem hostAccountUpdate_kept (address : Address) (u : AccountUpdate) :
    Kept h (hostAccountUpdate capacity h address u) := by
  refine Ends.bind (getAccountId_ends h address) fun id _ => ?_
  refine Ends.bind (accountTransactionTouch_ends capacity h id) fun h₀ ⟨t₀, _⟩ => ?_
  refine Ends.bind (writeField_ends capacity h₀ _ t₀.held) fun h₁ t₁ => ?_
  refine Ends.bind (writeField_ends capacity h₁ _ t₁.held) fun h₂ t₂ => ?_
  refine Ends.bind (writeField_ends capacity h₂ _ t₂.held) fun h₃ t₃ => ?_
  refine Ends.bind (writeField_ends capacity h₃ _ t₃.held) fun h₄ t₄ => ?_
  refine Ends.bind (writeField_ends capacity h₄ _ t₄.held) fun h₅ t₅ => ?_
  refine Ends.bind (writeField_ends capacity h₅ _ t₅.held) fun h₆ t₆ => ?_
  have t : Touched id h h₆ := t₀.trans (t₁.trans (t₂.trans (t₃.trans (t₄.trans (t₅.trans t₆)))))
  refine Ends.ite (fun _ => ?_) fun _ => t.keeps
  exact (accountClearStorageGeneration_ends capacity h₆ id).mono fun _ t' => (t.trans t').keeps

theorem acctTxSetField_kept (address : Address) (next : AccountField) :
    Kept h (acctTxSetField capacity h address next) := by
  refine Ends.bind (getAccountId_ends h address) fun id _ => ?_
  refine Ends.bind (accountTransactionTouch_ends capacity h id) fun h₁ ⟨t, _⟩ => ?_
  exact (writeField_ends capacity h₁ next t.held).mono fun _ t' => (t.trans t').keeps

/-! ### Storage -/

theorem storageTxClear_kept (address : Address) :
    Kept h (storageTxClear capacity h address) := by
  refine Ends.bind (getAccountId_ends h address) fun id _ => ?_
  exact (accountClearStorageGeneration_ends capacity h id).mono fun _ t => t.keeps

theorem writeStorageValue_kept (id : StorageId) (v : Word) :
    Kept h (writeStorageValue capacity h id v) := by
  refine Ends.ite (fun _ => ?_) fun _ => .refl h
  refine Ends.bind (push_ends capacity h _) fun h₁ hh₁ => ?_
  subst hh₁
  exact Keeps.change (view_setStorage h.state id _) rfl trivial (fun _ hkey => hkey) fun hs =>
    ⟨congrArg some (View.setSlot_restore _ (fun r => { r with current := _ }) rfl),
      hs.setSlot rfl rfl⟩

theorem writeStorageGeneration_kept (id : StorageId) (generation : StorageGeneration) :
    Kept h (writeStorageGeneration capacity h id generation) := by
  refine Ends.ite (fun _ => ?_) fun _ => .refl h
  refine Ends.bind (push_ends capacity h _) fun h₁ hh₁ => ?_
  subst hh₁
  exact Keeps.change (view_setStorage h.state id _) rfl trivial (fun _ hkey => hkey) fun hs =>
    ⟨congrArg some (View.setSlot_restore _ (fun r => { r with storageGeneration := _ }) rfl),
      hs.setSlot rfl rfl⟩

/-- Distinct ids of an interval are no more than the interval is long. -/
theorem length_le_of_owns {entry : AccountEntry} {ids : List StorageId} (hnodup : ids.Nodup)
    (howns : ∀ id ∈ ids, entry.Owns id) : ids.length ≤ entry.storageCount := by
  have hsub : ids ⊆ List.range' entry.storageBegin entry.storageCount := fun id hid =>
    List.mem_range'_1.mpr (howns id hid)
  exact (hnodup.subperm hsub).length_le.trans_eq List.length_range'

/-- A worklist lies in its account's interval, and leaves room for a row
that it does not list yet. -/
theorem Sound.worklist_room {v : View} (hs : Sound v) {id : AccountId} {storageId : StorageId}
    (howns : (v.entries id).Owns storageId)
    (hnew : (v.slots storageId).transactionEpoch ≠ v.currentWarmEpoch) :
    (v.accounts id).worklist.length < (v.entries id).storageCount := by
  have hnotMem : storageId ∉ (v.accounts id).worklist :=
    fun hmem => hnew (hs.listed id storageId hmem).2
  have hnodup : (storageId :: (v.accounts id).worklist).Nodup :=
    List.nodup_cons.mpr ⟨hnotMem, hs.nodup id⟩
  refine length_le_of_owns hnodup fun id' hmem => ?_
  rcases List.mem_cons.mp hmem with rfl | hmem
  · exact howns
  · exact (hs.listed id id' hmem).1

theorem Sound.worklist_le {v : View} (hs : Sound v) (id : AccountId) :
    (v.accounts id).worklist.length ≤ (v.entries id).storageCount :=
  length_le_of_owns (hs.nodup id) fun id' hmem => (hs.listed id id' hmem).1

/-- A row that no account has listed is bound and listed. -/
theorem Sound.append {v : View} (hs : Sound v) {id : AccountId} {storageId : StorageId}
    {row : SlotSeen} (hheld : id ∈ v.acctTxRows) (howns : (v.entries id).Owns storageId)
    (hnew : (v.slots storageId).transactionEpoch ≠ v.currentWarmEpoch)
    (hepoch : row.transactionEpoch = v.currentWarmEpoch) :
    Sound ((v.setAccount id
      { v.accounts id with worklist := (v.accounts id).worklist ++ [storageId] }).setSlot
        storageId row) := by
  have hnotMem : ∀ id', storageId ∉ (v.accounts id').worklist :=
    fun id' hmem => hnew (hs.listed id' storageId hmem).2
  -- Only `id` lists one more row, and only that row becomes active.
  have hlists : ∀ id' storageId', storageId' ∈ ((v.setAccount id
      { v.accounts id with worklist := (v.accounts id).worklist ++ [storageId] }).accounts
        id').worklist ↔
        storageId' ∈ (v.accounts id').worklist ∨ (id' = id ∧ storageId' = storageId) := by
    intro id' storageId'
    by_cases heq : id' = id
    · subst heq
      simp [View.setAccount]
    · simp [View.setAccount, heq]
  have hslot : ∀ storageId', storageId' ≠ storageId →
      (v.setSlot storageId row).slots storageId' = v.slots storageId' :=
    fun storageId' hne => by simp [View.setSlot, hne]
  have hself : (v.setSlot storageId row).slots storageId = row := v.setSlot_slots storageId row
  have hkept : ∀ id' ≠ id, (v.setAccount id
      { v.accounts id with worklist := (v.accounts id).worklist ++ [storageId] }).accounts id' =
        v.accounts id' := fun id' hne => Function.update_of_ne hne _ v.accounts
  exact
    { epoch := hs.epoch
      rows := hs.rows
      held := by
        intro id' hmem
        rcases eq_or_ne id' id with rfl | hne
        · have hacc := congrArg AccountSeen.transactionEpoch (v.setAccount_accounts id'
            { v.accounts id' with worklist := (v.accounts id').worklist ++ [storageId] })
          exact hacc.trans (hs.held id' hmem)
        · exact (congrArg AccountSeen.transactionEpoch (hkept id' hne)).trans (hs.held id' hmem)
      idle := by
        intro id' hmem
        have hne : id' ≠ id := fun heq => hmem (heq ▸ hheld)
        show ((v.setAccount id _).accounts id').Idle
        rw [hkept id' hne]
        exact hs.idle id' hmem
      nodup := by
        intro id'
        rcases eq_or_ne id' id with rfl | hne
        · have hacc := congrArg AccountSeen.worklist (v.setAccount_accounts id'
            { v.accounts id' with worklist := (v.accounts id').worklist ++ [storageId] })
          refine hacc.symm ▸ (hs.nodup id').append (List.nodup_singleton _) ?_
          simpa using hnotMem id'
        · exact (congrArg AccountSeen.worklist (hkept id' hne)).symm ▸ hs.nodup id'
      listed := by
        intro id' storageId' hmem
        rcases (hlists id' storageId').mp hmem with hmem | ⟨rfl, rfl⟩
        · have hne : storageId' ≠ storageId := fun heq => hnotMem id' (heq ▸ hmem)
          have hrow := congrArg SlotSeen.transactionEpoch (hslot storageId' hne)
          exact ⟨(hs.listed id' storageId' hmem).1,
            hrow.trans (hs.listed id' storageId' hmem).2⟩
        · exact ⟨howns, (congrArg SlotSeen.transactionEpoch hself).trans hepoch⟩
      active := by
        intro storageId'
        rcases eq_or_ne storageId' storageId with rfl | hne
        · exact .inr ⟨id, (hlists id storageId').mpr (.inr ⟨rfl, rfl⟩)⟩
        · show (((v.setSlot storageId row).slots storageId').transactionEpoch = 0 ∧
              ((v.setSlot storageId row).slots storageId').overlay = none) ∨ _
          rw [hslot storageId' hne]
          exact (hs.active storageId').imp_right (Exists.imp fun id' hid' =>
            (hlists id' storageId').mpr (.inl hid'))
      disjoint := hs.disjoint }

/-- The state after a row is bound and listed. -/
def bound (s : State) (id : AccountId) (storageId : StorageId) (row : StorageState) : State :=
  { (s.setStorage storageId row).setAccount id
      { s.states id with
        transactionStorageCount := (s.states id).transactionStorageCount + 1 } with
    transactionStorageIds :=
      Function.update s.transactionStorageIds
        ((s.entries id).storageBegin + (s.states id).transactionStorageCount) storageId }

/-- No other account's worklist reaches the place of the new id. -/
theorem view_bound {s : State} (hs : Sound (view s)) {id : AccountId} {storageId : StorageId}
    (row : StorageState) (howns : (s.entries id).Owns storageId)
    (hnew : (s.storage storageId).transactionEpoch ≠ s.currentWarmEpoch) :
    view (bound s id storageId row) =
      ((view s).setAccount id
        { (view s).accounts id with
          worklist := ((view s).accounts id).worklist ++ [storageId] }).setSlot storageId
        (seeSlot s row) := by
  have hroom : (s.states id).transactionStorageCount < (s.entries id).storageCount := by
    have hlt := hs.worklist_room howns hnew
    simpa [view, seeAccount, length_worklist] using hlt
  have hothers : ∀ id' ≠ id, ∀ k < (s.states id').transactionStorageCount,
      (s.entries id').storageBegin + k ≠
        (s.entries id).storageBegin + (s.states id).transactionStorageCount := by
    intro id' hne k hk heq
    have hle : (s.states id').transactionStorageCount ≤ (s.entries id').storageCount := by
      have hle := hs.worklist_le id'
      simpa [view, seeAccount, length_worklist] using hle
    have howns' : (s.entries id').Owns ((s.entries id').storageBegin + k) :=
      ⟨Nat.le_add_right _ _, Nat.add_lt_add_left (hk.trans_le hle) _⟩
    refine hs.disjoint id' id hne _ howns' ?_
    show (s.entries id).Owns ((s.entries id').storageBegin + k)
    rw [heq]
    exact ⟨Nat.le_add_right _ _, Nat.add_lt_add_left hroom _⟩
  have hslots := congrArg View.slots (view_setStorage s storageId row)
  apply View.ext <;> try rfl
  · funext id'
    rcases eq_or_ne id' id with rfl | hne
    · simp [bound, view, seeAccount, View.setAccount, View.setSlot, State.setAccount,
        State.setStorage, worklist_append]
    · simp [bound, view, seeAccount, View.setAccount, View.setSlot, State.setAccount,
        State.setStorage, hne, worklist_update storageId (hothers id' hne)]
  · exact hslots

/-- Forgetting the row and taking it off the worklist gives the old view
back, for no account held it before. -/
theorem undo_accountStorageListed {v : View} (hs : Sound v) {id : AccountId}
    {storageId : StorageId} {row : SlotSeen}
    (hnew : (v.slots storageId).transactionEpoch ≠ v.currentWarmEpoch)
    (hrow : row.forget = (v.slots storageId).forget) :
    undo (.accountStorageListed id)
      ((v.setAccount id
        { v.accounts id with worklist := (v.accounts id).worklist ++ [storageId] }).setSlot
          storageId row) = some v := by
  have hidle : (v.slots storageId).forget = v.slots storageId := by
    rcases hs.active storageId with ⟨hepoch, hoverlay⟩ | ⟨id', hmem⟩
    · cases hslot : v.slots storageId
      simp_all [SlotSeen.forget]
    · exact absurd (hs.listed id' storageId hmem).2 hnew
  have hepoch := hs.epoch
  simp [undo, hepoch, View.setAccount, View.setSlot, hrow, hidle]

theorem storageTransactionBind_kept {id : AccountId} {storageId : StorageId} (orig : Word)
    (hheld : (h.state.states id).transactionEpoch = h.state.currentWarmEpoch)
    (howns : (h.state.entries id).Owns storageId) :
    Kept h (storageTransactionBind capacity h id storageId orig) := by
  refine Ends.ite (fun hnew => ?_) fun _ => .refl h
  refine Ends.bind (push_ends capacity _ _) fun h₁ hh₁ => ?_
  subst hh₁
  refine Keeps.change_sound rfl trivial (fun _ hkey => hkey) fun hs => ?_
  have hview := view_bound hs
    { h.state.storage storageId with
      transactionOriginal := orig
      transactionOriginalGeneration := (h.state.storage storageId).storageGeneration
      transactionEpoch := h.state.currentWarmEpoch } howns hnew
  refine (congrArg (fun v => undo _ v = _ ∧ Sound v) hview).mpr ⟨?_, ?_⟩
  · exact undo_accountStorageListed hs hnew rfl
  · exact hs.append (hs.mem_rows hheld) howns hnew rfl

/-- Writes a slot of the account's interval. -/
theorem storageUpdateById_kept {id : AccountId} (generation : StorageGeneration)
    {storageId : Option StorageId} (v orig : Word)
    (howns : ∀ id', storageId = some id' → (h.state.entries id).Owns id') :
    Kept h (storageUpdateById capacity h id generation storageId v orig) := by
  refine Ends.bind (accountTransactionTouch_ends capacity h id) fun h₁ ⟨t, hentries⟩ => ?_
  cases storageId with
  | none => trivial
  | some storageId =>
    have howns₁ : (h₁.state.entries id).Owns storageId := by
      rw [hentries]
      exact howns storageId rfl
    refine (Kept.bind (storageTransactionBind_kept capacity h₁ orig t.held howns₁)
      fun h₂ => ?_).mono fun _ hh => t.keeps.trans hh
    exact Kept.bind (writeStorageValue_kept capacity h₂ storageId v) fun h₃ =>
      writeStorageGeneration_kept capacity h₃ storageId generation

/-! ### Transient storage and logs -/

theorem transientTableSet_ends (t : TransientTable) (key : TransientKey) (value : Word) :
    Ends (fun t' => transientValue t' = Function.update (transientValue t) key value ∧
      key ∈ t'.keys ∧ ∀ key' ∈ t.keys, key' ∈ t'.keys) (fun _ => True)
      (transientTableSet t key value) := by
  cases hset : transientTableSet t key value with
  | ok t' => exact transientTableSet_value hset
  | error e => trivial

theorem transientStorageWrite_kept (address : Address) (slot v : Word) :
    Kept h (transientStorageWrite capacity h address slot v) := by
  refine Ends.bind (getAccountId_ends h address) fun id _ => ?_
  refine Ends.bind (push_ends capacity h _) fun h₁ hh₁ => ?_
  subst hh₁
  refine Ends.bind (transientTableSet_ends _ _ _) fun t ⟨hvalue, hkey, hkeys⟩ => ?_
  have hview : view { h.state with transient := t } =
      { view h.state with
        transient := Function.update (view h.state).transient ⟨id, slot⟩ v } := by
    apply View.ext <;> try rfl
    exact hvalue
  refine Keeps.change hview rfl hkey hkeys fun hs => ⟨?_, ?_⟩
  · simp [undo, view]
  · exact ⟨hs.epoch, hs.rows, hs.held, hs.idle, hs.nodup, hs.listed, hs.active, hs.disjoint⟩

/-- `l'` is `l` with one more record, whose topics and data stand past the
old ones. -/
structure LogTable.Opened (l l' : LogTable) : Prop where
  records : ∃ record, l'.records = l.records ++ [record] ∧
    record.topicOffset = l.topics.length ∧ record.dataOffset = l.data.length
  topics : l.topics <+: l'.topics
  data : l.data <+: l'.data
  rest : { l' with records := l.records, topics := l.topics, data := l.data } = l

/-- The host has opened a record and journalled it. -/
structure LogOpened (h h' : Host) : Prop where
  journal : h'.journal = .change .logAppended :: h.journal
  state : h'.state = { h.state with logs := h'.state.logs }
  logs : h.state.logs.Opened h'.state.logs

theorem LogOpened.keeps {h h' : Host} (ho : LogOpened h h') : Keeps h h' := by
  obtain ⟨hjournal, hstate, ⟨record, hrecords, htopic, hdata⟩, ⟨ts, hts⟩, ⟨bs, hbs⟩, hrest⟩ := ho
  have hview : view h'.state = { view h.state with logs := h'.state.logs } := by
    rw [hstate]
    rfl
  refine Keeps.change hview hjournal trivial (fun key hkey => by rw [hstate]; exact hkey)
    fun hs => ⟨?_, ?_⟩
  · simp only [undo, hrecords, List.getLast?_concat, List.dropLast_concat, htopic, hdata, ← hts,
      ← hbs, List.take_left]
    exact congrArg (fun l => some { view h.state with logs := l }) hrest
  · exact ⟨hs.epoch, hs.rows, hs.held, hs.idle, hs.nodup, hs.listed, hs.active, hs.disjoint⟩

theorem logBegin_ends (address : Address) :
    Ends (LogOpened h) (fun _ => True) (logBegin capacity h address) := by
  refine Ends.ite (fun _ => trivial) fun _ => ?_
  refine Ends.bind (push_ends capacity h _) fun h₁ hh₁ => ?_
  subst hh₁
  exact ⟨rfl, rfl, ⟨⟨_, rfl, rfl, rfl⟩, List.prefix_rfl, List.prefix_rfl, rfl⟩⟩

variable {h} in
/-- What is added goes to the record that is open. -/
theorem LogOpened.extend {h' : Host} (ho : LogOpened h h') (f : LogRecord → LogRecord)
    (hf : ∀ r, (f r).topicOffset = r.topicOffset ∧ (f r).dataOffset = r.dataOffset)
    {topics : List Word} {data : List Byte} (ht : h'.state.logs.topics <+: topics)
    (hd : h'.state.logs.data <+: data) :
    LogOpened h (modify h' fun s =>
      { s with
        logs :=
          { s.logs with
            topics := topics
            data := data
            records := modifyLast s.logs.records f } }) := by
  obtain ⟨hjournal, hstate, ⟨record, hrecords, htopic, hdata⟩, hts, hbs, hrest⟩ := ho
  refine ⟨hjournal, ?_, ⟨⟨f record, ?_, ?_, ?_⟩, hts.trans ht, hbs.trans hd, hrest⟩⟩
  · simp only [modify]
    rw [hstate]
  · simp [modify, modifyLast, hrecords]
  · exact (hf record).1.trans htopic
  · exact (hf record).2.trans hdata

theorem appendLog_kept (address : Address) (topics : List Word) (bytes : List Byte) :
    Kept h (appendLog capacity h address topics bytes) := by
  refine Ends.bind (logBegin_ends capacity h address) fun h₁ ho₁ => ?_
  refine Ends.bind (Ends.foldlM (fun h₂ topic _ ho₂ => ?_) ho₁) fun h₂ ho₂ => ?_
  · refine Ends.ite (fun _ => trivial) fun _ => ?_
    exact ho₂.extend (fun r => { r with topicCount := r.topicCount + 1 })
      (fun _ => ⟨rfl, rfl⟩) (List.prefix_append _ _) List.prefix_rfl
  · refine Ends.ite (fun _ => trivial) fun _ => LogOpened.keeps ?_
    exact ho₂.extend (fun r => { r with dataLength := r.dataLength + bytes.length })
      (fun _ => ⟨rfl, rfl⟩) List.prefix_rfl (List.prefix_append _ _)

end

end EvmSail.Optimised
