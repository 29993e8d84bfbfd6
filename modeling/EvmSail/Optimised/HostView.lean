/-
# `EvmSail.Optimised.HostView` — what is seen of the host's tables

`view` is what a later read can see of the account, storage, transient
and log tables.  It leaves out what a rollback does not restore and
nothing reads: the captured originals of rows that no transaction holds,
the ids past the end of a worklist, the zero entries of the transient
table.  `undo` is what one inverse record does to a view, and
`hostInverse` that the record's restore function does it.
-/
import EvmSail.Optimised.HostState

namespace EvmSail.Optimised

open Fallible Journal

/-! ## What is seen of the tables -/

/-- An account, with its captured original while a transaction holds it. -/
structure AccountSeen where
  current : AccountValue
  transactionEpoch : Nat
  overlay : Option (AccountValue × StorageGeneration)
  worklist : List StorageId
  created : Bool
  selfdestructed : Bool
  dirty : Bool

structure SlotSeen where
  current : Word
  original : Word
  storageGeneration : StorageGeneration
  transactionEpoch : Nat
  overlay : Option (Word × StorageGeneration)

@[ext] structure View where
  currentWarmEpoch : Nat
  accountCount : Nat
  entries : AccountId → AccountEntry
  accounts : AccountId → AccountSeen
  acctTxRows : List AccountId
  storageCount : Nat
  schema : StorageId → StorageSchema
  slots : StorageId → SlotSeen
  transient : TransientKey → Word
  logs : LogTable

/-- The ids an account has listed, read from its interval. -/
def worklist (ids : Nat → StorageId) (first count : Nat) : List StorageId :=
  (List.range count).map fun i => ids (first + i)

def seeAccount (s : State) (id : AccountId) (account : AccountState) : AccountSeen where
  current := account.current
  transactionEpoch := account.transactionEpoch
  overlay :=
    if account.transactionEpoch = s.currentWarmEpoch then
      some (account.original, account.originalStorageGeneration)
    else none
  worklist :=
    worklist s.transactionStorageIds (s.entries id).storageBegin
      account.transactionStorageCount
  created := account.created
  selfdestructed := account.selfdestructed
  dirty := account.dirty

def seeSlot (s : State) (row : StorageState) : SlotSeen where
  current := row.current
  original := row.original
  storageGeneration := row.storageGeneration
  transactionEpoch := row.transactionEpoch
  overlay :=
    if row.transactionEpoch = s.currentWarmEpoch then
      some (row.transactionOriginal, row.transactionOriginalGeneration)
    else none

def view (s : State) : View where
  currentWarmEpoch := s.currentWarmEpoch
  accountCount := s.accountCount
  entries := s.entries
  accounts id := seeAccount s id (s.states id)
  acctTxRows := s.acctTxRows
  storageCount := s.storageCount
  schema := s.schema
  slots id := seeSlot s (s.storage id)
  transient key := (transientTableGet s.transient key).getD 0
  logs := s.logs

namespace View

def setEntry (v : View) (id : AccountId) (entry : AccountEntry) : View :=
  { v with entries := Function.update v.entries id entry }

def setAccount (v : View) (id : AccountId) (account : AccountSeen) : View :=
  { v with accounts := Function.update v.accounts id account }

def setSchema (v : View) (id : StorageId) (row : StorageSchema) : View :=
  { v with schema := Function.update v.schema id row }

def setSlot (v : View) (id : StorageId) (row : SlotSeen) : View :=
  { v with slots := Function.update v.slots id row }

end View

/-! ### The view of an updated table -/

section

variable {s s' : State}

theorem seeAccount_congr {id : AccountId} (account : AccountState)
    (hepoch : s.currentWarmEpoch = s'.currentWarmEpoch)
    (hids : s.transactionStorageIds = s'.transactionStorageIds)
    (hfirst : (s.entries id).storageBegin = (s'.entries id).storageBegin) :
    seeAccount s id account = seeAccount s' id account := by
  unfold seeAccount
  rw [hepoch, hids, hfirst]

variable (s)

theorem view_setEntry (id : AccountId) (entry : AccountEntry)
    (h : entry.storageBegin = (s.entries id).storageBegin) :
    view (s.setEntry id entry) = (view s).setEntry id entry := by
  have haccounts : ∀ id', seeAccount (s.setEntry id entry) id' (s.states id') =
      seeAccount s id' (s.states id') := by
    intro id'
    refine seeAccount_congr _ rfl rfl ?_
    by_cases hid : id' = id
    · subst hid
      simpa [State.setEntry] using h
    · simp [State.setEntry, hid]
  apply View.ext <;> try rfl
  exact funext haccounts

theorem view_setAccount (id : AccountId) (account : AccountState) :
    view (s.setAccount id account) = (view s).setAccount id (seeAccount s id account) := by
  apply View.ext <;> try rfl
  funext id'
  by_cases hid : id' = id
  · subst hid
    simp only [view, View.setAccount, State.setAccount, Function.update_self]
    rfl
  · simp only [view, View.setAccount, State.setAccount, Function.update_of_ne hid]
    rfl

theorem view_setAccount_rows (id : AccountId) (account : AccountState)
    (rows : List AccountId) :
    view { s.setAccount id account with acctTxRows := rows } =
      { (view s).setAccount id (seeAccount s id account) with acctTxRows := rows } := by
  have haccounts := congrArg View.accounts (view_setAccount s id account)
  apply View.ext <;> try rfl
  exact haccounts

theorem view_setSchema (id : StorageId) (row : StorageSchema) :
    view (s.setSchema id row) = (view s).setSchema id row := rfl

theorem view_setStorage (id : StorageId) (row : StorageState) :
    view (s.setStorage id row) = (view s).setSlot id (seeSlot s row) := by
  apply View.ext <;> try rfl
  funext id'
  by_cases hid : id' = id
  · subst hid
    simp only [view, View.setSlot, State.setStorage, Function.update_self]
    rfl
  · simp only [view, View.setSlot, State.setStorage, Function.update_of_ne hid]
    rfl

end

/-! ### The transient table as a map -/

/-- The value a table holds for a key, zero when it has none. -/
def transientValue (t : TransientTable) (key : TransientKey) : Word :=
  (transientTableGet t key).getD 0

theorem transientTableSet_value {t t' : TransientTable} {key : TransientKey} {value : Word}
    (h : transientTableSet t key value = .ok t') :
    transientValue t' = Function.update (transientValue t) key value ∧
      key ∈ t'.keys ∧ ∀ key' ∈ t.keys, key' ∈ t'.keys := by
  have hget : ∀ {u : TransientTable}, u.values = Function.update t.values key value →
      (∀ key', key' ∈ u.keys ↔ key' = key ∨ key' ∈ t.keys) →
      transientValue u = Function.update (transientValue t) key value := by
    intro u hvalues hkeys
    funext key'
    by_cases hkey : key' = key
    · subst hkey
      simp [transientValue, transientTableGet, hkeys, hvalues]
    · simp [transientValue, transientTableGet, hkeys, hvalues, hkey]
  unfold transientTableSet at h
  split at h
  · rename_i hmem
    injection h with h
    subst h
    refine ⟨hget rfl fun key' => ⟨.inr, ?_⟩, hmem, fun _ h => h⟩
    rintro (rfl | h)
    · exact hmem
    · exact h
  · split at h
    · cases h
    · injection h with h
      subst h
      exact ⟨hget rfl fun key' => by simp [or_comm], by simp, fun key' h => by simp [h]⟩

/-- A key that is in the table can be set. -/
theorem transientTableSet_mem {t : TransientTable} {key : TransientKey} (value : Word)
    (h : key ∈ t.keys) :
    transientTableSet t key value =
      .ok { t with values := Function.update t.values key value } := if_pos h

/-! ## Undoing one record -/

/-- A row that no transaction holds. -/
def AccountSeen.forget (account : AccountSeen) : AccountSeen :=
  { account with
    transactionEpoch := 0
    overlay := none
    worklist := []
    created := false
    selfdestructed := false }

def SlotSeen.forget (row : SlotSeen) : SlotSeen :=
  { row with transactionEpoch := 0, overlay := none }

def AccountField.writeSeen (field : AccountField) (account : AccountSeen) : AccountSeen :=
  match field with
  | .balance v => { account with current := { account.current with balance := v } }
  | .nonce v => { account with current := { account.current with nonce := v } }
  | .codeHash v => { account with current := { account.current with codeHash := v } }
  | .exists_ v => { account with current := { account.current with exists_ := v } }
  | .created v => { account with created := v }
  | .selfdestructed v => { account with selfdestructed := v }

/-- What replaying one journal entry does to the view. -/
def undo (e : JournalEntry) (v : View) : Option View :=
  match e with
  | .transientChanged accountId slot prior =>
    some { v with transient := Function.update v.transient ⟨accountId, slot⟩ prior }
  | .warmAccountChanged id priorEpoch =>
    some (v.setEntry id { v.entries id with warmEpoch := priorEpoch })
  | .warmStorageChanged id priorEpoch =>
    some (v.setSchema id { v.schema id with warmEpoch := priorEpoch })
  | .accountFieldChanged id prior => some (v.setAccount id (prior.writeSeen (v.accounts id)))
  | .accountTransactionListed =>
    if v.currentWarmEpoch = 0 then none
    else
      match v.acctTxRows.getLast? with
      | some id =>
        some
          { v.setAccount id (v.accounts id).forget with
            acctTxRows := v.acctTxRows.dropLast }
      | none => none
  | .accountStorageListed id =>
    if v.currentWarmEpoch = 0 then none
    else
      match (v.accounts id).worklist.getLast? with
      | some storageId =>
        some
          ((v.setAccount id
              { v.accounts id with worklist := (v.accounts id).worklist.dropLast }).setSlot
            storageId (v.slots storageId).forget)
      | none => none
  | .logAppended =>
    match v.logs.records.getLast? with
    | some record =>
      some
        { v with
          logs :=
            { v.logs with
              records := v.logs.records.dropLast
              topics := v.logs.topics.take record.topicOffset
              data := v.logs.data.take record.dataOffset } }
    | none => none
  | .storageValueChanged id prior => some (v.setSlot id { v.slots id with current := prior })
  | .storageRowGenerationChanged id prior =>
    some (v.setSlot id { v.slots id with storageGeneration := prior })
  | .accountStorageGenerationChanged id prior =>
    some (v.setEntry id { v.entries id with storageGeneration := prior })

/-- A transient inverse needs its key's bucket. -/
def ready (e : JournalEntry) (s : State) : Prop :=
  match e with
  | .transientChanged accountId slot _ => ⟨accountId, slot⟩ ∈ s.transient.keys
  | _ => True

theorem worklist_dropLast (ids : Nat → StorageId) (first count : Nat) :
    (worklist ids first count).dropLast = worklist ids first (count - 1) := by
  cases count with
  | zero => rfl
  | succ count => simp [worklist, List.range_succ]

theorem worklist_getLast? {ids : Nat → StorageId} {first count : Nat} {id : StorageId}
    (h : (worklist ids first count).getLast? = some id) : ids (first + (count - 1)) = id := by
  cases count with
  | zero => cases h
  | succ count => simpa [worklist, List.range_succ] using h

theorem length_worklist (ids : Nat → StorageId) (first count : Nat) :
    (worklist ids first count).length = count := by
  simp [worklist]

/-- Writing outside a worklist. -/
theorem worklist_update {ids : Nat → StorageId} {first count i : Nat} (id : StorageId)
    (h : ∀ k < count, first + k ≠ i) :
    worklist (Function.update ids i id) first count = worklist ids first count := by
  refine List.map_congr_left fun k hk => ?_
  exact Function.update_of_ne (h k (List.mem_range.mp hk)) id ids

/-- Writing at the end of a worklist. -/
theorem worklist_append (ids : Nat → StorageId) (first count : Nat) (id : StorageId) :
    worklist (Function.update ids (first + count) id) first (count + 1) =
      worklist ids first count ++ [id] := by
  have hinit : worklist (Function.update ids (first + count) id) first count =
      worklist ids first count := worklist_update id fun k hk => by omega
  rw [← hinit]
  simp [worklist, List.range_succ]

theorem seeAccount_write (s : State) (id : AccountId) (field : AccountField)
    (account : AccountState) :
    seeAccount s id (field.write account) = field.writeSeen (seeAccount s id account) := by
  cases field <;> rfl

theorem seeAccount_forget {s : State} (hepoch : s.currentWarmEpoch ≠ 0) (id : AccountId)
    (account : AccountState) :
    seeAccount s id (forgetTransaction account) = (seeAccount s id account).forget := by
  simp [seeAccount, forgetTransaction, AccountSeen.forget, worklist, Ne.symm hepoch]

theorem seeSlot_forget {s : State} (hepoch : s.currentWarmEpoch ≠ 0) (row : StorageState) :
    seeSlot s { row with transactionEpoch := 0 } = (seeSlot s row).forget := by
  simp [seeSlot, SlotSeen.forget, Ne.symm hepoch]

/-- Restoring a record does to the view what `undo` says. -/
theorem restoreEntry_view {e : JournalEntry} {s : State} {v : View} (hready : ready e s)
    (hundo : undo e (view s) = some v) : ∃ s', restoreEntry e s = .ok s' ∧ view s' = v := by
  cases e with
  | transientChanged accountId slot prior =>
    obtain ⟨t, hset⟩ : ∃ t, transientTableSet s.transient ⟨accountId, slot⟩ prior = .ok t :=
      ⟨_, transientTableSet_mem prior hready⟩
    refine ⟨{ s with transient := t }, ?_, ?_⟩
    · simp only [restoreEntry, transientStorageRestore, hset, ok_bind]
    · injection hundo with hundo
      subst hundo
      apply View.ext <;> try rfl
      exact (transientTableSet_value hset).1
  | warmAccountChanged id priorEpoch =>
    have hentry := view_setEntry s id { s.entries id with warmEpoch := priorEpoch } rfl
    exact ⟨_, rfl, hentry.trans (Option.some.inj hundo)⟩
  | warmStorageChanged id priorEpoch => exact ⟨_, rfl, Option.some.inj hundo⟩
  | accountFieldChanged id prior =>
    refine ⟨_, rfl, ?_⟩
    rw [accountFieldRestore, view_setAccount, seeAccount_write]
    exact Option.some.inj hundo
  | accountTransactionListed =>
    simp only [undo] at hundo
    split at hundo
    · cases hundo
    · rename_i hepoch
      split at hundo
      · rename_i id hlast
        injection hundo with hundo
        refine ⟨_, rfl, ?_⟩
        have hrows : s.acctTxRows.getLast? = some id := hlast
        simp only [accountTransactionPopLast, hrows]
        rw [view_setAccount_rows, seeAccount_forget hepoch]
        exact hundo
      · cases hundo
  | accountStorageListed id =>
    simp only [undo] at hundo
    split at hundo
    · cases hundo
    · rename_i hepoch
      split at hundo
      · rename_i storageId hlast
        injection hundo with hundo
        refine ⟨_, rfl, ?_⟩
        have hids := worklist_getLast? hlast
        simp only [accountTransactionStoragePopLast, storageTransactionForget, hids]
        rw [view_setStorage, view_setAccount, ← hundo]
        have haccount : seeAccount s id
            { s.states id with
              transactionStorageCount := (s.states id).transactionStorageCount - 1 } =
            { (view s).accounts id with
              worklist := ((view s).accounts id).worklist.dropLast } := by
          simp only [seeAccount, view, worklist_dropLast]
        rw [haccount]
        exact congrArg (View.setSlot _ _) (seeSlot_forget hepoch _)
      · cases hundo
  | logAppended =>
    simp only [undo] at hundo
    split at hundo
    · rename_i record hlast
      injection hundo with hundo
      refine ⟨_, rfl, ?_⟩
      have hrecords : s.logs.records.getLast? = some record := hlast
      simp only [logsRevertLast, hrecords]
      exact hundo
    · cases hundo
  | storageValueChanged id prior =>
    exact ⟨_, rfl, (view_setStorage s _ _).trans (Option.some.inj hundo)⟩
  | storageRowGenerationChanged id prior =>
    exact ⟨_, rfl, (view_setStorage s _ _).trans (Option.some.inj hundo)⟩
  | accountStorageGenerationChanged id prior =>
    have hentry := view_setEntry s id { s.entries id with storageGeneration := prior } rfl
    exact ⟨_, rfl, hentry.trans (Option.some.inj hundo)⟩

/-- Restoring a record takes no bucket away. -/
theorem restoreEntry_keys {e : JournalEntry} {s s' : State} (h : restoreEntry e s = .ok s')
    {key : TransientKey} (hkey : key ∈ s.transient.keys) : key ∈ s'.transient.keys := by
  cases e with
  | transientChanged accountId slot prior =>
    obtain ⟨t, hset, ht⟩ := bind_eq_ok.mp h
    injection ht with ht
    subst ht
    exact (transientTableSet_value hset).2.2 key hkey
  | accountTransactionListed =>
    injection h with h
    subst h
    unfold accountTransactionPopLast
    split <;> exact hkey
  | logAppended =>
    injection h with h
    subst h
    unfold logsRevertLast
    split <;> exact hkey
  | _ =>
    injection h with h
    subst h
    exact hkey

/-- The journal's records are inverses on what is seen. -/
def hostInverse : Inverse restoreEntry View where
  view := view
  undo := undo
  ready := ready
  restores _ _ _ hready hundo := restoreEntry_view hready hundo
  ready_restore e e' s s' h hready := by
    cases e' with
    | transientChanged accountId slot prior => exact restoreEntry_keys h hready
    | _ => trivial

/-- The frame operations, over a journal of `capacity` records. -/
def hostRollback (capacity : Nat) : Rollback State JournalEntry Halt where
  restore := restoreEntry
  checkpoint := stateJournalCheckpoint capacity
  commit := stateJournalCommit capacity
  revert := stateJournalRevert
  checkpoint_ok h h' hok := by
    unfold stateJournalCheckpoint push at hok
    split at hok
    · exact nomatch hok
    · exact (Except.ok.inj hok).symm
  commit_ok h h' hok := by
    unfold stateJournalCommit push at hok
    split at hok
    · exact nomatch hok
    · exact (Except.ok.inj hok).symm
  revert_balanced h j k hj hjournal := by
    rw [stateJournalRevert, hjournal, replay_balanced _ _ hj]
    rfl

end EvmSail.Optimised
