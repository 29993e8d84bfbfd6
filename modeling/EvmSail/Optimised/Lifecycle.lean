/-
# `EvmSail.Optimised.Lifecycle` — the runs of the optimised host

A block's access list is loaded into the tables.  Then operations,
checkpoints, commits and reverts follow each other in any order; between
transactions, when no frame is open, overlays are merged and reset.
`Reachable frames h` is every host reached so, with the hosts at which
its open frames were checkpointed.

`stateJournal_exact` is what rollback promises of all of them: reverting
the innermost frame gives every read back as it was at its checkpoint,
committing it changes nothing and leaves it to the enclosing frame.
-/
import EvmSail.Optimised.Rollback

namespace EvmSail.Optimised

open Fallible Journal

/-! ## Loading the block access list -/

/-- An account of the block access list, with its authenticated pre-state:
no value when the parent state has no such account, and the parent's
value of each slot. -/
structure BalAccount where
  address : Address
  prestate : Option (Nat × Word × Hash)
  storageChanges : List (Word × Word)
  storageReads : List (Word × Word)

def keccakEmpty : Hash :=
  hashFromBits 0xc5d2460186f7233c927e7db2dcc703c0e500b653ca82273b7bfad8045d85a470

def emptyAccountValue : AccountValue where
  nonce := 0
  balance := 0
  codeHash := keccakEmpty
  exists_ := false

def emptyAccountState : AccountState where
  current := { emptyAccountValue with codeHash := zeroHash }
  original := { emptyAccountValue with codeHash := zeroHash }
  originalStorageGeneration := 0
  transactionEpoch := 0
  transactionStorageCount := 0
  created := false
  selfdestructed := false
  dirty := false

/-- A row without an interval of storage. -/
def unboundEntry (address : Address) (storageGeneration : StorageGeneration) :
    AccountEntry where
  address := address
  storageBegin := uint32Max
  storageChangeCount := 0
  storageCount := 0
  warmEpoch := 0
  storageGeneration := storageGeneration

def emptyStorageState : StorageState where
  current := 0
  original := 0
  transactionOriginal := 0
  storageGeneration := 0
  transactionOriginalGeneration := 0
  transactionEpoch := 0

/-- The tables' capacities. -/
structure Limits where
  transientCapacity : Nat
  recordCapacity : Nat
  topicCapacity : Nat
  dataCapacity : Nat

/-- The tables before a block is loaded; row zero is a sentinel. -/
def initialState (limits : Limits) : State where
  currentWarmEpoch := 0
  accountCount := 1
  entries _ := unboundEntry 0 0
  states _ := emptyAccountState
  acctTxRows := []
  transactionStorageIds _ := 0
  storageCount := 0
  schema _ := { slot := 0, warmEpoch := 0 }
  storage _ := emptyStorageState
  transient := { keys := [], values := fun _ => 0, capacity := limits.transientCapacity }
  logs :=
    { records := []
      topics := []
      data := []
      transactionStart := 0
      recordCapacity := limits.recordCapacity
      topicCapacity := limits.topicCapacity
      dataCapacity := limits.dataCapacity }

/-- Appends a slot that begins in its account's incarnation. -/
def storagePreload (s : State) (id : AccountId) (slot value : Word) : State :=
  { (s.setSchema s.storageCount { slot := slot, warmEpoch := 0 }).setStorage s.storageCount
      { current := value
        original := value
        transactionOriginal := value
        storageGeneration := (s.entries id).storageGeneration
        transactionOriginalGeneration := (s.entries id).storageGeneration
        transactionEpoch := 0 } with
    storageCount := s.storageCount + 1 }

/-- Preloads slots, each past the previous one. -/
def balPreloadSlots (id : AccountId) :
    Option Word → List (Word × Word) → State → Result State
  | _, [], s => .ok s
  | previous, (slot, value) :: slots, s =>
    if previous.any fun p => slot ≤ p then fatalError .invalidBlockAccessList
    else balPreloadSlots id (some slot) slots (storagePreload s id slot value)

/-- Appends an account's row. -/
def accountSchemaInsert (s : State) (address : Address) : Result State :=
  if s.accountCount > accountIdNone + 1 ∧
      address ≤ (s.entries (s.accountCount - 1)).address then
    fatalError .invalidBlockAccessList
  else
    .ok
      { (s.setEntry s.accountCount (unboundEntry address storageInitialGeneration)).setAccount
          s.accountCount emptyAccountState with
        accountCount := s.accountCount + 1 }

/-- Installs the pre-state of an account; one that the parent does not have
begins on a cleared incarnation. -/
def accountBlockInitialize (s : State) (id : AccountId) (prestate : Option (Nat × Word × Hash)) :
    State :=
  match prestate with
  | some (nonce, balance, codeHash) =>
    s.setAccount id
      { s.states id with
        current :=
          { nonce := nonce
            balance := balance
            codeHash := codeHash
            exists_ := true } }
  | none =>
    (s.setAccount id { s.states id with current := emptyAccountValue }).setEntry id
      { s.entries id with storageGeneration := (s.entries id).storageGeneration + 1 }

def accountBindStorageSchema (s : State) (id : AccountId) (first : StorageId)
    (changeCount count : Nat) : State :=
  s.setEntry id
    { s.entries id with
      storageBegin := first
      storageChangeCount := changeCount
      storageCount := count }

/-- Loads one account with its slots. -/
def loadAccount (s : State) (account : BalAccount) : Result State := do
  let id := s.accountCount
  let s ← accountSchemaInsert s account.address
  let s := accountBlockInitialize s id account.prestate
  let first := s.storageCount
  let s ← balPreloadSlots id none account.storageChanges s
  let changeCount := s.storageCount - first
  let s ← balPreloadSlots id none account.storageReads s
  .ok (accountBindStorageSchema s id first changeCount (s.storageCount - first))

def initializeBlockAccessListState (limits : Limits) (accounts : List BalAccount) :
    Result State :=
  accounts.foldlM loadAccount (initialState limits)

/-! ## Merging and resetting a transaction -/

/-- The lifecycle choices that the active fork selects. -/
structure TransactionMergeSemantics where
  deleteOnlyCreated : Bool
  preserveSelfdestructBalance : Bool

/-- A change recorded for the block access list. -/
inductive BalChange where
  | nonce (epoch : Nat) (id : AccountId) (nonce : Nat)
  | balance (epoch : Nat) (id : AccountId) (balance : Word)
  | code (epoch : Nat) (id : AccountId) (codeHash : Hash)
  | storage (epoch : Nat) (id : AccountId) (storageId : StorageId) (value : Word)
  deriving DecidableEq

/-- What deletion leaves of an account. -/
def deletedValue (semantics : TransactionMergeSemantics) (value : AccountValue) : AccountValue :=
  if !semantics.preserveSelfdestructBalance ∨ value.balance = 0 then
    { nonce := 0, balance := 0, codeHash := keccakEmpty, exists_ := false }
  else
    { value with nonce := 0, codeHash := keccakEmpty, exists_ := true }

def accountDeleted (semantics : TransactionMergeSemantics) (account : AccountState) : Bool :=
  account.selfdestructed && (!semantics.deleteOnlyCreated || account.created)

/-- Deletes a selfdestructed account and its storage incarnation. -/
def deleteAccount (semantics : TransactionMergeSemantics) (s : State) (id : AccountId) :
    Result State :=
  if accountDeleted semantics (s.states id) then
    if (s.entries id).storageGeneration = uint32Max then .error .guestAbort
    else
      .ok
        ((s.setEntry id
            { s.entries id with
              storageGeneration := (s.entries id).storageGeneration + 1 }).setAccount id
          { s.states id with current := deletedValue semantics (s.states id).current })
  else
    .ok s

/-- The field changes of an account. -/
def accountChanges (epoch : Nat) (id : AccountId) (account : AccountState) : List BalChange :=
  (if account.current.nonce ≠ account.original.nonce then
    [.nonce epoch id account.current.nonce] else []) ++
  (if account.current.balance ≠ account.original.balance then
    [.balance epoch id account.current.balance] else []) ++
  (if account.current.codeHash ≠ account.original.codeHash then
    [.code epoch id account.current.codeHash] else [])

/-- Commits one row of the overlay. -/
def mergeAccount (semantics : TransactionMergeSemantics) (epoch : Nat)
    (merged : State × List BalChange) (id : AccountId) : Result (State × List BalChange) := do
  let s ← deleteAccount semantics merged.1 id
  let account := s.states id
  let changed := account.current ≠ account.original ∨
    (s.entries id).storageGeneration ≠ account.originalStorageGeneration
  .ok
    (s.setAccount id { account with dirty := account.dirty || decide changed },
      merged.2 ++ accountChanges epoch id account)

def accountTransactionMerge (semantics : TransactionMergeSemantics) (epoch : Nat) (s : State) :
    Result (State × List BalChange) :=
  s.acctTxRows.foldlM (mergeAccount semantics epoch) (s, [])

/-- The change of one slot, from its value at the start of the transaction. -/
def storageRowChange (s : State) (epoch : Nat) (id : AccountId) (storageId : StorageId) :
    List BalChange :=
  let row := s.storage storageId
  let originalGeneration := (s.states id).originalStorageGeneration
  let finalGeneration := (s.entries id).storageGeneration
  let originalValue :=
    if row.transactionEpoch = s.currentWarmEpoch then row.transactionOriginal
    else if row.storageGeneration = originalGeneration then row.current
    else 0
  let finalValue := if row.storageGeneration = finalGeneration then row.current else 0
  if finalValue = originalValue then [] else [.storage epoch id storageId finalValue]

/-- The slots that the merge of an account looks at: all of them when its
storage was cleared. -/
def mergedStorageIds (s : State) (id : AccountId) : List StorageId :=
  if (s.states id).originalStorageGeneration ≠ (s.entries id).storageGeneration then
    List.range' (s.entries id).storageBegin (s.entries id).storageCount
  else
    accountTransactionStorageIds s id

def storageTransactionMerge (epoch : Nat) (s : State) : List BalChange :=
  s.acctTxRows.flatMap fun id =>
    if (s.states id).current.exists_ then
      (mergedStorageIds s id).flatMap (storageRowChange s epoch id)
    else []

/-- Takes the listed slots out of their transaction. -/
def storageTxReset (s : State) : State :=
  s.acctTxRows.foldl
    (fun s id => (accountTransactionStorageIds s id).foldl storageTransactionForget s) s

/-- Takes the listed accounts out of their transaction. -/
def acctTxReset (s : State) : State :=
  { s.acctTxRows.foldl (fun s id => s.setAccount id (forgetTransaction (s.states id))) s with
    acctTxRows := [] }

def txMerge (semantics : TransactionMergeSemantics) (epoch : Nat) (s : State) :
    Result (State × List BalChange) := do
  let (s, changes) ← accountTransactionMerge semantics epoch s
  .ok (acctTxReset (storageTxReset s), changes ++ storageTransactionMerge epoch s)

def transientStorageReset (s : State) : State :=
  { s with transient := { s.transient with keys := [] } }

def logsTxReset (s : State) : State :=
  { s with logs := { s.logs with transactionStart := s.logs.records.length } }

/-- Resets every store of a transaction, and the journal. -/
def txReset (currentTransactionEpoch : Nat) (h : Host) : Host :=
  stateJournalReset
    { h with
      state := logsTxReset (transientStorageReset
        (warmReset (acctTxReset (storageTxReset h.state)) currentTransactionEpoch)) }

/-! ## Operations and runs -/

/-- The operations that the kernel issues.  A storage write names its slot
and carries the generation that its caller's frame holds. -/
inductive HostOp where
  | accountUpdate (address : Address) (u : AccountUpdate)
  | setBalance (address : Address) (balance : Word)
  | setNonce (address : Address) (nonce : Nat)
  | setCodeHash (address : Address) (codeHash : Hash)
  | storageClear (address : Address)
  | storageUpdate (address : Address) (generation : StorageGeneration) (slot v orig : Word)
  | transientWrite (address : Address) (slot v : Word)
  | accountMarkWarm (address : Address)
  | storageMarkWarm (address : Address) (slot : Word)
  | storageIdMarkWarm (storageId : Option StorageId)
  | log (address : Address) (topics : List Word) (bytes : List Byte)

section

variable (capacity : Nat)

/-- Resolves the slot in its account's interval, then writes it. -/
def storageUpdate (h : Host) (address : Address) (generation : StorageGeneration)
    (slot v orig : Word) : Result Host := do
  let id ← getAccountId h.state address
  let storageId ← resolveAccountSlot h.state id slot
  storageUpdateById capacity h id generation storageId v orig

def HostOp.step (o : HostOp) (h : Host) : Result Host :=
  match o with
  | .accountUpdate address u => hostAccountUpdate capacity h address u
  | .setBalance address balance => acctTxSetBalance capacity h address balance
  | .setNonce address nonce => acctTxSetNonce capacity h address nonce
  | .setCodeHash address codeHash => acctTxSetCodeHash capacity h address codeHash
  | .storageClear address => storageTxClear capacity h address
  | .storageUpdate address generation slot v orig =>
    Optimised.storageUpdate capacity h address generation slot v orig
  | .transientWrite address slot v => transientStorageWrite capacity h address slot v
  | .accountMarkWarm address => Optimised.accountMarkWarm capacity h address
  | .storageMarkWarm address slot => Optimised.storageMarkWarm capacity h address slot
  | .storageIdMarkWarm storageId => Optimised.storageIdMarkWarm capacity h storageId
  | .log address topics bytes => appendLog capacity h address topics bytes

/-- The hosts of a block, with the checkpoints of their open frames. -/
inductive Reachable : List Host → Host → Prop
  | start {limits : Limits} {accounts : List BalAccount} {s : State} (epoch : Nat) :
      initializeBlockAccessListState limits accounts = .ok s →
      Reachable [] { state := warmReset s epoch, journal := [] }
  | op {frames : List Host} {h h' : Host} (o : HostOp) :
      Reachable frames h → o.step capacity h = .ok h' → Reachable frames h'
  | checkpoint {frames : List Host} {h h' : Host} :
      Reachable frames h → stateJournalCheckpoint capacity h = .ok h' →
      Reachable (h :: frames) h'
  | commit {frames : List Host} {f h h' : Host} :
      Reachable (f :: frames) h → stateJournalCommit capacity h = .ok h' → Reachable frames h'
  | revert {frames : List Host} {f h h' : Host} :
      Reachable (f :: frames) h → stateJournalRevert h = .ok h' → Reachable frames h'
  | merge {h : Host} {s : State} {changes : List BalChange}
      (semantics : TransactionMergeSemantics) (epoch : Nat) :
      Reachable [] h → txMerge semantics epoch h.state = .ok (s, changes) →
      Reachable [] { h with state := s }
  | reset {h : Host} (epoch : Nat) : Reachable [] h → Reachable [] (txReset epoch h)
  | warmReset {h : Host} (epoch : Nat) :
      Reachable [] h → h.state.acctTxRows = [] →
      Reachable [] { h with state := Optimised.warmReset h.state epoch }

end

/-! ## Every operation covers its change -/

section

variable (capacity : Nat) (h : Host)

theorem storageUpdate_kept (address : Address) (generation : StorageGeneration)
    (slot v orig : Word) : Kept h (storageUpdate capacity h address generation slot v orig) := by
  refine Ends.bind (getAccountId_ends h address) fun id _ => ?_
  refine Ends.bind (storageResolveSlot_ends _ _ _ _ _) fun storageId howns => ?_
  exact storageUpdateById_kept capacity h generation v orig howns

/-- Reverting needs no more than this of each operation. -/
theorem HostOp.step_kept (o : HostOp) : Kept h (o.step capacity h) := by
  cases o with
  | accountUpdate address u => exact hostAccountUpdate_kept capacity h address u
  | setBalance address balance => exact acctTxSetField_kept capacity h address _
  | setNonce address nonce => exact acctTxSetField_kept capacity h address _
  | setCodeHash address codeHash => exact acctTxSetField_kept capacity h address _
  | storageClear address => exact storageTxClear_kept capacity h address
  | storageUpdate address generation slot v orig =>
    exact storageUpdate_kept capacity h address generation slot v orig
  | transientWrite address slot v => exact transientStorageWrite_kept capacity h address slot v
  | accountMarkWarm address => exact accountMarkWarm_kept capacity h address
  | storageMarkWarm address slot => exact storageMarkWarm_kept capacity h address slot
  | storageIdMarkWarm storageId => exact storageIdMarkWarm_kept capacity h storageId
  | log address topics bytes => exact appendLog_kept capacity h address topics bytes

end

/-! ## Between transactions -/

/-- No row is in a transaction, and the accounts' intervals are apart. -/
structure Quiet (s : State) : Prop where
  rows : s.acctTxRows = []
  account : ∀ id, forgetTransaction (s.states id) = s.states id
  slot : ∀ id, (s.storage id).transactionEpoch = 0
  disjoint : ∀ id id', id ≠ id' → ∀ storageId,
    (s.entries id).Owns storageId → ¬ (s.entries id').Owns storageId

theorem Quiet.sound {s : State} (hq : Quiet s) (hepoch : s.currentWarmEpoch ≠ 0) :
    Sound (view s) where
  epoch := hepoch
  rows := by
    show s.acctTxRows.Nodup
    rw [hq.rows]
    exact List.nodup_nil
  held := by
    intro id hid
    have hid' : id ∈ s.acctTxRows := hid
    rw [hq.rows] at hid'
    exact nomatch hid'
  idle := by
    intro id _
    show (seeAccount s id (s.states id)).Idle
    rw [← hq.account id, seeAccount_forget hepoch]
    exact ⟨rfl, rfl, rfl, rfl, rfl⟩
  nodup := by
    intro id
    show (seeAccount s id (s.states id)).worklist.Nodup
    rw [← hq.account id, seeAccount_forget hepoch]
    exact List.nodup_nil
  listed := by
    intro id storageId hmem
    have hmem' : storageId ∈ (seeAccount s id (s.states id)).worklist := hmem
    rw [← hq.account id, seeAccount_forget hepoch] at hmem'
    cases hmem'
  active := fun storageId => .inl ⟨hq.slot storageId, if_neg (by rw [hq.slot]; exact hepoch.symm)⟩
  disjoint := hq.disjoint

theorem Quiet.warmReset_sound {s : State} (hq : Quiet s) (epoch : Nat) :
    Sound (view (warmReset s epoch)) :=
  Quiet.sound ⟨hq.rows, hq.account, hq.slot, hq.disjoint⟩ (Nat.succ_ne_zero epoch)

/-! ### Loading -/

/-- While the access list is loaded, intervals end where the table does. -/
structure Loading (s : State) : Prop extends Quiet s where
  bounded : ∀ id storageId, (s.entries id).Owns storageId → storageId < s.storageCount

/-- Loading goes on: rows are appended and entries stay. -/
structure Loads (s s' : State) : Prop where
  loading : Loading s'
  entries : s'.entries = s.entries
  accountCount : s'.accountCount = s.accountCount
  storageCount : s.storageCount ≤ s'.storageCount

theorem initialState_loading (limits : Limits) : Loading (initialState limits) where
  rows := rfl
  account _ := rfl
  slot _ := rfl
  disjoint _ _ _ _ howns := absurd howns.1 (Nat.not_le_of_lt howns.2)
  bounded _ _ howns := absurd howns.1 (Nat.not_le_of_lt howns.2)

theorem storagePreload_loads {s : State} (hl : Loading s) (id : AccountId) (slot value : Word) :
    Loads s (storagePreload s id slot value) where
  loading :=
    { rows := hl.rows
      account := hl.account
      slot := by
        intro storageId
        rcases eq_or_ne storageId s.storageCount with rfl | hne
        · simp [storagePreload, State.setStorage]
        · simpa [storagePreload, State.setStorage, State.setSchema, hne] using hl.slot storageId
      disjoint := hl.disjoint
      bounded := fun id' storageId howns =>
        (hl.bounded id' storageId howns).trans (Nat.lt_succ_self _) }
  entries := rfl
  accountCount := rfl
  storageCount := Nat.le_succ _

theorem balPreloadSlots_ends (id : AccountId) (slots : List (Word × Word)) :
    ∀ (previous : Option Word) {s : State}, Loading s →
      Ends (Loads s) (fun _ => True) (balPreloadSlots id previous slots s) := by
  induction slots with
  | nil => exact fun _ s hl => ⟨hl, rfl, rfl, le_rfl⟩
  | cons slot slots ih =>
    intro previous s hl
    refine Ends.ite (fun _ => trivial) fun _ => ?_
    have hp := storagePreload_loads hl id slot.1 slot.2
    refine (ih _ hp.loading).mono fun s' hs' => ?_
    exact ⟨hs'.loading, hs'.entries.trans hp.entries, hs'.accountCount.trans hp.accountCount,
      hp.storageCount.trans hs'.storageCount⟩

/-- A row that owns nothing yet. -/
theorem Loading.setUnbound {s : State} (hl : Loading s) (id : AccountId) (entry : AccountEntry)
    (account : AccountState) (hentry : entry.storageCount = 0)
    (haccount : forgetTransaction account = account) (count : Nat) :
    Loading { (s.setEntry id entry).setAccount id account with accountCount := count } := by
  have howns : ∀ id' storageId, (Function.update s.entries id entry id').Owns storageId →
      (s.entries id').Owns storageId := by
    intro id' storageId h
    rcases eq_or_ne id' id with rfl | hne
    · rw [Function.update_self] at h
      have hlt := h.2
      rw [hentry] at hlt
      exact absurd h.1 (Nat.not_le_of_lt hlt)
    · rwa [Function.update_of_ne hne] at h
  exact
    { rows := hl.rows
      account := by
        intro id'
        rcases eq_or_ne id' id with rfl | hne
        · simpa [State.setAccount] using haccount
        · simpa [State.setAccount, State.setEntry, hne] using hl.account id'
      slot := hl.slot
      disjoint := fun id₁ id₂ hne storageId h₁ h₂ =>
        hl.disjoint id₁ id₂ hne storageId (howns id₁ storageId h₁) (howns id₂ storageId h₂)
      bounded := fun id' storageId h => hl.bounded id' storageId (howns id' storageId h) }

/-- An account takes the rows that were appended for it. -/
theorem Loading.bind {s : State} (hl : Loading s) {first : StorageId} (id : AccountId)
    (changeCount : Nat) (hfirst : first ≤ s.storageCount)
    (hbelow : ∀ id' storageId, (s.entries id').Owns storageId → storageId < first) :
    Loading (accountBindStorageSchema s id first changeCount (s.storageCount - first)) := by
  have howns : ∀ id' storageId,
      ((accountBindStorageSchema s id first changeCount (s.storageCount - first)).entries
        id').Owns storageId →
      (id' = id ∧ first ≤ storageId ∧ storageId < s.storageCount) ∨
        (id' ≠ id ∧ (s.entries id').Owns storageId) := by
    intro id' storageId h
    rcases eq_or_ne id' id with rfl | hne
    · simp only [accountBindStorageSchema, State.setEntry, Function.update_self,
        AccountEntry.Owns, Nat.add_sub_cancel' hfirst] at h
      exact .inl ⟨rfl, h⟩
    · simp only [accountBindStorageSchema, State.setEntry, Function.update_of_ne hne] at h
      exact .inr ⟨hne, h⟩
  exact
    { rows := hl.rows
      account := hl.account
      slot := hl.slot
      disjoint := by
        intro id₁ id₂ hne storageId h₁ h₂
        rcases howns id₁ storageId h₁ with ⟨hid₁, hle, -⟩ | ⟨-, howns₁⟩
        · rcases howns id₂ storageId h₂ with ⟨hid₂, -⟩ | ⟨-, howns₂⟩
          · exact hne (hid₁.trans hid₂.symm)
          · exact absurd (hbelow id₂ storageId howns₂) (Nat.not_lt_of_le hle)
        · rcases howns id₂ storageId h₂ with ⟨-, hle, -⟩ | ⟨-, howns₂⟩
          · exact absurd (hbelow id₁ storageId howns₁) (Nat.not_lt_of_le hle)
          · exact hl.disjoint id₁ id₂ hne storageId howns₁ howns₂
      bounded := by
        intro id' storageId h
        rcases howns id' storageId h with ⟨-, -, hlt⟩ | ⟨-, h⟩
        · exact hlt
        · exact hl.bounded id' storageId h }

theorem accountBlockInitialize_loading {s : State} (hl : Loading s) (address : Address)
    (prestate : Option (Nat × Word × Hash)) (count : Nat) :
    Loading (accountBlockInitialize
      { (s.setEntry s.accountCount (unboundEntry address storageInitialGeneration)).setAccount
          s.accountCount emptyAccountState with
        accountCount := count } s.accountCount prestate) := by
  cases prestate with
  | some prestate =>
    have hunbound := hl.setUnbound s.accountCount (unboundEntry address storageInitialGeneration)
      { emptyAccountState with
        current :=
          { nonce := prestate.1
            balance := prestate.2.1
            codeHash := prestate.2.2
            exists_ := true } } rfl rfl count
    simpa [accountBlockInitialize, State.setAccount, State.setEntry] using hunbound
  | none =>
    have hunbound := hl.setUnbound s.accountCount
      (unboundEntry address (storageInitialGeneration + 1))
      { emptyAccountState with current := emptyAccountValue } rfl rfl count
    simpa [accountBlockInitialize, State.setAccount, State.setEntry, unboundEntry] using hunbound

theorem loadAccount_ends {s : State} (hl : Loading s) (account : BalAccount) :
    Ends Loading (fun _ => True) (loadAccount s account) := by
  have hinsert : Ends
      (fun s' => Loading (accountBlockInitialize s' s.accountCount account.prestate))
      (fun _ => True) (accountSchemaInsert s account.address) :=
    Ends.ite (fun _ => trivial) fun _ =>
      accountBlockInitialize_loading hl account.address account.prestate _
  refine Ends.bind hinsert fun s₁ hl₁ => ?_
  refine Ends.bind (balPreloadSlots_ends _ _ _ hl₁) fun s₂ hl₂ => ?_
  refine Ends.bind (balPreloadSlots_ends _ _ _ hl₂.loading) fun s₃ hl₃ => ?_
  refine hl₃.loading.bind _ _ (hl₂.storageCount.trans hl₃.storageCount) fun id' storageId h => ?_
  rw [hl₃.entries, hl₂.entries] at h
  exact hl₁.bounded id' storageId h

theorem initializeBlockAccessListState_ends (limits : Limits) (accounts : List BalAccount) :
    Ends Loading (fun _ => True) (initializeBlockAccessListState limits accounts) :=
  Ends.foldlM (fun _ account _ hl => loadAccount_ends hl account) (initialState_loading limits)

/-! ### Merging -/

theorem Sound.setEntry_state {s : State} (hs : Sound (view s)) (id : AccountId)
    (entry : AccountEntry) (hfirst : entry.storageBegin = (s.entries id).storageBegin)
    (hcount : entry.storageCount = (s.entries id).storageCount) :
    Sound (view (s.setEntry id entry)) := by
  rw [view_setEntry s id entry hfirst]
  exact hs.setEntry hfirst hcount

theorem Sound.setAccount_state {s : State} (hs : Sound (view s)) {id : AccountId}
    {account : AccountState} (hmem : id ∈ s.acctTxRows)
    (hepoch : account.transactionEpoch = (s.states id).transactionEpoch)
    (hcount : account.transactionStorageCount = (s.states id).transactionStorageCount) :
    Sound (view (s.setAccount id account)) := by
  rw [view_setAccount s id account]
  refine hs.setAccount hmem hepoch ?_
  show worklist _ _ _ = worklist _ _ _
  rw [hcount]

theorem accountTransactionMerge_ends (semantics : TransactionMergeSemantics) (epoch : Nat)
    {s : State} (hs : Sound (view s)) :
    Ends (fun merged => Sound (view merged.1)) (fun _ => True)
      (accountTransactionMerge semantics epoch s) := by
  have hstep : ∀ merged, ∀ id ∈ s.acctTxRows,
      Sound (view merged.1) ∧ merged.1.acctTxRows = s.acctTxRows →
      Ends (fun merged' => Sound (view merged'.1) ∧ merged'.1.acctTxRows = s.acctTxRows)
        (fun _ => True) (mergeAccount semantics epoch merged id) := by
    intro merged id hid ⟨hm, hrows⟩
    have hdelete : Ends (fun s' => Sound (view s') ∧ s'.acctTxRows = s.acctTxRows)
        (fun _ => True) (deleteAccount semantics merged.1 id) := by
      refine Ends.ite (fun _ => Ends.ite (fun _ => trivial) fun _ => ?_) fun _ => ⟨hm, hrows⟩
      have hentry := hm.setEntry_state id
        { merged.1.entries id with
          storageGeneration := (merged.1.entries id).storageGeneration + 1 } rfl rfl
      exact ⟨hentry.setAccount_state (hrows.symm ▸ hid) rfl rfl, hrows⟩
    refine Ends.bind hdelete fun s' ⟨hs', hrows'⟩ => ?_
    exact ⟨hs'.setAccount_state (hrows'.symm ▸ hid) rfl rfl, hrows'⟩
  exact (Ends.foldlM hstep ⟨hs, rfl⟩).mono fun _ hm => hm.1

/-! ### Resetting -/

/-- A fold of forgotten slots. -/
theorem foldl_storageTransactionForget (ids : List StorageId) (s : State) :
    ids.foldl storageTransactionForget s =
      { s with
        storage := fun id =>
          if id ∈ ids then { s.storage id with transactionEpoch := 0 } else s.storage id } := by
  induction ids generalizing s with
  | nil => simp
  | cons storageId ids ih =>
    rw [List.foldl_cons, ih]
    congr 1
    funext id
    rcases eq_or_ne id storageId with rfl | hne
    · simp [storageTransactionForget, State.setStorage]
    · simp [storageTransactionForget, State.setStorage, hne]

/-- Forgetting slots leaves the worklists. -/
theorem storageTxReset_eq (s : State) :
    storageTxReset s =
      (s.acctTxRows.flatMap (accountTransactionStorageIds s)).foldl storageTransactionForget s := by
  have hfold : ∀ (rows : List AccountId) (t : State),
      accountTransactionStorageIds t = accountTransactionStorageIds s →
      rows.foldl
        (fun t id => (accountTransactionStorageIds t id).foldl storageTransactionForget t) t =
      (rows.flatMap (accountTransactionStorageIds s)).foldl storageTransactionForget t := by
    intro rows
    induction rows with
    | nil => exact fun _ _ => rfl
    | cons id rows ih =>
      intro t ht
      rw [List.foldl_cons, List.flatMap_cons, List.foldl_append, ht]
      refine ih _ ?_
      rw [foldl_storageTransactionForget]
      exact ht
  exact hfold s.acctTxRows s rfl

/-- A fold of forgotten accounts. -/
theorem foldl_forgetTransaction (rows : List AccountId) (s : State) :
    rows.foldl (fun s id => s.setAccount id (forgetTransaction (s.states id))) s =
      { s with
        states := fun id =>
          if id ∈ rows then forgetTransaction (s.states id) else s.states id } := by
  induction rows generalizing s with
  | nil => simp
  | cons id' rows ih =>
    rw [List.foldl_cons, ih]
    congr 1
    funext id
    rcases eq_or_ne id id' with rfl | hne
    · simp [State.setAccount, forgetTransaction]
    · simp [State.setAccount, hne]

/-- A reset leaves no row in a transaction. -/
theorem Sound.txReset_quiet {s : State} (hs : Sound (view s)) :
    Quiet (acctTxReset (storageTxReset s)) ∧
      (acctTxReset (storageTxReset s)).currentWarmEpoch = s.currentWarmEpoch := by
  rw [storageTxReset_eq, foldl_storageTransactionForget, acctTxReset, foldl_forgetTransaction]
  refine ⟨⟨rfl, fun id => ?_, fun storageId => ?_, hs.disjoint⟩, rfl⟩
  · by_cases hid : id ∈ s.acctTxRows
    · simp [hid, forgetTransaction]
    · have hidle := hs.idle id hid
      have hcount : (s.states id).transactionStorageCount = 0 := by
        have hlength := congrArg List.length hidle.worklist
        simpa [view, seeAccount, length_worklist] using hlength
      have hepoch : (s.states id).transactionEpoch = 0 := hidle.epoch
      have hcreated : (s.states id).created = false := hidle.created
      have hdestroyed : (s.states id).selfdestructed = false := hidle.selfdestructed
      simp only [hid, if_false]
      cases hstate : s.states id
      simp_all [forgetTransaction]
  · rcases hs.active storageId with ⟨hepoch, -⟩ | ⟨id, hmem⟩
    · have hrow : (s.storage storageId).transactionEpoch = 0 := hepoch
      by_cases hlisted : storageId ∈ s.acctTxRows.flatMap (accountTransactionStorageIds s)
      · simp [hlisted]
      · simpa [hlisted] using hrow
    · have hid : id ∈ s.acctTxRows := by
        by_contra hid
        rw [(hs.idle id hid).worklist] at hmem
        cases hmem
      have hlisted : storageId ∈ s.acctTxRows.flatMap (accountTransactionStorageIds s) :=
        List.mem_flatMap.mpr ⟨id, hid, hmem⟩
      simp [hlisted]

/-! ## Every reachable host -/

/-- The invariant of a run. -/
theorem Reachable.stacked {capacity : Nat} {frames : List Host} {h : Host}
    (hr : Reachable capacity frames h) :
    Stacked (hostRollback capacity) hostInverse Sound frames h := by
  induction hr with
  | @start limits accounts s epoch hload =>
    have hl := (initializeBlockAccessListState_ends limits accounts).of_ok hload
    exact hl.toQuiet.warmReset_sound epoch
  | @op frames h h' o _ ho ih =>
    have hkeeps := (o.step_kept capacity h).of_ok ho
    obtain ⟨htracks, hsound⟩ := hkeeps ih.sound
    exact ih.step htracks hsound
  | checkpoint _ hcheckpoint ih => exact ih.checkpoint hcheckpoint
  | commit _ hcommit ih => exact (ih.commit hcommit).2
  | @revert frames f h h' _ hrevert ih =>
    obtain ⟨h'', hrevert', -, -, hstacked⟩ := ih.revert
    have heq : h' = h'' := Except.ok.inj (hrevert.symm.trans hrevert')
    exact heq ▸ hstacked
  | @merge h s changes semantics epoch _ hmerge ih =>
    obtain ⟨⟨s', changes'⟩, hmerged, hs⟩ := bind_eq_ok.mp hmerge
    have hsound : Sound (view s') := (accountTransactionMerge_ends semantics epoch ih).of_ok hmerged
    injection hs with hs
    injection hs with hs
    subst hs
    obtain ⟨hquiet, hepoch⟩ := hsound.txReset_quiet
    exact hquiet.sound (hepoch ▸ hsound.epoch)
  | @reset h epoch _ ih =>
    obtain ⟨hquiet, -⟩ := Sound.txReset_quiet ih
    have hreset := hquiet.warmReset_sound epoch
    exact ⟨hreset.epoch, hreset.rows, hreset.held, hreset.idle, hreset.nodup, hreset.listed,
      hreset.active, hreset.disjoint⟩
  | @warmReset h epoch _ hrows ih =>
    have hsound : Sound (view h.state) := ih
    obtain ⟨hquiet, -⟩ := hsound.txReset_quiet
    rw [storageTxReset_eq, acctTxReset, foldl_storageTransactionForget, foldl_forgetTransaction]
      at hquiet
    simp only [hrows] at hquiet
    exact Quiet.warmReset_sound
      ⟨hrows, fun id => by simpa using hquiet.account id, fun id => by simpa using hquiet.slot id,
        hquiet.disjoint⟩ epoch

/-! ## What rollback restores -/

/-- Every read of the host returns the same from `s` and `s'`: account
values, flags and views, slot values and generations, transient values,
warm epochs, logs, worklists, and the originals that the transaction has
captured. -/
structure SameReads (s s' : State) : Prop where
  warmEpoch : s.currentWarmEpoch = s'.currentWarmEpoch
  entries : s.entries = s'.entries
  schema : s.schema = s'.schema
  accountIsWarm : accountIsWarm s = accountIsWarm s'
  storageIdIsWarm : storageIdIsWarm s = storageIdIsWarm s'
  current : ∀ id, (s.states id).current = (s'.states id).current
  flags : ∀ id, (s.states id).created = (s'.states id).created ∧
    (s.states id).selfdestructed = (s'.states id).selfdestructed ∧
    (s.states id).dirty = (s'.states id).dirty
  transactionView : accountTransactionView s = accountTransactionView s'
  blockView : accountBlockView s = accountBlockView s'
  rows : s.acctTxRows = s'.acctTxRows
  worklists : accountTransactionStorageIds s = accountTransactionStorageIds s'
  captured : ∀ id ∈ s.acctTxRows, (s.states id).original = (s'.states id).original ∧
    (s.states id).originalStorageGeneration = (s'.states id).originalStorageGeneration
  slotValue : ∀ id, (s.storage id).current = (s'.storage id).current ∧
    (s.storage id).original = (s'.storage id).original ∧
    (s.storage id).storageGeneration = (s'.storage id).storageGeneration
  bound : ∀ id, ∀ storageId ∈ accountTransactionStorageIds s id,
    (s.storage storageId).transactionOriginal = (s'.storage storageId).transactionOriginal ∧
    (s.storage storageId).transactionOriginalGeneration =
      (s'.storage storageId).transactionOriginalGeneration
  loadView : storageLoadView s = storageLoadView s'
  hasWrites : storageHasWrites s = storageHasWrites s'
  transient : transientStorageRead s = transientStorageRead s'
  logs : s.logs = s'.logs

/-- The overlay of an active row determines what it captured. -/
theorem overlay_inj {α : Type} {epoch epoch' current : Nat} {x y : α}
    (hepoch : epoch = epoch') (hactive : epoch = current)
    (h : (if epoch = current then some x else none) =
      if epoch' = current then some y else none) : x = y := by
  rw [← hepoch, if_pos hactive, if_pos hactive] at h
  exact Option.some.inj h

/-- Reads see no more than the view. -/
theorem SameReads.of_view {s s' : State} (hsound : Sound (view s)) (h : view s = view s') :
    SameReads s s' := by
  have hwarm : s.currentWarmEpoch = s'.currentWarmEpoch := congrArg View.currentWarmEpoch h
  have hcount : s.accountCount = s'.accountCount := congrArg View.accountCount h
  have hentries : s.entries = s'.entries := congrArg View.entries h
  have hschema : s.schema = s'.schema := congrArg View.schema h
  have hrows : s.acctTxRows = s'.acctTxRows := congrArg View.acctTxRows h
  have hseen : ∀ id, seeAccount s id (s.states id) = seeAccount s' id (s'.states id) :=
    fun id => congrFun (congrArg View.accounts h) id
  have hslot : ∀ id, seeSlot s (s.storage id) = seeSlot s' (s'.storage id) :=
    fun id => congrFun (congrArg View.slots h) id
  have hcurrent : ∀ id, (s.states id).current = (s'.states id).current :=
    fun id => congrArg AccountSeen.current (hseen id)
  have hepoch : ∀ id, (s.states id).transactionEpoch = (s'.states id).transactionEpoch :=
    fun id => congrArg AccountSeen.transactionEpoch (hseen id)
  have hcreated : ∀ id, (s.states id).created = (s'.states id).created :=
    fun id => congrArg AccountSeen.created (hseen id)
  have hdestroyed : ∀ id, (s.states id).selfdestructed = (s'.states id).selfdestructed :=
    fun id => congrArg AccountSeen.selfdestructed (hseen id)
  have hcaptured : ∀ id, (s.states id).transactionEpoch = s'.currentWarmEpoch →
      ((s.states id).original, (s.states id).originalStorageGeneration) =
        ((s'.states id).original, (s'.states id).originalStorageGeneration) := by
    intro id hactive
    have hoverlay := congrArg AccountSeen.overlay (hseen id)
    simp only [seeAccount, hwarm] at hoverlay
    exact overlay_inj (hepoch id) hactive hoverlay
  have hvalue : ∀ id, (s.storage id).current = (s'.storage id).current :=
    fun id => congrArg SlotSeen.current (hslot id)
  have hgeneration : ∀ id, (s.storage id).storageGeneration = (s'.storage id).storageGeneration :=
    fun id => congrArg SlotSeen.storageGeneration (hslot id)
  have hslotEpoch : ∀ id, (s.storage id).transactionEpoch = (s'.storage id).transactionEpoch :=
    fun id => congrArg SlotSeen.transactionEpoch (hslot id)
  have hbound : ∀ id, (s.storage id).transactionEpoch = s'.currentWarmEpoch →
      ((s.storage id).transactionOriginal, (s.storage id).transactionOriginalGeneration) =
        ((s'.storage id).transactionOriginal, (s'.storage id).transactionOriginalGeneration) := by
    intro id hactive
    have hoverlay := congrArg SlotSeen.overlay (hslot id)
    simp only [seeSlot, hwarm] at hoverlay
    exact overlay_inj (hslotEpoch id) hactive hoverlay
  have hlookup : lookupAccountId s = lookupAccountId s' := by
    funext address
    simp only [lookupAccountId, hcount, hentries]
  have hget : getAccountId s = getAccountId s' := by
    funext address
    simp only [getAccountId, hlookup]
  exact
    { warmEpoch := hwarm
      entries := hentries
      schema := hschema
      accountIsWarm := by
        funext address
        simp only [Optimised.accountIsWarm, hlookup, hwarm, hentries]
      storageIdIsWarm := by
        funext storageId
        simp only [Optimised.storageIdIsWarm, hwarm, hschema]
      current := hcurrent
      flags := fun id => ⟨hcreated id, hdestroyed id, congrArg AccountSeen.dirty (hseen id)⟩
      transactionView := by
        funext address
        simp only [accountTransactionView, hlookup, hepoch, hwarm, hcurrent, hentries, hcreated,
          hdestroyed]
      blockView := by
        funext address
        simp only [accountBlockView, hlookup]
        cases lookupAccountId s' address with
        | none => rfl
        | some id =>
          by_cases hactive : (s'.states id).transactionEpoch = s'.currentWarmEpoch
          · have hcap := hcaptured id ((hepoch id).trans hactive)
            injection hcap with horiginal hgen
            simp only [hepoch, hwarm, hactive, if_true, horiginal, hgen]
          · simp only [hepoch, hwarm, hactive, if_false, hcurrent, hentries]
      rows := hrows
      worklists := by
        funext id
        exact congrArg AccountSeen.worklist (hseen id)
      captured := by
        intro id hid
        have hcap := hcaptured id ((hsound.held id hid).trans hwarm)
        injection hcap with horiginal hgen
        exact ⟨horiginal, hgen⟩
      slotValue := fun id => ⟨hvalue id, congrArg SlotSeen.original (hslot id), hgeneration id⟩
      bound := by
        intro id storageId hmem
        have hcap := hbound storageId ((hsound.listed id storageId hmem).2.trans hwarm)
        injection hcap with horiginal hgen
        exact ⟨horiginal, hgen⟩
      loadView := by
        funext generation storageId
        cases storageId with
        | none => rfl
        | some id =>
          by_cases hactive : (s'.storage id).transactionEpoch = s'.currentWarmEpoch
          · have hcap := hbound id ((hslotEpoch id).trans hactive)
            injection hcap with horiginal _
            simp only [storageLoadView, hgeneration, hslotEpoch, hwarm, hvalue, horiginal]
          · simp only [storageLoadView, hgeneration, hslotEpoch, hwarm, hvalue, hactive, if_false]
      hasWrites := by
        funext address
        simp only [storageHasWrites, storageRangeHasWrites, hget, hentries, hgeneration, hvalue]
      transient := by
        funext address slot
        simp only [transientStorageRead, hget]
        exact congrArg (getAccountId s' address >>= ·) (funext fun id =>
          congrArg Except.ok (congrFun (congrArg View.transient h) ⟨id, slot⟩))
      logs := congrArg View.logs h }

/-- Reverting the innermost frame of any run gives every read back as it was
at the frame's checkpoint.  Committing it changes no table, and reverting
the enclosing frame afterwards gives back what that one's checkpoint saw. -/
theorem stateJournal_exact {capacity : Nat} {frames : List Host} {f h : Host}
    (hr : Reachable capacity (f :: frames) h) :
    (∃ h', stateJournalRevert h = .ok h' ∧ SameReads h'.state f.state ∧
      h'.journal = f.journal ∧ Reachable capacity frames h') ∧
    ∀ h', stateJournalCommit capacity h = .ok h' →
      h'.state = h.state ∧ Reachable capacity frames h' ∧
      ∀ g outer, frames = g :: outer →
        ∃ h'', stateJournalRevert h' = .ok h'' ∧ SameReads h''.state g.state ∧
          h''.journal = g.journal := by
  have hstacked := hr.stacked
  refine ⟨?_, fun h' hcommit => ?_⟩
  · obtain ⟨h', hrevert, hview, hjournal, hrest⟩ := hstacked.revert
    exact ⟨h', hrevert, .of_view hrest.sound hview, hjournal, hr.revert hrevert⟩
  · obtain ⟨hstate, hrest⟩ := hstacked.commit hcommit
    refine ⟨hstate, hr.commit hcommit, fun g outer hframes => ?_⟩
    subst hframes
    obtain ⟨h'', hrevert, hview, hjournal, houter⟩ := hrest.revert
    exact ⟨h'', hrevert, .of_view houter.sound hview, hjournal⟩

/-- A loaded account whose balance is set inside a frame. -/
theorem stateJournal_exact_setBalance :
    ∃ f h : Host, (f.state.states 1).current.balance = 5 ∧
      (h.state.states 1).current.balance = 9 ∧
      ∃ h', stateJournalRevert h = .ok h' ∧ SameReads h'.state f.state := by
  obtain ⟨s, h, hload, hbalance, hstep, hwritten⟩ : ∃ s h,
      initializeBlockAccessListState ⟨8, 8, 8, 8⟩ [⟨1, some (0, 5, keccakEmpty), [(7, 3)], []⟩] =
        .ok s ∧ (s.states 1).current.balance = 5 ∧
      (HostOp.setBalance 1 9).step 8
        { state := warmReset s 0, journal := [.checkpointed] } = .ok h ∧
      (h.state.states 1).current.balance = 9 := ⟨_, _, rfl, rfl, rfl, rfl⟩
  have hrun : Reachable 8 [{ state := warmReset s 0, journal := [] }] h :=
    .op (.setBalance 1 9) (.checkpoint (.start 0 hload) rfl) hstep
  obtain ⟨⟨h', hrevert, hreads, -⟩, -⟩ := stateJournal_exact hrun
  exact ⟨_, h, hbalance, hwritten, h', hrevert, hreads⟩
end EvmSail.Optimised
