/-
# `EvmSail.Optimised.HostState` — the semantic state of the optimised host

The account, storage, transient and log tables of the optimised contract
host, its warm epochs, and the journal that every rollback-visible
mutation goes through.  The block access list fixes the schema before
execution: which accounts have a row, and which interval of storage rows
each of them owns.  Rows are functions of their ids.  An address without
a row is `none` to `lookupAccountId`.

Nothing is deleted.  A transaction's overlay of a row is valid while the
row's `transactionEpoch` is the current one, and a slot's value while its
generation is its account's.
-/
import EvmSail.Prelude
import EvmSail.Lib.Journal

namespace EvmSail.Optimised

open Fallible Journal

abbrev Address := BitVec 160

abbrev AccountId := Nat

abbrev StorageId := Nat

abbrev StorageGeneration := Nat

def accountIdNone : AccountId := 0

def storageInitialGeneration : StorageGeneration := 1

/-- `UINT32_MAX`, past which no generation advances. -/
def uint32Max : Nat := 2 ^ 32 - 1

/-! ## Tables -/

/-- Block-local identity and execution metadata of an account. -/
structure AccountEntry where
  address : Address
  storageBegin : StorageId
  storageChangeCount : Nat
  storageCount : Nat
  warmEpoch : Nat
  storageGeneration : StorageGeneration

structure AccountValue where
  nonce : Nat
  balance : Word
  codeHash : Hash
  exists_ : Bool
  deriving DecidableEq

/-- Mutable account state; `original` is captured on the first mutation of
a transaction. -/
structure AccountState where
  current : AccountValue
  original : AccountValue
  originalStorageGeneration : StorageGeneration
  transactionEpoch : Nat
  transactionStorageCount : Nat
  created : Bool
  selfdestructed : Bool
  dirty : Bool

structure StorageSchema where
  slot : Word
  warmEpoch : Nat

/-- Mutable storage state; `original` is the block-start value. -/
structure StorageState where
  current : Word
  original : Word
  transactionOriginal : Word
  storageGeneration : StorageGeneration
  transactionOriginalGeneration : StorageGeneration
  transactionEpoch : Nat

structure TransientKey where
  accountId : AccountId
  slot : Word
  deriving DecidableEq

/-- The keys of the live buckets of the transient table, and their
values. -/
structure TransientTable where
  keys : List TransientKey
  values : TransientKey → Word
  capacity : Nat

structure LogRecord where
  address : Address
  topicOffset : Nat
  topicCount : Nat
  dataOffset : Nat
  dataLength : Nat

structure LogTable where
  records : List LogRecord
  topics : List Word
  data : List Byte
  transactionStart : Nat
  recordCapacity : Nat
  topicCapacity : Nat
  dataCapacity : Nat

/-- The host's static tables. -/
structure State where
  currentWarmEpoch : Nat
  accountCount : Nat
  entries : AccountId → AccountEntry
  states : AccountId → AccountState
  acctTxRows : List AccountId
  transactionStorageIds : Nat → StorageId
  storageCount : Nat
  schema : StorageId → StorageSchema
  storage : StorageId → StorageState
  transient : TransientTable
  logs : LogTable

/-- The payload and the field of one account inverse. -/
inductive AccountField where
  | balance (prior : Word)
  | nonce (prior : Nat)
  | codeHash (prior : Hash)
  | exists_ (prior : Bool)
  | created (prior : Bool)
  | selfdestructed (prior : Bool)
  deriving DecidableEq

/-- The journal's inverse events; frame markers are the journal's own. -/
inductive JournalEntry where
  | transientChanged (accountId : AccountId) (slot prior : Word)
  | warmAccountChanged (id : AccountId) (priorEpoch : Nat)
  | warmStorageChanged (id : StorageId) (priorEpoch : Nat)
  | accountFieldChanged (id : AccountId) (prior : AccountField)
  | accountTransactionListed
  | accountStorageListed (id : AccountId)
  | logAppended
  | storageValueChanged (id : StorageId) (prior : Word)
  | storageRowGenerationChanged (id : StorageId) (prior : StorageGeneration)
  | accountStorageGenerationChanged (id : AccountId) (prior : StorageGeneration)

abbrev Host := Journaled State JournalEntry

/-! ## Row updates -/

def State.setEntry (s : State) (id : AccountId) (entry : AccountEntry) : State :=
  { s with entries := Function.update s.entries id entry }

def State.setAccount (s : State) (id : AccountId) (account : AccountState) : State :=
  { s with states := Function.update s.states id account }

def State.setSchema (s : State) (id : StorageId) (row : StorageSchema) : State :=
  { s with schema := Function.update s.schema id row }

def State.setStorage (s : State) (id : StorageId) (row : StorageState) : State :=
  { s with storage := Function.update s.storage id row }

def modify (h : Host) (f : State → State) : Host := { h with state := f h.state }

/-! ## Lookups -/

/-- The row of an address in the schema that the block access list
defined. -/
def lookupAccountId (s : State) (address : Address) : Option AccountId :=
  (List.range s.accountCount).find? fun id =>
    id ≠ accountIdNone ∧ (s.entries id).address = address

/-- The row of a required account. -/
def getAccountId (s : State) (address : Address) : Result AccountId :=
  match lookupAccountId s address with
  | some id => .ok id
  | none => fatalError .invalidBlockAccessList

/-- Binary search for a slot in `[low, high)`. -/
def storageResolveSlotRange (schema : StorageId → StorageSchema) (slot : Word)
    (low high : Nat) : Option StorageId :=
  if low < high then
    let middle := low + (high - low) / 2
    if (schema middle).slot < slot then storageResolveSlotRange schema slot (middle + 1) high
    else if slot < (schema middle).slot then storageResolveSlotRange schema slot low middle
    else some middle
  else
    none
termination_by high - low
decreasing_by all_goals omega

/-- The row of a slot: an account's changed slots come before those it only
reads, each part in order. -/
def storageResolveSlot (s : State) (first : StorageId) (changeCount count : Nat)
    (slot : Word) : Result (Option StorageId) :=
  if count < changeCount ∨ s.storageCount < first ∨ s.storageCount - first < count then
    fatalError .invalidBlockAccessList
  else
    match storageResolveSlotRange s.schema slot first (first + changeCount) with
    | some id => .ok (some id)
    | none => .ok (storageResolveSlotRange s.schema slot (first + changeCount) (first + count))

/-- A slot's row in the interval of an account. -/
def resolveAccountSlot (s : State) (id : AccountId) (slot : Word) :
    Result (Option StorageId) :=
  let entry := s.entries id
  storageResolveSlot s entry.storageBegin entry.storageChangeCount entry.storageCount slot

/-! ## Restoring -/

/-- The value of the field that `field` names. -/
def AccountField.read (field : AccountField) (account : AccountState) : AccountField :=
  match field with
  | .balance _ => .balance account.current.balance
  | .nonce _ => .nonce account.current.nonce
  | .codeHash _ => .codeHash account.current.codeHash
  | .exists_ _ => .exists_ account.current.exists_
  | .created _ => .created account.created
  | .selfdestructed _ => .selfdestructed account.selfdestructed

def AccountField.write (field : AccountField) (account : AccountState) : AccountState :=
  match field with
  | .balance v => { account with current := { account.current with balance := v } }
  | .nonce v => { account with current := { account.current with nonce := v } }
  | .codeHash v => { account with current := { account.current with codeHash := v } }
  | .exists_ v => { account with current := { account.current with exists_ := v } }
  | .created v => { account with created := v }
  | .selfdestructed v => { account with selfdestructed := v }

def accountFieldRestore (s : State) (id : AccountId) (prior : AccountField) : State :=
  s.setAccount id (prior.write (s.states id))

def accountWarmRestore (s : State) (id : AccountId) (priorEpoch : Nat) : State :=
  s.setEntry id { s.entries id with warmEpoch := priorEpoch }

def storageWarmRestore (s : State) (id : StorageId) (priorEpoch : Nat) : State :=
  s.setSchema id { s.schema id with warmEpoch := priorEpoch }

/-- Takes the row out of its transaction. -/
def forgetTransaction (account : AccountState) : AccountState :=
  { account with
    transactionEpoch := 0
    transactionStorageCount := 0
    created := false
    selfdestructed := false }

def accountTransactionPopLast (s : State) : State :=
  match s.acctTxRows.getLast? with
  | some id =>
    { s.setAccount id (forgetTransaction (s.states id)) with
      acctTxRows := s.acctTxRows.dropLast }
  | none => s

def storageTransactionForget (s : State) (id : StorageId) : State :=
  s.setStorage id { s.storage id with transactionEpoch := 0 }

def accountTransactionStoragePopLast (s : State) (id : AccountId) : State :=
  let count := (s.states id).transactionStorageCount - 1
  let storageId := s.transactionStorageIds ((s.entries id).storageBegin + count)
  storageTransactionForget
    (s.setAccount id { s.states id with transactionStorageCount := count }) storageId

def accountStorageGenerationRestore (s : State) (id : AccountId)
    (generation : StorageGeneration) : State :=
  s.setEntry id { s.entries id with storageGeneration := generation }

def storageValueRestore (s : State) (id : StorageId) (prior : Word) : State :=
  s.setStorage id { s.storage id with current := prior }

def storageGenerationRestore (s : State) (id : StorageId) (prior : StorageGeneration) : State :=
  s.setStorage id { s.storage id with storageGeneration := prior }

def transientTableGet (t : TransientTable) (key : TransientKey) : Option Word :=
  if key ∈ t.keys then some (t.values key) else none

/-- Sets an existing key, or claims a free bucket below the table's load
limit. -/
def transientTableSet (t : TransientTable) (key : TransientKey) (value : Word) :
    Result TransientTable :=
  if key ∈ t.keys then
    .ok { t with values := Function.update t.values key value }
  else if t.capacity * 7 ≤ t.keys.length * 10 then
    .error .guestAbort
  else
    .ok { t with keys := t.keys ++ [key], values := Function.update t.values key value }

def transientStorageRestore (s : State) (accountId : AccountId) (slot value : Word) :
    Result State := do
  let transient ← transientTableSet s.transient ⟨accountId, slot⟩ value
  .ok { s with transient := transient }

def logsRevertLast (s : State) : State :=
  match s.logs.records.getLast? with
  | some record =>
    { s with
      logs :=
        { s.logs with
          records := s.logs.records.dropLast
          topics := s.logs.topics.take record.topicOffset
          data := s.logs.data.take record.dataOffset } }
  | none => s

/-- What replaying one journal entry does. -/
def restoreEntry (e : JournalEntry) (s : State) : Result State :=
  match e with
  | .transientChanged accountId slot prior => transientStorageRestore s accountId slot prior
  | .warmAccountChanged id priorEpoch => .ok (accountWarmRestore s id priorEpoch)
  | .warmStorageChanged id priorEpoch => .ok (storageWarmRestore s id priorEpoch)
  | .accountFieldChanged id prior => .ok (accountFieldRestore s id prior)
  | .accountTransactionListed => .ok (accountTransactionPopLast s)
  | .accountStorageListed id => .ok (accountTransactionStoragePopLast s id)
  | .logAppended => .ok (logsRevertLast s)
  | .storageValueChanged id prior => .ok (storageValueRestore s id prior)
  | .storageRowGenerationChanged id prior => .ok (storageGenerationRestore s id prior)
  | .accountStorageGenerationChanged id prior =>
    .ok (accountStorageGenerationRestore s id prior)

/-! ## The journal -/

section

variable (capacity : Nat)

/-- Appends a record, in an arena of `capacity` records. -/
def push (h : Host) (r : Record JournalEntry) : Result Host :=
  if capacity ≤ h.journal.length then .error .guestAbort else .ok (h.record r)

def stateJournalCheckpoint (h : Host) : Result Host := push capacity h .checkpointed

def stateJournalCommit (h : Host) : Result Host := push capacity h .committed

def stateJournalRevert (h : Host) : Result Host :=
  replay restoreEntry .guestAbort 0 h.journal h.state

def stateJournalReset (h : Host) : Host := { h with journal := [] }

/-! ## Warm epochs -/

def warmReset (s : State) (currentTransactionEpoch : Nat) : State :=
  { s with currentWarmEpoch := currentTransactionEpoch + 1 }

/-- An address without a row is cold. -/
def accountIsWarm (s : State) (address : Address) : Bool :=
  match lookupAccountId s address with
  | none => false
  | some id => s.currentWarmEpoch ≤ (s.entries id).warmEpoch

/-- An address without a row stays untracked. -/
def accountMarkWarm (h : Host) (address : Address) : Result Host :=
  match lookupAccountId h.state address with
  | none => .ok h
  | some id =>
    if (h.state.entries id).warmEpoch < h.state.currentWarmEpoch then do
      let h ← push capacity h (.change (.warmAccountChanged id (h.state.entries id).warmEpoch))
      .ok (modify h fun s =>
        s.setEntry id { s.entries id with warmEpoch := s.currentWarmEpoch })
    else
      .ok h

def storageIdIsWarm (s : State) (storageId : Option StorageId) : Bool :=
  match storageId with
  | none => false
  | some id => s.currentWarmEpoch ≤ (s.schema id).warmEpoch

def storageIdMarkWarm (h : Host) (storageId : Option StorageId) : Result Host :=
  match storageId with
  | none => .ok h
  | some id =>
    if (h.state.schema id).warmEpoch < h.state.currentWarmEpoch then do
      let h ← push capacity h (.change (.warmStorageChanged id (h.state.schema id).warmEpoch))
      .ok (modify h fun s =>
        s.setSchema id { s.schema id with warmEpoch := s.currentWarmEpoch })
    else
      .ok h

def storageMarkWarm (h : Host) (address : Address) (slot : Word) : Result Host :=
  match lookupAccountId h.state address with
  | none => .ok h
  | some id => do
    let storageId ← resolveAccountSlot h.state id slot
    storageIdMarkWarm capacity h storageId

/-! ## Account mutations -/

/-- Captures the transaction-start value once. -/
def accountTransactionTouch (h : Host) (id : AccountId) : Result Host :=
  if (h.state.states id).transactionEpoch = h.state.currentWarmEpoch then
    .ok h
  else do
    let h ← push capacity h (.change .accountTransactionListed)
    .ok (modify h fun s =>
      { s.setAccount id
          { s.states id with
            original := (s.states id).current
            originalStorageGeneration := (s.entries id).storageGeneration
            transactionEpoch := s.currentWarmEpoch
            transactionStorageCount := 0
            created := false
            selfdestructed := false } with
        acctTxRows := s.acctTxRows ++ [id] })

/-- Journals and writes one field, if it changes. -/
def writeField (h : Host) (id : AccountId) (next : AccountField) : Result Host :=
  let prior := next.read (h.state.states id)
  if prior = next then
    .ok h
  else do
    let h ← push capacity h (.change (.accountFieldChanged id prior))
    .ok (modify h fun s => s.setAccount id (next.write (s.states id)))

/-- Clears storage by advancing the account's generation. -/
def accountClearStorageGeneration (h : Host) (id : AccountId) : Result Host := do
  let h ← accountTransactionTouch capacity h id
  let generation := (h.state.entries id).storageGeneration
  let h ← push capacity h (.change (.accountStorageGenerationChanged id generation))
  if generation = uint32Max then
    .error .guestAbort
  else
    .ok (modify h fun s =>
      s.setEntry id { s.entries id with storageGeneration := generation + 1 })

/-- A full account row, as `store_account` passes it. -/
structure AccountUpdate where
  nonce : Nat
  balance : Word
  codeHash : Hash
  exists_ : Bool
  storageCleared : Bool
  created : Bool
  selfdestructed : Bool

/-- Replaces every semantic field of an account. -/
def hostAccountUpdate (h : Host) (address : Address) (u : AccountUpdate) : Result Host := do
  let id ← getAccountId h.state address
  let h ← accountTransactionTouch capacity h id
  let h ← writeField capacity h id (.nonce u.nonce)
  let h ← writeField capacity h id (.balance u.balance)
  let h ← writeField capacity h id (.codeHash u.codeHash)
  let h ← writeField capacity h id (.exists_ u.exists_)
  let h ← writeField capacity h id (.created ((h.state.states id).created || u.created))
  let h ← writeField capacity h id (.selfdestructed u.selfdestructed)
  if u.storageCleared ∧
      (h.state.entries id).storageGeneration =
        (h.state.states id).originalStorageGeneration then
    accountClearStorageGeneration capacity h id
  else
    .ok h

/-- Updates one field of the transaction's view. -/
def acctTxSetField (h : Host) (address : Address) (next : AccountField) : Result Host := do
  let id ← getAccountId h.state address
  let h ← accountTransactionTouch capacity h id
  writeField capacity h id next

def acctTxSetBalance (h : Host) (address : Address) (balance : Word) : Result Host :=
  acctTxSetField capacity h address (.balance balance)

def acctTxSetNonce (h : Host) (address : Address) (nonce : Nat) : Result Host :=
  acctTxSetField capacity h address (.nonce nonce)

def acctTxSetCodeHash (h : Host) (address : Address) (codeHash : Hash) : Result Host :=
  acctTxSetField capacity h address (.codeHash codeHash)

/-! ## Storage mutations -/

def storageTxClear (h : Host) (address : Address) : Result Host := do
  let id ← getAccountId h.state address
  accountClearStorageGeneration capacity h id

/-- Lists a storage row in its account's own interval of the worklist. -/
def accountTransactionStorageAppend (h : Host) (id : AccountId) (storageId : StorageId) :
    Result Host := do
  let h ← push capacity h (.change (.accountStorageListed id))
  .ok (modify h fun s =>
    let count := (s.states id).transactionStorageCount
    { s.setAccount id { s.states id with transactionStorageCount := count + 1 } with
      transactionStorageIds :=
        Function.update s.transactionStorageIds ((s.entries id).storageBegin + count)
          storageId })

/-- Binds the row's transaction-start value on its first write. -/
def storageTransactionBind (h : Host) (accountId : AccountId) (storageId : StorageId)
    (orig : Word) : Result Host :=
  if (h.state.storage storageId).transactionEpoch ≠ h.state.currentWarmEpoch then
    accountTransactionStorageAppend capacity
      (modify h fun s =>
        s.setStorage storageId
          { s.storage storageId with
            transactionOriginal := orig
            transactionOriginalGeneration := (s.storage storageId).storageGeneration
            transactionEpoch := s.currentWarmEpoch })
      accountId storageId
  else
    .ok h

def writeStorageValue (h : Host) (id : StorageId) (v : Word) : Result Host :=
  if (h.state.storage id).current ≠ v then do
    let h ← push capacity h (.change (.storageValueChanged id (h.state.storage id).current))
    .ok (modify h fun s => s.setStorage id { s.storage id with current := v })
  else
    .ok h

def writeStorageGeneration (h : Host) (id : StorageId) (generation : StorageGeneration) :
    Result Host :=
  if (h.state.storage id).storageGeneration ≠ generation then do
    let h ← push capacity h
      (.change (.storageRowGenerationChanged id (h.state.storage id).storageGeneration))
    .ok (modify h fun s =>
      s.setStorage id { s.storage id with storageGeneration := generation })
  else
    .ok h

/-- Writes a slot in the generation its caller holds. -/
def storageUpdateById (h : Host) (accountId : AccountId) (generation : StorageGeneration)
    (storageId : Option StorageId) (v orig : Word) : Result Host := do
  let h ← accountTransactionTouch capacity h accountId
  match storageId with
  | none => fatalError .invalidBlockAccessList
  | some id => do
    let h ← storageTransactionBind capacity h accountId id orig
    let h ← writeStorageValue capacity h id v
    writeStorageGeneration capacity h id generation

/-! ## Transient storage and logs -/

def transientStorageWrite (h : Host) (address : Address) (slot v : Word) : Result Host := do
  let accountId ← getAccountId h.state address
  let prior := (transientTableGet h.state.transient ⟨accountId, slot⟩).getD 0
  let h ← push capacity h (.change (.transientChanged accountId slot prior))
  let transient ← transientTableSet h.state.transient ⟨accountId, slot⟩ v
  .ok (modify h fun s => { s with transient := transient })

def transientStorageRead (s : State) (address : Address) (slot : Word) : Result Word := do
  let accountId ← getAccountId s address
  .ok ((transientTableGet s.transient ⟨accountId, slot⟩).getD 0)

def logBegin (h : Host) (address : Address) : Result Host :=
  if h.state.logs.recordCapacity ≤ h.state.logs.records.length then .error .guestAbort
  else do
    let h ← push capacity h (.change .logAppended)
    .ok (modify h fun s =>
      { s with
        logs :=
          { s.logs with
            records := s.logs.records ++
              [{ address := address
                 topicOffset := s.logs.topics.length
                 topicCount := 0
                 dataOffset := s.logs.data.length
                 dataLength := 0 }] } })

/-- Changes the record that `log_begin` opened. -/
def modifyLast (records : List LogRecord) (f : LogRecord → LogRecord) : List LogRecord :=
  match records.getLast? with
  | some record => records.dropLast ++ [f record]
  | none => records

def logAddTopic (h : Host) (topic : Word) : Result Host :=
  if h.state.logs.topicCapacity ≤ h.state.logs.topics.length then .error .guestAbort
  else
    .ok (modify h fun s =>
      { s with
        logs :=
          { s.logs with
            topics := s.logs.topics ++ [topic]
            records := modifyLast s.logs.records fun r =>
              { r with topicCount := r.topicCount + 1 } } })

def logAddData (h : Host) (bytes : List Byte) : Result Host :=
  if h.state.logs.dataCapacity - h.state.logs.data.length < bytes.length then
    .error .guestAbort
  else
    .ok (modify h fun s =>
      { s with
        logs :=
          { s.logs with
            data := s.logs.data ++ bytes
            records := modifyLast s.logs.records fun r =>
              { r with dataLength := r.dataLength + bytes.length } } })

/-- A log with its topics and its payload. -/
def appendLog (h : Host) (address : Address) (topics : List Word) (bytes : List Byte) :
    Result Host := do
  let h ← logBegin capacity h address
  let h ← topics.foldlM logAddTopic h
  logAddData h bytes

end

/-! ## Reads -/

structure AccountView where
  value : AccountValue
  storageCleared : Bool
  created : Bool
  selfdestructed : Bool
  deriving DecidableEq

/-- The transaction's overlay of an account. -/
def accountTransactionView (s : State) (address : Address) : Option AccountView :=
  match lookupAccountId s address with
  | none => none
  | some id =>
    if (s.states id).transactionEpoch ≠ s.currentWarmEpoch then none
    else
      some
        { value := (s.states id).current
          storageCleared := (s.entries id).storageGeneration ≠ storageInitialGeneration
          created := (s.states id).created
          selfdestructed := (s.states id).selfdestructed }

/-- The value at the start of the transaction. -/
def accountBlockView (s : State) (address : Address) : Option AccountView :=
  match lookupAccountId s address with
  | none => none
  | some id =>
    let account := s.states id
    let active := account.transactionEpoch = s.currentWarmEpoch
    let generation :=
      if active then account.originalStorageGeneration
      else (s.entries id).storageGeneration
    some
      { value := if active then account.original else account.current
        storageCleared := generation ≠ storageInitialGeneration
        created := false
        selfdestructed := false }

structure StorageView where
  current : Word
  original : Word
  deriving DecidableEq

/-- A slot as the holder of `generation` sees it. -/
def storageLoadView (s : State) (generation : StorageGeneration)
    (storageId : Option StorageId) : Result StorageView :=
  match storageId with
  | none => fatalError .invalidBlockAccessList
  | some id =>
    let row := s.storage id
    if row.storageGeneration ≠ generation then .ok { current := 0, original := 0 }
    else if row.transactionEpoch = s.currentWarmEpoch then
      .ok { current := row.current, original := row.transactionOriginal }
    else .ok { current := row.current, original := row.current }

def storageRangeHasWrites (s : State) (first count generation : Nat) : Bool :=
  (List.range' first count).any fun id =>
    (s.storage id).storageGeneration = generation ∧ (s.storage id).current ≠ 0

def storageHasWrites (s : State) (address : Address) : Result Bool := do
  let id ← getAccountId s address
  let entry := s.entries id
  .ok (storageRangeHasWrites s entry.storageBegin entry.storageCount entry.storageGeneration)

/-- The storage rows a transaction has listed for an account. -/
def accountTransactionStorageIds (s : State) (id : AccountId) : List StorageId :=
  (List.range (s.states id).transactionStorageCount).map fun i =>
    s.transactionStorageIds ((s.entries id).storageBegin + i)

end EvmSail.Optimised
