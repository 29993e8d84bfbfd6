/-
# `EvmSail.Kernel.State` — the kernel's stores and their journal

Accounts and storage live in two overlays over the parent state: the
transaction's rows over the block's rows, the block's rows over what the
witness proves.  Besides them the kernel keeps transient storage, the warm
sets, the logs, the recorder of the block access list and the code store.
All of it is one `State`; a `Host` is a state over its journal, to which
every revertible change appends what it overwrites.

Only part of the state is restored by a revert.  The block's rows are
caches of earlier reads, filled in for good, and so are the recorder and
the code store.  What a revert gives back is the `view`: the transaction's
effects, the warm sets, and what the block's rows make an account or a
slot read as (`blockAccount`, `blockSlot`), cached or not.
-/
import EvmSail.Lib.Journal
import EvmSail.Lib.Kept
import EvmSail.Mpt.Codec
import EvmSail.Primitives.Profile

namespace EvmSail.Kernel

open Fallible Journal

/-! ## Accounts -/

/-- The code hash of an account without code. -/
def keccakEmpty : Hash :=
  hashFromBits 0xc5d2460186f7233c927e7db2dcc703c0e500b653ca82273b7bfad8045d85a470

/-- The account tuple; `storageRoot` is the root its storage had in the
parent state. -/
structure AccountInfo where
  nonce : Nat
  balance : Word
  codeHash : Hash
  storageRoot : Hash
  deriving DecidableEq

structure Account where
  info : AccountInfo
  present : Bool
  storageCleared : Bool
  created : Bool
  selfdestructed : Bool
  deriving DecidableEq

def emptyAccountInfo : AccountInfo :=
  { nonce := 0, balance := 0, codeHash := keccakEmpty, storageRoot := emptyTrieRoot }

/-- The non-existent account. -/
def emptyAccount : Account :=
  { info := emptyAccountInfo
    present := false
    storageCleared := true
    created := false
    selfdestructed := false }

/-- An account of the parent state. -/
def accountFromInfo (info : AccountInfo) : Account :=
  { info := info
    present := true
    storageCleared := false
    created := false
    selfdestructed := false }

/-- The EIP-161 test: no code, no nonce, no balance. -/
def accountInfoEmpty (info : AccountInfo) : Bool :=
  info.codeHash == keccakEmpty && info.nonce == 0 && info.balance == 0

/-- Installs a tuple; an empty one makes the account non-existent. -/
def accountSetInfo (acc : Account) (info : AccountInfo) : Account :=
  if accountInfoEmpty info then
    { acc with
      info := { emptyAccountInfo with storageRoot := acc.info.storageRoot }
      present := false
      storageCleared := true }
  else
    { acc with info := info, present := true }

def accountClearStorage (acc : Account) : Account := { acc with storageCleared := true }

/-- The nonce bound of EIP-2681. -/
def accountNonceBound : Nat := 2 ^ 64 - 1

/-! ## Rows -/

/-- A current and an original (transaction-start) state. -/
structure AcctValue where
  curr : Account
  orig : Account
  deriving DecidableEq

structure StorageKey where
  addr : Address
  slot : Word
  deriving DecidableEq

structure StorageValue where
  curr : Word
  orig : Word
  deriving DecidableEq

/-- A row of the transaction's storage.  It counts while `generation` is
the active generation of its account. -/
structure StorageRow where
  generation : Nat
  value : StorageValue

/-- What the transaction's storage knows of a slot. -/
inductive StorageTxLookup where
  | hit (value : StorageValue)
  | cleared
  | miss

structure LogRecord where
  address : Address
  topics : List Word
  data : List Byte
  deriving DecidableEq

/-- Analyzed code: its bytes and the positions of its jump destinations. -/
structure Code where
  bytes : List Byte
  jumpdests : List Nat
  deriving DecidableEq

def emptyCode : Code := { bytes := [], jumpdests := [] }

/-- What the recorder of the block access list is told. -/
inductive BalEvent where
  | accountTouch (a : Address)
  | storageRead (a : Address) (slot : Word)
  | storageChange (a : Address) (slot value : Word)
  | balanceChange (a : Address) (value : Word)
  | nonceChange (a : Address) (value : Nat)
  | codeChange (a : Address) (codeHash : Hash)

/-! ## The state -/

/-- What a transaction has done so far, warmth apart.  Logs are kept with
the newest first. -/
structure Effects where
  accounts : Address → Option AcctValue
  generation : Address → Nat
  storage : StorageKey → Option StorageRow
  transient : Address → Word → Word
  logs : List LogRecord

/-- The EIP-2929 sets. -/
structure Warm where
  accounts : Address → Bool
  slots : StorageKey → Bool

/-- The rows of earlier transactions of the block, and cached reads. -/
structure BlockLayer where
  accounts : Address → Option AcctValue
  storage : StorageKey → Option StorageValue
  storageRows : List StorageKey

def initialGeneration : Nat := 1

structure State where
  effects : Effects
  warm : Warm
  /-- The worklists of the transaction's rows. -/
  acctTxRows : List Address
  storageTxRows : List StorageKey
  /-- The last storage generation given out. -/
  nextGeneration : { n : Nat // initialGeneration ≤ n }
  block : BlockLayer
  bal : List BalEvent
  codes : Hash → Option Code

/-- The effects of a transaction that has done nothing, after earlier ones
left `logs`. -/
def noEffects (logs : List LogRecord) : Effects :=
  { accounts := fun _ => none
    generation := fun _ => initialGeneration
    storage := fun _ => none
    transient := fun _ _ => 0
    logs := logs }

def coldWarm : Warm := { accounts := fun _ => false, slots := fun _ => false }

/-! ## The journal -/

/-- What one change overwrites. -/
inductive Entry where
  | account (a : Address) (prior : Option AcctValue)
  | storageWrite (key : StorageKey) (prior : Option StorageRow)
  | storageClear (a : Address) (priorGeneration : Nat)
  | transient (a : Address) (slot prior : Word)
  | warmAccount (a : Address)
  | warmSlot (key : StorageKey)
  | log

abbrev Host := Journaled State Entry

/-- The state after a change, its entry appended to the journal. -/
def Host.push (h : Host) (e : Entry) (s : State) : Host :=
  { state := s, journal := .change e :: h.journal }

/-- The state after a change that no revert takes back. -/
def Host.put (h : Host) (s : State) : Host := { h with state := s }

/-- Undoes one change; the host aborts where there is nothing to undo. -/
def restore (e : Entry) (s : State) : Result State :=
  match e with
  | .account a prior =>
    .ok { s with effects :=
      { s.effects with accounts := Function.update s.effects.accounts a prior } }
  | .storageWrite key prior =>
    .ok { s with effects :=
      { s.effects with storage := Function.update s.effects.storage key prior } }
  | .storageClear a priorGeneration =>
    .ok { s with effects :=
      { s.effects with
        generation := Function.update s.effects.generation a priorGeneration } }
  | .transient a slot prior =>
    .ok { s with effects :=
      { s.effects with
        transient :=
          Function.update s.effects.transient a
            (Function.update (s.effects.transient a) slot prior) } }
  | .warmAccount a =>
    .ok { s with warm := { s.warm with accounts := Function.update s.warm.accounts a false } }
  | .warmSlot key =>
    if s.warm.slots key then
      .ok { s with warm := { s.warm with slots := Function.update s.warm.slots key false } }
    else
      .error .guestAbort
  | .log =>
    match s.effects.logs with
    | [] => .error .guestAbort
    | _ :: logs => .ok { s with effects := { s.effects with logs := logs } }

/-- The number of checkpoints that are neither committed nor reverted,
`committed` markers of which are still to be matched. -/
def openFrames : Nat → List (Record Entry) → Nat
  | _, [] => 0
  | n, .change _ :: j => openFrames n j
  | n, .committed :: j => openFrames (n + 1) j
  | 0, .checkpointed :: j => openFrames 0 j + 1
  | n + 1, .checkpointed :: j => openFrames n j

theorem openFrames_balanced {j : List (Record Entry)} (hj : Balanced j) (n : Nat)
    (k : List (Record Entry)) : openFrames n (j ++ k) = openFrames n k := by
  induction hj generalizing n k with
  | nil => rfl
  | change _ ih => exact ih n k
  | @frame inner j _ _ ihinner ih =>
    rw [List.cons_append, List.append_assoc, List.cons_append, openFrames, ihinner]
    exact ih n k

/-- Each open frame is counted once. -/
theorem openFrames_opened {outer j : List (Record Entry)} {n : Nat} (h : Opened outer n j) :
    openFrames 0 j = openFrames 0 outer + n := by
  induction h with
  | base hj => exact openFrames_balanced hj 0 outer
  | frame hinner _ ih =>
    rw [openFrames_balanced hinner, openFrames, ih]
    rfl

def stateJournalCheckpoint (h : Host) : Result Host := .ok (h.record .checkpointed)

def stateJournalCommit (h : Host) : Result Host :=
  if openFrames 0 h.journal = 0 then .error .guestAbort else .ok (h.record .committed)

/-- Replays the journal backwards to the innermost open checkpoint. -/
def stateJournalRevert (h : Host) : Result Host :=
  replay restore .guestAbort 0 h.journal h.state

/-- The journal of the kernel state. -/
def kernelRollback : Rollback State Entry Halt where
  restore := restore
  checkpoint := stateJournalCheckpoint
  commit := stateJournalCommit
  revert := stateJournalRevert
  checkpoint_ok h h' hh := by
    cases hh
    rfl
  commit_ok h h' hh := by
    rw [stateJournalCommit] at hh
    split at hh
    · cases hh
    · cases hh
      rfl
  revert_balanced h j k hj hjk := by
    rw [stateJournalRevert, hjk, replay_balanced restore .guestAbort hj]
    rfl

/-! ## What is outside the kernel -/

/-- The protocol, the hash function and the parent state.  The witness is
read through `statelessAccountByKey` and `statelessStorageByKey`, under
hashed keys. -/
structure Env where
  profile : ProtocolProfile
  keccak256 : List Byte → Hash
  parentStateRoot : Hash
  statelessAccountByKey : Hash → Hash → Result Account
  statelessStorageByKey : Hash → Hash → Result Word

section

variable (env : Env)

/-- The active fork is `fork` or a later one. -/
def Env.atLeast (fork : Fork) : Bool := decide (fork ≤ env.profile.fork)

def Env.keccak256Address (a : Address) : Hash := env.keccak256 (addressBytes a)

def Env.keccak256Word (w : Word) : Hash := env.keccak256 (wordToHash w).toList

/-- What an account reads as before the transaction. -/
def blockAccount (s : State) (a : Address) : Result Account :=
  match s.block.accounts a with
  | some v => .ok v.curr
  | none => env.statelessAccountByKey env.parentStateRoot (env.keccak256Address a)

/-- What a slot reads as before the transaction. -/
def blockSlot (s : State) (key : StorageKey) : Result Word :=
  match s.block.storage key with
  | some v => .ok v.curr
  | none => do
    let acc ← blockAccount env s key.addr
    if acc.storageCleared then .ok 0
    else env.statelessStorageByKey acc.info.storageRoot (env.keccak256Word key.slot)

/-! ## The view -/

/-- What a revert gives back. -/
structure View where
  effects : Effects
  warm : Warm
  account : Address → Result Account
  slot : StorageKey → Result Word

def view (s : State) : View :=
  { effects := s.effects
    warm := s.warm
    account := blockAccount env s
    slot := blockSlot env s }

/-- What one entry does to the view. -/
def undo (e : Entry) (v : View) : Option View :=
  match e with
  | .account a prior =>
    some { v with effects :=
      { v.effects with accounts := Function.update v.effects.accounts a prior } }
  | .storageWrite key prior =>
    some { v with effects :=
      { v.effects with storage := Function.update v.effects.storage key prior } }
  | .storageClear a priorGeneration =>
    some { v with effects :=
      { v.effects with
        generation := Function.update v.effects.generation a priorGeneration } }
  | .transient a slot prior =>
    some { v with effects :=
      { v.effects with
        transient :=
          Function.update v.effects.transient a
            (Function.update (v.effects.transient a) slot prior) } }
  | .warmAccount a =>
    some { v with warm :=
      { v.warm with accounts := Function.update v.warm.accounts a false } }
  | .warmSlot key =>
    if v.warm.slots key then
      some { v with warm := { v.warm with slots := Function.update v.warm.slots key false } }
    else
      none
  | .log =>
    match v.effects.logs with
    | [] => none
    | _ :: logs => some { v with effects := { v.effects with logs := logs } }

/-- Undoing an entry in the state undoes it in the view, and touches
neither the block's rows nor the code store. -/
theorem restore_eq_ok (e : Entry) (s : State) (v : View)
    (h : undo e (view env s) = some v) :
    ∃ s', restore e s = .ok s' ∧ view env s' = v := by
  cases e with
  | account a prior => exact ⟨_, rfl, Option.some.inj h⟩
  | storageWrite key prior => exact ⟨_, rfl, Option.some.inj h⟩
  | storageClear a priorGeneration => exact ⟨_, rfl, Option.some.inj h⟩
  | transient a slot prior => exact ⟨_, rfl, Option.some.inj h⟩
  | warmAccount a => exact ⟨_, rfl, Option.some.inj h⟩
  | warmSlot key =>
    simp only [undo] at h
    split at h
    · next hwarm => exact ⟨_, if_pos hwarm, Option.some.inj h⟩
    · cases h
  | log =>
    simp only [undo] at h
    split at h
    · cases h
    · next logs hlogs =>
      have hlogs' : s.effects.logs = _ :: logs := hlogs
      rw [restore, hlogs']
      exact ⟨_, rfl, Option.some.inj h⟩

/-- The kernel's entries invert its changes. -/
def kernelInverse : Inverse restore View where
  view := view env
  undo := undo
  ready _ _ := True
  restores e s v _ h := restore_eq_ok env e s v h
  ready_restore _ _ _ _ _ h := h

end

end EvmSail.Kernel
