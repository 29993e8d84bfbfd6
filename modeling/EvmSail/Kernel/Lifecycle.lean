/-
# `EvmSail.Kernel.Lifecycle` — the end of a transaction

What a finished transaction has done is drained into the block's rows:
first the accounts, then the slots of the accounts that are still there.
Which accounts are deleted on the way depends on the fork.  A deletion
starts a fresh storage generation, so that what the deleted account has
stored is not drained behind it.

The recorder is told the changes; the index it files them under is not
kept here.
-/
import EvmSail.Kernel.Logs
import EvmSail.Kernel.Storage

namespace EvmSail.Kernel

open Fallible Journal

/-! ## Deletion -/

/-- The choices of a fork. -/
structure TransactionMergeSemantics where
  deleteOnlyCreated : Bool
  preserveSelfdestructBalance : Bool
  deriving DecidableEq

def transactionMergeSemantics (fork : Fork) : TransactionMergeSemantics :=
  if .amsterdam ≤ fork then ⟨true, true⟩
  else if .cancun ≤ fork then ⟨true, false⟩
  else ⟨false, false⟩

/-- Always before Cancun, from then on only in the transaction that has
created the account (EIP-6780). -/
def accountDeletedAtTxEnd (semantics : TransactionMergeSemantics) (acc : Account) : Bool :=
  acc.selfdestructed && (!semantics.deleteOnlyCreated || acc.created)

def accountDelete (acc : Account) : Account :=
  { acc with
    info := { emptyAccountInfo with storageRoot := acc.info.storageRoot }
    present := false
    storageCleared := true }

/-- Nonce, code and storage go, the balance stays (EIP-8246). -/
def accountClearPreservingBalance (acc : Account) : Account :=
  accountSetInfo (accountClearStorage acc) { acc.info with nonce := 0, codeHash := keccakEmpty }

/-- What is left of the account. -/
def deletedAccount (semantics : TransactionMergeSemantics) (acc : Account) : Account :=
  if semantics.preserveSelfdestructBalance then accountClearPreservingBalance acc
  else accountDelete acc

/-- The two differ in what the state trie holds. -/
def accountChanged (c o : Account) : Bool :=
  c.info != o.info || c.present != o.present || c.storageCleared != o.storageCleared

/-- The flags of a transaction are down. -/
def Account.settled (acc : Account) : Account :=
  { acc with created := false, selfdestructed := false }

/-! ## Writing to the block's rows -/

/-- `acct_block_write`: a row that is new keeps what was there before the
block. -/
def acctBlockWrite (a : Address) (v : AcctValue) (h : Host) : Host :=
  let orig :=
    match h.state.block.accounts a with
    | some b => b.orig
    | none => v.orig
  h.put
    { h.state with
      block :=
        { h.state.block with
          accounts :=
            Function.update h.state.block.accounts a
              (some { curr := v.curr.settled, orig := orig }) } }

/-- `storage_block_put`. -/
def storageBlockPut (key : StorageKey) (value : StorageValue) (h : Host) : Host :=
  let row := h.state.block.storage key
  let orig :=
    match row with
    | some b => b.orig
    | none => value.orig
  h.put
    { h.state with
      block :=
        { h.state.block with
          storage :=
            Function.update h.state.block.storage key (some { curr := value.curr, orig := orig })
          storageRows :=
            if row.isSome then h.state.block.storageRows else key :: h.state.block.storageRows } }

/-- `storage_block_clear`: the rows of the account no longer count. -/
def storageBlockClear (a : Address) (h : Host) : Host :=
  h.put
    { h.state with
      block :=
        { h.state.block with
          storage := fun key => if key.addr = a then none else h.state.block.storage key } }

/-! ## Draining -/

/-- Tells the recorder of a value that is not what it was. -/
def noteChange {α : Type} [DecidableEq α] (event : α → BalEvent) (curr orig : α) (h : Host) :
    Host :=
  if curr ≠ orig then balNote (event curr) h else h

/-- One account of the worklist.  A row that has been taken back is
skipped. -/
def mergeAccount (semantics : TransactionMergeSemantics) (h : Host) (a : Address) :
    Result Host :=
  match h.state.effects.accounts a with
  | none => .ok h
  | some row => do
    let deleted := accountDeletedAtTxEnd semantics row.curr
    let curr := if deleted then deletedAccount semantics row.curr else row.curr
    let h ← (if deleted then storageTxClear a h else .ok h : Result Host)
    let h :=
      if deleted ∨ (curr.storageCleared = true ∧ row.orig.storageCleared = false) then
        storageBlockClear a h
      else h
    let h := noteChange (.nonceChange a) curr.info.nonce row.orig.info.nonce h
    let h := noteChange (.balanceChange a) curr.info.balance row.orig.info.balance h
    let h := noteChange (.codeChange a) curr.info.codeHash row.orig.info.codeHash h
    .ok
      (if accountChanged curr.settled row.orig then
        acctBlockWrite a { curr := curr.settled, orig := row.orig } h
      else h)

/-- The value of a slot that the transaction has written, in the storage
generation that counts. -/
def activeSlot (s : State) (key : StorageKey) : Option StorageValue :=
  match s.effects.storage key with
  | some row => if row.generation = storageActiveGeneration s key.addr then some row.value else none
  | none => none

/-- One slot of the worklist. -/
def mergeSlot (h : Host) (key : StorageKey) : Host :=
  match activeSlot h.state key with
  | none => h
  | some value =>
    match h.state.block.accounts key.addr with
    | none => h
    | some acc =>
      if acc.curr.present = true ∧ value.curr ≠ value.orig then
        storageBlockPut key value (balNote (.storageChange key.addr key.slot value.curr) h)
      else h

/-- `storage_tx_reset` and `acct_tx_reset`.  Warmth, transient storage and
the journal stay. -/
def resetTransactionRows (h : Host) : Host :=
  h.put
    { h.state with
      effects :=
        { h.state.effects with
          accounts := fun _ => none
          generation := fun _ => initialGeneration
          storage := fun _ => none }
      acctTxRows := []
      storageTxRows := []
      nextGeneration := ⟨initialGeneration, Nat.le_refl _⟩ }

/-- The worklists are drained in the order of insertion. -/
def kTxMerge (fork : Fork) (h : Host) : Result Host := do
  let h ← h.state.acctTxRows.reverse.foldlM (mergeAccount (transactionMergeSemantics fork)) h
  .ok (resetTransactionRows (h.state.storageTxRows.reverse.foldl mergeSlot h))

end EvmSail.Kernel
