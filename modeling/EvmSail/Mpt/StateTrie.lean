/-
# `EvmSail.Mpt.StateTrie` — accounts and slots read from the state trie

The secure trie is read at the digest of an address or a slot; the leaf found
is the record of an account or the value of a slot.  Absence is the empty leaf
value, which no record is.
-/
import EvmSail.Mpt.KeyValueMap
import EvmSail.Mpt.Walker
import EvmSail.Kernel.State
import EvmSail.Rlp.Fields

namespace EvmSail

open Fallible Kernel

/-- An empty digest of a record stands for `empty`. -/
def decodeRecordHash (f : RlpFieldRef) (empty : Hash) : Result Hash :=
  if f.contentLen = 0 then .ok empty
  else do
    let word ← rlpDecodeWord f
    .ok (wordToHash word)

/-- The four fields of an account record. -/
def decodeStateAccount (value : StatelessInputSlice) : Result AccountInfo := do
  let fields ← rlpNodeCursor value
  let nonce ← rlpDecodeItem fields
  let fields := rlpCursorAdvance fields nonce.source.length
  let balance ← rlpDecodeItem fields
  let fields := rlpCursorAdvance fields balance.source.length
  let storage ← rlpDecodeItem fields
  let fields := rlpCursorAdvance fields storage.source.length
  let code ← rlpDecodeItem fields
  let fields := rlpCursorAdvance fields code.source.length
  rlpCursorExpectEnd fields
  let storageRoot ← decodeRecordHash storage emptyTrieRoot
  let codeHash ← decodeRecordHash code keccakEmpty
  let nonce ← rlpDecodeUint64 nonce
  let balance ← rlpDecodeU256 balance
  .ok { nonce, balance, storageRoot, codeHash }

section

variable (nodedbLookup : Hash → StatelessInputSlice)

/-- The witnessed account at the digest of its address. -/
def statelessAccountByKey (root addressHash : Hash) : Result Account := do
  let value ← trieLookup nodedbLookup root (keyPath addressHash)
  if value.length = 0 then .ok emptyAccount
  else do
    let accountInfo ← decodeStateAccount value
    .ok (accountFromInfo accountInfo)

/-- The witnessed value of the slot with this digest, zero where it is absent. -/
def statelessStorageByKey (root slotHash : Hash) : Result Word := do
  let value ← trieLookup nodedbLookup root (keyPath slotHash)
  if value.length = 0 then .ok 0
  else do
    let encodedValue ← rlpSingleRef value
    rlpDecodeU256 encodedValue

end

end EvmSail
