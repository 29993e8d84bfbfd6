/-
# `EvmSail.Executor.PayloadRoots` — the index-keyed tries of a payload

Transactions, withdrawals and receipts all have `rlp(index)` keys.  Their
values come from different places, but the trie is built the same way:
the key-order cursor is split recursively by nibble, and the subtrees are
joined by the child combiner of the state trie.

The scratch mark that the source sets and rewinds around a root has no
counterpart: a slice of scratch memory is its bytes here.
-/
import EvmSail.Ssz.Reading
import EvmSail.Mpt.IndexKeys
import EvmSail.Mpt.Updates

namespace EvmSail

open Fallible

/-! ## Withdrawals -/

def wdSize : Nat := 44
def wdIndex : Nat := 0
def wdValidatorIndex : Nat := 8
def wdAddress : Nat := 16
def wdAmount : Nat := 36

/-- The RLP of one withdrawal. -/
def withdrawalRlp (withdrawal : StatelessInputSlice) : Result ScratchSlice :=
  let index := decodeSszUint withdrawal wdIndex
  let validatorIndex := decodeSszUint withdrawal wdValidatorIndex
  let address := subSlice withdrawal wdAddress 20
  let amount := decodeSszUint withdrawal wdAmount
  let contentLength :=
    rlpUintSize index + rlpUintSize validatorIndex + rlpInputSliceSize address + rlpUintSize amount
  if 48 < contentLength then
    fatalError .rlpDecode
  else
    let contentLen := contentLength % 49
    rlpEncoderFinish (rlpListSize contentLen)
      (rlpWriteListPrefix contentLen ++ (rlpWriteUint index ++ (rlpWriteUint validatorIndex ++
        (rlpWriteSlice address ++ rlpWriteUint amount))))

/-! ## Receipt records -/

/-- Encoded receipts in execution order, each behind its length in eight
little-endian bytes. -/
structure ReceiptRecordsRef where
  bytes : ScratchSlice
  count : Nat

/-- The eight length bytes in front of a record. -/
def receiptRecordWriteLength (value : Nat) : List Byte :=
  (List.range 8).map fun k => BitVec.ofNat 8 (value >>> (8 * k))

/-- What one encoded receipt adds to the records. -/
def receiptRecord (encoded : List Byte) : List Byte :=
  receiptRecordWriteLength encoded.length ++ encoded

/-- The same quantity in scratch memory. -/
def decodeScratchUint (input : ScratchSlice) (offset : Nat) : Nat := decodeSszUint input offset

/-- Splits the first record off. -/
def receiptRecordPop (records : ScratchSlice) : Result (ScratchSlice × ScratchSlice) :=
  if 8 ≤ records.length then
    let valueLength := decodeScratchUint records 0
    let payload := sliceSuffix records 8
    if valueLength ≤ payload.length then
      .ok (subSlice payload 0 valueLength, sliceSuffix payload valueLength)
    else
      fatalError .witnessDeficient
  else
    fatalError .witnessDeficient

/-! ## Sources and their cursors -/

/-- The three index-keyed collections of a block. -/
inductive IndexedTrieSource where
  | indexedTransactions (txs : BoundedSszListRef)
  | indexedWithdrawals (wds : BoundedSszListRef)
  | indexedReceipts (receipts : ReceiptRecordsRef)

/-- The key-order traversal with the state of the receipt records: index
zero is the first record but not the first key. -/
structure IndexedTrieCursor where
  keys : RlpIndexCursor
  receiptZero : ScratchSlice
  receiptRemaining : ScratchSlice

/-- The first receipt record and the others; empty for other sources. -/
def indexedReceiptParts (source : IndexedTrieSource) : Result (ScratchSlice × ScratchSlice) :=
  match source with
  | .indexedReceipts receipts =>
    if receipts.count = 0 then .ok ([], receipts.bytes) else receiptRecordPop receipts.bytes
  | _ => .ok ([], [])

/-- The number of items of a source. -/
def IndexedTrieSource.count : IndexedTrieSource → Nat
  | .indexedTransactions txs => txs.count
  | .indexedWithdrawals wds => wds.count
  | .indexedReceipts receipts => receipts.count

/-- Opens a source at its first key. -/
def indexedTrieBegin (source : IndexedTrieSource) : Result IndexedTrieCursor := do
  let parts ← indexedReceiptParts source
  let keys ← rlpIndexCursor source.count
  .ok { keys := keys, receiptZero := parts.1, receiptRemaining := parts.2 }

def indexedTrieCursorEmpty (cursor : IndexedTrieCursor) : Bool := rlpIndexCursorEmpty cursor.keys

/-- The next key. -/
def indexedTrieCursorKey (cursor : IndexedTrieCursor) : Result TriePath := do
  let item ← rlpIndexCursorPeek cursor.keys
  .ok item.key

/-- Whether the next key lies beneath `pfx`. -/
def indexedTrieNextUnder (cursor : IndexedTrieCursor) (pfx : TriePath) : Result Bool :=
  if indexedTrieCursorEmpty cursor then
    .ok false
  else do
    let key ← indexedTrieCursorKey cursor
    .ok (pathPrefixOf pfx key)

/-- The value at an index, and the receipt records left after it. -/
def indexedTrieValue (source : IndexedTrieSource) (cursor : IndexedTrieCursor) (index : Nat) :
    Result (TrieLeafValue × ScratchSlice) :=
  let remaining := cursor.receiptRemaining
  match source with
  | .indexedTransactions txs => do
    let transaction ← sszListAt txs index
    .ok (.inputTrieLeaf transaction, remaining)
  | .indexedWithdrawals wds => do
    let withdrawal ← sszFixedListAt wds index wdSize
    let encodedWithdrawal ← withdrawalRlp withdrawal
    .ok (.scratchTrieLeaf encodedWithdrawal, remaining)
  | .indexedReceipts _ =>
    if index = 0 then
      .ok (.scratchTrieLeaf cursor.receiptZero, remaining)
    else do
      let popped ← receiptRecordPop remaining
      .ok (.scratchTrieLeaf popped.1, popped.2)

/-- Consumes one key and resolves its value. -/
def indexedTriePop (source : IndexedTrieSource) (cursor : IndexedTrieCursor) :
    Result (TrieItem × IndexedTrieCursor) := do
  let popped ← rlpIndexCursorPop cursor.keys
  let value ← indexedTrieValue source cursor popped.1.index
  .ok (trieLeaf popped.1.key value.1,
    { keys := popped.2, receiptZero := cursor.receiptZero, receiptRemaining := value.2 })

/-! ## The trie -/

section

variable (keccak256 : List Byte → Hash) (nodedbLookup : Hash → StatelessInputSlice)

/-- The `while` of `indexed_trie_subtree`: one child for each further
nibble below `pfx`.  `rounds` is the loop's termination measure, the keys
left to consume; a round that consumes none would run past it. -/
def indexedTrieChildren
    (subtree : IndexedTrieCursor → TriePath → Result (TrieItem × IndexedTrieCursor))
    (pfx : TriePath) :
    Nat → TrieChildren → IndexedTrieCursor → Result (TrieChildren × IndexedTrieCursor)
  | rounds, children, remaining => do
    let remainingUnderPrefix ← indexedTrieNextUnder remaining pfx
    if remainingUnderPrefix then
      match rounds with
      | 0 => .error .assertFailed
      | rounds + 1 => do
        let nextKey ← indexedTrieCursorKey remaining
        let nib := pathNibble nextKey (pathLen pfx)
        let nibblePath ← pathSingle nib
        let childPrefix ← pathConcat pfx nibblePath
        let child ← subtree remaining childPrefix
        let children ← trieChildrenAdd keccak256 nodedbLookup children pfx nib child.1
        indexedTrieChildren subtree pfx rounds children child.2
    else
      .ok (children, remaining)

/-- The part of `indexed_trie_subtree` that splits the keys beneath `pfx`
by their next nibble. -/
def indexedTrieDescend
    (subtree : IndexedTrieCursor → TriePath → Result (TrieItem × IndexedTrieCursor))
    (cursor : IndexedTrieCursor) (pfx : TriePath) : Result (TrieItem × IndexedTrieCursor) := do
  let rounds := cursor.keys.count - cursor.keys.position
  let walked ← indexedTrieChildren keccak256 nodedbLookup subtree pfx rounds trieChildrenEmpty
    cursor
  let item ← trieChildrenFinish keccak256 pfx walked.1
  .ok (item, walked.2)

/-- One call of `indexed_trie_subtree`, with its descent given. -/
def indexedTrieVisit (source : IndexedTrieSource)
    (descend : Result (TrieItem × IndexedTrieCursor)) (cursor : IndexedTrieCursor)
    (pfx : TriePath) : Result (TrieItem × IndexedTrieCursor) := do
  let cursorUnderPrefix ← indexedTrieNextUnder cursor pfx
  if ¬ cursorUnderPrefix then
    .ok (trieEmptySubtree, cursor)
  else do
    let key ← indexedTrieCursorKey cursor
    if pathEq key pfx then
      indexedTriePop source cursor
    else if 64 ≤ pathLen pfx then
      fatalError .witnessDeficient
    else
      descend

/-- Assembles the leaves beneath `pfx`.  `levels` is the termination
measure `64 - path_len(prefix)` of the recursion. -/
def indexedTrieSubtree (source : IndexedTrieSource) :
    Nat → IndexedTrieCursor → TriePath → Result (TrieItem × IndexedTrieCursor)
  | 0, cursor, pfx => indexedTrieVisit source (.error .assertFailed) cursor pfx
  | levels + 1, cursor, pfx =>
    indexedTrieVisit source
      (indexedTrieDescend keccak256 nodedbLookup (indexedTrieSubtree source levels) cursor pfx)
      cursor pfx

/-- One complete index-keyed trie. -/
def indexedTrieRoot (source : IndexedTrieSource) : Result Hash := do
  let initial ← indexedTrieBegin source
  let rootPath := pathEmpty
  let walked ← indexedTrieSubtree keccak256 nodedbLookup source (64 - pathLen rootPath) initial
    rootPath
  let retained := walked.2.receiptRemaining
  if ¬ indexedTrieCursorEmpty walked.2 ∨ retained.length ≠ 0 then
    fatalError .witnessDeficient
  else
    trieSubtreeRoot keccak256 nodedbLookup walked.1

/-- The transactions root: leaf `i` holds the raw envelope. -/
def transactionTrieRoot (txs : BoundedSszListRef) : Result Hash :=
  indexedTrieRoot keccak256 nodedbLookup (.indexedTransactions txs)

/-- The withdrawals root: leaf `i` holds `rlp(withdrawal_i)`. -/
def withdrawalsTrieRoot (wds : BoundedSszListRef) : Result Hash :=
  indexedTrieRoot keccak256 nodedbLookup (.indexedWithdrawals wds)

/-- The receipts root over the retained records. -/
def indexedReceiptTrieRoot (receipts : ReceiptRecordsRef) : Result Hash :=
  indexedTrieRoot keccak256 nodedbLookup (.indexedReceipts receipts)

end

end EvmSail
