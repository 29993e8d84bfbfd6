/-
# `EvmSail.Rlp.Codecs` — encoders of accounts, receipts and headers

The encoders that size a value in a first pass, reserve that much scratch
memory and write in a second: account and storage leaves, `CREATE`
addresses, receipts, and the block header.  (Trie nodes are in
`EvmSail.Mpt.Codec`, signing preimages in `EvmSail.Tx.Codec`, withdrawals
in `EvmSail.Executor.PayloadRoots`.)

A writer is the bytes it appends.  `rlp_write_topics`,
`rlp_write_log_entry` and `rlp_write_logs` compute the sizes of their
headers a second time, and so may refuse.  `rlp_uint_size` is an overload
whose first arm, the one for words, takes every quantity below `2^256`;
the other two arms are `rlpUintU64Size` and `rlpUintNatSize`.
-/
import EvmSail.Executor.PayloadRoots
import EvmSail.Kernel.State
import EvmSail.Tx.Codec

namespace EvmSail

open Fallible Kernel

/-! ## Integers of other types -/

/-- The minimal big-endian length of a natural, by recursion. -/
def rlpMinimalUintLen (n : Nat) : Nat :=
  if n = 0 then 0 else rlpMinimalUintLen (n / 256) + 1
termination_by n
decreasing_by exact Nat.div_lt_self (Nat.pos_of_ne_zero ‹_›) (by decide)

def rlpUintU64Size (n : Nat) : Nat :=
  if n < 2 ^ 7 then 1
  else if n < 2 ^ 8 then 2
  else if n < 2 ^ 16 then 3
  else if n < 2 ^ 24 then 4
  else if n < 2 ^ 32 then 5
  else if n < 2 ^ 40 then 6
  else if n < 2 ^ 48 then 7
  else if n < 2 ^ 56 then 8
  else 9

def rlpUintNatSize (n : Nat) : Nat :=
  if n < 2 ^ 256 then rlpUintSize n
  else
    let len := rlpMinimalUintLen n
    if len ≤ 55 then 1 + len else 1 + rlpMinimalUintLen len + len

def rlpWriteUintNat (n : Nat) : Result (List Byte) :=
  if n < 2 ^ 256 then .ok (rlpWriteUint n) else fatalError .invalidConfig

/-! ## State leaves and addresses -/

/-- A storage leaf: the value as a minimal integer. -/
def encodeStorageValue (value : Word) : Result ScratchSlice :=
  rlpEncoderFinish (rlpUintSize value.toNat) (rlpWriteUint value.toNat)

/-- An account leaf with its recomputed storage root. -/
def encodeStateAccount (info : AccountInfo) (storageRoot : Hash) : Result ScratchSlice :=
  let contentLen :=
    rlpUintSize info.nonce + rlpUintSize info.balance.toNat + rlpWordSize + rlpWordSize
  rlpEncoderFinish (rlpListSize contentLen)
    (rlpWriteListPrefix contentLen ++ (rlpWriteUint info.nonce ++
      (rlpWriteUint info.balance.toNat ++ (rlpWriteWord (hashToWord storageRoot) ++
        rlpWriteWord (hashToWord info.codeHash)))))

section

variable (keccak256 : List Byte → Hash)

/-- The `CREATE` address. -/
def createAddress (sender : Address) (nonce : Nat) : Result Address := do
  let contentLen := rlpAddrSize + rlpUintSize nonce
  let encoded ← rlpEncoderFinish (rlpListSize contentLen)
    (rlpWriteListPrefix contentLen ++ (rlpWriteAddr sender ++ rlpWriteUint nonce))
  .ok (wordToAddress (hashToWord (keccak256 encoded)))

/-! ## Blooms -/

/-- 256 bytes, the last one first on the wire. -/
abbrev LogsBloom := Vector Byte 256

def emptyLogsBloom : LogsBloom := Vector.replicate 256 0

/-- Sets one of the 2048 bits. -/
def bloomSetBit (bloom : LogsBloom) (bitToSet : Nat) : LogsBloom :=
  Vector.ofFn fun k =>
    if k.val = bitToSet / 8 then bloom.get k ||| (1#8 <<< (bitToSet % 8)) else bloom.get k

/-- The low 11 bits of two bytes of a hash. -/
def bloomIndex (h : Hash) (i : Nat) : Nat :=
  ((h.toList.getD i 0).setWidth 3 ++ h.toList.getD (i + 1) 0).toNat

def bloomAddEntryHash (bloom : LogsBloom) (h : Hash) : LogsBloom :=
  bloomSetBit (bloomSetBit (bloomSetBit bloom (bloomIndex h 0)) (bloomIndex h 2)) (bloomIndex h 4)

/-- A log adds its address and its topics. -/
def bloomAddLogAt (bloom : LogsBloom) (log : LogRecord) : LogsBloom :=
  log.topics.foldl (fun out topic => bloomAddEntryHash out (keccak256 (bytesOfNat 32 topic.toNat)))
    (bloomAddEntryHash bloom (keccak256 (addressBytes log.address)))

def logsBloomForLogs (logs : List LogRecord) : LogsBloom :=
  logs.foldl (bloomAddLogAt keccak256) emptyLogsBloom

end

/-! ## Receipts -/

/-- What of a receipt is encoded; `logs` is its range of the log store. -/
structure Receipt where
  txType : TxType
  success : Bool
  logs : List LogRecord

def topicsRlpContentSize (topics : List Word) : Result Nat :=
  topics.foldlM (fun size _ => rlpScratchLengthAdd size rlpWordSize) 0

def topicsRlpSize (topics : List Word) : Result Nat := do
  let contentSize ← topicsRlpContentSize topics
  rlpScratchListSize contentSize

def logEntryRlpContentSize (log : LogRecord) : Result Nat := do
  let topicsLength ← topicsRlpSize log.topics
  let dataLength ← rlpScratchSliceSize log.data
  let addressAndTopicsLength ← rlpScratchLengthAdd rlpAddrSize topicsLength
  rlpScratchLengthAdd addressAndTopicsLength dataLength

def logEntryRlpSize (log : LogRecord) : Result Nat := do
  let contentSize ← logEntryRlpContentSize log
  rlpScratchListSize contentSize

def logsRlpContentSize (logs : List LogRecord) : Result Nat :=
  logs.foldlM
    (fun size log => logEntryRlpSize log >>= fun entry => rlpScratchLengthAdd size entry) 0

def logsRlpSize (logs : List LogRecord) : Result Nat := do
  let contentSize ← logsRlpContentSize logs
  rlpScratchListSize contentSize

def rlpWriteTopics (topics : List Word) : Result (List Byte) := do
  let contentSize ← topicsRlpContentSize topics
  .ok (rlpWriteListPrefix contentSize ++ topics.flatMap rlpWriteWord)

def rlpWriteLogEntry (log : LogRecord) : Result (List Byte) := do
  let contentSize ← logEntryRlpContentSize log
  let topics ← rlpWriteTopics log.topics
  .ok (rlpWriteListPrefix contentSize ++
    (rlpWriteAddr log.address ++ (topics ++ rlpWriteSlice log.data)))

def rlpWriteLogs (logs : List LogRecord) : Result (List Byte) := do
  let contentSize ← logsRlpContentSize logs
  let entries ← logs.mapM rlpWriteLogEntry
  .ok (rlpWriteListPrefix contentSize ++ entries.flatten)

def rlpWriteLogsBloom (bloom : LogsBloom) : List Byte :=
  rlpWriteStringPrefix 256 0 ++ bloom.toList.reverse

def receiptStatus (r : Receipt) : Nat := if r.success then 1 else 0

/-- A mathematical count as a word. -/
def wordOfNatByteCount (value : Nat) : Result Word :=
  if value < 2 ^ 256 then .ok (BitVec.ofNat 256 value) else .error .assertFailed

def receiptPayloadContentSize (r : Receipt) (cumulativeGasUsed : Nat) : Result Nat := do
  let gasWord ← wordOfNatByteCount cumulativeGasUsed
  let bloomLength ← rlpScratchLengthAdd 256 (rlpLengthPrefixLen 256)
  let logsLength ← logsRlpSize r.logs
  let fixedLength ← rlpScratchLengthAdd (rlpUintSize (receiptStatus r)) (rlpUintSize gasWord.toNat)
  let fixedAndBloomLength ← rlpScratchLengthAdd fixedLength bloomLength
  rlpScratchLengthAdd fixedAndBloomLength logsLength

def receiptEncodedLength (r : Receipt) (cumulativeGasUsed : Nat) : Result Nat := do
  let contentLen ← receiptPayloadContentSize r cumulativeGasUsed
  let payloadLen ← rlpScratchListSize contentLen
  if txEnvelopeType r.txType ≠ 0x00 then rlpScratchLengthAdd payloadLen 1 else .ok payloadLen

section

variable (keccak256 : List Byte → Hash)

def receiptWriteLogsBloom (r : Receipt) : List Byte :=
  rlpWriteLogsBloom (logsBloomForLogs keccak256 r.logs)

def receiptWriteEncoded (r : Receipt) (cumulativeGasUsed : Nat) : Result (List Byte) := do
  let contentLen ← receiptPayloadContentSize r cumulativeGasUsed
  let logs ← rlpWriteLogs r.logs
  .ok ((if txEnvelopeType r.txType ≠ 0x00 then [txEnvelopeType r.txType] else []) ++
    (rlpWriteListPrefix contentLen ++ (rlpWriteUint (receiptStatus r) ++
      (rlpWriteUint cumulativeGasUsed ++ (receiptWriteLogsBloom keccak256 r ++ logs)))))

/-- One receipt in an exact reservation. -/
def receiptEncoded (r : Receipt) (cumulativeGasUsed : Nat) : Result ScratchSlice := do
  let encodedLen ← receiptEncodedLength r cumulativeGasUsed
  let written ← receiptWriteEncoded keccak256 r cumulativeGasUsed
  rlpEncoderFinish encodedLen written

/-- What one receipt adds to the records: its length and its bytes. -/
def receiptRecordAppend (r : Receipt) (cumulativeGasUsed : Nat) : Result ScratchSlice := do
  let encodedLen ← receiptEncodedLength r cumulativeGasUsed
  if 2 ^ 64 - 1 < encodedLen then fatalError .rlpDecode
  else do
    let _ ← scratchLengthAdd 8 encodedLen
    let written ← receiptWriteEncoded keccak256 r cumulativeGasUsed
    let encoded ← rlpEncoderFinish encodedLen written
    .ok (receiptRecordWriteLength encodedLen ++ encoded)

end

/-! ## The block header -/

/-- `keccak256(rlp([]))`. -/
def emptyOmmerHash : Hash :=
  hashFromBits 0x1dcc4de8dec75d7aab85b567b6ccd41ad312451b948a7413f0a142fd40d49347

/-- The 256 wire-order bytes of a bloom in the input. -/
structure LogsBloomRef where
  bytes : StatelessInputSlice
  length_eq : bytes.length = 256

def logsBloomFromRef (reference : LogsBloomRef) : LogsBloom :=
  Vector.ofFn fun k => sliceByte reference.bytes (255 - k.val)

/-- The header fields of a payload; its quantities are 64-bit numbers. -/
structure BlockHeader where
  number : Fin (2 ^ 64)
  timestamp : Fin (2 ^ 64)
  gasLimit : Fin (2 ^ 64)
  gasUsed : Fin (2 ^ 64)
  prevRandao : Word
  baseFee : Word
  blobGasUsed : Fin (2 ^ 64)
  excessBlobGas : Fin (2 ^ 64)
  stateRoot : Hash
  receiptsRoot : Hash
  logsBloom : LogsBloomRef
  feeRecipient : Address
  parentHash : Hash
  parentBeaconBlockRoot : Hash
  slotNumber : Fin (2 ^ 64)
  extraData : StatelessInputSlice

/-- The commitments recomputed from the payload's body. -/
structure BodyRoots where
  transactionsRoot : Hash
  withdrawalsRoot : Hash
  requestsHash : Hash
  blockAccessListHash : Hash

section

variable (fork : Fork) (header : BlockHeader)

/-- The lengths of the fields that later forks added, in order. -/
def blockHeaderForkLengths : List Nat :=
  (if .london ≤ fork then [rlpUintSize header.baseFee.toNat] else []) ++
  ((if .shanghai ≤ fork then [rlpWordSize] else []) ++
  ((if .cancun ≤ fork then
      [rlpUintSize header.blobGasUsed.val, rlpUintSize header.excessBlobGas.val, rlpWordSize]
    else []) ++
  ((if .prague ≤ fork then [rlpWordSize] else []) ++
  (if .amsterdam ≤ fork then [rlpWordSize, rlpUintSize header.slotNumber.val] else []))))

/-- The first pass: every field's length is added in order. -/
def blockHeaderContentLength : Result Nat := do
  let extraDataLength ← rlpScratchSliceSize header.extraData
  let lengths :=
    [rlpAddrSize, 3 + 256, rlpUintSize 0, rlpUintSize header.number.val,
      rlpUintSize header.gasLimit.val, rlpUintSize header.gasUsed.val,
      rlpUintSize header.timestamp.val, extraDataLength, 1 + 8] ++
    blockHeaderForkLengths fork header
  lengths.foldlM rlpScratchLengthAdd (6 * rlpWordSize)

variable (roots : BodyRoots)

def blockHeaderWriteFork : List Byte :=
  (if .london ≤ fork then rlpWriteUint header.baseFee.toNat else []) ++
  ((if .shanghai ≤ fork then rlpWriteWord (hashToWord roots.withdrawalsRoot) else []) ++
  ((if .cancun ≤ fork then
      rlpWriteUint header.blobGasUsed.val ++ (rlpWriteUint header.excessBlobGas.val ++
        rlpWriteWord (hashToWord header.parentBeaconBlockRoot))
    else []) ++
  ((if .prague ≤ fork then rlpWriteWord (hashToWord roots.requestsHash) else []) ++
  (if .amsterdam ≤ fork then
      rlpWriteWord (hashToWord roots.blockAccessListHash) ++ rlpWriteUint header.slotNumber.val
    else []))))

/-- The second pass, behind the list prefix. -/
def blockHeaderWrite : List Byte :=
  rlpWriteWord (hashToWord header.parentHash) ++ (rlpWriteWord (hashToWord emptyOmmerHash) ++
  (rlpWriteAddr header.feeRecipient ++ (rlpWriteWord (hashToWord header.stateRoot) ++
  (rlpWriteWord (hashToWord roots.transactionsRoot) ++
  (rlpWriteWord (hashToWord header.receiptsRoot) ++
  (rlpWriteLogsBloom (logsBloomFromRef header.logsBloom) ++
  (rlpWriteUint 0 ++ (rlpWriteUint header.number.val ++ (rlpWriteUint header.gasLimit.val ++
  (rlpWriteUint header.gasUsed.val ++ (rlpWriteUint header.timestamp.val ++
  (rlpWriteSlice header.extraData ++ (rlpWriteWord header.prevRandao ++
  ((rlpWriteStringPrefix 8 0 ++ bytesOfNat 8 0) ++
  blockHeaderWriteFork fork header roots))))))))))))))

/-- The block header hash. -/
def blockHeaderHash (keccak256 : List Byte → Hash) : Result Hash := do
  let contentLength ← blockHeaderContentLength fork header
  if 749 < contentLength then fatalError .rlpDecode
  else do
    let contentLen := contentLength % 750
    let encoded ← rlpEncoderFinish (rlpListSize contentLen)
      (rlpWriteListPrefix contentLen ++ blockHeaderWrite fork header roots)
    .ok (keccak256 encoded)

end

end EvmSail
