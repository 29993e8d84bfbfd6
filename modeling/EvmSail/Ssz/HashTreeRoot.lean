/-
# `EvmSail.Ssz.HashTreeRoot` — hash tree roots

The roots of `lib/htr.sail`.  A subtree without live leaves is the zero
root of its depth, a constant; a leaf is read only when the recursion
reaches it, so no list of leaves is built.  The source repeats this
recursion for the chunks of a byte string, the transactions, the
withdrawals, the versioned hashes, the requests and the fields of a
container.  Here it is `htrSubtree`, and each of the six is its instance at
the leaf it reads.

`sha256Pair` is the accelerator of the host.
-/
import EvmSail.Ssz.StatelessInput

namespace EvmSail

open Fallible

/-! ## Constants -/

def htrByteListLimit : Nat := 1073741824
def depositRequestCountBound : Nat := 2 ^ 13
def withdrawalRequestCountBound : Nat := 2 ^ 4
def consolidationRequestCountBound : Nat := 2 ^ 1
def builderDepositRequestCountBound : Nat := 2 ^ 6
def builderExitRequestCountBound : Nat := 2 ^ 4

/-- The root of an all-zero subtree at `level`, which is at most 25. -/
def sszZeroHash : Nat → Hash
  | 0 => zeroHash
  | 1 => hashFromBits
    0xf5a5fd42d16a20302798ef6ed309979b43003d2320d9f0e8ea9831a92759fb4b
  | 2 => hashFromBits
    0xdb56114e00fdd4c1f85c892bf35ac9a89289aaecb1ebd0a96cde606a748b5d71
  | 3 => hashFromBits
    0xc78009fdf07fc56a11f122370658a353aaa542ed63e44c4bc15ff4cd105ab33c
  | 4 => hashFromBits
    0x536d98837f2dd165a55d5eeae91485954472d56f246df256bf3cae19352a123c
  | 5 => hashFromBits
    0x9efde052aa15429fae05bad4d0b1d7c64da64d03d7a1854a588c2cb8430c0d30
  | 6 => hashFromBits
    0xd88ddfeed400a8755596b21942c1497e114c302e6118290f91e6772976041fa1
  | 7 => hashFromBits
    0x87eb0ddba57e35f6d286673802a4af5975e22506c7cf4c64bb6be5ee11527f2c
  | 8 => hashFromBits
    0x26846476fd5fc54a5d43385167c95144f2643f533cc85bb9d16b782f8d7db193
  | 9 => hashFromBits
    0x506d86582d252405b840018792cad2bf1259f1ef5aa5f887e13cb2f0094f51e1
  | 10 => hashFromBits
    0xffff0ad7e659772f9534c195c815efc4014ef1e1daed4404c06385d11192e92b
  | 11 => hashFromBits
    0x6cf04127db05441cd833107a52be852868890e4317e6a02ab47683aa75964220
  | 12 => hashFromBits
    0xb7d05f875f140027ef5118a2247bbb84ce8f2f0f1123623085daf7960c329f5f
  | 13 => hashFromBits
    0xdf6af5f5bbdb6be9ef8aa618e4bf8073960867171e29676f8b284dea6a08a85e
  | 14 => hashFromBits
    0xb58d900f5e182e3c50ef74969ea16c7726c549757cc23523c369587da7293784
  | 15 => hashFromBits
    0xd49a7502ffcfb0340b1d7885688500ca308161a7f96b62df9d083b71fcc8f2bb
  | 16 => hashFromBits
    0x8fe6b1689256c0d385f42f5bbe2027a22c1996e110ba97c171d3e5948de92beb
  | 17 => hashFromBits
    0x8d0d63c39ebade8509e0ae3c9c3876fb5fa112be18f905ecacfecb92057603ab
  | 18 => hashFromBits
    0x95eec8b2e541cad4e91de38385f2e046619f54496c2382cb6cacd5b98c26f5a4
  | 19 => hashFromBits
    0xf893e908917775b62bff23294dbbe3a1cd8e6cc1c35b4801887b646a6f81f17f
  | 20 => hashFromBits
    0xcddba7b592e3133393c16194fac7431abf2f5485ed711db282183c819e08ebaa
  | 21 => hashFromBits
    0x8a8d7fe3af8caa085a7639a832001457dfb9128a8061142ad0335629ff23ff9c
  | 22 => hashFromBits
    0xfeb3c337d7a51a6fbf00b9e34c52e1c9195c969bd4e7a0bfd51d5c5bed9c1167
  | 23 => hashFromBits
    0xe71f0aa83cc32edfbefa9f4d3e0174ca85182eec9f3a09f6a6c0df6377a510d7
  | 24 => hashFromBits
    0x31206fa80a50bb6abe29085058f16212212a60eec8f049fecb92d8c8e0a84bc0
  | 25 => hashFromBits
    0x21352bfecbeddde993839f614c3dac0a3ee37543f9b412b16199dc158e23b544
  | _ => zeroHash

/-- The number of leaves of a complete tree of depth at most 25. -/
def htrLeafCapacity : Nat → Nat
  | 0 => 1
  | 1 => 2
  | 2 => 4
  | 3 => 8
  | 4 => 16
  | 5 => 32
  | 6 => 64
  | 7 => 128
  | 8 => 256
  | 9 => 512
  | 10 => 1024
  | 11 => 2048
  | 12 => 4096
  | 13 => 8192
  | 14 => 16384
  | 15 => 32768
  | 16 => 65536
  | 17 => 131072
  | 18 => 262144
  | 19 => 524288
  | 20 => 1048576
  | 21 => 2097152
  | 22 => 4194304
  | 23 => 8388608
  | 24 => 16777216
  | 25 => 33554432
  | _ => 0

/-! ## Merkle trees -/

section

variable (sha256Pair : Hash → Hash → Hash)

/-- Merkleizes the `count` leaves from `start` on. -/
def htrSubtree (leaf : Nat → Result Hash) : Nat → Nat → Nat → Result Hash
  | 0, start, count =>
    if count = 0 then .ok (sszZeroHash 0)
    else if count = 1 then leaf start
    else fatalError .witnessDeficient
  | childDepth + 1, start, count =>
    if count = 0 then .ok (sszZeroHash (childDepth + 1))
    else
      let half := htrLeafCapacity childDepth
      let leftCount := if count < half then count else half
      let rightCount := if count < half then 0 else count - half
      do
        let leftRoot ← htrSubtree leaf childDepth start leftCount
        let rightRoot ← htrSubtree leaf childDepth (start + half) rightCount
        .ok (sha256Pair leftRoot rightRoot)

/-- A leaf of a fixed vector. -/
def vectorLeaf (leaves : List Hash) (start : Nat) : Result Hash :=
  match leaves[start]? with
  | some leaf => .ok leaf
  | none => fatalError .witnessDeficient

def merkleizeVectorSubtree (leaves : List Hash) (start count depth : Nat) : Result Hash :=
  htrSubtree sha256Pair (vectorLeaf leaves) depth start count

/-- `merkleize` of a fixed leaf vector. -/
def merkleize (leaves : List Hash) (depth : Nat) : Result Hash :=
  if leaves.length ≤ htrLeafCapacity depth then
    merkleizeVectorSubtree sha256Pair leaves 0 leaves.length depth
  else fatalError .witnessDeficient

/-! ## Basic types and byte sequences -/

/-- A `uint64` chunk: little-endian in its low eight bytes. -/
def htrUint (v : Nat) : Hash :=
  Vector.ofFn fun i => if i.val < 8 then BitVec.ofNat 8 (v / 2 ^ (8 * i.val)) else 0

/-- A `uint256` chunk. -/
def htrU256 (value : Word) : Hash := Vector.ofFn fun i => value.extractLsb' (8 * i.val) 8

/-- A `Bytes32` chunk is itself. -/
def htrBytes32 (b : Hash) : Hash := b

/-- An address, left-aligned in its chunk. -/
def htrAddr (a : Address) : Hash := Vector.ofFn fun i => sliceByte (addressBytes a) i.val

def htrLengthChunk (len : Nat) : Hash := htrU256 (BitVec.ofNat 256 len)

/-- Hashes the root of a list with the chunk of its length. -/
def mixInLength (root : Hash) (len : Nat) : Hash := sha256Pair root (htrLengthChunk len)

/-- One round of `clog2`. -/
def clog2Step (s : Nat × Nat) : Result (Nat × Nat) :=
  if s.1 ≠ 0 then
    if s.2 < 25 then .ok (s.1 / 2, s.2 + 1) else fatalError .witnessDeficient
  else .ok s

/-- The depth of a tree of `n` leaves. -/
def clog2 (n : Nat) : Result Nat := do
  let s ← foreach 25 (fun _ s => clog2Step s) (if n = 0 then 0 else n - 1, 0)
  .ok s.2

/-- A 32-byte chunk of a byte string, padded with zeros. -/
def htrChunk (bytes : List Byte) (chunkIndex : Nat) : Result Hash :=
  if chunkIndex ≤ 33554432 then .ok (wordToHash (sliceLoad bytes (chunkIndex * 32)))
  else fatalError .witnessDeficient

def htrChunkCount (byteLen : Nat) : Result Nat :=
  if byteLen ≤ htrByteListLimit then .ok ((byteLen + 31) / 32)
  else fatalError .witnessDeficient

def htrBytesSubtree (bytes : List Byte) (start count depth : Nat) : Result Hash :=
  htrSubtree sha256Pair (htrChunk bytes) depth start count

/-- The root of the chunks of a byte string. -/
def htrBytesRoot (bytes : List Byte) (depth : Nat) : Result Hash := do
  let count ← htrChunkCount bytes.length
  if count ≤ htrLeafCapacity depth then htrBytesSubtree sha256Pair bytes 0 count depth
  else fatalError .witnessDeficient

/-- The root of a `ByteVector`. -/
def htrBytevector (bytes : List Byte) : Result Hash := do
  let chunks ← htrChunkCount bytes.length
  let depth ← clog2 chunks
  htrBytesRoot sha256Pair bytes depth

def htrSszUint (bytes : List Byte) (offset : Nat) : Hash := htrUint (decodeSszUint bytes offset)

def htrSszU256 (bytes : List Byte) (offset : Nat) : Hash := htrU256 (sszU256 bytes offset)

def htrSszBytes32 (bytes : List Byte) (offset : Nat) : Hash := htrBytes32 (sszBytes32 bytes offset)

def htrSszAddr (bytes : List Byte) (offset : Nat) : Hash := htrAddr (sszAddr bytes offset)

/-- The root of a `ByteVector` field of a container. -/
def htrSszBytevector (bytes : List Byte) (offset len : Nat) : Result Hash :=
  if offset + len ≤ bytes.length then htrBytevector sha256Pair (subSlice bytes offset len)
  else fatalError .invalidConfig

/-- The root of a `ByteList`. -/
def htrBytelist (bytes : List Byte) (limitBytes : Nat) : Result Hash := do
  let capacity ← htrChunkCount limitBytes
  let depth ← clog2 capacity
  let root ← htrBytesRoot sha256Pair bytes depth
  .ok (mixInLength sha256Pair root bytes.length)

/-! ## The execution payload -/

/-- The root of a withdrawal. -/
def htrWithdrawal (withdrawal : List Byte) : Result Hash :=
  let indexRoot := htrSszUint withdrawal 0
  let validatorRoot := htrSszUint withdrawal 8
  let addressRoot := htrSszAddr withdrawal 16
  let amountRoot := htrSszUint withdrawal 36
  merkleize sha256Pair [indexRoot, validatorRoot, addressRoot, amountRoot] 2

def transactionLeaf (transactions : TransactionListRef) (start : Nat) : Result Hash := do
  let transaction ← sszListAt transactions start
  htrBytelist sha256Pair transaction htrByteListLimit

def htrTransactionsSubtree (transactions : TransactionListRef) (start count depth : Nat) :
    Result Hash :=
  htrSubtree sha256Pair (transactionLeaf sha256Pair transactions) depth start count

/-- The root of the transactions, `List[ByteList[2^30], 2^20]`. -/
def htrTransactions (transactions : TransactionListRef) : Result Hash := do
  let root ← htrTransactionsSubtree sha256Pair transactions 0 transactions.count 20
  .ok (mixInLength sha256Pair root transactions.count)

def withdrawalLeaf (withdrawals : WithdrawalListRef) (start : Nat) : Result Hash := do
  let withdrawal ← sszFixedListAt withdrawals start 44
  htrWithdrawal sha256Pair withdrawal

def htrWithdrawalsSubtree (withdrawals : WithdrawalListRef) (start count depth : Nat) :
    Result Hash :=
  htrSubtree sha256Pair (withdrawalLeaf sha256Pair withdrawals) depth start count

/-- The root of the withdrawals, `List[SszWithdrawal, 16]`. -/
def htrWithdrawals (withdrawals : WithdrawalListRef) : Result Hash := do
  let root ← htrWithdrawalsSubtree sha256Pair withdrawals 0 withdrawals.count 4
  .ok (mixInLength sha256Pair root withdrawals.count)

/-- The root of the `SszExecutionPayload`. -/
def htrExecutionPayload (inputRef : StatelessInputRef) : Result Hash := do
  let payload := inputRef.executionPayload
  let logsBloomRoot ← htrSszBytevector sha256Pair payload 116 256
  let extraDataRoot ← htrBytelist sha256Pair inputRef.extraData 32
  let transactionsRoot ← htrTransactions sha256Pair inputRef.transactions
  let withdrawalsRoot ← htrWithdrawals sha256Pair inputRef.withdrawals
  let blockAccessListRoot ← htrBytelist sha256Pair inputRef.blockAccessList htrByteListLimit
  merkleize sha256Pair
    [htrSszBytes32 payload 0, htrSszAddr payload 32, htrSszBytes32 payload 52,
      htrSszBytes32 payload 84, logsBloomRoot, htrSszBytes32 payload 372, htrSszUint payload 404,
      htrSszUint payload 412, htrSszUint payload 420, htrSszUint payload 428, extraDataRoot,
      htrSszU256 payload 440, htrSszBytes32 payload 472, transactionsRoot, withdrawalsRoot,
      htrSszUint payload 512, htrSszUint payload 520, blockAccessListRoot, htrSszUint payload 532]
    5

def htrVersionedHashesSubtree (versionedHashes : List Byte) (start count depth : Nat) :
    Result Hash :=
  htrSubtree sha256Pair (htrChunk versionedHashes) depth start count

/-- The root of the versioned hashes, `List[Bytes32, 4096]`. -/
def htrVersionedHashes (versionedHashes : List Byte) : Result Hash := do
  let items ← sszBoundedFixedListRef versionedHashes 32 blobCommitmentCountBound
  let root ← htrVersionedHashesSubtree sha256Pair versionedHashes 0 items.count 12
  .ok (mixInLength sha256Pair root items.count)

/-! ## The execution requests -/

/-- The root of a deposit request. -/
def htrDeposit (deposit : List Byte) : Result Hash := do
  let pubkey ← htrSszBytevector sha256Pair deposit 0 48
  let withdrawalCredentials := htrSszBytes32 deposit 48
  let amount := htrSszUint deposit 80
  let signature ← htrSszBytevector sha256Pair deposit 88 96
  let index := htrSszUint deposit 184
  merkleize sha256Pair [pubkey, withdrawalCredentials, amount, signature, index] 3

/-- The root of a withdrawal request. -/
def htrWithdrawalRequest (request : List Byte) : Result Hash := do
  let sourceAddress := htrSszAddr request 0
  let sourcePubkey ← htrSszBytevector sha256Pair request 20 48
  let amount := htrSszUint request 68
  merkleize sha256Pair [sourceAddress, sourcePubkey, amount] 2

/-- The root of a consolidation request. -/
def htrConsolidationRequest (request : List Byte) : Result Hash := do
  let sourceAddress := htrSszAddr request 0
  let sourcePubkey ← htrSszBytevector sha256Pair request 20 48
  let targetPubkey ← htrSszBytevector sha256Pair request 68 48
  merkleize sha256Pair [sourceAddress, sourcePubkey, targetPubkey] 2

/-- The root of a builder deposit request. -/
def htrBuilderDepositRequest (request : List Byte) : Result Hash := do
  let pubkey ← htrSszBytevector sha256Pair request 0 48
  let withdrawalCredentials := htrSszBytes32 request 48
  let amount := htrSszUint request 80
  let signature ← htrSszBytevector sha256Pair request 88 96
  merkleize sha256Pair [pubkey, withdrawalCredentials, amount, signature] 2

/-- The root of a builder exit request. -/
def htrBuilderExitRequest (request : List Byte) : Result Hash := do
  let sourceAddress := htrSszAddr request 0
  let pubkey ← htrSszBytevector sha256Pair request 20 48
  merkleize sha256Pair [sourceAddress, pubkey] 1

/-- The leaves of the request lists. -/
inductive HtrRequestKind where
  | htrDeposit
  | htrWithdrawalRequest
  | htrConsolidationRequest
  | htrBuilderDepositRequest
  | htrBuilderExitRequest
  deriving DecidableEq, Repr

/-- The length of a request. -/
def requestLength : HtrRequestKind → Nat
  | .htrDeposit => 192
  | .htrWithdrawalRequest => 76
  | .htrConsolidationRequest => 116
  | .htrBuilderDepositRequest => 184
  | .htrBuilderExitRequest => 68

/-- The root of a request. -/
def htrRequest : HtrRequestKind → List Byte → Result Hash
  | .htrDeposit => htrDeposit sha256Pair
  | .htrWithdrawalRequest => htrWithdrawalRequest sha256Pair
  | .htrConsolidationRequest => htrConsolidationRequest sha256Pair
  | .htrBuilderDepositRequest => htrBuilderDepositRequest sha256Pair
  | .htrBuilderExitRequest => htrBuilderExitRequest sha256Pair

/-- The root of the request at `index`; the five branches of the source
differ in the length and in the root. -/
def htrRequestLeaf (requests : List Byte) (kind : HtrRequestKind) (index : Nat) : Result Hash :=
  let offset := index * requestLength kind
  if offset + requestLength kind ≤ requests.length then
    htrRequest sha256Pair kind (subSlice requests offset (requestLength kind))
  else fatalError .invalidConfig

def htrRequestsSubtree (requests : List Byte) (kind : HtrRequestKind) (start count depth : Nat) :
    Result Hash :=
  htrSubtree sha256Pair (htrRequestLeaf sha256Pair requests kind) depth start count

/-- The root of a request list. -/
def htrRequestList (kind : HtrRequestKind) (countBound depth : Nat) (requests : List Byte) :
    Result Hash := do
  let items ← sszBoundedFixedListRef requests (requestLength kind) countBound
  let root ← htrRequestsSubtree sha256Pair requests kind 0 items.count depth
  .ok (mixInLength sha256Pair root items.count)

def htrDeposits (deposits : List Byte) : Result Hash :=
  htrRequestList sha256Pair .htrDeposit depositRequestCountBound 13 deposits

def htrWithdrawalRequests (requests : List Byte) : Result Hash :=
  htrRequestList sha256Pair .htrWithdrawalRequest withdrawalRequestCountBound 4 requests

def htrConsolidationRequests (requests : List Byte) : Result Hash :=
  htrRequestList sha256Pair .htrConsolidationRequest consolidationRequestCountBound 1 requests

def htrBuilderDepositRequests (requests : List Byte) : Result Hash :=
  htrRequestList sha256Pair .htrBuilderDepositRequest builderDepositRequestCountBound 6 requests

def htrBuilderExitRequests (requests : List Byte) : Result Hash :=
  htrRequestList sha256Pair .htrBuilderExitRequest builderExitRequestCountBound 4 requests

/-- The root of the `SszExecutionRequests`. -/
def htrExecutionRequests (inputRef : StatelessInputRef) : Result Hash := do
  let deposits ← htrDeposits sha256Pair inputRef.deposits
  let withdrawalRequests ← htrWithdrawalRequests sha256Pair inputRef.withdrawalRequests
  let consolidationRequests ← htrConsolidationRequests sha256Pair inputRef.consolidationRequests
  let builderDepositRequests ← htrBuilderDepositRequests sha256Pair inputRef.builderDepositRequests
  let builderExitRequests ← htrBuilderExitRequests sha256Pair inputRef.builderExitRequests
  merkleize sha256Pair
    [deposits, withdrawalRequests, consolidationRequests, builderDepositRequests,
      builderExitRequests] 3

/-- The root of the `SszNewPayloadRequest`. -/
def htrNewPayloadRequest (inputRef : StatelessInputRef) : Result Hash := do
  let payloadRoot ← htrExecutionPayload sha256Pair inputRef
  let versionedHashesRoot ← htrVersionedHashes sha256Pair inputRef.versionedHashes
  let beaconRoot := htrSszBytes32 inputRef.newPayloadRequest 8
  let requestsRoot ← htrExecutionRequests sha256Pair inputRef
  merkleize sha256Pair [payloadRoot, versionedHashesRoot, beaconRoot, requestsRoot] 2

end

end EvmSail
