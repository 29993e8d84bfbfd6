/-
# `EvmSail.Tx.Codec` — decoding transaction envelopes

One envelope, from its raw bytes to the fields that transaction validity
and execution read: the five payload shapes, the EIP-2930 access list, the
EIP-4844 blob hashes, the EIP-7702 authorization list, and the signing
preimages.  Decoding is structural: the access list and the authorization
list stay spans of the input, walked once here for their counts, and the
tuples of an authorization list are decoded when the transaction is
prepared.

`keccak256` and `ecrecover` are the accelerators of the host.
-/
import EvmSail.Rlp.Fields

namespace EvmSail

open Fallible

/-! ## Values -/

/-- `transaction_length_bound`. -/
def transactionLengthBound : Nat := 2 ^ 30

theorem transactionLengthBound_le : transactionLengthBound ≤ scratchRegionBound := by
  rw [scratchRegionBound_eq, transactionLengthBound]
  omega

/-- A byte span contained by one SSZ transaction envelope. -/
structure TransactionInputSlice where
  bytes : List Byte
  length_le : bytes.length ≤ transactionLengthBound

/-- The EIP-2718 envelope type. -/
inductive TxType where
  | legacyTx
  | accessListTx
  | feeMarketTx
  | blobTx
  | setCodeTx
  deriving DecidableEq, Repr

/-- The EIP-2718 wire discriminant. -/
def txEnvelopeType : TxType → Byte
  | .legacyTx => 0x00
  | .accessListTx => 0x01
  | .feeMarketTx => 0x02
  | .blobTx => 0x03
  | .setCodeTx => 0x04

/-- A validated access-list content span. -/
structure AccessListRef where
  encoded : List Byte
  addressCount : Nat
  slotCount : Nat
  deriving DecidableEq

def emptyAccessListRef : AccessListRef := ⟨[], 0, 0⟩

/-- The source-backed versioned blob hashes of a transaction. -/
structure BlobHashes where
  bytes : List Byte
  count : Nat
  deriving DecidableEq

def emptyBlobHashes : BlobHashes := ⟨[], 0⟩

/-- A validated authorization-list content span. -/
structure AuthorizationListRef where
  encoded : List Byte
  count : Nat
  deriving DecidableEq

def emptyAuthorizationListRef : AuthorizationListRef := ⟨[], 0⟩

/-- An EIP-7702 authorization tuple with its recovered authority. -/
structure Authorization where
  validSig : Bool
  authority : Address
  address : Address
  nonce : Nat
  chainId : Word
  deriving DecidableEq

/-- The authorizations of a transaction, decoded and recovered. -/
structure PreparedAuthorizationList where
  entries : List Authorization
  count : Nat
  deriving DecidableEq

/-- `prepared_authorization_count_bound`: EIP-7825's gas limit over the
cheapest authorization. -/
def preparedAuthorizationCountBound : Nat := 2 ^ 24 / 7816

/-- A decoded transaction. -/
structure TransactionFields where
  txType : TxType
  sender : Address
  raw : List Byte
  nonce : Word
  chainId : Nat
  gasLimit : Nat
  isCreate : Bool
  recipient : Address
  value : Word
  inputSrc : List Byte
  accessList : AccessListRef
  maxFee : Word
  maxBlobFee : Word
  maxPriorityFee : Word
  authorizations : AuthorizationListRef
  blobHashes : BlobHashes
  pubkey : List Byte
  signingHash : Hash
  sigV : Word
  sigR : Word
  sigS : Word
  deriving DecidableEq

/-- Recovery success and the recovered address. -/
structure AddressResult where
  success : Bool
  address : Address
  deriving DecidableEq

def zeroAddress : Address := 0

/-- The order `n` of the secp256k1 group. -/
def secpNFull : Word := 0xfffffffffffffffffffffffffffffffebaaedce6af48a03bbfd25e8cd0364141

/-- `n / 2`, the EIP-2 bound on `s`. -/
def secpNHalf : Word := 0x7fffffffffffffffffffffffffffffff5d576e7357a4501ddfe92f46681b20a0

/-! ## Signing preimages -/

/-- The chain id of an EIP-155 signature with `v ≥ 35`. -/
def legacySigChainId (v : Word) : Word := (v - 35) / 2

/-- An address as an RLP byte string. -/
def rlpWriteAddr (a : Address) : List Byte :=
  rlpWriteStringPrefix 20 (sliceByte (addressBytes a) 0) ++ addressBytes a

def rlpAddrSize : Nat := 21

section Hashing

variable (keccak256 : List Byte → Hash)

/-- The transaction signing-preimage hash. -/
def txSigningHash (t : TxType) (contentSrc : List Byte) (v : Word) : Result Hash :=
  let tb := txEnvelopeType t
  let eip155 : Bool := tb == 0x00 && decide (35 ≤ v)
  let chainId := if eip155 then legacySigChainId v else 0
  let suffixLen := if eip155 then rlpUintSize chainId.toNat + 2 else 0
  if contentSrc.length ≤ transactionLengthBound then do
    let contentLen := contentSrc.length + suffixLen
    let typeLen := if tb = 0x00 then 0 else 1
    let preimage ← rlpEncoderFinish (typeLen + rlpLengthPrefixLen contentLen + contentLen)
      ((if tb = 0x00 then [] else [tb]) ++ rlpWriteListPrefix contentLen ++ contentSrc ++
        (if eip155 then rlpWriteUint chainId.toNat ++ [0x80, 0x80] else []))
    .ok (keccak256 preimage)
  else fatalError .rlpDecode

/-- `keccak256(0x05 ‖ rlp([chain_id, address, nonce]))`. -/
def authSigningHash (chainId : Word) (addr : Address) (nonce : Nat) : Result Hash := do
  let contentLen := rlpUintSize chainId.toNat + rlpAddrSize + rlpUintSize nonce
  let encoded ← rlpEncoderFinish (1 + rlpListSize contentLen)
    ([0x05] ++ rlpWriteListPrefix contentLen ++ rlpWriteUint chainId.toNat ++ rlpWriteAddr addr ++
      rlpWriteUint nonce)
  .ok (keccak256 encoded)

end Hashing

/-! ## Access lists -/

/-- The counts of a decoded access list. -/
structure AccessListDecode where
  addressCount : Nat
  slotCount : Nat
  deriving DecidableEq

def emptyAccessListDecode : AccessListDecode := ⟨0, 0⟩

/-- Transaction content as a span of the input. -/
def transactionRlpContent (f : RlpFieldRef) : List Byte := rlpItemContent f

/-- The storage keys of one access-list entry. -/
def decodeAccessListKeys (cursor : List Byte) (tail : AccessListDecode) :
    Result AccessListDecode :=
  if cursor.length = 0 then .ok ⟨tail.addressCount, tail.slotCount⟩
  else do
    let (key, ⟨next, _⟩) ← rlpTakeItem cursor
    let _slot ← rlpDecodeWord key
    let result ← decodeAccessListKeys next tail
    .ok ⟨result.addressCount, result.slotCount + 1⟩
termination_by cursor.length

/-- The two fields of an entry. -/
def entryAddress (f : Vector RlpFieldRef 2) : RlpFieldRef := f[0]

def entryKeys (f : Vector RlpFieldRef 2) : RlpFieldRef := f[1]

/-- The entries of an access list, from the last to the first. -/
def decodeAccessListEntries (cursor : List Byte) : Result AccessListDecode :=
  if cursor.length = 0 then .ok emptyAccessListDecode
  else do
    let (entry, ⟨next, _⟩) ← rlpTakeItem cursor
    let entryFields ← rlpDecodeList entry
    let fields ← rlpTakeFields 2 entryFields
    let _addr ← rlpDecodeWord (entryAddress fields)
    let tail ← decodeAccessListEntries next
    let keys ← rlpDecodeList (entryKeys fields)
    let result ← decodeAccessListKeys keys tail
    .ok ⟨result.addressCount + 1, result.slotCount⟩
termination_by cursor.length

/-- An EIP-2930 access list `[[address, [slot, …]], …]`. -/
def decodeAccessList (f : RlpFieldRef) : Result AccessListRef :=
  if f.source.length ≤ transactionLengthBound then do
    let entries ← rlpDecodeList f
    let decoded ← decodeAccessListEntries entries
    .ok ⟨transactionRlpContent f, decoded.addressCount, decoded.slotCount⟩
  else fatalError .rlpDecode

/-! ## Blob hashes -/

/-- A versioned hash is `0xa0` and 32 bytes, the first of them `0x01`. -/
def blobHashItem (item : RlpFieldRef) : Result Unit :=
  if item.isList ∨ item.source.length ≠ 33 ∨ item.contentLen ≠ 32 ∨
      sliceByte item.source 0 ≠ 0xa0 then
    fatalError .rlpDecode
  else if sliceByte item.source 1 ≠ 0x01 then fatalError .executionInvalid
  else .ok ()

/-- Validates the remaining versioned hashes and returns their count. -/
def decodeBlobHashItems (cursor : List Byte) (limit count : Nat) : Result Nat :=
  if cursor.length = 0 then .ok count
  else do
    let (item, ⟨next, _⟩) ← rlpTakeItem cursor
    blobHashItem item
    if count < limit then decodeBlobHashItems next limit (count + 1) else fatalError .rlpDecode
termination_by cursor.length

def decodeBlobHashes (f : RlpFieldRef) (limit : Nat) : Result BlobHashes := do
  let bytes := transactionRlpContent f
  let items ← rlpDecodeList f
  let count ← decodeBlobHashItems items limit 0
  .ok ⟨bytes, count⟩

/-! ## Authorization lists -/

/-- Counts the remaining authorization tuples. -/
def validateAuthTuples (cursor : List Byte) (count : Nat) : Result Nat :=
  if cursor.length = 0 then .ok count
  else do
    let (tuple, ⟨next, _⟩) ← rlpTakeItem cursor
    let _ ← rlpDecodeList tuple
    if count < transactionLengthBound then validateAuthTuples next (count + 1)
    else fatalError .rlpDecode
termination_by cursor.length

def decodeAuthList (f : RlpFieldRef) : Result AuthorizationListRef :=
  if f.source.length ≤ transactionLengthBound then do
    let content := transactionRlpContent f
    let tuples ← rlpDecodeList f
    let count ← validateAuthTuples tuples 0
    .ok ⟨content, count⟩
  else fatalError .rlpDecode

section Recovery

variable (keccak256 : List Byte → Hash)
  (ecrecover : Hash → Fin 2 → Word → Word → AddressResult)

/-- The signer that a parity field selects. -/
def recoverAuthority (signingHash : Hash) (r s : Word) : RlpResult Bool → AddressResult
  | .rlpOk false => ecrecover signingHash 0 r s
  | .rlpOk true => ecrecover signingHash 1 r s
  | .rlpInvalidValue => ⟨false, zeroAddress⟩

/-- The fields of an authorization tuple. -/
structure AuthTupleRefs where
  chainId : RlpFieldRef
  address : RlpFieldRef
  nonce : RlpFieldRef
  yParity : RlpFieldRef
  r : RlpFieldRef
  s : RlpFieldRef

def authTupleRefs (f : Vector RlpFieldRef 6) : AuthTupleRefs :=
  ⟨f[0], f[1], f[2], f[3], f[4], f[5]⟩

/-- Decodes and recovers one authorization tuple. -/
def decodeAuthorization (tuple : RlpFieldRef) : Result Authorization := do
  let fields ← rlpDecodeList tuple
  let f ← rlpTakeFields 6 fields
  let y ← rlpDecodeBool (authTupleRefs f).yParity
  let chainId ← rlpDecodeU256 (authTupleRefs f).chainId
  let authNonce ← rlpDecodeUint64 (authTupleRefs f).nonce
  let r ← rlpDecodeU256 (authTupleRefs f).r
  let s ← rlpDecodeU256 (authTupleRefs f).s
  let addressWord ← rlpDecodeWord (authTupleRefs f).address
  let authAddr := wordToAddress addressWord
  let signingHash ← authSigningHash keccak256 chainId authAddr authNonce
  let recovered := recoverAuthority ecrecover signingHash r s y
  .ok
    { validSig := recovered.success && decide (0 < r) && decide (r < secpNFull) &&
        decide (0 < s) && decide (s ≤ secpNHalf) && authNonce != 2 ^ 64 - 1
      authority := recovered.address
      address := authAddr
      nonce := authNonce
      chainId := chainId }

/-- Decodes the exact counted tuple sequence. -/
def prepareAuthorizationEntries : List Byte → Nat → Result (List Authorization)
  | cursor, 0 => if cursor.length ≠ 0 then fatalError .rlpDecode else .ok []
  | cursor, count + 1 =>
    if cursor.length = 0 then fatalError .rlpDecode
    else do
      let tuple ← rlpDecodeItem cursor
      let authorization ← decodeAuthorization keccak256 ecrecover tuple
      let entries ← prepareAuthorizationEntries (rlpCursorAdvance cursor tuple.source.length) count
      .ok (authorization :: entries)

def prepareAuthorizations (authorizations : AuthorizationListRef) :
    Result PreparedAuthorizationList :=
  if authorizations.count ≤ preparedAuthorizationCountBound then do
    let entries ← prepareAuthorizationEntries keccak256 ecrecover authorizations.encoded
      authorizations.count
    .ok ⟨entries, authorizations.count⟩
  else fatalError .executionInvalid

end Recovery

/-! ## Envelopes -/

/-- The data field's span. -/
def txInputSpan (data : RlpFieldRef) : Result (List Byte) :=
  let content := transactionRlpContent data
  if content.length ≤ transactionLengthBound then .ok content else fatalError .rlpDecode

/-- The span of the pre-signature fields, which stand next to each other. -/
def txSigSpan (signed : List RlpFieldRef) : List Byte := sourcesOf signed

def rlpDecodeGas (f : RlpFieldRef) : Result Nat := rlpDecodeUint64 f

/-- A field that only some envelopes have. -/
def decodeOptional {α : Type} (absent : α) (decode : RlpFieldRef → Result α) :
    Option RlpFieldRef → Result α
  | none => .ok absent
  | some f => decode f

/-- The nonce is 64 bits wide in a set-code envelope and a word elsewhere. -/
def decodeTxNonce (t : TxType) (f : RlpFieldRef) : Result Word :=
  if t = .setCodeTx then do
    let nonce ← rlpDecodeUint64 f
    .ok (BitVec.ofNat 256 nonce)
  else rlpDecodeU256 f

/-- The fields of an envelope, by role.  A gas price is both fee caps. -/
structure TxFieldRefs where
  /-- The fields before the signature. -/
  signed : List RlpFieldRef
  chain : Option RlpFieldRef
  nonce : RlpFieldRef
  maxPriorityFee : RlpFieldRef
  maxFee : RlpFieldRef
  gas : RlpFieldRef
  recipient : RlpFieldRef
  value : RlpFieldRef
  data : RlpFieldRef
  accessList : Option RlpFieldRef
  maxBlobFee : Option RlpFieldRef
  blobHashes : Option RlpFieldRef
  authorizations : Option RlpFieldRef
  v : RlpFieldRef
  r : RlpFieldRef
  s : RlpFieldRef

section Envelopes

variable (keccak256 : List Byte → Hash) (tx : TransactionInputSlice) (pubkey : Vector Byte 65)
  (blobLimit : Nat) (sender : Address)

/-- What the five envelope decoders do with their fields. -/
def decodeTxFieldRefs (t : TxType) (f : TxFieldRefs) : Result TransactionFields := do
  let v ← rlpDecodeWord f.v
  let accessList ← decodeOptional emptyAccessListRef decodeAccessList f.accessList
  let blobHashes ← decodeOptional emptyBlobHashes (fun g => decodeBlobHashes g blobLimit)
    f.blobHashes
  let authorizations ← decodeOptional emptyAuthorizationListRef decodeAuthList f.authorizations
  let nonce ← decodeTxNonce t f.nonce
  let recipientWord ← rlpDecodeWord f.recipient
  let signingHash ← txSigningHash keccak256 t (txSigSpan f.signed) v
  let chainId ← decodeOptional 0 rlpDecodeUint64 f.chain
  let gasLimit ← rlpDecodeGas f.gas
  let value ← rlpDecodeU256 f.value
  let inputSrc ← txInputSpan f.data
  let maxFee ← rlpDecodeU256 f.maxFee
  let maxBlobFee ← decodeOptional 0 rlpDecodeU256 f.maxBlobFee
  let maxPriorityFee ← rlpDecodeU256 f.maxPriorityFee
  let r ← rlpDecodeU256 f.r
  let s ← rlpDecodeU256 f.s
  .ok
    { txType := t
      sender := sender
      raw := tx.bytes
      nonce := nonce
      chainId := chainId
      gasLimit := gasLimit
      isCreate := f.recipient.contentLen == 0
      recipient := wordToAddress recipientWord
      value := value
      inputSrc := inputSrc
      accessList := accessList
      maxFee := maxFee
      maxBlobFee := maxBlobFee
      maxPriorityFee := maxPriorityFee
      authorizations := authorizations
      blobHashes := blobHashes
      pubkey := pubkey.toList
      signingHash := signingHash
      sigV := v
      sigR := r
      sigS := s }

/-- `[nonce, gas_price, gas, to, value, data, v, r, s]`. -/
def legacyTxRefs (f : Vector RlpFieldRef 9) : TxFieldRefs where
  signed := [f[0], f[1], f[2], f[3], f[4], f[5]]
  chain := none
  nonce := f[0]
  maxPriorityFee := f[1]
  maxFee := f[1]
  gas := f[2]
  recipient := f[3]
  value := f[4]
  data := f[5]
  accessList := none
  maxBlobFee := none
  blobHashes := none
  authorizations := none
  v := f[6]
  r := f[7]
  s := f[8]

/-- `[chain, nonce, gas_price, gas, to, value, data, access_list, v, r, s]`. -/
def accessListTxRefs (f : Vector RlpFieldRef 11) : TxFieldRefs where
  signed := [f[0], f[1], f[2], f[3], f[4], f[5], f[6], f[7]]
  chain := some f[0]
  nonce := f[1]
  maxPriorityFee := f[2]
  maxFee := f[2]
  gas := f[3]
  recipient := f[4]
  value := f[5]
  data := f[6]
  accessList := some f[7]
  maxBlobFee := none
  blobHashes := none
  authorizations := none
  v := f[8]
  r := f[9]
  s := f[10]

/-- `[chain, nonce, max_priority_fee, max_fee, gas, to, value, data,
access_list, v, r, s]`. -/
def feeMarketTxRefs (f : Vector RlpFieldRef 12) : TxFieldRefs where
  signed := [f[0], f[1], f[2], f[3], f[4], f[5], f[6], f[7], f[8]]
  chain := some f[0]
  nonce := f[1]
  maxPriorityFee := f[2]
  maxFee := f[3]
  gas := f[4]
  recipient := f[5]
  value := f[6]
  data := f[7]
  accessList := some f[8]
  maxBlobFee := none
  blobHashes := none
  authorizations := none
  v := f[9]
  r := f[10]
  s := f[11]

/-- `[chain, nonce, max_priority_fee, max_fee, gas, to, value, data,
access_list, max_blob_fee, blob_hashes, v, r, s]`. -/
def blobTxRefs (f : Vector RlpFieldRef 14) : TxFieldRefs where
  signed := [f[0], f[1], f[2], f[3], f[4], f[5], f[6], f[7], f[8], f[9], f[10]]
  chain := some f[0]
  nonce := f[1]
  maxPriorityFee := f[2]
  maxFee := f[3]
  gas := f[4]
  recipient := f[5]
  value := f[6]
  data := f[7]
  accessList := some f[8]
  maxBlobFee := some f[9]
  blobHashes := some f[10]
  authorizations := none
  v := f[11]
  r := f[12]
  s := f[13]

/-- `[chain, nonce, max_priority_fee, max_fee, gas, to, value, data,
access_list, authorizations, v, r, s]`. -/
def setCodeTxRefs (f : Vector RlpFieldRef 13) : TxFieldRefs where
  signed := [f[0], f[1], f[2], f[3], f[4], f[5], f[6], f[7], f[8], f[9]]
  chain := some f[0]
  nonce := f[1]
  maxPriorityFee := f[2]
  maxFee := f[3]
  gas := f[4]
  recipient := f[5]
  value := f[6]
  data := f[7]
  accessList := some f[8]
  maxBlobFee := none
  blobHashes := none
  authorizations := some f[9]
  v := f[10]
  r := f[11]
  s := f[12]

def decodeLegacyTx (fields : List Byte) : Result TransactionFields := do
  let f ← rlpTakeFields 9 fields
  decodeTxFieldRefs keccak256 tx pubkey 0 sender .legacyTx (legacyTxRefs f)

def decodeAccessListTx (fields : List Byte) : Result TransactionFields := do
  let f ← rlpTakeFields 11 fields
  decodeTxFieldRefs keccak256 tx pubkey 0 sender .accessListTx (accessListTxRefs f)

def decodeFeeMarketTx (fields : List Byte) : Result TransactionFields := do
  let f ← rlpTakeFields 12 fields
  decodeTxFieldRefs keccak256 tx pubkey 0 sender .feeMarketTx (feeMarketTxRefs f)

def decodeBlobTx (fields : List Byte) : Result TransactionFields := do
  let f ← rlpTakeFields 14 fields
  decodeTxFieldRefs keccak256 tx pubkey blobLimit sender .blobTx (blobTxRefs f)

def decodeSetCodeTx (fields : List Byte) : Result TransactionFields := do
  let f ← rlpTakeFields 13 fields
  decodeTxFieldRefs keccak256 tx pubkey 0 sender .setCodeTx (setCodeTxRefs f)

/-- The envelope's type byte: a leading byte of at least `0xc0` is the list of
a legacy transaction. -/
def txTypeByte (tx : List Byte) : Byte :=
  let b0 := sliceByte tx 0
  if b0.extractLsb' 6 2 = 0b11#2 then 0x00 else b0

/-- The RLP payload: behind the type byte of a typed envelope. -/
def txPayload (tx : List Byte) : List Byte :=
  if txTypeByte tx ≠ 0x00 then subSlice tx 1 (tx.length - 1) else tx

/-- The envelope types that have a decoder. -/
def txTypeOfByte (ttype : Byte) : Result TxType :=
  if ttype = 0x00 then .ok .legacyTx
  else if ttype = 0x01 then .ok .accessListTx
  else if ttype = 0x02 then .ok .feeMarketTx
  else if ttype = 0x03 then .ok .blobTx
  else if ttype = 0x04 then .ok .setCodeTx
  else fatalError .rlpDecode

/-- Envelope dispatch. -/
def decodeTxPayload (fields : List Byte) : TxType → Result TransactionFields
  | .legacyTx => decodeLegacyTx keccak256 tx pubkey sender fields
  | .accessListTx => decodeAccessListTx keccak256 tx pubkey sender fields
  | .feeMarketTx => decodeFeeMarketTx keccak256 tx pubkey sender fields
  | .blobTx => decodeBlobTx keccak256 tx pubkey blobLimit sender fields
  | .setCodeTx => decodeSetCodeTx keccak256 tx pubkey sender fields

/-- Decodes one transaction from its raw envelope bytes. -/
def rlpDecodeTx : Result TransactionFields :=
  let publicKeyBody := subSlice pubkey.toList 1 64
  let sender := wordToAddress (hashToWord (keccak256 publicKeyBody))
  if tx.bytes.length = 0 then fatalError .rlpDecode
  else do
    let fields ← rlpNodeCursor (txPayload tx.bytes)
    let txType ← txTypeOfByte (txTypeByte tx.bytes)
    decodeTxPayload keccak256 tx pubkey blobLimit sender fields txType

end Envelopes

end EvmSail
