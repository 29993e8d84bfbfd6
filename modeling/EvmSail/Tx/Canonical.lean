/-
# `EvmSail.Tx.Canonical` — the canonical encoding of an envelope

`Envelope` is the content of a transaction envelope and `Envelope.encode`
its canonical encoding: integers minimal, addresses of 20 bytes, keys and
versioned hashes of 32, every header in its shortest form.  `reencodeTx`
encodes what `rlpDecodeTx` decoded, reading the two lazily parsed lists.

The decoder is stricter about some fields than about others.  Integers,
versioned hashes and the arity of every list are exact; the recipient, the
signature's `v`, the addresses and keys of the two nested lists, the data
field and every list header are read by helpers that also take other
framings or widths.  `TightEnvelope` says that these are in canonical form
too, and it is exactly the condition under which a decoded envelope is
reproduced (`rlpDecodeTx_canonical`).
-/
import EvmSail.Tx.Codec

namespace EvmSail

open Fallible

/-! ## Envelopes and their encoding -/

/-- A minimal integer. -/
def uintField (n : Nat) : RlpFieldRef := bytesField (bigEndian n)

/-- A word in all of its 32 bytes. -/
def wordField (w : Word) : RlpFieldRef := bytesField (bytesOfNat 32 w.toNat)

def addressField (a : Address) : RlpFieldRef := bytesField (addressBytes a)

/-- The recipient: an address, or nothing for a creation. -/
def recipientField : Option Address → RlpFieldRef
  | none => bytesField []
  | some a => addressField a

/-- A list over encoded items. -/
def listOf (fs : List RlpFieldRef) : RlpFieldRef := listField (sourcesOf fs)

/-- `[address, [key, …]]`. -/
structure AccessEntry where
  address : Address
  keys : List Word
  deriving DecidableEq

def AccessEntry.field (e : AccessEntry) : RlpFieldRef :=
  listOf [addressField e.address, listOf (e.keys.map wordField)]

/-- `[chain_id, address, nonce, y_parity, r, s]`. -/
structure AuthTuple where
  chainId : Word
  address : Address
  nonce : BitVec 64
  yParity : BitVec 64
  r : Word
  s : Word
  deriving DecidableEq

def AuthTuple.field (t : AuthTuple) : RlpFieldRef :=
  listOf [uintField t.chainId.toNat, addressField t.address, uintField t.nonce.toNat,
    uintField t.yParity.toNat, uintField t.r.toNat, uintField t.s.toNat]

/-- The content of a transaction envelope.  An envelope type without a
field ignores it; a gas price is `maxFee`. -/
structure Envelope where
  txType : TxType
  chainId : BitVec 64
  nonce : Word
  maxPriorityFee : Word
  maxFee : Word
  gasLimit : BitVec 64
  recipient : Option Address
  value : Word
  data : List Byte
  accessList : List AccessEntry
  maxBlobFee : Word
  blobHashes : List Hash
  authorizations : List AuthTuple
  v : Word
  r : Word
  s : Word

namespace Envelope

def accessListField (e : Envelope) : RlpFieldRef := listOf (e.accessList.map AccessEntry.field)

def blobHashesField (e : Envelope) : RlpFieldRef :=
  listOf (e.blobHashes.map fun h => bytesField h.toList)

def authorizationsField (e : Envelope) : RlpFieldRef :=
  listOf (e.authorizations.map AuthTuple.field)

/-- The fields of each envelope type, in order. -/
def items (e : Envelope) : List RlpFieldRef :=
  let signature := [uintField e.v.toNat, uintField e.r.toNat, uintField e.s.toNat]
  let call := [uintField e.gasLimit.toNat, recipientField e.recipient, uintField e.value.toNat,
    bytesField e.data]
  let fees := [uintField e.maxPriorityFee.toNat, uintField e.maxFee.toNat]
  let chain := [uintField e.chainId.toNat, uintField e.nonce.toNat]
  match e.txType with
  | .legacyTx => [uintField e.nonce.toNat, uintField e.maxFee.toNat] ++ call ++ signature
  | .accessListTx =>
    chain ++ [uintField e.maxFee.toNat] ++ call ++ [e.accessListField] ++ signature
  | .feeMarketTx => chain ++ fees ++ call ++ [e.accessListField] ++ signature
  | .blobTx =>
    chain ++ fees ++ call ++
      [e.accessListField, uintField e.maxBlobFee.toNat, e.blobHashesField] ++ signature
  | .setCodeTx => chain ++ fees ++ call ++ [e.accessListField, e.authorizationsField] ++ signature

/-- The type byte of a typed envelope. -/
def typeBytes : TxType → List Byte
  | .legacyTx => []
  | t => [txEnvelopeType t]

/-- The canonical encoding. -/
def encode (e : Envelope) : List Byte := typeBytes e.txType ++ rlpList (sourcesOf e.items)

/-- What the decoder requires of the content: a 64-bit nonce and a bounded
number of tuples in a set-code envelope, versioned hashes up to the blob
limit. -/
structure Valid (blobLimit : Nat) (e : Envelope) : Prop where
  nonce : e.txType = .setCodeTx → e.nonce.toNat < 2 ^ 64
  versions : e.txType = .blobTx → ∀ h ∈ e.blobHashes, h.get 0 = 0x01
  blobs : e.txType = .blobTx → e.blobHashes.length ≤ blobLimit
  tuples : e.txType = .setCodeTx → e.authorizations.length ≤ preparedAuthorizationCountBound

end Envelope

/-! ## Re-encoding a decoded transaction -/

/-- All items of a cursor. -/
def rlpItems (cursor : List Byte) : Result (List RlpFieldRef) :=
  if cursor.length = 0 then .ok []
  else do
    let (item, ⟨next, _⟩) ← rlpTakeItem cursor
    let rest ← rlpItems next
    .ok (item :: rest)
termination_by cursor.length

/-- An access-list entry, as the decoder reads it. -/
def readAccessEntry (entry : RlpFieldRef) : Result AccessEntry := do
  let fields ← rlpDecodeList entry
  let f ← rlpTakeFields 2 fields
  let address ← rlpDecodeWord (entryAddress f)
  let cursor ← rlpDecodeList (entryKeys f)
  let keys ← rlpItems cursor
  let words ← keys.mapM rlpDecodeWord
  .ok ⟨wordToAddress address, words⟩

/-- An authorization tuple, as `decodeAuthorization` reads it. -/
def readAuthTuple (tuple : RlpFieldRef) : Result AuthTuple := do
  let fields ← rlpDecodeList tuple
  let f ← rlpTakeFields 6 fields
  let yParity ← rlpDecodeUint64 (authTupleRefs f).yParity
  let chainId ← rlpDecodeU256 (authTupleRefs f).chainId
  let nonce ← rlpDecodeUint64 (authTupleRefs f).nonce
  let r ← rlpDecodeU256 (authTupleRefs f).r
  let s ← rlpDecodeU256 (authTupleRefs f).s
  let address ← rlpDecodeWord (authTupleRefs f).address
  .ok ⟨chainId, wordToAddress address, BitVec.ofNat 64 nonce, BitVec.ofNat 64 yParity, r, s⟩

def readBlobHash (item : RlpFieldRef) : Result Hash := do
  let w ← rlpDecodeWord item
  .ok (wordToHash w)

/-- Every item of a span. -/
def readSpan {α : Type} (read : RlpFieldRef → Result α) (span : List Byte) : Result (List α) := do
  let items ← rlpItems span
  items.mapM read

/-- The decoded fields of a transaction as the content of an envelope. -/
def envelopeOf (d : TransactionFields) : Result Envelope := do
  let accessList ← readSpan readAccessEntry d.accessList.encoded
  let blobHashes ← readSpan readBlobHash d.blobHashes.bytes
  let authorizations ← readSpan readAuthTuple d.authorizations.encoded
  .ok
    { txType := d.txType
      chainId := BitVec.ofNat 64 d.chainId
      nonce := d.nonce
      maxPriorityFee := d.maxPriorityFee
      maxFee := d.maxFee
      gasLimit := BitVec.ofNat 64 d.gasLimit
      recipient := if d.isCreate then none else some d.recipient
      value := d.value
      data := d.inputSrc
      accessList := accessList
      maxBlobFee := d.maxBlobFee
      blobHashes := blobHashes
      authorizations := authorizations
      v := d.sigV
      r := d.sigR
      s := d.sigS }

/-- Re-encodes the decoded fields in the transaction type's format. -/
def reencodeTx (d : TransactionFields) : Result (List Byte) := do
  let e ← envelopeOf d
  .ok e.encode

/-! ## Canonical form of the leniently read fields -/

/-- A string of exactly `width` bytes in its shortest framing. -/
def TightBytes (width : Nat) (f : RlpFieldRef) : Prop :=
  rlpRefBytesCanonical f = true ∧ f.contentLen = width

/-- A list in its shortest framing, over items that satisfy `P`. -/
def TightList (P : RlpFieldRef → Prop) (f : RlpFieldRef) : Prop :=
  rlpRefFramingCanonical f = true ∧ ∀ fs, Fields (rlpItemContent f) fs → ∀ g ∈ fs, P g

/-- A list in its shortest framing whose first items satisfy the given
predicates, where there are that many. -/
def TightTuple (n : Nat) (P : Vector RlpFieldRef n → Prop) (f : RlpFieldRef) : Prop :=
  rlpRefFramingCanonical f = true ∧
    ∀ fs : Vector RlpFieldRef n, Fields (rlpItemContent f) fs.toList → P fs

/-- `[address, [key, …]]` with 20 and 32 bytes. -/
def TightAccessEntry : RlpFieldRef → Prop :=
  TightTuple 2 fun f => TightBytes 20 (entryAddress f) ∧ TightList (TightBytes 32) (entryKeys f)

/-- An authorization tuple with a 20-byte address. -/
def TightAuthTuple : RlpFieldRef → Prop :=
  TightTuple 6 fun f => TightBytes 20 (authTupleRefs f).address

/-- The leniently read fields of an envelope are in canonical form. -/
structure TightRefs (f : TxFieldRefs) : Prop where
  recipient : TightBytes 0 f.recipient ∨ TightBytes 20 f.recipient
  v : rlpItemUintCanonical f.v = true
  data : rlpRefBytesCanonical f.data = true
  accessList : ∀ g, f.accessList = some g → TightList TightAccessEntry g
  blobHashes : ∀ g, f.blobHashes = some g → rlpRefFramingCanonical g = true
  authorizations : ∀ g, f.authorizations = some g → TightList TightAuthTuple g

/-- The number of fields of each envelope type. -/
def txArity : TxType → Nat
  | .legacyTx => 9
  | .accessListTx => 11
  | .feeMarketTx => 12
  | .blobTx => 14
  | .setCodeTx => 13

/-- The roles of the fields of each envelope type. -/
def txRefs : (t : TxType) → Vector RlpFieldRef (txArity t) → TxFieldRefs
  | .legacyTx, f => legacyTxRefs f
  | .accessListTx, f => accessListTxRefs f
  | .feeMarketTx, f => feeMarketTxRefs f
  | .blobTx, f => blobTxRefs f
  | .setCodeTx, f => setCodeTxRefs f

/-- An envelope whose list headers are all shortest and whose leniently
read fields are in canonical form, as far as it has the fields of its
type. -/
def TightEnvelope (tx : List Byte) : Prop :=
  ∀ t, txTypeOfByte (txTypeByte tx) = .ok t → ∀ root, rlpSingleRef (txPayload tx) = .ok root →
    TightTuple (txArity t) (fun f => TightRefs (txRefs t f)) root

end EvmSail
