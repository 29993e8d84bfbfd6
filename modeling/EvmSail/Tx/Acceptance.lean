/-
# `EvmSail.Tx.Acceptance` — which envelopes the decoder accepts

The fields of an accepted envelope, by role: the strictly read ones are the
canonical fields of the decoded content (`StrictRefs`), the leniently read
ones are so exactly when they are in canonical form
(`DecodedAs.tight_iff`).  An accepted envelope is therefore reproduced by
its decoded fields exactly when it is tight, and the canonical encodings
of valid contents are exactly the accepted tight envelopes
(`rlpDecodeTx_canonical`).

Tightness is not automatic: a legacy envelope with a recipient of one byte
is accepted (`reencodeTx_shortRecipientTx`).
-/
import EvmSail.Tx.CanonicalSound

namespace EvmSail

open Fallible

/-! ## Fields by role -/

/-- The strictly read fields are the canonical fields of a content. -/
structure StrictRefs (f : TxFieldRefs) (e : Envelope) : Prop where
  chain : ∀ g, f.chain = some g → g = uintField e.chainId.toNat
  nonce : f.nonce = uintField e.nonce.toNat
  maxPriorityFee : f.maxPriorityFee = uintField e.maxPriorityFee.toNat
  maxFee : f.maxFee = uintField e.maxFee.toNat
  gas : f.gas = uintField e.gasLimit.toNat
  value : f.value = uintField e.value.toNat
  maxBlobFee : ∀ g, f.maxBlobFee = some g → g = uintField e.maxBlobFee.toNat
  r : f.r = uintField e.r.toNat
  s : f.s = uintField e.s.toNat

/-- The leniently read fields are. -/
structure LenientRefs (f : TxFieldRefs) (e : Envelope) : Prop where
  recipient : f.recipient = recipientField e.recipient
  v : f.v = uintField e.v.toNat
  data : f.data = bytesField e.data
  accessList : ∀ g, f.accessList = some g → g = e.accessListField
  blobHashes : ∀ g, f.blobHashes = some g → g = e.blobHashesField
  authorizations : ∀ g, f.authorizations = some g → g = e.authorizationsField

/-- The fields of an envelope in order. -/
def TxFieldRefs.inOrder (f : TxFieldRefs) : TxType → List RlpFieldRef
  | .legacyTx => [f.nonce, f.maxFee, f.gas, f.recipient, f.value, f.data, f.v, f.r, f.s]
  | .accessListTx =>
    f.chain.toList ++ [f.nonce, f.maxFee, f.gas, f.recipient, f.value, f.data] ++
      f.accessList.toList ++ [f.v, f.r, f.s]
  | _ =>
    f.chain.toList ++ [f.nonce, f.maxPriorityFee, f.maxFee, f.gas, f.recipient, f.value, f.data] ++
      f.accessList.toList ++ f.maxBlobFee.toList ++ f.blobHashes.toList ++
      f.authorizations.toList ++ [f.v, f.r, f.s]

theorem toList_inOrder {t : TxType} (v : Vector RlpFieldRef (txArity t)) :
    v.toList = (txRefs t v).inOrder t := by
  cases t with
  | legacyTx => exact vector_toList_eq v
  | accessListTx => exact vector_toList_eq v
  | feeMarketTx => exact vector_toList_eq v
  | blobTx => exact vector_toList_eq v
  | setCodeTx => exact vector_toList_eq v

/-- Which optional fields an envelope type has. -/
theorem txRefs_options {t : TxType} (v : Vector RlpFieldRef (txArity t)) :
    ((txRefs t v).chain = none ↔ t = .legacyTx) ∧
    ((txRefs t v).blobHashes ≠ none → t = .blobTx) ∧
    ((txRefs t v).authorizations ≠ none → t = .setCodeTx) := by
  cases t <;> simp [txRefs, legacyTxRefs, accessListTxRefs, feeMarketTxRefs, blobTxRefs,
    setCodeTxRefs]

/-- A gas price is both fee caps. -/
def Envelope.withGasPrice (e : Envelope) : Envelope :=
  match e.txType with
  | .legacyTx => { e with maxPriorityFee := e.maxFee }
  | .accessListTx => { e with maxPriorityFee := e.maxFee }
  | _ => e

theorem withGasPrice_spec (e : Envelope) :
    e.withGasPrice.txType = e.txType ∧ e.withGasPrice.items = e.items ∧
      ∀ n, e.Valid n → e.withGasPrice.Valid n := by
  obtain ⟨t⟩ := e
  cases t <;> exact ⟨rfl, rfl, fun n h => ⟨h.nonce, h.versions, h.blobs, h.tuples⟩⟩

/-- The canonical items of a content, role by role. -/
theorem refs_of_items {t : TxType} {v : Vector RlpFieldRef (txArity t)} {e : Envelope}
    (ht : e.txType = t) (h : v.toList = e.items) :
    StrictRefs (txRefs t v) e.withGasPrice ∧ LenientRefs (txRefs t v) e := by
  rw [toList_inOrder, Envelope.items, ht] at h
  rw [Envelope.withGasPrice, ht]
  cases t <;>
    simp only [TxFieldRefs.inOrder, txRefs, legacyTxRefs, accessListTxRefs, feeMarketTxRefs,
      blobTxRefs, setCodeTxRefs, Option.toList_some, Option.toList_none, List.cons_append,
      List.nil_append, List.cons.injEq] at h <;>
    constructor <;> constructor <;>
    simp [txRefs, legacyTxRefs, accessListTxRefs, feeMarketTxRefs, blobTxRefs, setCodeTxRefs,
      Envelope.accessListField, Envelope.blobHashesField, Envelope.authorizationsField, h]

theorem LenientRefs.withGasPrice {f : TxFieldRefs} {e : Envelope} (h : LenientRefs f e) :
    LenientRefs f e.withGasPrice := by
  obtain ⟨t⟩ := e
  cases t <;> exact ⟨h.recipient, h.v, h.data, h.accessList, h.blobHashes, h.authorizations⟩

/-- Fields that are canonical in every role are the canonical items. -/
theorem items_of_refs {t : TxType} {v : Vector RlpFieldRef (txArity t)} {e : Envelope}
    (ht : e.txType = t) (hstrict : StrictRefs (txRefs t v) e)
    (hlenient : LenientRefs (txRefs t v) e) : v.toList = e.items := by
  obtain ⟨hchain, hnonce, hprio, hfee, hgas, hvalue, hblobFee, hr, hs⟩ := hstrict
  obtain ⟨hto, hv, hdata, hal, hbh, hauth⟩ := hlenient
  rw [toList_inOrder, Envelope.items, ht]
  cases t with
  | legacyTx =>
    simp only [TxFieldRefs.inOrder, hnonce, hfee, hgas, hto, hvalue, hdata, hv, hr, hs]
    rfl
  | accessListTx =>
    have hchain' : (txRefs .accessListTx v).chain = some (uintField e.chainId.toNat) :=
      congrArg some (hchain _ rfl)
    have hal' : (txRefs .accessListTx v).accessList = some e.accessListField :=
      congrArg some (hal _ rfl)
    simp only [TxFieldRefs.inOrder, hchain', hnonce, hfee, hgas, hto, hvalue, hdata, hal', hv, hr,
      hs]
    rfl
  | feeMarketTx =>
    have hchain' : (txRefs .feeMarketTx v).chain = some (uintField e.chainId.toNat) :=
      congrArg some (hchain _ rfl)
    have hal' : (txRefs .feeMarketTx v).accessList = some e.accessListField :=
      congrArg some (hal _ rfl)
    simp only [TxFieldRefs.inOrder, hchain', hnonce, hprio, hfee, hgas, hto, hvalue, hdata, hal',
      hv, hr, hs]
    rfl
  | blobTx =>
    have hchain' : (txRefs .blobTx v).chain = some (uintField e.chainId.toNat) :=
      congrArg some (hchain _ rfl)
    have hal' : (txRefs .blobTx v).accessList = some e.accessListField :=
      congrArg some (hal _ rfl)
    have hblobFee' : (txRefs .blobTx v).maxBlobFee = some (uintField e.maxBlobFee.toNat) :=
      congrArg some (hblobFee _ rfl)
    have hbh' : (txRefs .blobTx v).blobHashes = some e.blobHashesField :=
      congrArg some (hbh _ rfl)
    simp only [TxFieldRefs.inOrder, hchain', hnonce, hprio, hfee, hgas, hto, hvalue, hdata, hal',
      hblobFee', hbh', hv, hr, hs]
    rfl
  | setCodeTx =>
    have hchain' : (txRefs .setCodeTx v).chain = some (uintField e.chainId.toNat) :=
      congrArg some (hchain _ rfl)
    have hal' : (txRefs .setCodeTx v).accessList = some e.accessListField :=
      congrArg some (hal _ rfl)
    have hauth' : (txRefs .setCodeTx v).authorizations = some e.authorizationsField :=
      congrArg some (hauth _ rfl)
    simp only [TxFieldRefs.inOrder, hchain', hnonce, hprio, hfee, hgas, hto, hvalue, hdata, hal',
      hauth', hv, hr, hs]
    rfl

/-! ## One envelope decoder -/

section Decoder

variable (keccak256 : List Byte → Hash)
  (ecrecover : Hash → Fin 2 → Word → Word → AddressResult)
  (tx : TransactionInputSlice) (pubkey : Vector Byte 65) (blobLimit : Nat) (sender : Address)

/-- Decoding an envelope and preparing its authorizations. -/
def acceptTx : Result (TransactionFields × PreparedAuthorizationList) := do
  let d ← rlpDecodeTx keccak256 tx pubkey blobLimit
  let prepared ← prepareAuthorizations keccak256 ecrecover d.authorizations
  .ok (d, prepared)

/-- The five decoders take their fields and decode them by role. -/
theorem decodeTxPayload_eq (fields : List Byte) (t : TxType) :
    decodeTxPayload keccak256 tx pubkey blobLimit sender fields t =
      rlpTakeFields (txArity t) fields >>= fun v =>
        decodeTxFieldRefs keccak256 tx pubkey blobLimit sender t (txRefs t v) := by
  cases t <;> rfl

end Decoder

/-- Every field of an envelope. -/
def TxFieldRefs.all (f : TxFieldRefs) : List RlpFieldRef :=
  [f.nonce, f.maxPriorityFee, f.maxFee, f.gas, f.recipient, f.value, f.data, f.v, f.r, f.s] ++
    f.chain.toList ++ f.accessList.toList ++ f.maxBlobFee.toList ++ f.blobHashes.toList ++
    f.authorizations.toList

theorem forall_all {t : TxType} {v : Vector RlpFieldRef (txArity t)} {P : RlpFieldRef → Prop}
    (h : ∀ i (hi : i < txArity t), P v[i]) : ∀ g ∈ (txRefs t v).all, P g := by
  cases t <;>
    simp [TxFieldRefs.all, txRefs, legacyTxRefs, accessListTxRefs, feeMarketTxRefs, blobTxRefs,
      setCodeTxRefs] <;>
    and_intros <;> exact h _ (by decide)

theorem decodeOptional_eq_ok {α : Type} {absent a : α} {decode : RlpFieldRef → Result α}
    {o : Option RlpFieldRef} : decodeOptional absent decode o = .ok a ↔
      o = none ∧ a = absent ∨ ∃ g, o = some g ∧ decode g = .ok a := by
  cases o with
  | none =>
    rw [decodeOptional]
    simp [eq_comm]
  | some g =>
    rw [decodeOptional]
    simp

theorem readSpan_nil {α : Type} (read : RlpFieldRef → Result α) : readSpan read [] = .ok [] :=
  readSpan_eq_ok.mpr ⟨[], Fields.nil, .nil⟩

/-- The items of a walked blob-hash list are versioned hashes. -/
theorem exists_hashes {fs : List RlpFieldRef} (h : ∀ f ∈ fs, blobHashItem f = .ok ()) :
    ∃ hs : List Hash, fs = hs.map hashField ∧ ∀ x ∈ hs, x.get 0 = 0x01 := by
  induction fs with
  | nil => exact ⟨[], rfl, by simp⟩
  | cons f fs ih =>
    obtain ⟨hf, hfs⟩ := List.forall_mem_cons.mp h
    obtain ⟨x, hx, rfl⟩ := blobHashItem_eq_ok.mp hf
    obtain ⟨hs, rfl, hall⟩ := ih hfs
    exact ⟨x :: hs, rfl, List.forall_mem_cons.mpr ⟨hx, hall⟩⟩

theorem readSpan_hashes {c : List Byte} {hs : List Hash} (h : Fields c (hs.map hashField)) :
    readSpan readBlobHash c = .ok hs := by
  refine readSpan_eq_ok.mpr ⟨_, h, ?_⟩
  rw [List.forall₂_map_left_iff, List.forall₂_same]
  intro x _
  exact readBlobHash_hashField x

/-- What the decoder reads from each field. -/
structure DecodedAs (blobLimit : Nat) (t : TxType) (f : TxFieldRefs) (d : TransactionFields) :
    Prop where
  txType : d.txType = t
  v : rlpDecodeWord f.v = .ok d.sigV
  accessList : decodeOptional emptyAccessListRef decodeAccessList f.accessList = .ok d.accessList
  blobHashes : decodeOptional emptyBlobHashes (fun g => decodeBlobHashes g blobLimit)
    f.blobHashes = .ok d.blobHashes
  authorizations : decodeOptional emptyAuthorizationListRef decodeAuthList f.authorizations =
    .ok d.authorizations
  nonce : decodeTxNonce t f.nonce = .ok d.nonce
  recipient : ∃ w, rlpDecodeWord f.recipient = .ok w ∧ d.recipient = wordToAddress w
  isCreate : d.isCreate = (f.recipient.contentLen == 0)
  chainId : decodeOptional 0 rlpDecodeUint64 f.chain = .ok d.chainId
  gasLimit : rlpDecodeUint64 f.gas = .ok d.gasLimit
  value : rlpDecodeU256 f.value = .ok d.value
  inputSrc : d.inputSrc = rlpItemContent f.data
  maxFee : rlpDecodeU256 f.maxFee = .ok d.maxFee
  maxBlobFee : decodeOptional 0 rlpDecodeU256 f.maxBlobFee = .ok d.maxBlobFee
  maxPriorityFee : rlpDecodeU256 f.maxPriorityFee = .ok d.maxPriorityFee
  sigR : rlpDecodeU256 f.r = .ok d.sigR
  sigS : rlpDecodeU256 f.s = .ok d.sigS

section Decoder

variable {keccak256 : List Byte → Hash}
  {ecrecover : Hash → Fin 2 → Word → Word → AddressResult}
  {tx : TransactionInputSlice} {pubkey : Vector Byte 65} {blobLimit : Nat} {sender : Address}

theorem decodeTxFieldRefs_decodedAs {t : TxType} {f : TxFieldRefs} {d : TransactionFields}
    (h : decodeTxFieldRefs keccak256 tx pubkey blobLimit sender t f = .ok d) :
    DecodedAs blobLimit t f d := by
  obtain ⟨v, hv, h₁⟩ := bind_eq_ok.mp h
  obtain ⟨al, hal, h₂⟩ := bind_eq_ok.mp h₁
  obtain ⟨bh, hbh, h₃⟩ := bind_eq_ok.mp h₂
  obtain ⟨au, hau, h₄⟩ := bind_eq_ok.mp h₃
  obtain ⟨nonce, hnonce, h₅⟩ := bind_eq_ok.mp h₄
  obtain ⟨w, hw, h₆⟩ := bind_eq_ok.mp h₅
  obtain ⟨hash, _, h₇⟩ := bind_eq_ok.mp h₆
  obtain ⟨chain, hchain, h₈⟩ := bind_eq_ok.mp h₇
  obtain ⟨gas, hgas, h₉⟩ := bind_eq_ok.mp h₈
  obtain ⟨value, hvalue, h₁₀⟩ := bind_eq_ok.mp h₉
  obtain ⟨input, hinput, h₁₁⟩ := bind_eq_ok.mp h₁₀
  obtain ⟨fee, hfee, h₁₂⟩ := bind_eq_ok.mp h₁₁
  obtain ⟨blobFee, hblobFee, h₁₃⟩ := bind_eq_ok.mp h₁₂
  obtain ⟨prio, hprio, h₁₄⟩ := bind_eq_ok.mp h₁₃
  obtain ⟨r, hr, h₁₅⟩ := bind_eq_ok.mp h₁₄
  obtain ⟨s, hs, h₁₆⟩ := bind_eq_ok.mp h₁₅
  obtain rfl := Except.ok.inj h₁₆
  have hdata : input = rlpItemContent f.data := by
    rw [txInputSpan] at hinput
    split at hinput
    · exact (Except.ok.inj hinput).symm
    · cases hinput
  exact ⟨rfl, hv, hal, hbh, hau, hnonce, ⟨w, hw, rfl⟩, rfl, hchain, hgas, hvalue, hdata, hfee,
    hblobFee, hprio, hr, hs⟩

variable (keccak256 tx pubkey blobLimit sender) in
/-- Conversely the decoder returns when every field can be read. -/
theorem decodeTxFieldRefs_of_decodedAs {t : TxType} {f : TxFieldRefs} {d : TransactionFields}
    (hsigned : (sourcesOf f.signed).length ≤ transactionLengthBound)
    (hdata : f.data.source.length ≤ transactionLengthBound) (h : DecodedAs blobLimit t f d) :
    ∃ d', decodeTxFieldRefs keccak256 tx pubkey blobLimit sender t f = .ok d' ∧
      d'.authorizations = d.authorizations := by
  obtain ⟨w, hw, _⟩ := h.recipient
  obtain ⟨hash, hhash⟩ := txSigningHash_ok keccak256 t d.sigV hsigned
  have hinput : txInputSpan f.data = .ok (rlpItemContent f.data) := by
    rw [txInputSpan, if_pos]
    · rfl
    · rw [transactionRlpContent, length_rlpItemContent]
      exact f.data.content_le.trans hdata
  rw [decodeTxFieldRefs, h.v, ok_bind, h.accessList, ok_bind, h.blobHashes, ok_bind,
    h.authorizations, ok_bind, h.nonce, ok_bind, hw, ok_bind, txSigSpan, hhash, ok_bind, h.chainId,
    ok_bind, rlpDecodeGas, h.gasLimit, ok_bind, h.value, ok_bind, hinput, ok_bind, h.maxFee,
    ok_bind, h.maxBlobFee, ok_bind, h.maxPriorityFee, ok_bind, h.sigR, ok_bind, h.sigS, ok_bind]
  exact ⟨_, rfl, rfl⟩

end Decoder

/-- A field of a bounded envelope. -/
def TxFieldRefs.Bounded (f : TxFieldRefs) : Prop :=
  ∀ g ∈ f.all, g.source.length ≤ transactionLengthBound

/-- The content of an envelope, from what was decoded and the three lists. -/
def contentOf (d : TransactionFields) (es : List AccessEntry) (hs : List Hash)
    (ts : List AuthTuple) : Envelope where
  txType := d.txType
  chainId := BitVec.ofNat 64 d.chainId
  nonce := d.nonce
  maxPriorityFee := d.maxPriorityFee
  maxFee := d.maxFee
  gasLimit := BitVec.ofNat 64 d.gasLimit
  recipient := if d.isCreate then none else some d.recipient
  value := d.value
  data := d.inputSrc
  accessList := es
  maxBlobFee := d.maxBlobFee
  blobHashes := hs
  authorizations := ts
  v := d.sigV
  r := d.sigR
  s := d.sigS

theorem envelopeOf_eq_ok {d : TransactionFields} {e : Envelope} :
    envelopeOf d = .ok e ↔ ∃ es hs ts, readSpan readAccessEntry d.accessList.encoded = .ok es ∧
      readSpan readBlobHash d.blobHashes.bytes = .ok hs ∧
      readSpan readAuthTuple d.authorizations.encoded = .ok ts ∧ e = contentOf d es hs ts := by
  constructor
  · intro h
    obtain ⟨es, hes, h₁⟩ := bind_eq_ok.mp h
    obtain ⟨hs, hhs, h₂⟩ := bind_eq_ok.mp h₁
    obtain ⟨ts, hts, h₃⟩ := bind_eq_ok.mp h₂
    exact ⟨es, hs, ts, hes, hhs, hts, (Except.ok.inj h₃).symm⟩
  · rintro ⟨es, hs, ts, hes, hhs, hts, rfl⟩
    rw [envelopeOf, hes, ok_bind, hhs, ok_bind, hts, ok_bind]
    rfl

/-- The contents of the three lists of a decoded envelope. -/
structure ListsOf (blobLimit : Nat) (f : TxFieldRefs) (d : TransactionFields)
    (es : List AccessEntry) (hs : List Hash) (ts : List AuthTuple) : Prop where
  entries : readSpan readAccessEntry d.accessList.encoded = .ok es
  hashes : Fields d.blobHashes.bytes (hs.map hashField)
  tuples : readSpan readAuthTuple d.authorizations.encoded = .ok ts
  versions : ∀ x ∈ hs, x.get 0 = 0x01
  blobs : hs.length ≤ blobLimit
  bound : ts.length ≤ preparedAuthorizationCountBound
  accessList : ∀ g, f.accessList = some g →
    g.isList = true ∧ d.accessList.encoded = rlpItemContent g
  blobHashes : ∀ g, f.blobHashes = some g →
    g.isList = true ∧ d.blobHashes.bytes = rlpItemContent g
  authorizations : ∀ g, f.authorizations = some g →
    g.isList = true ∧ d.authorizations.encoded = rlpItemContent g

namespace DecodedAs

variable {blobLimit : Nat} {t : TxType} {f : TxFieldRefs} {d : TransactionFields}

/-- The strictly read fields are canonical. -/
theorem strict (h : DecodedAs blobLimit t f d) (hf : f.Bounded) (es : List AccessEntry)
    (hs : List Hash) (ts : List AuthTuple) : StrictRefs f (contentOf d es hs ts) := by
  have hb : ∀ g ∈ f.all, g.source.length ≤ scratchRegionBound := fun g hg =>
    (hf g hg).trans transactionLengthBound_le
  refine ⟨?_, ?_, ?_, ?_, ?_, ?_, ?_, ?_, ?_⟩
  · intro g hg
    rcases decodeOptional_eq_ok.mp h.chainId with ⟨hnone, _⟩ | ⟨g', hg', hdec⟩
    · rw [hnone] at hg
      cases hg
    · obtain rfl := Option.some.inj (hg.symm.trans hg')
      exact (rlpDecodeUint64_eq_uint64 (hb g (by simp [TxFieldRefs.all, hg])) hdec).2
  · have hlen := hb f.nonce (by simp [TxFieldRefs.all])
    have hnonce := h.nonce
    rw [decodeTxNonce] at hnonce
    split at hnonce
    · obtain ⟨n, hn, hw⟩ := bind_eq_ok.mp hnonce
      obtain ⟨hlt, hfield⟩ := (rlpDecodeUint64_eq_ok (f.nonce.content_le.trans hlen)).mp hn
      have hnat : d.nonce.toNat = n := by
        rw [← Except.ok.inj hw, BitVec.toNat_ofNat, Nat.mod_eq_of_lt (hlt.trans (by norm_num))]
      rw [contentOf, hnat]
      exact hfield
    · exact rlpDecodeU256_eq_uint hlen hnonce
  · exact rlpDecodeU256_eq_uint (hb _ (by simp [TxFieldRefs.all])) h.maxPriorityFee
  · exact rlpDecodeU256_eq_uint (hb _ (by simp [TxFieldRefs.all])) h.maxFee
  · exact (rlpDecodeUint64_eq_uint64 (hb _ (by simp [TxFieldRefs.all])) h.gasLimit).2
  · exact rlpDecodeU256_eq_uint (hb _ (by simp [TxFieldRefs.all])) h.value
  · intro g hg
    rcases decodeOptional_eq_ok.mp h.maxBlobFee with ⟨hnone, _⟩ | ⟨g', hg', hdec⟩
    · rw [hnone] at hg
      cases hg
    · obtain rfl := Option.some.inj (hg.symm.trans hg')
      exact rlpDecodeU256_eq_uint (hb g (by simp [TxFieldRefs.all, hg])) hdec
  · exact rlpDecodeU256_eq_uint (hb _ (by simp [TxFieldRefs.all])) h.sigR
  · exact rlpDecodeU256_eq_uint (hb _ (by simp [TxFieldRefs.all])) h.sigS

/-- The three lists of a decoded envelope can be read. -/
theorem lists (h : DecodedAs blobLimit t f d) (hf : f.Bounded)
    {keccak256 : List Byte → Hash} {ecrecover : Hash → Fin 2 → Word → Word → AddressResult}
    {prepared : PreparedAuthorizationList}
    (hprepared : prepareAuthorizations keccak256 ecrecover d.authorizations = .ok prepared) :
    ∃ es hs ts, ListsOf blobLimit f d es hs ts := by
  have haccess : ∃ es, readSpan readAccessEntry d.accessList.encoded = .ok es ∧
      ∀ g, f.accessList = some g → g.isList = true ∧ d.accessList.encoded = rlpItemContent g := by
    rcases decodeOptional_eq_ok.mp h.accessList with ⟨hnone, hd⟩ | ⟨g, hg, hdec⟩
    · rw [hnone, hd]
      exact ⟨[], readSpan_nil _, by simp⟩
    · obtain ⟨hkind, es, hes, hd⟩ :=
        (decodeAccessList_eq_ok (hf g (by simp [TxFieldRefs.all, hg]))).mp hdec
      rw [hg, hd]
      exact ⟨es, hes, fun g' hg' => Option.some.inj hg' ▸ ⟨hkind, rfl⟩⟩
  have hblobs : ∃ hs : List Hash, Fields d.blobHashes.bytes (hs.map hashField) ∧
      (∀ x ∈ hs, x.get 0 = 0x01) ∧ hs.length ≤ blobLimit ∧
      ∀ g, f.blobHashes = some g → g.isList = true ∧ d.blobHashes.bytes = rlpItemContent g := by
    rcases decodeOptional_eq_ok.mp h.blobHashes with ⟨hnone, hd⟩ | ⟨g, hg, hdec⟩
    · rw [hnone, hd]
      exact ⟨[], Fields.nil, by simp, Nat.zero_le _, by simp⟩
    · obtain ⟨hkind, fs, hfs, hall, hlimit, hd⟩ := decodeBlobHashes_eq_ok.mp hdec
      obtain ⟨hs, rfl, hversions⟩ := exists_hashes hall
      rw [List.length_map] at hlimit
      rw [hg, hd]
      exact ⟨hs, hfs, hversions, hlimit,
        fun g' hg' => Option.some.inj hg' ▸ ⟨hkind, rfl⟩⟩
  have hauth : d.authorizations.encoded.length ≤ scratchRegionBound ∧
      ∀ g, f.authorizations = some g →
        g.isList = true ∧ d.authorizations.encoded = rlpItemContent g := by
    rcases decodeOptional_eq_ok.mp h.authorizations with ⟨hnone, hd⟩ | ⟨g, hg, hdec⟩
    · rw [hnone, hd]
      exact ⟨Nat.zero_le _, by simp⟩
    · have hlen := hf g (by simp [TxFieldRefs.all, hg])
      obtain ⟨hkind, fs, _, _, _, hd⟩ := (decodeAuthList_eq_ok hlen).mp hdec
      rw [hg, hd, length_rlpItemContent]
      exact ⟨g.content_le.trans (hlen.trans transactionLengthBound_le),
        fun g' hg' => Option.some.inj hg' ▸ ⟨hkind, rfl⟩⟩
  obtain ⟨es, hes, halist⟩ := haccess
  obtain ⟨hs, hhs, hversions, hlimit, hblist⟩ := hblobs
  obtain ⟨hcount, ts, hts, htslen⟩ :=
    (prepareAuthorizations_ok_iff keccak256 ecrecover hauth.1).mp ⟨prepared, hprepared⟩
  exact ⟨es, hs, ts, hes, hhs, hts, hversions, hlimit, htslen ▸ hcount, halist, hblist, hauth.2⟩

/-- Its content is valid. -/
theorem valid (h : DecodedAs blobLimit t f d) {es : List AccessEntry}
    {hs : List Hash} {ts : List AuthTuple} (hlists : ListsOf blobLimit f d es hs ts)
    (hf : f.Bounded) : (contentOf d es hs ts).Valid blobLimit := by
  refine ⟨?_, fun _ => hlists.versions, fun _ => hlists.blobs, fun _ => hlists.bound⟩
  intro ht
  have hlen := (hf f.nonce (by simp [TxFieldRefs.all])).trans transactionLengthBound_le
  have hnonce := h.nonce
  rw [decodeTxNonce, if_pos (h.txType ▸ ht)] at hnonce
  obtain ⟨n, hn, hw⟩ := bind_eq_ok.mp hnonce
  obtain ⟨hlt, _⟩ := (rlpDecodeUint64_eq_ok (f.nonce.content_le.trans hlen)).mp hn
  change d.nonce.toNat < 2 ^ 64
  rw [← Except.ok.inj hw, BitVec.toNat_ofNat, Nat.mod_eq_of_lt (hlt.trans (by norm_num))]
  exact hlt

/-- The leniently read fields are the canonical fields of the decoded
content exactly when they are in canonical form. -/
theorem tight_iff (h : DecodedAs blobLimit t f d) (hf : f.Bounded) {es : List AccessEntry}
    {hs : List Hash} {ts : List AuthTuple} (hlists : ListsOf blobLimit f d es hs ts) :
    TightRefs f ↔ LenientRefs f (contentOf d es hs ts) := by
  have hb : ∀ g ∈ f.all, g.source.length ≤ scratchRegionBound := fun g hg =>
    (hf g hg).trans transactionLengthBound_le
  obtain ⟨w, hw, haddr⟩ := h.recipient
  have hrecipient := tightRecipient_iff (hb f.recipient (by simp [TxFieldRefs.all])) hw
  rw [← h.isCreate, ← haddr] at hrecipient
  have hv := tightUint_iff (hb f.v (by simp [TxFieldRefs.all])) h.v
  have hdata := rlpBytesCanonical_iff (f.data.content_le.trans
    (hb f.data (by simp [TxFieldRefs.all])))
  rw [← h.inputSrc] at hdata
  have haccess : ∀ g, f.accessList = some g →
      (TightList TightAccessEntry g ↔ g = (contentOf d es hs ts).accessListField) := by
    intro g hg
    obtain ⟨hkind, hcontent⟩ := hlists.accessList g hg
    have hes := hlists.entries
    rw [hcontent] at hes
    exact tightList_iff (fun g' e hlen he => tightAccessEntry_iff hlen he)
      (fun e => canonical_listOf _) (hb g (by simp [TxFieldRefs.all, hg])) hkind hes
  have hblobs : ∀ g, f.blobHashes = some g →
      (rlpRefFramingCanonical g = true ↔ g = (contentOf d es hs ts).blobHashesField) := by
    intro g hg
    obtain ⟨hkind, hcontent⟩ := hlists.blobHashes g hg
    have hlen := hb g (by simp [TxFieldRefs.all, hg])
    have hitems := hlists.hashes
    rw [hcontent] at hitems
    have hcanon : ∀ g ∈ hs.map hashField, g.Canonical := by
      intro g hg
      obtain ⟨x, _, rfl⟩ := List.mem_map.mp hg
      exact canonical_hashField x
    have hlist := listOf_iff hlen hitems hcanon
    rw [rlpListCanonical_iff (g.content_le.trans hlen) hkind]
    exact ⟨fun hg => hlist.mpr ⟨hg, rfl⟩, fun hg => (hlist.mp hg).1⟩
  have hauths : ∀ g, f.authorizations = some g →
      (TightList TightAuthTuple g ↔ g = (contentOf d es hs ts).authorizationsField) := by
    intro g hg
    obtain ⟨hkind, hcontent⟩ := hlists.authorizations g hg
    have hts := hlists.tuples
    rw [hcontent] at hts
    exact tightList_iff (fun g' e hlen he => tightAuthTuple_iff hlen he)
      (fun e => canonical_listOf _) (hb g (by simp [TxFieldRefs.all, hg])) hkind hts
  constructor
  · intro ht
    exact ⟨hrecipient.mp ht.recipient, hv.mp ht.v, hdata.mp ht.data,
      fun g hg => (haccess g hg).mp (ht.accessList g hg),
      fun g hg => (hblobs g hg).mp (ht.blobHashes g hg),
      fun g hg => (hauths g hg).mp (ht.authorizations g hg)⟩
  · intro hl
    exact ⟨hrecipient.mpr hl.recipient, hv.mpr hl.v, hdata.mpr hl.data,
      fun g hg => (haccess g hg).mpr (hl.accessList g hg),
      fun g hg => (hblobs g hg).mpr (hl.blobHashes g hg),
      fun g hg => (hauths g hg).mpr (hl.authorizations g hg)⟩

end DecodedAs

/-! ## Canonical envelopes are accepted -/

theorem decodeOptional_of_forall {α : Type} (absent : α) (decode : RlpFieldRef → Result α)
    (o : Option RlpFieldRef) (h : ∀ g, o = some g → ∃ a, decode g = .ok a) :
    ∃ a, decodeOptional absent decode o = .ok a := by
  cases o with
  | none => exact ⟨absent, rfl⟩
  | some g => exact h g rfl

theorem decodeBlobHashes_listOf {hs : List Hash} {limit : Nat}
    (hlen : (listOf (hs.map hashField)).source.length ≤ transactionLengthBound)
    (hversions : ∀ x ∈ hs, x.get 0 = 0x01) (hlimit : hs.length ≤ limit) :
    ∃ a, decodeBlobHashes (listOf (hs.map hashField)) limit = .ok a := by
  have hcanon : ∀ g ∈ hs.map hashField, g.Canonical := by
    intro g hg
    obtain ⟨x, _, rfl⟩ := List.mem_map.mp hg
    exact canonical_hashField x
  have hfields := fields_listOf hcanon
    ((length_sourcesOf_le _).trans (hlen.trans transactionLengthBound_le))
  rw [← rlpItemContent_listOf] at hfields
  refine ⟨_, decodeBlobHashes_eq_ok.mpr ⟨rfl, _, hfields, ?_, ?_, rfl⟩⟩
  · intro g hg
    obtain ⟨x, hx, rfl⟩ := List.mem_map.mp hg
    exact blobHashItem_eq_ok.mpr ⟨x, hversions x hx, rfl⟩
  · rw [List.length_map]
    exact hlimit

theorem preparedAuthorizationCountBound_le :
    preparedAuthorizationCountBound ≤ transactionLengthBound := by decide

/-- The authorization list of a content is decoded and prepared. -/
theorem decodeAuthList_listOf (keccak256 : List Byte → Hash)
    (ecrecover : Hash → Fin 2 → Word → Word → AddressResult) {ts : List AuthTuple}
    (hlen : (listOf (ts.map AuthTuple.field)).source.length ≤ transactionLengthBound)
    (hbound : ts.length ≤ preparedAuthorizationCountBound) :
    ∃ a, decodeAuthList (listOf (ts.map AuthTuple.field)) = .ok a ∧
      ∃ l, prepareAuthorizations keccak256 ecrecover a = .ok l := by
  have hcontent := (length_sourcesOf_le (ts.map AuthTuple.field)).trans
    (hlen.trans transactionLengthBound_le)
  obtain ⟨hfields, hspan⟩ := readSpan_listOf ts (fun t ht => readAuthTuple_field ht)
    (fun t => canonical_listOf _) hcontent
  rw [← rlpItemContent_listOf] at hfields
  refine ⟨⟨sourcesOf (ts.map AuthTuple.field), ts.length⟩, ?_, ?_⟩
  · refine (decodeAuthList_eq_ok hlen).mpr ⟨rfl, _, hfields, ?_, ?_, ?_⟩
    · intro g hg
      obtain ⟨t, _, rfl⟩ := List.mem_map.mp hg
      rfl
    · rw [List.length_map]
      exact hbound.trans preparedAuthorizationCountBound_le
    · rw [rlpItemContent_listOf, List.length_map]
  · exact (prepareAuthorizations_ok_iff keccak256 ecrecover hcontent).mpr ⟨hbound, ts, hspan, rfl⟩

section Decoder

variable {keccak256 : List Byte → Hash}
  {ecrecover : Hash → Fin 2 → Word → Word → AddressResult}
  {tx : TransactionInputSlice} {pubkey : Vector Byte 65} {blobLimit : Nat} {sender : Address}

theorem prepareAuthorizations_empty :
    prepareAuthorizations keccak256 ecrecover emptyAuthorizationListRef = .ok ⟨[], 0⟩ := rfl

variable (keccak256 ecrecover tx pubkey sender) in
/-- An envelope whose fields are the canonical fields of a valid content
is decoded and its authorizations are prepared. -/
theorem decode_of_canonical {t : TxType} {f : TxFieldRefs} {e : Envelope} (hf : f.Bounded)
    (hsigned : (sourcesOf f.signed).length ≤ transactionLengthBound)
    (ht : e.txType = t) (hvalid : e.Valid blobLimit) (hblob : f.blobHashes ≠ none → t = .blobTx)
    (hauth : f.authorizations ≠ none → t = .setCodeTx) (hstrict : StrictRefs f e)
    (hlenient : LenientRefs f e) :
    ∃ d l, decodeTxFieldRefs keccak256 tx pubkey blobLimit sender t f = .ok d ∧
      prepareAuthorizations keccak256 ecrecover d.authorizations = .ok l := by
  have hb : ∀ g ∈ f.all, g.source.length ≤ scratchRegionBound := fun g hg =>
    (hf g hg).trans transactionLengthBound_le
  obtain ⟨al, hal⟩ := decodeOptional_of_forall emptyAccessListRef decodeAccessList f.accessList
    (by
      intro g hg
      have hlen := hf g (by simp [TxFieldRefs.all, hg])
      rw [hlenient.accessList g hg] at hlen ⊢
      exact ⟨_, decodeAccessList_listOf hlen⟩)
  obtain ⟨bh, hbh⟩ := decodeOptional_of_forall emptyBlobHashes
    (fun g => decodeBlobHashes g blobLimit) f.blobHashes (by
      intro g hg
      have hlen := hf g (by simp [TxFieldRefs.all, hg])
      have htype := ht.trans (hblob (by simp [hg]))
      rw [hlenient.blobHashes g hg] at hlen ⊢
      exact decodeBlobHashes_listOf hlen (hvalid.versions htype) (hvalid.blobs htype))
  have hau : ∃ au l, decodeOptional emptyAuthorizationListRef decodeAuthList f.authorizations =
      .ok au ∧ prepareAuthorizations keccak256 ecrecover au = .ok l := by
    cases hopt : f.authorizations with
    | none => exact ⟨_, _, rfl, prepareAuthorizations_empty⟩
    | some g =>
      have hlen := hf g (by simp [TxFieldRefs.all, hopt])
      have htype := ht.trans (hauth (by simp [hopt]))
      rw [hlenient.authorizations g hopt] at hlen ⊢
      obtain ⟨a, ha, l, hl⟩ := decodeAuthList_listOf keccak256 ecrecover hlen (hvalid.tuples htype)
      exact ⟨a, l, ha, hl⟩
  obtain ⟨au, l, hau, hl⟩ := hau
  obtain ⟨chain, hchain⟩ := decodeOptional_of_forall 0 rlpDecodeUint64 f.chain (by
      intro g hg
      have hlen := hb g (by simp [TxFieldRefs.all, hg])
      rw [hstrict.chain g hg] at hlen ⊢
      exact ⟨_, rlpDecodeUint64_uintField _ hlen⟩)
  obtain ⟨blobFee, hblobFee⟩ := decodeOptional_of_forall 0 rlpDecodeU256 f.maxBlobFee (by
      intro g hg
      have hlen := hb g (by simp [TxFieldRefs.all, hg])
      rw [hstrict.maxBlobFee g hg] at hlen ⊢
      exact ⟨_, rlpDecodeU256_uintField _ hlen⟩)
  have hnonce : decodeTxNonce t f.nonce = .ok e.nonce := by
    have hlen := hb f.nonce (by simp [TxFieldRefs.all])
    rw [decodeTxNonce]
    split
    · rename_i htype
      have hn := (rlpDecodeUint64_eq_ok (f.nonce.content_le.trans hlen)).mpr
        ⟨hvalid.nonce (ht.trans htype), hstrict.nonce⟩
      rw [hn, ok_bind, BitVec.ofNat_toNat, BitVec.setWidth_eq]
    · rw [hstrict.nonce] at hlen ⊢
      exact rlpDecodeU256_uintField _ hlen
  have hrecipient : ∃ w, rlpDecodeWord f.recipient = .ok w := by
    rw [hlenient.recipient]
    cases e.recipient with
    | none => exact ⟨_, rlpDecodeWord_bytesField (Nat.zero_le _)⟩
    | some a => exact ⟨_, rlpDecodeWord_bytesField (by simp)⟩
  obtain ⟨w, hw⟩ := hrecipient
  have hword : ∀ g ∈ f.all, ∀ x : Word, g = uintField x.toNat → rlpDecodeU256 g = .ok x := by
    intro g hg x hx
    exact (rlpDecodeU256_eq_ok (g.content_le.trans (hb g hg))).mpr hx
  have hv : rlpDecodeWord f.v = .ok e.v := by
    have hu := hword f.v (by simp [TxFieldRefs.all]) e.v hlenient.v
    rw [rlpDecodeU256] at hu
    split at hu
    · exact hu
    · cases hu
  have hgas : rlpDecodeUint64 f.gas = .ok e.gasLimit.toNat := by
    have hlen := hb f.gas (by simp [TxFieldRefs.all])
    rw [hstrict.gas] at hlen ⊢
    exact rlpDecodeUint64_uintField _ hlen
  obtain ⟨d, hd, hdauth⟩ := decodeTxFieldRefs_of_decodedAs keccak256 tx pubkey blobLimit sender
    hsigned (hf f.data (by simp [TxFieldRefs.all]))
    (d := ⟨t, 0, [], e.nonce, chain, e.gasLimit.toNat, f.recipient.contentLen == 0,
      wordToAddress w, e.value, rlpItemContent f.data, al, e.maxFee, blobFee, e.maxPriorityFee,
      au, bh, [], zeroHash, e.v, e.r, e.s⟩)
    ⟨rfl, hv, hal, hbh, hau, hnonce, ⟨w, hw, rfl⟩, rfl, hchain, hgas,
      hword f.value (by simp [TxFieldRefs.all]) e.value hstrict.value, rfl,
      hword f.maxFee (by simp [TxFieldRefs.all]) e.maxFee hstrict.maxFee, hblobFee,
      hword f.maxPriorityFee (by simp [TxFieldRefs.all]) e.maxPriorityFee hstrict.maxPriorityFee,
      hword f.r (by simp [TxFieldRefs.all]) e.r hstrict.r,
      hword f.s (by simp [TxFieldRefs.all]) e.s hstrict.s⟩
  exact ⟨d, l, hd, by rw [hdauth]; exact hl⟩

end Decoder

/-- Canonical fields are in canonical form. -/
theorem LenientRefs.tight {f : TxFieldRefs} {e : Envelope} (hf : f.Bounded)
    (h : LenientRefs f e) : TightRefs f := by
  have hb : ∀ g ∈ f.all, g.source.length ≤ scratchRegionBound := fun g hg =>
    (hf g hg).trans transactionLengthBound_le
  have hbytes : ∀ g ∈ f.all, ∀ b, g = bytesField b → rlpRefBytesCanonical g = true := by
    intro g hg b hgb
    rw [rlpBytesCanonical_iff (g.content_le.trans (hb g hg)), hgb, rlpItemContent_bytesField]
  have hcontent : ∀ fs, listOf fs = listField (rlpItemContent (listOf fs)) := by
    intro fs
    rw [rlpItemContent_listOf]
    rfl
  refine ⟨?_, ?_, hbytes f.data (by simp [TxFieldRefs.all]) _ h.data, ?_, ?_, ?_⟩
  · have hrecipient := h.recipient
    cases ho : e.recipient with
    | none =>
      rw [ho] at hrecipient
      exact Or.inl ⟨hbytes _ (by simp [TxFieldRefs.all]) _ hrecipient,
        by rw [hrecipient]; rfl⟩
    | some a =>
      rw [ho] at hrecipient
      refine Or.inr ⟨hbytes _ (by simp [TxFieldRefs.all]) _ hrecipient, ?_⟩
      rw [hrecipient, recipientField, addressField, contentLen_bytesField, length_addressBytes]
  · have hlen := f.v.content_le.trans (hb f.v (by simp [TxFieldRefs.all]))
    rw [rlpUintCanonical_iff hlen, h.v, uintField, rlpItemContent_bytesField, natOfBytes_bigEndian]
  · intro g hg
    have hlen := hb g (by simp [TxFieldRefs.all, hg])
    have heq := h.accessList g hg
    rw [heq, Envelope.accessListField] at hlen ⊢
    have hspan := (readSpan_listOf e.accessList (fun a ha => readAccessEntry_field ha)
      (fun a => canonical_listOf _) ((length_sourcesOf_le _).trans hlen)).2
    rw [← rlpItemContent_listOf] at hspan
    exact (tightList_iff (fun g' a hg' ha => tightAccessEntry_iff hg' ha)
      (fun a => canonical_listOf _) hlen rfl hspan).mpr rfl
  · intro g hg
    have hlen := hb g (by simp [TxFieldRefs.all, hg])
    rw [h.blobHashes g hg] at hlen ⊢
    exact (rlpListCanonical_iff ((RlpFieldRef.content_le _).trans hlen) rfl).mpr (hcontent _)
  · intro g hg
    have hlen := hb g (by simp [TxFieldRefs.all, hg])
    rw [h.authorizations g hg, Envelope.authorizationsField] at hlen ⊢
    have hspan := (readSpan_listOf e.authorizations (fun a ha => readAuthTuple_field ha)
      (fun a => canonical_listOf _) ((length_sourcesOf_le _).trans hlen)).2
    rw [← rlpItemContent_listOf] at hspan
    exact (tightList_iff (fun g' a hg' ha => tightAuthTuple_iff hg' ha)
      (fun a => canonical_listOf _) hlen rfl hspan).mpr rfl

/-! ## Whole envelopes -/

theorem topBits_iff (b : Byte) : b.extractLsb' 6 2 = 0b11#2 ↔ 192 ≤ b.toNat := by
  have hlt := b.isLt
  rw [← BitVec.toNat_inj, BitVec.extractLsb'_toNat, Nat.shiftRight_eq_div_pow]
  simp only [BitVec.toNat_ofNat]
  omega

theorem txTypeOfByte_eq_ok {b : Byte} {t : TxType} :
    txTypeOfByte b = .ok t ↔ b = txEnvelopeType t := by
  constructor
  · intro h
    rw [txTypeOfByte] at h
    split_ifs at h with h₀ h₁ h₂ h₃ h₄ <;> cases h <;> assumption
  · rintro rfl
    cases t <;> rfl

theorem rlpHeader_list_first (n : Nat) (hn : n ≤ scratchRegionBound) :
    192 ≤ (sliceByte (rlpHeader 0xc0 n) 0).toNat := by
  rw [rlpHeader]
  split
  · rename_i h
    rw [show sliceByte [BitVec.ofNat 8 (0xc0 + n)] 0 = BitVec.ofNat 8 (0xc0 + n) from rfl,
      BitVec.toNat_ofNat]
    omega
  · rename_i h
    obtain ⟨h₁, h₄⟩ := byteLength_bounds h hn
    rw [show sliceByte (BitVec.ofNat 8 (0xc0 + 55 + byteLength n) :: bigEndian n) 0 =
      BitVec.ofNat 8 (0xc0 + 55 + byteLength n) from rfl, BitVec.toNat_ofNat]
    omega

/-- The type byte and the payload of a canonical envelope. -/
theorem split_encode {t : TxType} {payload : List Byte}
    (hlen : payload.length ≤ scratchRegionBound) :
    txTypeByte (Envelope.typeBytes t ++ rlpList payload) = txEnvelopeType t ∧
      txPayload (Envelope.typeBytes t ++ rlpList payload) = rlpList payload := by
  have htyped : ∀ b : Byte, b ≠ 0 → b.toNat < 192 →
      txTypeByte ([b] ++ rlpList payload) = b ∧
        txPayload ([b] ++ rlpList payload) = rlpList payload := by
    intro b hb hlt
    have htype : txTypeByte ([b] ++ rlpList payload) = b := by
      rw [txTypeByte, show sliceByte ([b] ++ rlpList payload) 0 = b from rfl,
        if_neg fun h => absurd ((topBits_iff b).mp h) (by omega)]
    refine ⟨htype, ?_⟩
    rw [txPayload, htype, if_pos hb]
    simp [subSlice]
  cases t with
  | legacyTx =>
    have htype : txTypeByte (rlpList payload) = 0x00 := by
      have hfirst :
          sliceByte (rlpList payload) 0 = sliceByte (rlpHeader 0xc0 payload.length) 0 := by
        rw [rlpList, sliceByte, sliceByte, List.getElem?_append_left]
        rw [rlpHeader]
        split <;> simp
      rw [txTypeByte, hfirst, if_pos ((topBits_iff _).mpr (rlpHeader_list_first _ hlen))]
    refine ⟨htype, ?_⟩
    rw [Envelope.typeBytes, List.nil_append, txPayload, htype, if_neg (by decide)]
  | accessListTx => exact htyped 1 (by decide) (by decide)
  | feeMarketTx => exact htyped 2 (by decide) (by decide)
  | blobTx => exact htyped 3 (by decide) (by decide)
  | setCodeTx => exact htyped 4 (by decide) (by decide)

/-- An envelope is its type byte and its payload. -/
theorem eq_typeBytes_append {b : List Byte} {t : TxType} (hne : b ≠ [])
    (ht : txTypeByte b = txEnvelopeType t) : b = Envelope.typeBytes t ++ txPayload b := by
  have htyped : txTypeByte b ≠ 0x00 → b = [txTypeByte b] ++ txPayload b := by
    intro hb
    rw [txPayload, if_pos hb]
    obtain ⟨x, rest, rfl⟩ := List.exists_cons_of_ne_nil hne
    have hfirst : txTypeByte (x :: rest) = x := by
      rw [txTypeByte] at hb ⊢
      split at hb
      · exact absurd rfl hb
      · rename_i h
        rw [if_neg h]
        rfl
    rw [hfirst]
    simp [subSlice]
  cases t with
  | legacyTx =>
    rw [Envelope.typeBytes, List.nil_append, txPayload, if_neg (by rw [ht]; decide)]
  | accessListTx =>
    have h := htyped (by rw [ht]; decide)
    rwa [ht] at h
  | feeMarketTx =>
    have h := htyped (by rw [ht]; decide)
    rwa [ht] at h
  | blobTx =>
    have h := htyped (by rw [ht]; decide)
    rwa [ht] at h
  | setCodeTx =>
    have h := htyped (by rw [ht]; decide)
    rwa [ht] at h

theorem canonical_recipientField (o : Option Address) : (recipientField o).Canonical := by
  cases o <;> exact canonical_bytesField _

theorem canonical_items (e : Envelope) : ∀ g ∈ e.items, g.Canonical := by
  have hall : ∀ g, (∃ n, g = uintField n) ∨ (∃ o, g = recipientField o) ∨
      (∃ b, g = bytesField b) ∨ (∃ fs, g = listOf fs) → g.Canonical := by
    rintro g (⟨n, rfl⟩ | ⟨o, rfl⟩ | ⟨b, rfl⟩ | ⟨fs, rfl⟩)
    · exact canonical_uintField n
    · exact canonical_recipientField o
    · exact canonical_bytesField b
    · exact canonical_listOf fs
  intro g hg
  refine hall g ?_
  rw [Envelope.items] at hg
  split at hg <;>
    simp only [List.cons_append, List.nil_append, List.mem_cons, List.not_mem_nil, or_false,
      Envelope.accessListField, Envelope.blobHashesField, Envelope.authorizationsField] at hg <;>
    grind

/-- A byte string whose payload is the list `root` is the encoding of a
content exactly when `root` is the canonical list of its items. -/
theorem encode_eq_iff {b : List Byte} {t : TxType} {root : RlpFieldRef} {e : Envelope}
    (hlen : b.length ≤ scratchRegionBound) (hne : b ≠ []) (ht : txTypeByte b = txEnvelopeType t)
    (hroot : rlpSingleRef (txPayload b) = .ok root) (he : e.txType = t) :
    e.encode = b ↔ root = listOf e.items := by
  obtain ⟨hannounced, hsource⟩ := rlpSingleRef_eq_ok.mp hroot
  have hsplit := eq_typeBytes_append hne ht
  have hpayload : e.encode = b ↔ (listOf e.items).source = root.source := by
    rw [Envelope.encode, he, hsource]
    constructor
    · intro h
      rw [hsplit] at h
      exact List.append_cancel_left h
    · intro h
      rw [hsplit, ← h]
      rfl
  rw [hpayload]
  constructor
  · intro h
    have hbound : (listOf e.items).source.length ≤ scratchRegionBound := by
      rw [h, hsource]
      have hle := congrArg List.length hsplit
      rw [List.length_append] at hle
      omega
    have hother := (canonical_listOf e.items).announced hbound
    rw [RlpFieldRef.Announced, h] at hother
    exact Except.ok.inj (hannounced.symm.trans hother)
  · intro h
    rw [h]

section Decoder

variable (keccak256 : List Byte → Hash)
  (ecrecover : Hash → Fin 2 → Word → Word → AddressResult)
  (tx : TransactionInputSlice) (pubkey : Vector Byte 65) (blobLimit : Nat)

/-- What an accepted envelope splits into. -/
theorem rlpDecodeTx_eq_ok {d : TransactionFields} :
    rlpDecodeTx keccak256 tx pubkey blobLimit = .ok d ↔ tx.bytes ≠ [] ∧
      ∃ t root, txTypeByte tx.bytes = txEnvelopeType t ∧
        rlpSingleRef (txPayload tx.bytes) = .ok root ∧ root.isList = true ∧
        ∃ v : Vector RlpFieldRef (txArity t), Fields (rlpItemContent root) v.toList ∧
          decodeTxFieldRefs keccak256 tx pubkey blobLimit
            (wordToAddress (hashToWord (keccak256 (subSlice pubkey.toList 1 64)))) t
            (txRefs t v) = .ok d := by
  rw [rlpDecodeTx]
  constructor
  · intro h
    split at h
    · cases h
    rename_i hne
    obtain ⟨fields, hfields, h₁⟩ := bind_eq_ok.mp h
    obtain ⟨t, ht, h₂⟩ := bind_eq_ok.mp h₁
    rw [decodeTxPayload_eq] at h₂
    obtain ⟨v, hv, h₃⟩ := bind_eq_ok.mp h₂
    obtain ⟨root, hroot, hkind, rfl⟩ := rlpNodeCursor_eq_ok.mp hfields
    exact ⟨fun hnil => hne (by rw [hnil, List.length_nil]), t, root, txTypeOfByte_eq_ok.mp ht,
      hroot, hkind, v, rlpTakeFields_eq_ok.mp hv, h₃⟩
  · rintro ⟨hne, t, root, ht, hroot, hkind, v, hv, hd⟩
    rw [if_neg fun hlen => hne (List.eq_nil_of_length_eq_zero hlen),
      rlpNodeCursor_eq_ok.mpr ⟨root, hroot, hkind, rfl⟩, ok_bind, txTypeOfByte_eq_ok.mpr ht,
      ok_bind, decodeTxPayload_eq, rlpTakeFields_eq_ok.mpr hv, ok_bind]
    exact hd

end Decoder

theorem toList_signed {t : TxType} (v : Vector RlpFieldRef (txArity t)) :
    v.toList = (txRefs t v).signed ++ [(txRefs t v).v, (txRefs t v).r, (txRefs t v).s] := by
  cases t with
  | legacyTx => exact vector_toList_eq v
  | accessListTx => exact vector_toList_eq v
  | feeMarketTx => exact vector_toList_eq v
  | blobTx => exact vector_toList_eq v
  | setCodeTx => exact vector_toList_eq v

/-- The payload and its fields are bounded by the envelope. -/
theorem bounded_refs {b : List Byte} {t : TxType} {root : RlpFieldRef}
    {v : Vector RlpFieldRef (txArity t)} (hlen : b.length ≤ transactionLengthBound)
    (hroot : rlpSingleRef (txPayload b) = .ok root) (hv : Fields (rlpItemContent root) v.toList) :
    root.source.length ≤ transactionLengthBound ∧ (txRefs t v).Bounded ∧
      (sourcesOf (txRefs t v).signed).length ≤ transactionLengthBound := by
  obtain ⟨_, hsource⟩ := rlpSingleRef_eq_ok.mp hroot
  have hle : root.source.length ≤ transactionLengthBound := by
    rw [hsource, txPayload]
    split
    · rw [subSlice, List.length_take, List.length_drop]
      omega
    · exact hlen
  have hcontent : (sourcesOf v.toList).length ≤ transactionLengthBound := by
    rw [← hv.bytes, length_rlpItemContent]
    exact root.content_le.trans hle
  refine ⟨hle, forall_all fun i hi => ?_, ?_⟩
  · have hmem : v[i] ∈ v.toList := by simp
    exact (length_source_le hmem).trans hcontent
  · refine le_trans ?_ hcontent
    rw [toList_signed, sourcesOf, sourcesOf, List.map_append, List.flatten_append,
      List.length_append]
    exact Nat.le_add_right _ _

theorem acceptTx_eq_ok {keccak256 : List Byte → Hash}
    {ecrecover : Hash → Fin 2 → Word → Word → AddressResult} {tx : TransactionInputSlice}
    {pubkey : Vector Byte 65} {blobLimit : Nat} {d : TransactionFields}
    {l : PreparedAuthorizationList} :
    acceptTx keccak256 ecrecover tx pubkey blobLimit = .ok (d, l) ↔
      rlpDecodeTx keccak256 tx pubkey blobLimit = .ok d ∧
        prepareAuthorizations keccak256 ecrecover d.authorizations = .ok l := by
  rw [acceptTx]
  constructor
  · intro h
    obtain ⟨d', hd, h₁⟩ := bind_eq_ok.mp h
    obtain ⟨l', hl, h₂⟩ := bind_eq_ok.mp h₁
    cases h₂
    exact ⟨hd, hl⟩
  · rintro ⟨hd, hl⟩
    rw [hd, ok_bind, hl, ok_bind]

/-- Tightness of an envelope that splits into fields. -/
theorem tightEnvelope_iff {b : List Byte} {t : TxType} {root : RlpFieldRef}
    {v : Vector RlpFieldRef (txArity t)} (hlen : root.source.length ≤ transactionLengthBound)
    (ht : txTypeByte b = txEnvelopeType t) (hroot : rlpSingleRef (txPayload b) = .ok root)
    (hkind : root.isList = true) (hv : Fields (rlpItemContent root) v.toList) :
    TightEnvelope b ↔ root = listField (rlpItemContent root) ∧ TightRefs (txRefs t v) := by
  rw [← tightTuple_iff (P := fun w => TightRefs (txRefs t w))
    (hlen.trans transactionLengthBound_le) hkind hv, TightEnvelope]
  constructor
  · intro h
    exact h t (txTypeOfByte_eq_ok.mpr ht) root hroot
  · intro h t' ht' root' hroot'
    obtain rfl := Except.ok.inj ((txTypeOfByte_eq_ok.mpr ht).symm.trans ht')
    obtain rfl := Except.ok.inj (hroot.symm.trans hroot')
    exact h

section Main

variable (keccak256 : List Byte → Hash)
  (ecrecover : Hash → Fin 2 → Word → Word → AddressResult)
  (tx : TransactionInputSlice) (pubkey : Vector Byte 65) (blobLimit : Nat)

/-- An accepted envelope has a valid content, and is its encoding exactly
when it is tight. -/
theorem accepted_content {d : TransactionFields} {l : PreparedAuthorizationList}
    (h : acceptTx keccak256 ecrecover tx pubkey blobLimit = .ok (d, l)) :
    ∃ e, envelopeOf d = .ok e ∧ e.Valid blobLimit ∧
      (e.encode = tx.bytes ↔ TightEnvelope tx.bytes) := by
  obtain ⟨hdecode, hprepare⟩ := acceptTx_eq_ok.mp h
  obtain ⟨hne, t, root, ht, hroot, hkind, v, hv, hd⟩ :=
    (rlpDecodeTx_eq_ok keccak256 tx pubkey blobLimit).mp hdecode
  obtain ⟨hlen, hf, _⟩ := bounded_refs tx.length_le hroot hv
  have hdecoded := decodeTxFieldRefs_decodedAs hd
  obtain ⟨es, hs, ts, hlists⟩ := hdecoded.lists hf hprepare
  have hitems : (contentOf d es hs ts).encode = tx.bytes ↔
      root = listField (rlpItemContent root) ∧ v.toList = (contentOf d es hs ts).items := by
    rw [encode_eq_iff (tx.length_le.trans transactionLengthBound_le) hne ht hroot
      hdecoded.txType]
    exact listOf_iff (hlen.trans transactionLengthBound_le) hv (canonical_items _)
  have hstrict := hdecoded.strict hf es hs ts
  have hlenient : v.toList = (contentOf d es hs ts).items ↔ TightRefs (txRefs t v) := by
    rw [hdecoded.tight_iff hf hlists]
    constructor
    · intro h
      exact (refs_of_items hdecoded.txType h).2
    · exact items_of_refs hdecoded.txType hstrict
  refine ⟨_, envelopeOf_eq_ok.mpr ⟨es, hs, ts, hlists.entries, readSpan_hashes hlists.hashes,
    hlists.tuples, rfl⟩, hdecoded.valid hlists hf, ?_⟩
  rw [hitems, hlenient, tightEnvelope_iff hlen ht hroot hkind hv]

/-- The encoding of a valid content is accepted, and tight. -/
theorem encode_accepted {e : Envelope} (hvalid : e.Valid blobLimit) (henc : e.encode = tx.bytes) :
    (∃ d l, acceptTx keccak256 ecrecover tx pubkey blobLimit = .ok (d, l)) ∧
      TightEnvelope tx.bytes := by
  obtain ⟨htype, hitems, hvalid'⟩ := withGasPrice_spec e
  have hbound : (rlpList (sourcesOf e.items)).length ≤ transactionLengthBound := by
    have hle := congrArg List.length henc
    rw [Envelope.encode, List.length_append] at hle
    have := tx.length_le
    omega
  have hcontent := (length_sourcesOf_le e.items).trans (hbound.trans transactionLengthBound_le)
  obtain ⟨ht, hpayload⟩ := split_encode (t := e.txType) hcontent
  rw [← Envelope.encode, henc] at ht hpayload
  have hne : tx.bytes ≠ [] := by
    rw [← henc, Envelope.encode]
    intro hnil
    exact rlpList_ne_nil _ (List.append_eq_nil_iff.mp hnil).2
  have hroot : rlpSingleRef (txPayload tx.bytes) = .ok (listOf e.items) := by
    refine rlpSingleRef_eq_ok.mpr ⟨?_, hpayload.symm⟩
    exact (canonical_listOf _).announced (hbound.trans transactionLengthBound_le)
  have hlength : e.items.length = txArity e.txType := by
    rw [Envelope.items]
    cases e.txType <;> rfl
  have hfields := fields_listOf (canonical_items e) hcontent
  rw [← rlpItemContent_listOf] at hfields
  have hv : Fields (rlpItemContent (listOf e.items))
      (⟨e.items.toArray, by simpa using hlength⟩ : Vector RlpFieldRef (txArity e.txType)).toList :=
    hfields
  obtain ⟨hrootlen, hf, hsigned⟩ := bounded_refs tx.length_le hroot hv
  obtain ⟨hstrict, hlenient⟩ := refs_of_items (e := e) rfl (v := ⟨e.items.toArray, _⟩) rfl
  obtain ⟨_, hblob, hauth⟩ := txRefs_options
    (⟨e.items.toArray, by simpa using hlength⟩ : Vector RlpFieldRef (txArity e.txType))
  obtain ⟨d, l, hd, hl⟩ := decode_of_canonical keccak256 ecrecover tx pubkey
    (wordToAddress (hashToWord (keccak256 (subSlice pubkey.toList 1 64)))) hf hsigned htype
    (hvalid' _ hvalid) hblob hauth hstrict hlenient.withGasPrice
  have haccept : acceptTx keccak256 ecrecover tx pubkey blobLimit = .ok (d, l) :=
    acceptTx_eq_ok.mpr ⟨(rlpDecodeTx_eq_ok keccak256 tx pubkey blobLimit).mpr
      ⟨hne, e.txType, _, ht, hroot, rfl, _, hv, hd⟩, hl⟩
  refine ⟨⟨d, l, haccept⟩, (tightEnvelope_iff hrootlen ht hroot rfl hv).mpr ⟨?_, hlenient.tight hf⟩⟩
  rw [rlpItemContent_listOf]
  rfl

/-- The decoded fields of an accepted envelope reproduce it exactly when it
is tight, and the canonical encodings are exactly the accepted tight
envelopes. -/
theorem rlpDecodeTx_canonical :
    (∀ d l, acceptTx keccak256 ecrecover tx pubkey blobLimit = .ok (d, l) →
      (reencodeTx d = .ok tx.bytes ↔ TightEnvelope tx.bytes)) ∧
    ((∃ e : Envelope, e.Valid blobLimit ∧ e.encode = tx.bytes) ↔
      (∃ d l, acceptTx keccak256 ecrecover tx pubkey blobLimit = .ok (d, l)) ∧
        TightEnvelope tx.bytes) := by
  constructor
  · intro d l h
    obtain ⟨e, he, _, htight⟩ := accepted_content keccak256 ecrecover tx pubkey blobLimit h
    rw [reencodeTx, he, ok_bind, ← htight]
    constructor
    · intro h
      exact Except.ok.inj h
    · intro h
      exact congrArg Except.ok h
  · constructor
    · rintro ⟨e, hvalid, henc⟩
      exact encode_accepted keccak256 ecrecover tx pubkey blobLimit hvalid henc
    · rintro ⟨⟨d, l, h⟩, htight⟩
      obtain ⟨e, _, hvalid, henc⟩ := accepted_content keccak256 ecrecover tx pubkey blobLimit h
      exact ⟨e, hvalid, henc.mpr htight⟩

end Main

/-! ## A loose envelope -/

/-- A legacy envelope of zeros whose recipient is the one-byte string
`0x05`. -/
def shortRecipientTx : TransactionInputSlice where
  bytes := [0xc9, 0x80, 0x80, 0x80, 0x05, 0x80, 0x80, 0x80, 0x80, 0x80]
  length_le := by decide

/-- Its fields. -/
def shortRecipientItems : Vector RlpFieldRef (txArity .legacyTx) :=
  #v[bytesField [], bytesField [], bytesField [], bytesField [0x05], bytesField [], bytesField [],
    bytesField [], bytesField [], bytesField []]

theorem fields_shortRecipientItems :
    rlpSingleRef (txPayload shortRecipientTx.bytes) =
        .ok (listOf shortRecipientItems.toList) ∧
      Fields (rlpItemContent (listOf shortRecipientItems.toList))
        shortRecipientItems.toList := by
  have hcanon : ∀ g ∈ shortRecipientItems.toList, g.Canonical := by
    intro g hg
    have hall : ∀ f ∈ [bytesField [], bytesField [], bytesField [], bytesField [0x05],
        bytesField [], bytesField [], bytesField [], bytesField [], bytesField []],
        ∃ b, f = bytesField b := by
      simp
    obtain ⟨b, rfl⟩ := hall g hg
    exact canonical_bytesField b
  have hpayload :
      txPayload shortRecipientTx.bytes = (listOf shortRecipientItems.toList).source := by
    decide
  have hlen : (listOf shortRecipientItems.toList).source.length ≤ scratchRegionBound := by
    rw [← hpayload]
    exact shortRecipientTx.length_le.trans transactionLengthBound_le
  constructor
  · rw [hpayload]
    exact rlpSingleRef_eq_ok.mpr ⟨(canonical_listOf _).announced hlen, rfl⟩
  · rw [rlpItemContent_listOf]
    exact fields_listOf hcanon ((length_sourcesOf_le _).trans hlen)

/-- The decoder and the preparation accept it. -/
theorem acceptTx_shortRecipientTx (keccak256 : List Byte → Hash)
    (ecrecover : Hash → Fin 2 → Word → Word → AddressResult) (pubkey : Vector Byte 65) :
    ∃ d l, acceptTx keccak256 ecrecover shortRecipientTx pubkey 0 = .ok (d, l) := by
  obtain ⟨hroot, hfields⟩ := fields_shortRecipientItems
  obtain ⟨_, hf, hsigned⟩ := bounded_refs (t := .legacyTx) shortRecipientTx.length_le hroot hfields
  have hu : rlpDecodeU256 (bytesField []) = .ok 0 :=
    (rlpDecodeU256_eq_ok (Nat.zero_le _)).mpr rfl
  have hgas : rlpDecodeUint64 (bytesField []) = .ok 0 :=
    (rlpDecodeUint64_eq_ok (Nat.zero_le _)).mpr ⟨by decide, rfl⟩
  have hv : rlpDecodeWord (bytesField []) = .ok 0 := rlpDecodeWord_bytesField (Nat.zero_le _)
  have hto : rlpDecodeWord (bytesField [0x05]) = .ok 5 := rlpDecodeWord_bytesField (by decide)
  obtain ⟨d, hd, hauth⟩ := decodeTxFieldRefs_of_decodedAs keccak256 shortRecipientTx pubkey
    0 (wordToAddress (hashToWord (keccak256 (subSlice pubkey.toList 1 64))))
    hsigned (hf _ (by simp [TxFieldRefs.all]))
    (d := ⟨.legacyTx, 0, [], 0, 0, 0, false, wordToAddress 5, 0, [], emptyAccessListRef, 0, 0, 0,
      emptyAuthorizationListRef, emptyBlobHashes, [], zeroHash, 0, 0, 0⟩)
    ⟨rfl, hv, rfl, rfl, rfl, hu, ⟨5, hto, rfl⟩, rfl, rfl, hgas, hu, rfl, hu, rfl, hu, hu, hu⟩
  refine ⟨d, ⟨[], 0⟩, acceptTx_eq_ok.mpr ⟨?_, ?_⟩⟩
  · exact (rlpDecodeTx_eq_ok keccak256 shortRecipientTx pubkey 0).mpr
      ⟨by decide, .legacyTx, _, by decide, hroot, rfl, _, hfields, hd⟩
  · rw [hauth]
    exact prepareAuthorizations_empty

/-- The decoded fields do not reproduce it. -/
theorem reencodeTx_shortRecipientTx :
    ∃ d l, acceptTx (fun _ => zeroHash) (fun _ _ _ _ => ⟨false, 0⟩) shortRecipientTx
        (Vector.replicate 65 0) 0 = .ok (d, l) ∧
      reencodeTx d ≠ .ok shortRecipientTx.bytes := by
  obtain ⟨d, l, h⟩ := acceptTx_shortRecipientTx (fun _ => zeroHash) (fun _ _ _ _ => ⟨false, 0⟩)
    (Vector.replicate 65 0)
  obtain ⟨e, he, _, htight⟩ := accepted_content _ _ _ _ _ h
  obtain ⟨hroot, hfields⟩ := fields_shortRecipientItems
  refine ⟨d, l, h, ?_⟩
  rw [reencodeTx, he, ok_bind]
  intro henc
  obtain ⟨_, hshort⟩ := htight.mp (Except.ok.inj henc) .legacyTx (by decide) _ hroot
  obtain ⟨_, hempty⟩ | ⟨_, haddress⟩ := (hshort shortRecipientItems hfields).recipient
  · exact absurd hempty (by decide)
  · exact absurd haddress (by decide)

end EvmSail
