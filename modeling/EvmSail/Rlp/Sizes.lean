/-
# `EvmSail.Rlp.Sizes` — every size is the size of what is written

Each encoder computes a size, reserves it, writes, and asserts that the
two agree.  The size functions and the writers are two traversals of the
same fields, related here through the canonical encoding: a writer emits
`rlpBytes` or `rlpList` of its value, and the size function returns the
length of that exactly when the scratch region can hold it, and refuses
what it cannot (`TwoPass.Sizes`).  So the assertion never fails, and the
header of every list is that of exactly its payload.

`rlpSizes_exact` collects this for all size functions and encoders of the
source.
-/
import EvmSail.Lib.TwoPass
import EvmSail.Executor.PayloadRootsSound
import EvmSail.Rlp.Codecs
import EvmSail.Tx.CanonicalSound

namespace EvmSail

open Fallible Kernel TwoPass

/-- How a first pass refuses. -/
def tooLarge : Halt := .fatal .rlpDecode

/-! ## Single strings -/

theorem length_rlpWriteStringPrefix_append {b : List Byte} {first : Byte}
    (hf : first = sliceByte b 0) :
    (rlpWriteStringPrefix b.length first ++ b).length = rlpStringSize b.length first := by
  rw [rlpWriteStringPrefix_append hf, length_rlpBytes, hf]

/-- The first byte only matters for a string of one byte. -/
theorem rlpWriteStringPrefix_of_ne_one {b : List Byte} (first : Byte) (h : b.length ≠ 1) :
    rlpWriteStringPrefix b.length first ++ b = rlpBytes b := by
  rw [← rlpWriteStringPrefix_append (b := b) rfl]
  simp only [rlpWriteStringPrefix, h, false_and, if_false]

theorem rlpWriteWord_eq (w : Word) : rlpWriteWord w = rlpBytes (bytesOfNat 32 w.toNat) := by
  have h := rlpWriteStringPrefix_of_ne_one (b := bytesOfNat 32 w.toNat) 0
    (by rw [length_bytesOfNat]; decide)
  rwa [length_bytesOfNat] at h

theorem length_rlpWriteWord (w : Word) : (rlpWriteWord w).length = rlpWordSize := by
  rw [rlpWriteWord, List.length_append, length_bytesOfNat]
  rfl

theorem rlpWriteAddr_eq (a : Address) : rlpWriteAddr a = rlpBytes (addressBytes a) := by
  have h := rlpWriteStringPrefix_append (b := addressBytes a) rfl
  rwa [length_addressBytes] at h

theorem length_rlpWriteLogsBloom (bloom : LogsBloom) :
    (rlpWriteLogsBloom bloom).length = 3 + 256 := by
  rw [rlpWriteLogsBloom, List.length_append, List.length_reverse, Vector.length_toList]
  rfl

theorem rlpWriteLogsBloom_eq (bloom : LogsBloom) :
    rlpWriteLogsBloom bloom = rlpBytes bloom.toList.reverse := by
  have hlen : bloom.toList.reverse.length = 256 := by
    rw [List.length_reverse, Vector.length_toList]
  have h := rlpWriteStringPrefix_of_ne_one (b := bloom.toList.reverse) 0 (by rw [hlen]; decide)
  rwa [hlen] at h

/-! ## Integers -/

theorem rlpMinimalUintLen_eq (n : Nat) : rlpMinimalUintLen n = byteLength n := by
  induction n using Nat.strongRecOn with
  | ind n ih =>
    rw [rlpMinimalUintLen]
    split
    · next hzero =>
      rw [hzero]
      rfl
    · next hne =>
      have hpos : 0 < n := Nat.pos_of_ne_zero hne
      rw [ih (n / 256) (Nat.div_lt_self hpos (by decide))]
      have hlen := byteLength_pos hpos
      have hle : ∀ k, byteLength (n / 256) ≤ k ↔ byteLength n ≤ k + 1 := fun k => by
        rw [byteLength_le_iff, byteLength_le_iff, Nat.div_lt_iff_lt_mul (by decide), Nat.pow_succ]
      have hup := (hle (byteLength n - 1)).mpr (by omega)
      have hdown := (hle (byteLength (n / 256))).mp (Nat.le_refl _)
      omega

/-- The size of an unbounded natural is that of its canonical encoding. -/
theorem rlpUintNatSize_eq (n : Nat) : rlpUintNatSize n = (rlpBytes (bigEndian n)).length := by
  rw [rlpUintNatSize]
  split
  · next hword => exact (length_rlpBytes_bigEndian hword).symm
  · next hlong =>
    have hlen : byteLength n ≠ 1 := fun h => by
      have hsmall := byteLength_le_iff.mp (Nat.le_of_eq h)
      exact hlong (hsmall.trans (by decide))
    simp only [rlpMinimalUintLen_eq, length_rlpBytes, rlpStringSize, rlpLengthPrefixLen,
      length_bigEndian, hlen, false_and, if_false]
    split
    · rfl
    · rfl

/-- The natural's writer writes what was sized, or refuses. -/
theorem rlpWriteUintNat_sized {n : Nat} {bs : List Byte} (h : rlpWriteUintNat n = .ok bs) :
    bs = rlpBytes (bigEndian n) := by
  rw [rlpWriteUintNat] at h
  split at h
  · rw [← Except.ok.inj h, rlpWriteUint_eq]
  · cases h

theorem byteLength_eq_succ {n k : Nat} (hlow : 256 ^ k ≤ n) (hhigh : n < 256 ^ (k + 1)) :
    byteLength n = k + 1 := by
  have hle := byteLength_le_iff.mpr hhigh
  have hlt : ¬ byteLength n ≤ k := fun h => Nat.not_le_of_lt (byteLength_le_iff.mp h) hlow
  omega

theorem msb_ofNat_eq_false_iff {n : Nat} (hn : n < 256) :
    (BitVec.ofNat 8 n).msb = false ↔ n < 2 ^ 7 := by
  rw [msb_eq_false_iff, BitVec.toNat_ofNat, Nat.mod_eq_of_lt hn]
  exact Iff.rfl

/-- A number below 128 is its own encoding, zero the empty string. -/
theorem rlpUintSize_of_lt {n : Nat} (hn : n < 2 ^ 7) : rlpUintSize n = 1 := by
  rcases Nat.eq_zero_or_pos n with rfl | hpos
  · rfl
  · have hlen : byteLength n = 1 := byteLength_eq_succ hpos (hn.trans (by decide))
    have hmsb := (msb_ofNat_eq_false_iff (hn.trans (by decide))).mpr hn
    simp only [rlpUintSize, hlen, if_true, hmsb, and_self]

/-- Any other has one byte in front. -/
theorem rlpUintSize_of_le {n k : Nat} (hseven : 2 ^ 7 ≤ n) (hlow : 256 ^ k ≤ n)
    (hhigh : n < 256 ^ (k + 1)) : rlpUintSize n = k + 2 := by
  have hlen := byteLength_eq_succ hlow hhigh
  have hnot : ¬ (byteLength n = 1 ∧
      (if byteLength n = 1 then BitVec.ofNat 8 n else 0).msb = false) := by
    rintro ⟨hone, hmsb⟩
    rw [if_pos hone, msb_ofNat_eq_false_iff (byteLength_le_iff.mp (Nat.le_of_eq hone))] at hmsb
    omega
  simp only [rlpUintSize]
  rw [if_neg hnot, hlen]
  omega

/-- The table of 64-bit sizes has a row for each power of 256. -/
theorem rlpUintU64Size_eq {n : Nat} (hn : n < 2 ^ 64) : rlpUintU64Size n = rlpUintSize n := by
  rw [rlpUintU64Size]
  split
  · next h => exact (rlpUintSize_of_lt h).symm
  next hseven =>
  have hlow : 2 ^ 7 ≤ n := Nat.le_of_not_lt hseven
  have hrow : ∀ k, 256 ^ k ≤ n → n < 256 ^ (k + 1) → k + 2 = rlpUintSize n :=
    fun k hk hk' => (rlpUintSize_of_le hlow hk hk').symm
  split
  · next h => exact hrow 0 (by omega) h
  split
  · next h₁ h₂ => exact hrow 1 (by omega) (by omega)
  split
  · exact hrow 2 (by omega) (by omega)
  split
  · exact hrow 3 (by omega) (by omega)
  split
  · exact hrow 4 (by omega) (by omega)
  split
  · exact hrow 5 (by omega) (by omega)
  split
  · exact hrow 6 (by omega) (by omega)
  · exact hrow 7 (by omega) (by omega)

/-! ## First passes -/

theorem sizes_lengthAdd {left right : Nat} {out : List Byte} (h : left + right = out.length) :
    Sizes tooLarge scratchRegionBound (rlpScratchLengthAdd left right) out := by
  rw [rlpScratchLengthAdd, h]
  split
  · next hfits => exact .ok hfits rfl
  · next hno => exact .refuse hno

theorem sizes_slice (data : List Byte) :
    Sizes tooLarge scratchRegionBound (rlpScratchSliceSize data) (rlpBytes data) := by
  rw [rlpScratchSliceSize, rlpMaterializedSliceSize]
  have hlen := length_rlpBytes data
  rw [rlpStringSize] at hlen
  split
  · next hself =>
    rw [if_pos hself] at hlen
    exact .ok (by rw [hlen, scratchRegionBound_eq]; decide) hlen.symm
  · next hself =>
    rw [if_neg hself] at hlen
    exact sizes_lengthAdd (by omega)

theorem sizes_list (payload : List Byte) :
    Sizes tooLarge scratchRegionBound (rlpScratchListSize payload.length) (rlpList payload) := by
  have hlen := length_rlpList payload
  rw [rlpListSize] at hlen
  exact sizes_lengthAdd (by omega)

/-- A list holds its payload. -/
theorem length_le_rlpList (payload : List Byte) : payload.length ≤ (rlpList payload).length := by
  rw [length_rlpList, rlpListSize]
  exact Nat.le_add_left _ _

/-- A list whose payload is sized first. -/
theorem sizes_listOf {size : Result Nat} {payload : List Byte}
    (h : Sizes tooLarge scratchRegionBound size payload) :
    Sizes tooLarge scratchRegionBound (size >>= rlpScratchListSize) (rlpList payload) :=
  h.bind (length_le_rlpList payload).trans fun _ => sizes_list payload

/-- A list of sized items: the sum of their sizes. -/
theorem sizes_sum (lengths : List Nat) {start : Nat} {out : List Byte}
    (hstart : start ≤ scratchRegionBound) (h : start + lengths.sum = out.length) :
    Sizes tooLarge scratchRegionBound (lengths.foldlM rlpScratchLengthAdd start) out := by
  have hstep : ∀ (done : List Byte) n, Sizes tooLarge scratchRegionBound
      (rlpScratchLengthAdd done.length n) (done ++ List.replicate n 0) := fun done n =>
    sizes_lengthAdd (by rw [List.length_append, List.length_replicate])
  have hsized := Sizes.foldlM hstep lengths (List.replicate start 0)
    (by rwa [List.length_replicate])
  have hitems : (lengths.flatMap fun n => List.replicate n (0 : Byte)).length = lengths.sum := by
    rw [List.length_flatMap]
    simp only [List.length_replicate, List.map_id']
  have htotal : (List.replicate start (0 : Byte) ++
      lengths.flatMap fun n => List.replicate n 0).length = out.length := by
    rw [List.length_append, List.length_replicate, hitems, h]
  rw [List.length_replicate] at hsized
  rw [Sizes, ← htotal]
  exact hsized

/-! ## Encoders with a pure first pass -/

/-- A list whose payload was sized is framed exactly. -/
theorem finish_list {n : Nat} {payload : List Byte} (h : n = payload.length) :
    rlpEncoderFinish (rlpListSize n) (rlpWriteListPrefix n ++ payload) = .ok (rlpList payload) := by
  rw [h, rlpWriteListPrefix_append]
  exact rlpEncoderFinish_ok (length_rlpList payload)

theorem length_rlpWriteNodeRef (r : NodeRef) : (rlpWriteNodeRef r).length = nodeRefSize r := by
  cases r with
  | emptyRef => rfl
  | inputInlineRef node => rfl
  | scratchInlineRef node => rfl
  | hashRef h => exact length_rlpWriteWord _

theorem length_rlpWriteHexPrefix (path : TriePath) (isLeaf : Bool) :
    (rlpWriteHexPrefix path isLeaf).length = rlpHexPrefixSize path isLeaf := by
  rw [rlpWriteHexPrefix_eq, rlpHexPrefixSize_eq]

section

variable (keccak256 : List Byte → Hash)

/-- The node of a leaf. -/
def leafNodeRlp (key : TriePath) (value : List Byte) : List Byte :=
  rlpList (rlpBytes (hexPrefix key.nibbles true) ++ rlpBytes value)

/-- A leaf is refused exactly when its node does not fit. -/
theorem sliceLeafChildRef_exact (key : TriePath) (value : List Byte) :
    Returns tooLarge ((leafNodeRlp key value).length ≤ scratchRegionBound)
      (sliceLeafChildRef keccak256 key value) (childRef keccak256 (leafNodeRlp key value)) := by
  have hpayload := length_le_rlpList (rlpWriteHexPrefix key true ++ rlpWriteSlice value)
  have hlen : rlpHexPrefixSize key true + (rlpBytes value).length =
      (rlpWriteHexPrefix key true ++ rlpWriteSlice value).length := by
    rw [List.length_append, length_rlpWriteHexPrefix, rlpWriteSlice_eq]
  have hnode : rlpList (rlpWriteHexPrefix key true ++ rlpWriteSlice value) =
      leafNodeRlp key value := by
    rw [leafNodeRlp, rlpWriteHexPrefix_eq, rlpWriteSlice_eq]
  rw [hnode] at hpayload
  rw [sliceLeafChildRef]
  refine (sizes_slice value).bind (fun hfits => ?_) fun _ => ?_
  · have hvalue := hlen.symm ▸ hpayload.trans hfits
    omega
  refine (sizes_lengthAdd hlen).bind hpayload.trans fun _ => ?_
  refine (sizes_list _).bind (by rw [hnode]; exact id) fun hfits => ?_
  rw [rlpWriteListPrefix_append, rlpEncoderFinish_ok rfl, ok_bind, hnode]
  exact .ok (hnode ▸ hfits) rfl

/-- The node of an extension over any reference. -/
def extensionNodeRlp (key : TriePath) (child : NodeRef) : List Byte :=
  rlpList (rlpBytes (hexPrefix key.nibbles false) ++ rlpWriteNodeRef child)

theorem extensionChildRef_exact (key : TriePath) (child : NodeRef) :
    extensionChildRef keccak256 key child =
      .ok (childRef keccak256 (extensionNodeRlp key child)) := by
  have hlen : rlpHexPrefixSize key false + nodeRefSize child =
      (rlpWriteHexPrefix key false ++ rlpWriteNodeRef child).length := by
    rw [List.length_append, length_rlpWriteHexPrefix, length_rlpWriteNodeRef]
  rw [extensionChildRef]
  simp only [hlen]
  rw [finish_list rfl, ok_bind, rlpWriteHexPrefix_eq, extensionNodeRlp]

/-- What a branch writes for one child. -/
def branchChildRlp (mask : BranchMask) (children : BranchRefs) (i : Nibble) : List Byte :=
  if branchMaskHas mask i then rlpWriteNodeRef (branchRefsGet children i) else [0x80]

/-- The node of a branch. -/
def branchNodeRlp (mask : BranchMask) (children : BranchRefs) : List Byte :=
  rlpList ((List.finRange 16).flatMap (branchChildRlp mask children) ++ [0x80])

theorem nodeRefSize_le (r : NodeRef) : nodeRefSize r ≤ 33 := by
  cases r with
  | emptyRef => exact Nat.le_add_left 1 32
  | inputInlineRef node => exact node.len_le.trans (by decide)
  | scratchInlineRef node => exact node.len_le.trans (by decide)
  | hashRef h => exact Nat.le_refl 33

theorem length_branchChildRlp_le (mask : BranchMask) (children : BranchRefs) (i : Nibble) :
    (branchChildRlp mask children i).length ≤ 33 := by
  rw [branchChildRlp]
  split
  · rw [length_rlpWriteNodeRef]
    exact nodeRefSize_le _
  · exact Nat.le_add_left 1 32

/-- Sixteen references and the empty value always fit: a branch is never
refused. -/
theorem branchChildRef_exact (mask : BranchMask) (children : BranchRefs) :
    branchChildRef keccak256 mask children =
      .ok (childRef keccak256 (branchNodeRlp mask children)) := by
  have hchild := length_branchChildRlp_le mask children
  have hsize : ∀ (i : Fin 16) (n : Nat), (if branchMaskHas mask i then
        branchContentLengthAdd n (nodeRefSize (branchRefsGet children i))
      else branchContentLengthAdd n 1) =
      branchContentLengthAdd n (branchChildRlp mask children i).length := by
    intro i n
    rw [branchChildRlp]
    split
    · rw [length_rlpWriteNodeRef]
    · rfl
  have hlen : 1 + ((List.finRange 16).map fun i => (branchChildRlp mask children i).length).sum =
      ((List.finRange 16).flatMap (branchChildRlp mask children) ++ [0x80]).length := by
    rw [List.length_append, length_flatMap_eq_sum, List.length_singleton, Nat.add_comm]
  have hle := length_branchPayload_le (branchChildRlp mask children) hchild
  have hbound := scratchRegionBound_ge
  have hwrite : ((List.finRange 16).flatMap fun i =>
      if branchMaskHas mask i then rlpWriteNodeRef (branchRefsGet children i) else [0x80]) =
      (List.finRange 16).flatMap (branchChildRlp mask children) := rfl
  rw [branchChildRef]
  simp only [hsize, hwrite]
  rw [foreach_branchContentLength _ hchild, ok_bind, hlen, rlpScratchLengthAdd_ok (by omega),
    ok_bind, Nat.add_zero, rlpScratchListSize_ok (rlpList_ok (by omega)), ok_bind,
    rlpWriteListPrefix_append, rlpEncoderFinish_ok rfl, ok_bind, branchNodeRlp]

/-! ## Signing preimages, accounts, withdrawals -/

/-- What an EIP-155 signature adds to the signed fields. -/
def legacySignatureSuffix (t : TxType) (v : Word) : List Byte :=
  if txEnvelopeType t == 0x00 && decide (35 ≤ v) then
    rlpBytes (bigEndian (legacySigChainId v).toNat) ++ [0x80, 0x80]
  else []

/-- The bytes that are hashed and signed. -/
def txSigningPreimage (t : TxType) (contentSrc : List Byte) (v : Word) : List Byte :=
  (if txEnvelopeType t = 0x00 then [] else [txEnvelopeType t]) ++
    rlpList (contentSrc ++ legacySignatureSuffix t v)

theorem txSigningHash_exact (t : TxType) (contentSrc : List Byte) (v : Word) :
    Returns tooLarge (contentSrc.length ≤ transactionLengthBound)
      (txSigningHash keccak256 t contentSrc v)
      (keccak256 (txSigningPreimage t contentSrc v)) := by
  have hpreimage : ∀ suffix : List Byte, ((if txEnvelopeType t = 0x00 then [] else
      [txEnvelopeType t]) ++ rlpList (contentSrc ++ suffix)).length =
      (if txEnvelopeType t = 0x00 then 0 else 1) +
        rlpLengthPrefixLen (contentSrc ++ suffix).length + (contentSrc ++ suffix).length := by
    intro suffix
    rw [List.length_append, length_rlpList, rlpListSize, Nat.add_assoc]
    split
    · rfl
    · rfl
  have hchain := length_rlpBytes_bigEndian (legacySigChainId v).isLt
  rw [txSigningHash, txSigningPreimage, legacySignatureSuffix]
  generalize (txEnvelopeType t == 0x00 && decide (35 ≤ v)) = eip155
  by_cases hlen : contentSrc.length ≤ transactionLengthBound
  · simp only [if_pos hlen, rlpWriteUint_eq, List.append_assoc]
    cases eip155 with
    | true =>
      have hsuffix := hpreimage (rlpBytes (bigEndian (legacySigChainId v).toNat) ++ [0x80, 0x80])
      have hcontent : contentSrc.length + (rlpUintSize (legacySigChainId v).toNat + 2) =
          (contentSrc ++
            (rlpBytes (bigEndian (legacySigChainId v).toNat) ++ [0x80, 0x80])).length := by
        rw [List.length_append, List.length_append, hchain]
        rfl
      simp only [if_true, hcontent]
      rw [rlpWriteListPrefix_append, rlpEncoderFinish_ok hsuffix, ok_bind]
      exact .ok hlen rfl
    | false =>
      have hsuffix := hpreimage []
      rw [List.append_nil] at hsuffix
      simp only [Bool.false_eq_true, if_false, Nat.add_zero, List.append_nil]
      rw [rlpWriteListPrefix_append, rlpEncoderFinish_ok hsuffix, ok_bind]
      exact .ok hlen rfl
  · simp only [if_neg hlen]
    exact .refuse hlen

/-- The bytes that an authority signs. -/
def authSigningPreimage (chainId : Word) (addr : Address) (nonce : Nat) : List Byte :=
  [0x05] ++ rlpList (rlpBytes (bigEndian chainId.toNat) ++
    (rlpBytes (addressBytes addr) ++ rlpBytes (bigEndian nonce)))

theorem authSigningHash_exact (chainId : Word) (addr : Address) {nonce : Nat}
    (hnonce : nonce < 2 ^ 64) :
    authSigningHash keccak256 chainId addr nonce =
      .ok (keccak256 (authSigningPreimage chainId addr nonce)) := by
  have hpayload : rlpUintSize chainId.toNat + rlpAddrSize + rlpUintSize nonce =
      (rlpBytes (bigEndian chainId.toNat) ++
        (rlpBytes (addressBytes addr) ++ rlpBytes (bigEndian nonce))).length := by
    rw [List.length_append, List.length_append, length_rlpBytes_bigEndian chainId.isLt,
      ← rlpWriteAddr_eq, length_rlpWriteAddr,
      length_rlpBytes_bigEndian (hnonce.trans (by decide)), Nat.add_assoc]
  simp only [authSigningHash, hpayload, rlpWriteUint_eq, rlpWriteAddr_eq, List.append_assoc]
  rw [rlpWriteListPrefix_append, rlpEncoderFinish_ok, ok_bind, authSigningPreimage]
  rw [List.length_append, length_rlpList]
  rfl

/-- An account leaf. -/
def stateAccountRlp (info : AccountInfo) (storageRoot : Hash) : List Byte :=
  rlpList (rlpBytes (bigEndian info.nonce) ++ (rlpBytes (bigEndian info.balance.toNat) ++
    (rlpBytes storageRoot.toList ++ rlpBytes info.codeHash.toList)))

theorem encodeStateAccount_exact {info : AccountInfo} (hnonce : info.nonce < 2 ^ 64)
    (storageRoot : Hash) :
    encodeStateAccount info storageRoot = .ok (stateAccountRlp info storageRoot) := by
  have hpayload : rlpUintSize info.nonce + rlpUintSize info.balance.toNat + rlpWordSize +
      rlpWordSize = (rlpBytes (bigEndian info.nonce) ++ (rlpBytes (bigEndian info.balance.toNat) ++
        (rlpBytes storageRoot.toList ++ rlpBytes info.codeHash.toList))).length := by
    simp only [List.length_append, length_rlpBytes_hash,
      length_rlpBytes_bigEndian (hnonce.trans (by decide)),
      length_rlpBytes_bigEndian info.balance.isLt, Nat.add_assoc]
    rfl
  simp only [encodeStateAccount, rlpWriteUint_eq, rlpWriteWord_hashToWord]
  rw [finish_list hpayload, stateAccountRlp]

theorem encodeStorageValue_exact (value : Word) :
    encodeStorageValue value = .ok (rlpBytes (bigEndian value.toNat)) := by
  rw [encodeStorageValue, rlpWriteUint_eq, rlpEncoderFinish_ok]
  exact length_rlpBytes_bigEndian value.isLt

/-- What is hashed for a `CREATE` address. -/
def createAddressRlp (sender : Address) (nonce : Nat) : List Byte :=
  rlpList (rlpBytes (addressBytes sender) ++ rlpBytes (bigEndian nonce))

theorem createAddress_exact (sender : Address) {nonce : Nat} (hnonce : nonce < 2 ^ 64) :
    createAddress keccak256 sender nonce =
      .ok (wordToAddress (hashToWord (keccak256 (createAddressRlp sender nonce)))) := by
  have hpayload : rlpAddrSize + rlpUintSize nonce =
      (rlpBytes (addressBytes sender) ++ rlpBytes (bigEndian nonce)).length := by
    rw [List.length_append, ← rlpWriteAddr_eq, length_rlpWriteAddr,
      length_rlpBytes_bigEndian (hnonce.trans (by decide))]
  simp only [createAddress, rlpWriteUint_eq, rlpWriteAddr_eq]
  rw [finish_list hpayload, ok_bind, createAddressRlp]

end

/-! ## Receipts -/

def topicsRlp (topics : List Word) : List Byte :=
  rlpList (topics.flatMap fun topic => rlpBytes (bytesOfNat 32 topic.toNat))

def logEntryPayload (log : LogRecord) : List Byte :=
  rlpBytes (addressBytes log.address) ++ (topicsRlp log.topics ++ rlpBytes log.data)

def logEntryRlp (log : LogRecord) : List Byte := rlpList (logEntryPayload log)

def logsRlp (logs : List LogRecord) : List Byte := rlpList (logs.flatMap logEntryRlp)

theorem sizes_topicsContent (topics : List Word) :
    Sizes tooLarge scratchRegionBound (topicsRlpContentSize topics)
      (topics.flatMap fun topic => rlpBytes (bytesOfNat 32 topic.toNat)) := by
  have hstep : ∀ (done : List Byte) (topic : Word), Sizes tooLarge scratchRegionBound
      (rlpScratchLengthAdd done.length rlpWordSize)
        (done ++ rlpBytes (bytesOfNat 32 topic.toNat)) := fun done topic => by
    refine sizes_lengthAdd ?_
    rw [List.length_append, ← rlpWriteWord_eq, length_rlpWriteWord]
  exact Sizes.foldlM hstep topics [] (Nat.zero_le _)

theorem writes_topics (topics : List Word) :
    Writes tooLarge scratchRegionBound (topicsRlpSize topics) (rlpWriteTopics topics)
      (topicsRlp topics) where
  sizes := sizes_listOf (sizes_topicsContent topics)
  write_eq hfits := by
    have hcontent := (sizes_topicsContent topics).1 ((length_le_rlpList _).trans hfits)
    have hwrite : topics.flatMap rlpWriteWord =
        topics.flatMap fun topic => rlpBytes (bytesOfNat 32 topic.toNat) :=
      List.flatMap_congr fun topic _ => rlpWriteWord_eq topic
    rw [rlpWriteTopics, hcontent, ok_bind, hwrite, rlpWriteListPrefix_append, topicsRlp]

theorem length_logEntryPayload (log : LogRecord) :
    (logEntryPayload log).length =
      rlpAddrSize + (topicsRlp log.topics).length + (rlpBytes log.data).length := by
  rw [logEntryPayload, List.length_append, List.length_append, ← rlpWriteAddr_eq,
    length_rlpWriteAddr, Nat.add_assoc]

theorem sizes_logEntryContent (log : LogRecord) :
    Sizes tooLarge scratchRegionBound (logEntryRlpContentSize log) (logEntryPayload log) := by
  have hlen := length_logEntryPayload log
  have htopics : rlpAddrSize + (topicsRlp log.topics).length =
      (rlpBytes (addressBytes log.address) ++ topicsRlp log.topics).length := by
    rw [List.length_append, ← rlpWriteAddr_eq, length_rlpWriteAddr]
  rw [logEntryRlpContentSize]
  refine (writes_topics log.topics).sizes.bind (fun hfits => by omega) fun _ => ?_
  refine (sizes_slice log.data).bind (fun hfits => by omega) fun _ => ?_
  refine (sizes_lengthAdd htopics).bind (fun hfits => by omega) fun _ => ?_
  exact sizes_lengthAdd (by omega)

theorem writes_logEntry (log : LogRecord) :
    Writes tooLarge scratchRegionBound (logEntryRlpSize log) (rlpWriteLogEntry log)
      (logEntryRlp log) where
  sizes := sizes_listOf (sizes_logEntryContent log)
  write_eq hfits := by
    have hpayload := (length_le_rlpList (logEntryPayload log)).trans hfits
    have hcontent := (sizes_logEntryContent log).1 hpayload
    have hlen := length_logEntryPayload log
    rw [rlpWriteLogEntry, hcontent, ok_bind, (writes_topics log.topics).write_eq (by omega),
      ok_bind, rlpWriteAddr_eq, rlpWriteSlice_eq]
    rfl

theorem sizes_logsContent (logs : List LogRecord) :
    Sizes tooLarge scratchRegionBound (logsRlpContentSize logs) (logs.flatMap logEntryRlp) := by
  have hstep : ∀ (done : List Byte) (log : LogRecord), Sizes tooLarge scratchRegionBound
      (logEntryRlpSize log >>= fun entry => rlpScratchLengthAdd done.length entry)
        (done ++ logEntryRlp log) := fun done log => by
    have happend : (done ++ logEntryRlp log).length = done.length + (logEntryRlp log).length :=
      List.length_append
    exact (writes_logEntry log).sizes.bind (fun hfits => by omega) fun _ =>
      sizes_lengthAdd happend.symm
  exact Sizes.foldlM hstep logs [] (Nat.zero_le _)

theorem writes_logs (logs : List LogRecord) :
    Writes tooLarge scratchRegionBound (logsRlpSize logs) (rlpWriteLogs logs) (logsRlp logs) where
  sizes := sizes_listOf (sizes_logsContent logs)
  write_eq hfits := by
    have hpayload := (length_le_rlpList (logs.flatMap logEntryRlp)).trans hfits
    have hcontent := (sizes_logsContent logs).1 hpayload
    have hentries : logs.mapM rlpWriteLogEntry = .ok (logs.map logEntryRlp) := by
      rw [mapM_eq_ok, List.forall₂_map_right_iff, List.forall₂_same]
      intro log hlog
      have hentry : (logEntryRlp log).length ≤ (logs.flatMap logEntryRlp).length := by
        rw [List.length_flatMap]
        exact List.le_sum_of_mem (List.mem_map_of_mem hlog)
      exact (writes_logEntry log).write_eq (hentry.trans hpayload)
    rw [rlpWriteLogs, hcontent, ok_bind, hentries, ok_bind, ← List.flatMap_def,
      rlpWriteListPrefix_append, logsRlp]

/-- A receipt's gas fits a word. -/
theorem sizes_receiptPayload (bloom : LogsBloom) (r : Receipt) {gas : Nat} (hgas : gas < 2 ^ 256) :
    Sizes tooLarge scratchRegionBound (receiptPayloadContentSize r gas)
      (rlpBytes (bigEndian (receiptStatus r)) ++ (rlpBytes (bigEndian gas) ++
        (rlpBytes bloom.toList.reverse ++ logsRlp r.logs))) := by
  have hword : (BitVec.ofNat 256 gas).toNat = gas := by
    rw [BitVec.toNat_ofNat, Nat.mod_eq_of_lt hgas]
  have hstatus : receiptStatus r < 2 ^ 256 := by
    rw [receiptStatus]
    split
    · decide
    · decide
  have hbloom : 256 + rlpLengthPrefixLen 256 = (rlpBytes bloom.toList.reverse).length := by
    rw [← rlpWriteLogsBloom_eq, length_rlpWriteLogsBloom]
    rfl
  have hfixed : rlpUintSize (receiptStatus r) + rlpUintSize gas =
      (rlpBytes (bigEndian (receiptStatus r)) ++ rlpBytes (bigEndian gas)).length := by
    rw [List.length_append, length_rlpBytes_bigEndian hstatus, length_rlpBytes_bigEndian hgas]
  have hbloomed : (rlpBytes (bigEndian (receiptStatus r)) ++ rlpBytes (bigEndian gas)).length +
      (rlpBytes bloom.toList.reverse).length =
      ((rlpBytes (bigEndian (receiptStatus r)) ++ rlpBytes (bigEndian gas)) ++
        rlpBytes bloom.toList.reverse).length := List.length_append.symm
  rw [← List.append_assoc, ← List.append_assoc]
  have hall : (((rlpBytes (bigEndian (receiptStatus r)) ++ rlpBytes (bigEndian gas)) ++
      rlpBytes bloom.toList.reverse) ++ logsRlp r.logs).length =
      ((rlpBytes (bigEndian (receiptStatus r)) ++ rlpBytes (bigEndian gas)) ++
        rlpBytes bloom.toList.reverse).length + (logsRlp r.logs).length := List.length_append
  rw [receiptPayloadContentSize, wordOfNatByteCount, if_pos hgas, ok_bind, hword]
  refine (sizes_lengthAdd hbloom).bind (fun hfits => by omega) fun _ => ?_
  refine (writes_logs r.logs).sizes.bind (fun hfits => by omega) fun _ => ?_
  refine (sizes_lengthAdd hfixed).bind (fun hfits => by omega) fun _ => ?_
  refine (sizes_lengthAdd hbloomed).bind (fun hfits => by omega) fun _ => ?_
  exact sizes_lengthAdd hall.symm

section

variable (keccak256 : List Byte → Hash)

def receiptPayload (r : Receipt) (gas : Nat) : List Byte :=
  rlpBytes (bigEndian (receiptStatus r)) ++ (rlpBytes (bigEndian gas) ++
    (rlpBytes (logsBloomForLogs keccak256 r.logs).toList.reverse ++ logsRlp r.logs))

/-- An encoded receipt: its fields, behind the type of a typed transaction. -/
def receiptRlp (r : Receipt) (gas : Nat) : List Byte :=
  (if txEnvelopeType r.txType ≠ 0x00 then [txEnvelopeType r.txType] else []) ++
    rlpList (receiptPayload keccak256 r gas)

/-- A receipt holds its payload, and that its logs. -/
theorem length_receiptPayload_le (r : Receipt) (gas : Nat) :
    (logsRlp r.logs).length ≤ (receiptPayload keccak256 r gas).length ∧
      (receiptPayload keccak256 r gas).length ≤ (receiptRlp keccak256 r gas).length := by
  have hlist := length_le_rlpList (receiptPayload keccak256 r gas)
  rw [receiptRlp, List.length_append]
  refine ⟨?_, by omega⟩
  simp only [receiptPayload, List.length_append]
  omega

theorem writes_receipt (r : Receipt) {gas : Nat} (hgas : gas < 2 ^ 256) :
    Writes tooLarge scratchRegionBound (receiptEncodedLength r gas)
      (receiptWriteEncoded keccak256 r gas) (receiptRlp keccak256 r gas) where
  sizes := by
    have hpayload := sizes_receiptPayload (logsBloomForLogs keccak256 r.logs) r hgas
    have hinside := length_receiptPayload_le keccak256 r gas
    rw [receiptEncodedLength]
    refine hpayload.bind hinside.2.trans fun _ => ?_
    refine (sizes_list (receiptPayload keccak256 r gas)).bind ?_ fun hfits => ?_
    · rw [receiptRlp, List.length_append]
      exact (Nat.le_add_left _ _).trans
    · rw [receiptRlp]
      split
      · refine sizes_lengthAdd ?_
        rw [List.length_append, Nat.add_comm]
        rfl
      · exact .ok hfits rfl
  write_eq hfits := by
    obtain ⟨hlogs, hpayload⟩ := length_receiptPayload_le keccak256 r gas
    have hcontent := (sizes_receiptPayload (logsBloomForLogs keccak256 r.logs) r hgas).1
      (hpayload.trans hfits)
    have hwritten := (writes_logs r.logs).write_eq (hlogs.trans (hpayload.trans hfits))
    rw [receiptWriteEncoded, hcontent, ok_bind, hwritten, ok_bind, receiptWriteLogsBloom,
      rlpWriteLogsBloom_eq, rlpWriteUint_eq, rlpWriteUint_eq, rlpWriteListPrefix_append]
    rfl

theorem receiptEncoded_exact (r : Receipt) {gas : Nat} (hgas : gas < 2 ^ 256) :
    Returns tooLarge ((receiptRlp keccak256 r gas).length ≤ scratchRegionBound)
      (receiptEncoded keccak256 r gas) (receiptRlp keccak256 r gas) :=
  (writes_receipt keccak256 r hgas).finish fun _ => rlpEncoderFinish_ok rfl

/-- A record is a receipt with its length, which takes eight bytes.  A receipt
that fits without them fails the assertion of `scratchLengthAdd`, in front of
the encoder. -/
theorem receiptRecordAppend_exact (r : Receipt) {gas : Nat} (hgas : gas < 2 ^ 256) :
    receiptRecordAppend keccak256 r gas =
      if (receiptRlp keccak256 r gas).length ≤ scratchRegionBound then
        scratchLengthAdd 8 (receiptRlp keccak256 r gas).length >>= fun _ =>
          .ok (receiptRecord (receiptRlp keccak256 r gas))
      else .error tooLarge := by
  have hwrites := writes_receipt keccak256 r hgas
  rw [receiptRecordAppend]
  split
  · next hfits =>
    have hsmall : ¬ 2 ^ 64 - 1 < (receiptRlp keccak256 r gas).length := by
      rw [scratchRegionBound_eq] at hfits
      omega
    rw [hwrites.sizes.1 hfits, ok_bind, if_neg hsmall, hwrites.write_eq hfits]
    simp only [ok_bind, rlpEncoderFinish_ok]
    rfl
  · next hno => rw [hwrites.sizes.2 hno, error_bind]

end

/-! ## The block header -/

section

variable (fork : Fork) (header : BlockHeader) (roots : BodyRoots)

/-- The fields that forks added, as byte strings. -/
def blockHeaderForkFields : List (List Byte) :=
  (if .london ≤ fork then [bigEndian header.baseFee.toNat] else []) ++
  ((if .shanghai ≤ fork then [roots.withdrawalsRoot.toList] else []) ++
  ((if .cancun ≤ fork then
      [bigEndian header.blobGasUsed.val, bigEndian header.excessBlobGas.val,
        header.parentBeaconBlockRoot.toList]
    else []) ++
  ((if .prague ≤ fork then [roots.requestsHash.toList] else []) ++
  (if .amsterdam ≤ fork then
      [roots.blockAccessListHash.toList, bigEndian header.slotNumber.val]
    else []))))

/-- The fields of a header, as byte strings. -/
def blockHeaderFields : List (List Byte) :=
  [header.parentHash.toList, emptyOmmerHash.toList, addressBytes header.feeRecipient,
    header.stateRoot.toList, roots.transactionsRoot.toList, header.receiptsRoot.toList,
    header.logsBloom.bytes, bigEndian 0, bigEndian header.number.val,
    bigEndian header.gasLimit.val, bigEndian header.gasUsed.val, bigEndian header.timestamp.val,
    header.extraData, bytesOfNat 32 header.prevRandao.toNat, bytesOfNat 8 0] ++
  blockHeaderForkFields fork header roots

def blockHeaderRlp : List Byte := rlpList ((blockHeaderFields fork header roots).flatMap rlpBytes)

/-- The bloom is written as it stands in the input. -/
theorem toList_logsBloomFromRef (reference : LogsBloomRef) :
    (logsBloomFromRef reference).toList.reverse = reference.bytes := by
  have hlen : (logsBloomFromRef reference).toList.length = 256 := Vector.length_toList
  apply List.ext_getElem
  · rw [List.length_reverse, hlen, reference.length_eq]
  · intro i hi hi'
    have hindex : 255 - (256 - 1 - i) = i := by
      rw [reference.length_eq] at hi'
      omega
    simp only [List.getElem_reverse, Vector.getElem_toList, logsBloomFromRef, Vector.getElem_ofFn,
      Vector.length_toList, hindex, sliceByte]
    exact List.getD_eq_getElem _ _ hi'

theorem blockHeaderWriteFork_eq :
    blockHeaderWriteFork fork header roots =
      (blockHeaderForkFields fork header roots).flatMap rlpBytes := by
  have hif : ∀ (c : Prop) [Decidable c] (fields : List (List Byte)),
      (if c then fields else []).flatMap rlpBytes =
        if c then fields.flatMap rlpBytes else [] := by
    intro c _ fields
    split
    · rfl
    · rfl
  simp only [blockHeaderWriteFork, blockHeaderForkFields, List.flatMap_append, hif,
    rlpWriteUint_eq, rlpWriteWord_hashToWord, List.flatMap_cons, List.flatMap_nil, List.append_nil]

theorem blockHeaderWrite_eq :
    blockHeaderWrite fork header roots =
      (blockHeaderFields fork header roots).flatMap rlpBytes := by
  have hnonce := rlpWriteStringPrefix_of_ne_one (b := bytesOfNat 8 0) 0
    (by rw [length_bytesOfNat]; decide)
  rw [length_bytesOfNat] at hnonce
  simp only [blockHeaderWrite, blockHeaderFields, blockHeaderWriteFork_eq, List.flatMap_append,
    List.flatMap_cons, List.flatMap_nil, List.append_nil, rlpWriteWord_hashToWord,
    rlpWriteAddr_eq, rlpWriteLogsBloom_eq, toList_logsBloomFromRef, rlpWriteUint_eq,
    rlpWriteSlice_eq, rlpWriteWord_eq header.prevRandao, hnonce, List.append_assoc]

theorem sum_blockHeaderForkLengths :
    (blockHeaderForkLengths fork header).sum =
      ((blockHeaderForkFields fork header roots).flatMap rlpBytes).length := by
  have hsum : ∀ (c : Prop) [Decidable c] (lengths : List Nat),
      (if c then lengths else []).sum = if c then lengths.sum else 0 := by
    intro c _ lengths
    split
    · rfl
    · rfl
  have hfields : ∀ (c : Prop) [Decidable c] (fields : List (List Byte)),
      ((if c then fields else []).flatMap rlpBytes).length =
        if c then (fields.flatMap rlpBytes).length else 0 := by
    intro c _ fields
    split
    · rfl
    · rfl
  have hquantity : ∀ n : Fin (2 ^ 64), (rlpBytes (bigEndian n.val)).length = rlpUintSize n.val :=
    fun n => length_rlpBytes_bigEndian (n.isLt.trans (by decide))
  simp only [blockHeaderForkLengths, blockHeaderForkFields, List.sum_append, List.flatMap_append,
    List.length_append, hsum, hfields, List.sum_cons, List.sum_nil, List.flatMap_cons,
    List.flatMap_nil, List.length_nil, hquantity, length_rlpBytes_hash, Nat.add_zero,
    length_rlpBytes_bigEndian header.baseFee.isLt]
  rfl

theorem sizes_blockHeader :
    Sizes tooLarge scratchRegionBound (blockHeaderContentLength fork header)
      ((blockHeaderFields fork header roots).flatMap rlpBytes) := by
  have hquantity : ∀ n : Fin (2 ^ 64), (rlpBytes (bigEndian n.val)).length = rlpUintSize n.val :=
    fun n => length_rlpBytes_bigEndian (n.isLt.trans (by decide))
  have hfork := sum_blockHeaderForkLengths fork header roots
  have hbloom := length_rlpWriteLogsBloom (logsBloomFromRef header.logsBloom)
  rw [rlpWriteLogsBloom_eq, toList_logsBloomFromRef] at hbloom
  have hrecipient : (rlpBytes (addressBytes header.feeRecipient)).length = rlpAddrSize := by
    rw [← rlpWriteAddr_eq, length_rlpWriteAddr]
  have hrandao : (rlpBytes (bytesOfNat 32 header.prevRandao.toNat)).length = rlpWordSize := by
    rw [← rlpWriteWord_eq, length_rlpWriteWord]
  have hzero : (rlpBytes (bigEndian 0)).length = rlpUintSize 0 := rfl
  have hnonce : (rlpBytes (bytesOfNat 8 0)).length = 1 + 8 := rfl
  have hlen : ((blockHeaderFields fork header roots).flatMap rlpBytes).length =
      6 * rlpWordSize + ([rlpAddrSize, 3 + 256, rlpUintSize 0, rlpUintSize header.number.val,
        rlpUintSize header.gasLimit.val, rlpUintSize header.gasUsed.val,
        rlpUintSize header.timestamp.val, (rlpBytes header.extraData).length, 1 + 8] ++
          blockHeaderForkLengths fork header).sum := by
    simp only [blockHeaderFields, List.flatMap_append, List.length_append, List.flatMap_cons,
      List.flatMap_nil, List.append_nil, List.sum_append, List.sum_cons, List.sum_nil, hfork,
      length_rlpBytes_hash, hquantity, hbloom, hrecipient, hrandao, hzero, hnonce, rlpWordSize]
    omega
  rw [blockHeaderContentLength]
  refine (sizes_slice header.extraData).bind (fun hfits => ?_) fun _ => sizes_sum _ ?_ hlen.symm
  · simp only [hlen, List.sum_append, List.sum_cons] at hfits
    omega
  · rw [scratchRegionBound_eq, rlpWordSize]
    decide

/-- The list header announces the fields that follow it, up to 749 bytes. -/
theorem blockHeaderHash_exact (keccak256 : List Byte → Hash) :
    Returns tooLarge (((blockHeaderFields fork header roots).flatMap rlpBytes).length ≤ 749)
      (blockHeaderHash fork header roots keccak256)
      (keccak256 (blockHeaderRlp fork header roots)) := by
  rw [blockHeaderHash]
  refine (sizes_blockHeader fork header roots).bind (fun hfits => ?_) fun _ => ?_
  · rw [scratchRegionBound_eq]
    omega
  split
  · next hlarge => exact .refuse (Nat.not_le.mpr hlarge)
  · next hsmall =>
    rw [Nat.mod_eq_of_lt (by omega), blockHeaderWrite_eq]
    simp only [finish_list, ok_bind]
    exact .ok (Nat.le_of_not_lt hsmall) rfl

end

/-! ## All of them -/

/-- The size functions, against what the writers emit. -/
structure SizeFunctionsExact : Prop where
  stringPrefix : ∀ (b : List Byte), rlpStringSize b.length (sliceByte b 0) =
    (rlpWriteStringPrefix b.length (sliceByte b 0) ++ b).length
  listPrefix : ∀ n, rlpLengthPrefixLen n = (rlpWriteListPrefix n).length
  list : ∀ payload : List Byte,
    rlpListSize payload.length = (rlpWriteListPrefix payload.length ++ payload).length
  scratchList : ∀ payload : List Byte, Sizes tooLarge scratchRegionBound
    (rlpScratchListSize payload.length) (rlpWriteListPrefix payload.length ++ payload)
  inputSlice : ∀ data, rlpInputSliceSize data = (rlpWriteSlice data).length
  scratchSlice : ∀ data, Sizes tooLarge scratchRegionBound (rlpScratchSliceSize data)
    (rlpWriteSlice data)
  uintWord : ∀ w : Word, rlpUintSize w.toNat = (rlpWriteUint w.toNat).length
  uintU64 : ∀ n : Fin (2 ^ 64), rlpUintU64Size n.val = (rlpWriteUint n.val).length
  uintNat : ∀ n bs, rlpWriteUintNat n = .ok bs → rlpUintNatSize n = bs.length
  word : ∀ w, rlpWordSize = (rlpWriteWord w).length
  addr : ∀ a, rlpAddrSize = (rlpWriteAddr a).length
  hexPrefix : ∀ path isLeaf,
    rlpHexPrefixSize path isLeaf = (rlpWriteHexPrefix path isLeaf).length
  nodeRef : ∀ r, nodeRefSize r = (rlpWriteNodeRef r).length
  topics : ∀ topics, Writes tooLarge scratchRegionBound (topicsRlpSize topics)
    (rlpWriteTopics topics) (topicsRlp topics)
  logEntry : ∀ log, Writes tooLarge scratchRegionBound (logEntryRlpSize log)
    (rlpWriteLogEntry log) (logEntryRlp log)
  logs : ∀ logs, Writes tooLarge scratchRegionBound (logsRlpSize logs) (rlpWriteLogs logs)
    (logsRlp logs)

theorem sizeFunctions_exact : SizeFunctionsExact where
  stringPrefix b := (length_rlpWriteStringPrefix_append rfl).symm
  listPrefix n := (length_rlpWriteListPrefix n).symm
  list payload := (length_rlpList payload).symm
  scratchList payload := sizes_list payload
  inputSlice data := by
    rw [rlpWriteSlice_eq, length_rlpBytes]
    rfl
  scratchSlice data := by
    rw [rlpWriteSlice_eq]
    exact sizes_slice data
  uintWord w := (length_rlpWriteUint w.isLt).symm
  uintU64 n := by
    rw [rlpUintU64Size_eq n.isLt, length_rlpWriteUint (n.isLt.trans (by decide))]
  uintNat n bs h := by
    rw [rlpWriteUintNat_sized h, rlpUintNatSize_eq]
  word w := (length_rlpWriteWord w).symm
  addr a := (length_rlpWriteAddr a).symm
  hexPrefix path isLeaf := (length_rlpWriteHexPrefix path isLeaf).symm
  nodeRef r := (length_rlpWriteNodeRef r).symm
  topics := writes_topics
  logEntry := writes_logEntry
  logs := writes_logs

/-- The encoders: each returns the canonical bytes (or the reference, hash or
address made from them) exactly when they fit, and is refused by its first
pass when they do not. -/
structure EncodersExact (keccak256 : List Byte → Hash) : Prop where
  inputLeaf : ∀ key value, Returns tooLarge
    ((leafNodeRlp key value).length ≤ scratchRegionBound) (inputLeafChildRef keccak256 key value)
    (childRef keccak256 (leafNodeRlp key value))
  scratchLeaf : ∀ key value, Returns tooLarge
    ((leafNodeRlp key value).length ≤ scratchRegionBound) (scratchLeafChildRef keccak256 key value)
    (childRef keccak256 (leafNodeRlp key value))
  extension : ∀ key child, extensionChildRef keccak256 key child =
    .ok (childRef keccak256 (extensionNodeRlp key child))
  branch : ∀ mask children, branchChildRef keccak256 mask children =
    .ok (childRef keccak256 (branchNodeRlp mask children))
  signing : ∀ t contentSrc v, Returns tooLarge (contentSrc.length ≤ transactionLengthBound)
    (txSigningHash keccak256 t contentSrc v) (keccak256 (txSigningPreimage t contentSrc v))
  authorization : ∀ chainId addr nonce, nonce < 2 ^ 64 →
    authSigningHash keccak256 chainId addr nonce =
      .ok (keccak256 (authSigningPreimage chainId addr nonce))
  account : ∀ info storageRoot, info.nonce < 2 ^ 64 →
    encodeStateAccount info storageRoot = .ok (stateAccountRlp info storageRoot)
  storageValue : ∀ value, encodeStorageValue value = .ok (rlpBytes (bigEndian value.toNat))
  create : ∀ sender nonce, nonce < 2 ^ 64 → createAddress keccak256 sender nonce =
    .ok (wordToAddress (hashToWord (keccak256 (createAddressRlp sender nonce))))
  withdrawal : ∀ wd, wd.length = wdSize → withdrawalRlp wd = .ok (withdrawalValue wd)
  receipt : ∀ r gas, gas < 2 ^ 256 →
    Writes tooLarge scratchRegionBound (receiptEncodedLength r gas)
      (receiptWriteEncoded keccak256 r gas) (receiptRlp keccak256 r gas) ∧
    Returns tooLarge ((receiptRlp keccak256 r gas).length ≤ scratchRegionBound)
      (receiptEncoded keccak256 r gas) (receiptRlp keccak256 r gas) ∧
    receiptRecordAppend keccak256 r gas =
      if (receiptRlp keccak256 r gas).length ≤ scratchRegionBound then
        scratchLengthAdd 8 (receiptRlp keccak256 r gas).length >>= fun _ =>
          .ok (receiptRecord (receiptRlp keccak256 r gas))
      else .error tooLarge
  header : ∀ fork header roots, Returns tooLarge
    (((blockHeaderFields fork header roots).flatMap rlpBytes).length ≤ 749)
    (blockHeaderHash fork header roots keccak256) (keccak256 (blockHeaderRlp fork header roots))

theorem encoders_exact (keccak256 : List Byte → Hash) : EncodersExact keccak256 where
  inputLeaf := sliceLeafChildRef_exact keccak256
  scratchLeaf := sliceLeafChildRef_exact keccak256
  extension := extensionChildRef_exact keccak256
  branch := branchChildRef_exact keccak256
  signing := txSigningHash_exact keccak256
  authorization chainId addr _ hnonce := authSigningHash_exact keccak256 chainId addr hnonce
  account _ storageRoot hnonce := encodeStateAccount_exact hnonce storageRoot
  storageValue := encodeStorageValue_exact
  create sender _ hnonce := createAddress_exact keccak256 sender hnonce
  withdrawal _ hlen := withdrawalRlp_eq hlen
  receipt r _ hgas := ⟨writes_receipt keccak256 r hgas, receiptEncoded_exact keccak256 r hgas,
    receiptRecordAppend_exact keccak256 r hgas⟩
  header fork header roots := blockHeaderHash_exact fork header roots keccak256

/-- Every size is that of what is written, and no encoder fails the assertion
that compares the two. -/
theorem rlpSizes_exact (keccak256 : List Byte → Hash) :
    SizeFunctionsExact ∧ EncodersExact keccak256 ∧ tooLarge ≠ .assertFailed :=
  ⟨sizeFunctions_exact, encoders_exact keccak256, fun h => by cases h⟩

end EvmSail
