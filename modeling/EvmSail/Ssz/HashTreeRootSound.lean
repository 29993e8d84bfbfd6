/-
# `EvmSail.Ssz.HashTreeRootSound` — the streamed roots are the Merkle roots

The specification packs a value into chunks, pads the chunks with zero
chunks to the capacity of its type, takes the root of the complete binary
tree over them, and mixes the length of a list in.  `htrSubtree` computes
the same root of the leaves it reads (`htrSubtree_eq`): the zero roots
stand for the subtrees of padding, and the two halves of a tree are the two
halves of the padded list.  Everything else follows from that and from the
chunks that the leaf functions read.

The one assumption is that the constants of `sszZeroHash` are the iterated
hashes of the zero chunk.
-/
import EvmSail.Lib.MerkleFrontier
import EvmSail.Ssz.HashTreeRoot

namespace EvmSail

open Fallible

/-! ## The specification -/

/-- A chunk: up to 32 bytes, padded with zeros. -/
def chunkOf (bytes : List Byte) : Hash := Vector.ofFn fun i => sliceByte bytes i.val

/-- The chunks of a byte string. -/
def pack (bytes : List Byte) : List Hash :=
  (List.range ((bytes.length + 31) / 32)).map fun i => chunkOf (bytes.drop (i * 32))

/-- The little-endian `uint256` chunk of a length. -/
def lengthChunk (len : Nat) : Hash := Vector.ofFn fun i => BitVec.ofNat 8 (len / 256 ^ i.val)

/-- The items of a list of items of one width. -/
def fixedItems (bytes : List Byte) (count itemSize : Nat) : List (List Byte) :=
  (List.range count).map fun i => subSlice bytes (i * itemSize) itemSize

section

variable (sha256Pair : Hash → Hash → Hash)

/-- `merkleize(chunks, limit)`: the root of the complete tree that the limit
asks for, over the chunks padded with zero chunks. -/
def merkleRoot (limit : Nat) (chunks : List Hash) : Hash :=
  Merkle.root sha256Pair (Nat.clog 2 limit) (Merkle.padded zeroHash chunks)

/-- The root of a list: the root of its elements' roots, with its length. -/
def listRoot (limit : Nat) (roots : List Hash) : Hash :=
  sha256Pair (merkleRoot sha256Pair limit roots) (lengthChunk roots.length)

def containerRoot (fields : List Hash) : Hash := merkleRoot sha256Pair fields.length fields

def byteVectorRoot (bytes : List Byte) : Hash :=
  merkleRoot sha256Pair (pack bytes).length (pack bytes)

def byteListRoot (limit : Nat) (bytes : List Byte) : Hash :=
  sha256Pair (merkleRoot sha256Pair ((limit + 31) / 32) (pack bytes)) (lengthChunk bytes.length)

/-- `Withdrawal(index, validator_index, address, amount)`. -/
def withdrawalRoot (withdrawal : List Byte) : Hash :=
  containerRoot sha256Pair
    [chunkOf (subSlice withdrawal 0 8), chunkOf (subSlice withdrawal 8 8),
      chunkOf (subSlice withdrawal 16 20), chunkOf (subSlice withdrawal 36 8)]

/-- The fields of a request, in their order. -/
def requestRoot : HtrRequestKind → List Byte → Hash
  | .htrDeposit, r =>
    containerRoot sha256Pair
      [byteVectorRoot sha256Pair (subSlice r 0 48), chunkOf (subSlice r 48 32),
        chunkOf (subSlice r 80 8), byteVectorRoot sha256Pair (subSlice r 88 96),
        chunkOf (subSlice r 184 8)]
  | .htrWithdrawalRequest, r =>
    containerRoot sha256Pair
      [chunkOf (subSlice r 0 20), byteVectorRoot sha256Pair (subSlice r 20 48),
        chunkOf (subSlice r 68 8)]
  | .htrConsolidationRequest, r =>
    containerRoot sha256Pair
      [chunkOf (subSlice r 0 20), byteVectorRoot sha256Pair (subSlice r 20 48),
        byteVectorRoot sha256Pair (subSlice r 68 48)]
  | .htrBuilderDepositRequest, r =>
    containerRoot sha256Pair
      [byteVectorRoot sha256Pair (subSlice r 0 48), chunkOf (subSlice r 48 32),
        chunkOf (subSlice r 80 8), byteVectorRoot sha256Pair (subSlice r 88 96)]
  | .htrBuilderExitRequest, r =>
    containerRoot sha256Pair
      [chunkOf (subSlice r 0 20), byteVectorRoot sha256Pair (subSlice r 20 48)]

/-- The constants are the iterated hashes of the zero chunk. -/
def ZeroHashes : Prop :=
  ∀ level ≤ 25, sszZeroHash level = Merkle.zeroRoot sha256Pair zeroHash level

end

/-! ## Subtrees -/

theorem htrLeafCapacity_eq {depth : Nat} (h : depth ≤ 25) : htrLeafCapacity depth = 2 ^ depth := by
  interval_cases depth <;> rfl

/-- The streamed root of a subtree is that of the tree over the leaves it
reads, whatever the constants are. -/
theorem htrSubtree_partialRoot {sha256Pair : Hash → Hash → Hash} {leaf : Nat → Result Hash}
    {depth start count : Nat} (hdepth : depth ≤ 25) (hcount : count ≤ 2 ^ depth) :
    htrSubtree sha256Pair leaf depth start count =
      ((List.range' start count).mapM leaf >>= fun leaves =>
        .ok (Merkle.partialRoot sha256Pair sszZeroHash depth leaves)) := by
  induction depth generalizing start count with
  | zero =>
    rw [htrSubtree]
    rcases Nat.le_one_iff_eq_zero_or_eq_one.mp hcount with rfl | rfl
    · rfl
    · rw [if_neg Nat.one_ne_zero, if_pos rfl]
      cases hleaf : leaf start with
      | error e => simp [hleaf]
      | ok a => simp [hleaf, Merkle.partialRoot]
  | succ depth ih =>
    rw [htrSubtree, htrLeafCapacity_eq (by omega)]
    rw [Nat.pow_succ] at hcount
    split
    · rename_i hcountZero
      rw [hcountZero]
      rfl
    · rename_i hcountPos
      have hsplit : ∀ leaves : List Hash, leaves.length = count →
          Merkle.partialRoot sha256Pair sszZeroHash (depth + 1) leaves =
            sha256Pair (Merkle.partialRoot sha256Pair sszZeroHash depth (leaves.take (2 ^ depth)))
              (Merkle.partialRoot sha256Pair sszZeroHash depth (leaves.drop (2 ^ depth))) :=
        fun leaves hlen => Merkle.partialRoot_succ (List.ne_nil_of_length_pos (by omega))
      simp only
      split
      · -- the right half is empty
        rename_i hlt
        rw [ih (by omega) hlt.le, ih (by omega) (Nat.zero_le _)]
        cases hleaves : (List.range' start count).mapM leaf with
        | error e => rfl
        | ok leaves =>
          have hlen : leaves.length = count := by
            rw [← (mapM_eq_ok.mp hleaves).length_eq, List.length_range']
          have hroot := hsplit leaves hlen
          rw [List.take_of_length_le (by omega), List.drop_eq_nil_of_le (by omega)] at hroot
          exact congrArg Except.ok hroot.symm
      · -- the left half is full
        rename_i hge
        obtain ⟨rest, rfl⟩ := Nat.exists_eq_add_of_le (Nat.le_of_not_lt hge)
        rw [ih (by omega) (Nat.le_refl _), ih (by omega) (by omega), Nat.add_sub_cancel_left,
          ← List.range'_append_1, List.mapM_append]
        cases hleft : (List.range' start (2 ^ depth)).mapM leaf with
        | error e => rfl
        | ok left =>
          have hlen : left.length = 2 ^ depth := by
            rw [← (mapM_eq_ok.mp hleft).length_eq, List.length_range']
          cases hright : (List.range' (start + 2 ^ depth) rest).mapM leaf with
          | error e => rfl
          | ok right =>
            have hlen' : (left ++ right).length = 2 ^ depth + rest := by
              rw [List.length_append, hlen, ← (mapM_eq_ok.mp hright).length_eq, List.length_range']
            have hroot := hsplit (left ++ right) hlen'
            rw [← hlen, List.take_left, List.drop_left] at hroot
            exact congrArg Except.ok hroot.symm

section

variable {sha256Pair : Hash → Hash → Hash} (hzero : ZeroHashes sha256Pair)

include hzero

/-- The streamed root of a subtree is the root of the complete tree over the
leaves it reads. -/
theorem htrSubtree_eq {leaf : Nat → Result Hash} {depth start count : Nat}
    (hdepth : depth ≤ 25) (hcount : count ≤ 2 ^ depth) :
    htrSubtree sha256Pair leaf depth start count =
      ((List.range' start count).mapM leaf >>= fun leaves =>
        .ok (Merkle.root sha256Pair depth (Merkle.padded zeroHash leaves))) := by
  rw [htrSubtree_partialRoot hdepth hcount]
  cases hleaves : (List.range' start count).mapM leaf with
  | error e => rfl
  | ok leaves =>
    have hlen : leaves.length ≤ 2 ^ depth := by
      rw [← (mapM_eq_ok.mp hleaves).length_eq, List.length_range']
      exact hcount
    have hlevels : ∀ k ≤ depth, sszZeroHash k = Merkle.zeroRoot sha256Pair zeroHash k :=
      fun k hk => hzero k (by omega)
    rw [ok_bind, ok_bind, Merkle.partialRoot_padded hlevels hlen]

/-- Leaves that are all there. -/
theorem htrSubtree_map {leaf : Nat → Result Hash} {root : Nat → Hash} {depth count : Nat}
    (hdepth : depth ≤ 25) (hcount : count ≤ 2 ^ depth)
    (hleaf : ∀ i < count, leaf i = .ok (root i)) :
    htrSubtree sha256Pair leaf depth 0 count =
      .ok (Merkle.root sha256Pair depth
        (Merkle.padded zeroHash ((List.range count).map root))) := by
  have hleaves : (List.range' 0 count).mapM leaf = .ok ((List.range count).map root) := by
    rw [← List.range_eq_range', mapM_eq_ok, List.forall₂_map_right_iff, List.forall₂_same]
    intro i hi
    exact hleaf i (List.mem_range.mp hi)
  rw [htrSubtree_eq hzero hdepth hcount, hleaves, ok_bind]

/-- `merkleize` of a fixed vector. -/
theorem merkleize_eq {leaves : List Hash} {depth : Nat} (hdepth : depth ≤ 25)
    (hcount : leaves.length ≤ 2 ^ depth) :
    merkleize sha256Pair leaves depth =
      .ok (Merkle.root sha256Pair depth (Merkle.padded zeroHash leaves)) := by
  rw [merkleize, htrLeafCapacity_eq hdepth, if_pos hcount, merkleizeVectorSubtree]
  have hleaf : ∀ i < leaves.length, vectorLeaf leaves i = .ok (leaves.getD i zeroHash) := by
    intro i hi
    rw [vectorLeaf, List.getD_eq_getElem?_getD, List.getElem?_eq_getElem hi]
    rfl
  have hmap : (List.range leaves.length).map (fun i => leaves.getD i zeroHash) = leaves := by
    refine List.ext_getElem (by simp) ?_
    intro i h₁ h₂
    simp [List.getElem?_eq_getElem h₂]
  rw [htrSubtree_map hzero hdepth hcount hleaf, hmap]

/-- A container has the depth of its number of fields. -/
theorem merkleize_container {fields : List Hash} {depth : Nat}
    (hdepth : Nat.clog 2 fields.length = depth) (hle : depth ≤ 25) :
    merkleize sha256Pair fields depth = .ok (containerRoot sha256Pair fields) := by
  have hcount : fields.length ≤ 2 ^ depth := by
    rw [← hdepth]
    exact Nat.le_pow_clog Nat.one_lt_two _
  rw [merkleize_eq hzero hle hcount, containerRoot, merkleRoot, hdepth]

end

/-! ## Depths -/

/-- After `i` rounds the depth is the number of the lower `i` digits of
`n - 1` that are significant, and those digits are gone. -/
theorem clog2_eq {n : Nat} (hn : n ≤ 2 ^ 25) : clog2 n = .ok (Nat.clog 2 n) := by
  have hstart : (if n = 0 then 0 else n - 1) = n - 1 := by
    split
    · omega
    · rfl
  have hsize : (n - 1).size ≤ 25 := by
    rw [Nat.size_le]
    omega
  have hloop := foreach_inv (fun (_ : Fin 25) s => clog2Step s)
    (fun i s => s.1 = (n - 1) / 2 ^ i ∧ s.2 = min i (n - 1).size) ?_ (n - 1, 0)
    ⟨by rw [Nat.pow_zero, Nat.div_one], (Nat.zero_min _).symm⟩
  · obtain ⟨s, hs, _, hdepth⟩ := hloop
    rw [clog2, hstart, hs, ok_bind, hdepth, Nat.min_eq_right hsize, Merkle.size_pred_eq_clog]
  · rintro i ⟨remaining, depth⟩ ⟨hrem, hdepth⟩
    have hi := i.isLt
    simp only at hrem hdepth
    rw [clog2Step]
    simp only
    have hnext : (n - 1) / 2 ^ (i.val + 1) = remaining / 2 := by
      rw [hrem, Nat.pow_succ, Nat.div_div_eq_div_mul]
    split
    · rename_i hne
      have hlt : i.val < (n - 1).size := by
        rw [Nat.lt_size]
        rw [hrem] at hne
        exact Nat.le_of_not_lt fun h => hne (Nat.div_eq_of_lt h)
      refine ⟨(remaining / 2, depth + 1), ?_, hnext.symm, ?_⟩
      · rw [if_pos (by omega)]
      · simp only
        omega
    · rename_i hzero
      have hle : (n - 1).size ≤ i.val := by
        rw [Nat.size_le, ← Nat.div_eq_zero_iff_lt (Nat.two_pow_pos _), ← hrem]
        exact not_not.mp hzero
      refine ⟨(remaining, depth), rfl, ?_, ?_⟩
      · simp only
        rw [hnext]
        omega
      · simp only
        omega

/-! ## Chunks -/

theorem getElem_chunkOf (bytes : List Byte) (i : Nat) (hi : i < 32) :
    (chunkOf bytes)[i] = sliceByte bytes i := by
  rw [chunkOf, Vector.getElem_ofFn]

theorem wordToHash_sliceLoad (bytes : List Byte) (off : Nat) :
    wordToHash (sliceLoad bytes off) = chunkOf (bytes.drop off) := by
  refine Vector.ext ?_
  intro i hi
  rw [getElem_wordToHash_sliceLoad _ _ _ hi, getElem_chunkOf, sliceByte_drop]

theorem htrChunk_eq {bytes : List Byte} {chunkIndex : Nat} (h : chunkIndex ≤ 33554432) :
    htrChunk bytes chunkIndex = .ok (chunkOf (bytes.drop (chunkIndex * 32))) := by
  rw [htrChunk, if_pos h, wordToHash_sliceLoad]

/-- A byte of a quantity below `2 ^ 256`. -/
theorem extractLsb'_ofNat (v : Nat) {i : Nat} (hi : i < 32) :
    (BitVec.ofNat 256 v).extractLsb' (8 * i) 8 = BitVec.ofNat 8 (v / 256 ^ i) := by
  refine BitVec.eq_of_toNat_eq ?_
  have hsplit : (2 : Nat) ^ 256 = 256 ^ i * 256 ^ (32 - i) := by
    rw [← Nat.pow_add, Nat.add_sub_cancel' (by omega)]
    norm_num
  have hdvd : (256 : Nat) ∣ 256 ^ (32 - i) := dvd_pow_self _ (by omega)
  have hpow : (2 : Nat) ^ (8 * i) = 256 ^ i := by
    rw [Nat.pow_mul]
  rw [BitVec.extractLsb'_toNat, BitVec.toNat_ofNat, BitVec.toNat_ofNat,
    Nat.shiftRight_eq_div_pow, hpow, hsplit, Nat.mod_mul_right_div_self]
  exact Nat.mod_mod_of_dvd _ hdvd

theorem htrLengthChunk_eq (len : Nat) : htrLengthChunk len = lengthChunk len := by
  refine Vector.ext ?_
  intro i hi
  rw [htrLengthChunk, htrU256, lengthChunk, Vector.getElem_ofFn, Vector.getElem_ofFn,
    extractLsb'_ofNat len hi]

/-- Decoding a `uint64` field and chunking it is packing its bytes. -/
theorem htrSszUint_eq (bytes : List Byte) (offset : Nat) :
    htrSszUint bytes offset = chunkOf (subSlice bytes offset 8) := by
  refine Vector.ext ?_
  intro i hi
  rw [getElem_chunkOf, sliceByte_subSlice, htrSszUint, htrUint, Vector.getElem_ofFn]
  split
  · rename_i hlt
    have h0 := (sliceByte bytes offset).isLt
    have h1 := (sliceByte bytes (offset + 1)).isLt
    have h2 := (sliceByte bytes (offset + 2)).isLt
    have h3 := (sliceByte bytes (offset + 3)).isLt
    have h4 := (sliceByte bytes (offset + 4)).isLt
    have h5 := (sliceByte bytes (offset + 5)).isLt
    have h6 := (sliceByte bytes (offset + 6)).isLt
    have h7 := (sliceByte bytes (offset + 7)).isLt
    refine BitVec.eq_of_toNat_eq ?_
    rw [BitVec.toNat_ofNat, decodeSszUint]
    interval_cases i <;> simp only [Nat.reduceMul, Nat.reducePow, Nat.add_zero] <;> omega
  · rfl

theorem htrSszBytes32_eq (bytes : List Byte) (offset : Nat) :
    htrSszBytes32 bytes offset = chunkOf (subSlice bytes offset 32) := by
  refine Vector.ext ?_
  intro i hi
  rw [htrSszBytes32, htrBytes32, sszBytes32, getElem_wordToHash_sliceLoad _ _ _ hi,
    getElem_chunkOf, sliceByte_subSlice, if_pos hi]

/-- An address field that is inside its container. -/
theorem htrSszAddr_eq {bytes : List Byte} {offset : Nat} (h : offset + 20 ≤ bytes.length) :
    htrSszAddr bytes offset = chunkOf (subSlice bytes offset 20) := by
  have hlen : ((bytes.drop offset).take 20).length = 20 := length_subSlice h
  have hword : (sliceLoadN bytes offset 20).toNat = natOfBytes (subSlice bytes offset 20) := by
    have hlt := natOfBytes_lt (subSlice bytes offset 20)
    rw [length_subSlice h] at hlt
    rw [sliceLoadN, List.rightpad, hlen, Nat.sub_self, List.replicate_zero, List.append_nil,
      BitVec.toNat_ofNat]
    refine Nat.mod_eq_of_lt (hlt.trans ?_)
    norm_num
  have hbytes : addressBytes (sszAddr bytes offset) = subSlice bytes offset 20 := by
    have hback := bytesOfNat_natOfBytes (subSlice bytes offset 20)
    rw [length_subSlice h] at hback
    rw [sszAddr, addressBytes_wordToAddress, hword, hback]
  rw [htrSszAddr, htrAddr, hbytes, chunkOf]

/-- Horner's rule reads the bytes from the last to the first. -/
theorem sszU256_eq (bytes : List Byte) (offset : Nat) :
    sszU256 bytes offset =
      hashToWord (Vector.ofFn fun i => sliceByte bytes (offset + (31 - i.val))) := by
  have hlist : (Vector.ofFn fun i : Fin 32 => sliceByte bytes (offset + (31 - i.val))).toList =
      (List.range 32).map fun k => sliceByte bytes (offset + (31 - k)) := by
    refine List.ext_getElem (by simp) ?_
    intro i h₁ h₂
    simp
  have hfold : ∀ (l : List Byte) (w : Word) (n : Nat), w = BitVec.ofNat 256 n →
      l.foldl (fun (result : Word) b => result * 256 + b.setWidth 256) w =
        BitVec.ofNat 256 (l.foldl (fun acc b => acc * 256 + b.toNat) n) := by
    intro l
    induction l with
    | nil =>
      intro w n h
      exact h
    | cons b l ih =>
      intro w n h
      refine ih _ (n * 256 + b.toNat) ?_
      have hb : b.setWidth 256 = BitVec.ofNat 256 b.toNat := by
        refine BitVec.eq_of_toNat_eq ?_
        rw [BitVec.toNat_setWidth, BitVec.toNat_ofNat]
      simp only [h, hb, BitVec.ofNat_add, BitVec.ofNat_mul]
      rfl
  rw [hashToWord, hlist, natOfBytes, ← hfold _ 0 0 rfl, List.foldl_map, sszU256]

/-- The little-endian byte `i` of a word is its big-endian byte `31 - i`. -/
theorem getElem_htrU256 (w : Word) (i : Nat) (hi : i < 32) :
    (htrU256 w)[i] = (wordToHash w)[31 - i] := by
  have hpos : 248 - 8 * (31 - i) = 8 * i := by omega
  rw [htrU256, wordToHash, Vector.getElem_ofFn, Vector.getElem_ofFn, hpos]

theorem htrSszU256_eq (bytes : List Byte) (offset : Nat) :
    htrSszU256 bytes offset = chunkOf (subSlice bytes offset 32) := by
  refine Vector.ext ?_
  intro i hi
  have hidx : 31 - (31 - i) = i := by omega
  rw [getElem_chunkOf, sliceByte_subSlice, if_pos hi, htrSszU256, sszU256_eq,
    getElem_htrU256 _ i hi]
  simp only [wordToHash_hashToWord, Vector.getElem_ofFn, hidx]

/-! ## Byte strings -/

theorem length_pack (bytes : List Byte) : (pack bytes).length = (bytes.length + 31) / 32 := by
  rw [pack, List.length_map, List.length_range]

/-- A byte list past the widest limit has no root. -/
theorem htrBytelist_ok_length {sha256Pair : Hash → Hash → Hash} {bytes : List Byte}
    {limit : Nat} {r : Hash}
    (h : htrBytelist sha256Pair bytes limit = .ok r) : bytes.length ≤ htrByteListLimit := by
  obtain ⟨_, _, h⟩ := bind_eq_ok.mp h
  obtain ⟨_, _, h⟩ := bind_eq_ok.mp h
  obtain ⟨_, hroot, _⟩ := bind_eq_ok.mp h
  obtain ⟨_, hcount, _⟩ := bind_eq_ok.mp hroot
  rw [htrChunkCount] at hcount
  split at hcount
  · assumption
  · cases hcount

theorem requestLength_pos (kind : HtrRequestKind) : 0 < requestLength kind := by
  cases kind <;> decide

section

variable {sha256Pair : Hash → Hash → Hash} (hzero : ZeroHashes sha256Pair)

include hzero

/-- The streamed root of the chunks of a byte string. -/
theorem htrBytesRoot_eq {bytes : List Byte} {depth : Nat} (hlen : bytes.length ≤ htrByteListLimit)
    (hdepth : depth ≤ 25) (hcount : (pack bytes).length ≤ 2 ^ depth) :
    htrBytesRoot sha256Pair bytes depth =
      .ok (Merkle.root sha256Pair depth (Merkle.padded zeroHash (pack bytes))) := by
  rw [length_pack] at hcount
  have hpow : 2 ^ depth ≤ 2 ^ 25 := Nat.pow_le_pow_right (by decide) hdepth
  have hleaf : ∀ i < (bytes.length + 31) / 32,
      htrChunk bytes i = .ok (chunkOf (bytes.drop (i * 32))) := by
    intro i hi
    exact htrChunk_eq (by omega)
  rw [htrBytesRoot, htrChunkCount, if_pos hlen, ok_bind, htrLeafCapacity_eq hdepth, if_pos hcount,
    htrBytesSubtree, htrSubtree_map hzero hdepth hcount hleaf, pack]

/-- The root of a byte vector. -/
theorem htrBytevector_eq {bytes : List Byte} (hlen : bytes.length ≤ htrByteListLimit) :
    htrBytevector sha256Pair bytes = .ok (byteVectorRoot sha256Pair bytes) := by
  have hchunks : (bytes.length + 31) / 32 ≤ 2 ^ 25 := by
    rw [htrByteListLimit] at hlen
    omega
  have hdepth : Nat.clog 2 ((bytes.length + 31) / 32) ≤ 25 :=
    (Nat.clog_le_iff_le_pow Nat.one_lt_two).mpr hchunks
  have hcount : (pack bytes).length ≤ 2 ^ Nat.clog 2 ((bytes.length + 31) / 32) := by
    rw [length_pack]
    exact Nat.le_pow_clog Nat.one_lt_two _
  rw [htrBytevector, htrChunkCount, if_pos hlen, ok_bind, clog2_eq hchunks, ok_bind,
    htrBytesRoot_eq hzero hlen hdepth hcount, byteVectorRoot, merkleRoot, length_pack]

theorem htrSszBytevector_eq {bytes : List Byte} {offset len : Nat}
    (hin : offset + len ≤ bytes.length) (hlen : len ≤ htrByteListLimit) :
    htrSszBytevector sha256Pair bytes offset len =
      .ok (byteVectorRoot sha256Pair (subSlice bytes offset len)) := by
  rw [htrSszBytevector, if_pos hin]
  refine htrBytevector_eq hzero ?_
  rw [length_subSlice hin]
  exact hlen

/-- The root of a byte list within its limit. -/
theorem htrBytelist_eq {bytes : List Byte} {limit : Nat} (hlen : bytes.length ≤ limit)
    (hlimit : limit ≤ htrByteListLimit) :
    htrBytelist sha256Pair bytes limit = .ok (byteListRoot sha256Pair limit bytes) := by
  have hchunks : (limit + 31) / 32 ≤ 2 ^ 25 := by
    rw [htrByteListLimit] at hlimit
    omega
  have hdepth : Nat.clog 2 ((limit + 31) / 32) ≤ 25 :=
    (Nat.clog_le_iff_le_pow Nat.one_lt_two).mpr hchunks
  have hcount : (pack bytes).length ≤ 2 ^ Nat.clog 2 ((limit + 31) / 32) := by
    have hle := Nat.le_pow_clog Nat.one_lt_two ((limit + 31) / 32)
    rw [length_pack]
    omega
  rw [htrBytelist, htrChunkCount, if_pos hlimit, ok_bind, clog2_eq hchunks, ok_bind,
    htrBytesRoot_eq hzero (hlen.trans hlimit) hdepth hcount, ok_bind, mixInLength,
    htrLengthChunk_eq, byteListRoot, merkleRoot]

/-! ## Lists -/

/-- A list whose leaves are all there. -/
theorem listRoot_of_leaves {leaf : Nat → Result Hash} {root : Nat → Hash} {depth count : Nat}
    (hdepth : depth ≤ 25) (hcount : count ≤ 2 ^ depth)
    (hleaf : ∀ i < count, leaf i = .ok (root i)) :
    (htrSubtree sha256Pair leaf depth 0 count >>= fun r =>
        (.ok (mixInLength sha256Pair r count) : Result Hash)) =
      .ok (listRoot sha256Pair (2 ^ depth) ((List.range count).map root)) := by
  rw [htrSubtree_map hzero hdepth hcount hleaf, ok_bind, mixInLength, htrLengthChunk_eq, listRoot,
    merkleRoot, Nat.clog_pow 2 depth Nat.one_lt_two, List.length_map, List.length_range]

theorem htrWithdrawal_eq {withdrawal : List Byte} (hlen : withdrawal.length = 44) :
    htrWithdrawal sha256Pair withdrawal = .ok (withdrawalRoot sha256Pair withdrawal) := by
  rw [htrWithdrawal, htrSszUint_eq, htrSszUint_eq, htrSszUint_eq, htrSszAddr_eq (by omega),
    merkleize_container hzero (by norm_num) (by omega), withdrawalRoot]

theorem htrWithdrawals_eq {withdrawals : WithdrawalListRef}
    (hlen : withdrawals.bytes.length = withdrawals.count * 44)
    (hcount : withdrawals.count ≤ withdrawalCountBound) :
    htrWithdrawals sha256Pair withdrawals =
      .ok (listRoot sha256Pair withdrawalCountBound
        ((fixedItems withdrawals.bytes withdrawals.count 44).map (withdrawalRoot sha256Pair))) := by
  have hleaf : ∀ i < withdrawals.count, withdrawalLeaf sha256Pair withdrawals i =
      .ok (withdrawalRoot sha256Pair (subSlice withdrawals.bytes (i * 44) 44)) := by
    intro i hi
    have hin : i * 44 + 44 ≤ withdrawals.bytes.length := by omega
    rw [withdrawalLeaf, sszFixedListAt, if_pos ⟨hi, hin⟩, ok_bind]
    exact htrWithdrawal_eq hzero (length_subSlice hin)
  rw [fixedItems, List.map_map]
  exact listRoot_of_leaves hzero (by omega) hcount hleaf

theorem htrVersionedHashes_eq {versionedHashes : List Byte} {count : Nat}
    (hlen : versionedHashes.length = count * 32) (hcount : count ≤ blobCommitmentCountBound) :
    htrVersionedHashes sha256Pair versionedHashes =
      .ok (listRoot sha256Pair blobCommitmentCountBound (pack versionedHashes)) := by
  have hchunks : (versionedHashes.length + 31) / 32 = count := by omega
  have hleaf : ∀ i < count, htrChunk versionedHashes i =
      .ok (chunkOf (versionedHashes.drop (i * 32))) := by
    intro i hi
    rw [blobCommitmentCountBound] at hcount
    exact htrChunk_eq (by omega)
  have href : sszBoundedFixedListRef versionedHashes 32 blobCommitmentCountBound =
      .ok ⟨versionedHashes, count, 32⟩ :=
    (sszBoundedFixedListRef_eq_ok (by decide)).mpr ⟨rfl, hlen, rfl, hcount⟩
  rw [htrVersionedHashes, href, ok_bind, pack, hchunks]
  exact listRoot_of_leaves hzero (by omega) hcount hleaf

/-! ## Requests -/

theorem htrRequest_eq {kind : HtrRequestKind} {request : List Byte}
    (hlen : request.length = requestLength kind) :
    htrRequest sha256Pair kind request = .ok (requestRoot sha256Pair kind request) := by
  have hlimit : 256 ≤ htrByteListLimit := by decide
  cases kind with
  | htrDeposit =>
    rw [requestLength] at hlen
    rw [htrRequest, htrDeposit, htrSszBytevector_eq hzero (by omega) (by omega), ok_bind,
      htrSszBytevector_eq hzero (by omega) (by omega), ok_bind, htrSszBytes32_eq, htrSszUint_eq,
      htrSszUint_eq]
    exact merkleize_container hzero (by norm_num) (by omega)
  | htrWithdrawalRequest =>
    rw [requestLength] at hlen
    rw [htrRequest, htrWithdrawalRequest, htrSszBytevector_eq hzero (by omega) (by omega), ok_bind,
      htrSszAddr_eq (by omega), htrSszUint_eq]
    exact merkleize_container hzero (by norm_num) (by omega)
  | htrConsolidationRequest =>
    rw [requestLength] at hlen
    rw [htrRequest, htrConsolidationRequest, htrSszBytevector_eq hzero (by omega) (by omega),
      ok_bind, htrSszBytevector_eq hzero (by omega) (by omega), ok_bind, htrSszAddr_eq (by omega)]
    exact merkleize_container hzero (by norm_num) (by omega)
  | htrBuilderDepositRequest =>
    rw [requestLength] at hlen
    rw [htrRequest, htrBuilderDepositRequest, htrSszBytevector_eq hzero (by omega) (by omega),
      ok_bind, htrSszBytevector_eq hzero (by omega) (by omega), ok_bind, htrSszBytes32_eq,
      htrSszUint_eq]
    exact merkleize_container hzero (by norm_num) (by omega)
  | htrBuilderExitRequest =>
    rw [requestLength] at hlen
    rw [htrRequest, htrBuilderExitRequest, htrSszBytevector_eq hzero (by omega) (by omega), ok_bind,
      htrSszAddr_eq (by omega)]
    exact merkleize_container hzero (by norm_num) (by omega)

theorem htrRequestList_eq {kind : HtrRequestKind} {depth count : Nat} {requests : List Byte}
    (hdepth : depth ≤ 25) (hlen : requests.length = count * requestLength kind)
    (hcount : count ≤ 2 ^ depth) :
    htrRequestList sha256Pair kind (2 ^ depth) depth requests =
      .ok (listRoot sha256Pair (2 ^ depth)
        ((fixedItems requests count (requestLength kind)).map (requestRoot sha256Pair kind))) := by
  have href : sszBoundedFixedListRef requests (requestLength kind) (2 ^ depth) =
      .ok ⟨requests, count, requestLength kind⟩ :=
    (sszBoundedFixedListRef_eq_ok (requestLength_pos kind)).mpr ⟨rfl, hlen, rfl, hcount⟩
  have hleaf : ∀ i < count, htrRequestLeaf sha256Pair requests kind i =
      .ok (requestRoot sha256Pair kind
        (subSlice requests (i * requestLength kind) (requestLength kind))) := by
    intro i hi
    have hin : i * requestLength kind + requestLength kind ≤ requests.length := by
      rw [hlen, ← Nat.succ_mul]
      exact Nat.mul_le_mul_right _ hi
    rw [htrRequestLeaf, if_pos hin]
    exact htrRequest_eq hzero (length_subSlice hin)
  rw [htrRequestList, href, ok_bind, fixedItems, List.map_map]
  exact listRoot_of_leaves hzero hdepth hcount hleaf

/-! ## Transactions -/

/-- Every leaf that is computed names the item it is computed from. -/
theorem transactionLeaves_eq_ok {transactions : TransactionListRef} {indices : List Nat}
    {leaves : List Hash} :
    indices.mapM (transactionLeaf sha256Pair transactions) = .ok leaves ↔
      ∃ items, indices.mapM (sszListAt transactions) = .ok items ∧
        (∀ tx ∈ items, tx.length ≤ htrByteListLimit) ∧
        leaves = items.map (byteListRoot sha256Pair htrByteListLimit) := by
  simp only [mapM_eq_ok]
  induction indices generalizing leaves with
  | nil =>
    constructor
    · intro h
      cases h
      exact ⟨[], .nil, fun tx htx => absurd htx List.not_mem_nil, rfl⟩
    · rintro ⟨items, hread, _, rfl⟩
      cases hread
      exact .nil
  | cons index indices ih =>
    constructor
    · intro h
      cases h with
      | cons hleaf hrest =>
        obtain ⟨items, hread, hfit, rfl⟩ := ih.mp hrest
        obtain ⟨tx, htx, hlist⟩ := bind_eq_ok.mp hleaf
        have hlen := htrBytelist_ok_length hlist
        rw [htrBytelist_eq hzero hlen (Nat.le_refl _)] at hlist
        cases hlist
        refine ⟨tx :: items, .cons htx hread, ?_, rfl⟩
        intro tx' hmem
        rcases List.mem_cons.mp hmem with rfl | hmem
        · exact hlen
        · exact hfit tx' hmem
    · rintro ⟨items, hread, hfit, rfl⟩
      cases hread with
      | cons hhead hrest =>
        refine .cons ?_ (ih.mpr ⟨_, hrest, fun tx htx => hfit tx (List.mem_cons_of_mem _ htx), rfl⟩)
        rw [transactionLeaf, hhead, ok_bind]
        exact htrBytelist_eq hzero (hfit _ List.mem_cons_self) (Nat.le_refl _)

/-- A transaction list has a root exactly when its items can be read and are
within their limit. -/
theorem htrTransactions_eq_ok {transactions : TransactionListRef} {r : Hash}
    (hcount : transactions.count ≤ transactionCountBound) :
    htrTransactions sha256Pair transactions = .ok r ↔
      ∃ items, (List.range transactions.count).mapM (sszListAt transactions) = .ok items ∧
        (∀ tx ∈ items, tx.length ≤ htrByteListLimit) ∧
        r = listRoot sha256Pair transactionCountBound
          (items.map (byteListRoot sha256Pair htrByteListLimit)) := by
  have hdepth : Nat.clog 2 transactionCountBound = 20 := Nat.clog_pow 2 20 Nat.one_lt_two
  have hroot : ∀ {items : List (List Byte)},
      (List.range transactions.count).mapM (sszListAt transactions) = .ok items →
      mixInLength sha256Pair (Merkle.root sha256Pair 20 (Merkle.padded zeroHash
          (items.map (byteListRoot sha256Pair htrByteListLimit)))) transactions.count =
        listRoot sha256Pair transactionCountBound
          (items.map (byteListRoot sha256Pair htrByteListLimit)) := by
    intro items hread
    have hlength := (mapM_eq_ok.mp hread).length_eq
    rw [List.length_range] at hlength
    rw [mixInLength, htrLengthChunk_eq, listRoot, merkleRoot, hdepth, List.length_map, hlength]
  rw [htrTransactions, htrTransactionsSubtree, htrSubtree_eq hzero (by omega) hcount,
    ← List.range_eq_range']
  constructor
  · intro h
    obtain ⟨root, hsubtree, h⟩ := bind_eq_ok.mp h
    obtain ⟨leaves, hleaves, hsubtree⟩ := bind_eq_ok.mp hsubtree
    obtain ⟨items, hread, hfit, rfl⟩ := (transactionLeaves_eq_ok hzero).mp hleaves
    cases hsubtree
    cases h
    exact ⟨items, hread, hfit, hroot hread⟩
  · rintro ⟨items, hread, hfit, rfl⟩
    rw [(transactionLeaves_eq_ok hzero).mpr ⟨items, hread, hfit, rfl⟩, ok_bind, ok_bind,
      hroot hread]

end

/-! ## Main result -/

/-- The streamed roots are the Merkle roots of the specification, for every
value whose size is within the capacity of its type: for a fixed vector of
fields, a byte list, a byte vector, the transactions, the withdrawals, the
versioned hashes and the five request lists. -/
theorem hashTreeRoot_merkleization (sha256Pair : Hash → Hash → Hash)
    (hzero : ZeroHashes sha256Pair) :
    (∀ leaves depth, depth ≤ 25 → leaves.length ≤ 2 ^ depth →
      merkleize sha256Pair leaves depth =
        .ok (Merkle.root sha256Pair depth (Merkle.padded zeroHash leaves))) ∧
    (∀ bytes limit, limit ≤ htrByteListLimit → bytes.length ≤ limit →
      htrBytelist sha256Pair bytes limit = .ok (byteListRoot sha256Pair limit bytes)) ∧
    (∀ bytes, bytes.length ≤ htrByteListLimit →
      htrBytevector sha256Pair bytes = .ok (byteVectorRoot sha256Pair bytes)) ∧
    (∀ (transactions : TransactionListRef) r, transactions.count ≤ transactionCountBound →
      (htrTransactions sha256Pair transactions = .ok r ↔
        ∃ items, (List.range transactions.count).mapM (sszListAt transactions) = .ok items ∧
          (∀ tx ∈ items, tx.length ≤ htrByteListLimit) ∧
          r = listRoot sha256Pair transactionCountBound
            (items.map (byteListRoot sha256Pair htrByteListLimit)))) ∧
    (∀ withdrawals : WithdrawalListRef, withdrawals.bytes.length = withdrawals.count * 44 →
      withdrawals.count ≤ withdrawalCountBound →
      htrWithdrawals sha256Pair withdrawals =
        .ok (listRoot sha256Pair withdrawalCountBound
          ((fixedItems withdrawals.bytes withdrawals.count 44).map
            (withdrawalRoot sha256Pair)))) ∧
    (∀ versionedHashes count, versionedHashes.length = count * 32 →
      count ≤ blobCommitmentCountBound →
      htrVersionedHashes sha256Pair versionedHashes =
        .ok (listRoot sha256Pair blobCommitmentCountBound (pack versionedHashes))) ∧
    (∀ requests count, requests.length = count * 192 → count ≤ depositRequestCountBound →
      htrDeposits sha256Pair requests =
        .ok (listRoot sha256Pair depositRequestCountBound
          ((fixedItems requests count 192).map (requestRoot sha256Pair .htrDeposit)))) ∧
    (∀ requests count, requests.length = count * 76 → count ≤ withdrawalRequestCountBound →
      htrWithdrawalRequests sha256Pair requests =
        .ok (listRoot sha256Pair withdrawalRequestCountBound
          ((fixedItems requests count 76).map (requestRoot sha256Pair .htrWithdrawalRequest)))) ∧
    (∀ requests count, requests.length = count * 116 → count ≤ consolidationRequestCountBound →
      htrConsolidationRequests sha256Pair requests =
        .ok (listRoot sha256Pair consolidationRequestCountBound
          ((fixedItems requests count 116).map
            (requestRoot sha256Pair .htrConsolidationRequest)))) ∧
    (∀ requests count, requests.length = count * 184 → count ≤ builderDepositRequestCountBound →
      htrBuilderDepositRequests sha256Pair requests =
        .ok (listRoot sha256Pair builderDepositRequestCountBound
          ((fixedItems requests count 184).map
            (requestRoot sha256Pair .htrBuilderDepositRequest)))) ∧
    (∀ requests count, requests.length = count * 68 → count ≤ builderExitRequestCountBound →
      htrBuilderExitRequests sha256Pair requests =
        .ok (listRoot sha256Pair builderExitRequestCountBound
          ((fixedItems requests count 68).map
            (requestRoot sha256Pair .htrBuilderExitRequest)))) := by
  refine ⟨?_, ?_, ?_, ?_, ?_, ?_, ?_, ?_, ?_, ?_, ?_⟩
  · intro leaves depth hdepth hcount
    exact merkleize_eq hzero hdepth hcount
  · intro bytes limit hlimit hlen
    exact htrBytelist_eq hzero hlen hlimit
  · intro bytes hlen
    exact htrBytevector_eq hzero hlen
  · intro transactions r hcount
    exact htrTransactions_eq_ok hzero hcount
  · intro withdrawals hlen hcount
    exact htrWithdrawals_eq hzero hlen hcount
  · intro versionedHashes count hlen hcount
    exact htrVersionedHashes_eq hzero hlen hcount
  · intro requests count hlen hcount
    exact htrRequestList_eq hzero (by omega) hlen hcount
  · intro requests count hlen hcount
    exact htrRequestList_eq hzero (by omega) hlen hcount
  · intro requests count hlen hcount
    exact htrRequestList_eq hzero (by omega) hlen hcount
  · intro requests count hlen hcount
    exact htrRequestList_eq hzero (by omega) hlen hcount
  · intro requests count hlen hcount
    exact htrRequestList_eq hzero (by omega) hlen hcount

/-- Thirty-three bytes: a full chunk and one that is almost empty. -/
def raggedBytes : List Byte := List.replicate 33 1

/-- The root of these two chunks, that of the tree over four, and that of the
list with its length. -/
def raggedNode : Hash :=
  hashFromBits 0x0e538004bd522643079dc16316bd90985b62101ed2f0f51349f479efb17bc059

def raggedTree : Hash :=
  hashFromBits 0x53ad7327b0252c90f6a7c9fb8554810d392f45b64a2df8c6e45021bbc7ba4df6

def raggedRoot : Hash :=
  hashFromBits 0x2d2ccd4d3b98654aaba0aa4654c87e4628bd2d1a9debbc15a87fb844c8591ffb

/-- SHA-256 on the pairs of zero roots, and on those that the root of the
ragged list hashes. -/
def sha256PairTable (left right : Hash) : Hash :=
  if left = right then
    match (List.range 25).find? fun level => decide (left = sszZeroHash level) with
    | some level => sszZeroHash (level + 1)
    | none => zeroHash
  else if left = raggedNode ∧ right = sszZeroHash 1 then raggedTree
  else if left = raggedTree ∧ right = lengthChunk 33 then raggedRoot
  else raggedNode

theorem zeroHashes_table : ZeroHashes sha256PairTable := by
  have hstep : ∀ level < 25,
      sha256PairTable (sszZeroHash level) (sszZeroHash level) = sszZeroHash (level + 1) := by
    decide +kernel
  intro level hlevel
  induction level with
  | zero => rfl
  | succ level ih => rw [Merkle.zeroRoot, ← ih (by omega), hstep level (by omega)]

/-- A list of at most ninety-six bytes: beside the two chunks stands a pair of
zero ones. -/
theorem hashTreeRoot_merkleization_ragged :
    ZeroHashes sha256PairTable ∧ htrBytelist sha256PairTable raggedBytes 96 = .ok raggedRoot := by
  have hroot : byteListRoot sha256PairTable 96 raggedBytes = raggedRoot := by decide +kernel
  refine ⟨zeroHashes_table, ?_⟩
  rw [← hroot]
  exact (hashTreeRoot_merkleization sha256PairTable zeroHashes_table).2.1 raggedBytes 96
    (by decide) (by decide)

end EvmSail
