/-
# `EvmSail.Optimised.LogsBloom` — the accumulated bloom of a block

The optimised host writes the bloom of a receipt straight into the span of
its encoding, bytes in wire order, and sets every bit a second time in 32
words of 64 bits that last for the block.  The header's bloom is compared
with the words, eight bytes at a time in the other byte order; the log
table is not read again.

Bit `n` of a bloom is bit `n % 8` of its byte `n / 8`, that of the words is
bit `n % 64` of word `n / 64` (`Accumulates`), and both writers set the
same one (`bloomWriteDigest_spec`).
-/
import EvmSail.Executor.LogsBloom
import EvmSail.Optimised.LogTable

namespace EvmSail.Optimised

open Fallible Journal

open Kernel (LogEvent survivors Bounded)

/-! ## The writers -/

/-- The 256 bytes of a bloom in wire order. -/
abbrev BloomSpan := Vector Byte 256

/-- `block_logs_bloom_words`. -/
abbrev BloomWords := Vector (BitVec 64) 32

/-- `memset(out, 0, 256)`. -/
def emptyBloomSpan : BloomSpan := Vector.replicate 256 0

def receiptRuntimeBlockBloomReset : BloomWords := Vector.replicate 32 0

/-- The bit that two bytes of a digest name, in 16-bit arithmetic. -/
def bloomBit (digest : Hash) (i : Nat) : BitVec 16 :=
  (((digest.toList.getD (2 * i) 0 &&& 0x07).setWidth 16) <<< 8) |||
    (digest.toList.getD (2 * i + 1) 0).setWidth 16

/-- Sets one bit in the span and in the words. -/
def bloomWriteBit (written : BloomSpan × BloomWords) (bit : BitVec 16) : BloomSpan × BloomWords :=
  (Vector.ofFn fun k =>
      if k.val = 255 - (bit >>> 3).toNat then written.1.get k ||| (1#8 <<< (bit &&& 7).toNat)
      else written.1.get k,
    Vector.ofFn fun k =>
      if k.val = (bit >>> 6).toNat then written.2.get k ||| (1#64 <<< (bit &&& 63).toNat)
      else written.2.get k)

def bloomWriteDigest (written : BloomSpan × BloomWords) (digest : Hash) : BloomSpan × BloomWords :=
  (List.range 3).foldl (fun written i => bloomWriteBit written (bloomBit digest i)) written

section

-- The accelerator; `none` is any answer but `ZKVM_EOK`.
variable (zkvmKeccak256 : List Byte → Option Hash)

def bloomWriteBytes (written : BloomSpan × BloomWords) (bytes : List Byte) :
    Option (BloomSpan × BloomWords) := do
  let digest ← zkvmKeccak256 bytes
  some (bloomWriteDigest written digest)

/-- The entry at a position of the table. -/
def logRecordAt (t : LogTable) (index : Nat) : LogRecord :=
  t.records.getD index ⟨0, 0, 0, 0, 0⟩

/-- Writes one record: its address, then its topics. -/
def bloomWriteRecord (t : LogTable) (written : BloomSpan × BloomWords) (r : LogRecord) :
    Option (BloomSpan × BloomWords) := do
  let written ← bloomWriteBytes zkvmKeccak256 written (addressBytes r.address)
  (List.range r.topicCount).foldlM
    (fun written topic =>
      bloomWriteBytes zkvmKeccak256 written
        (bytesOfNat 32 (t.topics.getD (r.topicOffset + topic) 0).toNat))
    written

def receiptRuntimeBloomWrite (t : LogTable) (start count : Nat) (words : BloomWords) :
    Option (BloomSpan × BloomWords) :=
  (List.range count).foldlM
    (fun written offset =>
      bloomWriteRecord zkvmKeccak256 t written (logRecordAt t (start + offset)))
    (emptyBloomSpan, words)

end

def logsTxStart (t : LogTable) : Nat := t.transactionStart

def logsTxCount (t : LogTable) : Nat := t.records.length - t.transactionStart

/-! ## The comparison -/

/-- Copies eight bytes into a word of a little-endian machine. -/
def copyWord (bytes : List Byte) : BitVec 64 := BitVec.ofNat 64 (natOfBytes bytes.reverse)

def bswap64 (word : BitVec 64) : BitVec 64 :=
  BitVec.ofNat 64 (natOfBytes (bytesOfNat 8 word.toNat).reverse)

/-- The word of the reference that is compared with a word of the block. -/
def referenceWord (reference : List Byte) (word : Nat) : BitVec 64 :=
  bswap64 (copyWord ((reference.drop (256 - (word + 1) * 8)).take 8))

def receiptRuntimeBlockBloomMatches (words : BloomWords) (reference : List Byte) : Bool :=
  if reference.length ≠ 256 then false
  else (List.finRange 32).all fun word => words.get word == referenceWord reference word.val

/-! ## Bits -/

/-- Bit `n` of a bloom. -/
def bit (bloom : LogsBloom) (n : Nat) (hn : n < 2048) : Bool :=
  (bloom.get ⟨n / 8, by omega⟩).getLsbD (n % 8)

/-- The words hold the bits of the bloom. -/
def Accumulates (words : BloomWords) (bloom : LogsBloom) : Prop :=
  ∀ n (hn : n < 2048), (words.get ⟨n / 64, by omega⟩).getLsbD (n % 64) = bit bloom n hn

/-- The span holds the bytes of the bloom in wire order. -/
def InWireOrder (out : BloomSpan) (bloom : LogsBloom) : Prop :=
  ∀ k : Fin 256, out.get k = bloom.get ⟨255 - k.val, by omega⟩

theorem bloomBit_toNat (digest : Hash) (i : Nat) :
    (bloomBit digest i).toNat = bloomIndex digest (2 * i) := by
  have hor : ∀ a b : Byte, ((((a &&& 0x07).setWidth 16) <<< 8) ||| b.setWidth 16).toNat =
      (a.setWidth 3 ++ b).toNat := by
    intro a b
    have hb := b.isLt
    have ha : (a &&& 0x07).toNat = a.toNat % 8 := by
      rw [BitVec.toNat_and]
      exact Nat.and_two_pow_sub_one_eq_mod a.toNat 3
    have hlow : (((a &&& 0x07).setWidth 16) <<< 8).toNat = (a.toNat % 8) <<< 8 := by
      rw [BitVec.toNat_shiftLeft, BitVec.toNat_setWidth, ha, Nat.shiftLeft_eq, Nat.shiftLeft_eq]
      omega
    rw [BitVec.toNat_or, hlow, BitVec.toNat_append, BitVec.toNat_setWidth, BitVec.toNat_setWidth,
      Nat.mod_eq_of_lt (by omega : b.toNat < 2 ^ 16)]
  exact hor _ _

theorem bloomIndex_lt (digest : Hash) (i : Nat) : bloomIndex digest i < 2048 :=
  BitVec.isLt _

/-- A bit that is set in a bloom. -/
theorem bit_bloomSetBit (bloom : LogsBloom) (m n : Nat) (hn : n < 2048) :
    bit (bloomSetBit bloom m) n hn = (bit bloom n hn || decide (n = m)) := by
  rw [bit, bit, bloomSetBit, Vector.get_eq_getElem, Vector.getElem_ofFn]
  dsimp only
  by_cases hbyte : n / 8 = m / 8
  · rw [if_pos hbyte, BitVec.getLsbD_or]
    congr 1
    rw [BitVec.getLsbD_shiftLeft, BitVec.getLsbD_one]
    grind
  · rw [if_neg hbyte]
    have hne : n ≠ m := fun h => hbyte (h ▸ rfl)
    rw [decide_eq_false hne, Bool.or_false]

theorem bloomWriteBit_spec {written : BloomSpan × BloomWords} {bloom : LogsBloom}
    {bitToSet : BitVec 16} (hlt : bitToSet.toNat < 2048) (hspan : InWireOrder written.1 bloom)
    {total : LogsBloom} (hwords : Accumulates written.2 total) :
    InWireOrder (bloomWriteBit written bitToSet).1 (bloomSetBit bloom bitToSet.toNat) ∧
      Accumulates (bloomWriteBit written bitToSet).2 (bloomSetBit total bitToSet.toNat) := by
  have hbyte : (bitToSet >>> 3).toNat = bitToSet.toNat / 8 := by
    rw [BitVec.toNat_ushiftRight, Nat.shiftRight_eq_div_pow]
  have hword : (bitToSet >>> 6).toNat = bitToSet.toNat / 64 := by
    rw [BitVec.toNat_ushiftRight, Nat.shiftRight_eq_div_pow]
  have hlow : (bitToSet &&& 7).toNat = bitToSet.toNat % 8 := by
    rw [BitVec.toNat_and]
    exact Nat.and_two_pow_sub_one_eq_mod _ 3
  have hmid : (bitToSet &&& 63).toNat = bitToSet.toNat % 64 := by
    rw [BitVec.toNat_and]
    exact Nat.and_two_pow_sub_one_eq_mod _ 6
  constructor
  · intro k
    have hk := k.isLt
    simp only [bloomWriteBit, bloomSetBit, Vector.get_eq_getElem, Vector.getElem_ofFn, hbyte, hlow]
    have hsame := hspan k
    rw [Vector.get_eq_getElem, Vector.get_eq_getElem] at hsame
    rw [hsame]
    exact if_congr (by omega) rfl rfl
  · intro n hn
    rw [bit_bloomSetBit total _ n hn, ← hwords n hn]
    simp only [bloomWriteBit, Vector.get_eq_getElem, Vector.getElem_ofFn, hword, hmid]
    by_cases hsame : n / 64 = bitToSet.toNat / 64
    · rw [if_pos hsame, BitVec.getLsbD_or]
      congr 1
      rw [BitVec.getLsbD_shiftLeft, BitVec.getLsbD_one]
      grind
    · rw [if_neg hsame]
      have hne : n ≠ bitToSet.toNat := fun h => hsame (h ▸ rfl)
      rw [decide_eq_false hne, Bool.or_false]

/-- Both writers add the three bits of an entry. -/
theorem bloomWriteDigest_spec {written : BloomSpan × BloomWords} {bloom total : LogsBloom}
    (digest : Hash) (hspan : InWireOrder written.1 bloom) (hwords : Accumulates written.2 total) :
    InWireOrder (bloomWriteDigest written digest).1 (bloomAddEntryHash bloom digest) ∧
      Accumulates (bloomWriteDigest written digest).2 (bloomAddEntryHash total digest) := by
  have hstep : ∀ (written : BloomSpan × BloomWords) (bloom total : LogsBloom) (i j : Nat),
      2 * i = j → InWireOrder written.1 bloom → Accumulates written.2 total →
      InWireOrder (bloomWriteBit written (bloomBit digest i)).1
          (bloomSetBit bloom (bloomIndex digest j)) ∧
        Accumulates (bloomWriteBit written (bloomBit digest i)).2
          (bloomSetBit total (bloomIndex digest j)) := by
    intro written bloom total i j hj hspan hwords
    have hindex := bloomBit_toNat digest i
    rw [← hj, ← hindex]
    exact bloomWriteBit_spec (hindex ▸ bloomIndex_lt digest (2 * i)) hspan hwords
  obtain ⟨hspan₀, hwords₀⟩ := hstep written bloom total 0 0 rfl hspan hwords
  obtain ⟨hspan₁, hwords₁⟩ := hstep _ _ _ 1 2 rfl hspan₀ hwords₀
  have hrange : List.range 3 = [0, 1, 2] := rfl
  rw [bloomWriteDigest, hrange, List.foldl_cons, List.foldl_cons, List.foldl_cons, List.foldl_nil,
    bloomAddEntryHash, bloomAddEntryHash]
  exact hstep (bloomWriteBit (bloomWriteBit written (bloomBit digest 0)) (bloomBit digest 1)) _ _ 2
    4 rfl hspan₁ hwords₁

section

variable {zkvmKeccak256 : List Byte → Option Hash} {keccak256 : List Byte → Hash}
  (hkeccak : ∀ bytes digest, zkvmKeccak256 bytes = some digest → digest = keccak256 bytes)

/-- The span holds one bloom and the words another. -/
structure Written (written : BloomSpan × BloomWords) (bloom total : LogsBloom) : Prop where
  span : InWireOrder written.1 bloom
  words : Accumulates written.2 total

include hkeccak in
theorem bloomWriteBytes_spec {written written' : BloomSpan × BloomWords} {bytes : List Byte}
    (h : bloomWriteBytes zkvmKeccak256 written bytes = some written') {bloom total : LogsBloom}
    (hw : Written written bloom total) :
    Written written' (bloomAddEntryHash bloom (keccak256 bytes))
      (bloomAddEntryHash total (keccak256 bytes)) := by
  obtain ⟨digest, hdigest, h⟩ := Option.bind_eq_some_iff.mp h
  rw [← hkeccak bytes digest hdigest, ← Option.some.inj h]
  have hspec := bloomWriteDigest_spec digest hw.span hw.words
  exact ⟨hspec.1, hspec.2⟩

include hkeccak in
theorem bloomWriteTopics_spec {t : LogTable} {offset : Nat} (topics : List Word)
    (htopics : ∀ i topic, topics[i]? = some topic → t.topics.getD (offset + i) 0 = topic)
    {written written' : BloomSpan × BloomWords}
    (h : (List.range topics.length).foldlM
      (fun written topic => bloomWriteBytes zkvmKeccak256 written
        (bytesOfNat 32 (t.topics.getD (offset + topic) 0).toNat)) written = some written')
    {bloom total : LogsBloom} (hw : Written written bloom total) :
    Written written'
      (topics.foldl (fun out topic => bloomAddEntryHash out (keccak256 (bytesOfNat 32 topic.toNat)))
        bloom)
      (topics.foldl (fun out topic => bloomAddEntryHash out (keccak256 (bytesOfNat 32 topic.toNat)))
        total) := by
  induction topics using List.reverseRecOn generalizing written' with
  | nil =>
    cases h
    exact hw
  | append_singleton topics topic ih =>
    rw [List.length_append, List.length_singleton, List.range_succ, List.foldlM_append] at h
    obtain ⟨written₁, hinit, hlast⟩ := Option.bind_eq_some_iff.mp h
    rw [List.foldlM_cons] at hlast
    obtain ⟨written₂, hlast, hnil⟩ := Option.bind_eq_some_iff.mp hlast
    cases hnil
    have hbefore : ∀ i topic', topics[i]? = some topic' →
        t.topics.getD (offset + i) 0 = topic' := by
      intro i topic' hi
      refine htopics i topic' ?_
      rw [List.getElem?_append_left (List.getElem?_eq_some_iff.mp hi).1, hi]
    have hread : t.topics.getD (offset + topics.length) 0 = topic := by
      refine htopics topics.length topic ?_
      rw [List.getElem?_append_right (Nat.le_refl _), Nat.sub_self]
      rfl
    rw [hread] at hlast
    rw [List.foldl_append, List.foldl_append]
    exact bloomWriteBytes_spec hkeccak hlast (ih hbefore hinit)

include hkeccak in
/-- One entry of the table is written as the record it stands for. -/
theorem bloomWriteRecord_spec {t : LogTable} {r : LogRecord}
    (hr : r.topicOffset + r.topicCount ≤ t.topics.length)
    {written written' : BloomSpan × BloomWords}
    (h : bloomWriteRecord zkvmKeccak256 t written r = some written') {bloom total : LogsBloom}
    (hw : Written written bloom total) :
    Written written' (bloomAddLogAt keccak256 bloom (t.recordAt r))
      (bloomAddLogAt keccak256 total (t.recordAt r)) := by
  obtain ⟨written₁, haddress, htopics⟩ := Option.bind_eq_some_iff.mp h
  have hw₁ := bloomWriteBytes_spec hkeccak haddress hw
  have hlength : (t.recordAt r).topics.length = r.topicCount := by
    rw [LogTable.recordAt, List.length_take, List.length_drop]
    omega
  rw [← hlength] at htopics
  refine bloomWriteTopics_spec hkeccak (t.recordAt r).topics (fun i topic hi => ?_) htopics hw₁
  have hlt := (List.getElem?_eq_some_iff.mp hi).1
  rw [hlength] at hlt
  rw [LogTable.recordAt, List.getElem?_take_of_lt hlt, List.getElem?_drop] at hi
  rw [List.getD_eq_getElem?_getD, hi]
  rfl

include hkeccak in
/-- A receipt's span is the bloom of its records, and the words gain it. -/
theorem receiptRuntimeBloomWrite_spec {t : LogTable} {txStart : Nat}
    {earlier logs : List Kernel.LogRecord} (ht : t.Holds txStart (earlier ++ logs))
    {words words' : BloomWords} {out : BloomSpan}
    (h : receiptRuntimeBloomWrite zkvmKeccak256 t earlier.length logs.length words =
      some (out, words')) {total : LogsBloom} (hwords : Accumulates words total) :
    InWireOrder out (logsBloomOfRecords keccak256 logs) ∧
      Accumulates words' (logsBloomOr total (logsBloomOfRecords keccak256 logs)) := by
  have hprefix : ∀ n ≤ logs.length, ∀ written', (List.range n).foldlM
      (fun written offset =>
        bloomWriteRecord zkvmKeccak256 t written (logRecordAt t (earlier.length + offset)))
      (emptyBloomSpan, words) = some written' →
      Written written' ((logs.take n).foldl (bloomAddLogAt keccak256) emptyLogsBloom)
        ((logs.take n).foldl (bloomAddLogAt keccak256) total) := by
    intro n
    induction n with
    | zero =>
      intro _ written' hrun
      cases hrun
      refine ⟨fun k => ?_, hwords⟩
      rw [List.take_zero, List.foldl_nil, get_emptyLogsBloom, emptyBloomSpan,
        Vector.get_eq_getElem, Vector.getElem_replicate]
    | succ n ih =>
      intro hn written' hrun
      rw [List.range_succ, List.foldlM_append] at hrun
      obtain ⟨written₁, hinit, hlast⟩ := Option.bind_eq_some_iff.mp hrun
      rw [List.foldlM_cons] at hlast
      obtain ⟨written₂, hlast, hnil⟩ := Option.bind_eq_some_iff.mp hlast
      cases hnil
      have hlt : earlier.length + n < t.records.length := by
        rw [ht.length, List.length_append]
        omega
      have hentry : logRecordAt t (earlier.length + n) = t.records[earlier.length + n] := by
        rw [logRecordAt, List.getD_eq_getElem?_getD, List.getElem?_eq_getElem hlt]
        rfl
      have hrecord : logs[n]? = some (t.recordAt t.records[earlier.length + n]) := by
        have hmap := congrArg (fun l => l[earlier.length + n]?) ht.records
        rw [List.getElem?_map, List.getElem?_eq_getElem hlt,
          List.getElem?_append_right (Nat.le_add_right _ _), Nat.add_sub_cancel_left] at hmap
        exact hmap.symm
      have hle := ht.topics_le _ (List.getElem_mem hlt)
      rw [hentry] at hlast
      rw [List.take_add_one, hrecord, List.foldl_append, List.foldl_append]
      exact bloomWriteRecord_spec hkeccak hle hlast (ih (by omega) _ hinit)
  have hw := hprefix logs.length (Nat.le_refl _) _ h
  rw [List.take_length, foldl_bloomAddLogAt, foldl_bloomAddLogAt, empty_logsBloomOr] at hw
  exact ⟨hw.span, hw.words⟩

end

/-! ## The comparison sees the bits -/

theorem testBit_natOfBytes (bs : List Byte) (n : Nat) :
    (natOfBytes bs).testBit n = (bs.reverse.getD (n / 8) 0).getLsbD (n % 8) := by
  induction bs using List.reverseRecOn generalizing n with
  | nil =>
    rw [natOfBytes_nil, Nat.zero_testBit]
    exact BitVec.getLsbD_zero.symm
  | append_singleton bs b ih =>
    have hsplit : natOfBytes bs * 256 + b.toNat = 2 ^ 8 * natOfBytes bs + b.toNat := by omega
    rw [natOfBytes_append_singleton, hsplit, Nat.testBit_two_pow_mul_add _ b.isLt,
      List.reverse_append, List.reverse_singleton, List.singleton_append]
    split
    · rename_i hlow
      rw [Nat.div_eq_of_lt hlow, Nat.mod_eq_of_lt hlow]
      rfl
    · rename_i hhigh
      have hdiv : n / 8 = (n - 8) / 8 + 1 := by omega
      have hmod : n % 8 = (n - 8) % 8 := by omega
      rw [ih, hdiv, hmod]
      rfl

/-- A word of the reference, bit by bit. -/
theorem getLsbD_referenceWord (reference : LogsBloomRef) (n : Nat) (hn : n < 2048) :
    (referenceWord reference.bytes (n / 64)).getLsbD (n % 64) =
      bit (logsBloomFromRef reference) n hn := by
  have hlength := reference.length_eq
  let eight := (reference.bytes.drop (256 - (n / 64 + 1) * 8)).take 8
  have height : eight.length = 8 := by
    rw [List.length_take, List.length_drop]
    omega
  have hcopy : bytesOfNat 8 (copyWord eight).toNat = eight.reverse := by
    have hlt : natOfBytes eight.reverse < 2 ^ 64 := by
      have hlt := natOfBytes_lt eight.reverse
      rwa [List.length_reverse, height] at hlt
    rw [copyWord, BitVec.toNat_ofNat, Nat.mod_eq_of_lt hlt]
    have hbytes := bytesOfNat_natOfBytes eight.reverse
    rwa [List.length_reverse, height] at hbytes
  have hindex : 7 - n % 64 / 8 < eight.length := by omega
  have hat : eight.reverse.getD (n % 64 / 8) 0 = reference.bytes.getD (255 - n / 8) 0 := by
    rw [List.getD_eq_getElem?_getD, List.getElem?_reverse (by omega), height,
      List.getElem?_take_of_lt (by omega), List.getElem?_drop, List.getD_eq_getElem?_getD]
    congr 2
    omega
  have hbit : (referenceWord reference.bytes (n / 64)).getLsbD (n % 64) =
      (eight.reverse.getD (n % 64 / 8) 0).getLsbD (n % 64 % 8) := by
    rw [referenceWord, bswap64, hcopy, List.reverse_reverse, BitVec.getLsbD_ofNat,
      testBit_natOfBytes]
    simp only [Nat.mod_lt n (show 0 < 64 by decide), decide_true, Bool.true_and]
  have hmod : n % 64 % 8 = n % 8 := by omega
  rw [hbit, hat, hmod, bit, logsBloomFromRef, Vector.get_eq_getElem, Vector.getElem_ofFn]
  rfl

/-- Comparing the words is comparing the bloom. -/
theorem receiptRuntimeBlockBloomMatches_eq {words : BloomWords} {bloom : LogsBloom}
    (hwords : Accumulates words bloom) (reference : LogsBloomRef) :
    receiptRuntimeBlockBloomMatches words reference.bytes =
      logsBloomMatchesRef bloom reference := by
  rw [Bool.eq_iff_iff, logsBloomMatchesRef, logsBloomEqual_iff, receiptRuntimeBlockBloomMatches,
    if_neg (not_not.mpr reference.length_eq), List.all_eq_true]
  constructor
  · intro h
    refine logsBloom_ext fun k => ?_
    have hk := k.isLt
    refine BitVec.eq_of_getLsbD_eq fun i hi => ?_
    have hn : 8 * k.val + i < 2048 := by omega
    have hword := beq_iff_eq.mp (h ⟨(8 * k.val + i) / 64, by omega⟩ (List.mem_finRange _))
    have hbits := (hwords _ hn).symm.trans
      ((congrArg (·.getLsbD ((8 * k.val + i) % 64)) hword).trans
        (getLsbD_referenceWord reference _ hn))
    have hdiv : (8 * k.val + i) / 8 = k.val := by omega
    have hmod : (8 * k.val + i) % 8 = i := by omega
    simpa only [bit, hdiv, hmod] using hbits
  · rintro rfl word _
    have hw := word.isLt
    refine beq_iff_eq.mpr (BitVec.eq_of_getLsbD_eq fun i hi => ?_)
    have hn : 64 * word.val + i < 2048 := by omega
    have hbits := (hwords _ hn).trans (getLsbD_referenceWord reference _ hn).symm
    have hdiv : (64 * word.val + i) / 64 = word.val := by omega
    have hmod : (64 * word.val + i) % 64 = i := by omega
    simpa only [hdiv, hmod] using hbits

/-! ## The block -/

section

variable (capacity : Nat) (zkvmKeccak256 : List Byte → Option Hash) (h₀ : Host)

/-- The transactions of a block: their events, the blooms written into the
receipts, the words, and the host. -/
inductive BlockBlooms : List (List LogEvent) → List BloomSpan → BloomWords → Host → Prop
  | start : BlockBlooms [] [] receiptRuntimeBlockBloomReset h₀
  | transaction {traces : List (List LogEvent)} {outs : List BloomSpan} {words words' : BloomWords}
      {h h' : Host} {events : List LogEvent} {out : BloomSpan} (epoch : Nat) :
      BlockBlooms traces outs words h →
      LogTrace capacity events ⟨[], txReset epoch h⟩ ⟨[], h'⟩ →
      receiptRuntimeBloomWrite zkvmKeccak256 h'.state.logs (logsTxStart h'.state.logs)
        (logsTxCount h'.state.logs) words = some (out, words') →
      BlockBlooms (traces ++ [events]) (outs ++ [out]) words' h'

variable {capacity zkvmKeccak256 h₀} {keccak256 : List Byte → Hash}
  {traces : List (List LogEvent)} {outs : List BloomSpan} {words : BloomWords} {h : Host}

theorem BlockBlooms.reachable (hb : BlockBlooms capacity zkvmKeccak256 h₀ traces outs words h)
    (hr : Reachable capacity [] h₀) : Reachable capacity [] h := by
  induction hb with
  | start => exact hr
  | transaction epoch _ htrace _ ih => exact htrace.reachable (.reset epoch ih)

/-- The wire order of a bloom determines its span. -/
theorem InWireOrder.toList_eq {out : BloomSpan} {bloom : LogsBloom} (h : InWireOrder out bloom) :
    out.toList = bloom.toList.reverse := by
  refine List.ext_getElem (by simp) fun k hk hk' => ?_
  have hlt : k < 256 := by simpa using hk
  have hat := h ⟨k, hlt⟩
  rw [Vector.get_eq_getElem, Vector.get_eq_getElem] at hat
  rw [Vector.getElem_toList, List.getElem_reverse, Vector.getElem_toList, hat]
  congr 1
  simp

/-- After every transaction the spans hold the blooms of what the
transactions have left, and the words the join of them. -/
theorem BlockBlooms.spec (hb : BlockBlooms capacity zkvmKeccak256 h₀ traces outs words h)
    (hkeccak : ∀ bytes digest, zkvmKeccak256 bytes = some digest → digest = keccak256 bytes)
    (hr : Reachable capacity [] h₀) :
    outs.map Vector.toList =
        traces.map (fun events =>
          (logsBloomOfRecords keccak256 (survivors events)).toList.reverse) ∧
      Accumulates words (logsBloomJoin
        (traces.map fun events => logsBloomOfRecords keccak256 (survivors events))) := by
  induction hb with
  | start =>
    refine ⟨rfl, fun n hn => ?_⟩
    rw [bit, List.map_nil, logsBloomJoin, List.foldl_nil, get_emptyLogsBloom,
      receiptRuntimeBlockBloomReset, Vector.get_eq_getElem, Vector.getElem_replicate]
    exact BitVec.getLsbD_zero.trans BitVec.getLsbD_zero.symm
  | @transaction traces outs words words' h h' events out epoch hb htrace hwrite ih =>
    obtain ⟨houts, hwords⟩ := ih
    have hreach := hb.reachable hr
    obtain ⟨⟨start, logs, hlogs⟩, _⟩ := hreach.holds
    have hholds := htrace.holds hreach hlogs
    have hcount : logsTxCount h'.state.logs = (survivors events).length := by
      rw [logsTxCount, hholds.start, hholds.length, List.length_append, Nat.add_sub_cancel_left]
    rw [logsTxStart, hholds.start, hcount] at hwrite
    obtain ⟨hspan, hjoined⟩ := receiptRuntimeBloomWrite_spec hkeccak hholds hwrite hwords
    constructor
    · rw [List.map_append, List.map_append, houts, List.map_singleton, List.map_singleton,
        hspan.toList_eq]
    · rw [List.map_append, logsBloomJoin_append, List.map_singleton, logsBloomJoin,
        logsBloomJoin, List.foldl_cons, List.foldl_nil, empty_logsBloomOr]
      exact hjoined

end

/-- A block on both hosts: the same events happen in the system calls
before the transactions, in each transaction, and in the system calls
behind them. -/
structure BloomedBlock (env : Kernel.Env) (capacity : Nat)
    (zkvmKeccak256 : List Byte → Option Hash) where
  pre : List LogEvent
  traces : List (List LogEvent)
  post : List LogEvent
  -- the kernel
  fresh : Kernel.Host
  begun : Kernel.Host
  executed : Kernel.Host
  finished : Kernel.Host
  earlier : List Kernel.LogRecord
  later : List Kernel.LogRecord
  blooms : List LogsBloom
  txStart : Nat
  fresh_empty : Kernel.retainedLogs fresh = []
  pre_run : Kernel.LogTrace env pre ⟨[[]], fresh⟩ ⟨[earlier], begun⟩
  block_run : BlockLogs env 0 begun traces blooms txStart executed
  post_run : Kernel.LogTrace env post ⟨[[]], executed⟩ ⟨[later], finished⟩
  indexed : (Kernel.retainedLogs finished).length ≤ Kernel.logStoreIndexBound
  -- the optimised host
  hostFresh : Host
  hostBegun : Host
  hostExecuted : Host
  outs : List BloomSpan
  words : BloomWords
  hostFresh_reachable : Reachable capacity [] hostFresh
  hostPre_run : LogTrace capacity pre ⟨[], hostFresh⟩ ⟨[], hostBegun⟩
  hostBlock_run : BlockBlooms capacity zkvmKeccak256 hostBegun traces outs words hostExecuted

variable {env : Kernel.Env} {capacity : Nat} {zkvmKeccak256 : List Byte → Option Hash}

/-- The logs bloom is additive over ranges.  The bloom of any range of the
store is the join of the three-bit blooms of its records; that of the
block's range, read after the last system call, is the join of the
receipts', which are those of the records that have survived; the spans
that the optimised host writes are the same blooms in wire order, and its
words compare with a header exactly as the block's bloom does.  A frame that
reverts leaves what would be left without it. -/
theorem logsBloom_additive (b : BloomedBlock env capacity zkvmKeccak256)
    (hkeccak : ∀ bytes digest, zkvmKeccak256 bytes = some digest → digest = env.keccak256 bytes) :
    (∀ s : Kernel.LogSeriesRef, s.start + s.count ≤ (Kernel.retainedLogs b.finished).length →
      ∀ bloom, Kernel.bloomAddLogs env.keccak256 b.finished bloom s =
        .ok (((s.records b.finished).flatMap (recordBlooms env.keccak256)).foldl logsBloomOr
          bloom)) ∧
      b.blooms = b.traces.map (fun events => logsBloomForLogs env.keccak256 (survivors events)) ∧
      b.outs.map Vector.toList = b.blooms.map (fun bloom => bloom.toList.reverse) ∧
      (∃ logsStart series, retainedLogsEnd 0 b.begun = .ok logsStart ∧
        blockLogSeries logsStart b.txStart b.executed = .ok series ∧
        series.records b.finished = (b.traces.map survivors).flatten ∧
        Kernel.bloomAddLogs env.keccak256 b.finished emptyLogsBloom series =
          .ok (b.blooms.foldl logsBloomOr emptyLogsBloom) ∧
        Accumulates b.words (b.blooms.foldl logsBloomOr emptyLogsBloom) ∧
        ∀ reference : LogsBloomRef,
          Kernel.blockLogsBloomMatches env.keccak256 b.finished series reference =
            .ok (receiptRuntimeBlockBloomMatches b.words reference.bytes)) ∧
      ∀ (before inner after : List LogEvent) (frame parent : List Kernel.LogRecord)
        (parents : List (List Kernel.LogRecord)),
        before.foldlM (fun emitted e => e.apply emitted) [[]] = some (parent :: parents) →
        inner.foldlM (fun emitted e => e.apply emitted) ([] :: parent :: parents) =
          some (frame :: parent :: parents) →
        survivors (before ++ .checkpoint :: (inner ++ .revert :: after)) =
          survivors (before ++ after) := by
  have hpre := b.pre_run.run.gains
  rw [b.fresh_empty, List.nil_append, ← b.pre_run.survivors_eq] at hpre
  have hbegun : Bounded (Kernel.retainedLogs b.begun) := hpre ▸ survivors_bounded b.pre
  have hfinished := b.post_run.run.gains
  rw [b.block_run.retained, ← b.post_run.survivors_eq] at hfinished
  have hall : Bounded (Kernel.retainedLogs b.finished) := by
    rw [hfinished]
    exact (hbegun.append (flatten_survivors_bounded b.traces)).append (survivors_bounded b.post)
  have hlength := congrArg List.length b.post_run.run.gains
  rw [List.length_append] at hlength
  have hindexed := b.indexed
  have hblooms := b.block_run.blooms_eq (by omega) hbegun
  obtain ⟨houts, hwords⟩ :=
    b.hostBlock_run.spec hkeccak (b.hostPre_run.reachable b.hostFresh_reachable)
  rw [← hblooms] at hwords
  refine ⟨fun s hs bloom => ?_, ?_, ?_, ?_, ?_⟩
  · rw [Kernel.bloomAddLogs_eq ⟨hs, b.indexed⟩ hall, foldl_logsBloomOr]
    rfl
  · rw [hblooms]
    exact List.map_congr_left fun events _ => (logsBloomForLogs_eq _ _).symm
  · rw [houts, hblooms, List.map_map]
    rfl
  · obtain ⟨logsStart, series, hstart, hseries, hrecords, hbloom⟩ :=
      b.block_run.bloom_eq (Nat.zero_le _) hbegun b.post_run b.indexed
    refine ⟨logsStart, series, hstart, hseries, hrecords, hbloom, hwords, fun reference => ?_⟩
    rw [Kernel.blockLogsBloomMatches, hbloom, ok_bind, receiptRuntimeBlockBloomMatches_eq hwords]
  · intro before inner after frame parent parents hbefore hinner
    exact Kernel.survivors_revert hbefore hinner

/-! ### A block with a reverted log -/

/-- Cancun, under a hash that is always zero. -/
def zeroHashed : Kernel.Env :=
  { profile := packProtocolProfile .cancun cancunBlobSchedule 24576 49152 sszUintBound sszUintBound
      6 5
    keccak256 := fun _ => zeroHash
    parentStateRoot := zeroHash
    statelessAccountByKey := fun _ _ => .ok Kernel.emptyAccount
    statelessStorageByKey := fun _ _ => .ok 0 }

/-- A kernel before its block. -/
def freshKernel : Kernel.Host :=
  { state :=
      { effects := Kernel.noEffects []
        warm := Kernel.coldWarm
        acctTxRows := []
        storageTxRows := []
        nextGeneration := ⟨Kernel.initialGeneration, Nat.le_refl Kernel.initialGeneration⟩
        block := { accounts := fun _ => none, storage := fun _ => none, storageRows := [] }
        bal := []
        codes := fun _ => none }
    journal := [] }

/-- A log survives, and one with a topic is reverted with its frame. -/
def revertedTrace : List LogEvent :=
  [.log 1 ⟨[], Nat.zero_le _⟩ [], .checkpoint, .log 2 ⟨[7], by decide⟩ [3], .revert]

theorem kernel_revertedTrace : ∃ h, Kernel.LogTrace zeroHashed revertedTrace
    ⟨[[]], Kernel.kTxReset freshKernel⟩ ⟨[[⟨1, [], []⟩]], h⟩ := by
  obtain ⟨h, hrevert⟩ : ∃ h, Kernel.stateJournalRevert (Kernel.logAppend ⟨2, [7], [3]⟩
      ((Kernel.logAppend ⟨1, [], []⟩ (Kernel.kTxReset freshKernel)).record .checkpointed)) =
        .ok h := ⟨_, rfl⟩
  exact ⟨h, .cons (.emit _) rfl (.cons (.enter rfl) rfl (.cons (.emit _) rfl
    (.cons (.revert hrevert) rfl (.nil _))))⟩

theorem host_revertedTrace : ∃ h₀ h, Reachable 8 [] h₀ ∧
    LogTrace 8 revertedTrace ⟨[], txReset 1 h₀⟩ ⟨[], h⟩ := by
  obtain ⟨h₀, h₁, h₂, h₃, h, hstart, hlog, hcheckpoint, hinner, hrevert⟩ :
      ∃ h₀ h₁ h₂ h₃ h, h₀ = { state := warmReset (initialState ⟨8, 8, 8, 8⟩) 0, journal := [] } ∧
        appendLog 8 (txReset 1 h₀) 1 [] [] = .ok h₁ ∧ stateJournalCheckpoint 8 h₁ = .ok h₂ ∧
        appendLog 8 h₂ 2 [7] [3] = .ok h₃ ∧ stateJournalRevert h₃ = .ok h :=
    ⟨_, _, _, _, _, rfl, rfl, rfl, rfl, rfl⟩
  refine ⟨h₀, h, ?_, .cons (.log hlog) (.cons (.checkpoint hcheckpoint) (.cons (.log hinner)
    (.cons (.revert hrevert) (.nil _))))⟩
  have hload : initializeBlockAccessListState ⟨8, 8, 8, 8⟩ [] = .ok (initialState ⟨8, 8, 8, 8⟩) :=
    rfl
  rw [hstart]
  exact .start 0 hload

/-- An accelerator that always answers lets every bloom be written. -/
theorem receiptRuntimeBloomWrite_answers (keccak256 : List Byte → Hash) (t : LogTable)
    (start count : Nat) (words : BloomWords) :
    ∃ out words', receiptRuntimeBloomWrite (fun bytes => some (keccak256 bytes)) t start count
      words = some (out, words') := by
  have hbytes : ∀ written bytes,
      bloomWriteBytes (fun bytes => some (keccak256 bytes)) written bytes =
      pure (bloomWriteDigest written (keccak256 bytes)) := fun _ _ => rfl
  have hrecord : ∀ written r, ∃ written',
      bloomWriteRecord (fun bytes => some (keccak256 bytes)) t written r = some written' := by
    intro written r
    simp only [bloomWriteRecord, hbytes, pure_bind, List.foldlM_pure]
    exact ⟨_, rfl⟩
  have hfold : ∀ (offsets : List Nat) (written : BloomSpan × BloomWords), ∃ written',
      offsets.foldlM (fun written offset => bloomWriteRecord (fun bytes => some (keccak256 bytes)) t
        written (logRecordAt t (start + offset))) written = some written' := by
    intro offsets
    induction offsets with
    | nil => exact fun written => ⟨written, rfl⟩
    | cons offset offsets ih =>
      intro written
      obtain ⟨written₁, hwritten⟩ := hrecord written (logRecordAt t (start + offset))
      rw [List.foldlM_cons, hwritten]
      exact ih written₁
  obtain ⟨⟨out, words'⟩, hwritten⟩ := hfold (List.range count) (emptyBloomSpan, words)
  exact ⟨out, words', hwritten⟩

/-- One transaction, whose frame with the second log is reverted. -/
theorem logsBloom_additive_reverted :
    ∃ b : BloomedBlock zeroHashed 8 (fun _ => some zeroHash), b.traces = [revertedTrace] ∧
      b.blooms = [logsBloomForLogs zeroHashed.keccak256 [⟨1, [], []⟩]] ∧
      b.outs.map Vector.toList = b.blooms.map (fun bloom => bloom.toList.reverse) := by
  obtain ⟨h, htrace⟩ := kernel_revertedTrace
  obtain ⟨o₀, o, hreach, hotrace⟩ := host_revertedTrace
  have hretained : Kernel.retainedLogs h = [⟨1, [], []⟩] := htrace.run.retained
  have hindexed : (Kernel.retainedLogs h).length ≤ Kernel.logStoreIndexBound := by
    rw [hretained]
    decide
  obtain ⟨bloom, hbloom⟩ : ∃ bloom, Kernel.bloomAddLogs zeroHashed.keccak256 h emptyLogsBloom
      (Kernel.readLogs (Kernel.retainedLogs freshKernel).length h) = .ok bloom := by
    refine ⟨_, Kernel.bloomAddLogs_eq ⟨?_, hindexed⟩ ?_ _⟩
    · rw [Kernel.readLogs, hretained]
      decide
    · rw [hretained]
      intro r hr
      rw [List.mem_singleton.mp hr]
      decide
  obtain ⟨out, words, hwrite⟩ := receiptRuntimeBloomWrite_answers (fun _ => zeroHash)
    o.state.logs (logsTxStart o.state.logs) (logsTxCount o.state.logs)
    receiptRuntimeBlockBloomReset
  let b : BloomedBlock zeroHashed 8 (fun _ => some zeroHash) :=
    { pre := []
      traces := [revertedTrace]
      post := []
      fresh := freshKernel
      begun := freshKernel
      executed := h
      finished := h
      earlier := []
      later := []
      blooms := [bloom]
      txStart := (Kernel.retainedLogs freshKernel).length
      fresh_empty := rfl
      pre_run := .nil _
      block_run := BlockLogs.start.transaction htrace hbloom
      post_run := .nil _
      indexed := hindexed
      hostFresh := o₀
      hostBegun := o₀
      hostExecuted := o
      outs := [out]
      words := words
      hostFresh_reachable := hreach
      hostPre_run := .nil _
      hostBlock_run := BlockBlooms.start.transaction 1 hotrace hwrite }
  obtain ⟨-, hblooms, houts, -⟩ := logsBloom_additive b fun bytes digest hdigest =>
    (Option.some.inj hdigest).symm
  exact ⟨b, rfl, hblooms.trans (congrArg (fun logs => [logsBloomForLogs _ logs])
    htrace.survivors_eq), houts⟩

end EvmSail.Optimised
