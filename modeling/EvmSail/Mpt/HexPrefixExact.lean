/-
# `EvmSail.Mpt.HexPrefixExact` — what the compact path decoder accepts

The decoder reads the content of an RLP string: the flag byte, then pairs of
nibbles.  Written paths are read back, with the size computed for them
(`hexPrefix_reads_back`).  Where the flag nibble is one of the four and the
padding nibble is zero, what is accepted is the encoding of what is returned
(`hexPrefixDecodeRef_canonical`); the empty string is accepted as well, as the
empty path of no leaf.
-/
import EvmSail.Mpt.HexPrefix
import EvmSail.Tx.CanonicalSound

namespace EvmSail

open Fallible

theorem packPairs_unpackNibbles (bs : List Byte) : packPairs (unpackNibbles bs) = bs := by
  induction bs with
  | nil => rfl
  | cons b bs ih => rw [unpackNibbles, packPairs, joinNibbles_high_low, ih]

section

variable {f : RlpFieldRef}

theorem hexPrefixDecodeRef_list (h : f.isList = true) :
    hexPrefixDecodeRef f = fatalError .rlpDecode := by
  rw [hexPrefixDecodeRef, if_pos h]

theorem hexPrefixDecodeRef_nil (hkind : f.isList = false) (hcontent : rlpItemContent f = []) :
    hexPrefixDecodeRef f = .ok (false, pathEmpty) := by
  have hlen := length_rlpItemContent f
  rw [hcontent, List.length_nil] at hlen
  rw [hexPrefixDecodeRef, if_neg (by simp [hkind])]
  dsimp only
  rw [if_pos hlen.symm]

/-- The decoder on a flag byte and the pairs behind it. -/
theorem hexPrefixDecodeRef_cons {fb : Byte} {tail : List Byte} (hkind : f.isList = false)
    (hcontent : rlpItemContent f = fb :: tail) :
    hexPrefixDecodeRef f =
      if 32 < tail.length then fatalError .rlpDecode
      else if (highNibble fb).val.testBit 0 then
        if tail.length < 32 then
          .ok ((highNibble fb).val.testBit 1, .ofNibbles (lowNibble fb :: unpackNibbles tail))
        else fatalError .witnessDeficient
      else .ok ((highNibble fb).val.testBit 1, .ofNibbles (unpackNibbles tail)) := by
  have hlen : f.contentLen = tail.length + 1 := by
    rw [← length_rlpItemContent, hcontent, List.length_cons]
  have hsub : subSlice f.source (f.source.length - f.contentLen) f.contentLen = fb :: tail :=
    hcontent
  have hunpack := length_unpackNibbles tail
  rw [hexPrefixDecodeRef, if_neg (by simp [hkind])]
  simp only [hsub]
  rw [if_neg (by omega)]
  by_cases hmax : 32 < tail.length
  · rw [dif_pos (by omega), if_pos hmax]
  · rw [dif_neg (by omega), if_neg hmax]
    simp only [sliceSuffix, List.drop_succ_cons, List.drop_zero, sliceByte,
      List.getElem?_cons_zero, Option.getD_some]
    by_cases hodd : (highNibble fb).val.testBit 0 = true
    · rw [if_pos hodd, if_pos hodd]
      by_cases hfull : tail.length < 32
      · rw [dif_pos (by omega), if_pos hfull]
        refine congrArg (fun p => Except.ok (_, p)) ((TriePath.eq_ofNibbles_iff ?_).mpr ?_)
        · rw [List.length_cons, hunpack]
          omega
        · exact nibbles_hexPrefixOddPath _
      · rw [dif_neg (by omega), if_neg hfull]
    · rw [if_neg hodd, if_neg hodd]
      refine congrArg (fun p => Except.ok (_, p)) ((TriePath.eq_ofNibbles_iff ?_).mpr ?_)
      · rw [hunpack]
        omega
      · exact nibbles_hexPrefixEvenPath _

/-- A flag byte the encoder writes: one of the four flags, and zero padding. -/
def FlagByte (fb : Byte) : Prop :=
  (highNibble fb).val ≤ 3 ∧ ((highNibble fb).val.testBit 0 = false → lowNibble fb = 0)

theorem flagNibble_even {x : Nibble} (hx : x.val ≤ 3) (h : x.val.testBit 0 = false) :
    x = hexPrefixFlag (x.val.testBit 1) := by
  revert x
  decide

theorem flagNibble_odd {x : Nibble} (hx : x.val ≤ 3) (h : x.val.testBit 0 = true) :
    x = hexPrefixFlag (x.val.testBit 1) + 1 := by
  revert x
  decide

theorem hexPrefixFlag_bits (leaf : Bool) :
    (hexPrefixFlag leaf).val.testBit 0 = false ∧ (hexPrefixFlag leaf).val.testBit 1 = leaf ∧
      (hexPrefixFlag leaf + 1).val.testBit 0 = true ∧
      (hexPrefixFlag leaf + 1).val.testBit 1 = leaf ∧
      (hexPrefixFlag leaf).val ≤ 3 ∧ (hexPrefixFlag leaf + 1).val ≤ 3 := by
  cases leaf <;> decide

/-- An even path behind its flag byte. -/
theorem hexPrefix_even {fb : Byte} {tail : List Byte} (h : FlagByte fb)
    (heven : (highNibble fb).val.testBit 0 = false) :
    hexPrefix (unpackNibbles tail) ((highNibble fb).val.testBit 1) = fb :: tail := by
  rw [hexPrefix, length_unpackNibbles, if_pos (Nat.mul_mod_right 2 _),
    ← flagNibble_even h.1 heven, packPairs_unpackNibbles, ← h.2 heven, joinNibbles_high_low]

/-- An odd path, its first nibble in the flag byte. -/
theorem hexPrefix_odd {fb : Byte} {tail : List Byte} (h : FlagByte fb)
    (hodd : (highNibble fb).val.testBit 0 = true) :
    hexPrefix (lowNibble fb :: unpackNibbles tail) ((highNibble fb).val.testBit 1) =
      fb :: tail := by
  rw [hexPrefix, List.length_cons, length_unpackNibbles, if_neg (by omega),
    ← flagNibble_odd h.1 hodd, List.tail_cons, packPairs_unpackNibbles, List.headD_cons,
    joinNibbles_high_low]

/-- The flag byte of an encoding, and its pairs. -/
theorem hexPrefix_cons (l : List Nibble) (leaf : Bool) :
    ∃ fb tail, hexPrefix l leaf = fb :: tail ∧ FlagByte fb ∧
      (highNibble fb).val.testBit 1 = leaf ∧
      if (highNibble fb).val.testBit 0 then l = lowNibble fb :: unpackNibbles tail
      else l = unpackNibbles tail := by
  obtain ⟨heven, hleaf, hodd, hleaf', hle, hle'⟩ := hexPrefixFlag_bits leaf
  rw [hexPrefix]
  by_cases hmod : l.length % 2 = 0
  · rw [if_pos hmod]
    refine ⟨_, _, rfl, ?_, ?_, ?_⟩
    · rw [FlagByte, highNibble_joinNibbles, lowNibble_joinNibbles]
      exact ⟨hle, fun _ => rfl⟩
    · rw [highNibble_joinNibbles, hleaf]
    · rw [highNibble_joinNibbles, heven, if_neg Bool.false_ne_true, unpackNibbles_packPairs hmod]
  · rw [if_neg hmod]
    refine ⟨_, _, rfl, ?_, ?_, ?_⟩
    · rw [FlagByte, highNibble_joinNibbles, lowNibble_joinNibbles, hodd]
      refine ⟨hle', ?_⟩
      intro h
      cases h
    · rw [highNibble_joinNibbles, hleaf']
    · rw [highNibble_joinNibbles, lowNibble_joinNibbles, hodd, if_pos rfl]
      cases l with
      | nil => exact absurd rfl hmod
      | cons x l =>
        rw [List.length_cons] at hmod
        rw [List.headD_cons, List.tail_cons, unpackNibbles_packPairs (by omega)]

/-- On contents with a flag byte of the encoder, what is accepted is the
encoding of what is returned. -/
theorem hexPrefixDecodeRef_canonical {fb : Byte} {tail : List Byte} (hkind : f.isList = false)
    (hcontent : rlpItemContent f = fb :: tail) (hflag : FlagByte fb) (leaf : Bool)
    (p : TriePath) :
    hexPrefixDecodeRef f = .ok (leaf, p) ↔ rlpItemContent f = hexPrefix p.nibbles leaf := by
  have hunpack := length_unpackNibbles tail
  rw [hexPrefixDecodeRef_cons hkind hcontent, hcontent]
  constructor
  · intro h
    split at h
    · cases h
    · rename_i hmax
      split at h
      · rename_i hodd
        split at h
        · obtain ⟨rfl, rfl⟩ := Prod.mk.inj (Except.ok.inj h)
          rw [TriePath.nibbles_ofNibbles (by rw [List.length_cons, hunpack]; omega),
            hexPrefix_odd hflag hodd]
        · cases h
      · rename_i hodd
        obtain ⟨rfl, rfl⟩ := Prod.mk.inj (Except.ok.inj h)
        rw [TriePath.nibbles_ofNibbles (by rw [hunpack]; omega),
          hexPrefix_even hflag (Bool.eq_false_iff.mpr hodd)]
  · intro h
    obtain ⟨fb', tail', hcons, _, hleaf, hpath⟩ := hexPrefix_cons p.nibbles leaf
    obtain ⟨rfl, rfl⟩ := List.cons.inj (h.trans hcons)
    have hle := p.length_nibbles_le
    rw [hleaf]
    split at hpath
    · rename_i hodd
      have hlen := congrArg List.length hpath
      rw [List.length_cons, hunpack] at hlen
      rw [if_neg (by omega), if_pos hodd, if_pos (by omega), ← hpath, TriePath.ofNibbles_nibbles]
    · rename_i hodd
      have hlen := congrArg List.length hpath
      rw [hunpack] at hlen
      rw [if_neg (by omega), if_neg hodd, ← hpath, TriePath.ofNibbles_nibbles]

end

/-- What the writer writes is a string that is read back as it was, and has the
size computed for it. -/
theorem hexPrefix_reads_back (p : TriePath) (leaf : Bool) :
    ∃ f, rlpSingleRef (rlpWriteHexPrefix p leaf) = .ok f ∧
      rlpItemContent f = hexPrefix p.nibbles leaf ∧ hexPrefixDecodeRef f = .ok (leaf, p) := by
  have hle := length_hexPrefix_le p.length_nibbles_le leaf
  refine ⟨bytesField (hexPrefix p.nibbles leaf), ?_, rlpItemContent_bytesField _, ?_⟩
  · rw [rlpWriteHexPrefix_eq]
    exact rlpSingleRef_eq_ok.mpr ⟨announced_bytesField hle, rfl⟩
  · rw [hexPrefixDecodeRef_hexPrefix p.length_nibbles_le, TriePath.ofNibbles_nibbles]

/-- Hex-prefix encodings are read back, have the computed size, and are what the
decoder accepts, the empty string apart. -/
theorem hexPrefix_exact :
    (∀ (p : TriePath) (leaf : Bool),
      (∃ f, rlpSingleRef (rlpWriteHexPrefix p leaf) = .ok f ∧
        rlpItemContent f = hexPrefix p.nibbles leaf ∧ hexPrefixDecodeRef f = .ok (leaf, p)) ∧
      (rlpWriteHexPrefix p leaf).length = rlpHexPrefixSize p leaf ∧
      (hexPrefix p.nibbles leaf).length = hexPrefixEncodedLength p) ∧
    (∀ f : RlpFieldRef, f.isList = true → hexPrefixDecodeRef f = fatalError .rlpDecode) ∧
    (∀ f : RlpFieldRef, f.isList = false → rlpItemContent f = [] →
      hexPrefixDecodeRef f = .ok (false, pathEmpty)) ∧
    ∀ (f : RlpFieldRef) (fb : Byte) (tail : List Byte), f.isList = false →
      rlpItemContent f = fb :: tail → FlagByte fb →
      ∀ (leaf : Bool) (p : TriePath), hexPrefixDecodeRef f = .ok (leaf, p) ↔
        rlpItemContent f = hexPrefix p.nibbles leaf := by
  refine ⟨fun p leaf => ⟨hexPrefix_reads_back p leaf, ?_, ?_⟩, fun f => hexPrefixDecodeRef_list,
    fun f => hexPrefixDecodeRef_nil, fun f fb tail hkind hcontent hflag leaf p =>
      hexPrefixDecodeRef_canonical hkind hcontent hflag leaf p⟩
  · rw [rlpWriteHexPrefix_eq, rlpHexPrefixSize_eq]
  · rw [length_hexPrefix, hexPrefixEncodedLength, pathLen_eq]

/-- The empty string is no encoding, and is accepted. -/
theorem hexPrefix_acceptsEmpty :
    ¬ ∀ f : RlpFieldRef, (∃ leaf p, hexPrefixDecodeRef f = .ok (leaf, p)) ↔
      f.isList = false ∧ ∃ (p : TriePath) (leaf : Bool),
        rlpItemContent f = hexPrefix p.nibbles leaf := by
  intro h
  obtain ⟨_, p, leaf, hcontent⟩ := (h (bytesField [])).mp
    ⟨false, pathEmpty, hexPrefixDecodeRef_nil rfl (rlpItemContent_bytesField [])⟩
  have hlen := congrArg List.length hcontent
  rw [rlpItemContent_bytesField, length_hexPrefix, List.length_nil] at hlen
  omega

end EvmSail
