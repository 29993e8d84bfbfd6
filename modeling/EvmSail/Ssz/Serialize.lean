/-
# `EvmSail.Ssz.Serialize` — the serialization of containers and lists

An SSZ container is serialized as its fixed part followed by its regions:
a fixed field stands in the fixed part itself, a region is announced there
by the offset at which it starts.  `Tiled` says the same of a given byte
string: the offsets at the given positions are those of the given regions,
and the regions follow the fixed part without a gap, an overlap or a
trailing byte.  A decoder that takes the regions of a container one after
the other up to its end accepts only tiled containers (`TiledFrom.take`,
`TiledFrom.finish`), and a tiled container is the serialization of its
fields (`Tiled.serialize_eq`).
-/
import EvmSail.Ssz.StatelessInput

namespace EvmSail

open Fallible

/-! ## Offsets -/

/-- The little-endian bytes of an offset. -/
def u32Bytes (n : Nat) : List Byte :=
  [BitVec.ofNat 8 n, BitVec.ofNat 8 (n / 2 ^ 8), BitVec.ofNat 8 (n / 2 ^ 16),
    BitVec.ofNat 8 (n / 2 ^ 24)]

theorem toNat_zeroExtend_shiftLeft (b : Byte) {k : Nat} (hk : k ≤ 24) :
    (b.zeroExtend 32 <<< k).toNat = 2 ^ k * b.toNat := by
  have hb := b.isLt
  have hpow : 2 ^ k ≤ 2 ^ 24 := Nat.pow_le_pow_right (by omega) hk
  have hmul : 2 ^ k * b.toNat ≤ 2 ^ 24 * b.toNat := Nat.mul_le_mul_right _ hpow
  have hmod : b.toNat % 2 ^ 32 = b.toNat := Nat.mod_eq_of_lt (by omega)
  rw [BitVec.toNat_shiftLeft, BitVec.toNat_setWidth, Nat.shiftLeft_eq, hmod, Nat.mul_comm,
    Nat.mod_eq_of_lt (by omega)]

theorem sszU32At_horner (input : List Byte) (offset : Nat) :
    sszU32At input offset = (sliceByte input offset).toNat +
      2 ^ 8 * ((sliceByte input (offset + 1)).toNat +
        2 ^ 8 * ((sliceByte input (offset + 2)).toNat +
          2 ^ 8 * (sliceByte input (offset + 3)).toNat)) := by
  rw [sszU32At]
  generalize sliceByte input offset = b0
  generalize sliceByte input (offset + 1) = b1
  generalize sliceByte input (offset + 2) = b2
  generalize sliceByte input (offset + 3) = b3
  have h0 := b0.isLt
  have h1 := b1.isLt
  have h2 := b2.isLt
  have h3 := b3.isLt
  rw [BitVec.toNat_or, BitVec.toNat_or, BitVec.toNat_or,
    toNat_zeroExtend_shiftLeft b1 (by omega), toNat_zeroExtend_shiftLeft b2 (by omega),
    toNat_zeroExtend_shiftLeft b3 (by omega), BitVec.toNat_setWidth, Nat.mod_eq_of_lt (by omega)]
  have hhigh : 2 ^ 16 * b2.toNat ||| 2 ^ 24 * b3.toNat =
      2 ^ 16 * (2 ^ 8 * b3.toNat + b2.toNat) := by
    rw [Nat.or_comm, ← Nat.two_pow_add_eq_or_of_lt (by omega)]
    omega
  have hnonzero : 2 ^ 8 * b1.toNat ||| 2 ^ 16 * (2 ^ 8 * b3.toNat + b2.toNat) =
      2 ^ 8 * (2 ^ 8 * (2 ^ 8 * b3.toNat + b2.toNat) + b1.toNat) := by
    rw [Nat.or_comm, ← Nat.two_pow_add_eq_or_of_lt (by omega)]
    omega
  rw [hhigh, hnonzero, Nat.or_comm, ← Nat.two_pow_add_eq_or_of_lt (by omega)]
  omega

/-- The four bytes of an offset. -/
theorem u32Bytes_sszU32At {input : List Byte} {offset : Nat} (h : offset + 4 ≤ input.length) :
    u32Bytes (sszU32At input offset) = subSlice input offset 4 := by
  have hbytes : subSlice input offset 4 = [sliceByte input offset, sliceByte input (offset + 1),
      sliceByte input (offset + 2), sliceByte input (offset + 3)] := by
    have hdrop : ∀ i, i < input.length →
        input.drop i = sliceByte input i :: input.drop (i + 1) := by
      intro i hi
      rw [List.drop_eq_getElem_cons hi, sliceByte, List.getElem?_eq_getElem hi]
      rfl
    rw [subSlice, hdrop _ (by omega), hdrop _ (by omega), hdrop _ (by omega), hdrop _ (by omega)]
    rfl
  rw [hbytes, sszU32At_horner, u32Bytes]
  generalize sliceByte input offset = b0
  generalize sliceByte input (offset + 1) = b1
  generalize sliceByte input (offset + 2) = b2
  generalize sliceByte input (offset + 3) = b3
  have h0 := b0.isLt
  have h1 := b1.isLt
  have h2 := b2.isLt
  have h3 := b3.isLt
  have hbyte : ∀ (n : Nat) (b : Byte), n % 256 = b.toNat → BitVec.ofNat 8 n = b := by
    intro n b hn
    exact BitVec.eq_of_toNat_eq (by rw [BitVec.toNat_ofNat]; exact hn)
  rw [hbyte _ b0 (by omega), hbyte _ b1 (by omega), hbyte _ b2 (by omega), hbyte _ b3 (by omega)]

/-! ## Tiled containers -/

/-- The offsets of consecutive regions of which the first begins at `start`. -/
def runningOffsets : Nat → List (List Byte) → List Nat
  | _, [] => []
  | start, r :: rs => start :: runningOffsets (start + r.length) rs

/-- From `start` on the container is the given regions, and they begin at
the given offsets. -/
structure TiledFrom (container : List Byte) (start : Nat) (offsets : List Nat)
    (regions : List (List Byte)) : Prop where
  inside : start ≤ container.length
  offsets : offsets = runningOffsets start regions
  tail : container.drop start = regions.flatten

/-- The container is a fixed part, with an offset at each of the given
positions, and behind it the regions that these offsets announce. -/
def Tiled (container : List Byte) (fixedLength : Nat) (positions : List Nat)
    (regions : List (List Byte)) : Prop :=
  TiledFrom container fixedLength (positions.map (sszU32At container)) regions

namespace TiledFrom

variable {container : List Byte} {start stop : Nat} {offsets : List Nat}
  {regions : List (List Byte)} {region : List Byte}

/-- What is left behind the last offset is the last region. -/
theorem finish (h : sszFinish ⟨container, start⟩ = .ok region) :
    TiledFrom container start [start] [region] := by
  rw [sszFinish] at h
  split at h
  · rename_i hle
    cases h
    refine ⟨hle, rfl, ?_⟩
    rw [subSlice, List.flatten_singleton, List.take_of_length_le]
    exact Nat.le_of_eq (List.length_drop)
  · cases h

/-- A region, and what follows it. -/
theorem take {cursor : SszContainerCursor}
    (h : sszTake ⟨container, start⟩ stop = .ok (region, cursor)) :
    cursor = ⟨container, stop⟩ ∧
      (TiledFrom container stop offsets regions →
        TiledFrom container start (start :: offsets) (region :: regions)) := by
  rw [sszTake] at h
  split at h
  · rename_i hcond
    obtain ⟨hle, hstop⟩ := hcond
    cases h
    refine ⟨rfl, ?_⟩
    rintro ⟨hin, hoff, htail⟩
    have hsub : (container.drop start).take (stop - start) ++ container.drop stop =
        container.drop start := by
      have hsplit := List.take_append_drop (stop - start) (container.drop start)
      rwa [List.drop_drop, Nat.add_sub_cancel' hle] at hsplit
    have hlen : start + (subSlice container start (stop - start)).length = stop := by
      rw [subSlice, List.length_take, List.length_drop, Nat.min_eq_left (by omega)]
      exact Nat.add_sub_cancel' hle
    refine ⟨hle.trans hstop, ?_, ?_⟩
    · rw [runningOffsets, hlen, hoff]
    · rw [List.flatten_cons, ← htail]
      exact hsub.symm
  · cases h

end TiledFrom

/-! ## Serialization -/

/-- A field of a container: the bytes of a fixed field, or a region. -/
inductive SszField where
  | fixed (bytes : List Byte)
  | region (bytes : List Byte)

/-- The number of bytes a field takes in the fixed part. -/
def SszField.width : SszField → Nat
  | .fixed bytes => bytes.length
  | .region _ => 4

def fixedWidth (fields : List SszField) : Nat := (fields.map SszField.width).sum

/-- The fixed part of a container whose first region begins at `start`. -/
def fixedPart : Nat → List SszField → List Byte
  | _, [] => []
  | start, .fixed bytes :: fields => bytes ++ fixedPart start fields
  | start, .region bytes :: fields => u32Bytes start ++ fixedPart (start + bytes.length) fields

/-- The regions of a container, in their order. -/
def regionsOf : List SszField → List (List Byte)
  | [] => []
  | .fixed _ :: fields => regionsOf fields
  | .region bytes :: fields => bytes :: regionsOf fields

/-- The serialization of a container. -/
def serialize (fields : List SszField) : List Byte :=
  fixedPart (fixedWidth fields) fields ++ (regionsOf fields).flatten

/-- The positions of the offsets in a fixed part that begins at `position`. -/
def offsetPositions : Nat → List SszField → List Nat
  | _, [] => []
  | position, .fixed bytes :: fields => offsetPositions (position + bytes.length) fields
  | position, .region _ :: fields => position :: offsetPositions (position + 4) fields

/-- The fixed fields stand in the container, from `position` on. -/
def FixedAt (container : List Byte) : Nat → List SszField → Prop
  | _, [] => True
  | position, .fixed bytes :: fields =>
    subSlice container position bytes.length = bytes ∧
      FixedAt container (position + bytes.length) fields
  | position, .region _ :: fields => FixedAt container (position + 4) fields

theorem subSlice_add (s : List Byte) (off m n : Nat) :
    subSlice s off (m + n) = subSlice s off m ++ subSlice s (off + m) n := by
  rw [subSlice, subSlice, subSlice, List.take_add, List.drop_drop]

/-- The fixed part that is computed is the one that was read. -/
theorem fixedPart_eq {container : List Byte} :
    ∀ {fields : List SszField} {position start : Nat},
      position + fixedWidth fields ≤ container.length →
      (offsetPositions position fields).map (sszU32At container) =
        runningOffsets start (regionsOf fields) →
      FixedAt container position fields →
      fixedPart start fields = subSlice container position (fixedWidth fields) := by
  intro fields
  induction fields with
  | nil =>
    intro position start _ _ _
    exact (List.take_zero).symm
  | cons field fields ih =>
    intro position start hin hoff hfixed
    have hwidth : fixedWidth (field :: fields) = field.width + fixedWidth fields := List.sum_cons
    rw [hwidth] at hin
    cases field with
    | fixed bytes =>
      obtain ⟨hbytes, hrest⟩ := hfixed
      have hrec := ih (by rw [SszField.width] at hin; omega) hoff hrest
      rw [fixedPart, hrec, hwidth, SszField.width, subSlice_add, hbytes]
    | region bytes =>
      obtain ⟨hhead, htail⟩ := List.cons_eq_cons.mp hoff
      have hrec := ih (by rw [SszField.width] at hin; omega) htail hfixed
      have hfour : position + 4 ≤ container.length := by
        rw [SszField.width] at hin
        omega
      rw [fixedPart, hrec, hwidth, SszField.width, subSlice_add, ← u32Bytes_sszU32At hfour, hhead]

/-- A tiled container is the serialization of its fields. -/
theorem Tiled.serialize_eq {container : List Byte} {fields : List SszField}
    (h : Tiled container (fixedWidth fields) (offsetPositions 0 fields) (regionsOf fields))
    (hfixed : FixedAt container 0 fields) : serialize fields = container := by
  have hhead := fixedPart_eq (by rw [Nat.zero_add]; exact h.inside) h.offsets hfixed
  rw [serialize, hhead, ← h.tail]
  exact List.take_append_drop _ _

end EvmSail
