/-
# `EvmSail.Mpt.PathLaws` — packed paths are nibble lists

The operations on packed paths are those on lists: concatenation is
associative with the empty path as its unit, dropping undoes it from the
front, and the common prefix is the longest one.  The data of a path is that of
its nibbles and nothing else (`TriePath.data_eq`), so equal lists have equal
representations.
-/
import EvmSail.Mpt.Path

namespace EvmSail

open Fallible Radix

/-- The packed data is that of the nibbles, with zeros behind them. -/
theorem TriePath.data_eq (p : TriePath) : p.data = packNibbles p.nibbles :=
  b256_eq_of_nibbles fun i hi => by rw [p.b256Nibble_data, b256Nibble_packNibbles hi]

theorem pathConcat_ok {a b : TriePath} (h : a.nibbles.length + b.nibbles.length ≤ 64) :
    ∃ ab, pathConcat a b = .ok ab ∧ ab.nibbles = a.nibbles ++ b.nibbles := by
  refine ⟨.ofNibbles (a.nibbles ++ b.nibbles), ?_, TriePath.nibbles_ofNibbles ?_⟩
  · rw [pathConcat_eq, if_pos h]
  · rw [List.length_append]
    exact h

theorem pathConcat_assoc {a b c ab bc : TriePath}
    (h : a.nibbles.length + b.nibbles.length + c.nibbles.length ≤ 64)
    (hab : pathConcat a b = .ok ab) (hbc : pathConcat b c = .ok bc) :
    ∃ abc, pathConcat ab c = .ok abc ∧ pathConcat a bc = .ok abc ∧
      abc.nibbles = a.nibbles ++ b.nibbles ++ c.nibbles := by
  obtain ⟨ab', hab', habNibbles⟩ := pathConcat_ok (a := a) (b := b) (by omega)
  obtain ⟨bc', hbc', hbcNibbles⟩ := pathConcat_ok (a := b) (b := c) (by omega)
  obtain rfl : ab = ab' := Except.ok.inj (hab.symm.trans hab')
  obtain rfl : bc = bc' := Except.ok.inj (hbc.symm.trans hbc')
  obtain ⟨left, hleft, hleftNibbles⟩ := pathConcat_ok (a := ab) (b := c)
    (by rw [habNibbles, List.length_append]; exact h)
  obtain ⟨right, hright, hrightNibbles⟩ := pathConcat_ok (a := a) (b := bc)
    (by rw [hbcNibbles, List.length_append]; omega)
  rw [habNibbles] at hleftNibbles
  rw [hbcNibbles, ← List.append_assoc] at hrightNibbles
  obtain rfl : left = right := TriePath.eq_of_nibbles (hleftNibbles.trans hrightNibbles.symm)
  exact ⟨left, hleft, hright, hleftNibbles⟩

theorem pathConcat_empty (a : TriePath) :
    pathConcat a pathEmpty = .ok a ∧ pathConcat pathEmpty a = .ok a := by
  have hle := a.length_nibbles_le
  constructor
  · rw [pathConcat_eq, nibbles_pathEmpty, List.length_nil, if_pos (by omega), List.append_nil,
      TriePath.ofNibbles_nibbles]
  · rw [pathConcat_eq, nibbles_pathEmpty, List.length_nil, if_pos (by omega), List.nil_append,
      TriePath.ofNibbles_nibbles]

/-- A concatenation is taken apart at the length of its first part. -/
theorem pathConcat_parts {a b ab : TriePath} (h : pathConcat a b = .ok ab) :
    pathDrop ab (pathLen a) = .ok b ∧ pathPrefixOf a ab = true ∧
      ab.nibbles.take (pathLen a) = a.nibbles ∧ pathLen ab = pathLen a + pathLen b := by
  have hlen := length_pathConcat h
  obtain ⟨ab', hab', hnibbles⟩ := pathConcat_ok (a := a) (b := b)
    (hlen.symm.trans_le ab.length_nibbles_le)
  obtain rfl : ab = ab' := Except.ok.inj (h.symm.trans hab')
  refine ⟨?_, ?_, ?_, ?_⟩
  · rw [pathDrop_eq, pathLen_eq, hnibbles, List.drop_left, TriePath.ofNibbles_nibbles]
  · rw [pathPrefixOf_eq, hnibbles, decide_eq_true (List.prefix_append _ _)]
  · rw [pathLen_eq, hnibbles, List.take_left]
  · rw [pathLen_eq, pathLen_eq, pathLen_eq, hlen]

/-- The common prefix is the longest one. -/
theorem prefix_commonPrefixLength {a b : TriePath} {l : List Nibble} :
    l <+: a.nibbles.take (commonPrefixLength a b) ↔ l <+: a.nibbles ∧ l <+: b.nibbles := by
  have hpre : lcp a.nibbles b.nibbles <+: a.nibbles := (prefix_lcp.mp (List.prefix_refl _)).1
  rw [commonPrefixLength_eq, ← List.prefix_iff_eq_take.mp hpre, prefix_lcp]

theorem pathEq_iff {a b : TriePath} : pathEq a b = true ↔ a.nibbles = b.nibbles := by
  rw [pathEq_eq, decide_eq_true_iff]

/-- The laws of lists, for every path the operations can make. -/
theorem pathAlgebra_lists :
    (∀ a b c : TriePath, pathLen a + pathLen b + pathLen c ≤ 64 →
      ∃ ab bc abc, pathConcat a b = .ok ab ∧ pathConcat b c = .ok bc ∧
        pathConcat ab c = .ok abc ∧ pathConcat a bc = .ok abc) ∧
    (∀ a : TriePath, pathConcat a pathEmpty = .ok a ∧ pathConcat pathEmpty a = .ok a) ∧
    (∀ a b : TriePath, pathLen a + pathLen b ≤ 64 →
      ∃ ab, pathConcat a b = .ok ab ∧ ab.nibbles = a.nibbles ++ b.nibbles ∧
        pathDrop ab (pathLen a) = .ok b ∧ pathPrefixOf a ab = true ∧
        ab.nibbles.take (pathLen a) = a.nibbles ∧ pathLen ab = pathLen a + pathLen b) ∧
    (∀ a b : TriePath, commonPrefixLength a b ≤ pathLen a ∧ commonPrefixLength a b ≤ pathLen b ∧
      ∀ l, l <+: a.nibbles.take (commonPrefixLength a b) ↔ l <+: a.nibbles ∧ l <+: b.nibbles) ∧
    (∀ p : TriePath, (∀ i, pathLen p ≤ i → b256Nibble p.data i = 0) ∧
      p.data = packNibbles p.nibbles) ∧
    ∀ a b : TriePath, (a.data = b.data ∧ a.len = b.len ↔ a.nibbles = b.nibbles) ∧
      (pathEq a b = true ↔ a.nibbles = b.nibbles) := by
  refine ⟨fun a b c h => ?_, pathConcat_empty, fun a b h => ?_, fun a b => ⟨?_, ?_, fun l =>
    prefix_commonPrefixLength⟩, fun p => ⟨p.padding, p.data_eq⟩, fun a b => ⟨?_, pathEq_iff⟩⟩
  · rw [pathLen_eq, pathLen_eq, pathLen_eq] at h
    obtain ⟨ab, hab, _⟩ := pathConcat_ok (a := a) (b := b) (by omega)
    obtain ⟨bc, hbc, _⟩ := pathConcat_ok (a := b) (b := c) (by omega)
    obtain ⟨abc, hleft, hright, _⟩ := pathConcat_assoc h hab hbc
    exact ⟨ab, bc, abc, hab, hbc, hleft, hright⟩
  · rw [pathLen_eq, pathLen_eq] at h
    obtain ⟨ab, hab, hnibbles⟩ := pathConcat_ok h
    exact ⟨ab, hab, hnibbles, pathConcat_parts hab⟩
  · rw [commonPrefixLength_eq, pathLen_eq]
    exact (prefix_lcp.mp (List.prefix_refl _)).1.length_le
  · rw [commonPrefixLength_eq, pathLen_eq]
    exact (prefix_lcp.mp (List.prefix_refl _)).2.length_le
  · constructor
    · rintro ⟨hdata, hlen⟩
      rw [TriePath.nibbles, TriePath.nibbles, hdata, hlen]
    · intro hnibbles
      rw [TriePath.eq_of_nibbles hnibbles]
      exact ⟨rfl, rfl⟩

end EvmSail
