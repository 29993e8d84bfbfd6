/-
# `EvmSail.Mpt.KeyValueMap` — finite maps and the updates applied to them

The finite maps a trie commits to: 32-byte keys, byte-string values.  The
trie of a map is the trie of its entries under the 64 nibbles of their
keys; applying updates one after the other, in their own terms (`insert`,
`erase`), is what `updatedTrie` says in terms of the trie.
-/
import EvmSail.Mpt.WalkerSound

namespace EvmSail

open Radix

/-! ## Maps -/

/-- A finite map from 32-byte keys to byte strings. -/
abbrev KeyValueMap := AList fun _ : B256 => List Byte

/-- The full path of a key. -/
def keyPath (k : B256) : TriePath where
  data := k
  len := 64
  len_le := Nat.le_refl 64
  padding := fun _ hi => b256Nibble_of_le hi

@[simp] theorem length_keyPath (k : B256) : (keyPath k).nibbles.length = 64 :=
  (keyPath k).length_nibbles

/-- Full paths are the paths of keys. -/
theorem eq_keyPath {p : TriePath} (h : p.nibbles.length = 64) : p = keyPath p.data := by
  rw [p.length_nibbles] at h
  cases p
  cases h
  rfl

theorem keyPath_nibbles_inj {k k' : B256} :
    (keyPath k).nibbles = (keyPath k').nibbles ↔ k = k' :=
  ⟨fun h => congrArg TriePath.data (TriePath.eq_of_nibbles h), fun h => h ▸ rfl⟩

theorem exists_keyPath {l : List Nibble} (h : l.length = 64) : ∃ k, l = (keyPath k).nibbles := by
  have hp : (TriePath.ofNibbles l).nibbles = l := TriePath.nibbles_ofNibbles (by omega)
  exact ⟨(TriePath.ofNibbles l).data, by rw [← eq_keyPath (by rw [hp, h]), hp]⟩

/-- The entries of a map under their nibble keys. -/
def trieEntries (M : KeyValueMap) : List (List Nibble × List Byte) :=
  M.entries.map fun e => ((keyPath e.1).nibbles, e.2)

/-- The canonical trie of a map. -/
def mapTrie (M : KeyValueMap) : NibbleTrie := build 64 (trieEntries M)

/-- The canonical root of a map. -/
def mapRoot (keccak256 : List Byte → Hash) (M : KeyValueMap) : Hash :=
  canonicalRoot keccak256 (trieEntries M)

theorem mapRoot_eq (keccak256 : List Byte → Hash) (M : KeyValueMap) :
    mapRoot keccak256 M = trieCommitment keccak256 (mapTrie M) := rfl

theorem entries_trieEntries (M : KeyValueMap) : Entries 64 (trieEntries M) where
  length := by
    intro e he
    obtain ⟨s, _, rfl⟩ := List.mem_map.mp he
    exact length_keyPath s.1
  nodup := by
    have hnodup : (M.entries.map Sigma.fst).Nodup := M.nodupKeys
    rw [trieEntries, List.map_map,
      show (Prod.fst ∘ fun e : Sigma fun _ : B256 => List Byte => ((keyPath e.1).nibbles, e.2)) =
        (fun k => (keyPath k).nibbles) ∘ Sigma.fst from rfl, ← List.map_map]
    exact hnodup.map fun _ _ h => keyPath_nibbles_inj.mp h

theorem lookup_map_keyPath (l : List (Sigma fun _ : B256 => List Byte)) (k : B256) :
    (l.map fun e => ((keyPath e.1).nibbles, e.2)).lookup (keyPath k).nibbles = l.dlookup k := by
  induction l with
  | nil => rfl
  | cons e l ih =>
    rw [List.map_cons, List.lookup_cons]
    by_cases hk : k = e.1
    · subst hk
      rw [beq_self_eq_true, List.dlookup_cons_eq]
    · rw [beq_false_of_ne fun h => hk (keyPath_nibbles_inj.mp h), List.dlookup_cons_ne _ _ hk]
      exact ih

theorem lookup_trieEntries (M : KeyValueMap) (k : B256) :
    (trieEntries M).lookup (keyPath k).nibbles = M.lookup k :=
  lookup_map_keyPath M.entries k

theorem canonical_mapTrie (M : KeyValueMap) : (mapTrie M).Canonical 64 :=
  (build_spec (entries_trieEntries M)).1

theorem lookup_mapTrie (M : KeyValueMap) (k : B256) :
    (mapTrie M).lookup (keyPath k).nibbles = M.lookup k := by
  rw [mapTrie, (build_spec (entries_trieEntries M)).2 _ (length_keyPath k), lookup_trieEntries]

/-- A canonical trie with the values of a map is the trie of that map. -/
theorem eq_mapTrie {M : KeyValueMap} {t : NibbleTrie} (ht : t.Canonical 64)
    (h : ∀ k, t.lookup (keyPath k).nibbles = M.lookup k) : t = mapTrie M := by
  refine ht.ext_lookup (canonical_mapTrie M) fun l hl => ?_
  obtain ⟨k, rfl⟩ := exists_keyPath hl
  rw [h, lookup_mapTrie]

/-- Values that leave room for the framing of their leaf. -/
def MapFits (M : KeyValueMap) : Prop := ∀ k v, M.lookup k = some v → ValueFits v

theorem fits_mapTrie {M : KeyValueMap} (h : MapFits M) : TrieFits (mapTrie M) := by
  refine .of_canonical (canonical_mapTrie M) (Nat.le_refl 64) fun l v hl => ?_
  have hlen : l.length = 64 := by
    by_contra hne
    rw [(canonical_mapTrie M).lookup_eq_none hne] at hl
    cases hl
  obtain ⟨k, rfl⟩ := exists_keyPath hlen
  rw [lookup_mapTrie] at hl
  exact h k v hl

/-! ## Updates -/

/-- One update applied to a map. -/
def applyUpdate (M : KeyValueMap) (u : TrieUpdate) : KeyValueMap :=
  match u.change with
  | .triePut value => M.insert u.key.data value
  | .trieDelete => M.erase u.key.data

/-- Updates applied one after the other. -/
def applyUpdates (M : KeyValueMap) (U : List TrieUpdate) : KeyValueMap := U.foldl applyUpdate M

theorem lookup_applyUpdate_self (M : KeyValueMap) (u : TrieUpdate) :
    (applyUpdate M u).lookup u.key.data = applyChange (some u.change) (M.lookup u.key.data) := by
  unfold applyUpdate
  cases u.change with
  | triePut value => exact AList.lookup_insert M
  | trieDelete => exact AList.lookup_erase u.key.data M

theorem lookup_applyUpdate_ne (M : KeyValueMap) {u : TrieUpdate} {k : B256}
    (h : k ≠ u.key.data) : (applyUpdate M u).lookup k = M.lookup k := by
  rw [applyUpdate]
  cases u.change with
  | triePut value => exact AList.lookup_insert_ne h
  | trieDelete => exact AList.lookup_erase_ne h

theorem changeAt_cons (u : TrieUpdate) (U : List TrieUpdate) (K : List Nibble) :
    changeAt (u :: U) K = if u.key.nibbles = K then some u.change else changeAt U K := by
  by_cases h : u.key.nibbles = K
  · rw [changeAt, List.find?_cons_of_pos (by simpa using h), if_pos h]
    rfl
  · rw [changeAt, List.find?_cons_of_neg (by simpa using h), if_neg h, changeAt]

/-- The value of a key after ascending updates is decided by the one
update of that key. -/
theorem lookup_applyUpdates {U : List TrieUpdate} (hU : Ascending U) (M : KeyValueMap)
    (k : B256) :
    (applyUpdates M U).lookup k =
      applyChange (changeAt U (keyPath k).nibbles) (M.lookup k) := by
  induction U generalizing M with
  | nil => rfl
  | cons u U ih =>
    have hkey := eq_keyPath (hU.full u (List.mem_cons_self ..))
    rw [applyUpdates, List.foldl_cons, ← applyUpdates, ih hU.tail, changeAt_cons]
    by_cases hk : u.key.data = k
    · subst hk
      have hnone : changeAt U (keyPath u.key.data).nibbles = none := by
        rw [changeAt, List.find?_eq_none.mpr]
        · rfl
        · intro s hs hsk
          have hlt := (List.pairwise_cons.mp hU.sorted).1 s hs
          rw [decide_eq_true_eq.mp hsk, hkey] at hlt
          exact lt_irrefl _ hlt
      rw [hnone, if_pos (congrArg TriePath.nibbles hkey)]
      exact lookup_applyUpdate_self M u
    · have hne : u.key.nibbles ≠ (keyPath k).nibbles := by
        rw [hkey, ne_eq, keyPath_nibbles_inj]
        exact hk
      rw [if_neg hne, lookup_applyUpdate_ne M fun h => hk h.symm]

/-- Applying the updates to the trie is applying them to the map. -/
theorem updatedTrie_mapTrie {U : List TrieUpdate} (hU : Ascending U) (M : KeyValueMap) :
    updatedTrie U [] 64 (mapTrie M) = mapTrie (applyUpdates M U) := by
  refine eq_mapTrie (canonical_updatedTrie ..) fun k => ?_
  rw [updatedTrie, Trie.lookup_ofMap (length_keyPath k), updated, List.nil_append, lookup_mapTrie,
    lookup_applyUpdates hU]

end EvmSail
