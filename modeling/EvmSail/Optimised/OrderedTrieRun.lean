/-
# `EvmSail.Optimised.OrderedTrieRun` — whole builds of the ordered builder

A build adds the entries in order and finalizes the root.  Where the keys
ascend and none is a prefix of another, the frames stay open on the path of
the next key all along, so the root is that of the trie of the entries; where
they do not, the entry before the first such key is rejected.

The indexed tries are driven by a function from positions to list indices:
it is a permutation that puts `rlp(i)` in order.
-/
import EvmSail.Optimised.OrderedTrieRoot

namespace EvmSail.Optimised

open Fallible Radix

section

variable {keccak256 : List Byte → Hash} {scratchTop : Nat} {J : List (List Nibble × List Byte)}
  {a : List Nibble} {v : List Byte} {builder : OrderedTrieBuilder}

/-- A leaf at a path. -/
def leafEntry (e : List Nibble × List Byte) : TrieEntry := ⟨e.1, .leaf e.2⟩

/-- Keys that can be added in this order. -/
structure InOrder (scratchTop : Nat) (J : List (List Nibble × List Byte)) : Prop where
  ascending : J.Pairwise fun e e' => Precedes e.1 e'.1
  length : ∀ e ∈ J, e.1.length ≤ 64
  fits : ∀ e ∈ J, LeafFits scratchTop e.2

theorem InOrder.prefixFree (h : InOrder scratchTop J) : PrefixFree 64 J :=
  ⟨h.length, h.ascending.imp fun hprecedes => hprecedes.incomparable⟩

theorem InOrder.start {J' : List (List Nibble × List Byte)} (h : InOrder scratchTop (J ++ J')) :
    InOrder scratchTop J where
  ascending := (List.pairwise_append.mp h.ascending).1
  length e he := h.length e (List.mem_append_left _ he)
  fits e he := h.fits e (List.mem_append_left _ he)

theorem InOrder.le {rest : List (List Nibble × List Byte)}
    (h : InOrder scratchTop (J ++ (a, v) :: rest)) : ∀ e ∈ J, e.1 ≤ a := fun e he =>
  ((List.pairwise_append.mp h.ascending).2.2 e he (a, v) List.mem_cons_self).lt.le

/-- Before the first entry nothing is open. -/
theorem open_start (keccak256 : List Byte → Hash) (a : List Nibble) :
    Open keccak256 [] a [] where
  holds := nofun
  descend := List.Pairwise.nil
  forks d := by
    refine iff_of_false List.not_mem_nil ?_
    rintro ⟨e, he, _⟩
    exact List.not_mem_nil he

/-- The entries from `(a, v)` on. -/
theorem Open.insertAll (scratchTop : Nat) (resolve : NodeReference → Option PendingNode)
    {rest : List (List Nibble × List Byte)} (h : Open keccak256 J a builder.live)
    (hcomplete : builder.complete = false) (horder : InOrder scratchTop (J ++ (a, v) :: rest)) :
    ∃ builder', orderedTrieBuilderInsertAll keccak256 scratchTop resolve builder
        (((a, v) :: rest).map leafEntry) = some builder' ∧
      builder'.frameCount = 0 ∧ builder'.complete = true ∧
      builder'.root = pendingOf keccak256 (build 64 (J ++ (a, v) :: rest)) := by
  have hfits : LeafFits scratchTop v := horder.fits (a, v) (by simp)
  have hmove : J ++ (a, v) :: rest = J ++ [(a, v)] ++ rest := by simp
  have hfree : PrefixFree 64 (J ++ [(a, v)]) := by
    rw [hmove] at horder
    exact horder.start.prefixFree
  induction rest generalizing J a v builder with
  | nil =>
    obtain ⟨builder', hinsert, hresult⟩ := h.insert_last scratchTop resolve hcomplete hfree hfits
    refine ⟨builder', ?_, hresult⟩
    rw [List.map_cons, List.map_nil, orderedTrieBuilderInsertAll, List.head?_nil, Option.map_none]
    exact Option.bind_eq_some_iff.mpr ⟨builder', hinsert, rfl⟩
  | cons next rest ih =>
    obtain ⟨a', v'⟩ := next
    have hnext : Precedes a a' := by
      have htail := (List.pairwise_append.mp horder.ascending).2.1
      exact (List.pairwise_cons.mp htail).1 (a', v') List.mem_cons_self
    obtain ⟨builder₁, hinsert, hopen, hstill⟩ :=
      h.insert scratchTop resolve hcomplete hfree horder.le hfits hnext
    have hmove' : J ++ [(a, v)] ++ (a', v') :: rest = J ++ [(a, v)] ++ [(a', v')] ++ rest := by
      simp
    rw [hmove] at horder
    obtain ⟨builder', hrun, hresult⟩ := ih hopen hstill horder
      (horder.fits (a', v') (by simp)) hmove' (by
        rw [hmove'] at horder
        exact horder.start.prefixFree)
    refine ⟨builder', ?_, by rwa [hmove]⟩
    rw [List.map_cons, orderedTrieBuilderInsertAll, List.map_cons, List.head?_cons,
      Option.map_some]
    refine Option.bind_eq_some_iff.mpr ⟨builder₁, hinsert, ?_⟩
    rw [← List.map_cons]
    exact hrun

/-! ## The root -/

/-- With two entries the trie has a branch, with what they share in front. -/
theorem build_two {e e' : List Nibble × List Byte} (hfree : PrefixFree 64 (e :: e' :: J)) :
    ∃ gap cs, gap.length ≤ 64 ∧ build 64 (e :: e' :: J) = Trie.prepend gap (.branch cs) := by
  have he : e ∈ e :: e' :: J := List.mem_cons_self
  have he' : e' ∈ e :: e' :: J := List.mem_cons_of_mem _ List.mem_cons_self
  have hnot : ¬ e.1 <+: e'.1 := ((List.pairwise_cons.mp hfree.free).1 e' List.mem_cons_self).1
  have hexists : ∃ d, Forks (e :: e' :: J) e.1 d := by
    obtain ⟨d, _, hforks, _⟩ := exists_forks he' hnot
    exact ⟨d, hforks⟩
  classical
  have hfirst := Nat.find_spec hexists
  have hgap := @subtrie_gap _ _ _ hfree he 0 (Nat.find hexists) (Nat.zero_le _)
    fun i _ hi => Nat.find_min hexists hi
  rw [List.take_zero, subtrie_nil, List.drop_zero,
    subtrie_branch hfree he hfirst.lt_length hfirst] at hgap
  exact ⟨_, _, (List.length_take_le' _ _).trans (hfree.length e he), hgap⟩

theorem pendingNodeFinalize_build (hfree : PrefixFree 64 J)
    (hfits : ∀ e ∈ J, LeafFits scratchTop e.2) :
    pendingNodeFinalize keccak256 scratchTop (pendingOf keccak256 (build 64 J)) =
      some (nodeReferenceOf keccak256 (build 64 J)) := by
  match J, hfree, hfits with
  | [], _, _ =>
    rw [build]
    rfl
  | [e], hfree, hfits =>
    have he : e ∈ [e] := List.mem_cons_self
    rw [build, pendingOf]
    exact pendingNodeFinalize_leaf (hfree.length e he) (hfits e he)
  | e :: e' :: J, hfree, _ =>
    obtain ⟨gap, cs, hgap, hbuild⟩ := build_two hfree
    rw [hbuild, pendingOf_prepend_branch, pendingNodeFinalize_branch hgap]

/-- The commitment of the root. -/
theorem finish_reference (hempty : keccak256 [0x80] = emptyTrieRoot) (t : NibbleTrie) :
    (match nodeReferenceOf keccak256 t with
      | .hashed digest => some digest
      | .empty => some emptyTrieRoot
      | .inline bytes => some (keccak256 bytes)) = some (trieCommitment keccak256 t) := by
  by_cases ht : t = .empty
  · rw [ht, trieCommitment, hempty]
    rfl
  · rw [nodeReferenceOf_ne ht, trieCommitment_of_ne ht, mptMakeChildReference]
    by_cases hshort : (encodeNode keccak256 t).length < 32
    · rw [if_pos hshort]
    · rw [if_neg hshort]

/-- Entries in order give the canonical root, whatever an earlier build has
left in the frames. -/
theorem orderedTrieRoot_eq (hempty : keccak256 [0x80] = emptyTrieRoot)
    (resolve : NodeReference → Option PendingNode) (builder : OrderedTrieBuilder)
    (h : InOrder scratchTop J) :
    orderedTrieRoot keccak256 scratchTop resolve builder (J.map leafEntry) =
      some (canonicalRoot keccak256 J) := by
  obtain ⟨builder', hrun, hfinish⟩ : ∃ builder',
      orderedTrieBuilderInsertAll keccak256 scratchTop resolve (orderedTrieBuilderReset builder)
        (J.map leafEntry) = some builder' ∧
      orderedTrieBuilderFinishPending builder' = some (pendingOf keccak256 (build 64 J)) := by
    cases J with
    | nil =>
      refine ⟨_, rfl, ?_⟩
      rw [build]
      rfl
    | cons e rest =>
      obtain ⟨a, v⟩ := e
      have hlive : (orderedTrieBuilderReset builder).live = [] := rfl
      obtain ⟨builder', hrun, hcount, hdone, hroot⟩ :=
        @Open.insertAll keccak256 [] a v (orderedTrieBuilderReset builder) scratchTop resolve rest
          (by rw [hlive]; exact open_start keccak256 a) rfl (by rwa [List.nil_append])
      refine ⟨builder', hrun, ?_⟩
      rw [orderedTrieBuilderFinishPending, if_neg (not_not.mpr hcount), if_neg (not_not.mpr hdone),
        hroot, List.nil_append]
  have hreference : orderedTrieBuilderFinishRef keccak256 scratchTop builder' =
      some (nodeReferenceOf keccak256 (build 64 J)) := by
    rw [orderedTrieBuilderFinishRef, hfinish]
    exact pendingNodeFinalize_build h.prefixFree h.fits
  have hroot : orderedTrieBuilderFinish keccak256 scratchTop builder' =
      some (canonicalRoot keccak256 J) := by
    rw [orderedTrieBuilderFinish, hreference]
    exact finish_reference hempty (build 64 J)
  exact Option.bind_eq_some_iff.mpr ⟨builder', hrun, hroot⟩

/-! ## Rejected keys -/

/-- A key that is not above the one before it, or continues it, ends the
build. -/
theorem orderedTrieRoot_rejects (keccak256 : List Byte → Hash) (scratchTop : Nat)
    (resolve : NodeReference → Option PendingNode) (builder : OrderedTrieBuilder)
    (before after : List TrieEntry) {item next : TrieEntry}
    (h : ¬ item.path < next.path ∨ item.path <+: next.path) :
    orderedTrieRoot keccak256 scratchTop resolve builder (before ++ item :: next :: after) =
      none := by
  have hall : ∀ b : OrderedTrieBuilder, orderedTrieBuilderInsertAll keccak256 scratchTop resolve b
      (before ++ item :: next :: after) = none := by
    induction before with
    | nil =>
      intro b
      rw [List.nil_append, orderedTrieBuilderInsertAll, List.head?_cons, Option.map_some,
        orderedTrieBuilderInsert_rejects keccak256 scratchTop resolve b item h]
      rfl
    | cons first before ih =>
      intro b
      rw [List.cons_append, orderedTrieBuilderInsertAll]
      exact Option.bind_eq_none_iff.mpr fun b' _ => ih b'
  rw [orderedTrieRoot, hall]
  rfl

/-! ## Indexed tries -/

theorem mptIndexPath_eq {i : Nat} (hi : i < 2 ^ 64) : mptIndexPath i = indexKey i := by
  rw [mptIndexPath, indexKey, nibblesOf]
  congr 1
  split
  · rename_i hzero
    rw [hzero]
    rfl
  · rename_i hne
    split
    · rename_i hsmall
      exact (rlpBytes_bigEndian_small (Nat.pos_of_ne_zero hne) hsmall).symm
    · rename_i hlarge
      dsimp only
      rw [rlpBytes_bigEndian_large (Nat.not_le.mp hlarge) hi, mptUintBe_eq, length_bigEndian]
      rfl

theorem mptIndexAtPosition_eq {count : Nat} (hpos : 0 < count) (hcount : count < 2 ^ 64)
    (position : Nat) : mptIndexAtPosition count position = indexAt count position := by
  have hrest : (count + (2 ^ 64 - 1)) % 2 ^ 64 = count - 1 := by
    rw [show count + (2 ^ 64 - 1) = count - 1 + 2 ^ 64 by omega, Nat.add_mod_right,
      Nat.mod_eq_of_lt (by omega)]
  have hmin : (if count - 1 < 127 then count - 1 else 127) = min (count - 1) 127 := by
    split <;> omega
  rw [mptIndexAtPosition, hrest, hmin, indexAt]

/-- The indices in the order of the positions. -/
def mptPositions (count : Nat) : List Nat := (List.range count).map (mptIndexAtPosition count)

theorem mptPositions_eq {count : Nat} (hcount : count < 2 ^ 64) :
    mptPositions count = visited count := by
  refine List.map_congr_left fun position hposition => ?_
  exact mptIndexAtPosition_eq (Nat.zero_lt_of_lt (List.mem_range.mp hposition)) hcount position

theorem mptPositions_lt {count i : Nat} (hcount : count < 2 ^ 64) (hi : i ∈ mptPositions count) :
    i < 2 ^ 64 := by
  rw [mptPositions_eq hcount] at hi
  exact (List.mem_range.mp ((visited_perm hcount.le).mem_iff.mp hi)).trans hcount

/-- The keys in the order of the positions ascend. -/
theorem mptPositions_ascending {count : Nat} (hcount : count < 2 ^ 64) :
    (mptPositions count).Pairwise fun i j => Precedes (mptIndexPath i) (mptIndexPath j) := by
  have hascending := visited_ascending hcount.le
  rw [← mptPositions_eq hcount] at hascending
  refine hascending.imp_of_mem fun hi hj hprecedes => ?_
  rwa [mptIndexPath_eq (mptPositions_lt hcount hi), mptIndexPath_eq (mptPositions_lt hcount hj)]

/-- The leaf of a list index. -/
def indexedLeaf (value : Nat → List Byte) (i : Nat) : List Nibble × List Byte :=
  (mptIndexPath i, value i)

/-- The loop over the positions adds the leaves in the order of the keys. -/
theorem mptIndexedInsertAll_eq (resolve : NodeReference → Option PendingNode)
    (value : Nat → List Byte) (count : Nat) (builder : OrderedTrieBuilder) (position : Nat) :
    mptIndexedInsertAll keccak256 scratchTop resolve value count builder position =
      orderedTrieBuilderInsertAll keccak256 scratchTop resolve builder
        (((List.range' position (count - position)).map (mptIndexAtPosition count)).map
          fun i => leafEntry (indexedLeaf value i)) := by
  generalize hn : count - position = n
  induction n generalizing builder position with
  | zero =>
    rw [mptIndexedInsertAll, if_neg (by omega)]
    rfl
  | succ n ih =>
    have hnextKey : (if position + 1 < count then
          some (mptIndexPath (mptIndexAtPosition count (position + 1))) else none) =
        (((List.range' (position + 1) n).map (mptIndexAtPosition count)).map
          fun i => leafEntry (indexedLeaf value i)).head?.map TrieEntry.path := by
      cases n with
      | zero =>
        rw [if_neg (by omega), List.range'_zero, List.map_nil, List.map_nil, List.head?_nil,
          Option.map_none]
      | succ n =>
        rw [if_pos (by omega), List.range'_succ, List.map_cons, List.map_cons, List.head?_cons,
          Option.map_some, leafEntry, indexedLeaf]
    have hinsert : mptOrderedInsert keccak256 scratchTop resolve builder
          (.leaf (value (mptIndexAtPosition count position))) count position =
        orderedTrieBuilderInsert keccak256 scratchTop resolve builder
          (leafEntry (indexedLeaf value (mptIndexAtPosition count position)))
          ((((List.range' (position + 1) n).map (mptIndexAtPosition count)).map
            fun i => leafEntry (indexedLeaf value i)).head?.map TrieEntry.path) := by
      rw [mptOrderedInsert, ← hnextKey, leafEntry, indexedLeaf]
    rw [mptIndexedInsertAll, if_pos (by omega), List.range'_succ, List.map_cons, List.map_cons,
      orderedTrieBuilderInsertAll]
    dsimp only
    rw [hinsert]
    refine Option.bind_congr fun next _ => ?_
    rw [ih next (position + 1) (by omega)]

theorem mptIndexedRoot_eq (hempty : keccak256 [0x80] = emptyTrieRoot)
    (resolve : NodeReference → Option PendingNode) (builder : OrderedTrieBuilder)
    {value : Nat → List Byte} {count : Nat} (hcount : count < 2 ^ 64)
    (hfits : ∀ i < count, LeafFits scratchTop (value i)) :
    mptIndexedRoot keccak256 scratchTop resolve builder value count =
      some (canonicalRoot keccak256 ((List.range count).map (indexedLeaf value))) := by
  have hperm : (mptPositions count).Perm (List.range count) := by
    rw [mptPositions_eq hcount]
    exact visited_perm hcount.le
  have horder : InOrder scratchTop ((mptPositions count).map (indexedLeaf value)) := by
    refine ⟨?_, fun e he => ?_, fun e he => ?_⟩
    · rw [List.pairwise_map]
      exact mptPositions_ascending hcount
    · obtain ⟨i, hi, rfl⟩ := List.mem_map.mp he
      have hlt := mptPositions_lt hcount hi
      have hkey := length_indexKey_le hlt
      rw [indexedLeaf, mptIndexPath_eq hlt]
      exact hkey.trans (by omega)
    · obtain ⟨i, hi, rfl⟩ := List.mem_map.mp he
      exact hfits i (List.mem_range.mp (hperm.mem_iff.mp hi))
  have hroot := orderedTrieRoot_eq hempty resolve builder horder
  rw [canonicalRoot, build_perm horder.prefixFree (hperm.map _), ← canonicalRoot] at hroot
  rw [← hroot, mptIndexedRoot, orderedTrieRoot, mptIndexedInsertAll_eq, Nat.sub_zero,
    ← List.range_eq_range', ← mptPositions, List.map_map]
  rfl

/-- The ordered builder makes the canonical root of ascending keys, of which
none is a prefix of another, and rejects every other order; the indexed tries
are driven in the order of `rlp(i)`.  A frame is never opened beyond the array,
which would end the build. -/
theorem orderedTrieBuilder_correct (keccak256 : List Byte → Hash)
    (hempty : keccak256 [0x80] = emptyTrieRoot) (scratchTop : Nat)
    (resolve : NodeReference → Option PendingNode) (builder : OrderedTrieBuilder) :
    (∀ J : List (List Nibble × List Byte),
      (J.map Prod.fst).Pairwise (· < ·) → (J.map Prod.fst).Pairwise (fun k k' => ¬ k <+: k') →
      (∀ e ∈ J, e.1.length ≤ 64) → (∀ e ∈ J, LeafFits scratchTop e.2) →
      orderedTrieRoot keccak256 scratchTop resolve builder (J.map leafEntry) =
        some (canonicalRoot keccak256 J)) ∧
    (∀ (before after : List TrieEntry) (item next : TrieEntry),
      next.path ≤ item.path ∨ next.path <+: item.path ∨ item.path <+: next.path →
      orderedTrieRoot keccak256 scratchTop resolve builder
        (before ++ item :: next :: after) = none) ∧
    ∀ n < 2 ^ 64,
      (mptPositions n).Perm (List.range n) ∧
      (mptPositions n).Pairwise (fun i j => mptIndexPath i < mptIndexPath j) ∧
      (∀ i < n, mptIndexPath i = nibblesOf (rlpBytes (bigEndian i))) ∧
      ∀ value : Nat → List Byte, (∀ i < n, LeafFits scratchTop (value i)) →
        mptIndexedRoot keccak256 scratchTop resolve builder value n =
          some (canonicalRoot keccak256 ((List.range n).map (indexedLeaf value))) := by
  refine ⟨fun J hlt hfree hlength hfits => ?_, fun before after item next h => ?_, fun n hn => ?_⟩
  · refine orderedTrieRoot_eq hempty resolve builder ⟨?_, hlength, hfits⟩
    rw [← List.pairwise_map (f := Prod.fst) (R := Precedes)]
    exact (hlt.and hfree).imp fun h => precedes_of_lt h.1 h.2
  · refine orderedTrieRoot_rejects keccak256 scratchTop resolve builder before after ?_
    rcases h with hle | hpre | hpre
    · exact Or.inl (not_lt.mpr hle)
    · exact Or.inl (not_lt.mpr (le_of_isPrefix hpre))
    · exact Or.inr hpre
  · refine ⟨?_, ?_, fun i hi => ?_, fun value hfits => ?_⟩
    · rw [mptPositions_eq hn]
      exact visited_perm hn.le
    · exact (mptPositions_ascending hn).imp fun h => h.lt
    · rw [mptIndexPath_eq (hi.trans hn), indexKey]
    · exact mptIndexedRoot_eq hempty resolve builder hn hfits

theorem orderedTrieBuilder_correct_twoKeys :
    orderedTrieRoot (fun _ => emptyTrieRoot) 0 (fun _ => none)
        ⟨fun _ => ⟨0, 0, fun _ => .empty⟩, 3, .empty, true⟩
        [⟨[1, 2], .leaf [7]⟩, ⟨[1, 4, 4], .leaf [9]⟩] =
      some (canonicalRoot (fun _ => emptyTrieRoot) [([1, 2], [7]), ([1, 4, 4], [9])]) :=
  (orderedTrieBuilder_correct (fun _ => emptyTrieRoot) rfl 0 (fun _ => none)
    ⟨fun _ => ⟨0, 0, fun _ => .empty⟩, 3, .empty, true⟩).1 [([1, 2], [7]), ([1, 4, 4], [9])]
    (by decide) (by decide) (by decide) (by simp [LeafFits, mptEncodedValueMax])

end

end EvmSail.Optimised
