/-
# `EvmSail.Mpt.RootSound` — roots and lookups of finite maps

The two entry points of the trie, on the root of a finite map: the root
computation returns the root of the updated map, and the lookup returns
the value of its key.

`Complete` and `Sound` are the two things known of a witness: it holds
the nodes of the map's trie, and what it answers hashes to the digest
asked for.  A sound witness is part of a complete one (`completed`),
which is how answers on a partial witness are known to be right.
-/
import EvmSail.Mpt.FailClosed
import EvmSail.Mpt.KeyValueMap

namespace EvmSail

open Fallible Radix

/-! ## Witnesses -/

section

variable (keccak256 : List Byte → Hash) (db : Hash → StatelessInputSlice) (M : KeyValueMap)

/-- The node encodings of the trie of a map. -/
def IsMapNode (e : List Byte) : Prop := IsNodeOf keccak256 e (mapTrie M)

/-- Every answer of the node database hashes to the digest asked for. -/
def Authentic : Prop := ∀ h, db h ≠ [] → keccak256 (db h) = h

/-- The encodings involved: the empty string's, the nodes of the map and
the nodes of the database. -/
def Involved (e : List Byte) : Prop :=
  e = [0x80] ∨ IsMapNode keccak256 M e ∨ ∃ h, db h ≠ [] ∧ db h = e

/-- What is assumed of the hash function and of the node database. -/
structure Sound : Prop where
  empty : keccak256 [0x80] = emptyTrieRoot
  inj : ∀ a b, Involved keccak256 db M a → Involved keccak256 db M b →
    keccak256 a = keccak256 b → a = b
  authentic : Authentic keccak256 db

/-- Every node of the trie of the map that is looked up by its hash is in
the database. -/
def Complete : Prop :=
  ∀ e, IsMapNode keccak256 M e → e = encodeNode keccak256 (mapTrie M) ∨ 32 ≤ e.length →
    db (keccak256 e) ≠ []

end

variable {keccak256 : List Byte → Hash} {db : Hash → StatelessInputSlice} {M : KeyValueMap}

theorem IsNodeOf.ne_nil {e : List Byte} {t : NibbleTrie} (h : IsNodeOf keccak256 e t) :
    e ≠ [] := by
  induction h with
  | self t ht => exact fun h => ht (encodeNode_eq_nil.mp h)
  | ext path _ ih => exact ih
  | branch cs x _ ih => exact ih

theorem rlpList_ne_empty_string (payload : List Byte) : rlpList payload ≠ [0x80] := by
  intro h
  have hlen := congrArg List.length h
  have hpos := rlpLengthPrefixLen_pos payload.length
  rw [length_rlpList, rlpListSize, List.length_singleton] at hlen
  obtain rfl := List.eq_nil_of_length_eq_zero (by omega : payload.length = 0)
  exact absurd h (by decide)

theorem encodeNode_ne_empty_string (t : NibbleTrie) : encodeNode keccak256 t ≠ [0x80] := by
  cases t with
  | empty => exact List.cons_ne_nil _ _ |>.symm
  | leaf p v => exact rlpList_ne_empty_string _
  | ext p c => exact rlpList_ne_empty_string _
  | branch cs => exact rlpList_ne_empty_string _

/-- A complete database answers with the nodes of the map. -/
theorem Sound.lookup_eq (h : Sound keccak256 db M) (hc : Complete keccak256 db M) {e : List Byte}
    (he : IsMapNode keccak256 M e)
    (hl : e = encodeNode keccak256 (mapTrie M) ∨ 32 ≤ e.length) : db (keccak256 e) = e :=
  h.inj _ _ (Or.inr (Or.inr ⟨_, hc e he hl, rfl⟩)) (Or.inr (Or.inl he))
    (h.authentic _ (hc e he hl))

theorem Sound.witnessed (h : Sound keccak256 db M) (hc : Complete keccak256 db M) :
    Witnessed keccak256 db (mapTrie M) :=
  fun _ he hl => h.lookup_eq hc he (Or.inr hl)

theorem Sound.root_eq_empty (h : Sound keccak256 db M) :
    mapRoot keccak256 M = emptyTrieRoot ↔ mapTrie M = .empty := by
  rw [mapRoot_eq, ← h.empty]
  constructor
  · intro heq
    by_contra hne
    rw [trieCommitment_of_ne hne] at heq
    exact encodeNode_ne_empty_string _
      (h.inj _ _ (Or.inr (Or.inl (.self _ hne))) (Or.inl rfl) heq)
  · intro heq
    rw [heq]
    rfl

theorem Sound.root_node (h : Sound keccak256 db M) (hc : Complete keccak256 db M)
    (hne : mapTrie M ≠ .empty) :
    db (mapRoot keccak256 M) = encodeNode keccak256 (mapTrie M) := by
  rw [mapRoot_eq, trieCommitment_of_ne hne]
  exact h.lookup_eq hc (.self _ hne) (Or.inl rfl)

/-! ## The root computation -/

theorem trieRefToRoot_spec {r : NodeRef} {t : NibbleTrie}
    (hempty : keccak256 [0x80] = emptyTrieRoot)
    (hr : RefOf keccak256 r (encodeNode keccak256 t)) :
    trieRefToRoot keccak256 r = trieCommitment keccak256 t := by
  by_cases ht : t = .empty
  · subst ht
    have := hr.eq_nil_iff.mp rfl
    rw [this]
    exact hempty.symm
  · rw [trieCommitment_of_ne ht]
    generalize henc : encodeNode keccak256 t = enc at hr
    cases hr with
    | empty => exact absurd (encodeNode_eq_nil.mp henc) ht
    | input node _ => rfl
    | scratch node _ => rfl
    | hash _ _ => rfl

theorem trieSubtreeRoot_spec {it : TrieItem} {t : NibbleTrie}
    (hempty : keccak256 [0x80] = emptyTrieRoot) (h : Represents keccak256 db [] it t) :
    trieSubtreeRoot keccak256 db it = .ok (trieCommitment keccak256 t) := by
  unfold trieSubtreeRoot
  split
  · rename_i hval
    rw [h.value_iff.mp hval, trieCommitment, hempty]
  · obtain ⟨r, hr, href⟩ := trieChildRef_spec h
    rw [List.length_nil] at hr
    rw [hr, ok_bind, trieRefToRoot_spec hempty href]

/-- The walk from the root of a map. -/
theorem trieRootWalk_spec (h : Sound keccak256 db M) (hc : Complete keccak256 db M)
    (hM : MapFits M) {u : TrieUpdateCursor} (hu : CursorAt [] u) :
    WalkSpec keccak256 db [] u (trieRootWalk keccak256 db (mapRoot keccak256 M) u)
      (updatedTrie (pending u) [] 64 (mapTrie M)) := by
  by_cases ht : mapTrie M = .empty
  · rw [trieRootWalk, if_pos (h.root_eq_empty.mpr ht), ht]
    exact updatesSubtree_spec keccak256 db 64 pathEmpty rfl hu
  · have hnode := h.root_node hc ht
    have hlen : ¬ (encodeNode keccak256 (mapTrie M)).length = 0 := by
      rw [List.length_eq_zero_iff, encodeNode_eq_nil]
      exact ht
    rw [trieRootWalk, if_neg fun heq => ht (h.root_eq_empty.mp heq)]
    simp only [hnode, if_neg hlen]
    exact witnessSubtree_spec 64 pathEmpty (canonical_mapTrie M) (fits_mapTrie hM)
      (h.witnessed hc) rfl hu

theorem pending_eq_nil {u : TrieUpdateCursor} (hu : CursorAt [] u) (hp : pending u = []) :
    updatesEmpty u = true ∧ u.source = [] := by
  have hrel := hu.relation
  unfold RelationAt at hrel
  unfold pending at hp
  unfold updatesEmpty
  cases hr : u.relation with
  | updateUnderPrefix post =>
    rw [hr] at hp
    cases hp
  | updateBeyondPrefix c =>
    rw [hr] at hp
    cases hp
  | updateSourceExhausted =>
    rw [hr] at hrel
    exact ⟨rfl, hrel⟩

/-- The walk from the root of a map builds the trie of the updated map
and consumes all updates. -/
theorem trieRootWalk_mapRoot (h : Sound keccak256 db M) (hc : Complete keccak256 db M)
    (hM : MapFits M) {U : List TrieUpdate} (hU : Ascending U) (hfit : ∀ s ∈ U, UpdateFits s) :
    ∃ it rest, trieRootWalk keccak256 db (mapRoot keccak256 M) (trieUpdatesBegin U) =
        .ok (it, rest) ∧
      Represents keccak256 db [] it (mapTrie (applyUpdates M U)) ∧
      updatesEmpty rest = true ∧ rest.source = [] := by
  obtain ⟨hcur, hpend⟩ := cursorAt_begin hU hfit
  obtain ⟨it, rest, hwalk, hrep, hcur', hrest⟩ := trieRootWalk_spec h hc hM hcur
  rw [hpend, updatedTrie_mapTrie hU] at hrep
  have hnil : pending rest = [] := by
    rw [hrest, afterPrefix, List.filter_eq_nil_iff]
    intro s _
    simp [Below]
  obtain ⟨hdone, hsource⟩ := pending_eq_nil hcur' hnil
  exact ⟨it, rest, hwalk, hrep, hdone, hsource⟩

/-- The root computation returns the root of the updated map. -/
theorem trieRootCursor_mapRoot (h : Sound keccak256 db M) (hc : Complete keccak256 db M)
    (hM : MapFits M) {U : List TrieUpdate} (hU : Ascending U) (hfit : ∀ s ∈ U, UpdateFits s) :
    trieRootCursor keccak256 db (mapRoot keccak256 M) (trieUpdatesBegin U) =
      .ok { root := mapRoot keccak256 (applyUpdates M U), changed := decide (U ≠ []) } := by
  rw [trieRootCursor, updatesEmpty_begin]
  by_cases hU0 : U = []
  · subst hU0
    simp [applyUpdates]
  · obtain ⟨it, rest, hwalk, hrep, hdone, _⟩ := trieRootWalk_mapRoot h hc hM hU hfit
    rw [if_neg (by simpa using hU0), hwalk, ok_bind]
    simp only [hdone, if_true, trieSubtreeRoot_spec h.empty hrep, ok_bind, decide_eq_true hU0,
      ne_eq, mapRoot_eq]

/-! ## Lookups -/

/-- The walk of a witnessed trie toward a key. -/
theorem trieWalk_spec (n : Nat) {t : NibbleTrie} {key : TriePath} {pos : Nat}
    (ht : t.Canonical n) (hfit : TrieFits t) (hw : Witnessed keccak256 db t)
    (hkey : key.nibbles.length = 64) (hn : pos + n = 64) :
    trieWalk db (encodeNode keccak256 t) key pos =
      .ok ((t.lookup (key.nibbles.drop pos)).getD []) := by
  induction n using Nat.strongRecOn generalizing t pos with
  | _ n ih =>
  rw [trieWalk]
  by_cases hne : t = .empty
  · subst hne
    rw [if_pos (show (encodeNode keccak256 .empty).length = 0 from rfl)]
    rfl
  rw [if_neg (by rw [List.length_eq_zero_iff, encodeNode_eq_nil]; exact hne)]
  obtain ⟨node, hnode, hdec⟩ := decodeInputTrieNode_encodeNode keccak256 ht.compressed hfit hne
  rw [hnode]
  cases hdec with
  | leaf q v hq =>
    cases ht with
    | leaf _ _ hqn =>
    have hlen : (key.nibbles.drop pos).length = q.length := by
      rw [List.length_drop]
      omega
    simp only [pathMatches_eq _ _ _ (show pos ≤ key.nibbles.length by omega), pathLen_eq,
      TriePath.nibbles_ofNibbles hq, Trie.lookup_leaf]
    by_cases hm : key.nibbles.drop pos = q
    · rw [if_neg (by simp [hm]), if_pos (by omega), if_pos hm]
      rfl
    · have hnp : ¬ q <+: key.nibbles.drop pos := fun hp => hm (hp.eq_of_length hlen.symm).symm
      rw [if_pos (by simpa using hnp), if_neg hm]
      rfl
  | ext q c r hq hr =>
    cases ht with
    | @ext _ m _ cs hqne hqn hcan =>
    cases hfit with
    | ext _ _ _ hfc =>
    have hqpos := List.length_pos_iff.mpr hqne
    simp only [pathMatches_eq _ _ _ (show pos ≤ key.nibbles.length by omega), pathLen_eq,
      TriePath.nibbles_ofNibbles hq]
    rw [dif_neg (by omega)]
    by_cases hm : q <+: key.nibbles.drop pos
    · rw [if_neg (by simp [hm]), dif_pos (by omega), hw.ext.resolve hr.refOf hr.notScratch, ok_bind,
        ih m (by omega) hcan hfc hw.ext (by omega), Trie.lookup, if_pos hm, List.drop_drop]
    · rw [if_pos (by simpa using hm), Trie.lookup_ext_of_not_prefix hm]
      rfl
  | branch cs children hrefs =>
    cases ht with
    | @branch m _ _ _ hcs hab ha hb =>
    cases hfit with
    | branch _ hfcs =>
    have hlt : pos < key.nibbles.length := by omega
    have hx : (key.nibbles[pos]?).getD 0 = key.nibbles[pos] := by
      rw [List.getElem?_eq_getElem hlt]
      rfl
    simp only [pathLen_eq, pathNibble_eq, hx]
    rw [if_neg (by omega), dif_pos hlt,
      (hw.branch _).resolve (hrefs key.nibbles[pos]).refOf (hrefs _).notScratch, ok_bind,
      ih m (by omega) (hcs _) (hfcs _) (hw.branch _) (by omega), List.drop_eq_getElem_cons hlt,
      Trie.lookup_branch_cons]

/-- The lookup of a key on a complete witness. -/
theorem trieLookup_mapRoot (h : Sound keccak256 db M) (hc : Complete keccak256 db M)
    (hM : MapFits M) (k : B256) :
    trieLookup db (mapRoot keccak256 M) (keyPath k) = .ok ((M.lookup k).getD []) := by
  have hlook := lookup_mapTrie M k
  by_cases ht : mapTrie M = .empty
  · rw [ht] at hlook
    rw [trieLookup, if_pos (h.root_eq_empty.mpr ht), ← hlook]
    rfl
  · have hnode := h.root_node hc ht
    have hlen : ¬ (encodeNode keccak256 (mapTrie M)).length = 0 := by
      rw [List.length_eq_zero_iff, encodeNode_eq_nil]
      exact ht
    rw [trieLookup, if_neg fun heq => ht (h.root_eq_empty.mp heq)]
    simp only [hnode, if_neg hlen]
    rw [trieWalk_spec 64 (canonical_mapTrie M) (fits_mapTrie hM) (h.witnessed hc)
      (length_keyPath k) rfl, List.drop_zero, hlook]

/-! ## Completing a witness -/

/-- The database with the nodes of the map added. -/
noncomputable def completed (keccak256 : List Byte → Hash) (db : Hash → StatelessInputSlice)
    (M : KeyValueMap) : Hash → StatelessInputSlice := fun h =>
  open Classical in
  if db h ≠ [] then db h
  else if hn : ∃ e, IsMapNode keccak256 M e ∧ keccak256 e = h then hn.choose
  else []

variable (keccak256 M) in
theorem subDb_completed : SubDb db (completed keccak256 db M) := by
  intro h hh
  rw [completed, if_pos hh]

variable (keccak256 db M) in
theorem completed_cases (h : Hash) :
    completed keccak256 db M h = db h ∨
      IsMapNode keccak256 M (completed keccak256 db M h) ∧
        keccak256 (completed keccak256 db M h) = h := by
  by_cases hh : db h ≠ []
  · exact Or.inl (subDb_completed keccak256 M h hh)
  · by_cases hn : ∃ e, IsMapNode keccak256 M e ∧ keccak256 e = h
    · right
      rw [completed, if_neg hh, dif_pos hn]
      exact hn.choose_spec
    · left
      rw [completed, if_neg hh, dif_neg hn]
      exact (not_not.mp hh).symm

theorem complete_completed : Complete keccak256 (completed keccak256 db M) M := by
  intro e he _
  by_cases hh : db (keccak256 e) ≠ []
  · rw [subDb_completed keccak256 M _ hh]
    exact hh
  · have hn : ∃ e', IsMapNode keccak256 M e' ∧ keccak256 e' = keccak256 e := ⟨e, he, rfl⟩
    rw [completed, if_neg hh, dif_pos hn]
    exact hn.choose_spec.1.ne_nil

theorem Sound.completed (h : Sound keccak256 db M) :
    Sound keccak256 (completed keccak256 db M) M := by
  have hinv : ∀ e, Involved keccak256 (EvmSail.completed keccak256 db M) M e →
      Involved keccak256 db M e := by
    rintro e (he | he | ⟨hash, hne, rfl⟩)
    · exact Or.inl he
    · exact Or.inr (Or.inl he)
    · rcases completed_cases keccak256 db M hash with hc | ⟨hc, _⟩
      · exact Or.inr (Or.inr ⟨hash, hc ▸ hne, hc.symm⟩)
      · exact Or.inr (Or.inl hc)
  refine ⟨h.empty, fun a b ha hb => h.inj a b (hinv a ha) (hinv b hb), fun hash hne => ?_⟩
  rcases completed_cases keccak256 db M hash with hc | ⟨_, hc⟩
  · rw [hc] at hne ⊢
    exact h.authentic hash hne
  · exact hc

/-! ## A map of two leaves -/

/-- The key whose first nibble is `n`, and the others zero. -/
def keyAt (n : Nat) : B256 := hashFromBits (n * 2 ^ 252)

/-- Two keys that part at the root. -/
def twoLeavesMap : KeyValueMap := AList.insert (keyAt 1) [2] (AList.insert (keyAt 0) [1] ∅)

/-- The leaf of one of them. -/
def leafOf (value : Byte) : List Byte := [0xe2, 0xa0, 0x30] ++ List.replicate 31 0 ++ [value]

/-- A leaf, by the first nibble of its key. -/
def leafDigest : Nat → Hash
  | 0 => hashFromBits 0x51786a8d3bc13523fe2a4a4de42ba891617b2aad3a2da9a0681c6efa2263f434
  | 1 => hashFromBits 0x6e9c0ad64301ea72977e7b346f6b5762c993b45bf7dabfb51c0957d1d6455b6b
  | _ => hashFromBits 0x47a3f178f82012b267458401d236d1f9f03c94a36372ceb4b9a4d34c62cf76a0

/-- The branch over two leaves. -/
def branchOf (first second : Nat) : List Byte :=
  [0xf8, 0x51] ++ (List.range 16).flatMap (fun n =>
    if n = first ∨ n = second then 0xa0 :: (leafDigest n).toList else [0x80]) ++ [0x80]

/-- The digests of the nodes before and after. -/
def twoLeavesDigests : List (List Byte × Hash) :=
  [([0x80], emptyTrieRoot), (leafOf 1, leafDigest 0), (leafOf 2, leafDigest 1),
    (leafOf 3, leafDigest 2),
    (branchOf 0 1,
      hashFromBits 0x34734119a88ceb4106a48ec1d678bc9eefa85266b0e1b4d2307c9101bdb7db56),
    (branchOf 1 2,
      hashFromBits 0xde2140654d7baed0061b2a33665a383f92dc39c950821e0d2180933423916d1c)]

def twoLeavesKeccak (bytes : List Byte) : Hash := (twoLeavesDigests.lookup bytes).getD zeroHash

def twoLeavesNodes : List (List Byte) := [leafOf 1, leafOf 2, branchOf 0 1]

/-- The witness of some of the nodes. -/
def witnessOf (nodes : List (List Byte)) (h : Hash) : StatelessInputSlice :=
  (nodes.find? fun node => twoLeavesKeccak node = h).getD []

/-- The first key goes, and a third one comes. -/
def twoLeavesUpdates : List TrieUpdate :=
  [{ key := keyPath (keyAt 0), change := .trieDelete },
    { key := keyPath (keyAt 2), change := .triePut [3] }]

theorem mapTrie_twoLeaves : mapTrie twoLeavesMap = .branch fun x =>
    if x = 0 then .leaf (List.replicate 63 0) [1]
    else if x = 1 then .leaf (List.replicate 63 0) [2] else .empty := by
  have hentries : trieEntries twoLeavesMap =
      [(1 :: List.replicate 63 0, [2]), (0 :: List.replicate 63 0, [1])] := by decide +kernel
  rw [mapTrie, hentries, build_branch (by decide)]
  congr 1
  funext x
  have hrestrict : restrict x
      [((1 : Nibble) :: List.replicate 63 (0 : Nibble), [(2 : Byte)]),
        (0 :: List.replicate 63 0, [1])] =
      if x = 0 then [(List.replicate 63 0, [1])]
      else if x = 1 then [(List.replicate 63 0, [2])] else [] := by
    revert x
    decide +kernel
  rw [hrestrict]
  split
  · rw [build]
  · split
    · rw [build]
    · rw [build]

theorem encodeNode_twoLeaves :
    encodeNode twoLeavesKeccak (mapTrie twoLeavesMap) = branchOf 0 1 := by
  rw [mapTrie_twoLeaves]
  decide +kernel

theorem mapRoot_twoLeaves :
    mapRoot twoLeavesKeccak twoLeavesMap = twoLeavesKeccak (branchOf 0 1) := by
  rw [← encodeNode_twoLeaves, mapRoot_eq, mapTrie_twoLeaves, trieCommitment]
  exact nofun

theorem isMapNode_twoLeaves {e : List Byte} (h : IsMapNode twoLeavesKeccak twoLeavesMap e) :
    e ∈ twoLeavesNodes := by
  have hroot := encodeNode_twoLeaves
  rw [mapTrie_twoLeaves] at hroot
  rw [IsMapNode, mapTrie_twoLeaves] at h
  cases h with
  | self _ _ =>
    rw [hroot]
    exact .tail _ (.tail _ (.head _))
  | branch _ x h =>
    dsimp only at h
    split at h
    · cases h
      exact .head _
    · split at h
      · cases h
        exact .tail _ (.head _)
      · cases h with
        | self _ hne => exact absurd rfl hne

/-- A node of the witness is found by its digest only. -/
theorem witnessOf_mem {nodes : List (List Byte)} {h : Hash} (hne : witnessOf nodes h ≠ []) :
    witnessOf nodes h ∈ nodes ∧ twoLeavesKeccak (witnessOf nodes h) = h := by
  cases hfind : nodes.find? fun node => twoLeavesKeccak node = h with
  | none => exact absurd (by rw [witnessOf, hfind]; rfl) hne
  | some node =>
    have hnode : witnessOf nodes h = node := by rw [witnessOf, hfind]; rfl
    rw [hnode]
    have hdigest := List.find?_some hfind
    exact ⟨List.mem_of_find?_eq_some hfind, of_decide_eq_true hdigest⟩

theorem twoLeavesKeccak_inj : ∀ a ∈ [0x80] :: twoLeavesNodes, ∀ b ∈ [0x80] :: twoLeavesNodes,
    twoLeavesKeccak a = twoLeavesKeccak b → a = b := by
  decide +kernel

theorem sound_twoLeaves : Sound twoLeavesKeccak (witnessOf twoLeavesNodes) twoLeavesMap := by
  have hinvolved : ∀ e, Involved twoLeavesKeccak (witnessOf twoLeavesNodes) twoLeavesMap e →
      e ∈ [0x80] :: twoLeavesNodes := by
    rintro e (rfl | he | ⟨h, hne, rfl⟩)
    · exact .head _
    · exact .tail _ (isMapNode_twoLeaves he)
    · exact .tail _ (witnessOf_mem hne).1
  exact ⟨rfl, fun a b ha hb => twoLeavesKeccak_inj a (hinvolved a ha) b (hinvolved b hb),
    fun h hne => (witnessOf_mem hne).2⟩

theorem witnessOf_twoLeavesKeccak : ∀ node ∈ twoLeavesNodes,
    witnessOf twoLeavesNodes (twoLeavesKeccak node) = node ∧ node ≠ [] := by
  decide +kernel

theorem complete_twoLeaves :
    Complete twoLeavesKeccak (witnessOf twoLeavesNodes) twoLeavesMap := by
  intro e he _
  obtain ⟨hfound, hne⟩ := witnessOf_twoLeavesKeccak e (isMapNode_twoLeaves he)
  rw [hfound]
  exact hne

/-- What a smaller witness answers, the whole one does. -/
theorem subDb_witnessOf {nodes : List (List Byte)} (hnodes : nodes ⊆ twoLeavesNodes) :
    SubDb (witnessOf nodes) (witnessOf twoLeavesNodes) := by
  intro h hne
  obtain ⟨hmem, hdigest⟩ := witnessOf_mem hne
  have hfound := (witnessOf_twoLeavesKeccak _ (hnodes hmem)).1
  rwa [hdigest] at hfound

theorem fits_short {v : List Byte} (h : v.length ≤ 1) : ValueFits v := by
  have hb := scratchRegionBound_ge
  rw [ValueFits]
  omega

theorem fits_twoLeaves : MapFits twoLeavesMap := by
  intro k v hv
  refine fits_short ?_
  by_cases hk : k = keyAt 1
  · subst hk
    rw [twoLeavesMap, AList.lookup_insert] at hv
    cases hv
    exact Nat.le_refl 1
  · rw [twoLeavesMap, AList.lookup_insert_ne hk] at hv
    by_cases hk : k = keyAt 0
    · subst hk
      rw [AList.lookup_insert] at hv
      cases hv
      exact Nat.le_refl 1
    · rw [AList.lookup_insert_ne hk] at hv
      cases hv

theorem ascending_twoLeavesUpdates : Ascending twoLeavesUpdates := by
  refine ⟨?_, ?_⟩
  · rw [twoLeavesUpdates, List.pairwise_pair]
    decide +kernel
  · intro s hs
    rcases List.mem_pair.mp hs with rfl | rfl
    · exact length_keyPath _
    · exact length_keyPath _

theorem fits_twoLeavesUpdates : ∀ s ∈ twoLeavesUpdates, UpdateFits s := by
  intro s hs v hv
  rcases List.mem_pair.mp hs with rfl | rfl
  · cases hv
  · cases hv
    exact fits_short (Nat.le_refl 1)

/-! ## The two entry points -/

/-- On a complete witness the update stream is consumed whole, and the
root is that of the updated map. -/
theorem trieRoot_canonical (h : Sound keccak256 db M) (hc : Complete keccak256 db M)
    (hM : MapFits M) {U : List TrieUpdate} (hU : Ascending U) (hfit : ∀ s ∈ U, UpdateFits s) :
    trieRootCursor keccak256 db (mapRoot keccak256 M) (trieUpdatesBegin U) =
        .ok { root := mapRoot keccak256 (applyUpdates M U), changed := decide (U ≠ []) } ∧
      ∃ it rest, trieRootWalk keccak256 db (mapRoot keccak256 M) (trieUpdatesBegin U) =
        .ok (it, rest) ∧ updatesEmpty rest = true ∧ rest.source = [] := by
  obtain ⟨it, rest, hwalk, _, hdone, hsource⟩ := trieRootWalk_mapRoot h hc hM hU hfit
  exact ⟨trieRootCursor_mapRoot h hc hM hU hfit, it, rest, hwalk, hdone, hsource⟩

theorem trieRoot_canonical_twoLeaves :
    trieRootCursor twoLeavesKeccak (witnessOf twoLeavesNodes)
        (mapRoot twoLeavesKeccak twoLeavesMap) (trieUpdatesBegin twoLeavesUpdates) =
      .ok { root := mapRoot twoLeavesKeccak (applyUpdates twoLeavesMap twoLeavesUpdates),
            changed := true } ∧
      ∃ it rest, trieRootWalk twoLeavesKeccak (witnessOf twoLeavesNodes)
        (mapRoot twoLeavesKeccak twoLeavesMap) (trieUpdatesBegin twoLeavesUpdates) =
          .ok (it, rest) ∧
        updatesEmpty rest = true ∧ rest.source = [] :=
  trieRoot_canonical sound_twoLeaves complete_twoLeaves fits_twoLeaves
    ascending_twoLeavesUpdates fits_twoLeavesUpdates

/-- The same of the entry point that takes a source of updates. -/
theorem trieRoot_mapRoot (h : Sound keccak256 db M) (hc : Complete keccak256 db M)
    (hM : MapFits M) {U : List TrieUpdate} (hU : Ascending U) (hfit : ∀ s ∈ U, UpdateFits s) :
    trieRoot keccak256 db (mapRoot keccak256 M) U =
      .ok { root := mapRoot keccak256 (applyUpdates M U), changed := decide (U ≠ []) } :=
  trieRootCursor_mapRoot h hc hM hU hfit

/-- On a partial witness every answer is that of any larger witness, and
right; what a missing node could change stops with a deficient witness. -/
theorem partialWitness_failClosed (keccak256 : List Byte → Hash)
    {db db' : Hash → StatelessInputSlice} (h : SubDb db db') :
    (∀ root key, trieLookup db root key = fatalError .witnessDeficient ∨
      trieLookup db root key = trieLookup db' root key) ∧
    (∀ root u, trieRootCursor keccak256 db root u = fatalError .witnessDeficient ∨
      trieRootCursor keccak256 db root u = trieRootCursor keccak256 db' root u) ∧
    ∀ M, Sound keccak256 db M → MapFits M →
      (∀ k v, trieLookup db (mapRoot keccak256 M) (keyPath k) = .ok v →
        v = (M.lookup k).getD []) ∧
      ∀ U r, Ascending U → (∀ s ∈ U, UpdateFits s) →
        trieRootCursor keccak256 db (mapRoot keccak256 M) (trieUpdatesBegin U) = .ok r →
        r = { root := mapRoot keccak256 (applyUpdates M U), changed := decide (U ≠ []) } := by
  refine ⟨upTo_trieLookup h, upTo_trieRootCursor h keccak256, fun M hs hM => ⟨?_, ?_⟩⟩
  · intro k v hv
    have := (upTo_trieLookup (subDb_completed keccak256 M) _ _).ok_eq hv
    rw [trieLookup_mapRoot hs.completed complete_completed hM] at this
    exact (Except.ok.inj this).symm
  · intro U r hU hfit hr
    have := (upTo_trieRootCursor (subDb_completed keccak256 M) _ _ _).ok_eq hr
    rw [trieRootCursor_mapRoot hs.completed complete_completed hM hU hfit] at this
    exact (Except.ok.inj this).symm

/-- Without the first leaf the lookup of its key stops, and that of the other
key answers as the whole witness does. -/
theorem partialWitness_failClosed_twoLeaves :
    trieLookup (witnessOf [leafOf 2, branchOf 0 1]) (mapRoot twoLeavesKeccak twoLeavesMap)
        (keyPath (keyAt 0)) = fatalError .witnessDeficient ∧
      trieLookup (witnessOf twoLeavesNodes) (mapRoot twoLeavesKeccak twoLeavesMap)
        (keyPath (keyAt 1)) = .ok [2] := by
  have hsub : SubDb (witnessOf [leafOf 2, branchOf 0 1]) (witnessOf twoLeavesNodes) :=
    subDb_witnessOf (by simp [twoLeavesNodes])
  have hmissing : trieLookup (witnessOf [leafOf 2, branchOf 0 1])
      (mapRoot twoLeavesKeccak twoLeavesMap) (keyPath (keyAt 1)) = .ok [2] := by
    rw [mapRoot_twoLeaves]
    decide +kernel
  refine ⟨?_, ?_⟩
  · rw [mapRoot_twoLeaves]
    decide +kernel
  · rcases (partialWitness_failClosed twoLeavesKeccak hsub).1
      (mapRoot twoLeavesKeccak twoLeavesMap) (keyPath (keyAt 1)) with hstop | hequal
    · rw [hmissing] at hstop
      cases hstop
    · rw [← hequal, hmissing]

end EvmSail
