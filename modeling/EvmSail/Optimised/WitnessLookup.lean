/-
# `EvmSail.Optimised.WitnessLookup` — point lookups and the walk of the specification

`mptPointLookupLoop` follows the key through the rows of the table;
`trieWalk` decodes every node it comes to, with `witnessDb` for the database.
The loop returns what the walk returns, where the walk came through `WellFormed`
nodes only (`mptPointLookupLoop_spec`).
-/
import EvmSail.Mpt.KeyValueMap
import EvmSail.Mpt.Walker
import EvmSail.Optimised.WitnessLinks

namespace EvmSail.Optimised

open Fallible

/-! ## Keys -/

theorem mptHashNibble_eq {key : Hash} {position : Nat} (h : position < 64) :
    mptHashNibble key position = pathNibble (keyPath key) position := by
  have hnibble : pathNibble (keyPath key) position = b256Nibble key position := by
    rw [pathNibble]
    exact if_neg (Nat.not_le_of_lt h)
  have hbyte : sliceByte key.toList (position / 2) = (key[position / 2]?).getD 0 := by
    rw [sliceByte, Vector.getElem?_toList]
  rw [hnibble, mptHashNibble, b256Nibble, hbyte]
  by_cases hodd : position % 2 = 1
  · rw [if_pos hodd, if_neg (by omega)]
  · rw [if_neg hodd, if_pos (by omega)]

theorem mptKeyMatches_eq (key : Hash) (position : Nat) (path : TriePath) :
    mptKeyMatches key position path.nibbles = pathMatches (keyPath key) position path := by
  have hlen : pathLen (keyPath key) = 64 := rfl
  rw [mptKeyMatches, pathMatches, hlen, pathLen_eq path, mptSecureKeyNibbles]
  by_cases hfits : 64 < position + path.nibbles.length
  · rw [if_pos hfits]
    exact (if_pos hfits).symm
  · rw [if_neg hfits]
    refine Eq.trans (Bool.eq_iff_iff.mpr ?_) (if_neg hfits).symm
    rw [List.all_eq_true, List.all_eq_true]
    refine forall_congr' fun i => forall_congr' fun hi => ?_
    have hi : i < path.nibbles.length := List.mem_range.mp hi
    rw [mptHashNibble_eq (by omega), beq_iff_eq, beq_iff_eq, pathNibble_eq path,
      List.getElem?_eq_getElem hi, Option.getD_some, Option.some.injEq, eq_comm]

/-! ## References -/

/-- The node database of the table: the bytes of the row of a digest. -/
def witnessDb (data : NodeId → Option (List Byte)) (index : Hash → Option NodeId) (digest : Hash) :
    StatelessInputSlice :=
  ((index digest).bind data).getD []

theorem SameNode.matches {node cached : DecodedNode} (h : SameNode node cached) {t : TrieNode}
    (ht : NodeMatches node t) : NodeMatches cached t := by
  have href : ∀ {x ref}, RefMatches (node.child x) ref → RefMatches (cached.child x) ref := by
    intro x ref hm
    have hencoded := h.encoded x
    cases hm with
    | empty he => exact .empty (hencoded.trans he)
    | inline he hne => exact .inline (hencoded.trans he) hne
    | hashed he hlen => exact .hashed (hencoded.trans he) hlen
  cases ht with
  | leaf hkind hpath =>
    rw [← h.value]
    exact .leaf (h.kind.trans hkind) (hpath.trans h.path.symm)
  | extension hkind hpath hchild =>
    exact .extension (h.kind.trans hkind) (hpath.trans h.path.symm) (href hchild)
  | branch hkind hchildren =>
    rw [← h.value]
    exact .branch (h.kind.trans hkind) fun x => href (hchildren x)

theorem RefMatches.eq_emptyRef {child : WitnessChild} {ref : NodeRef} (h : RefMatches child ref)
    (hempty : mptWitnessChildKind child = .empty) : ref = .emptyRef := by
  have hsome : ∀ {e}, child.encoded ≠ some e := by
    intro e he
    rw [mptWitnessChildKind_eq he] at hempty
    split at hempty <;> cases hempty
  cases h with
  | empty _ => rfl
  | inline he _ => exact absurd he hsome
  | hashed he _ => exact absurd he hsome

section

variable {node : DecodedNode} {t : TrieNode}

theorem NodeMatches.of_leaf (h : NodeMatches node t) (hkind : node.kind = .leaf) :
    ∃ path, t = .leafNode path node.value ∧ path.nibbles = node.path := by
  cases h with
  | @leaf path _ hpath => exact ⟨path, rfl, hpath⟩
  | extension hkind' =>
    rw [hkind] at hkind'
    cases hkind'
  | branch hkind' =>
    rw [hkind] at hkind'
    cases hkind'

theorem NodeMatches.of_extension (h : NodeMatches node t) (hkind : node.kind = .extension) :
    ∃ path ref, t = .extensionNode path ref ∧ path.nibbles = node.path ∧
      RefMatches (node.child 0) ref := by
  cases h with
  | leaf hkind' =>
    rw [hkind] at hkind'
    cases hkind'
  | @extension path ref _ hpath href => exact ⟨path, ref, rfl, hpath, href⟩
  | branch hkind' =>
    rw [hkind] at hkind'
    cases hkind'

theorem NodeMatches.of_branch (h : NodeMatches node t) (hkind : node.kind = .branch) :
    ∃ children, t = .branchNode children node.value ∧
      ∀ x, RefMatches (node.child x) (branchRefsGet children x) := by
  cases h with
  | leaf hkind' =>
    rw [hkind] at hkind'
    cases hkind'
  | extension hkind' =>
    rw [hkind] at hkind'
    cases hkind'
  | @branch children _ hrefs => exact ⟨children, rfl, hrefs⟩

end

section

variable {keccak256 : List Byte → Hash} {inputs : List (List Byte)}
  {data : NodeId → Option (List Byte)} {index : Hash → Option NodeId} {table : WitnessNodeTable}

/-- Following a child resolves its reference. -/
theorem Readable.resolve (h : Readable keccak256 inputs data index table) {child : WitnessChild}
    {ref : NodeRef} (href : RefMatches child ref) {e : List Byte} {nodeId : NodeId}
    (hlinked : FollowedTo data index child e nodeId) :
    resolveWitnessRef (witnessDb data index) ref = .ok e ∧ (e = [] ∨ data nodeId = some e) := by
  cases hlinked with
  | empty hnone =>
    cases href with
    | empty _ => exact ⟨rfl, Or.inl rfl⟩
    | inline he _ =>
      rw [hnone] at he
      cases he
    | hashed he _ =>
      rw [hnone] at he
      cases he
  | inline hsome hlen hdata =>
    cases href with
    | empty he =>
      rw [hsome] at he
      cases he
    | inline he _ =>
      rw [hsome] at he
      cases he
      exact ⟨rfl, Or.inr hdata⟩
    | hashed he hlen' =>
      rw [hsome] at he
      cases he
      exact absurd hlen' hlen
  | hashed hsome hlen hindex hdata =>
    cases href with
    | empty he =>
      rw [hsome] at he
      cases he
    | @inline node he _ =>
      have hle := node.len_le
      rw [hsome] at he
      cases he
      omega
    | hashed he _ =>
      rw [hsome] at he
      cases he
      have hnode : ∀ {digest}, index digest = some nodeId → witnessDb data index digest = e := by
        intro digest hindex
        rw [witnessDb, hindex, Option.bind_some, hdata, Option.getD_some]
      have hne := (h.ne_empty hdata).2
      rw [resolveWitnessRef, hnode hindex]
      exact ⟨if_neg fun hzero => hne (List.eq_nil_of_length_eq_zero hzero), Or.inr hdata⟩

/-- A digest the index does not have is deficient for the specification too. -/
theorem resolve_unindexed {child : WitnessChild} {ref : NodeRef} (href : RefMatches child ref)
    {digest : List Byte} (he : child.encoded = some digest) (hlen : digest.length = 32)
    (hindex : index (hashFromBeBytes digest) = none) :
    resolveWitnessRef (witnessDb data index) ref = fatalError .witnessDeficient := by
  cases href with
  | empty he' =>
    rw [he] at he'
    cases he'
  | @inline node he' _ =>
    have hle := node.len_le
    rw [he] at he'
    cases he'
    omega
  | hashed he' _ =>
    rw [he] at he'
    cases he'
    rw [resolveWitnessRef, witnessDb, hindex]
    rfl

/-- Following a child of a row gives what its reference resolves to. -/
theorem Readable.follow (h : Readable keccak256 inputs data index table) {parent : NodeId}
    {row : WitnessNode} {node : DecodedNode} (hrow : nodeAt table parent = some row)
    (hnode : row.decoded = some node) {x : Nibble} (hchild : ChildLinked data index (node.child x))
    {ref : NodeRef} (href : RefMatches (node.child x) ref) :
    (∃ e nodeId table', mptLinkWitnessChild table parent node x = .ok ((e, nodeId), table') ∧
        resolveWitnessRef (witnessDb data index) ref = .ok e ∧
        (e = [] ∨ data nodeId = some e) ∧ Readable keccak256 inputs data index table') ∨
      mptLinkWitnessChild table parent node x = fatalError .witnessDeficient ∧
        resolveWitnessRef (witnessDb data index) ref = fatalError .witnessDeficient := by
  rcases h.link hrow hnode hchild with ⟨e, nodeId, table', hlink, hlinked, hnext⟩ |
    ⟨hlink, digest, he, hlen, hindex⟩
  · obtain ⟨hresolve, hdata⟩ := h.resolve href hlinked
    exact Or.inl ⟨e, nodeId, table', hlink, hresolve, hdata, hnext⟩
  · exact Or.inr ⟨hlink, resolve_unindexed href he hlen hindex⟩

end

/-! ## The walk -/

/-- One step of the walk of a key, from a node to its child. -/
inductive WalkStep (db : Hash → StatelessInputSlice) (key : TriePath) :
    StatelessInputSlice → Nat → StatelessInputSlice → Nat → Prop
  | extension {node child : StatelessInputSlice} {pos : Nat} {path : TriePath} {ref : NodeRef} :
      decodeInputTrieNode node = .ok (.extensionNode path ref) →
      pathMatches key pos path = true → resolveWitnessRef db ref = .ok child →
      WalkStep db key node pos child (pos + pathLen path)
  | branch {node child : StatelessInputSlice} {pos : Nat} {children : BranchRefs}
      {value : List Byte} : decodeInputTrieNode node = .ok (.branchNode children value) →
      pos < pathLen key →
      resolveWitnessRef db (branchRefsGet children (pathNibble key pos)) = .ok child →
      WalkStep db key node pos child (pos + 1)

/-- The nodes the specification comes to on the way of a key. -/
inductive Reached (db : Hash → StatelessInputSlice) (key : TriePath) :
    StatelessInputSlice → Nat → StatelessInputSlice → Prop
  | here (node : StatelessInputSlice) (pos : Nat) : Reached db key node pos node
  | step {node child reached : StatelessInputSlice} {pos next : Nat} :
      WalkStep db key node pos child next → Reached db key child next reached →
      Reached db key node pos reached

theorem WalkStep.unique {db : Hash → StatelessInputSlice} {key : TriePath}
    {node child child' : StatelessInputSlice} {pos next next' : Nat}
    (h : WalkStep db key node pos child next) (h' : WalkStep db key node pos child' next') :
    child' = child ∧ next' = next := by
  cases h with
  | extension ht _ hresolve =>
    cases h' with
    | extension ht' _ hresolve' =>
      rw [ht] at ht'
      cases ht'
      rw [hresolve] at hresolve'
      cases hresolve'
      exact ⟨rfl, rfl⟩
    | branch ht' =>
      rw [ht] at ht'
      cases ht'
  | branch ht _ hresolve =>
    cases h' with
    | extension ht' =>
      rw [ht] at ht'
      cases ht'
    | branch ht' _ hresolve' =>
      rw [ht] at ht'
      cases ht'
      rw [hresolve] at hresolve'
      cases hresolve'
      exact ⟨rfl, rfl⟩

section

variable {db : Hash → StatelessInputSlice} {node : StatelessInputSlice} {key : TriePath} {pos : Nat}

theorem trieWalk_nil : trieWalk db [] key pos = .ok [] := by
  rw [trieWalk, if_pos List.length_nil]

theorem trieWalk_leaf {path : TriePath} {value : List Byte} (hne : node.length ≠ 0)
    (ht : decodeInputTrieNode node = .ok (.leafNode path value)) :
    trieWalk db node key pos =
      if pos + pathLen path = pathLen key ∧ pathMatches key pos path = true then .ok value
      else .ok [] := by
  rw [trieWalk, if_neg hne, ht]
  dsimp only
  by_cases hmatch : pathMatches key pos path = true
  · rw [if_neg (not_not.mpr hmatch)]
    by_cases hend : pos + pathLen path = pathLen key
    · rw [if_pos hend, if_pos ⟨hend, hmatch⟩]
    · rw [if_neg hend, if_neg fun h => hend h.1]
  · rw [if_pos hmatch, if_neg fun h => hmatch h.2]

theorem trieWalk_extension {path : TriePath} {ref : NodeRef} (hne : node.length ≠ 0)
    (ht : decodeInputTrieNode node = .ok (.extensionNode path ref)) (hpath : pathLen path ≠ 0) :
    trieWalk db node key pos =
      if pathMatches key pos path = true then
        resolveWitnessRef db ref >>= fun child => trieWalk db child key (pos + pathLen path)
      else .ok [] := by
  rw [trieWalk, if_neg hne, ht]
  dsimp only
  rw [dif_neg hpath]
  by_cases hmatch : pathMatches key pos path = true
  · have hlen := key.length_nibbles_le
    have hfits : pos + pathLen path ≤ 64 := by
      rw [← pathLen_eq] at hlen
      rw [pathMatches] at hmatch
      split at hmatch
      · cases hmatch
      · omega
    rw [if_neg (not_not.mpr hmatch), if_pos hmatch, dif_pos hfits]
  · rw [if_pos hmatch, if_neg hmatch]

theorem trieWalk_branch {children : BranchRefs} {value : List Byte} (hne : node.length ≠ 0)
    (ht : decodeInputTrieNode node = .ok (.branchNode children value)) (hpos : pos ≤ pathLen key) :
    trieWalk db node key pos =
      if pos = pathLen key then .ok value
      else resolveWitnessRef db (branchRefsGet children (pathNibble key pos)) >>= fun child =>
        trieWalk db child key (pos + 1) := by
  rw [trieWalk, if_neg hne, ht]
  dsimp only
  by_cases hend : pos = pathLen key
  · rw [if_pos hend, if_pos hend]
  · rw [if_neg hend, if_neg hend, dif_pos (Nat.lt_of_le_of_ne hpos hend)]

end

/-- A lookup returns where and what the walk returns, if the walk came through
well-formed nodes only, and else fails. -/
def LookupFollows (db : Hash → StatelessInputSlice) (key : Hash) (encoded : List Byte)
    (position : Nat) (P : WitnessNodeTable → Prop) :
    Result (PointLookup × WitnessNodeTable) → Prop
  | .ok (lookup, table) =>
    trieWalk db encoded (keyPath key) position = .ok lookup.value ∧
      (∀ node, Reached db (keyPath key) encoded position node → WellFormed node) ∧ P table
  | .error _ => ∀ value, trieWalk db encoded (keyPath key) position = .ok value →
      ∃ node, Reached db (keyPath key) encoded position node ∧ ¬ WellFormed node

/-- A node the walk ends at. -/
theorem LookupFollows.stop {db : Hash → StatelessInputSlice} {key : Hash} {encoded : List Byte}
    {position : Nat} {P : WitnessNodeTable → Prop} {lookup : PointLookup}
    {table : WitnessNodeTable}
    (hwalk : trieWalk db encoded (keyPath key) position = .ok lookup.value)
    (hwf : WellFormed encoded)
    (hlast : ∀ child next, ¬ WalkStep db (keyPath key) encoded position child next) (h : P table) :
    LookupFollows db key encoded position P (.ok (lookup, table)) := by
  refine ⟨hwalk, fun node hnode => ?_, h⟩
  cases hnode with
  | here => exact hwf
  | step hstep _ => exact absurd hstep (hlast _ _)

/-- A step both take. -/
theorem LookupFollows.step {db : Hash → StatelessInputSlice} {key : Hash}
    {encoded child : List Byte} {position next : Nat} {P : WitnessNodeTable → Prop}
    {result : Result (PointLookup × WitnessNodeTable)}
    (h : LookupFollows db key child next P result)
    (hwalk : trieWalk db encoded (keyPath key) position = trieWalk db child (keyPath key) next)
    (hwf : WellFormed encoded) (hstep : WalkStep db (keyPath key) encoded position child next) :
    LookupFollows db key encoded position P result := by
  cases result with
  | ok answer =>
    obtain ⟨hvalue, hreached, htable⟩ := h
    refine ⟨hwalk.trans hvalue, fun node hnode => ?_, htable⟩
    cases hnode with
    | here => exact hwf
    | step hstep' hnode =>
      obtain ⟨rfl, rfl⟩ := hstep.unique hstep'
      exact hreached node hnode
  | error e =>
    intro value hvalue
    obtain ⟨node, hnode, hwf⟩ := h value (hwalk.symm.trans hvalue)
    exact ⟨node, .step hstep hnode, hwf⟩

theorem rlpSingleRef_nil {root : RlpFieldRef} : rlpSingleRef [] ≠ .ok root := by
  intro h
  obtain ⟨hroot, hsource⟩ := rlpSingleRef_eq_ok.mp h
  exact hroot.source_ne_nil hsource

/-- An empty node ends the walk. -/
theorem LookupFollows.nil {db : Hash → StatelessInputSlice} {key : Hash} {position : Nat}
    {P : WitnessNodeTable → Prop} {terminalNode : NodeId} {table : WitnessNodeTable}
    (h : P table) : LookupFollows db key [] position P (.ok (⟨[], terminalNode⟩, table)) := by
  have hdecode : ∀ {t}, decodeInputTrieNode [] ≠ .ok t := by
    intro t ht
    obtain ⟨root, _, hroot, _⟩ := decodeInputTrieNode_eq_ok.mp ht
    exact rlpSingleRef_nil hroot
  refine .stop trieWalk_nil ⟨?_, ?_, ?_⟩ (fun child next hstep => ?_) h
  · exact fun _ _ _ hroot => absurd hroot rlpSingleRef_nil
  · exact fun _ _ _ _ hroot => absurd hroot rlpSingleRef_nil
  · exact fun _ _ _ hroot => absurd hroot rlpSingleRef_nil
  · cases hstep with
    | extension ht => exact hdecode ht
    | branch ht => exact hdecode ht

/-- A child both fail at. -/
theorem LookupFollows.deficient {db : Hash → StatelessInputSlice} {key : Hash} {encoded : List Byte}
    {position : Nat} {P : WitnessNodeTable → Prop}
    (hwalk : trieWalk db encoded (keyPath key) position = fatalError .witnessDeficient) :
    LookupFollows db key encoded position P (fatalError .witnessDeficient) := by
  intro value hvalue
  rw [hwalk] at hvalue
  cases hvalue

/-- The lookup below a row, and the walk at its bytes. -/
theorem mptPointLookupLoop_spec {keccak256 : List Byte → Hash} {inputs : List (List Byte)}
    {data : NodeId → Option (List Byte)} {index : Hash → Option NodeId} {table : WitnessNodeTable}
    (h : Readable keccak256 inputs data index table) (key : Hash) {nodeId : NodeId}
    {encoded : List Byte} (hencoded : encoded = [] ∨ data nodeId = some encoded)
    (terminalNode : NodeId) {position : Nat} (hposition : position ≤ mptSecureKeyNibbles) :
    LookupFollows (witnessDb data index) key encoded position (Readable keccak256 inputs data index)
      (mptPointLookupLoop key table nodeId encoded terminalNode position hposition) := by
  induction hn : mptSecureKeyNibbles - position using Nat.strongRecOn
    generalizing table nodeId encoded terminalNode position with
  | _ n ih =>
    have hkey : pathLen (keyPath key) = mptSecureKeyNibbles := rfl
    rw [mptPointLookupLoop]
    rcases hencoded with rfl | hdata
    · rw [if_pos List.length_nil]
      exact .nil h
    have hne : encoded.length ≠ 0 :=
      fun hzero => (h.ne_empty hdata).2 (List.eq_nil_of_length_eq_zero hzero)
    rw [if_neg hne]
    rcases h.decode hdata with ⟨hnode, herror⟩ |
      ⟨node, cached, row, hnode, hsame, hread, hrow, hcached, hchildren⟩
    · rw [herror]
      intro value hwalk
      refine ⟨encoded, .here encoded position, fun hwf => ?_⟩
      rw [trieWalk, if_neg hne] at hwalk
      cases ht : decodeInputTrieNode encoded with
      | error e =>
        rw [ht] at hwalk
        cases hwalk
      | ok t =>
        obtain ⟨node, hsome⟩ := mptDecode_complete hwf ht
        rw [hnode] at hsome
        cases hsome
    · rw [hread]
      have hwf := WellFormed.of_decode hnode
      obtain ⟨t, ht, hmatches⟩ := mptDecode_sound hnode
      replace hmatches := hsame.matches hmatches
      dsimp only
      split
      · rename_i hkind
        obtain ⟨path, rfl, hpath⟩ := hmatches.of_leaf hkind
        have hwalk := @trieWalk_leaf (witnessDb data index) _ (keyPath key) position _ _ hne ht
        have hlast : ∀ child next,
            ¬ WalkStep (witnessDb data index) (keyPath key) encoded position child next := by
          intro child next hstep
          cases hstep with
          | extension ht' =>
            rw [ht] at ht'
            cases ht'
          | branch ht' =>
            rw [ht] at ht'
            cases ht'
        rw [← mptKeyMatches_eq, pathLen_eq path, hpath, hkey] at hwalk
        split
        · rename_i hfound
          rw [if_pos hfound] at hwalk
          exact .stop hwalk hwf hlast h
        · rename_i hmissing
          rw [if_neg hmissing] at hwalk
          exact .stop hwalk hwf hlast h
      · rename_i hkind
        obtain ⟨path, ref, rfl, hpath, href⟩ := hmatches.of_extension hkind
        have hne' := cached.path_ne hkind
        have hlen : pathLen path = cached.path.length := by rw [pathLen_eq, hpath]
        have hwalk := @trieWalk_extension (witnessDb data index) _ (keyPath key) position _ _ hne ht
          (hlen ▸ hne')
        have hmatch := mptKeyMatches_eq key position path
        rw [hpath] at hmatch
        rw [← hmatch] at hwalk
        split
        · rename_i hmatches
          have hle := position_le_of_match hmatches
          rw [if_pos hmatches] at hwalk
          rcases h.follow hrow hcached (hchildren 0) href with
            ⟨e, childId, table', hlink, hresolve, hdata', hnext⟩ | ⟨hlink, hresolve⟩
          · rw [hlink]
            rw [hresolve, ok_bind, hlen] at hwalk
            have hstep := WalkStep.extension ht (hmatch ▸ hmatches) hresolve
            rw [hlen] at hstep
            exact LookupFollows.step (ih _ (by omega) hnext hdata' nodeId hle rfl) hwalk hwf hstep
          · rw [hlink]
            rw [hresolve] at hwalk
            exact .deficient hwalk
        · rename_i hmismatch
          rw [if_neg hmismatch] at hwalk
          refine .stop hwalk hwf (fun child next hstep => ?_) h
          cases hstep with
          | extension ht' hmatches =>
            rw [ht] at ht'
            cases ht'
            exact hmismatch (hmatch ▸ hmatches)
          | branch ht' =>
            rw [ht] at ht'
            cases ht'
      · rename_i hkind
        obtain ⟨children, rfl, hrefs⟩ := hmatches.of_branch hkind
        have hwalk := @trieWalk_branch (witnessDb data index) _ (keyPath key) _ _ _ hne ht hposition
        rw [hkey] at hwalk
        split
        · rename_i hend
          rw [if_pos hend] at hwalk
          refine .stop hwalk hwf (fun child next hstep => ?_) h
          cases hstep with
          | extension ht' =>
            rw [ht] at ht'
            cases ht'
          | branch _ hlt => exact absurd hend (Nat.ne_of_lt hlt)
        · rename_i hend
          have hlt : position < mptSecureKeyNibbles := Nat.lt_of_le_of_ne hposition hend
          rw [if_neg hend, ← mptHashNibble_eq hlt] at hwalk
          have href := hrefs (mptHashNibble key position)
          split
          · rename_i hempty
            have hresolve : resolveWitnessRef (witnessDb data index)
                (branchRefsGet children (mptHashNibble key position)) = .ok [] := by
              rw [href.eq_emptyRef hempty, resolveWitnessRef]
            rw [hresolve, ok_bind] at hwalk
            rw [mptHashNibble_eq hlt] at hresolve
            exact LookupFollows.step (.nil h) hwalk hwf (.branch ht hlt hresolve)
          · rcases h.follow hrow hcached (hchildren _) href with
              ⟨e, childId, table', hlink, hresolve, hdata', hnext⟩ | ⟨hlink, hresolve⟩
            · rw [hlink]
              rw [hresolve, ok_bind] at hwalk
              rw [mptHashNibble_eq hlt] at hresolve
              exact LookupFollows.step (ih _ (by omega) hnext hdata' nodeId hlt rfl) hwalk hwf
                (.branch ht hlt hresolve)
            · rw [hlink]
              rw [hresolve] at hwalk
              exact .deficient hwalk

/-! ## Lookups -/

/-- The nodes of a lookup from a root. -/
def OnPath (db : Hash → StatelessInputSlice) (root key : Hash) (node : StatelessInputSlice) :
    Prop :=
  root ≠ emptyTrieRoot ∧ Reached db (keyPath key) (db root) 0 node

/-- A lookup returns where and what `trieLookup` returns, if the nodes on the path
are well-formed, and else fails. -/
def Finds (db : Hash → StatelessInputSlice) (root key : Hash) (P : WitnessNodeTable → Prop) :
    Result (PointLookup × WitnessNodeTable) → Prop
  | .ok (lookup, table) =>
    trieLookup db root (keyPath key) = .ok lookup.value ∧
      (∀ node, OnPath db root key node → WellFormed node) ∧ P table
  | .error _ => ∀ value, trieLookup db root (keyPath key) = .ok value →
      ∃ node, OnPath db root key node ∧ ¬ WellFormed node

/-- The row a root is bound to. -/
def boundRoot (index : Hash → Option NodeId) (root : Hash) : NodeId :=
  if root = emptyTrieRoot then mptNodeIdEmpty else (index root).getD mptNodeIdUnlinked

section

variable {keccak256 : List Byte → Hash} {inputs : List (List Byte)}
  {data : NodeId → Option (List Byte)} {index : Hash → Option NodeId} {table : WitnessNodeTable}

theorem Readable.bindStorageRoot (h : Readable keccak256 inputs data index table) (root : Hash) :
    (mptBindStorageRootIdentity table root).1 = boundRoot index root ∧
      Readable keccak256 inputs data index (mptBindStorageRootIdentity table root).2 := by
  obtain ⟨hanswer, hnext⟩ := h.lookup root
  rw [mptBindStorageRootIdentity, boundRoot]
  split
  · exact ⟨rfl, h⟩
  · exact ⟨congrArg (·.getD mptNodeIdUnlinked) hanswer, hnext⟩

/-- Reading from a root that is not witnessed. -/
theorem trieLookup_unindexed {root : Hash} {key : TriePath} (hroot : root ≠ emptyTrieRoot)
    (hindex : index root = none) :
    trieLookup (witnessDb data index) root key = fatalError .witnessDeficient := by
  have hnode : witnessDb data index root = [] := by rw [witnessDb, hindex]; rfl
  rw [trieLookup, if_neg hroot]
  dsimp only
  rw [hnode, if_pos List.length_nil]

theorem mptPointLookupNode_spec (h : Readable keccak256 inputs data index table) (root key : Hash) :
    Finds (witnessDb data index) root key (Readable keccak256 inputs data index)
      (mptPointLookupNode table (boundRoot index root) key) := by
  rw [mptPointLookupNode, boundRoot]
  by_cases hroot : root = emptyTrieRoot
  · rw [if_pos hroot, if_pos rfl]
    refine ⟨?_, fun node hnode => absurd hroot hnode.1, h⟩
    rw [trieLookup, if_pos hroot]
  rw [if_neg hroot]
  cases hindex : index root with
  | none =>
    have hspan : mptNodeSpan table mptNodeIdUnlinked = fatalError .witnessDeficient := by
      rw [mptNodeSpan, if_neg (by decide), witnessNodeRow, if_pos (Or.inl rfl)]
      rfl
    rw [Option.getD_none, if_neg (by decide), hspan]
    intro value hvalue
    rw [trieLookup_unindexed hroot hindex] at hvalue
    cases hvalue
  | some nodeId =>
    obtain ⟨e, he⟩ := h.indexed_row hindex
    obtain ⟨hid, hne⟩ := h.ne_empty he
    have hnode : witnessDb data index root = e := by
      rw [witnessDb, hindex, Option.bind_some, he, Option.getD_some]
    have hlookup : trieLookup (witnessDb data index) root (keyPath key) =
        trieWalk (witnessDb data index) e (keyPath key) 0 := by
      rw [trieLookup, if_neg hroot]
      dsimp only
      rw [hnode, if_neg fun hzero => hne (List.eq_nil_of_length_eq_zero hzero)]
    have hloop := mptPointLookupLoop_spec h key (Or.inr he) mptNodeIdEmpty (Nat.zero_le _)
    rw [Option.getD_some, if_neg hid, h.span he, ok_bind]
    generalize mptPointLookupLoop key table nodeId e mptNodeIdEmpty 0 _ = result at hloop ⊢
    cases result with
    | ok answer =>
      refine ⟨hlookup.trans hloop.1, fun node hreached => hloop.2.1 node ?_, hloop.2.2⟩
      exact hnode ▸ hreached.2
    | error err =>
      intro value hvalue
      obtain ⟨node, hreached, hwf⟩ := hloop value (hlookup.symm.trans hvalue)
      exact ⟨node, ⟨hroot, hnode ▸ hreached⟩, hwf⟩

theorem mptPointLookup_spec (h : Readable keccak256 inputs data index table) (root key : Hash) :
    Finds (witnessDb data index) root key (Readable keccak256 inputs data index)
      (mptPointLookup table root key) := by
  obtain ⟨hanswer, hnext⟩ := h.lookup root
  rw [mptPointLookup, mptBindRoot]
  by_cases hroot : root = emptyTrieRoot
  · have hlookup := mptPointLookupNode_spec h root key
    rw [boundRoot, if_pos hroot] at hlookup
    rw [if_pos hroot, ok_bind]
    exact hlookup
  rw [if_neg hroot]
  have hlookup := mptPointLookupNode_spec hnext root key
  rw [boundRoot, if_neg hroot] at hlookup
  generalize mptNodeIndexLookup table root = answer at hanswer hlookup
  obtain ⟨answer, table'⟩ := answer
  cases answer with
  | none =>
    intro value hvalue
    rw [trieLookup_unindexed hroot hanswer.symm] at hvalue
    cases hvalue
  | some nodeId =>
    rw [← show some nodeId = index root from hanswer] at hlookup
    exact hlookup

end

end EvmSail.Optimised
