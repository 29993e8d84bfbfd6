/-
# `EvmSail.Mpt.FailClosed` — partial witnesses

A node database can only be consulted for what it holds: on a smaller
database every walk returns what it returns on the larger one, or stops
with a deficient witness.  The order `UpTo` carries this through every
construct of the walker, so each lemma below follows the shape of its
definition.
-/
import EvmSail.Mpt.Walker

namespace EvmSail

open Fallible

/-- Every node of `db` is in `db'`. -/
def SubDb (db db' : Hash → StatelessInputSlice) : Prop :=
  ∀ h, db h ≠ [] → db' h = db h

/-- `x` returns what `y` returns, or found the witness deficient. -/
abbrev UpToWitness {α : Type} (x y : Result α) : Prop :=
  UpTo (Halt.fatal .witnessDeficient) x y

variable {db db' : Hash → StatelessInputSlice} (h : SubDb db db')

include h

/-- A lookup that stops on the empty answer. -/
theorem upTo_lookup {α : Type} (hash : Hash) (f : StatelessInputSlice → Result α) :
    UpToWitness
      (if (db hash).length = 0 then fatalError .witnessDeficient else f (db hash))
      (if (db' hash).length = 0 then fatalError .witnessDeficient else f (db' hash)) := by
  by_cases hd : db hash = []
  · rw [if_pos (by simp [hd])]
    exact .halted _
  · rw [h hash hd]
    exact .refl _

theorem upTo_resolveWitnessRef (r : NodeRef) :
    UpToWitness (resolveWitnessRef db r) (resolveWitnessRef db' r) := by
  cases r with
  | hashRef hash => exact upTo_lookup h hash fun node => .ok node
  | _ => exact .refl _

variable (keccak256 : List Byte → Hash)

theorem upTo_trieChildRef (it : TrieItem) (depth : Nat) :
    UpToWitness (trieChildRef keccak256 db it depth) (trieChildRef keccak256 db' it depth) := by
  refine UpTo.bind_right fun suffix => ?_
  cases it.value with
  | subtreeItem ref =>
    refine UpTo.ite (.refl _) ?_
    cases ref with
    | hashRef hash => exact upTo_lookup h hash (mergeExtNode keccak256 suffix)
    | _ => exact .refl _
  | _ => exact .refl _

theorem upTo_trieChildrenAdd (children : TrieChildren) (pfx : TriePath) (index : Nibble)
    (child : TrieItem) :
    UpToWitness (trieChildrenAdd keccak256 db children pfx index child)
      (trieChildrenAdd keccak256 db' children pfx index child) := by
  unfold trieChildrenAdd
  split
  · exact .refl _
  · refine .ite (.refl _) (.ite (.refl _) ?_)
    refine .bind_right fun _ => .bind_right fun _ => ?_
    refine .ite (.refl _) (.ite (.refl _) ?_)
    exact .bind_left (upTo_trieChildRef h keccak256 _ _)

theorem upTo_consumeChild {walk walk' : ChildWalk}
    (hw : ∀ u p, UpToWitness (walk u p) (walk' u p)) (pfx : TriePath) (nib : Nibble)
    (children : TrieChildren) (u : TrieUpdateCursor) :
    UpToWitness (consumeChild keccak256 db walk pfx nib children u)
      (consumeChild keccak256 db' walk' pfx nib children u) := by
  refine .bind_right fun _ => .bind_right fun _ => .bind_right fun _ => ?_
  refine .bind (hw _ _) fun ⟨child, next⟩ => ?_
  exact .bind_left (upTo_trieChildrenAdd h keccak256 _ _ _ _)

/-! ## The walks -/

theorem upTo_updatesChildren {walk walk' : ChildWalk}
    (hw : ∀ u p, UpToWitness (walk u p) (walk' u p)) (pfx : TriePath) (u : TrieUpdateCursor) :
    UpToWitness (updatesChildren keccak256 db walk pfx u)
      (updatesChildren keccak256 db' walk' pfx u) :=
  .loop (fun _ => .bind_right fun _ => upTo_consumeChild h keccak256 hw _ _ _ _) _

theorem upTo_updatesSubtree (u : TrieUpdateCursor) (pfx : TriePath) (cursor : Nat) :
    UpToWitness (updatesSubtree keccak256 db u pfx cursor)
      (updatesSubtree keccak256 db' u pfx cursor) := by
  induction hn : 64 - cursor using Nat.strongRecOn generalizing u pfx cursor with
  | _ n ih =>
  rw [updatesSubtree.eq_def keccak256 db, updatesSubtree.eq_def keccak256 db']
  have hp := pfx.length_nibbles_le
  by_cases hlen : pathLen pfx ≠ cursor
  · rw [dif_pos hlen, dif_pos hlen]
    exact .refl _
  rw [dif_neg hlen, dif_neg hlen]
  refine .ite (.refl _) ?_
  by_cases hend : cursor = 64
  · rw [dif_pos hend, dif_pos hend]
    exact .refl _
  rw [dif_neg hend, dif_neg hend]
  rw [pathLen_eq] at hlen
  refine .bind_left (upTo_updatesChildren h keccak256 (fun u p => ?_) _ _)
  exact ih (64 - (cursor + 1)) (by omega) u p (cursor + 1) rfl

theorem upTo_overlayChildren {existing : TrieItem} {nib : Nibble}
    {walkExisting walkExisting' walk walk' : ChildWalk}
    (he : ∀ u p, UpToWitness (walkExisting u p) (walkExisting' u p))
    (hw : ∀ u p, UpToWitness (walk u p) (walk' u p)) (pfx : TriePath) (u : TrieUpdateCursor) :
    UpToWitness (overlayChildren keccak256 db existing nib walkExisting walk pfx u)
      (overlayChildren keccak256 db' existing nib walkExisting' walk' pfx u) := by
  refine .loop (fun s => ?_) _
  have hadd := upTo_trieChildrenAdd h keccak256
  refine .ite ?_ (.bind_left (hadd _ _ _ _))
  refine .bind_right fun nibble => .ite (.bind_left (hadd _ _ _ _)) ?_
  refine .bind_left (upTo_consumeChild h keccak256 (fun u p => ?_) _ _ _ _)
  cases hc : s.existingPending && nibble == nib with
  | true => exact he u p
  | false => exact hw u p

theorem upTo_overlayLeafSubtree (u : TrieUpdateCursor) (pfx key : TriePath)
    (value : StatelessInputSlice) (cursor : Nat) :
    UpToWitness (overlayLeafSubtree keccak256 db u pfx key value cursor)
      (overlayLeafSubtree keccak256 db' u pfx key value cursor) := by
  induction hn : 64 - cursor using Nat.strongRecOn generalizing u pfx cursor with
  | _ n ih =>
  rw [overlayLeafSubtree.eq_def keccak256 db, overlayLeafSubtree.eq_def keccak256 db']
  have hp := pfx.length_nibbles_le
  by_cases hlen : pathLen pfx ≠ cursor ∨ ¬ pathPrefixOf pfx key
  · rw [dif_pos hlen, dif_pos hlen]
    exact .refl _
  rw [dif_neg hlen, dif_neg hlen]
  by_cases hend : cursor = 64
  · rw [dif_pos hend, dif_pos hend]
    exact .refl _
  rw [dif_neg hend, dif_neg hend]
  simp only [pathLen_eq, not_or, not_not] at hlen
  refine .bind_left (upTo_overlayChildren h keccak256 (fun u p => ?_) (fun u p => ?_) _ _)
  · exact ih (64 - (cursor + 1)) (by omega) u p (cursor + 1) rfl
  · exact upTo_updatesSubtree h keccak256 u p (cursor + 1)

theorem upTo_overlayExtensionSubtree
    {resume resume' : StatelessInputSlice → TrieUpdateCursor →
      Result (TrieItem × TrieUpdateCursor)}
    (hr : ∀ node u, UpToWitness (resume node u) (resume' node u)) (childref : NodeRef)
    (childPrefix : TriePath) (u : TrieUpdateCursor) (pfx : TriePath) (cursor : Nat) :
    UpToWitness (overlayExtensionSubtree keccak256 db resume childref childPrefix u pfx cursor)
      (overlayExtensionSubtree keccak256 db' resume' childref childPrefix u pfx cursor) := by
  induction hn : 64 - cursor using Nat.strongRecOn generalizing u pfx cursor with
  | _ n ih =>
  rw [overlayExtensionSubtree.eq_def keccak256 db, overlayExtensionSubtree.eq_def keccak256 db']
  have hp := pfx.length_nibbles_le
  by_cases hlen : pathLen pfx ≠ cursor ∨ ¬ pathPrefixOf pfx childPrefix
  · rw [dif_pos hlen, dif_pos hlen]
    exact .refl _
  rw [dif_neg hlen, dif_neg hlen]
  refine .ite (.ite (.bind (upTo_resolveWitnessRef h _) fun node => hr node _) (.refl _)) ?_
  by_cases hend : cursor = 64
  · rw [dif_pos hend, dif_pos hend]
    exact .refl _
  rw [dif_neg hend, dif_neg hend]
  simp only [pathLen_eq, not_or, not_not] at hlen
  refine .bind_left (upTo_overlayChildren h keccak256 (fun u p => ?_) (fun u p => ?_) _ _)
  · exact ih (64 - (cursor + 1)) (by omega) u p (cursor + 1) rfl
  · exact upTo_updatesSubtree h keccak256 u p (cursor + 1)

theorem upTo_branchRound {resume resume' : StatelessInputSlice → ChildWalk}
    {walk walk' : ChildWalk} (hr : ∀ node u p, UpToWitness (resume node u p) (resume' node u p))
    (hw : ∀ u p, UpToWitness (walk u p) (walk' u p)) (children : BranchRefs) (pfx : TriePath)
    (nib : Nibble) (s : TrieChildren × TrieUpdateCursor) :
    UpToWitness (branchRound keccak256 db resume walk children pfx nib s)
      (branchRound keccak256 db' resume' walk' children pfx nib s) := by
  refine .bind_right fun _ => .bind_right fun childPrefix => .bind_right fun updateHere => ?_
  refine .bind ?_ fun ⟨child, next⟩ => .bind_left (upTo_trieChildrenAdd h keccak256 _ _ _ _)
  refine .ite (.bind_right fun descended => .ite ?_ (hw _ _)) (.ite (.refl _) (.refl _))
  exact .bind (upTo_resolveWitnessRef h _) fun node => hr _ _ _

theorem upTo_witnessSubtree (node : StatelessInputSlice) (pfx : TriePath) (u : TrieUpdateCursor)
    (cursor : Nat) :
    UpToWitness (witnessSubtree keccak256 db node pfx u cursor)
      (witnessSubtree keccak256 db' node pfx u cursor) := by
  induction hn : 64 - cursor using Nat.strongRecOn generalizing node u pfx cursor with
  | _ n ih =>
  rw [witnessSubtree.eq_def keccak256 db, witnessSubtree.eq_def keccak256 db']
  have hp := pfx.length_nibbles_le
  by_cases hlen : pathLen pfx ≠ cursor
  · rw [dif_pos hlen, dif_pos hlen]
    exact .refl _
  rw [dif_neg hlen, dif_neg hlen]
  simp only [pathLen_eq, not_not] at hlen
  refine .ite (upTo_updatesSubtree h keccak256 _ _ _) ?_
  cases decodeInputTrieNode node with
  | error e => exact .refl _
  | ok decoded =>
    cases decoded with
    | leafNode path value => exact .bind_right fun key => upTo_overlayLeafSubtree h keccak256 ..
    | extensionNode path childref =>
      by_cases hext : pathLen path = 0 ∨ 64 < cursor + pathLen path
      · simp only [dif_pos hext]
        exact .refl _
      simp only [dif_neg hext]
      simp only [pathLen_eq, not_or, not_lt] at hext
      split
      · exact .refl _
      · rename_i childPrefix hcp
        have hcl := length_pathConcat hcp
        refine upTo_overlayExtensionSubtree h keccak256 (fun node u => ?_) _ _ _ _ _
        rw [pathLen_eq]
        exact ih (64 - childPrefix.nibbles.length) (by omega) node childPrefix u _ rfl
    | branchNode children value =>
      by_cases hbr : value.length ≠ 0 ∨ 64 ≤ cursor
      · simp only [dif_pos hbr]
        exact .refl _
      simp only [dif_neg hbr]
      simp only [not_or, not_le] at hbr
      refine .bind_left (.foreach (fun nib s => ?_) _)
      refine upTo_branchRound h keccak256 (fun node u p => ?_) (fun u p => ?_) _ _ _ _
      · exact ih (64 - (cursor + 1)) (by omega) node p u (cursor + 1) rfl
      · exact upTo_updatesSubtree h keccak256 u p (cursor + 1)

/-- The root computation on a partial witness. -/
theorem upTo_trieRootCursor (baseRoot : Hash) (u : TrieUpdateCursor) :
    UpToWitness (trieRootCursor keccak256 db baseRoot u)
      (trieRootCursor keccak256 db' baseRoot u) := by
  refine .ite (.refl _) (.bind ?_ fun ⟨subtree, remaining⟩ => ?_)
  · refine .ite (upTo_updatesSubtree h keccak256 _ _ _) ?_
    have hw := fun node => upTo_witnessSubtree h keccak256 node pathEmpty u 0
    by_cases hd : db baseRoot = []
    · rw [if_pos (by simp [hd])]
      exact .halted _
    · simp only [h baseRoot hd]
      exact .ite (.refl _) (hw _)
  · refine .ite (.bind_left ?_) (.refl _)
    unfold trieSubtreeRoot
    split
    · exact .refl _
    · exact .bind_left (upTo_trieChildRef h keccak256 _ _)

omit keccak256 in
theorem upTo_trieWalk (node : StatelessInputSlice) (key : TriePath) (pos : Nat) :
    UpToWitness (trieWalk db node key pos) (trieWalk db' node key pos) := by
  induction hn : 64 - pos using Nat.strongRecOn generalizing node pos with
  | _ n ih =>
  rw [trieWalk.eq_def db, trieWalk.eq_def db']
  have hk := key.length_nibbles_le
  refine .ite (.refl _) ?_
  cases decodeInputTrieNode node with
  | error e => exact .refl _
  | ok decoded =>
    cases decoded with
    | leafNode path value => exact .refl _
    | extensionNode path childref =>
      by_cases hext : pathLen path = 0
      · simp only [dif_pos hext]
        exact .refl _
      simp only [dif_neg hext]
      refine .ite (.refl _) ?_
      by_cases hle : pos + pathLen path ≤ 64
      · simp only [dif_pos hle]
        refine .bind (upTo_resolveWitnessRef h _) fun child => ?_
        exact ih (64 - (pos + pathLen path)) (by omega) child _ rfl
      · simp only [dif_neg hle]
        exact .refl _
    | branchNode children value =>
      refine .ite (.refl _) ?_
      by_cases hlt : pos < pathLen key
      · simp only [dif_pos hlt]
        rw [pathLen_eq] at hlt
        refine .bind (upTo_resolveWitnessRef h _) fun child => ?_
        exact ih (64 - (pos + 1)) (by omega) child _ rfl
      · simp only [dif_neg hlt]
        exact .refl _

omit keccak256 in
/-- The lookup on a partial witness. -/
theorem upTo_trieLookup (root : Hash) (key : TriePath) :
    UpToWitness (trieLookup db root key) (trieLookup db' root key) := by
  refine .ite (.refl _) ?_
  have hw := fun node => upTo_trieWalk h node key 0
  by_cases hd : db root = []
  · rw [if_pos (by simp [hd])]
    exact .halted _
  · simp only [h root hd]
    exact .ite (.refl _) (hw _)

end EvmSail
