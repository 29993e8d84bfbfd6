/-
# `EvmSail.Mpt.Walker` — the witness-native trie

The recursive walk that merges an ordered update stream into the witness
trie, and the lookup walk.  Every loop is a `Fallible.loop` with the
termination measure the source declares for it, and every recursive
function recurses on the source's own measure, `64 - cursor`.

`overlayLeafSubtree` and `overlayExtensionSubtree` run one loop with two
existing items; it is `overlayChildren`, with that item and the recursive
call on it as parameters.  An extension's terminal child resumes the walk
of decoded nodes, so `overlayExtensionSubtree` takes that walk as an
argument.
-/
import EvmSail.Mpt.Updates

namespace EvmSail

open Fallible

/-! ## The cursor seen from a prefix -/

/-- Whether the active update belongs to the subtree at the cursor's
current prefix. -/
def updateUnderCurrentPrefix (updates : TrieUpdateCursor) : Bool :=
  match updates.relation with
  | .updateUnderPrefix _ => true
  | .updateBeyondPrefix _ => false
  | .updateSourceExhausted => false

/-- The active update's next child nibble. -/
def updateChildNibble (updates : TrieUpdateCursor) : Result Nibble :=
  match updates.relation with
  | .updateUnderPrefix pathPostfix =>
    if pathLen pathPostfix = 0 then fatalError .witnessDeficient
    else .ok (pathNibble pathPostfix 0)
  | .updateBeyondPrefix _ => fatalError .witnessDeficient
  | .updateSourceExhausted => fatalError .witnessDeficient

/-- The position of the active update's child edge, past the last edge
when none is pending. -/
def updatePosition (updates : TrieUpdateCursor) : Nat :=
  match updates.relation with
  | .updateUnderPrefix pathPostfix => (pathNibble pathPostfix 0).val
  | .updateBeyondPrefix _ => 16
  | .updateSourceExhausted => 16

/-- Remaining sibling-key order after the active update's child nibble. -/
def updateChildRangesRemaining (updates : TrieUpdateCursor) : Nat :=
  16 - updatePosition updates

/-- Remaining event order while one existing path is merged with update
child ranges. -/
def overlayChildRangesRemaining (updates : TrieUpdateCursor) (existingPending : Bool)
    (existingNibble : Nibble) : Nat :=
  17 - min (updatePosition updates) (if existingPending then existingNibble.val else 16)

theorem updatePosition_of_nibble {u : TrieUpdateCursor} {n : Nibble}
    (h : updateChildNibble u = .ok n) : updatePosition u = n.val := by
  rw [updateChildNibble] at h
  rw [updatePosition]
  cases hr : u.relation with
  | updateUnderPrefix post =>
    rw [hr] at h
    simp only at h
    split at h
    · cases h
    · rw [← Except.ok.inj h]
  | updateBeyondPrefix c =>
    rw [hr] at h
    cases h
  | updateSourceExhausted =>
    rw [hr] at h
    cases h

theorem updatePosition_of_not_under {u : TrieUpdateCursor}
    (h : updateUnderCurrentPrefix u = false) : updatePosition u = 16 := by
  rw [updateUnderCurrentPrefix] at h
  rw [updatePosition]
  cases hr : u.relation with
  | updateUnderPrefix post =>
    rw [hr] at h
    cases h
  | updateBeyondPrefix c => rfl
  | updateSourceExhausted => rfl

/-- After a child range is consumed, the next one must lie strictly
later. -/
def checkLaterSibling (rebased : TrieUpdateCursor) (previous : Nibble) : Result Unit :=
  if updateUnderCurrentPrefix rebased then do
    let rebasedNibble ← updateChildNibble rebased
    if rebasedNibble ≤ previous then fatalError .witnessDeficient else .ok ()
  else
    .ok ()

theorem updatePosition_lt_of_check {u : TrieUpdateCursor} {n : Nibble}
    (h : checkLaterSibling u n = .ok ()) : n.val < updatePosition u := by
  rw [checkLaterSibling] at h
  cases hu : updateUnderCurrentPrefix u with
  | false =>
    have := n.isLt
    rw [updatePosition_of_not_under hu]
    omega
  | true =>
    rw [hu, if_pos rfl, bind_eq_ok] at h
    obtain ⟨m, hm, hlt⟩ := h
    rw [updatePosition_of_nibble hm]
    split at hlt
    · cases hlt
    · rename_i hle
      exact Nat.lt_of_not_le hle

/-- A recursive walk of one child range: the cursor moved through the
child edge, and the child's prefix. -/
abbrev ChildWalk := TrieUpdateCursor → TriePath → Result (TrieItem × TrieUpdateCursor)

section

variable (keccak256 : List Byte → Hash) (nodedbLookup : Hash → StatelessInputSlice)

/-- The leaf case of the walks: the pending update at a full key.  The
update's own key has just been checked to be `key`. -/
def popUpdateAt (updates : TrieUpdateCursor) (key : TriePath) :
    Result (TrieItem × TrieUpdateCursor) := do
  match updates.relation with
  | .updateUnderPrefix pathPostfix =>
    if pathLen pathPostfix ≠ 0 then
      fatalError .witnessDeficient
    else do
      let (update, next) ← trieUpdatesPop updates
      if ¬ pathEq update.key key then
        fatalError .witnessDeficient
      else
        match update.change with
        | .trieDelete => .ok (trieEmptySubtree, next)
        | .triePut value => .ok (trieScratchLeaf key value, next)
  | .updateBeyondPrefix _ => fatalError .witnessDeficient
  | .updateSourceExhausted => fatalError .witnessDeficient

/-- Consumes the update range below child `nib`. -/
def consumeChild (walk : ChildWalk) (pfx : TriePath) (nib : Nibble) (children : TrieChildren)
    (remaining : TrieUpdateCursor) : Result (TrieChildren × TrieUpdateCursor) := do
  let childPath ← pathSingle nib
  let childPrefix ← pathConcat pfx childPath
  let descended ← trieUpdatesDescend remaining
  let (child, next) ← walk descended childPrefix
  let children ← trieChildrenAdd keccak256 nodedbLookup children pfx nib child
  let rebased ← trieUpdatesRebase next pfx
  checkLaterSibling rebased nib
  .ok (children, rebased)

theorem consumeChild_later {walk : ChildWalk} {pfx : TriePath} {nib : Nibble}
    {children children' : TrieChildren} {u u' : TrieUpdateCursor}
    (h : consumeChild keccak256 nodedbLookup walk pfx nib children u = .ok (children', u')) :
    nib.val < updatePosition u' := by
  simp only [consumeChild, bind_eq_ok] at h
  obtain ⟨_, _, _, _, _, _, ⟨_, _⟩, _, _, _, rebased, _, _, hc, heq⟩ := h
  cases heq
  exact updatePosition_lt_of_check hc

/-! ## The trie of live updates -/

/-- One round of the loop over the child ranges of the updates. -/
def updatesRound (walk : ChildWalk) (pfx : TriePath) (s : TrieChildren × TrieUpdateCursor) :
    Result (TrieChildren × TrieUpdateCursor) := do
  let nib ← updateChildNibble s.2
  consumeChild keccak256 nodedbLookup walk pfx nib s.1 s.2

theorem updatesRound_decreases {walk : ChildWalk} {pfx : TriePath}
    {s s' : TrieChildren × TrieUpdateCursor}
    (h : updatesRound keccak256 nodedbLookup walk pfx s = .ok s') :
    updateChildRangesRemaining s'.2 < updateChildRangesRemaining s.2 := by
  rw [updatesRound, bind_eq_ok] at h
  obtain ⟨nib, hn, hc⟩ := h
  have hlt : nib.val < updatePosition s'.2 := consumeChild_later keccak256 nodedbLookup hc
  have := nib.isLt
  rw [updateChildRangesRemaining, updateChildRangesRemaining, updatePosition_of_nibble hn]
  omega

def updatesChildren (walk : ChildWalk) (pfx : TriePath) (updates : TrieUpdateCursor) :
    Result (TrieChildren × TrieUpdateCursor) :=
  loop (fun s => updateUnderCurrentPrefix s.2)
    (updatesRound keccak256 nodedbLookup walk pfx)
    (fun s => updateChildRangesRemaining s.2)
    (fun _ _ _ h => updatesRound_decreases keccak256 nodedbLookup h)
    (trieChildrenEmpty, updates)

/-- The trie of the live put updates beneath `pfx`, consuming exactly that
contiguous range from the ordered stream. -/
def updatesSubtree (updates : TrieUpdateCursor) (pfx : TriePath) (cursor : Nat) :
    Result (TrieItem × TrieUpdateCursor) :=
  if _hlen : pathLen pfx ≠ cursor then
    fatalError .witnessDeficient
  else if ¬ updateUnderCurrentPrefix updates then
    .ok (trieEmptySubtree, updates)
  else if _hend : cursor = 64 then
    popUpdateAt updates pfx
  else do
    let (children, remaining) ← updatesChildren keccak256 nodedbLookup
      (fun descended childPrefix => updatesSubtree descended childPrefix (cursor + 1)) pfx updates
    let item ← trieChildrenFinish keccak256 pfx children
    .ok (item, remaining)
termination_by 64 - cursor
decreasing_by
  have := pfx.length_nibbles_le
  rw [← pathLen_eq] at this
  omega

/-! ## Merging one existing path with updates -/

/-- The state of an overlay loop. -/
structure OverlayState where
  children : TrieChildren
  remaining : TrieUpdateCursor
  existingPending : Bool

/-- One round: the existing item, or the next update range, whichever is
earlier. -/
def overlayRound (existing : TrieItem) (existingNibble : Nibble) (walkExisting walk : ChildWalk)
    (pfx : TriePath) (s : OverlayState) : Result OverlayState :=
  if updateUnderCurrentPrefix s.remaining then do
    let updateNibble ← updateChildNibble s.remaining
    if s.existingPending ∧ existingNibble < updateNibble then do
      let children ← trieChildrenAdd keccak256 nodedbLookup s.children pfx existingNibble existing
      .ok { s with children := children, existingPending := false }
    else do
      let consumesExisting : Bool := s.existingPending && updateNibble == existingNibble
      let (children, rebased) ← consumeChild keccak256 nodedbLookup
        (if consumesExisting then walkExisting else walk) pfx updateNibble s.children s.remaining
      .ok
        { children := children
          remaining := rebased
          existingPending := if consumesExisting then false else s.existingPending }
  else do
    let children ← trieChildrenAdd keccak256 nodedbLookup s.children pfx existingNibble existing
    .ok { s with children := children, existingPending := false }

theorem overlayRound_decreases {existing : TrieItem} {existingNibble : Nibble}
    {walkExisting walk : ChildWalk} {pfx : TriePath} {s s' : OverlayState}
    (hc : (s.existingPending || updateUnderCurrentPrefix s.remaining) = true)
    (h : overlayRound keccak256 nodedbLookup existing existingNibble walkExisting walk pfx s =
      .ok s') :
    overlayChildRangesRemaining s'.remaining s'.existingPending existingNibble <
      overlayChildRangesRemaining s.remaining s.existingPending existingNibble := by
  have hex := existingNibble.isLt
  rw [overlayRound] at h
  cases hu : updateUnderCurrentPrefix s.remaining with
  | false =>
    rw [hu, Bool.or_false] at hc
    rw [hu] at h
    simp only [Bool.false_eq_true, if_false, bind_eq_ok] at h
    obtain ⟨_, _, heq⟩ := h
    cases heq
    have hp := updatePosition_of_not_under hu
    simp only [overlayChildRangesRemaining, hp, hc, Bool.false_eq_true, if_false, if_true]
    omega
  | true =>
    rw [hu, if_pos rfl, bind_eq_ok] at h
    obtain ⟨nib, hn, h⟩ := h
    have hp := updatePosition_of_nibble hn
    have hnib := nib.isLt
    by_cases hfirst : s.existingPending = true ∧ existingNibble < nib
    · rw [if_pos hfirst, bind_eq_ok] at h
      obtain ⟨_, _, heq⟩ := h
      cases heq
      have hlt : existingNibble.val < nib.val := hfirst.2
      simp only [overlayChildRangesRemaining, hp, hfirst.1, Bool.false_eq_true, if_false, if_true]
      omega
    · rw [if_neg hfirst, bind_eq_ok] at h
      obtain ⟨⟨_, _⟩, hcon, heq⟩ := h
      have hlater := consumeChild_later keccak256 nodedbLookup hcon
      cases heq
      simp only [overlayChildRangesRemaining, hp]
      cases hpend : s.existingPending with
      | false =>
        simp only [Bool.false_and, Bool.false_eq_true, if_false]
        omega
      | true =>
        have hle : nib.val ≤ existingNibble.val := by
          have := fun hlt => hfirst ⟨hpend, hlt⟩
          exact Nat.le_of_not_lt this
        by_cases hsame : nib = existingNibble
        · subst hsame
          simp only [Bool.true_and, beq_self_eq_true, if_true, Bool.false_eq_true, if_false]
          omega
        · have hne : nib.val ≠ existingNibble.val := fun h => hsame (Fin.ext h)
          simp only [Bool.true_and, beq_eq_false_iff_ne.mpr hsame, Bool.false_eq_true, if_false,
            if_true]
          omega

/-- The overlay loop: an existing item below `pfx` merged with the update
ranges below `pfx`. -/
def overlayChildren (existing : TrieItem) (existingNibble : Nibble)
    (walkExisting walk : ChildWalk) (pfx : TriePath) (updates : TrieUpdateCursor) :
    Result OverlayState :=
  loop (fun s => s.existingPending || updateUnderCurrentPrefix s.remaining)
    (overlayRound keccak256 nodedbLookup existing existingNibble walkExisting walk pfx)
    (fun s => overlayChildRangesRemaining s.remaining s.existingPending existingNibble)
    (fun _ _ hc h => overlayRound_decreases keccak256 nodedbLookup hc h)
    { children := trieChildrenEmpty, remaining := updates, existingPending := true }

/-- Merges one witness leaf with all ordered updates beneath its
containing prefix. -/
def overlayLeafSubtree (updates : TrieUpdateCursor) (pfx key : TriePath)
    (value : StatelessInputSlice) (cursor : Nat) : Result (TrieItem × TrieUpdateCursor) :=
  if _hlen : pathLen pfx ≠ cursor ∨ ¬ pathPrefixOf pfx key then
    fatalError .witnessDeficient
  else if _hend : cursor = 64 then
    if ¬ pathEq pfx key then
      fatalError .witnessDeficient
    else if updateUnderCurrentPrefix updates then
      popUpdateAt updates key
    else
      .ok (trieInputLeaf key value, updates)
  else do
    let s ← overlayChildren keccak256 nodedbLookup (trieInputLeaf key value)
      (pathNibble key cursor)
      (fun descended childPrefix => overlayLeafSubtree descended childPrefix key value (cursor + 1))
      (fun descended childPrefix =>
        updatesSubtree keccak256 nodedbLookup descended childPrefix (cursor + 1))
      pfx updates
    let item ← trieChildrenFinish keccak256 pfx s.children
    .ok (item, s.remaining)
termination_by 64 - cursor
decreasing_by
  have := pfx.length_nibbles_le
  rw [← pathLen_eq] at this
  simp only [not_or, not_not] at _hlen
  omega

/-- Merges updates with the virtual single-child branches of an extension
path.  `resume` walks the real child, once an update reaches it. -/
def overlayExtensionSubtree
    (resume : StatelessInputSlice → TrieUpdateCursor → Result (TrieItem × TrieUpdateCursor))
    (childref : NodeRef) (childPrefix : TriePath) (updates : TrieUpdateCursor) (pfx : TriePath)
    (cursor : Nat) : Result (TrieItem × TrieUpdateCursor) :=
  if _hlen : pathLen pfx ≠ cursor ∨ ¬ pathPrefixOf pfx childPrefix then
    fatalError .witnessDeficient
  else if pathEq pfx childPrefix then
    if updateUnderCurrentPrefix updates then do
      let child ← resolveWitnessRef nodedbLookup childref
      resume child updates
    else
      .ok (trieBranch childPrefix childref, updates)
  else if _hend : cursor = 64 then
    fatalError .witnessDeficient
  else do
    let s ← overlayChildren keccak256 nodedbLookup (trieBranch childPrefix childref)
      (pathNibble childPrefix cursor)
      (fun descended nextPrefix =>
        overlayExtensionSubtree resume childref childPrefix descended nextPrefix (cursor + 1))
      (fun descended nextPrefix =>
        updatesSubtree keccak256 nodedbLookup descended nextPrefix (cursor + 1))
      pfx updates
    let item ← trieChildrenFinish keccak256 pfx s.children
    .ok (item, s.remaining)
termination_by 64 - cursor
decreasing_by
  have := pfx.length_nibbles_le
  rw [← pathLen_eq] at this
  simp only [not_or, not_not] at _hlen
  omega

/-! ## The witness walk -/

/-- Whether a child reference is present. -/
def NodeRef.isPresent : NodeRef → Bool
  | .emptyRef => false
  | _ => true

/-- Whether the active update lies below child `nib`, the next one to be
visited. -/
def branchUpdateHere (remaining : TrieUpdateCursor) (nib : Nibble) : Result Bool :=
  if updateUnderCurrentPrefix remaining then do
    let updateNibble ← updateChildNibble remaining
    if updateNibble < nib then fatalError .witnessDeficient else .ok (updateNibble == nib)
  else
    .ok false

/-- One child of a witness branch: merged with the updates below it, or
untouched. -/
def branchChild (resume : StatelessInputSlice → ChildWalk) (walk : ChildWalk)
    (childref : NodeRef) (childPrefix : TriePath) (remaining : TrieUpdateCursor)
    (updateHere : Bool) : Result (TrieItem × TrieUpdateCursor) :=
  if updateHere then do
    let descended ← trieUpdatesDescend remaining
    if childref.isPresent then do
      let child ← resolveWitnessRef nodedbLookup childref
      resume child descended childPrefix
    else
      walk descended childPrefix
  else if childref.isPresent then
    .ok (trieSubtree childPrefix childref, remaining)
  else
    .ok (trieEmptySubtree, remaining)

/-- One round over the children of a witness branch. -/
def branchRound (resume : StatelessInputSlice → ChildWalk) (walk : ChildWalk)
    (children : BranchRefs) (pfx : TriePath) (nib : Nibble)
    (s : TrieChildren × TrieUpdateCursor) : Result (TrieChildren × TrieUpdateCursor) := do
  let childPath ← pathSingle nib
  let childPrefix ← pathConcat pfx childPath
  let updateHere ← branchUpdateHere s.2 nib
  let (child, nextUpdates) ←
    branchChild nodedbLookup resume walk (branchRefsGet children nib) childPrefix s.2 updateHere
  let built ← trieChildrenAdd keccak256 nodedbLookup s.1 pfx nib child
  if updateHere then do
    let rebased ← trieUpdatesRebase nextUpdates pfx
    .ok (built, rebased)
  else
    .ok (built, nextUpdates)

/-- Walks a touched witness subtree and returns its post-update structural
item. -/
def witnessSubtree (node : StatelessInputSlice) (pfx : TriePath) (updates : TrieUpdateCursor)
    (cursor : Nat) : Result (TrieItem × TrieUpdateCursor) :=
  if _hlen : pathLen pfx ≠ cursor then
    fatalError .witnessDeficient
  else if node.length = 0 then
    updatesSubtree keccak256 nodedbLookup updates pfx cursor
  else
    match decodeInputTrieNode node with
    | .error e => .error e
    | .ok (.leafNode path value) => do
      let key ← pathConcat pfx path
      overlayLeafSubtree keccak256 nodedbLookup updates pfx key value cursor
    | .ok (.extensionNode path childref) =>
      if _hext : pathLen path = 0 ∨ 64 < cursor + pathLen path then
        fatalError .witnessDeficient
      else
        match _hcp : pathConcat pfx path with
        | .error e => .error e
        | .ok childPrefix =>
          overlayExtensionSubtree keccak256 nodedbLookup
            (fun child updates => witnessSubtree child childPrefix updates (pathLen childPrefix))
            childref childPrefix updates pfx cursor
    | .ok (.branchNode children value) =>
      if _hbr : value.length ≠ 0 ∨ 64 ≤ cursor then
        fatalError .witnessDeficient
      else do
        let (built, remaining) ← foreach 16
          (branchRound keccak256 nodedbLookup
            (fun child descended childPrefix =>
              witnessSubtree child childPrefix descended (cursor + 1))
            (fun descended childPrefix =>
              updatesSubtree keccak256 nodedbLookup descended childPrefix (cursor + 1))
            children pfx)
          (trieChildrenEmpty, updates)
        if updateUnderCurrentPrefix remaining then
          fatalError .witnessDeficient
        else do
          let item ← trieChildrenFinish keccak256 pfx built
          .ok (item, remaining)
termination_by 64 - cursor
decreasing_by
  · have := length_pathConcat _hcp
    simp only [pathLen_eq, ne_eq, not_not, not_or] at _hlen _hext ⊢
    omega
  · simp only [not_or] at _hbr
    omega

/-! ## The root computation -/

/-- A committed root, and whether the source held at least one update. -/
structure TrieRootResult where
  root : Hash
  changed : Bool

/-- The walk of the whole trie anchored at `baseRoot`. -/
def trieRootWalk (baseRoot : Hash) (updates : TrieUpdateCursor) :
    Result (TrieItem × TrieUpdateCursor) :=
  if baseRoot = emptyTrieRoot then
    updatesSubtree keccak256 nodedbLookup updates pathEmpty 0
  else
    let node := nodedbLookup baseRoot
    if node.length = 0 then
      fatalError .witnessDeficient
    else
      witnessSubtree keccak256 nodedbLookup node pathEmpty updates 0

/-- Applies an already open update cursor. -/
def trieRootCursor (baseRoot : Hash) (updates : TrieUpdateCursor) : Result TrieRootResult :=
  if updatesEmpty updates then
    .ok { root := baseRoot, changed := false }
  else do
    let (subtree, remaining) ← trieRootWalk keccak256 nodedbLookup baseRoot updates
    if updatesEmpty remaining then do
      let root ← trieSubtreeRoot keccak256 nodedbLookup subtree
      .ok { root := root, changed := true }
    else
      fatalError .witnessDeficient

/-- The root after pulling and applying the source's ordered updates. -/
def trieRoot (baseRoot : Hash) (source : TrieUpdateSource) : Result TrieRootResult :=
  trieRootCursor keccak256 nodedbLookup baseRoot (trieUpdatesBegin source)

end

/-! ## Lookup -/

section

variable (nodedbLookup : Hash → StatelessInputSlice)

/-- Walks the trie toward `key` from `pos`; absent paths yield empty
bytes. -/
def trieWalk (node : StatelessInputSlice) (key : TriePath) (pos : Nat) :
    Result StatelessInputSlice :=
  if node.length = 0 then
    .ok []
  else
    match decodeInputTrieNode node with
    | .error e => .error e
    | .ok (.leafNode path value) =>
      if ¬ pathMatches key pos path then .ok []
      else if pos + pathLen path = pathLen key then .ok value
      else .ok []
    | .ok (.extensionNode path childref) =>
      if _hext : pathLen path = 0 then
        .ok []
      else if ¬ pathMatches key pos path then
        .ok []
      else if _hle : pos + pathLen path ≤ 64 then do
        let child ← resolveWitnessRef nodedbLookup childref
        trieWalk child key (pos + pathLen path)
      else
        .ok []
    | .ok (.branchNode children value) =>
      if pos = pathLen key then
        .ok value
      else if _hlt : pos < pathLen key then do
        let childref := branchRefsGet children (pathNibble key pos)
        let child ← resolveWitnessRef nodedbLookup childref
        trieWalk child key (pos + 1)
      else
        .ok []
termination_by 64 - pos
decreasing_by
  · omega
  · have := key.length_nibbles_le
    rw [← pathLen_eq] at this
    omega

/-- Looks up `key` from a root hash; the root node itself must be
witnessed. -/
def trieLookup (root : Hash) (key : TriePath) : Result StatelessInputSlice :=
  if root = emptyTrieRoot then
    .ok []
  else
    let node := nodedbLookup root
    if node.length = 0 then fatalError .witnessDeficient
    else trieWalk nodedbLookup node key 0

end

end EvmSail
