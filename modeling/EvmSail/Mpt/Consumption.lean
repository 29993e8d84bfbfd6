/-
# `EvmSail.Mpt.Consumption` — a root means an ascending stream, applied once

The walk never looks at the whole update stream.  Each subtree takes the
updates below its own prefix, re-reads the successor at every ancestor,
and stops when a child range does not come later than the one before it.
So whatever the database, the root and the stream are, a walk that returns
has consumed a strictly ascending run of full keys, and its item was
assembled from the witness and from exactly these updates, each applied
once (`Applies`).

The induction follows the walk; what holds after the digits before `b`
is `Taken b`.
-/
import EvmSail.Mpt.RootSound

namespace EvmSail

open Fallible Radix

section

variable (keccak256 : List Byte → Hash) (db : Hash → StatelessInputSlice)

/-! ## What an item was assembled from -/

/-- The nodes that the database holds below a root. -/
inductive WitnessNode (baseRoot : Hash) : StatelessInputSlice → Prop
  | root : WitnessNode baseRoot (db baseRoot)
  | extension {node child : StatelessInputSlice} {path : TriePath} {ref : NodeRef} :
      WitnessNode baseRoot node → decodeInputTrieNode node = .ok (.extensionNode path ref) →
      resolveWitnessRef db ref = .ok child → WitnessNode baseRoot child
  | branch {node child : StatelessInputSlice} {children : BranchRefs} {value : List Byte}
      {nib : Nibble} :
      WitnessNode baseRoot node → decodeInputTrieNode node = .ok (.branchNode children value) →
      resolveWitnessRef db (branchRefsGet children nib) = .ok child → WitnessNode baseRoot child

mutual

/-- The item was made of witness nodes and of the updates `S`, each applied
once, in this order. -/
inductive Applies (baseRoot : Hash) : List TrieUpdate → TrieItem → Prop
  | nothing : Applies baseRoot [] trieEmptySubtree
  | leaf {node : StatelessInputSlice} {path : TriePath} {value : StatelessInputSlice}
      (key : TriePath) :
      WitnessNode db baseRoot node → decodeInputTrieNode node = .ok (.leafNode path value) →
      Applies baseRoot [] (trieInputLeaf key value)
  | extension {node : StatelessInputSlice} {path : TriePath} {ref : NodeRef}
      (childPrefix : TriePath) :
      WitnessNode db baseRoot node → decodeInputTrieNode node = .ok (.extensionNode path ref) →
      Applies baseRoot [] (trieBranch childPrefix ref)
  | branch {node : StatelessInputSlice} {children : BranchRefs} {value : List Byte}
      {nib : Nibble} (childPrefix : TriePath) :
      WitnessNode db baseRoot node → decodeInputTrieNode node = .ok (.branchNode children value) →
      Applies baseRoot [] (trieSubtree childPrefix (branchRefsGet children nib))
  | delete {s : TrieUpdate} : s.change = .trieDelete → Applies baseRoot [s] trieEmptySubtree
  | put {s : TrieUpdate} {value : ScratchSlice} :
      s.change = .triePut value → Applies baseRoot [s] (trieScratchLeaf s.key value)
  | finish {S : List TrieUpdate} {pfx : TriePath} {children : TrieChildren} {it : TrieItem} :
      AppliesChildren baseRoot S children →
      trieChildrenFinish keccak256 pfx children = .ok it → Applies baseRoot S it

/-- The children were added in order, each once. -/
inductive AppliesChildren (baseRoot : Hash) : List TrieUpdate → TrieChildren → Prop
  | empty : AppliesChildren baseRoot [] trieChildrenEmpty
  | add {S S' : List TrieUpdate} {children children' : TrieChildren} {child : TrieItem}
      {pfx : TriePath} {nib : Nibble} :
      AppliesChildren baseRoot S children → Applies baseRoot S' child →
      trieChildrenAdd keccak256 db children pfx nib child = .ok children' →
      AppliesChildren baseRoot (S ++ S') children'

end

end

/-! ## Cursors on an arbitrary stream -/

/-- The relation of a cursor at the prefix `P`, whatever comes after its
active update. -/
def Tracked (P : List Nibble) (u : TrieUpdateCursor) : Prop :=
  match u.relation with
  | .updateUnderPrefix post => u.current.key.nibbles = P ++ post.nibbles
  | .updateBeyondPrefix c => ∀ n ≤ P.length, n ≤ c → P.take n <+: u.current.key.nibbles
  | .updateSourceExhausted => u.source = []

theorem tracked_begin (U : List TrieUpdate) :
    Tracked [] (trieUpdatesBegin U) ∧ pending (trieUpdatesBegin U) = U := by
  cases U with
  | nil => exact ⟨rfl, rfl⟩
  | cons s U => exact ⟨rfl, rfl⟩

/-- An update that is under the prefix has a next nibble, through which the
cursor descends. -/
theorem Tracked.descend {P : List Nibble} {u v : TrieUpdateCursor} {x : Nibble}
    (h : Tracked P u) (hnib : updateChildNibble u = .ok x) (hv : trieUpdatesDescend u = .ok v) :
    Tracked (P ++ [x]) v ∧ pending v = pending u := by
  cases hr : u.relation with
  | updateUnderPrefix post =>
    rw [Tracked, hr] at h
    simp only [updateChildNibble, hr, pathLen_eq, pathNibble_eq] at hnib
    simp only [trieUpdatesDescend, hr, pathLen_eq, pathDrop_eq, ok_bind] at hv
    cases hpost : post.nibbles with
    | nil =>
      rw [hpost] at hnib
      cases hnib
    | cons y l =>
      have hl : l.length ≤ 64 := by
        have hlen := post.length_nibbles_le
        rw [hpost, List.length_cons] at hlen
        omega
      simp only [hpost, List.length_cons, Nat.add_one_ne_zero, if_false] at hnib hv
      cases hnib
      cases hv
      refine ⟨?_, by simp [pending, hr]⟩
      show u.current.key.nibbles = P ++ [y] ++ (TriePath.ofNibbles l).nibbles
      rw [TriePath.nibbles_ofNibbles hl, h, hpost, List.append_assoc]
      rfl
  | updateBeyondPrefix c =>
    simp only [updateChildNibble, hr] at hnib
    cases hnib
  | updateSourceExhausted =>
    simp only [updateChildNibble, hr] at hnib
    cases hnib

/-- A cursor that has left a child prefix is re-read at its parent. -/
theorem Tracked.rebase {pfx : TriePath} {x : Nibble} {u v : TrieUpdateCursor}
    (h : Tracked (pfx.nibbles ++ [x]) u) (hu : updateUnderCurrentPrefix u = false)
    (hv : trieUpdatesRebase u pfx = .ok v) : Tracked pfx.nibbles v ∧ pending v = pending u := by
  cases hr : u.relation with
  | updateUnderPrefix post =>
    simp only [updateUnderCurrentPrefix, hr] at hu
    cases hu
  | updateSourceExhausted =>
    simp only [trieUpdatesRebase, hr] at hv
    cases hv
    refine ⟨?_, rfl⟩
    simp only [Tracked, hr] at h ⊢
    exact h
  | updateBeyondPrefix c =>
    simp only [trieUpdatesRebase, hr, pathLen_eq, pathDrop_eq, ok_bind] at hv
    simp only [Tracked, hr] at h
    have hanc : ∀ n ≤ pfx.nibbles.length, n ≤ c →
        pfx.nibbles.take n <+: u.current.key.nibbles := by
      intro n hn hc
      have htake := h n (by rw [List.length_append]; omega) hc
      rwa [List.take_append_of_le_length hn] at htake
    by_cases hc : pfx.nibbles.length ≤ c
    · rw [if_pos hc] at hv
      cases hv
      have hpre := hanc _ le_rfl hc
      rw [List.take_length] at hpre
      obtain ⟨r, hkey⟩ := hpre
      have hlen := u.current.key.length_nibbles_le
      rw [← hkey, List.length_append] at hlen
      refine ⟨?_, by simp [pending, hr]⟩
      show u.current.key.nibbles = pfx.nibbles ++ (TriePath.ofNibbles _).nibbles
      rw [← hkey, List.drop_left, TriePath.nibbles_ofNibbles (by omega)]
    · rw [if_neg hc] at hv
      cases hv
      refine ⟨?_, rfl⟩
      simp only [Tracked, hr]
      exact hanc

/-! ## What a walk has consumed -/

section

variable {keccak256 : List Byte → Hash} {db : Hash → StatelessInputSlice} {baseRoot : Hash}

/-- The walk of `P` consumed the run `S` from the front of the stream and
applied it to its item; what is active now is not below `P`. -/
structure Consumes (keccak256 : List Byte → Hash) (db : Hash → StatelessInputSlice)
    (baseRoot : Hash) (P : List Nibble) (u : TrieUpdateCursor) (S : List TrieUpdate)
    (r : TrieItem × TrieUpdateCursor) : Prop where
  pending : pending u = S ++ EvmSail.pending r.2
  applies : Applies keccak256 db baseRoot S r.1
  ascending : Ascending S
  below : ∀ s ∈ S, Below P s
  tracked : Tracked P r.2
  passed : updateUnderCurrentPrefix r.2 = false

/-- What the rounds of a node at `P` have taken from the stream: only
updates below its digits before `b`. -/
structure Taken (keccak256 : List Byte → Hash) (db : Hash → StatelessInputSlice)
    (baseRoot : Hash) (P : List Nibble) (u : TrieUpdateCursor) (b : Nat) (S : List TrieUpdate)
    (children : TrieChildren) (remaining : TrieUpdateCursor) : Prop where
  pending : pending u = S ++ EvmSail.pending remaining
  applies : AppliesChildren keccak256 db baseRoot S children
  ascending : Ascending S
  below : ∀ s ∈ S, ∃ x : Nibble, x.val < b ∧ Below (P ++ [x]) s
  tracked : Tracked P remaining

/-- A walk started on a tracked cursor. -/
abbrev WalkConsumes (keccak256 : List Byte → Hash) (db : Hash → StatelessInputSlice)
    (baseRoot : Hash) (P : List Nibble) (u : TrieUpdateCursor)
    (x : Result (TrieItem × TrieUpdateCursor)) : Prop :=
  Ends (fun r => ∃ S, Consumes keccak256 db baseRoot P u S r) (fun _ => True) x

theorem consumes_untouched {P : List Nibble} {u : TrieUpdateCursor} {it : TrieItem}
    (hu : Tracked P u) (hit : Applies keccak256 db baseRoot [] it)
    (hno : updateUnderCurrentPrefix u = false) :
    Consumes keccak256 db baseRoot P u [] (it, u) where
  pending := rfl
  applies := hit
  ascending := ⟨List.Pairwise.nil, nofun⟩
  below := nofun
  tracked := hu
  passed := hno

theorem ascending_append {P : List Nibble} {x : Nibble} {S S' : List TrieUpdate}
    (hS : Ascending S) (hS' : Ascending S')
    (hbelow : ∀ s ∈ S, ∃ y : Nibble, y.val < x.val ∧ Below (P ++ [y]) s)
    (hbelow' : ∀ s ∈ S', Below (P ++ [x]) s) : Ascending (S ++ S') := by
  refine ⟨List.pairwise_append.mpr ⟨hS.sorted, hS'.sorted, fun s hs s' hs' => ?_⟩, ?_⟩
  · obtain ⟨y, hyx, r, hr⟩ := hbelow s hs
    obtain ⟨r', hr'⟩ := hbelow' s' hs'
    have hlt : y < x := hyx
    rw [← hr, ← hr', List.append_assoc, List.append_assoc]
    exact List.append_left_lt (List.cons_lt_cons_iff.mpr (.inl hlt))
  · intro s hs
    rcases List.mem_append.mp hs with hs | hs
    · exact hS.full s hs
    · exact hS'.full s hs

namespace Taken

variable {P : List Nibble} {u remaining remaining' : TrieUpdateCursor} {b b' : Nat}
  {S S' : List TrieUpdate} {children children' : TrieChildren} {child : TrieItem} {pfx : TriePath}
  {x : Nibble}

theorem start (hu : Tracked P u) :
    Taken keccak256 db baseRoot P u b [] trieChildrenEmpty u where
  pending := rfl
  applies := .empty
  ascending := ⟨List.Pairwise.nil, nofun⟩
  below := nofun
  tracked := hu

theorem later (h : Taken keccak256 db baseRoot P u b S children remaining) (hb : b ≤ b') :
    Taken keccak256 db baseRoot P u b' S children remaining where
  pending := h.pending
  applies := h.applies
  ascending := h.ascending
  below s hs := by
    obtain ⟨y, hy, hbelow⟩ := h.below s hs
    exact ⟨y, hy.trans_le hb, hbelow⟩
  tracked := h.tracked

/-- An untouched child takes no update. -/
theorem keep (h : Taken keccak256 db baseRoot P u b S children remaining)
    (hchild : Applies keccak256 db baseRoot [] child)
    (hadd : trieChildrenAdd keccak256 db children pfx x child = .ok children') :
    Taken keccak256 db baseRoot P u b S children' remaining where
  pending := h.pending
  applies := by
    have happlies := AppliesChildren.add h.applies hchild hadd
    rwa [List.append_nil] at happlies
  ascending := h.ascending
  below := h.below
  tracked := h.tracked

/-- The walk of the child at `x` takes the updates below it. -/
theorem consume {descended next : TrieUpdateCursor}
    (h : Taken keccak256 db baseRoot pfx.nibbles u x.val S children remaining)
    (hdescended : EvmSail.pending descended = EvmSail.pending remaining)
    (hwalk : Consumes keccak256 db baseRoot (pfx.nibbles ++ [x]) descended S' (child, next))
    (hadd : trieChildrenAdd keccak256 db children pfx x child = .ok children')
    (hrebase : trieUpdatesRebase next pfx = .ok remaining') :
    Taken keccak256 db baseRoot pfx.nibbles u (x.val + 1) (S ++ S') children' remaining' := by
  obtain ⟨htracked, hpending⟩ := hwalk.tracked.rebase hwalk.passed hrebase
  refine ⟨?_, .add h.applies hwalk.applies hadd, ?_, fun s hs => ?_, htracked⟩
  · rw [h.pending, ← hdescended, hwalk.pending, hpending, List.append_assoc]
  · exact ascending_append h.ascending hwalk.ascending h.below hwalk.below
  · rcases List.mem_append.mp hs with hs | hs
    · obtain ⟨y, hy, hbelow⟩ := h.below s hs
      exact ⟨y, hy.trans (Nat.lt_succ_self _), hbelow⟩
    · exact ⟨x, Nat.lt_succ_self _, hwalk.below s hs⟩

/-- The node is finished when no pending update is below it. -/
theorem finish (h : Taken keccak256 db baseRoot P u b S children remaining)
    (hno : updateUnderCurrentPrefix remaining = false) {it : TrieItem}
    (hfinish : trieChildrenFinish keccak256 pfx children = .ok it) :
    Consumes keccak256 db baseRoot P u S (it, remaining) where
  pending := h.pending
  applies := .finish h.applies hfinish
  ascending := h.ascending
  below s hs := by
    obtain ⟨x, -, hbelow⟩ := h.below s hs
    exact (List.prefix_append P [x]).trans hbelow
  tracked := h.tracked
  passed := hno

end Taken

/-! ## The walks -/

/-- Popping leaves the successor beyond the popped key by what the two
keys share. -/
theorem trieUpdatesPop_spec {u : TrieUpdateCursor} {post : TriePath}
    (hrel : u.relation = .updateUnderPrefix post) :
    ∃ next, trieUpdatesPop u = .ok (u.current, next) ∧ pending next = u.source ∧
      Tracked u.current.key.nibbles next ∧ updateUnderCurrentPrefix next = false := by
  simp only [trieUpdatesPop, hrel]
  refine ⟨_, rfl, ?_⟩
  cases hsrc : u.source with
  | nil => exact ⟨rfl, rfl, rfl⟩
  | cons s rest =>
    refine ⟨rfl, fun n hn hc => ?_, rfl⟩
    rw [commonPrefixLength_eq] at hc
    change n ≤ (lcp u.current.key.nibbles s.key.nibbles).length at hc
    have hl := prefix_lcp.mp (List.prefix_refl (lcp u.current.key.nibbles s.key.nibbles))
    have htake : u.current.key.nibbles.take n <+: lcp u.current.key.nibbles s.key.nibbles :=
      List.prefix_of_prefix_length_le (List.take_prefix n _) hl.1
        (by rw [List.length_take]; omega)
    exact htake.trans hl.2

theorem popUpdateAt_consumes {u : TrieUpdateCursor} {key : TriePath}
    (hkey : key.nibbles.length = 64) :
    WalkConsumes keccak256 db baseRoot key.nibbles u (popUpdateAt u key) := by
  refine Ends.of_forall_ok fun r hr => ?_
  rw [popUpdateAt] at hr
  cases hrel : u.relation with
  | updateBeyondPrefix c =>
    simp only [hrel] at hr
    cases hr
  | updateSourceExhausted =>
    simp only [hrel] at hr
    cases hr
  | updateUnderPrefix post =>
    obtain ⟨next, hpop, hnextPending, hnextTracked, hnextPassed⟩ := trieUpdatesPop_spec hrel
    simp only [hrel, hpop, ok_bind, pathEq_eq] at hr
    split at hr
    · cases hr
    split at hr
    · cases hr
    rename_i hsame
    have hcur : u.current.key.nibbles = key.nibbles := by simpa using hsame
    have hkeyEq : u.current.key = key := TriePath.eq_of_nibbles hcur
    have hpend : pending u = u.current :: u.source := by simp [pending, hrel]
    have hone : ∀ it, Applies keccak256 db baseRoot [u.current] it →
        Consumes keccak256 db baseRoot key.nibbles u [u.current] (it, next) := fun it hit =>
      { pending := by rw [hpend, hnextPending]; rfl
        applies := hit
        ascending := ⟨List.pairwise_singleton _ _, fun s hs => by
          rw [List.mem_singleton.mp hs, hcur, hkey]⟩
        below := fun s hs => by
          rw [List.mem_singleton.mp hs, Below, hcur]
        tracked := hcur ▸ hnextTracked
        passed := hnextPassed }
    cases hchange : u.current.change with
    | trieDelete =>
      simp only [hchange] at hr
      cases hr
      exact ⟨_, hone _ (.delete hchange)⟩
    | triePut value =>
      simp only [hchange] at hr
      cases hr
      refine ⟨_, hone _ ?_⟩
      rw [← hkeyEq]
      exact .put hchange

section

variable {pfx : TriePath} {u : TrieUpdateCursor}

/-- A walk of the child at `nib`. -/
abbrev ChildConsumes (keccak256 : List Byte → Hash) (db : Hash → StatelessInputSlice)
    (baseRoot : Hash) (pfx : TriePath) (nib : Nibble) (walk : ChildWalk) : Prop :=
  ∀ v childPrefix, childPrefix.nibbles = pfx.nibbles ++ [nib] →
    Tracked (pfx.nibbles ++ [nib]) v →
    WalkConsumes keccak256 db baseRoot (pfx.nibbles ++ [nib]) v (walk v childPrefix)

/-- The prefix of a child. -/
theorem childPrefix_nibbles {nib : Nibble} {childPath childPrefix : TriePath}
    (hpath : pathSingle nib = .ok childPath)
    (hconcat : pathConcat pfx childPath = .ok childPrefix) :
    childPrefix.nibbles = pfx.nibbles ++ [nib] := by
  rw [pathSingle_eq] at hpath
  cases hpath
  rw [pathConcat_eq] at hconcat
  have hone : (TriePath.ofNibbles [nib]).nibbles = [nib] := TriePath.nibbles_ofNibbles (by simp)
  rw [hone] at hconcat
  split at hconcat
  · rename_i hle
    cases hconcat
    exact TriePath.nibbles_ofNibbles (by simpa using hle)
  · cases hconcat

theorem consumeChild_taken {walk : ChildWalk} {nib : Nibble} {S : List TrieUpdate}
    {children : TrieChildren} {remaining : TrieUpdateCursor}
    (h : Taken keccak256 db baseRoot pfx.nibbles u nib.val S children remaining)
    (hnib : updateChildNibble remaining = .ok nib)
    (hwalk : ChildConsumes keccak256 db baseRoot pfx nib walk) :
    Ends (fun r => nib.val + 1 ≤ updatePosition r.2 ∧
        ∃ S, Taken keccak256 db baseRoot pfx.nibbles u (nib.val + 1) S r.1 r.2)
      (fun _ => True) (consumeChild keccak256 db walk pfx nib children remaining) := by
  refine Ends.of_forall_ok fun r hr => ⟨consumeChild_later keccak256 db hr, ?_⟩
  simp only [consumeChild, bind_eq_ok] at hr
  obtain ⟨childPath, hpath, childPrefix, hconcat, descended, hdescend, ⟨child, next⟩, hchild,
    children', hadd, rebased, hrebase, _, _, heq⟩ := hr
  cases heq
  obtain ⟨htracked, hpending⟩ := h.tracked.descend hnib hdescend
  obtain ⟨S', hS'⟩ :=
    (hwalk descended childPrefix (childPrefix_nibbles hpath hconcat) htracked).of_ok hchild
  exact ⟨S ++ S', h.consume hpending hS' hadd hrebase⟩

theorem updatesSubtree_consumes (m : Nat) (pfx : TriePath) {u : TrieUpdateCursor} {cursor : Nat}
    (hm : 64 - cursor = m) (hu : Tracked pfx.nibbles u) :
    WalkConsumes keccak256 db baseRoot pfx.nibbles u
      (updatesSubtree keccak256 db u pfx cursor) := by
  induction m generalizing pfx u cursor with
  | zero =>
    rw [updatesSubtree]
    split
    · trivial
    rename_i hlen
    rw [pathLen_eq, not_not] at hlen
    have hle := pfx.length_nibbles_le
    refine Ends.ite (fun hno => ?_) fun _ => ?_
    · exact ⟨[], consumes_untouched hu .nothing (by simpa using hno)⟩
    · rw [dif_pos (by omega)]
      exact popUpdateAt_consumes (by omega)
  | succ m ih =>
    rw [updatesSubtree]
    split
    · trivial
    rename_i hlen
    rw [pathLen_eq, not_not] at hlen
    refine Ends.ite (fun hno => ?_) fun _ => ?_
    · exact ⟨[], consumes_untouched hu .nothing (by simpa using hno)⟩
    rw [dif_neg (by omega)]
    have hround : ∀ s : TrieChildren × TrieUpdateCursor,
        (∃ S, Taken keccak256 db baseRoot pfx.nibbles u (updatePosition s.2) S s.1 s.2) →
        updateUnderCurrentPrefix s.2 = true →
        Ends (fun s' => ∃ S,
            Taken keccak256 db baseRoot pfx.nibbles u (updatePosition s'.2) S s'.1 s'.2)
          (fun _ => True) (updatesRound keccak256 db
            (fun v p => updatesSubtree keccak256 db v p (cursor + 1)) pfx s) := by
      rintro s ⟨S, hS⟩ -
      refine Ends.bind (Ends.of_forall_ok fun _ hnib => hnib) fun nib hnib => ?_
      rw [updatePosition_of_nibble hnib] at hS
      have hwalk : ChildConsumes keccak256 db baseRoot pfx nib
          (fun v p => updatesSubtree keccak256 db v p (cursor + 1)) := by
        intro v childPrefix hchild hv
        rw [← hchild] at hv ⊢
        exact ih childPrefix (by omega) hv
      refine (consumeChild_taken hS hnib hwalk).mono fun r htaken => ?_
      obtain ⟨hpos, S', hS'⟩ := htaken
      exact ⟨S', hS'.later hpos⟩
    refine Ends.bind (Ends.loop hround ⟨[], .start hu⟩) fun s htaken => ?_
    obtain ⟨⟨S, hS⟩, hno⟩ := htaken
    refine Ends.bind (Ends.of_forall_ok fun _ hfinish => hfinish) fun it hfinish => ?_
    exact ⟨S, hS.finish hno hfinish⟩

/-- The loop over an existing item and the updates. -/
theorem overlayChildren_consumes {existing : TrieItem} {existingNibble : Nibble}
    {walkExisting walk : ChildWalk} (hu : Tracked pfx.nibbles u)
    (hexisting : Applies keccak256 db baseRoot [] existing)
    (hwalkExisting : ChildConsumes keccak256 db baseRoot pfx existingNibble walkExisting)
    (hwalk : ∀ nib, ChildConsumes keccak256 db baseRoot pfx nib walk) :
    Ends (fun s => ∃ S, Taken keccak256 db baseRoot pfx.nibbles u 16 S s.children s.remaining ∧
        updateUnderCurrentPrefix s.remaining = false)
      (fun _ => True)
      (overlayChildren keccak256 db existing existingNibble walkExisting walk pfx u) := by
  have hround : ∀ s : OverlayState,
      (∃ S, Taken keccak256 db baseRoot pfx.nibbles u (updatePosition s.remaining) S s.children
        s.remaining) →
      (s.existingPending || updateUnderCurrentPrefix s.remaining) = true →
      Ends (fun s' : OverlayState => ∃ S, Taken keccak256 db baseRoot pfx.nibbles u
          (updatePosition s'.remaining) S s'.children s'.remaining)
        (fun _ => True)
        (overlayRound keccak256 db existing existingNibble walkExisting walk pfx s) := by
    rintro s ⟨S, hS⟩ -
    have hkeep : Ends (fun s' : OverlayState => ∃ S, Taken keccak256 db baseRoot pfx.nibbles u
          (updatePosition s'.remaining) S s'.children s'.remaining)
        (fun _ => True)
        (do
          let children ← trieChildrenAdd keccak256 db s.children pfx existingNibble existing
          .ok { s with children := children, existingPending := false }) := by
      refine Ends.bind (Ends.of_forall_ok fun _ hadd => hadd) fun children hadd => ?_
      exact ⟨S, hS.keep hexisting hadd⟩
    refine Ends.ite (fun _ => ?_) fun _ => hkeep
    refine Ends.bind (Ends.of_forall_ok fun _ hnib => hnib) fun nib hnib => ?_
    refine Ends.ite (fun _ => hkeep) fun _ => ?_
    rw [updatePosition_of_nibble hnib] at hS
    have hchild : ChildConsumes keccak256 db baseRoot pfx nib
        (if (s.existingPending && nib == existingNibble) = true then walkExisting else walk) := by
      split
      · rename_i hconsumes
        rw [Bool.and_eq_true, beq_iff_eq] at hconsumes
        exact hconsumes.2 ▸ hwalkExisting
      · exact hwalk nib
    refine Ends.bind (consumeChild_taken hS hnib hchild) fun r htaken => ?_
    obtain ⟨hpos, S', hS'⟩ := htaken
    exact ⟨S', hS'.later hpos⟩
  refine (Ends.loop hround ⟨[], .start hu⟩).mono fun s htaken => ?_
  obtain ⟨⟨S, hS⟩, hno⟩ := htaken
  rw [Bool.or_eq_false_iff] at hno
  have hpos : updatePosition s.remaining ≤ 16 := by
    rw [updatePosition_of_not_under hno.2]
  exact ⟨S, hS.later hpos, hno.2⟩

theorem updatesWalk_consumes (nib : Nibble) (cursor : Nat) :
    ChildConsumes keccak256 db baseRoot pfx nib
      (fun v p => updatesSubtree keccak256 db v p cursor) := by
  intro v childPrefix hchild hv
  rw [← hchild] at hv ⊢
  exact updatesSubtree_consumes _ childPrefix rfl hv

theorem overlayLeafSubtree_consumes (m : Nat) (pfx : TriePath) {key : TriePath}
    {value : StatelessInputSlice} {u : TrieUpdateCursor} {cursor : Nat} (hm : 64 - cursor = m)
    (hleaf : Applies keccak256 db baseRoot [] (trieInputLeaf key value))
    (hu : Tracked pfx.nibbles u) :
    WalkConsumes keccak256 db baseRoot pfx.nibbles u
      (overlayLeafSubtree keccak256 db u pfx key value cursor) := by
  induction m generalizing pfx u cursor with
  | zero =>
    rw [overlayLeafSubtree]
    split
    · trivial
    rename_i hlen
    simp only [pathLen_eq, not_or, not_not] at hlen
    have hle := pfx.length_nibbles_le
    rw [dif_pos (by omega)]
    refine Ends.ite (fun _ => trivial) fun hkey => ?_
    have hkey' : pfx.nibbles = key.nibbles := by simpa [pathEq_eq] using hkey
    refine Ends.ite (fun _ => ?_) fun hno => ?_
    · rw [hkey']
      exact popUpdateAt_consumes (by rw [← hkey']; omega)
    · exact ⟨[], consumes_untouched hu hleaf (by simpa using hno)⟩
  | succ m ih =>
    rw [overlayLeafSubtree]
    split
    · trivial
    rename_i hlen
    simp only [pathLen_eq, not_or, not_not] at hlen
    rw [dif_neg (by omega)]
    have hwalkExisting : ChildConsumes keccak256 db baseRoot pfx (pathNibble key cursor)
        (fun v p => overlayLeafSubtree keccak256 db v p key value (cursor + 1)) := by
      intro v childPrefix hchild hv
      rw [← hchild] at hv ⊢
      exact ih childPrefix (by omega) hv
    refine Ends.bind (overlayChildren_consumes hu hleaf hwalkExisting
      fun nib => updatesWalk_consumes nib _) fun s htaken => ?_
    obtain ⟨S, hS, hno⟩ := htaken
    refine Ends.bind (Ends.of_forall_ok fun _ hfinish => hfinish) fun it hfinish => ?_
    exact ⟨S, hS.finish hno hfinish⟩

theorem overlayExtensionSubtree_consumes (m : Nat) (pfx : TriePath)
    {resume : StatelessInputSlice → TrieUpdateCursor → Result (TrieItem × TrieUpdateCursor)}
    {childref : NodeRef} {childPrefix : TriePath} {u : TrieUpdateCursor} {cursor : Nat}
    (hm : 64 - cursor = m)
    (hbranch : Applies keccak256 db baseRoot [] (trieBranch childPrefix childref))
    (hresume : ∀ child v, resolveWitnessRef db childref = .ok child →
      Tracked childPrefix.nibbles v →
      WalkConsumes keccak256 db baseRoot childPrefix.nibbles v (resume child v))
    (hu : Tracked pfx.nibbles u) :
    WalkConsumes keccak256 db baseRoot pfx.nibbles u
      (overlayExtensionSubtree keccak256 db resume childref childPrefix u pfx cursor) := by
  induction m generalizing pfx u cursor with
  | zero =>
    rw [overlayExtensionSubtree]
    split
    · trivial
    rename_i hlen
    simp only [pathLen_eq, not_or, not_not] at hlen
    have hle := pfx.length_nibbles_le
    refine Ends.ite (fun heq => ?_) fun _ => ?_
    · have heq' : pfx.nibbles = childPrefix.nibbles := by simpa [pathEq_eq] using heq
      refine Ends.ite (fun _ => ?_) fun hno => ?_
      · refine Ends.bind (Ends.of_forall_ok fun _ hchild => hchild) fun child hchild => ?_
        rw [heq'] at hu ⊢
        exact hresume child u hchild hu
      · exact ⟨[], consumes_untouched hu hbranch (by simpa using hno)⟩
    · rw [dif_pos (by omega)]
      trivial
  | succ m ih =>
    rw [overlayExtensionSubtree]
    split
    · trivial
    rename_i hlen
    simp only [pathLen_eq, not_or, not_not] at hlen
    refine Ends.ite (fun heq => ?_) fun _ => ?_
    · have heq' : pfx.nibbles = childPrefix.nibbles := by simpa [pathEq_eq] using heq
      refine Ends.ite (fun _ => ?_) fun hno => ?_
      · refine Ends.bind (Ends.of_forall_ok fun _ hchild => hchild) fun child hchild => ?_
        rw [heq'] at hu ⊢
        exact hresume child u hchild hu
      · exact ⟨[], consumes_untouched hu hbranch (by simpa using hno)⟩
    · rw [dif_neg (by omega)]
      have hwalkExisting : ChildConsumes keccak256 db baseRoot pfx (pathNibble childPrefix cursor)
          (fun v p => overlayExtensionSubtree keccak256 db resume childref childPrefix v p
            (cursor + 1)) := by
        intro v nextPrefix hnext hv
        rw [← hnext] at hv ⊢
        exact ih nextPrefix (by omega) hv
      refine Ends.bind (overlayChildren_consumes hu hbranch hwalkExisting
        fun nib => updatesWalk_consumes nib _) fun s htaken => ?_
      obtain ⟨S, hS, hno⟩ := htaken
      refine Ends.bind (Ends.of_forall_ok fun _ hfinish => hfinish) fun it hfinish => ?_
      exact ⟨S, hS.finish hno hfinish⟩

/-- A round over a child of a witness branch.  A later update waits for its
own digit. -/
theorem branchRound_consumes {resume : StatelessInputSlice → ChildWalk} {walk : ChildWalk}
    {children : BranchRefs} {nib : Nibble} {S : List TrieUpdate}
    {s : TrieChildren × TrieUpdateCursor}
    (hS : Taken keccak256 db baseRoot pfx.nibbles u nib.val S s.1 s.2)
    (hsubtree : ∀ childPrefix,
      Applies keccak256 db baseRoot [] (trieSubtree childPrefix (branchRefsGet children nib)))
    (hresume : ∀ child, resolveWitnessRef db (branchRefsGet children nib) = .ok child →
      ChildConsumes keccak256 db baseRoot pfx nib (resume child))
    (hwalk : ChildConsumes keccak256 db baseRoot pfx nib walk) :
    Ends (fun s' => ∃ S, Taken keccak256 db baseRoot pfx.nibbles u (nib.val + 1) S s'.1 s'.2)
      (fun _ => True) (branchRound keccak256 db resume walk children pfx nib s) := by
  refine Ends.of_forall_ok fun s' hs' => ?_
  simp only [branchRound, bind_eq_ok] at hs'
  obtain ⟨childPath, hpath, childPrefix, hconcat, updateHere, hhere, ⟨child, next⟩, hchild, built,
    hadd, hlast⟩ := hs'
  have hchildPrefix := childPrefix_nibbles hpath hconcat
  cases updateHere with
  | false =>
    simp only [Bool.false_eq_true, if_false] at hlast
    cases hlast
    simp only [branchChild, Bool.false_eq_true, if_false] at hchild
    split at hchild
    · cases hchild
      exact ⟨S, (hS.keep (hsubtree childPrefix) hadd).later (Nat.le_succ _)⟩
    · cases hchild
      exact ⟨S, (hS.keep .nothing hadd).later (Nat.le_succ _)⟩
  | true =>
    obtain ⟨rebased, hrebase, heq⟩ := bind_eq_ok.mp hlast
    cases heq
    have hnib : updateChildNibble s.2 = .ok nib := by
      rw [branchUpdateHere] at hhere
      split at hhere
      · obtain ⟨nib', hnib', hlt⟩ := bind_eq_ok.mp hhere
        split at hlt
        · cases hlt
        · have hsame : (nib' == nib) = true := Except.ok.inj hlt
          rw [hnib', beq_iff_eq.mp hsame]
      · cases hhere
    rw [branchChild, if_pos rfl] at hchild
    obtain ⟨descended, hdescend, hchild⟩ := bind_eq_ok.mp hchild
    obtain ⟨htracked, hpending⟩ := hS.tracked.descend hnib hdescend
    have hconsumes : ∃ S', Consumes keccak256 db baseRoot (pfx.nibbles ++ [nib]) descended S'
        (child, next) := by
      split at hchild
      · obtain ⟨node, hnode, hchild⟩ := bind_eq_ok.mp hchild
        exact (hresume node hnode descended childPrefix hchildPrefix htracked).of_ok hchild
      · exact (hwalk descended childPrefix hchildPrefix htracked).of_ok hchild
    obtain ⟨S', hS'⟩ := hconsumes
    exact ⟨S ++ S', hS.consume hpending hS' hadd hrebase⟩

theorem witnessSubtree_consumes (n : Nat) (pfx : TriePath) {node : StatelessInputSlice}
    {u : TrieUpdateCursor} {cursor : Nat} (hn : 64 - cursor = n)
    (hnode : WitnessNode db baseRoot node) (hu : Tracked pfx.nibbles u) :
    WalkConsumes keccak256 db baseRoot pfx.nibbles u
      (witnessSubtree keccak256 db node pfx u cursor) := by
  induction n using Nat.strongRecOn generalizing node pfx u cursor with
  | _ n ih =>
  rw [witnessSubtree]
  split
  · trivial
  rename_i hlen
  rw [pathLen_eq, not_not] at hlen
  refine Ends.ite (fun _ => updatesSubtree_consumes _ pfx rfl hu) fun _ => ?_
  split
  · trivial
  · rename_i path value hdecode
    refine Ends.bind (Ends.of_forall_ok fun _ hkey => hkey) fun key _ => ?_
    exact overlayLeafSubtree_consumes _ pfx rfl (.leaf key hnode hdecode) hu
  · rename_i path childref hdecode
    split
    · trivial
    rename_i hext
    split
    · trivial
    · rename_i childPrefix hconcat
      refine overlayExtensionSubtree_consumes _ pfx rfl (.extension childPrefix hnode hdecode)
        (fun child v hchild hv => ?_) hu
      have hlonger := length_pathConcat hconcat
      simp only [pathLen_eq, not_or] at hext
      refine ih (64 - pathLen childPrefix) ?_ childPrefix rfl (.extension hnode hdecode hchild) hv
      rw [pathLen_eq]
      omega
  · rename_i children value hdecode
    split
    · trivial
    rename_i hbranch
    simp only [not_or] at hbranch
    have hround : ∀ (nib : Fin 16) (s : TrieChildren × TrieUpdateCursor),
        (∃ S, Taken keccak256 db baseRoot pfx.nibbles u nib.val S s.1 s.2) →
        Ends (fun s' => ∃ S,
            Taken keccak256 db baseRoot pfx.nibbles u (nib.val + 1) S s'.1 s'.2)
          (fun _ => True)
          (branchRound keccak256 db
            (fun child descended childPrefix =>
              witnessSubtree keccak256 db child childPrefix descended (cursor + 1))
            (fun descended childPrefix =>
              updatesSubtree keccak256 db descended childPrefix (cursor + 1))
            children pfx nib s) := by
      rintro nib s ⟨S, hS⟩
      refine branchRound_consumes hS (fun childPrefix => .branch childPrefix hnode hdecode)
        (fun child hchild v childPrefix hconcat hv => ?_) (updatesWalk_consumes nib _)
      rw [← hconcat] at hv ⊢
      exact ih (64 - (cursor + 1)) (by omega) childPrefix rfl (.branch hnode hdecode hchild) hv
    have hrounds := Ends.foreach
      (fun k (s : TrieChildren × TrieUpdateCursor) =>
        ∃ S, Taken keccak256 db baseRoot pfx.nibbles u k S s.1 s.2) hround
      (a := (trieChildrenEmpty, u)) ⟨[], Taken.start hu⟩
    refine Ends.bind hrounds fun s htaken => ?_
    obtain ⟨S, hS⟩ := htaken
    refine Ends.ite (fun _ => trivial) fun hno => ?_
    refine Ends.bind (Ends.of_forall_ok fun _ hfinish => hfinish) fun it hfinish => ?_
    exact ⟨S, hS.finish (by simpa using hno) hfinish⟩

end

/-! ## The whole stream -/

/-- A root computation that returns has consumed the whole stream, which
was strictly ascending with full-length keys, and its root is that of an
item to which every update was applied exactly once. -/
theorem trieRootCursor_consumes (keccak256 : List Byte → Hash) (db : Hash → StatelessInputSlice)
    (baseRoot : Hash) (U : List TrieUpdate) {r : TrieRootResult}
    (hr : trieRootCursor keccak256 db baseRoot (trieUpdatesBegin U) = .ok r) :
    Ascending U ∧ r.changed = decide (U ≠ []) ∧
    (U = [] → r.root = baseRoot) ∧
    (U ≠ [] → ∃ it rest,
      trieRootWalk keccak256 db baseRoot (trieUpdatesBegin U) = .ok (it, rest) ∧
      updatesEmpty rest = true ∧ rest.source = [] ∧
      Applies keccak256 db baseRoot U it ∧
      trieSubtreeRoot keccak256 db it = .ok r.root) := by
  rw [trieRootCursor, updatesEmpty_begin] at hr
  by_cases hU : U = []
  · subst hU
    cases hr
    have hnone : ∀ s ∈ ([] : List TrieUpdate), s.key.nibbles.length = 64 := by simp
    exact ⟨⟨List.Pairwise.nil, hnone⟩, rfl, fun _ => rfl, fun hne => absurd rfl hne⟩
  rw [if_neg (by simpa using hU)] at hr
  obtain ⟨⟨it, rest⟩, hwalk, hr⟩ := bind_eq_ok.mp hr
  obtain ⟨hbegin, hpending⟩ := tracked_begin U
  have hroot : WalkConsumes keccak256 db baseRoot [] (trieUpdatesBegin U)
      (trieRootWalk keccak256 db baseRoot (trieUpdatesBegin U)) := by
    refine Ends.ite (fun _ => updatesSubtree_consumes 64 pathEmpty rfl hbegin) fun _ => ?_
    exact Ends.ite (fun _ => trivial) fun _ =>
      witnessSubtree_consumes 64 pathEmpty rfl .root hbegin
  obtain ⟨S, hS⟩ := hroot.of_ok hwalk
  simp only at hr
  split at hr
  · rename_i hempty
    obtain ⟨root, hsubtree, heq⟩ := bind_eq_ok.mp hr
    cases heq
    -- An exhausted cursor has nothing pending, so the run is the stream.
    have hrest : pending rest = [] ∧ rest.source = [] := by
      have htracked := hS.tracked
      cases hrel : rest.relation with
      | updateUnderPrefix post =>
        rw [updatesEmpty, hrel] at hempty
        cases hempty
      | updateBeyondPrefix c =>
        rw [updatesEmpty, hrel] at hempty
        cases hempty
      | updateSourceExhausted =>
        rw [Tracked, hrel] at htracked
        exact ⟨by rw [pending, hrel], htracked⟩
    have hrun : U = S := by
      have hall := hS.pending
      rw [hpending, hrest.1, List.append_nil] at hall
      exact hall
    subst hrun
    exact ⟨hS.ascending, (decide_eq_true hU).symm, fun hnil => absurd hnil hU, fun _ =>
      ⟨it, rest, hwalk, hempty, hrest.2, hS.applies, hsubtree⟩⟩
  · cases hr

/-- A branch that loses a leaf and gains another. -/
theorem trieRootCursor_consumes_twoLeaves :
    Ascending twoLeavesUpdates ∧ ∃ it rest,
      trieRootWalk twoLeavesKeccak (witnessOf twoLeavesNodes)
        (mapRoot twoLeavesKeccak twoLeavesMap) (trieUpdatesBegin twoLeavesUpdates) =
          .ok (it, rest) ∧
      Applies twoLeavesKeccak (witnessOf twoLeavesNodes) (mapRoot twoLeavesKeccak twoLeavesMap)
        twoLeavesUpdates it := by
  obtain ⟨hascending, -, -, hwalk⟩ := trieRootCursor_consumes twoLeavesKeccak
    (witnessOf twoLeavesNodes) (mapRoot twoLeavesKeccak twoLeavesMap) twoLeavesUpdates
    (trieRootCursor_mapRoot sound_twoLeaves complete_twoLeaves fits_twoLeaves
      ascending_twoLeavesUpdates fits_twoLeavesUpdates)
  obtain ⟨it, rest, hrun, -, -, happlies, -⟩ := hwalk (by simp [twoLeavesUpdates])
  exact ⟨hascending, it, rest, hrun, happlies⟩

end

end EvmSail
