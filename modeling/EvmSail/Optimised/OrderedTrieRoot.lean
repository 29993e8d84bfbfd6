/-
# `EvmSail.Optimised.OrderedTrieRoot` — the ordered builder makes the canonical root

Before an entry is added, the frames are open on its path: their depths are
those at which an earlier entry leaves it (`Open`).  If the next key leaves
the entry further down than any of them, a frame opens there.  Otherwise the
deepest frame becomes complete with the entry, and frames are closed up to
where the next key leaves, each a child of the one above with the digits
between as an extension (`Closing`).  What is left is open on the path of the
next key; without one, all is closed and the root is that of the trie.

An entry whose key is not below the next one, or a prefix of it, is rejected,
whatever the frames are.
-/
import EvmSail.Optimised.OrderedTrieSound
import EvmSail.Mpt.IndexKeys

namespace EvmSail.Optimised

open Fallible Radix

section

variable {keccak256 : List Byte → Hash} {scratchTop : Nat} {J : List (List Nibble × List Byte)}
  {a : List Nibble} {v : List Byte}

/-! ## Closing frames -/

/-- The frames on the path of an entry that is in the trie: the deepest is
complete. -/
structure Closing (keccak256 : List Byte → Hash) (J : List (List Nibble × List Byte))
    (a : List Nibble) (top : TrieBranchFrame) (rest : List TrieBranchFrame) : Prop where
  full : ∀ x, Holds keccak256 J a top x
  others : ∀ f ∈ rest, Partial keccak256 J a f
  descend : ((top :: rest).map TrieBranchFrame.depth).Pairwise (· > ·)
  depth_lt : top.depth < a.length
  forks : ∀ d < top.depth, d ∈ rest.map TrieBranchFrame.depth ↔ Forks J a d

variable {top : TrieBranchFrame} {rest : List TrieBranchFrame} {builder : OrderedTrieBuilder}

/-- What closing the deepest frame gives. -/
theorem Closing.encode (h : Closing keccak256 J a top rest) (hfree : PrefixFree 64 J)
    (ha : (a, v) ∈ J) (hforks : Forks J a top.depth) :
    mptEncodeBranchReference keccak256 top =
      some (nodeReferenceOf keccak256 (subtrie 64 (a.take top.depth) J)) := by
  rw [subtrie_branch hfree ha h.depth_lt hforks]
  exact mptEncodeBranchReference_of (fun x => (h.full x).mask) fun x => (h.full x).child

/-- Between two depths without forks the trie is an extension. -/
theorem subtrie_gap (hfree : PrefixFree 64 J) (ha : (a, v) ∈ J) {d m : Nat} (hdm : d ≤ m)
    (hgap : ∀ i, d ≤ i → i < m → ¬ Forks J a i) :
    subtrie 64 (a.take d) J =
      Trie.prepend ((a.take m).drop d) (subtrie 64 (a.take m) J) := by
  have hsplit : a.take d ++ (a.take m).drop d = a.take m := by
    have hcut : (a.take m).take d = a.take d := by
      rw [List.take_take, Nat.min_eq_left hdm]
    rw [← hcut, List.take_append_drop]
  have hprepend := subtrie_prepend (p := a.take d) (q := (a.take m).drop d) hfree
    (by rw [hsplit]; exact (List.length_take_le' _ _).trans (hfree.length _ ha))
    fun e he hpre => by
      rw [hsplit]
      exact prefix_of_not_forks he hdm hpre hgap
  rw [hprepend, hsplit]

/-- Attaching a closed branch to a frame that is open at the path. -/
theorem attach_wrapped (scratchTop : Nat) {parent : TrieBranchFrame} {m : Nat}
    (hlive : builder.live = parent :: rest) (hfree : PrefixFree 64 J) (ha : (a, v) ∈ J)
    (hparent : Partial keccak256 J a parent) (hdm : parent.depth < m) (hm : m < a.length)
    (hforks : Forks J a m) (hgap : ∀ i, parent.depth < i → i < m → ¬ Forks J a i) :
    ∃ builder' top', closeInto keccak256 scratchTop builder a parent.depth m
        (nodeReferenceOf keccak256 (subtrie 64 (a.take m) J)) = some builder' ∧
      builder'.live = top' :: rest ∧ top'.depth = parent.depth ∧
      (∀ x, Holds keccak256 J a top' x) ∧ builder'.complete = builder.complete := by
  have hlen : a.length ≤ 64 := hfree.length _ ha
  have hbranch := subtrie_branch hfree ha hm hforks
  have hsub := subtrie_gap hfree ha (Nat.succ_le_of_lt hdm) fun i hi him => hgap i hi him
  rw [hbranch] at hsub
  have hgapLen : ((a.take m).drop (parent.depth + 1)).length ≤ 64 := by
    rw [List.length_drop]
    exact (Nat.sub_le _ _).trans ((List.length_take_le' _ _).trans hlen)
  have hfinal : pendingNodeFinalize keccak256 scratchTop (pendingOf keccak256
      (Trie.prepend ((a.take m).drop (parent.depth + 1))
        (.branch fun x => subtrie 64 (a.take m ++ [x]) J))) =
      some (nodeReferenceOf keccak256 (subtrie 64 (a.take (parent.depth + 1)) J)) := by
    rw [pendingOf_prepend_branch, pendingNodeFinalize_branch hgapLen, hsub]
  have hindex : a[parent.depth]? = some a[parent.depth] :=
    List.getElem?_eq_getElem (hdm.trans hm)
  obtain ⟨builder', hattach, hlive', hcomplete⟩ := orderedTrieBuilderAttach_live hlive hindex
    (hparent.fresh _ hindex) hfinal
  refine ⟨builder', _, ?_, hlive', rfl, hparent.attach hindex rfl ?_, hcomplete⟩
  · rw [closeInto, hbranch, mptWrapBranch_eq hlen]
    exact hattach
  · rw [hsub, Ne, Trie.prepend_eq_empty]
    nofun

/-- Opening a frame where the next key leaves, above a closed branch. -/
theorem reopen_wrapped (scratchTop : Nat) {common m : Nat} (hfree : PrefixFree 64 J)
    (ha : (a, v) ∈ J) (hcm : common < m) (hm : m < a.length) (hforks : Forks J a m)
    (hgap : ∀ i, common ≤ i → i < m → ¬ Forks J a i) (hcount : builder.frameCount < 64) :
    ∃ builder' top', closeReopening keccak256 scratchTop builder a common m
        (nodeReferenceOf keccak256 (subtrie 64 (a.take m) J)) = some builder' ∧
      builder'.live = top' :: builder.live ∧ top'.depth = common ∧
      (∀ x, Holds keccak256 J a top' x) ∧ builder'.complete = builder.complete := by
  have hlen : a.length ≤ 64 := hfree.length _ ha
  obtain ⟨opened, children, hpush, hlive, hopened⟩ :=
    orderedTrieBuilderPush_live builder (show common < 64 by omega) hcount
  have hnone : ∀ x, a[common]? ≠ some x → subtrie 64 (a.take common ++ [x]) J = .empty := by
    intro x hx
    have hsize : (a.take common).length = common := List.length_take_of_le (by omega)
    refine (subtrie_eq_empty hfree (by rw [List.length_append, hsize]; simp; omega)).mpr ?_
    intro e he hpre
    have hdigit : a[common]? = some a[common] := List.getElem?_eq_getElem (by omega)
    refine hgap common (Nat.le_refl _) hcm
      ⟨e, he, List.IsPrefix.trans (List.prefix_append _ _) hpre, fun hstay => hx ?_⟩
    rw [← take_concat_digit hdigit] at hstay
    obtain ⟨r, hr⟩ := hpre
    rw [← hr, List.append_assoc, List.prefix_append_right_inj] at hstay
    rw [hdigit, (List.cons_prefix_cons.mp hstay).1]
  obtain ⟨builder', top', hinto, hlive', hdepth, hfull, hcomplete⟩ :=
    attach_wrapped scratchTop hlive hfree ha (partial_fresh hnone) hcm hm hforks
      fun i hi him => hgap i hi.le him
  refine ⟨builder', top', ?_, hlive', hdepth, hfull, hcomplete.trans hopened⟩
  obtain ⟨wrapped, hwrap, hattach⟩ := Option.bind_eq_some_iff.mp hinto
  rw [closeReopening]
  exact Option.bind_eq_some_iff.mpr
    ⟨wrapped, hwrap, Option.bind_eq_some_iff.mpr ⟨opened, hpush, hattach⟩⟩

/-- The depths of the frames bound their number. -/
theorem length_le_of_descend {frames : List TrieBranchFrame} {m : Nat}
    (h : (frames.map TrieBranchFrame.depth).Pairwise (· > ·)) (hlt : ∀ f ∈ frames, f.depth < m) :
    frames.length ≤ m := by
  have hnodup : (frames.map TrieBranchFrame.depth).Nodup := h.imp Nat.ne_of_gt
  have hsub : (frames.map TrieBranchFrame.depth).Subset (List.range m) := by
    intro d hd
    obtain ⟨f, hf, rfl⟩ := List.mem_map.mp hd
    exact List.mem_range.mpr (hlt f hf)
  have hle := (List.subperm_of_subset hnodup hsub).length_le
  rwa [List.length_map, List.length_range] at hle

theorem Closing.above (h : Closing keccak256 J a top rest) : ∀ f ∈ rest, f.depth < top.depth :=
  fun f hf => (List.pairwise_cons.mp h.descend).1 f.depth (List.mem_map_of_mem hf)

/-- Where a frame below the deepest is made complete. -/
theorem Closing.parent {parent top' : TrieBranchFrame}
    (h : Closing keccak256 J a top (parent :: rest)) (hdepth : top'.depth = parent.depth)
    (hfull : ∀ x, Holds keccak256 J a top' x) : Closing keccak256 J a top' rest where
  full := hfull
  others f hf := h.others f (List.mem_cons_of_mem _ hf)
  descend := by
    have hrest := (List.pairwise_cons.mp h.descend).2
    rwa [List.map_cons, ← hdepth] at hrest
  depth_lt := by
    rw [hdepth]
    exact (h.above parent List.mem_cons_self).trans h.depth_lt
  forks d hd := by
    rw [hdepth] at hd
    have hparent := h.above parent List.mem_cons_self
    rw [← h.forks d (hd.trans hparent), List.map_cons, List.mem_cons]
    exact (or_iff_right hd.ne).symm

/-- Where a frame is opened between the deepest and the others. -/
theorem Closing.reopen {top' : TrieBranchFrame} {common : Nat}
    (h : Closing keccak256 J a top rest) (hdepth : top'.depth = common)
    (hfull : ∀ x, Holds keccak256 J a top' x) (hcommon : common < top.depth)
    (hrest : ∀ f ∈ rest, f.depth < common) : Closing keccak256 J a top' rest where
  full := hfull
  others := h.others
  descend := by
    rw [List.map_cons, List.pairwise_cons]
    refine ⟨fun d hd => ?_, (List.pairwise_cons.mp h.descend).2⟩
    obtain ⟨f, hf, rfl⟩ := List.mem_map.mp hd
    rw [hdepth]
    exact hrest f hf
  depth_lt := by
    rw [hdepth]
    exact hcommon.trans h.depth_lt
  forks d hd := h.forks d (by omega)

/-- Where a frame is above the deepest, nothing leaves the path between. -/
theorem Closing.gap (h : Closing keccak256 J a top rest) {d i : Nat}
    (hrest : ∀ f ∈ rest, f.depth ≤ d) (hi : d < i) (him : i < top.depth) : ¬ Forks J a i := by
  rw [← h.forks i him]
  intro hmem
  obtain ⟨f, hf, rfl⟩ := List.mem_map.mp hmem
  exact absurd (hrest f hf) (Nat.not_le.mpr hi)

/-- The round that closes the last frame. -/
theorem closeRound_last (scratchTop : Nat) {child : NodeReference} (next : Option Nat)
    (hlive : builder.live = [top])
    (hchild : mptEncodeBranchReference keccak256 top = some child) :
    orderedTrieBuilderCloseRound keccak256 scratchTop builder a next =
      let closed := { builder with frameCount := builder.frameCount - 1 }
      match next with
      | some common => closeReopening keccak256 scratchTop closed a common top.depth child
      | none => closeRoot closed a top.depth child := by
  obtain ⟨_, htop, hrest⟩ := live_eq_cons hlive
  have hcount := live_eq_nil hrest
  dsimp only at hcount
  rw [orderedTrieBuilderCloseRound, htop, hchild]
  dsimp only [Option.bind_eq_bind, Option.bind_some]
  refine (if_neg (not_not.mpr hcount)).trans ?_
  cases next with
  | none => rfl
  | some common => rfl

/-- The round that closes a frame below another. -/
theorem closeRound_parent (scratchTop : Nat) {child : NodeReference} {parent : TrieBranchFrame}
    (next : Option Nat) (hlive : builder.live = top :: parent :: rest)
    (hchild : mptEncodeBranchReference keccak256 top = some child) :
    orderedTrieBuilderCloseRound keccak256 scratchTop builder a next =
      let closed := { builder with frameCount := builder.frameCount - 1 }
      match next with
      | some common =>
        if parent.depth < common then
          closeReopening keccak256 scratchTop closed a common top.depth child
        else closeInto keccak256 scratchTop closed a parent.depth top.depth child
      | none => closeInto keccak256 scratchTop closed a parent.depth top.depth child := by
  obtain ⟨_, htop, hrest⟩ := live_eq_cons hlive
  obtain ⟨hcount, hparent, _⟩ := live_eq_cons hrest
  dsimp only at hcount hparent
  rw [orderedTrieBuilderCloseRound, htop, hchild]
  dsimp only [Option.bind_eq_bind, Option.bind_some]
  rw [hparent]
  refine (if_pos hcount).trans ?_
  cases next with
  | none => rfl
  | some common => rfl

/-- The loop closes frames up to where the next key leaves. -/
theorem orderedTrieBuilderClose_some (scratchTop : Nat) (hfree : PrefixFree 64 J)
    (ha : (a, v) ∈ J) (h : Closing keccak256 J a top rest) (hlive : builder.live = top :: rest)
    {common : Nat} (hcommon : common ≤ top.depth)
    (hforks : common < top.depth → Forks J a top.depth) :
    ∃ builder' top' rest',
      orderedTrieBuilderClose keccak256 scratchTop builder a (some common) = some builder' ∧
      builder'.live = top' :: rest' ∧ Closing keccak256 J a top' rest' ∧ top'.depth = common ∧
      builder'.complete = builder.complete := by
  have hlen : a.length ≤ 64 := hfree.length _ ha
  have hstop : ∀ {b : OrderedTrieBuilder} {f : TrieBranchFrame} {fs : List TrieBranchFrame},
      b.live = f :: fs → f.depth = common → closeDone b (some common) = true := by
    intro b f fs hb hf
    rw [closeDone, Option.any_some, (live_eq_cons hb).2.1, hf, decide_eq_true (Nat.le_refl _),
      Bool.or_true]
  have hgoOn : ∀ {b : OrderedTrieBuilder} {f : TrieBranchFrame} {fs : List TrieBranchFrame},
      b.live = f :: fs → common < f.depth → closeDone b (some common) = false := by
    intro b f fs hb hf
    obtain ⟨hcount, hf', _⟩ := live_eq_cons hb
    rw [closeDone, Option.any_some, hf', decide_eq_false (Nat.not_le.mpr hf), Bool.or_false,
      beq_eq_false_iff_ne]
    exact hcount
  -- a frame that is opened at the common prefix is the last one
  have hreopen : ∀ {b : OrderedTrieBuilder} {f : TrieBranchFrame} {fs : List TrieBranchFrame},
      b.live = f :: fs → Closing keccak256 J a f fs → common < f.depth → Forks J a f.depth →
      (∀ g ∈ fs, g.depth < common) →
      orderedTrieBuilderCloseRound keccak256 scratchTop b a (some common) =
        closeReopening keccak256 scratchTop { b with frameCount := b.frameCount - 1 } a common
          f.depth (nodeReferenceOf keccak256 (subtrie 64 (a.take f.depth) J)) →
      ∃ builder' top' rest',
        orderedTrieBuilderClose keccak256 scratchTop b a (some common) = some builder' ∧
        builder'.live = top' :: rest' ∧ Closing keccak256 J a top' rest' ∧ top'.depth = common ∧
        builder'.complete = b.complete := by
    intro b f fs hb hclosing hlt hfork hfs hround
    obtain ⟨_, _, hrest⟩ := live_eq_cons hb
    have hcount : { b with frameCount := b.frameCount - 1 }.frameCount < 64 := by
      rw [← length_live, hrest]
      have hle := length_le_of_descend (List.pairwise_cons.mp hclosing.descend).2 hfs
      have := hclosing.depth_lt
      omega
    have hgap : ∀ i, common ≤ i → i < f.depth → ¬ Forks J a i := by
      intro i hi hif
      rw [← hclosing.forks i hif]
      intro hmem
      obtain ⟨g, hg, rfl⟩ := List.mem_map.mp hmem
      exact absurd (hfs g hg) (Nat.not_lt.mpr hi)
    obtain ⟨builder', top', hrun, hlive', hdepth, hfull, hcomplete⟩ :=
      reopen_wrapped scratchTop hfree ha hlt hclosing.depth_lt hfork hgap hcount
    rw [hrest] at hlive'
    refine ⟨builder', top', fs, ?_, hlive', hclosing.reopen hdepth hfull hlt hfs, hdepth,
      hcomplete⟩
    rw [orderedTrieBuilderClose_round _ _ (hgoOn hb hlt) (hround.trans hrun),
      orderedTrieBuilderClose_done _ _ (hstop hlive' hdepth)]
  induction rest generalizing top builder with
  | nil =>
    rcases hcommon.eq_or_lt with heq | hlt
    · exact ⟨builder, top, [], orderedTrieBuilderClose_done _ _ (hstop hlive heq.symm), hlive, h,
        heq.symm, rfl⟩
    · exact hreopen hlive h hlt (hforks hlt) (by simp)
        (closeRound_last scratchTop _ hlive (h.encode hfree ha (hforks hlt)))
  | cons parent rest ih =>
    rcases hcommon.eq_or_lt with heq | hlt
    · exact ⟨builder, top, _, orderedTrieBuilderClose_done _ _ (hstop hlive heq.symm), hlive, h,
        heq.symm, rfl⟩
    have hround := closeRound_parent (a := a) scratchTop (some common) hlive
      (h.encode hfree ha (hforks hlt))
    dsimp only at hround
    by_cases hparent : parent.depth < common
    · rw [if_pos hparent] at hround
      have hdescend := (List.pairwise_cons.mp (List.pairwise_cons.mp h.descend).2).1
      refine hreopen hlive h hlt (hforks hlt) (fun g hg => ?_) hround
      rcases List.mem_cons.mp hg with rfl | hg
      · exact hparent
      · exact (hdescend g.depth (List.mem_map_of_mem hg)).trans hparent
    · rw [if_neg hparent] at hround
      have hbelow := h.above parent List.mem_cons_self
      have hdescend := (List.pairwise_cons.mp (List.pairwise_cons.mp h.descend).2).1
      obtain ⟨_, _, hrest⟩ := live_eq_cons hlive
      obtain ⟨next, top', hrun, hlive', hdepth, hfull, hcomplete⟩ :=
        attach_wrapped scratchTop hrest hfree ha (h.others parent List.mem_cons_self) hbelow
          h.depth_lt (hforks hlt) fun i hi him => h.gap (fun g hg => by
            rcases List.mem_cons.mp hg with rfl | hg
            · exact Nat.le_refl _
            · exact (hdescend g.depth (List.mem_map_of_mem hg)).le) hi him
      have hfork : Forks J a parent.depth :=
        (h.forks parent.depth hbelow).mp (List.mem_map_of_mem List.mem_cons_self)
      obtain ⟨builder', top'', rest', hclose, hresult, hclosing, hcommon', hcomplete'⟩ :=
        ih (h.parent hdepth hfull) hlive' (by omega) fun _ => hdepth ▸ hfork
      refine ⟨builder', top'', rest', ?_, hresult, hclosing, hcommon', hcomplete'.trans hcomplete⟩
      rw [orderedTrieBuilderClose_round _ _ (hgoOn hlive hlt) (hround.trans hrun), hclose]

/-- Without a next key the loop closes all frames. -/
theorem orderedTrieBuilderClose_none (scratchTop : Nat) (hfree : PrefixFree 64 J)
    (ha : (a, v) ∈ J) (h : Closing keccak256 J a top rest) (hlive : builder.live = top :: rest)
    (hforks : Forks J a top.depth) :
    ∃ builder', orderedTrieBuilderClose keccak256 scratchTop builder a none = some builder' ∧
      builder'.frameCount = 0 ∧ builder'.complete = true ∧
      builder'.root = pendingOf keccak256 (build 64 J) := by
  have hlen : a.length ≤ 64 := hfree.length _ ha
  have hgoOn : ∀ {b : OrderedTrieBuilder} {f : TrieBranchFrame} {fs : List TrieBranchFrame},
      b.live = f :: fs → closeDone b none = false := by
    intro b f fs hb
    rw [closeDone, Option.any_none, Bool.or_false, beq_eq_false_iff_ne]
    exact (live_eq_cons hb).1
  induction rest generalizing top builder with
  | nil =>
    obtain ⟨_, _, hrest⟩ := live_eq_cons hlive
    have hcount := live_eq_nil hrest
    have hbranch := subtrie_branch hfree ha h.depth_lt hforks
    have hround := closeRound_last (a := a) scratchTop none hlive (h.encode hfree ha hforks)
    have hroot : closeRoot { builder with frameCount := builder.frameCount - 1 } a top.depth
        (nodeReferenceOf keccak256 (subtrie 64 (a.take top.depth) J)) =
          some { builder with
            frameCount := builder.frameCount - 1
            root := pendingOf keccak256 (build 64 J)
            complete := true } := by
      have hgap := subtrie_gap hfree ha (Nat.zero_le top.depth) fun i _ hi hfork =>
        List.not_mem_nil ((h.forks i hi).mpr hfork)
      rw [List.take_zero, subtrie_nil, List.drop_zero, hbranch] at hgap
      rw [closeRoot, hbranch, pendingNodeReference_branch]
      split
      · rename_i hzero
        rw [hgap, hzero, List.take_zero, Trie.prepend_nil]
        rfl
      · have hslice : nibblePathSlice a 0 top.depth = a.take top.depth := by
          rw [nibblePathSlice, List.drop_zero]
        rw [hslice, pendingNodePrepend_branch ((List.length_take_le' _ _).trans hlen), ← hgap]
        rfl
    have hdone : closeDone { builder with
        frameCount := builder.frameCount - 1
        root := pendingOf keccak256 (build 64 J)
        complete := true } none = true := by
      rw [closeDone, Option.any_none, Bool.or_false, beq_iff_eq]
      exact hcount
    refine ⟨{ builder with
      frameCount := builder.frameCount - 1
      root := pendingOf keccak256 (build 64 J)
      complete := true }, ?_, hcount, rfl, rfl⟩
    rw [orderedTrieBuilderClose_round _ _ (hgoOn hlive) (hround.trans hroot),
      orderedTrieBuilderClose_done _ _ hdone]
  | cons parent rest ih =>
    have hround := closeRound_parent (a := a) scratchTop none hlive (h.encode hfree ha hforks)
    dsimp only at hround
    have hbelow := h.above parent List.mem_cons_self
    have hdescend := (List.pairwise_cons.mp (List.pairwise_cons.mp h.descend).2).1
    obtain ⟨_, _, hrest⟩ := live_eq_cons hlive
    obtain ⟨next, top', hrun, hlive', hdepth, hfull, _⟩ :=
      attach_wrapped scratchTop hrest hfree ha (h.others parent List.mem_cons_self) hbelow
        h.depth_lt hforks fun i hi him => h.gap (fun g hg => by
          rcases List.mem_cons.mp hg with rfl | hg
          · exact Nat.le_refl _
          · exact (hdescend g.depth (List.mem_map_of_mem hg)).le) hi him
    have hfork : Forks J a parent.depth :=
      (h.forks parent.depth hbelow).mp (List.mem_map_of_mem List.mem_cons_self)
    obtain ⟨builder', hclose, hresult⟩ := ih (h.parent hdepth hfull) hlive' (hdepth ▸ hfork)
    refine ⟨builder', ?_, hresult⟩
    rw [orderedTrieBuilderClose_round _ _ (hgoOn hlive) (hround.trans hrun), hclose]

/-! ## Adding an entry -/

/-- The frames on the path to the next key. -/
structure Open (keccak256 : List Byte → Hash) (J : List (List Nibble × List Byte))
    (a : List Nibble) (live : List TrieBranchFrame) : Prop where
  holds : ∀ f ∈ live, Partial keccak256 J a f
  descend : (live.map TrieBranchFrame.depth).Pairwise (· > ·)
  forks : ∀ d, d ∈ live.map TrieBranchFrame.depth ↔ Forks J a d

theorem Open.depth_lt {live : List TrieBranchFrame} (h : Open keccak256 J a live) :
    ∀ f ∈ live, f.depth < a.length :=
  fun f hf => ((h.forks f.depth).mp (List.mem_map_of_mem hf)).lt_length

theorem not_prefix_of_concat (hfree : PrefixFree 64 (J ++ [(a, v)])) :
    ∀ e ∈ J, ¬ a <+: e.1 := fun e he =>
  ((List.pairwise_append.mp hfree.free).2.2 e he (a, v) (List.mem_singleton_self _)).2

/-- The trie of the entry alone. -/
theorem subtrie_entry {m : Nat} (hfree : PrefixFree 64 (J ++ [(a, v)]))
    (hforks : ∀ i, Forks J a i → i < m) :
    subtrie 64 (a.take m) (J ++ [(a, v)]) = .leaf (a.drop m) v := by
  have hsub := subtrie_leaf (n := 64) (q := a.drop m)
    (fun e he => not_prefix_of_forks_lt hforks he (not_prefix_of_concat hfree e he)) v
  rwa [List.take_append_drop] at hsub

/-- The deepest frame becomes complete with the entry. -/
theorem Open.attach (scratchTop : Nat) (h : Open keccak256 J a (top :: rest))
    (hlive : builder.live = top :: rest) (hfree : PrefixFree 64 (J ++ [(a, v)]))
    (hfits : LeafFits scratchTop v) :
    ∃ builder' top',
      orderedTrieBuilderAttach keccak256 scratchTop builder a (.leaf (a.drop (top.depth + 1)) v) =
        some builder' ∧
      builder'.live = top' :: rest ∧ top'.depth = top.depth ∧
      Closing keccak256 (J ++ [(a, v)]) a top' rest ∧ builder'.complete = builder.complete := by
  have hlen : a.length ≤ 64 := hfree.length (a, v) (by simp)
  have hdepth := h.depth_lt top List.mem_cons_self
  have hindex : a[top.depth]? = some a[top.depth] := List.getElem?_eq_getElem hdepth
  have habove := (List.pairwise_cons.mp h.descend).1
  have hleaf := subtrie_entry (m := top.depth + 1) hfree fun i hi => by
    rcases List.mem_cons.mp ((h.forks i).mpr hi) with rfl | hmem
    · exact Nat.lt_succ_self _
    · exact (habove i hmem).trans (Nat.lt_succ_self _)
  have hfinal := @pendingNodeFinalize_leaf keccak256 scratchTop (a.drop (top.depth + 1)) v
    (by rw [List.length_drop]; omega) hfits
  have htop := (h.holds top List.mem_cons_self).concat hdepth v
  obtain ⟨builder', hattach, hlive', hcomplete⟩ := orderedTrieBuilderAttach_live hlive hindex
    (htop.fresh _ hindex) hfinal
  refine ⟨builder', _, hattach, hlive', rfl, ?_, hcomplete⟩
  refine ⟨htop.attach hindex hleaf nofun, fun f hf => ?_, h.descend, hdepth, fun d hd => ?_⟩
  · have hmem := List.mem_cons_of_mem top hf
    exact (h.holds f hmem).concat (h.depth_lt f hmem) v
  · rw [forks_concat_self, ← h.forks d, List.map_cons, List.mem_cons]
    exact (or_iff_right (Nat.ne_of_lt hd)).symm

variable {p r r' : List Nibble} {x y : Nibble}

/-- Frames that are open at the entry up to its common prefix with the next
key are open at that key. -/
theorem open_next {live : List TrieBranchFrame}
    (hholds : ∀ f ∈ live, Partial keccak256 J (p ++ x :: r) f)
    (hle : ∀ e ∈ J, e.1 ≤ p ++ x :: r) (hxy : x < y) (hmem : (p ++ x :: r, v) ∈ J)
    (hnew : Partial keccak256 J (p ++ y :: r') top) (hdepth : top.depth = p.length)
    (hdescend : ((top :: live).map TrieBranchFrame.depth).Pairwise (· > ·))
    (hforks : ∀ d < p.length, d ∈ live.map TrieBranchFrame.depth ↔ Forks J (p ++ x :: r) d) :
    Open keccak256 J (p ++ y :: r') (top :: live) := by
  have hshare : ∀ d < p.length, (p ++ x :: r).take (d + 1) = (p ++ y :: r').take (d + 1) := by
    intro d hd
    rw [List.take_append_of_le_length hd, List.take_append_of_le_length hd]
  have habove := (List.pairwise_cons.mp hdescend).1
  refine ⟨fun f hf => ?_, hdescend, fun d => ?_⟩
  · rcases List.mem_cons.mp hf with rfl | hf
    · exact hnew
    · refine (hholds f hf).congr (hshare _ ?_)
      rw [← hdepth]
      exact habove f.depth (List.mem_map_of_mem hf)
  · rw [List.map_cons, List.mem_cons, hdepth]
    have hat : (p ++ y :: r').take (p.length + 1) = p ++ [y] :=
      List.take_length_add_append 1
    rcases Nat.lt_trichotomy d p.length with hlt | heq | hgt
    · rw [or_iff_right hlt.ne, hforks d hlt, forks_congr (hshare d hlt)]
    · refine iff_of_true (Or.inl heq) ⟨_, hmem, ?_, ?_⟩
      · rw [heq, List.take_left]
        exact List.prefix_append _ _
      · rw [heq, hat]
        exact not_prefix_of_le (le_refl _) hxy
    · refine iff_of_false (not_or.mpr ⟨hgt.ne', fun hin => ?_⟩) ?_
      · exact absurd (hdepth ▸ habove d hin) (Nat.lt_asymm hgt)
      · rintro ⟨e, he, hpre, _⟩
        refine not_prefix_of_le (hle e he) hxy (List.IsPrefix.trans ?_ hpre)
        rw [← hat]
        exact List.take_prefix_take_left (Nat.succ_le_of_lt hgt)

/-- A complete frame where the next key leaves is open at that key. -/
theorem partial_of_full (hfree : PrefixFree 64 J) (hle : ∀ e ∈ J, e.1 ≤ p ++ x :: r) (hxy : x < y)
    (hp : p.length < 64) (hdepth : top.depth = p.length)
    (hfull : ∀ z, Holds keccak256 J (p ++ x :: r) top z) :
    Partial keccak256 J (p ++ y :: r') top := by
  have htake : (p ++ x :: r).take top.depth = (p ++ y :: r').take top.depth := by
    rw [hdepth, List.take_left, List.take_left]
  refine ⟨fun z hz => ?_, fun z _ => ?_⟩
  · rw [hdepth, List.getElem?_append_right (Nat.le_refl _), Nat.sub_self] at hz
    rw [Bool.eq_false_iff, Ne, (hfull z).mask, not_not, hdepth, List.take_left]
    cases hz
    refine (subtrie_eq_empty hfree ?_).mpr fun e he => not_prefix_of_le (hle e he) hxy
    rw [List.length_append, List.length_singleton]
    omega
  · exact ⟨by rw [← htake]; exact (hfull z).mask, by rw [← htake]; exact (hfull z).child⟩

/-! ## The keys -/

theorem nibblePathLess_iff (a b : List Nibble) : nibblePathLess a b = true ↔ a < b := by
  rw [nibblePathLess]
  induction a generalizing b with
  | nil => cases b with
    | nil => simp
    | cons y b => simp
  | cons x a ih =>
    cases b with
    | nil => simp
    | cons y b =>
      have hrest := ih b
      rw [Bool.or_eq_true, Bool.and_eq_true, decide_eq_true_iff, decide_eq_true_iff, beq_iff_eq]
        at hrest ⊢
      rw [List.length_cons, List.length_cons, Nat.succ_min_succ, List.take_succ_cons,
        List.take_succ_cons, List.cons_lt_cons_iff, List.cons_lt_cons_iff, ← hrest,
        List.cons.injEq, Nat.succ_lt_succ_iff]
      tauto

theorem nibblePathCommon_append (p : List Nibble) {x y : Nibble} (hxy : x ≠ y)
    (r r' : List Nibble) : nibblePathCommon (p ++ x :: r) (p ++ y :: r') = p.length := by
  induction p with
  | nil => rw [List.nil_append, List.nil_append, nibblePathCommon, if_neg hxy, List.length_nil]
  | cons z p ih =>
    rw [List.cons_append, List.cons_append, nibblePathCommon, if_pos rfl, ih, List.length_cons]

theorem nibblePathCommon_of_prefixed {a b : List Nibble} (h : a <+: b) :
    nibblePathCommon a b = a.length := by
  obtain ⟨r, rfl⟩ := h
  induction a with
  | nil => cases r <;> rfl
  | cons z a ih =>
    rw [List.cons_append, nibblePathCommon, if_pos rfl, ih, List.length_cons]

/-- A key that is not in order after that of the entry, or not apart from it,
is rejected. -/
theorem orderedTrieBuilderInsert_rejects (keccak256 : List Byte → Hash) (scratchTop : Nat)
    (resolve : NodeReference → Option PendingNode) (builder : OrderedTrieBuilder)
    (item : TrieEntry) {next : List Nibble} (h : ¬ item.path < next ∨ item.path <+: next) :
    orderedTrieBuilderInsert keccak256 scratchTop resolve builder item (some next) = none := by
  have hrejected : (!nibblePathLess item.path next ||
      decide (item.path.length ≤ nibblePathCommon item.path next) ||
      decide (next.length ≤ nibblePathCommon item.path next)) = true := by
    rcases h with h | h
    · rw [Bool.eq_false_iff.mpr (mt (nibblePathLess_iff _ _).mp h)]
      rfl
    · rw [nibblePathCommon_of_prefixed h, decide_eq_true (Nat.le_refl _), Bool.or_true,
        Bool.true_or]
  rw [orderedTrieBuilderInsert]
  split
  · rfl
  · dsimp only
    rw [Option.any_some, if_pos hrejected]

theorem trieEntryPending_leaf (resolve : NodeReference → Option PendingNode) {depth : Nat}
    (hdepth : depth ≤ a.length) :
    trieEntryPending resolve ⟨a, .leaf v⟩ depth = some (.leaf (a.drop depth) v) := by
  rw [trieEntryPending, if_neg (Nat.not_lt.mpr hdepth)]

/-- The next key is in order and apart from that of the entry: it is not
rejected. -/
theorem not_rejected (hxy : x < y) :
    ¬ (!nibblePathLess (p ++ x :: r) (p ++ y :: r') ||
      decide ((p ++ x :: r).length ≤ nibblePathCommon (p ++ x :: r) (p ++ y :: r')) ||
      decide ((p ++ y :: r').length ≤ nibblePathCommon (p ++ x :: r) (p ++ y :: r'))) = true := by
  have hlt : nibblePathLess (p ++ x :: r) (p ++ y :: r') = true :=
    (nibblePathLess_iff _ _).mpr
      (show Precedes _ _ from ⟨p, x, y, r, r', rfl, rfl, hxy⟩).lt
  rw [hlt, nibblePathCommon_append p hxy.ne]
  simp

/-- Where the next key leaves below all frames, a frame opens. -/
theorem orderedTrieBuilderInsert_opens (scratchTop : Nat)
    (resolve : NodeReference → Option PendingNode) (hcomplete : builder.complete = false)
    (hxy : x < y) (hlt : ∀ f ∈ builder.live, f.depth < p.length) :
    orderedTrieBuilderInsert keccak256 scratchTop resolve builder ⟨p ++ x :: r, .leaf v⟩
        (some (p ++ y :: r')) =
      (orderedTrieBuilderPush builder p.length).bind fun opened =>
        orderedTrieBuilderAttach keccak256 scratchTop opened (p ++ x :: r)
          (.leaf ((p ++ x :: r).drop (p.length + 1)) v) := by
  have hfilter : (some p.length).filter (fun common => builder.frameCount == 0 ||
      decide ((builder.frames (builder.frameCount - 1)).depth < common)) = some p.length := by
    refine if_pos ?_
    dsimp only
    cases hlive : builder.live with
    | nil => rw [live_eq_nil hlive, beq_self_eq_true, Bool.true_or]
    | cons top rest =>
      rw [(live_eq_cons hlive).2.1, decide_eq_true (hlt top (hlive ▸ List.mem_cons_self)),
        Bool.or_true]
  rw [orderedTrieBuilderInsert, hcomplete, if_neg Bool.false_ne_true]
  dsimp only
  rw [Option.any_some, if_neg (not_rejected hxy), Option.map_some,
    nibblePathCommon_append p hxy.ne, hfilter]
  dsimp only
  rw [trieEntryPending_leaf resolve (by simp)]
  rfl

/-- Where it leaves at a frame or above, frames are closed. -/
theorem orderedTrieBuilderInsert_closes (scratchTop : Nat)
    (resolve : NodeReference → Option PendingNode) (hcomplete : builder.complete = false)
    (hlive : builder.live = top :: rest) (hxy : x < y) (hle : p.length ≤ top.depth)
    (hdepth : top.depth < (p ++ x :: r).length) :
    orderedTrieBuilderInsert keccak256 scratchTop resolve builder ⟨p ++ x :: r, .leaf v⟩
        (some (p ++ y :: r')) =
      (orderedTrieBuilderAttach keccak256 scratchTop builder (p ++ x :: r)
          (.leaf ((p ++ x :: r).drop (top.depth + 1)) v)).bind fun attached =>
        orderedTrieBuilderClose keccak256 scratchTop attached (p ++ x :: r) (some p.length) := by
  obtain ⟨hcount, htop, _⟩ := live_eq_cons hlive
  have hfilter : (some p.length).filter (fun common => builder.frameCount == 0 ||
      decide ((builder.frames (builder.frameCount - 1)).depth < common)) = none := by
    refine if_neg ?_
    dsimp only
    rw [htop, beq_eq_false_iff_ne.mpr hcount, Bool.false_or, decide_eq_true_iff]
    exact Nat.not_lt.mpr hle
  rw [orderedTrieBuilderInsert, hcomplete, if_neg Bool.false_ne_true]
  dsimp only
  rw [Option.any_some, if_neg (not_rejected hxy), Option.map_some,
    nibblePathCommon_append p hxy.ne, hfilter]
  dsimp only
  rw [if_neg hcount, htop, trieEntryPending_leaf resolve (Nat.succ_le_of_lt hdepth)]
  rfl

/-- The last entry becomes the root, or is attached and all is closed. -/
theorem orderedTrieBuilderInsert_last (scratchTop : Nat)
    (resolve : NodeReference → Option PendingNode) (hcomplete : builder.complete = false)
    (hlive : builder.live = top :: rest) (hdepth : top.depth < a.length) :
    orderedTrieBuilderInsert keccak256 scratchTop resolve builder ⟨a, .leaf v⟩ none =
      (orderedTrieBuilderAttach keccak256 scratchTop builder a
          (.leaf (a.drop (top.depth + 1)) v)).bind fun attached =>
        orderedTrieBuilderClose keccak256 scratchTop attached a none := by
  obtain ⟨hcount, htop, _⟩ := live_eq_cons hlive
  rw [orderedTrieBuilderInsert, hcomplete, if_neg Bool.false_ne_true]
  dsimp only
  rw [Option.any_none, if_neg Bool.false_ne_true, Option.map_none]
  dsimp only [Option.filter_none]
  rw [if_neg hcount, htop, trieEntryPending_leaf resolve (Nat.succ_le_of_lt hdepth)]
  rfl

/-- A frame that is opened is complete with the entry. -/
theorem Open.push (scratchTop : Nat) {m : Nat} (h : Open keccak256 J a builder.live)
    (hfree : PrefixFree 64 (J ++ [(a, v)])) (hfits : LeafFits scratchTop v) (hm : m < a.length)
    (hlt : ∀ f ∈ builder.live, f.depth < m) :
    ∃ builder' top', ((orderedTrieBuilderPush builder m).bind fun opened =>
        orderedTrieBuilderAttach keccak256 scratchTop opened a (.leaf (a.drop (m + 1)) v)) =
          some builder' ∧
      builder'.live = top' :: builder.live ∧ top'.depth = m ∧
      (∀ z, Holds keccak256 (J ++ [(a, v)]) a top' z) ∧
      builder'.complete = builder.complete := by
  have hlen : a.length ≤ 64 := hfree.length (a, v) (by simp)
  have hcount : builder.frameCount < 64 := by
    rw [← length_live]
    have hle := length_le_of_descend h.descend hlt
    omega
  have hforks : ∀ i, Forks J a i → i < m := by
    intro i hi
    obtain ⟨f, hf, rfl⟩ := List.mem_map.mp ((h.forks i).mpr hi)
    exact hlt f hf
  have hnone : ∀ z, a[m]? ≠ some z → subtrie 64 (a.take m ++ [z]) (J ++ [(a, v)]) = .empty := by
    intro z hz
    have hsize : (a.take m).length = m := List.length_take_of_le hm.le
    refine (subtrie_eq_empty hfree (by rw [List.length_append, hsize]; simp; omega)).mpr ?_
    intro e he hpre
    rcases List.mem_append.mp he with he | he
    · exact not_prefix_of_forks_lt hforks he (not_prefix_of_concat hfree e he)
        (List.IsPrefix.trans (List.prefix_append _ _) hpre)
    · rw [List.mem_singleton.mp he] at hpre
      exact hz (digit_of_take_prefixed hm.le hpre)
  obtain ⟨opened, children, hpush, hlive, hopened⟩ :=
    orderedTrieBuilderPush_live builder (show m < 64 by omega) hcount
  have hindex : a[m]? = some a[m] := List.getElem?_eq_getElem hm
  have hleaf := subtrie_entry (m := m + 1) hfree
    fun i hi => (hforks i hi).trans (Nat.lt_succ_self m)
  have hfinal := @pendingNodeFinalize_leaf keccak256 scratchTop (a.drop (m + 1)) v
    (by rw [List.length_drop]; omega) hfits
  have hfresh := @partial_fresh keccak256 _ a m children hnone
  obtain ⟨builder', hattach, hlive', hcomplete⟩ := orderedTrieBuilderAttach_live hlive hindex
    (hfresh.fresh _ hindex) hfinal
  refine ⟨builder', _, ?_, hlive', rfl, hfresh.attach hindex hleaf nofun, hcomplete.trans hopened⟩
  rw [hpush]
  exact hattach

/-- An entry with a key after it leaves the frames open at that key. -/
theorem Open.insert (scratchTop : Nat) (resolve : NodeReference → Option PendingNode)
    {a' : List Nibble} (h : Open keccak256 J a builder.live) (hcomplete : builder.complete = false)
    (hfree : PrefixFree 64 (J ++ [(a, v)])) (hle : ∀ e ∈ J, e.1 ≤ a)
    (hfits : LeafFits scratchTop v) (hnext : Precedes a a') :
    ∃ builder', orderedTrieBuilderInsert keccak256 scratchTop resolve builder ⟨a, .leaf v⟩
        (some a') = some builder' ∧
      Open keccak256 (J ++ [(a, v)]) a' builder'.live ∧ builder'.complete = false := by
  have hmem : (a, v) ∈ J ++ [(a, v)] := by simp
  have hle' : ∀ e ∈ J ++ [(a, v)], e.1 ≤ a := by
    intro e he
    rcases List.mem_append.mp he with he | he
    · exact hle e he
    · rw [List.mem_singleton.mp he]
  have hlen : a.length ≤ 64 := hfree.length _ hmem
  obtain ⟨p, x, y, r, r', rfl, rfl, hxy⟩ := hnext
  have hp : p.length < (p ++ x :: r).length := by simp
  by_cases hlt : ∀ f ∈ builder.live, f.depth < p.length
  · obtain ⟨builder', top', hrun, hlive, hdepth, hfull, hstill⟩ :=
      h.push scratchTop hfree hfits hp hlt
    refine ⟨builder', ?_, ?_, hstill.trans hcomplete⟩
    · rw [orderedTrieBuilderInsert_opens scratchTop resolve hcomplete hxy hlt, hrun]
    · rw [hlive]
      refine open_next (fun f hf => (h.holds f hf).concat (h.depth_lt f hf) v) hle' hxy hmem
        (partial_of_full hfree hle' hxy (hp.trans_le hlen) hdepth hfull) hdepth ?_ fun d _ => ?_
      · rw [List.map_cons, List.pairwise_cons]
        refine ⟨fun d hd => ?_, h.descend⟩
        obtain ⟨f, hf, rfl⟩ := List.mem_map.mp hd
        rw [hdepth]
        exact hlt f hf
      · rw [forks_concat_self]
        exact h.forks d
  · cases hlive : builder.live with
    | nil => exact absurd (by rw [hlive]; nofun) hlt
    | cons top rest =>
      rw [hlive] at h hlt
      have hle : p.length ≤ top.depth := by
        by_contra hless
        refine hlt fun f hf => ?_
        rcases List.mem_cons.mp hf with rfl | hf
        · exact Nat.not_le.mp hless
        · exact ((List.pairwise_cons.mp h.descend).1 f.depth (List.mem_map_of_mem hf)).trans
            (Nat.not_le.mp hless)
      obtain ⟨attached, top', hattach, hattached, hdepth, hclosing, hstill⟩ :=
        h.attach scratchTop hlive hfree hfits
      have hforks : Forks (J ++ [(p ++ x :: r, v)]) (p ++ x :: r) top'.depth := by
        rw [forks_concat_self, ← h.forks, hdepth]
        exact List.mem_map_of_mem List.mem_cons_self
      obtain ⟨builder', last, rest', hclose, hlive', hlast, hcommon, hstill'⟩ :=
        orderedTrieBuilderClose_some scratchTop hfree hmem hclosing hattached (hdepth ▸ hle)
          fun _ => hforks
      refine ⟨builder', ?_, ?_, hstill'.trans (hstill.trans hcomplete)⟩
      · rw [orderedTrieBuilderInsert_closes scratchTop resolve hcomplete hlive hxy hle
          (h.depth_lt top List.mem_cons_self), hattach]
        exact hclose
      · rw [hlive']
        refine open_next hlast.others hle' hxy hmem
          (partial_of_full hfree hle' hxy (hp.trans_le hlen) hcommon hlast.full) hcommon
          hlast.descend fun d hd => hlast.forks d (hcommon ▸ hd)

/-- The last entry leaves the trie of all. -/
theorem Open.insert_last (scratchTop : Nat) (resolve : NodeReference → Option PendingNode)
    (h : Open keccak256 J a builder.live) (hcomplete : builder.complete = false)
    (hfree : PrefixFree 64 (J ++ [(a, v)])) (hfits : LeafFits scratchTop v) :
    ∃ builder', orderedTrieBuilderInsert keccak256 scratchTop resolve builder ⟨a, .leaf v⟩ none =
        some builder' ∧
      builder'.frameCount = 0 ∧ builder'.complete = true ∧
      builder'.root = pendingOf keccak256 (build 64 (J ++ [(a, v)])) := by
  have hmem : (a, v) ∈ J ++ [(a, v)] := by simp
  cases hlive : builder.live with
  | nil =>
    have hnil : J = [] := by
      rw [List.eq_nil_iff_forall_not_mem]
      intro e he
      obtain ⟨d, _, hforks, _⟩ := exists_forks he (not_prefix_of_concat hfree e he)
      rw [hlive] at h
      exact List.not_mem_nil ((h.forks d).mpr hforks)
    have hcount := live_eq_nil hlive
    have hroot : build 64 [(a, v)] = .leaf a v := by
      have hsub := @subtrie_leaf _ _ _ 64 [] a [] nofun v
      rwa [List.nil_append, List.nil_append, subtrie_nil] at hsub
    refine ⟨{ builder with root := .leaf a v, complete := true }, ?_, hcount, rfl, ?_⟩
    · rw [orderedTrieBuilderInsert, hcomplete, if_neg Bool.false_ne_true]
      dsimp only
      rw [Option.any_none, if_neg Bool.false_ne_true, Option.map_none]
      dsimp only [Option.filter_none]
      rw [if_pos hcount, trieEntryPending_leaf resolve (Nat.zero_le _)]
      rfl
    · rw [hnil, List.nil_append, hroot, pendingOf]
  | cons top rest =>
    rw [hlive] at h
    obtain ⟨attached, top', hattach, hattached, hdepth, hclosing, _⟩ :=
      h.attach scratchTop hlive hfree hfits
    have hforks : Forks (J ++ [(a, v)]) a top'.depth := by
      rw [forks_concat_self, ← h.forks, hdepth]
      exact List.mem_map_of_mem List.mem_cons_self
    obtain ⟨builder', hclose, hresult⟩ :=
      orderedTrieBuilderClose_none scratchTop hfree hmem hclosing hattached hforks
    refine ⟨builder', ?_, hresult⟩
    rw [orderedTrieBuilderInsert_last scratchTop resolve hcomplete hlive
      (h.depth_lt top List.mem_cons_self), hattach]
    exact hclose

end

end EvmSail.Optimised
