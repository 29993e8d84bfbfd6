/-
# `EvmSail.Executor.PayloadRootsSound` — index-keyed roots are canonical

The items of the index-keyed tries are leaves and branches only, and their
keys have several lengths; what they stand for is the construction of
`EvmSail.Lib.RadixBuild` on prefix-free entries (`Denotes`).

A cursor `Yields` a list of entries when popping it hands them out one
after the other.  The walk over a cursor consumes the entries below its
prefix and assembles their trie (`indexedTrieSubtree_spec`); the entries
of a source, in the order they are handed out, are those of its values.
-/
import EvmSail.Executor.PayloadRoots
import EvmSail.Mpt.RootSound

namespace EvmSail

open Fallible Radix

variable {keccak256 : List Byte → Hash} {db : Hash → StatelessInputSlice}

/-! ## Items -/

/-- The item denotes the trie below the prefix `P`. -/
inductive Denotes (keccak256 : List Byte → Hash) (P : List Nibble) : TrieItem → NibbleTrie → Prop
  | empty (it : TrieItem) : it.value = .emptySubtree → Denotes keccak256 P it .empty
  | leaf (it : TrieItem) (q : List Nibble) (value : TrieLeafValue) (v : List Byte) :
      it.value = .leafItem value → (value = .inputTrieLeaf v ∨ value = .scratchTrieLeaf v) →
      it.path.nibbles = P ++ q → ValueFits v → Denotes keccak256 P it (.leaf q v)
  | branch (it : TrieItem) (q : List Nibble) (cs : Nibble → NibbleTrie) (r : NodeRef) :
      it.value = .branchItem r → RefOf keccak256 r (encodeNode keccak256 (.branch cs)) →
      it.path.nibbles = P ++ q → (∀ x, TrieFits (cs x)) →
      Denotes keccak256 P it ((Trie.branch cs).prepend q)

/-- An item of the child under `x` is an item of the trie it is the only
child of. -/
theorem Denotes.up {P : List Nibble} {x : Nibble} {it : TrieItem} {t : NibbleTrie}
    (h : Denotes keccak256 (P ++ [x]) it t) : Denotes keccak256 P it (t.prepend [x]) := by
  cases h with
  | empty hval => exact .empty it hval
  | leaf q value v hval hv hpath hfit =>
    rw [Trie.prepend_leaf]
    exact .leaf it _ value v hval hv (by rw [hpath, List.append_assoc]) hfit
  | branch q cs r hval hr hpath hfit =>
    rw [← Trie.prepend_append]
    exact .branch it _ cs r hval hr (by rw [hpath, List.append_assoc]) hfit

theorem Denotes.fits {P : List Nibble} {it : TrieItem} {t : NibbleTrie}
    (h : Denotes keccak256 P it t) : TrieFits t := by
  have hlen := it.path.length_nibbles_le
  cases h with
  | empty => exact .empty
  | leaf q value v _ _ hpath hfit =>
    rw [hpath, List.length_append] at hlen
    exact .leaf q v (by omega) hfit
  | branch q cs r _ _ hpath hfit =>
    rw [hpath, List.length_append] at hlen
    rcases eq_or_ne q [] with rfl | hq
    · rw [Trie.prepend_nil]
      exact .branch cs hfit
    · rw [Trie.prepend_branch hq]
      exact .ext q _ (by omega) (.branch cs hfit)

/-- Items of an empty trie have an empty payload. -/
theorem Denotes.value_iff {P : List Nibble} {it : TrieItem} {t : NibbleTrie}
    (h : Denotes keccak256 P it t) : it.value = .emptySubtree ↔ t = .empty := by
  cases h with
  | empty hval => exact ⟨fun _ => rfl, fun _ => hval⟩
  | leaf q value v hval _ _ _ => simp [hval]
  | branch q cs r hval _ _ _ => simp [hval, Trie.prepend_eq_empty]

theorem Denotes.below {P : List Nibble} {it : TrieItem} {t : NibbleTrie}
    (h : Denotes keccak256 P it t) (ht : t ≠ .empty) : P <+: it.path.nibbles := by
  cases h with
  | empty hval => exact absurd rfl ht
  | leaf q value v _ _ hpath _ => exact ⟨q, hpath.symm⟩
  | branch q cs r _ _ hpath _ => exact ⟨q, hpath.symm⟩

variable (db) in
/-- The child reference of an item is a reference to the trie it denotes
at that depth. -/
theorem Denotes.childRef {P : List Nibble} {it : TrieItem} {t : NibbleTrie}
    (h : Denotes keccak256 P it t) :
    ∃ r, trieChildRef keccak256 db it P.length = .ok r ∧
      RefOf keccak256 r (encodeNode keccak256 t) := by
  have hlen := it.path.length_nibbles_le
  cases h with
  | empty hval => exact ⟨.emptyRef, by simp [trieChildRef, hval], .empty⟩
  | leaf q value v hval hv hpath hfit =>
    rw [hpath, List.length_append] at hlen
    have hq : (TriePath.ofNibbles q).nibbles = q := TriePath.nibbles_ofNibbles (by omega)
    obtain ⟨r, hr, hro⟩ := leafChildRef_spec keccak256 (.ofNibbles q) hv hfit
    rw [hq] at hro
    refine ⟨r, ?_, hro⟩
    simp only [trieChildRef, pathDrop_eq, ok_bind, hpath, List.drop_left, hval]
    exact hr
  | branch q cs r hval hr hpath hfit =>
    rw [hpath, List.length_append] at hlen
    have hq : (TriePath.ofNibbles q).nibbles = q := TriePath.nibbles_ofNibbles (by omega)
    simp only [trieChildRef, pathDrop_eq, ok_bind, hpath, List.drop_left, pathLen_eq, hq, hval]
    rcases eq_or_ne q [] with rfl | hqne
    · exact ⟨r, rfl, by simpa using hr⟩
    · rw [if_neg (by simpa using hqne), Trie.prepend_branch hqne]
      have hqne' : (TriePath.ofNibbles q).nibbles ≠ [] := by rwa [hq]
      have := mergeExtRef_branch hqne' hfit hr
      rwa [hq] at this

variable (db) in
/-- Adding the item of one child to an accumulator of such items. -/
theorem Denotes.add {pfx : TriePath} {acc : TrieChildren} {cs : Nibble → NibbleTrie} {x : Nibble}
    {it : TrieItem} {t : NibbleTrie}
    (hacc : Gathers keccak256 (fun x => Denotes keccak256 (pfx.nibbles ++ [x])) acc cs)
    (hx : cs x = .empty) (hit : Denotes keccak256 (pfx.nibbles ++ [x]) it t)
    (hlen : pfx.nibbles.length < 64) :
    ∃ acc', trieChildrenAdd keccak256 db acc pfx x it = .ok acc' ∧
      Gathers keccak256 (fun x => Denotes keccak256 (pfx.nibbles ++ [x])) acc'
        (Function.update cs x t) := by
  by_cases ht : t = .empty
  · have hval := hit.value_iff.mpr ht
    refine ⟨acc, by simp only [trieChildrenAdd, hval], ?_⟩
    rwa [ht, Function.update_eq_self_iff.mpr hx.symm]
  · obtain ⟨r, hr, hro⟩ := hit.childRef db
    rw [List.length_append, List.length_singleton] at hr
    exact hacc.add hx hit ht (fun h => ht (hit.value_iff.mp h)) (hit.below ht) hr hro hlen

/-- Finishing an accumulator of such items. -/
theorem Denotes.finish {pfx : TriePath} {acc : TrieChildren} {cs : Nibble → NibbleTrie}
    (hacc : Gathers keccak256 (fun x => Denotes keccak256 (pfx.nibbles ++ [x])) acc cs)
    (hfit : ∀ x, TrieFits (cs x)) :
    ∃ it, trieChildrenFinish keccak256 pfx acc = .ok it ∧
      Denotes keccak256 pfx.nibbles it (Trie.combine cs) := by
  obtain ⟨it, hit, hcase⟩ := hacc.finish pfx
  refine ⟨it, hit, ?_⟩
  rcases hcase with ⟨rfl, hall⟩ | ⟨x, hx, hothers, hrep⟩ | ⟨x, y, hxy, hx, hy, r, rfl, hro⟩
  · rw [Trie.combine_empty hall]
    exact .empty _ rfl
  · rw [Trie.combine_single hx hothers]
    exact hrep.up
  · rw [Trie.combine_branch hxy hx hy, ← Trie.prepend_nil (Trie.branch cs)]
    exact .branch _ [] cs r rfl hro (by simp [trieBranch]) hfit

theorem trieSubtreeRoot_denotes {it : TrieItem} {t : NibbleTrie}
    (hempty : keccak256 [0x80] = emptyTrieRoot) (h : Denotes keccak256 [] it t) :
    trieSubtreeRoot keccak256 db it = .ok (trieCommitment keccak256 t) := by
  unfold trieSubtreeRoot
  split
  · rename_i hval
    rw [h.value_iff.mp hval, trieCommitment, hempty]
  · obtain ⟨r, hr, href⟩ := h.childRef db
    rw [List.length_nil] at hr
    rw [hr, ok_bind, trieRefToRoot_spec hempty href]

/-! ## The entries a cursor hands out -/

/-- Popping the cursor hands out the entries in order, and then nothing of
the source is left. -/
def Yields (source : IndexedTrieSource) :
    List (List Nibble × List Byte) → IndexedTrieCursor → Prop
  | [], c => indexedTrieCursorEmpty c = true ∧ c.receiptRemaining = [] ∧
      c.keys.count - c.keys.position = 0
  | e :: J, c => indexedTrieCursorEmpty c = false ∧ c.keys.count - c.keys.position = J.length + 1 ∧
      ∃ key value c', key.nibbles = e.1 ∧ indexedTrieCursorKey c = .ok key ∧
        (value = .inputTrieLeaf e.2 ∨ value = .scratchTrieLeaf e.2) ∧
        indexedTriePop source c = .ok (trieLeaf key value, c') ∧ Yields source J c'

theorem Yields.measure {source : IndexedTrieSource} {J : List (List Nibble × List Byte)}
    {c : IndexedTrieCursor} (h : Yields source J c) :
    c.keys.count - c.keys.position = J.length := by
  cases J with
  | nil => exact h.2.2
  | cons e J => exact h.2.1

theorem Yields.nextUnder_nil {source : IndexedTrieSource} {c : IndexedTrieCursor}
    (h : Yields source [] c) (pfx : TriePath) : indexedTrieNextUnder c pfx = .ok false := by
  rw [indexedTrieNextUnder, h.1, if_pos rfl]

theorem Yields.nextUnder_cons {source : IndexedTrieSource} {e : List Nibble × List Byte}
    {J : List (List Nibble × List Byte)} {c : IndexedTrieCursor} (h : Yields source (e :: J) c)
    (pfx : TriePath) :
    indexedTrieNextUnder c pfx = .ok (decide (pfx.nibbles <+: e.1)) := by
  obtain ⟨hne, _, key, value, c', hkey, hk, _⟩ := h
  rw [indexedTrieNextUnder, hne, if_neg (by simp), hk, ok_bind, pathPrefixOf_eq, hkey]

/-- Entries in key order, fit to be leaves. -/
structure Ordered (J : List (List Nibble × List Byte)) : Prop where
  ascending : J.Pairwise fun e e' => Precedes e.1 e'.1
  fits : ∀ e ∈ J, ValueFits e.2
  length : ∀ e ∈ J, e.1.length ≤ 64

theorem Ordered.of_append {J J' : List (List Nibble × List Byte)} (h : Ordered (J ++ J')) :
    Ordered J ∧ Ordered J' := by
  refine ⟨⟨(List.pairwise_append.mp h.ascending).1, ?_, ?_⟩,
    ⟨(List.pairwise_append.mp h.ascending).2.1, ?_, ?_⟩⟩
  · exact fun e he => h.fits e (List.mem_append_left _ he)
  · exact fun e he => h.length e (List.mem_append_left _ he)
  · exact fun e he => h.fits e (List.mem_append_right _ he)
  · exact fun e he => h.length e (List.mem_append_right _ he)

/-- What is left of ordered entries below a prefix is prefix-free. -/
theorem Ordered.prefixFree {J : List (List Nibble × List Byte)} (h : Ordered J)
    {P : List Nibble} {n : Nat} (hP : ∀ e ∈ J, P <+: e.1) (hn : P.length + n = 64) :
    PrefixFree n (dropKeys P.length J) := by
  refine ⟨?_, ?_⟩
  · intro e he
    obtain ⟨f, hf, rfl⟩ := List.mem_map.mp he
    have := h.length f hf
    simp only [List.length_drop]
    omega
  · rw [dropKeys, List.pairwise_map]
    refine h.ascending.imp_of_mem fun {e e'} he he' hlt => ?_
    obtain ⟨r, hr⟩ := hP e he
    obtain ⟨r', hr'⟩ := hP e' he'
    have := hlt.incomparable
    rw [← hr, ← hr', List.prefix_append_right_inj, List.prefix_append_right_inj] at this
    simpa [← hr, ← hr'] using this

/-- From the first entry not below `P` on, none is. -/
theorem Ordered.not_under {e : List Nibble × List Byte} {J : List (List Nibble × List Byte)}
    (h : Ordered (e :: J)) {P : List Nibble} (hP : P ≤ e.1) (he : ¬ P <+: e.1) :
    ∀ f ∈ e :: J, ¬ P <+: f.1 := by
  intro f hf hpre
  rcases List.mem_cons.mp hf with rfl | hf
  · exact he hpre
  · exact he (prefix_of_le_of_lt hP ((List.pairwise_cons.mp h.ascending).1 f hf).lt hpre)

theorem Ordered.le_of_below {e : List Nibble × List Byte} {J : List (List Nibble × List Byte)}
    (h : Ordered (e :: J)) {P : List Nibble} (he : P <+: e.1) : ∀ f ∈ e :: J, P ≤ f.1 := by
  intro f hf
  have hle := le_of_isPrefix he
  rcases List.mem_cons.mp hf with rfl | hf
  · exact hle
  · exact le_of_lt (lt_of_le_of_lt hle ((List.pairwise_cons.mp h.ascending).1 f hf).lt)

/-! ## The walk -/

/-- The walk consumed the entries below `P` and handed up the trie of what
is left of their keys. -/
structure Consumed (keccak256 : List Byte → Hash) (source : IndexedTrieSource) (P : List Nibble)
    (levels : Nat) (J : List (List Nibble × List Byte)) (out : TrieItem × IndexedTrieCursor)
    (J₁ J₂ : List (List Nibble × List Byte)) : Prop where
  split : J = J₁ ++ J₂
  under : ∀ e ∈ J₁, P <+: e.1
  beyond : ∀ e ∈ J₂, ¬ P <+: e.1
  yields : Yields source J₂ out.2
  item : Denotes keccak256 P out.1 (build levels (dropKeys P.length J₁))

theorem restrict_dropKeys_of_under {P : List Nibble} {a : Nibble}
    {J : List (List Nibble × List Byte)} (h : ∀ e ∈ J, P ++ [a] <+: e.1) (x : Nibble) :
    restrict x (dropKeys P.length J) = if x = a then dropKeys (P ++ [a]).length J else [] := by
  have hdrop : ∀ e ∈ dropKeys P.length J, [a] <+: e.1 := by
    intro e he
    obtain ⟨f, hf, rfl⟩ := List.mem_map.mp he
    obtain ⟨r, hr⟩ := h f hf
    exact ⟨r, by simp [← hr]⟩
  split
  · rename_i hx
    subst hx
    rw [restrict_eq_dropKeys hdrop]
    simp [dropKeys]
  · rename_i hx
    refine restrict_eq_nil fun e he hxe => hx ?_
    obtain ⟨r, hr⟩ := hdrop e he
    rw [← hr, List.cons_append, List.cons_prefix_cons] at hxe
    exact hxe.1

/-- Consuming the entries under one new digit replaces one member of the
family of subtries. -/
theorem build_restrict_append {P : List Nibble} {a : Nibble}
    {D J : List (List Nibble × List Byte)} (levels : Nat) (ha : restrict a D = [])
    (h : ∀ e ∈ J, P ++ [a] <+: e.1) (x : Nibble) :
    build levels (restrict x (D ++ dropKeys P.length J)) =
      Function.update (fun x => build levels (restrict x D)) a
        (build levels (dropKeys (P ++ [a]).length J)) x := by
  rw [restrict_append, restrict_dropKeys_of_under h]
  rcases eq_or_ne x a with rfl | hx
  · rw [if_pos rfl, ha, List.nil_append, Function.update_self]
  · rw [if_neg hx, List.append_nil, Function.update_of_ne hx]

variable (keccak256 db) in
/-- The loop over the children: `D` is what earlier rounds consumed. -/
theorem indexedTrieChildren_spec {source : IndexedTrieSource} {levels : Nat}
    (subtree : IndexedTrieCursor → TriePath → Result (TrieItem × IndexedTrieCursor))
    {pfx : TriePath} (hlen : pfx.nibbles.length + (levels + 1) = 64)
    (hsub : ∀ (x : Nibble) (J : List (List Nibble × List Byte)) (c : IndexedTrieCursor)
      (q : TriePath), q.nibbles = pfx.nibbles ++ [x] → Yields source J c → Ordered J →
      (∀ e ∈ J, q.nibbles ≤ e.1) → ∃ out J₁ J₂, subtree c q = .ok out ∧
        Consumed keccak256 source q.nibbles levels J out J₁ J₂ ∧
        (∀ e J', J = e :: J' → q.nibbles <+: e.1 → J₁ ≠ []))
    (rounds : Nat) (acc : TrieChildren) (c : IndexedTrieCursor)
    (D R : List (List Nibble × List Byte)) (hround : R.length ≤ rounds)
    (hyield : Yields source R c) (hord : Ordered R) (hle : ∀ e ∈ R, pfx.nibbles ≤ e.1)
    (hkey : ∀ e ∈ R, e.1 ≠ pfx.nibbles)
    (hacc : Gathers keccak256 (fun x => Denotes keccak256 (pfx.nibbles ++ [x])) acc
      fun x => build levels (restrict x D))
    (hdis : ∀ x, restrict x D ≠ [] → ∀ e ∈ R, ¬ pfx.nibbles ++ [x] <+: e.1)
    (hfit : ∀ x, TrieFits (build levels (restrict x D))) :
    ∃ acc' c' R₁ R₂, indexedTrieChildren keccak256 db subtree pfx rounds acc c = .ok (acc', c') ∧
      R = R₁ ++ R₂ ∧ (∀ e ∈ R₁, pfx.nibbles <+: e.1) ∧ (∀ e ∈ R₂, ¬ pfx.nibbles <+: e.1) ∧
      Yields source R₂ c' ∧
      Gathers keccak256 (fun x => Denotes keccak256 (pfx.nibbles ++ [x])) acc'
        (fun x => build levels (restrict x (D ++ dropKeys pfx.nibbles.length R₁))) ∧
      (∀ x, TrieFits (build levels (restrict x (D ++ dropKeys pfx.nibbles.length R₁)))) := by
  induction rounds generalizing acc c D R with
  | zero =>
    obtain rfl := List.eq_nil_of_length_eq_zero (Nat.le_zero.mp hround)
    refine ⟨acc, c, [], [], ?_, rfl, by simp, by simp, hyield, by simpa [dropKeys] using hacc,
      by simpa [dropKeys] using hfit⟩
    rw [indexedTrieChildren, hyield.nextUnder_nil, ok_bind, if_neg (by simp)]
  | succ rounds ih =>
    cases R with
    | nil =>
      refine ⟨acc, c, [], [], ?_, rfl, by simp, by simp, hyield, by simpa [dropKeys] using hacc,
        by simpa [dropKeys] using hfit⟩
      rw [indexedTrieChildren, hyield.nextUnder_nil, ok_bind, if_neg (by simp)]
    | cons e R =>
      by_cases hpre : pfx.nibbles <+: e.1
      · obtain ⟨a, r, hr⟩ : ∃ a r, e.1 = pfx.nibbles ++ a :: r := by
          obtain ⟨r, hr⟩ := hpre
          cases r with
          | nil => exact absurd (by simpa using hr.symm) (hkey e List.mem_cons_self)
          | cons a r => exact ⟨a, r, hr.symm⟩
        have hq : (TriePath.ofNibbles (pfx.nibbles ++ [a])).nibbles = pfx.nibbles ++ [a] :=
          TriePath.nibbles_ofNibbles (by simp; omega)
        have hqe : pfx.nibbles ++ [a] <+: e.1 := ⟨r, by simp [hr]⟩
        obtain ⟨out, J₁, J₂, hout, hcons, hne⟩ := hsub a (e :: R) c _ hq hyield hord
          (by rw [hq]; exact hord.le_of_below hqe)
        have hne := hne e R rfl (by rw [hq]; exact hqe)
        obtain ⟨hsplit, hunder, hbeyond, hyield', hitem⟩ := hcons
        rw [hq] at hunder hbeyond hitem
        -- the child's digit is new
        have ha : restrict a D = [] := by
          by_contra h
          exact hdis a h e List.mem_cons_self hqe
        have hempty : build levels (restrict a D) = .empty := by rw [ha, build]
        obtain ⟨acc', hadd, hacc'⟩ := Denotes.add db hacc hempty hitem (by omega)
        have hfamily := build_restrict_append levels ha hunder
        have hR₂ : ∀ f ∈ J₂, f ∈ e :: R := fun f hf => by
          rw [hsplit]
          exact List.mem_append_right _ hf
        have hlen₂ : J₂.length ≤ rounds := by
          have h₁ := List.length_pos_iff.mpr hne
          have h₂ := congrArg List.length hsplit
          simp only [List.length_cons, List.length_append] at h₂ hround
          omega
        obtain ⟨acc'', c'', R₁, R₂, hrun, hsplit', hunder', hbeyond', hyield'', hacc'', hfit''⟩ :=
          ih acc' out.2 (D ++ dropKeys pfx.nibbles.length J₁) J₂ hlen₂ hyield'
            (hsplit ▸ hord).of_append.2 (fun f hf => hle f (hR₂ f hf))
            (fun f hf => hkey f (hR₂ f hf)) (by simpa only [hfamily] using hacc')
            (by
              intro x hx f hf hxf
              rw [restrict_append, restrict_dropKeys_of_under hunder] at hx
              rcases eq_or_ne x a with rfl | hxa
              · exact hbeyond f hf hxf
              · rw [if_neg hxa, List.append_nil] at hx
                exact hdis x hx f (hR₂ f hf) hxf)
            (by
              intro x
              rw [hfamily]
              rcases eq_or_ne x a with rfl | hx
              · rw [Function.update_self]
                exact hitem.fits
              · rw [Function.update_of_ne hx]
                exact hfit x)
        have hdrop : D ++ dropKeys pfx.nibbles.length J₁ ++ dropKeys pfx.nibbles.length R₁ =
            D ++ dropKeys pfx.nibbles.length (J₁ ++ R₁) := by
          simp [dropKeys]
        rw [hdrop] at hacc'' hfit''
        refine ⟨acc'', c'', J₁ ++ R₁, R₂, ?_, ?_, ?_, hbeyond', hyield'', hacc'', hfit''⟩
        · have hnext := hyield.nextUnder_cons pfx
          obtain ⟨_, _, key, value, c', hkey', hk, _⟩ := hyield
          have hnib : pathNibble key pfx.nibbles.length = a := by
            rw [pathNibble_eq, hkey', hr]
            simp
          have hsingle : (TriePath.ofNibbles [a]).nibbles = [a] :=
            TriePath.nibbles_ofNibbles (by simp)
          rw [indexedTrieChildren, hnext, ok_bind, if_pos (by simpa using hpre)]
          simp only [hk, ok_bind, pathLen_eq, hnib, pathSingle_eq, pathConcat_eq, hsingle,
            List.length_singleton]
          rw [if_pos (by omega), ok_bind, hout, ok_bind, hadd, ok_bind]
          exact hrun
        · rw [hsplit, hsplit', List.append_assoc]
        · intro f hf
          rcases List.mem_append.mp hf with hf | hf
          · exact (List.prefix_append _ _).trans (hunder f hf)
          · exact hunder' f hf
      · -- the next key has left the prefix
        refine ⟨acc, c, [], e :: R, ?_, rfl, by simp,
          hord.not_under (hle e List.mem_cons_self) hpre, hyield,
          by simpa [dropKeys] using hacc, by simpa [dropKeys] using hfit⟩
        rw [indexedTrieChildren, hyield.nextUnder_cons, ok_bind, if_neg (by simpa using hpre)]

/-- The walk where it does not descend: nothing, or a leaf. -/
theorem indexedTrieVisit_stop {source : IndexedTrieSource} (levels : Nat)
    (descend : Result (TrieItem × IndexedTrieCursor))
    {J : List (List Nibble × List Byte)} {c : IndexedTrieCursor} {pfx : TriePath}
    (hyield : Yields source J c) (hord : Ordered J)
    (hle : ∀ e ∈ J, pfx.nibbles ≤ e.1)
    (hstop : ∀ e J', J = e :: J' → pfx.nibbles <+: e.1 → e.1 = pfx.nibbles) :
    ∃ out J₁ J₂, indexedTrieVisit source descend c pfx = .ok out ∧
      Consumed keccak256 source pfx.nibbles levels J out J₁ J₂ ∧
      (∀ e J', J = e :: J' → pfx.nibbles <+: e.1 → J₁ ≠ []) := by
  have hnone : Denotes keccak256 pfx.nibbles trieEmptySubtree
      (build levels (dropKeys pfx.nibbles.length ([] : List (List Nibble × List Byte)))) := by
    rw [dropKeys, List.map_nil, build]
    exact .empty _ rfl
  cases J with
  | nil =>
    refine ⟨(trieEmptySubtree, c), [], [], ?_, ⟨rfl, by simp, by simp, hyield, hnone⟩, by simp⟩
    rw [indexedTrieVisit, hyield.nextUnder_nil, ok_bind, if_pos (by simp)]
  | cons e J =>
    by_cases hpre : pfx.nibbles <+: e.1
    · have hep := hstop e J rfl hpre
      have hnext := hyield.nextUnder_cons pfx
      obtain ⟨_, _, key, value, c', hkey, hk, hvalue, hpop, hrest⟩ := hyield
      refine ⟨(trieLeaf key value, c'), [e], J, ?_, ⟨rfl, ?_, ?_, hrest, ?_⟩, by simp⟩
      · rw [indexedTrieVisit, hnext, ok_bind, if_neg (by simpa using hpre), hk, ok_bind,
          pathEq_eq, hkey, if_pos (by simpa using hep)]
        exact hpop
      · intro f hf
        rw [List.mem_singleton.mp hf]
        exact hpre
      · intro f hf
        rw [← hep]
        exact ((List.pairwise_cons.mp hord.ascending).1 f hf).incomparable.1
      · rw [dropKeys, List.map_singleton, build]
        refine .leaf _ _ value e.2 rfl hvalue ?_ (hord.fits e List.mem_cons_self)
        show key.nibbles = _
        rw [hkey, hep]
        simp
    · refine ⟨(trieEmptySubtree, c), [], e :: J, ?_, ⟨rfl, by simp, ?_, hyield, hnone⟩, ?_⟩
      · rw [indexedTrieVisit, hyield.nextUnder_cons, ok_bind, if_pos (by simpa using hpre)]
      · exact hord.not_under (hle e List.mem_cons_self) hpre
      · rintro f J' hJ hf
        cases hJ
        exact absurd hf hpre

variable (keccak256 db) in
/-- The walk consumes the entries below its prefix and hands up their trie. -/
theorem indexedTrieSubtree_spec {source : IndexedTrieSource} (levels : Nat)
    {J : List (List Nibble × List Byte)} {c : IndexedTrieCursor} {pfx : TriePath}
    (hlen : pfx.nibbles.length + levels = 64) (hyield : Yields source J c) (hord : Ordered J)
    (hle : ∀ e ∈ J, pfx.nibbles ≤ e.1) :
    ∃ out J₁ J₂, indexedTrieSubtree keccak256 db source levels c pfx = .ok out ∧
      Consumed keccak256 source pfx.nibbles levels J out J₁ J₂ ∧
      (∀ e J', J = e :: J' → pfx.nibbles <+: e.1 → J₁ ≠ []) := by
  induction levels generalizing J c pfx with
  | zero =>
    refine indexedTrieVisit_stop 0 _ hyield hord hle fun e J' hJ hpre => ?_
    refine (hpre.eq_of_length_le ?_).symm
    have := hord.length e (by rw [hJ]; exact List.mem_cons_self)
    omega
  | succ levels ih =>
    by_cases hstop : ∀ e J', J = e :: J' → pfx.nibbles <+: e.1 → e.1 = pfx.nibbles
    · exact indexedTrieVisit_stop (levels + 1) _ hyield hord hle hstop
    · push Not at hstop
      obtain ⟨e, J', rfl, hpre, hne⟩ := hstop
      have hkeys : ∀ f ∈ e :: J', f.1 ≠ pfx.nibbles := by
        intro f hf hfp
        rcases List.mem_cons.mp hf with rfl | hf
        · exact hne hfp
        · have := ((List.pairwise_cons.mp hord.ascending).1 f hf).incomparable.2
          exact this (hfp ▸ hpre)
      obtain ⟨acc, c', R₁, R₂, hrun, hsplit, hunder, hbeyond, hyield', hacc, hfit⟩ :=
        indexedTrieChildren_spec keccak256 db (indexedTrieSubtree keccak256 db source levels) hlen
          (fun x J c q hq hy ho hl => ih (by rw [hq]; simp; omega) hy ho hl)
          (e :: J').length trieChildrenEmpty c [] (e :: J') (Nat.le_refl _) hyield hord hle hkeys
          (by
            have : (fun x => build levels (restrict x ([] : List (List Nibble × List Byte)))) =
                fun _ => .empty := by
              funext x
              rw [restrict, List.filterMap_nil, build]
            rw [this]
            exact gathers_empty keccak256 _)
          (by simp [restrict])
          (by
            intro x
            rw [restrict, List.filterMap_nil, build]
            exact .empty)
      rw [List.nil_append] at hacc hfit
      obtain ⟨it, hit, hden⟩ := Denotes.finish hacc hfit
      have hord₁ := (hsplit ▸ hord).of_append.1
      have hbuild : build (levels + 1) (dropKeys pfx.nibbles.length R₁) =
          Trie.combine fun x => build levels (restrict x (dropKeys pfx.nibbles.length R₁)) := by
        refine build_combine (hord₁.prefixFree hunder hlen) fun f hf => ?_
        obtain ⟨g, hg, rfl⟩ := List.mem_map.mp hf
        obtain ⟨r, hr⟩ := hunder g hg
        have := hkeys g (by rw [hsplit]; exact List.mem_append_left _ hg)
        rw [← hr, List.drop_left]
        rintro rfl
        exact this (by rw [← hr, List.append_nil])
      refine ⟨(it, c'), R₁, R₂, ?_, ⟨hsplit, hunder, hbeyond, hyield', ?_⟩, ?_⟩
      · have hmeasure := hyield.measure
        have hnext := hyield.nextUnder_cons pfx
        obtain ⟨_, _, key, value, c'', hkey, hk, _⟩ := hyield
        rw [indexedTrieSubtree, indexedTrieVisit, hnext, ok_bind, if_neg (by simpa using hpre), hk,
          ok_bind, pathEq_eq, hkey, if_neg (by simpa using hne), pathLen_eq, if_neg (by omega),
          indexedTrieDescend]
        simp only [hmeasure, hrun, ok_bind, hit]
      · rw [hbuild]
        exact hden
      · rintro f J'' hJ hf rfl
        rw [List.nil_append] at hsplit
        exact hbeyond e (by rw [← hsplit]; exact List.mem_cons_self) hpre

/-! ## The values of a source -/

/-- The values of a source: the items of an SSZ list, the encoded items of
an SSZ list of withdrawals, the retained receipt records. -/
def IndexedTrieSource.Holds (source : IndexedTrieSource) (vs : List (List Byte)) : Prop :=
  match source with
  | .indexedTransactions txs =>
    txs.count = vs.length ∧ ∀ i v, vs[i]? = some v → sszListAt txs i = .ok v
  | .indexedWithdrawals wds =>
    wds.count = vs.length ∧ ∀ i v, vs[i]? = some v →
      ∃ withdrawal, sszFixedListAt wds i wdSize = .ok withdrawal ∧
        withdrawalRlp withdrawal = .ok v
  | .indexedReceipts receipts =>
    receipts.count = vs.length ∧ receipts.bytes = vs.flatMap receiptRecord

theorem IndexedTrieSource.Holds.count_eq {source : IndexedTrieSource} {vs : List (List Byte)}
    (h : source.Holds vs) : source.count = vs.length := by
  cases source with
  | indexedTransactions txs => exact h.1
  | indexedWithdrawals wds => exact h.1
  | indexedReceipts receipts => exact h.1

/-- Reading back the length in front of a record. -/
theorem decodeScratchUint_record {n : Nat} (hn : n < 2 ^ 64) (rest : List Byte) :
    decodeScratchUint (receiptRecordWriteLength n ++ rest) 0 = n := by
  have hbyte : ∀ k, k < 8 → (sliceByte (receiptRecordWriteLength n ++ rest) k).toNat =
      n / 2 ^ (8 * k) % 256 := by
    intro k hk
    rw [sliceByte, List.getElem?_append_left (by simpa [receiptRecordWriteLength] using hk)]
    simp [receiptRecordWriteLength, hk, Nat.shiftRight_eq_div_pow]
  simp only [decodeScratchUint, decodeSszUint, Nat.zero_add]
  rw [hbyte 0 (by omega), hbyte 1 (by omega), hbyte 2 (by omega), hbyte 3 (by omega),
    hbyte 4 (by omega), hbyte 5 (by omega), hbyte 6 (by omega), hbyte 7 (by omega)]
  omega

theorem receiptRecordPop_record {v : List Byte} (hv : v.length < 2 ^ 64) (rest : List Byte) :
    receiptRecordPop (receiptRecord v ++ rest) = .ok (v, rest) := by
  have hlen : (receiptRecordWriteLength v.length).length = 8 := by
    simp [receiptRecordWriteLength]
  have hsuffix : sliceSuffix (receiptRecord v ++ rest) 8 = v ++ rest := by
    rw [sliceSuffix, receiptRecord, List.append_assoc]
    exact List.drop_left' hlen
  have hvalue : decodeScratchUint (receiptRecord v ++ rest) 0 = v.length := by
    rw [receiptRecord, List.append_assoc]
    exact decodeScratchUint_record hv _
  rw [receiptRecordPop, if_pos (by simp [receiptRecord, hlen])]
  simp only [hsuffix, hvalue]
  rw [if_pos (by simp), subSlice, sliceSuffix, List.drop_zero, List.take_left, List.drop_left]

/-- How many leading records have been consumed at position `p`: the first
at once, the others as their keys come up. -/
def recordsConsumed (count p : Nat) : Nat := if p ≤ min (count - 1) 127 then p + 1 else p

/-- The cursor of a source of the values `vs` at position `p`. -/
def stateAt (source : IndexedTrieSource) (vs : List (List Byte)) (p : Nat) : IndexedTrieCursor where
  keys := cursorAt vs.length p
  receiptZero :=
    match source with
    | .indexedReceipts _ => vs.headD []
    | _ => []
  receiptRemaining :=
    match source with
    | .indexedReceipts _ => (vs.drop (recordsConsumed vs.length p)).flatMap receiptRecord
    | _ => []

theorem indexedTrieBegin_eq {source : IndexedTrieSource} {vs : List (List Byte)}
    (h : source.Holds vs) (hn : vs.length ≤ 2 ^ 64) (hv : ∀ v ∈ vs, v.length < 2 ^ 64) :
    indexedTrieBegin source = .ok (stateAt source vs 0) := by
  have hparts : indexedReceiptParts source =
      .ok ((stateAt source vs 0).receiptZero, (stateAt source vs 0).receiptRemaining) := by
    cases source with
    | indexedTransactions txs => rfl
    | indexedWithdrawals wds => rfl
    | indexedReceipts receipts =>
      simp only [indexedReceiptParts, stateAt, h.1, h.2, recordsConsumed, Nat.zero_le, if_true]
      cases vs with
      | nil => rfl
      | cons v vs =>
        rw [if_neg (by simp), List.flatMap_cons,
          receiptRecordPop_record (hv v List.mem_cons_self)]
        rfl
  rw [indexedTrieBegin, hparts, ok_bind, h.count_eq, rlpIndexCursor_eq hn, ok_bind]
  rfl

/-- The value at the current position. -/
theorem indexedTrieValue_eq {source : IndexedTrieSource} {vs : List (List Byte)} {p : Nat}
    {v : List Byte} (h : source.Holds vs) (hv : ∀ v ∈ vs, v.length < 2 ^ 64) (hp : p < vs.length)
    (hget : vs[indexAt vs.length p]? = some v) :
    ∃ value, (value = .inputTrieLeaf v ∨ value = .scratchTrieLeaf v) ∧
      indexedTrieValue source (stateAt source vs p) (indexAt vs.length p) =
        .ok (value, (stateAt source vs (p + 1)).receiptRemaining) := by
  cases source with
  | indexedTransactions txs =>
    refine ⟨_, Or.inl rfl, ?_⟩
    simp only [indexedTrieValue, h.2 _ _ hget, ok_bind, stateAt]
  | indexedWithdrawals wds =>
    obtain ⟨withdrawal, hw, hrlp⟩ := h.2 _ _ hget
    refine ⟨_, Or.inr rfl, ?_⟩
    simp only [indexedTrieValue]
    rw [hw, ok_bind, hrlp, ok_bind]
    rfl
  | indexedReceipts receipts =>
    refine ⟨_, Or.inr rfl, ?_⟩
    simp only [indexedTrieValue, stateAt]
    rcases Nat.lt_trichotomy p (min (vs.length - 1) 127) with hlt | heq | hgt
    · -- a single-byte key: the next record is index `p + 1`
      have hi : indexAt vs.length p = p + 1 := by rw [indexAt, if_pos hlt]
      rw [hi] at hget ⊢
      obtain ⟨hlen, hval⟩ := List.getElem?_eq_some_iff.mp hget
      rw [if_neg (by omega), recordsConsumed, if_pos (by omega), recordsConsumed,
        if_pos (by omega), List.drop_eq_getElem_cons hlen, List.flatMap_cons, hval,
        receiptRecordPop_record (hv v (hval ▸ List.getElem_mem hlen)), ok_bind]
    · -- index zero: its record was set aside at the start
      have hi : indexAt vs.length p = 0 := by rw [indexAt, if_neg (by omega), if_pos heq]
      rw [hi] at hget ⊢
      have hhead : vs.headD [] = v := by
        cases vs with
        | nil => simp at hget
        | cons w vs => simpa using hget
      rw [if_pos rfl, recordsConsumed, if_pos (by omega), recordsConsumed, if_neg (by omega), hhead]
    · -- from 128 on keys come in numeric order
      have hi : indexAt vs.length p = p := by
        rw [indexAt, if_neg (by omega), if_neg (by omega)]
      rw [hi] at hget ⊢
      obtain ⟨hlen, hval⟩ := List.getElem?_eq_some_iff.mp hget
      rw [if_neg (by omega), recordsConsumed, if_neg (by omega), recordsConsumed,
        if_neg (by omega), List.drop_eq_getElem_cons hlen, List.flatMap_cons, hval,
        receiptRecordPop_record (hv v (hval ▸ List.getElem_mem hlen)), ok_bind]

/-- The entry of an index. -/
def indexedEntry (vs : List (List Byte)) (i : Nat) : List Nibble × List Byte :=
  (indexKey i, (vs[i]?).getD [])

/-- The map `rlp(i) ↦ v_i`. -/
def indexedEntries (vs : List (List Byte)) : List (List Nibble × List Byte) :=
  (List.range vs.length).map (indexedEntry vs)

/-- A source hands out the entries of its values in key order. -/
theorem yields_stateAt {source : IndexedTrieSource} {vs : List (List Byte)} (h : source.Holds vs)
    (hn : vs.length ≤ 2 ^ 64) (hv : ∀ v ∈ vs, v.length < 2 ^ 64) :
    Yields source ((visited vs.length).map (indexedEntry vs)) (stateAt source vs 0) := by
  have hfrom : ∀ k ≤ vs.length, Yields source
      (((visited vs.length).drop (vs.length - k)).map (indexedEntry vs))
      (stateAt source vs (vs.length - k)) := by
    intro k hk
    induction k with
    | zero =>
      rw [List.drop_eq_nil_of_le (by simp [visited])]
      refine ⟨by simp [indexedTrieCursorEmpty, stateAt, rlpIndexCursorEmpty_cursorAt], ?_, ?_⟩
      · cases source with
        | indexedTransactions txs => rfl
        | indexedWithdrawals wds => rfl
        | indexedReceipts receipts =>
          have : vs.length ≤ recordsConsumed vs.length (vs.length - 0) := by
            rw [recordsConsumed]
            split <;> omega
          simp only [stateAt, List.drop_eq_nil_of_le this, List.flatMap_nil]
      · simp [stateAt, cursorAt]
    | succ k ih =>
      have hlt : vs.length - (k + 1) < vs.length := by omega
      have hnext : vs.length - (k + 1) + 1 = vs.length - k := by omega
      have hi := indexAt_lt hlt
      have hget := List.getElem?_eq_getElem hi
      obtain ⟨value, hvalue, hval⟩ := indexedTrieValue_eq h hv hlt hget
      have hpop := rlpIndexCursorPop_cursorAt hn hlt
      have hvisited : vs.length - (k + 1) < (visited vs.length).length := by
        simpa [visited] using hlt
      have hhead : (visited vs.length)[vs.length - (k + 1)] =
          indexAt vs.length (vs.length - (k + 1)) := by
        simp [visited]
      rw [List.drop_eq_getElem_cons hvisited, List.map_cons, hhead, hnext]
      rw [hnext] at hpop hval
      refine ⟨?_, ?_, (indexItem (indexAt vs.length (vs.length - (k + 1)))).key, value,
        stateAt source vs (vs.length - k), ?_, ?_, ?_, ?_, ih (by omega)⟩
      · simp only [indexedTrieCursorEmpty, stateAt, rlpIndexCursorEmpty_cursorAt,
          decide_eq_false_iff_not]
        omega
      · simp only [stateAt, cursorAt, List.length_map, List.length_drop, visited,
          List.length_range]
        omega
      · exact nibbles_indexItem (by omega)
      · simp only [indexedTrieCursorKey, stateAt, rlpIndexCursorPeek_cursorAt hlt, ok_bind]
      · rw [indexedEntry, hget]
        exact hvalue
      · have hkeys : (stateAt source vs (vs.length - (k + 1))).keys =
            cursorAt vs.length (vs.length - (k + 1)) := rfl
        rw [indexedTriePop, hkeys, hpop, ok_bind]
        simp only [indexItem]
        rw [hval, ok_bind]
        rfl
  simpa using hfrom vs.length (Nat.le_refl _)

/-! ## Every list of values has sources -/

/-- A `uint32` in little-endian bytes. -/
def sszWriteU32 (value : Nat) : List Byte :=
  (List.range 4).map fun k => BitVec.ofNat 8 (value >>> (8 * k))

theorem sszU32At_eq {input : List Byte} {offset v : Nat} (hv : v < 2 ^ 32)
    (hbyte : ∀ k < 4, sliceByte input (offset + k) = BitVec.ofNat 8 (v >>> (8 * k))) :
    sszU32At input offset = v := by
  have h0 := hbyte 0 (by omega)
  rw [Nat.add_zero] at h0
  have hword : ((BitVec.ofNat 8 (v >>> 0)).zeroExtend 32 |||
      ((BitVec.ofNat 8 (v >>> 8)).zeroExtend 32 <<< 8 |||
      ((BitVec.ofNat 8 (v >>> 16)).zeroExtend 32 <<< 16 |||
        (BitVec.ofNat 8 (v >>> 24)).zeroExtend 32 <<< 24))) = BitVec.ofNat 32 v := by
    apply BitVec.eq_of_getLsbD_eq
    intro i hi
    simp only [BitVec.truncate_eq_setWidth, BitVec.getLsbD_or, BitVec.getLsbD_setWidth,
      BitVec.getLsbD_shiftLeft, BitVec.getLsbD_ofNat, Nat.testBit_shiftRight]
    rcases Nat.lt_or_ge i 8 with h | h
    · simp [h, hi, show i < 16 by omega, show i < 24 by omega]
    rcases Nat.lt_or_ge i 16 with h' | h'
    · simp [hi, h', show ¬ i < 8 by omega, show i < 24 by omega, show i - 8 < 8 by omega,
        show i - 8 < 32 by omega, show 8 + (i - 8) = i by omega]
    rcases Nat.lt_or_ge i 24 with h'' | h''
    · simp [hi, h'', show ¬ i < 8 by omega, show ¬ i < 16 by omega, show ¬ i - 8 < 8 by omega,
        show i - 16 < 8 by omega, show i - 16 < 32 by omega, show 16 + (i - 16) = i by omega]
    · simp [hi, show ¬ i < 8 by omega, show ¬ i < 16 by omega, show ¬ i < 24 by omega,
        show ¬ i - 8 < 8 by omega, show ¬ i - 16 < 8 by omega, show i - 24 < 8 by omega,
        show i - 24 < 32 by omega, show 24 + (i - 24) = i by omega]
  simp only [sszU32At, h0, hbyte 1 (by omega), hbyte 2 (by omega), hbyte 3 (by omega)]
  exact (congrArg BitVec.toNat hword).trans (by rw [BitVec.toNat_ofNat]; omega)
/-- Where the `i`-th item of a serialised list starts. -/
def sszOffset (vs : List (List Byte)) (i : Nat) : Nat :=
  4 * vs.length + ((vs.map List.length).take i).sum

/-- The SSZ form of a list of byte strings: the offsets, then the items. -/
def sszVariableList (maxItemLength : Nat) (vs : List (List Byte)) : BoundedSszListRef where
  bytes := ((List.range vs.length).flatMap fun i => sszWriteU32 (sszOffset vs i)) ++ vs.flatten
  count := vs.length
  maxItemLength := maxItemLength

theorem length_sszTable (f : Nat → Nat) (l : List Nat) :
    (l.flatMap fun i => sszWriteU32 (f i)).length = 4 * l.length := by
  induction l with
  | nil => rfl
  | cons a l ih =>
    rw [List.flatMap_cons, List.length_append, ih, List.length_cons]
    simp only [sszWriteU32, List.length_map, List.length_range]
    omega

theorem length_sszVariableList (maxItemLength : Nat) (vs : List (List Byte)) :
    (sszVariableList maxItemLength vs).bytes.length = sszOffset vs vs.length := by
  rw [sszVariableList, List.length_append, length_sszTable, List.length_range, List.length_flatten,
    sszOffset, List.take_of_length_le (by simp)]

theorem sszOffset_le (vs : List (List Byte)) (i : Nat) :
    sszOffset vs i ≤ sszOffset vs vs.length := by
  have h := List.sum_take_add_sum_drop (vs.map List.length) i
  rw [sszOffset, sszOffset, List.take_of_length_le (i := vs.length) (by simp)]
  omega

theorem sszOffset_succ {vs : List (List Byte)} {i : Nat} {v : List Byte} (h : vs[i]? = some v) :
    sszOffset vs (i + 1) = sszOffset vs i + v.length := by
  rw [sszOffset, sszOffset, List.take_add_one, List.getElem?_map, h]
  simp [Nat.add_assoc]

/-- Reading an entry of the table. -/
theorem sszU32InSlice_sszVariableList {maxItemLength : Nat} {vs : List (List Byte)} {i : Nat}
    (hi : i < vs.length) (hfit : sszOffset vs vs.length < 2 ^ 32) :
    sszU32InSlice (sszVariableList maxItemLength vs).bytes (sszOffsetTablePosition i) =
      .ok (sszOffset vs i) := by
  have hle : 4 * vs.length ≤ sszOffset vs vs.length := Nat.le_add_right _ _
  have hv := sszOffset_le vs i
  rw [sszU32InSlice, sszOffsetTablePosition, length_sszVariableList, if_pos (by omega)]
  refine congrArg Except.ok (sszU32At_eq (by omega) fun k hk => ?_)
  have hsplit : List.range vs.length =
      (List.range vs.length).take i ++ i :: (List.range vs.length).drop (i + 1) := by
    conv_lhs => rw [← List.take_append_drop i (List.range vs.length)]
    rw [List.drop_eq_getElem_cons (by simpa using hi), List.getElem_range]
  have hlen : (((List.range vs.length).take i).flatMap fun j =>
      sszWriteU32 (sszOffset vs j)).length = i * 4 := by
    rw [length_sszTable, List.length_take, List.length_range]
    omega
  rw [sliceByte, sszVariableList, hsplit, List.flatMap_append, List.flatMap_cons,
    List.append_assoc, List.getElem?_append_right (by omega), hlen,
    show i * 4 + k - i * 4 = k by omega, List.append_assoc,
    List.getElem?_append_left (by simpa [sszWriteU32] using hk)]
  simp [sszWriteU32, hk]

theorem sszListAt_sszVariableList {maxItemLength : Nat} {vs : List (List Byte)} {i : Nat}
    {v : List Byte} (hv : vs[i]? = some v) (hfit : sszOffset vs vs.length < 2 ^ 32)
    (hmax : v.length ≤ maxItemLength) :
    sszListAt (sszVariableList maxItemLength vs) i = .ok v := by
  obtain ⟨hi, hval⟩ := List.getElem?_eq_some_iff.mp hv
  have hsucc := sszOffset_succ hv
  have hle := sszOffset_le vs (i + 1)
  have hstop : sszListStop (sszVariableList maxItemLength vs) i = .ok (sszOffset vs (i + 1)) := by
    rw [sszListStop]
    split
    · rename_i h
      exact sszU32InSlice_sszVariableList h hfit
    · rename_i h
      have : i + 1 = vs.length := Nat.le_antisymm hi (Nat.not_lt.mp h)
      rw [length_sszVariableList, this]
  have hitem : subSlice (sszVariableList maxItemLength vs).bytes (sszOffset vs i) v.length = v := by
    have htable := length_sszTable (sszOffset vs) (List.range vs.length)
    rw [List.length_range] at htable
    rw [subSlice, sszVariableList, sszOffset, List.drop_append, htable, Nat.add_sub_cancel_left,
      List.drop_eq_nil_of_le (by rw [htable]; exact Nat.le_add_right _ _), List.nil_append,
      List.drop_sum_flatten, List.drop_eq_getElem_cons hi, List.flatten_cons, hval,
      List.take_left]
  rw [sszListAt, if_pos (show i < (sszVariableList maxItemLength vs).count from hi),
    sszU32InSlice_sszVariableList hi hfit, ok_bind, hstop, ok_bind, length_sszVariableList,
    if_pos ⟨by omega, hle⟩]
  have hlen : sszOffset vs (i + 1) - sszOffset vs i = v.length := by omega
  simp only [hlen]
  rw [if_neg, hitem]
  exact fun h => absurd h.2 (Nat.not_lt.mpr hmax)

/-- Any byte strings within the schema bounds, as a transaction list. -/
theorem holds_transactions {maxItemLength : Nat} {vs : List (List Byte)}
    (hfit : sszOffset vs vs.length < 2 ^ 32) (hmax : ∀ v ∈ vs, v.length ≤ maxItemLength) :
    (IndexedTrieSource.indexedTransactions (sszVariableList maxItemLength vs)).Holds vs :=
  ⟨rfl, fun _ _ hv => sszListAt_sszVariableList hv hfit (hmax _ (List.mem_of_getElem? hv))⟩

/-- The four fields of a withdrawal as one RLP list. -/
def withdrawalValue (withdrawal : List Byte) : List Byte :=
  rlpList (rlpBytes (bigEndian (decodeSszUint withdrawal wdIndex)) ++
    (rlpBytes (bigEndian (decodeSszUint withdrawal wdValidatorIndex)) ++
      (rlpBytes (subSlice withdrawal wdAddress 20) ++
        rlpBytes (bigEndian (decodeSszUint withdrawal wdAmount)))))

theorem decodeSszUint_lt (input : List Byte) (offset : Nat) :
    decodeSszUint input offset < 2 ^ 64 := by
  have hbyte := fun k => (sliceByte input k).isLt
  have h₀ := hbyte offset
  have h₁ := hbyte (offset + 1)
  have h₂ := hbyte (offset + 2)
  have h₃ := hbyte (offset + 3)
  have h₄ := hbyte (offset + 4)
  have h₅ := hbyte (offset + 5)
  have h₆ := hbyte (offset + 6)
  have h₇ := hbyte (offset + 7)
  rw [decodeSszUint]
  omega

theorem rlpUintSize_le {w k : Nat} (hw : w < 256 ^ k) : rlpUintSize w ≤ k + 1 := by
  have hlen := byteLength_le_iff.mpr hw
  have hsize : ∀ (c : Prop) [Decidable c], (if c then 1 else 1 + byteLength w) ≤ k + 1 := by
    intro c _
    split <;> omega
  exact hsize _

/-- The source's encoder always succeeds on a withdrawal. -/
theorem withdrawalRlp_eq {withdrawal : List Byte} (hlen : withdrawal.length = wdSize) :
    withdrawalRlp withdrawal = .ok (withdrawalValue withdrawal) := by
  have hindex := decodeSszUint_lt withdrawal wdIndex
  have hvalidator := decodeSszUint_lt withdrawal wdValidatorIndex
  have hamount := decodeSszUint_lt withdrawal wdAmount
  have haddress : (subSlice withdrawal wdAddress 20).length = 20 := by
    simp [subSlice, hlen, wdSize, wdAddress]
  rw [withdrawalRlp, withdrawalValue]
  generalize decodeSszUint withdrawal wdIndex = index at hindex ⊢
  generalize decodeSszUint withdrawal wdValidatorIndex = validator at hvalidator ⊢
  generalize decodeSszUint withdrawal wdAmount = amount at hamount ⊢
  generalize subSlice withdrawal wdAddress 20 = address at haddress ⊢
  have h₁ := rlpUintSize_le (k := 8) hindex
  have h₂ := rlpUintSize_le (k := 8) hvalidator
  have h₃ := rlpUintSize_le (k := 8) hamount
  have h₄ : rlpInputSliceSize address = 21 := by
    rw [rlpInputSliceSize, rlpStringSize, haddress]
    rfl
  have hsize : rlpUintSize index + rlpUintSize validator + rlpInputSliceSize address +
      rlpUintSize amount = (rlpBytes (bigEndian index) ++ (rlpBytes (bigEndian validator) ++
        (rlpBytes address ++ rlpBytes (bigEndian amount)))).length := by
    simp only [List.length_append]
    rw [length_rlpBytes_bigEndian (by omega), length_rlpBytes_bigEndian (by omega),
      length_rlpBytes_bigEndian (by omega), length_rlpBytes address, rlpInputSliceSize]
    omega
  have hle : rlpUintSize index + rlpUintSize validator + rlpInputSliceSize address +
      rlpUintSize amount ≤ 48 := by omega
  simp only [rlpWriteUint_eq, rlpWriteSlice_eq]
  rw [if_neg (by omega), Nat.mod_eq_of_lt (by omega), hsize, rlpWriteListPrefix_append,
    rlpEncoderFinish_ok (length_rlpList _)]

/-- Any list of withdrawals holds the encodings of its items. -/
theorem holds_withdrawals {wds : BoundedSszListRef}
    (hlen : wds.count * wdSize ≤ wds.bytes.length) :
    (IndexedTrieSource.indexedWithdrawals wds).Holds
      ((List.range wds.count).map fun i =>
        withdrawalValue (subSlice wds.bytes (i * wdSize) wdSize)) := by
  refine ⟨by simp, fun i v hv => ?_⟩
  obtain ⟨hi, hval⟩ := List.getElem?_eq_some_iff.mp hv
  simp only [List.length_map, List.length_range] at hi
  simp only [List.getElem_map, List.getElem_range] at hval
  have hend : i * wdSize + wdSize ≤ wds.bytes.length := by
    have := Nat.mul_le_mul_right wdSize hi
    rw [Nat.succ_mul] at this
    omega
  refine ⟨subSlice wds.bytes (i * wdSize) wdSize, ?_, ?_⟩
  · simp only [sszFixedListAt]
    rw [if_pos ⟨hi, hend⟩]
  · rw [withdrawalRlp_eq, hval]
    simp only [subSlice, List.length_take, List.length_drop]
    omega

/-- Any byte strings, as retained receipt records. -/
theorem holds_receipts (vs : List (List Byte)) :
    (IndexedTrieSource.indexedReceipts ⟨vs.flatMap receiptRecord, vs.length⟩).Holds vs :=
  ⟨rfl, rfl⟩

/-! ## The roots -/

theorem ordered_visited {vs : List (List Byte)} (hn : vs.length ≤ 2 ^ 64)
    (hv : ∀ v ∈ vs, ValueFits v) : Ordered ((visited vs.length).map (indexedEntry vs)) where
  ascending := by
    rw [List.pairwise_map]
    exact visited_ascending hn
  fits := by
    intro e he
    obtain ⟨i, hi, rfl⟩ := List.mem_map.mp he
    have hlt := List.mem_range.mp ((visited_perm hn).mem_iff.mp hi)
    rw [indexedEntry, List.getElem?_eq_getElem hlt]
    exact hv _ (List.getElem_mem hlt)
  length := by
    intro e he
    obtain ⟨i, hi, rfl⟩ := List.mem_map.mp he
    have hlt := List.mem_range.mp ((visited_perm hn).mem_iff.mp hi)
    have := length_indexKey_le (i := i) (by omega)
    exact Nat.le_trans this (by omega)

/-- The root of a source is the canonical root of `rlp(i) ↦ v_i`. -/
theorem indexedTrieRoot_eq (hempty : keccak256 [0x80] = emptyTrieRoot)
    {source : IndexedTrieSource} {vs : List (List Byte)} (h : source.Holds vs)
    (hn : vs.length ≤ transactionCountBound) (hv : ∀ v ∈ vs, ValueFits v) :
    indexedTrieRoot keccak256 db source = .ok (canonicalRoot keccak256 (indexedEntries vs)) := by
  have hbound : vs.length ≤ 2 ^ 64 := Nat.le_trans hn (by decide)
  have hsmall : ∀ v ∈ vs, v.length < 2 ^ 64 := by
    intro v hmem
    have := hv v hmem
    rw [ValueFits, scratchRegionBound_eq] at this
    omega
  have hord := ordered_visited hbound hv
  obtain ⟨out, J₁, J₂, hrun, ⟨hsplit, _, hbeyond, hyield, hitem⟩, _⟩ :=
    indexedTrieSubtree_spec keccak256 db 64 (show pathEmpty.nibbles.length + 64 = 64 from rfl)
      (yields_stateAt h hbound hsmall) hord (fun e _ => le_of_isPrefix List.nil_prefix)
  -- everything lies below the empty prefix
  obtain rfl : J₂ = [] := by
    rw [List.eq_nil_iff_forall_not_mem]
    exact fun e he => hbeyond e he List.nil_prefix
  rw [List.append_nil] at hsplit
  subst hsplit
  have hdrop : dropKeys 0 ((visited vs.length).map (indexedEntry vs)) =
      (visited vs.length).map (indexedEntry vs) := by
    simp [dropKeys]
  have hfree := hord.prefixFree (P := []) (n := 64) (fun _ _ => List.nil_prefix) rfl
  rw [nibbles_pathEmpty, List.length_nil, hdrop] at hitem
  rw [List.length_nil, hdrop] at hfree
  rw [build_perm hfree ((visited_perm hbound).map _)] at hitem
  have hlen : 64 - pathLen pathEmpty = 64 := by simp
  rw [indexedTrieRoot, indexedTrieBegin_eq h hbound hsmall, ok_bind]
  simp only [hlen, hrun, ok_bind]
  rw [if_neg (by simp [hyield.1, hyield.2.1]), trieSubtreeRoot_denotes hempty hitem]
  rfl

/-- The cursor of a list of `n` hands out each index once, in the order of
the keys; the root built over it is the canonical root of `rlp(i) ↦ v_i`. -/
theorem indexedTrieRoot_canonical (hempty : keccak256 [0x80] = emptyTrieRoot)
    {source : IndexedTrieSource} {vs : List (List Byte)} (h : source.Holds vs)
    (hn : vs.length ≤ transactionCountBound) (hv : ∀ v ∈ vs, ValueFits v) :
    indexedTrieRoot keccak256 db source = .ok (canonicalRoot keccak256 (indexedEntries vs)) ∧
    ∃ c items, rlpIndexCursor vs.length = .ok c ∧ HandsOut c items ∧
      (items.map RlpIndexItem.index).Perm (List.range vs.length) ∧
      (items.Pairwise fun a b => a.key.nibbles < b.key.nibbles) ∧
      ∀ item ∈ items, item.key.nibbles = indexKey item.index := by
  have hbound : vs.length ≤ 2 ^ 64 := Nat.le_trans hn (by decide)
  have hlt : ∀ i ∈ visited vs.length, i < 2 ^ 64 := fun i hi => by
    have := List.mem_range.mp ((visited_perm hbound).mem_iff.mp hi)
    omega
  constructor
  · exact indexedTrieRoot_eq hempty h hn hv
  · refine ⟨_, _, rlpIndexCursor_eq hbound, handsOut_visited hbound, ?_, ?_, ?_⟩
    · rw [List.map_map, show RlpIndexItem.index ∘ indexItem = id from rfl, List.map_id]
      exact visited_perm hbound
    · rw [List.pairwise_map]
      refine (visited_ascending hbound).imp_of_mem fun {i j} hi hj hij => ?_
      rw [nibbles_indexItem (hlt i hi), nibbles_indexItem (hlt j hj)]
      exact hij.lt
    · intro item hitem
      obtain ⟨i, hi, rfl⟩ := List.mem_map.mp hitem
      exact nibbles_indexItem (hlt i hi)

theorem indexedTrieRoot_canonical_twoReceipts :
    indexedTrieRoot twoLeavesKeccak (fun _ => [])
        (.indexedReceipts ⟨[[1], [2]].flatMap receiptRecord, 2⟩) =
      .ok (canonicalRoot twoLeavesKeccak (indexedEntries [[1], [2]])) ∧
    ∃ c items, rlpIndexCursor 2 = .ok c ∧ HandsOut c items ∧
      (items.map RlpIndexItem.index).Perm (List.range 2) ∧
      (items.Pairwise fun a b => a.key.nibbles < b.key.nibbles) ∧
      ∀ item ∈ items, item.key.nibbles = indexKey item.index :=
  indexedTrieRoot_canonical rfl (holds_receipts [[1], [2]]) (by decide) (by
    intro v hv
    have hlen : v.length = 1 := by
      rcases List.mem_pair.mp hv with rfl | rfl
      · rfl
      · rfl
    rw [ValueFits, scratchRegionBound_eq]
    omega)

/-- The root of any envelopes within the schema bounds. -/
theorem transactionTrieRoot_eq (hempty : keccak256 [0x80] = emptyTrieRoot)
    {maxItemLength : Nat} {vs : List (List Byte)} (hn : vs.length ≤ transactionCountBound)
    (hfit : sszOffset vs vs.length < 2 ^ 32) (hmax : ∀ v ∈ vs, v.length ≤ maxItemLength)
    (hv : ∀ v ∈ vs, ValueFits v) :
    transactionTrieRoot keccak256 db (sszVariableList maxItemLength vs) =
      .ok (canonicalRoot keccak256 (indexedEntries vs)) :=
  indexedTrieRoot_eq hempty (holds_transactions hfit hmax) hn hv

/-- A withdrawal is small: three numbers and an address. -/
theorem valueFits_withdrawalValue (withdrawal : List Byte) :
    ValueFits (withdrawalValue withdrawal) := by
  have hbound := scratchRegionBound_ge
  have hnumber : ∀ offset,
      (rlpBytes (bigEndian (decodeSszUint withdrawal offset))).length ≤ 9 := by
    intro offset
    have hlt := decodeSszUint_lt withdrawal offset
    rw [length_rlpBytes_bigEndian (by omega)]
    exact rlpUintSize_le (k := 8) hlt
  have hindex := hnumber wdIndex
  have hvalidator := hnumber wdValidatorIndex
  have hamount := hnumber wdAmount
  have hlen : (subSlice withdrawal wdAddress 20).length ≤ 20 := List.length_take_le _ _
  have haddress := length_rlpBytes_le (b := subSlice withdrawal wdAddress 20) (by omega)
  rw [ValueFits, withdrawalValue, length_rlpList, rlpListSize]
  simp only [List.length_append]
  have hprefix := rlpLengthPrefixLen_le (n := (rlpBytes (bigEndian
    (decodeSszUint withdrawal wdIndex))).length + ((rlpBytes (bigEndian
    (decodeSszUint withdrawal wdValidatorIndex))).length + ((rlpBytes
    (subSlice withdrawal wdAddress 20)).length + (rlpBytes (bigEndian
    (decodeSszUint withdrawal wdAmount))).length))) (by omega)
  omega

/-- The root of any list of withdrawals. -/
theorem withdrawalsTrieRoot_eq (hempty : keccak256 [0x80] = emptyTrieRoot)
    {wds : BoundedSszListRef} (hn : wds.count ≤ transactionCountBound)
    (hlen : wds.count * wdSize ≤ wds.bytes.length) :
    withdrawalsTrieRoot keccak256 db wds = .ok (canonicalRoot keccak256
      (indexedEntries ((List.range wds.count).map fun i =>
        withdrawalValue (subSlice wds.bytes (i * wdSize) wdSize)))) := by
  refine indexedTrieRoot_eq hempty (holds_withdrawals hlen) (by simpa using hn) fun v hv => ?_
  obtain ⟨i, -, rfl⟩ := List.mem_map.mp hv
  exact valueFits_withdrawalValue _

end EvmSail
