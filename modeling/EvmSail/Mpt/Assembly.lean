/-
# `EvmSail.Mpt.Assembly` — what structural items stand for

An item handed up by the walk stands for a canonical trie below some
prefix (`Represents`).  Its child reference is a reference to exactly that
trie (`trieChildRef_spec`): absorbing the item's remaining path is
`Trie.prepend`.  An accumulator stands for a family of sub-tries
(`Assembles`), and finishing it for their `Trie.combine`.

`Witnessed` is the only place where the database matters: every hashed
node of the trie is found under its hash.
-/
import EvmSail.Mpt.CodecSound
import EvmSail.Mpt.Updates

namespace EvmSail

open Fallible Radix

variable {keccak256 : List Byte → Hash} {db : Hash → StatelessInputSlice}

/-! ## Witnessed tries -/

/-- Every node of the trie that a parent references by hash is in the
database. -/
def Witnessed (keccak256 : List Byte → Hash) (db : Hash → StatelessInputSlice)
    (t : NibbleTrie) : Prop :=
  ∀ e, IsNodeOf keccak256 e t → 32 ≤ e.length → db (keccak256 e) = e

theorem Witnessed.empty : Witnessed keccak256 db .empty := by
  intro e h
  cases h with
  | self hne => exact absurd rfl ‹_›

theorem Witnessed.ext {p : List Nibble} {c : NibbleTrie}
    (h : Witnessed keccak256 db (.ext p c)) : Witnessed keccak256 db c :=
  fun e he => h e (.ext p he)

theorem Witnessed.branch {cs : Nibble → NibbleTrie}
    (h : Witnessed keccak256 db (.branch cs)) (x : Nibble) : Witnessed keccak256 db (cs x) :=
  fun e he => h e (.branch cs x he)

/-- A reference to a witnessed node resolves to its encoding. -/
theorem Witnessed.resolve {t : NibbleTrie} {r : NodeRef} (h : Witnessed keccak256 db t)
    (hr : RefOf keccak256 r (encodeNode keccak256 t)) (hs : ∀ node, r ≠ .scratchInlineRef node) :
    resolveWitnessRef db r = .ok (encodeNode keccak256 t) := by
  generalize henc : encodeNode keccak256 t = enc at hr ⊢
  cases hr with
  | empty => rfl
  | input node hne => rfl
  | scratch node hne => exact absurd rfl (hs node)
  | hash _ hlen =>
    have hne : t ≠ .empty := by
      rintro rfl
      rw [← henc] at hlen
      simp [encodeNode] at hlen
    have hdb : db (keccak256 enc) = enc := h enc (henc ▸ .self t hne) hlen
    have h0 : ¬ enc.length = 0 := by omega
    simp only [resolveWitnessRef, hdb, if_neg h0]

/-! ## Items -/

/-- The payload denotes the trie. -/
inductive Holds (keccak256 : List Byte → Hash) (db : Hash → StatelessInputSlice) :
    TrieItemValue → NibbleTrie → Prop
  | input (v : List Byte) : Holds keccak256 db (.leafItem (.inputTrieLeaf v)) (.leaf [] v)
  | scratch (v : List Byte) : Holds keccak256 db (.leafItem (.scratchTrieLeaf v)) (.leaf [] v)
  | branch (cs : Nibble → NibbleTrie) (r : NodeRef) :
      RefOf keccak256 r (encodeNode keccak256 (.branch cs)) →
      Holds keccak256 db (.branchItem r) (.branch cs)
  | subtree (t : NibbleTrie) (r : NodeRef) : t ≠ .empty →
      RefOf keccak256 r (encodeNode keccak256 t) → Witnessed keccak256 db t →
      Holds keccak256 db (.subtreeItem r) t

/-- The item denotes the trie below the prefix `P`: either nothing, or
`t'` at the path `P ++ q`, which is `prepend q t'` at `P`. -/
inductive Represents (keccak256 : List Byte → Hash) (db : Hash → StatelessInputSlice)
    (P : List Nibble) : TrieItem → NibbleTrie → Prop
  | empty (path : TriePath) :
      Represents keccak256 db P { path := path, value := .emptySubtree } .empty
  | item (it : TrieItem) (q : List Nibble) (t' : NibbleTrie) (m : Nat) :
      it.path.nibbles = P ++ q → Holds keccak256 db it.value t' → t'.Canonical m →
      TrieFits t' → P.length + q.length + m ≤ 64 →
      Represents keccak256 db P it (t'.prepend q)

theorem Holds.ne_empty {value : TrieItemValue} {t : NibbleTrie}
    (h : Holds keccak256 db value t) : t ≠ .empty := by
  cases h with
  | input v => simp
  | scratch v => simp
  | branch cs r hr => simp
  | subtree t r hne hr hw => exact hne

/-- Items of an empty trie have an empty payload. -/
theorem Represents.value_iff {P : List Nibble} {it : TrieItem} {t : NibbleTrie}
    (h : Represents keccak256 db P it t) : it.value = .emptySubtree ↔ t = .empty := by
  cases h with
  | empty path => simp
  | item it q t' m hpath hv _ _ _ =>
    rw [Trie.prepend_eq_empty]
    constructor
    · intro he
      rw [he] at hv
      cases hv
    · intro he
      exact absurd he hv.ne_empty

/-- An item of the child under `x` is an item of the trie it is the only
child of. -/
theorem Represents.up {P : List Nibble} {x : Nibble} {it : TrieItem} {t : NibbleTrie}
    (h : Represents keccak256 db (P ++ [x]) it t) :
    Represents keccak256 db P it (t.prepend [x]) := by
  cases h with
  | empty path => exact .empty path
  | item _ q t' m hpath hv hc hf hlen =>
    rw [← Trie.prepend_append]
    refine .item it ([x] ++ q) t' m (by rw [hpath, List.append_assoc]) hv hc hf ?_
    simp only [List.length_append, List.length_singleton] at hlen ⊢
    omega

theorem represents_inputLeaf {P q : List Nibble} {key : TriePath} {v : List Byte}
    (hkey : key.nibbles = P ++ q) (hv : ValueFits v) :
    Represents keccak256 db P (trieInputLeaf key v) (.leaf q v) := by
  have hlen := key.length_nibbles_le
  rw [hkey, List.length_append] at hlen
  have : Represents keccak256 db P (trieInputLeaf key v) ((Trie.leaf [] v).prepend q) :=
    .item _ q _ 0 hkey (.input v) (.leaf [] v rfl) (.leaf [] v (by simp) hv) (by omega)
  simpa using this

theorem represents_scratchLeaf {P q : List Nibble} {key : TriePath} {v : List Byte}
    (hkey : key.nibbles = P ++ q) (hv : ValueFits v) :
    Represents keccak256 db P (trieScratchLeaf key v) (.leaf q v) := by
  have hlen := key.length_nibbles_le
  rw [hkey, List.length_append] at hlen
  have : Represents keccak256 db P (trieScratchLeaf key v) ((Trie.leaf [] v).prepend q) :=
    .item _ q _ 0 hkey (.scratch v) (.leaf [] v rfl) (.leaf [] v (by simp) hv) (by omega)
  simpa using this

/-- The child reference of an item is a reference to the trie it denotes
at that depth. -/
theorem trieChildRef_spec {P : List Nibble} {it : TrieItem} {t : NibbleTrie}
    (h : Represents keccak256 db P it t) :
    ∃ r, trieChildRef keccak256 db it P.length = .ok r ∧
      RefOf keccak256 r (encodeNode keccak256 t) := by
  cases h with
  | empty path => exact ⟨.emptyRef, by simp [trieChildRef], .empty⟩
  | item _ q t' m hpath hv hc hf hlen =>
    have hq : q.length ≤ 64 := by omega
    simp only [trieChildRef, pathDrop_eq, ok_bind, hpath, List.drop_left, pathLen_eq,
      TriePath.nibbles_ofNibbles hq]
    have hlen' : (TriePath.ofNibbles q).nibbles.length + m ≤ 64 := by
      rw [TriePath.nibbles_ofNibbles hq]
      omega
    generalize hval : it.value = value at hv
    cases hv with
    | input v =>
      cases hf with
      | leaf _ _ _ hv =>
      have := leafChildRef_spec keccak256 (.ofNibbles q)
        (Or.inl (rfl : TrieLeafValue.inputTrieLeaf v = _)) hv
      rw [TriePath.nibbles_ofNibbles hq] at this
      simpa using this
    | scratch v =>
      cases hf with
      | leaf _ _ _ hv =>
      have := leafChildRef_spec keccak256 (.ofNibbles q)
        (Or.inr (rfl : TrieLeafValue.scratchTrieLeaf v = _)) hv
      rw [TriePath.nibbles_ofNibbles hq] at this
      simpa using this
    | branch cs r hr =>
      by_cases hq0 : q.length = 0
      · obtain rfl := List.eq_nil_of_length_eq_zero hq0
        exact ⟨r, by simp, by simpa using hr⟩
      · simp only [if_neg hq0]
        have := mergeExtRef_spec hc hf hlen' hr fun _ => .intro cs
        rwa [TriePath.nibbles_ofNibbles hq] at this
    | subtree _ r hne hr hw =>
      by_cases hq0 : q.length = 0
      · obtain rfl := List.eq_nil_of_length_eq_zero hq0
        exact ⟨r, by simp, by simpa using hr⟩
      · simp only [if_neg hq0]
        have hnode := mergeExtNode_spec keccak256 hc hf hlen'
        have href := mergeExtRef_spec hc hf hlen' hr
        rw [TriePath.nibbles_ofNibbles hq] at hnode href
        cases r with
        | hashRef hash =>
          have hres := hw.resolve hr (by simp)
          rw [resolveWitnessRef] at hres
          by_cases h0 : (db hash).length = 0
          · rw [if_pos h0] at hres
            cases hres
          · rw [if_neg h0] at hres
            have h0' := h0
            rw [Except.ok.inj hres] at h0'
            simp only [Except.ok.inj hres, if_neg h0']
            exact hnode
        | _ => exact href (by simp)

/-! ## Accumulators -/

/-- The inhabited members of a family of tries. -/
noncomputable def inhabited (cs : Nibble → NibbleTrie) : Finset Nibble :=
  open Classical in Finset.univ.filter fun x => cs x ≠ .empty

theorem mem_inhabited {cs : Nibble → NibbleTrie} {x : Nibble} :
    x ∈ inhabited cs ↔ cs x ≠ .empty := by
  simp [inhabited]

/-- The accumulator holds references to the members of the family `cs`,
and the item of a member that is alone; `R x` relates the items of the
child under `x` to what they stand for. -/
structure Gathers (keccak256 : List Byte → Hash) (R : Nibble → TrieItem → NibbleTrie → Prop)
    (acc : TrieChildren) (cs : Nibble → NibbleTrie) : Prop where
  mask : ∀ x, branchMaskHas acc.mask x = true ↔ cs x ≠ .empty
  refs : ∀ x : Nibble, cs x ≠ .empty →
    RefOf keccak256 (branchRefsGet acc.children x) (encodeNode keccak256 (cs x))
  count : acc.count = (inhabited cs).card
  only : acc.count = 1 → ∃ x, cs x ≠ .empty ∧ R x acc.only (cs x)

/-- The accumulator holds the references of the family `cs` of tries with
keys of length `m` below the prefix `P`. -/
structure Assembles (keccak256 : List Byte → Hash) (db : Hash → StatelessInputSlice)
    (P : List Nibble) (m : Nat) (acc : TrieChildren) (cs : Nibble → NibbleTrie) : Prop where
  mask : ∀ x, branchMaskHas acc.mask x = true ↔ cs x ≠ .empty
  refs : ∀ x : Nibble, cs x ≠ .empty →
    RefOf keccak256 (branchRefsGet acc.children x) (encodeNode keccak256 (cs x))
  count : acc.count = (inhabited cs).card
  only : acc.count = 1 → ∃ x, cs x ≠ .empty ∧ Represents keccak256 db (P ++ [x]) acc.only (cs x)
  canonical : ∀ x, (cs x).Canonical m
  fits : ∀ x, TrieFits (cs x)

theorem branchMaskHas_zero (x : Nibble) : branchMaskHas 0#16 x = false := by
  revert x
  decide

theorem branchMaskHas_set (mask : BranchMask) (x y : Nibble) :
    branchMaskHas (branchMaskSet mask x) y = (branchMaskHas mask y || decide (y = x)) := by
  have hbit : ∀ (m : BranchMask) (z : Nibble), branchMaskHas m z = m.getLsbD z.val := by
    intro m z
    have hz := z.isLt
    rw [branchMaskHas, branchMaskFor, Bool.eq_iff_iff, bne_iff_ne, ne_eq, ← BitVec.twoPow_eq]
    rw [BitVec.and_twoPow]
    cases hm : m.getLsbD z.val with
    | false => simp
    | true =>
      simp only [if_true, iff_true]
      intro h
      have := congrArg (fun v => BitVec.getLsbD v z.val) h
      simp [hz] at this
  rw [hbit, hbit, branchMaskSet, BitVec.getLsbD_or, branchMaskFor, ← BitVec.twoPow_eq,
    BitVec.getLsbD_twoPow]
  congr 1
  have hx := x.isLt
  rw [Bool.eq_iff_iff]
  simp only [Bool.and_eq_true, decide_eq_true_eq]
  constructor
  · rintro ⟨_, h⟩
    exact Fin.ext h.symm
  · rintro rfl
    exact ⟨hx, rfl⟩

variable (keccak256) in
theorem gathers_empty (R : Nibble → TrieItem → NibbleTrie → Prop) :
    Gathers keccak256 R trieChildrenEmpty fun _ => .empty where
  mask := fun x => by simp [trieChildrenEmpty, branchMaskHas_zero]
  refs := fun x h => absurd rfl h
  count := by simp [trieChildrenEmpty, inhabited]
  only := fun h => by simp [trieChildrenEmpty] at h

theorem Assembles.gathers {P : List Nibble} {m : Nat} {acc : TrieChildren}
    {cs : Nibble → NibbleTrie} (h : Assembles keccak256 db P m acc cs) :
    Gathers keccak256 (fun x => Represents keccak256 db (P ++ [x])) acc cs :=
  ⟨h.mask, h.refs, h.count, h.only⟩

theorem assembles_empty (P : List Nibble) (m : Nat) :
    Assembles keccak256 db P m trieChildrenEmpty fun _ => .empty :=
  have h := gathers_empty keccak256 fun x => Represents keccak256 db (P ++ [x])
  { mask := h.mask, refs := h.refs, count := h.count, only := h.only
    canonical := fun _ => .empty
    fits := fun _ => .empty }

theorem inhabited_update {cs : Nibble → NibbleTrie} {x : Nibble} {t : NibbleTrie}
    (ht : t ≠ .empty) : inhabited (Function.update cs x t) = insert x (inhabited cs) := by
  ext y
  rw [Finset.mem_insert, mem_inhabited, mem_inhabited]
  by_cases hy : y = x
  · subst hy
    simp [ht]
  · simp [hy]

theorem represents_path_prefix {P : List Nibble} {it : TrieItem} {t : NibbleTrie}
    (h : Represents keccak256 db P it t) (ht : t ≠ .empty) : P <+: it.path.nibbles := by
  cases h with
  | empty path => exact absurd rfl ht
  | item _ q t' m hpath _ _ _ _ =>
    rw [hpath]
    exact List.prefix_append P q

/-- Adding the item of one child extends the family at its nibble. -/
theorem Gathers.add {R : Nibble → TrieItem → NibbleTrie → Prop} {pfx : TriePath}
    {acc : TrieChildren} {cs : Nibble → NibbleTrie} {x : Nibble} {it : TrieItem}
    {t : NibbleTrie} {r : NodeRef}
    (hacc : Gathers keccak256 R acc cs) (hx : cs x = .empty) (hit : R x it t)
    (ht : t ≠ .empty) (hval : it.value ≠ .emptySubtree)
    (hpre : pfx.nibbles ++ [x] <+: it.path.nibbles)
    (hr : trieChildRef keccak256 db it (pfx.nibbles.length + 1) = .ok r)
    (hro : RefOf keccak256 r (encodeNode keccak256 t)) (hlen : pfx.nibbles.length < 64) :
    ∃ acc', trieChildrenAdd keccak256 db acc pfx x it = .ok acc' ∧
      Gathers keccak256 R acc' (Function.update cs x t) := by
  have hnotin : x ∉ inhabited cs := by
    rw [mem_inhabited]
    exact fun h => h hx
  have hcount : acc.count < 16 := by
    have := Finset.card_lt_univ_of_notMem hnotin
    rw [hacc.count]
    simpa using this
  have hmask : branchMaskHas acc.mask x = false := by
    rw [← Bool.not_eq_true, hacc.mask x]
    exact fun h => h hx
  have hsingle : (TriePath.ofNibbles [x]).nibbles = [x] := TriePath.nibbles_ofNibbles (by simp)
  have hchild : (TriePath.ofNibbles (pfx.nibbles ++ [x])).nibbles = pfx.nibbles ++ [x] :=
    TriePath.nibbles_ofNibbles (by simp only [List.length_append, List.length_singleton]; omega)
  refine ⟨⟨branchMaskSet acc.mask x, branchRefsSet acc.children x r, it, acc.count + 1⟩, ?_, ?_⟩
  · unfold trieChildrenAdd
    split
    · exact absurd ‹_› hval
    · simp only [pathLen_eq, hlen, hcount, not_true_eq_false, if_false, pathSingle_eq, ok_bind,
        pathConcat_eq, hsingle, List.length_singleton]
      rw [if_pos (by omega), ok_bind, pathPrefixOf_eq, hchild, if_neg (by simpa using hpre),
        if_neg (by simp [hmask]), hr, ok_bind]
  · refine ⟨fun y => ?_, fun y hy => ?_, ?_, fun h1 => ⟨x, ?_, ?_⟩⟩
    · simp only [branchMaskHas_set]
      by_cases hyx : y = x
      · subst hyx
        simp [ht]
      · simp [hyx, hacc.mask y]
    · by_cases hyx : y = x
      · subst hyx
        simpa using hro
      · rw [Function.update_of_ne hyx] at hy ⊢
        simpa [hyx] using hacc.refs y hy
    · simp only [inhabited_update ht, Finset.card_insert_of_notMem hnotin, hacc.count]
    · simpa using ht
    · simpa using hit

/-- What finishing an accumulator yields: nothing, the item of the only
child, or a branch. -/
theorem Gathers.finish {R : Nibble → TrieItem → NibbleTrie → Prop} {acc : TrieChildren}
    {cs : Nibble → NibbleTrie} (hacc : Gathers keccak256 R acc cs) (pfx : TriePath) :
    ∃ it, trieChildrenFinish keccak256 pfx acc = .ok it ∧
      ((it = { path := pfx, value := .emptySubtree } ∧ ∀ x, cs x = .empty) ∨
       (∃ x, cs x ≠ .empty ∧ (∀ y, y ≠ x → cs y = .empty) ∧ R x it (cs x)) ∨
       (∃ x y, x ≠ y ∧ cs x ≠ .empty ∧ cs y ≠ .empty ∧ ∃ r, it = trieBranch pfx r ∧
         RefOf keccak256 r (encodeNode keccak256 (.branch cs)))) := by
  rcases Trie.combine_cases cs with ⟨hall, -⟩ | ⟨a, ha, hothers, -⟩ | ⟨a, b, hab, ha, hb, -⟩
  · have h0 : acc.count = 0 := by
      rw [hacc.count, Finset.card_eq_zero, Finset.eq_empty_iff_forall_notMem]
      intro x
      rw [mem_inhabited]
      exact fun h => h (hall x)
    exact ⟨_, by rw [trieChildrenFinish, if_pos h0], Or.inl ⟨rfl, hall⟩⟩
  · have h1 : acc.count = 1 := by
      rw [hacc.count, Finset.card_eq_one]
      refine ⟨a, Finset.eq_singleton_iff_unique_mem.mpr ⟨mem_inhabited.mpr ha, fun y hy => ?_⟩⟩
      by_contra hne
      exact mem_inhabited.mp hy (hothers y hne)
    obtain ⟨x, hx, hrep⟩ := hacc.only h1
    obtain rfl : x = a := by
      by_contra hne
      exact hx (hothers x hne)
    exact ⟨acc.only, by rw [trieChildrenFinish, if_neg (by omega), if_pos h1],
      Or.inr (Or.inl ⟨x, hx, hothers, hrep⟩)⟩
  · have h2 : 2 ≤ acc.count := by
      rw [hacc.count]
      exact Finset.one_lt_card.mpr ⟨a, mem_inhabited.mpr ha, b, mem_inhabited.mpr hb, hab⟩
    obtain ⟨r, hr, hro⟩ := branchChildRef_spec hacc.mask hacc.refs
    refine ⟨trieBranch pfx r, ?_, Or.inr (Or.inr ⟨a, b, hab, ha, hb, r, rfl, hro⟩)⟩
    rw [trieChildrenFinish, if_neg (by omega), if_neg (by omega), hr, ok_bind]

/-- Adding the item of one child extends the assembled family. -/
theorem trieChildrenAdd_spec {pfx : TriePath} {m : Nat} {acc : TrieChildren}
    {cs : Nibble → NibbleTrie} {x : Nibble} {it : TrieItem} {t : NibbleTrie}
    (hacc : Assembles keccak256 db pfx.nibbles m acc cs) (hx : cs x = .empty)
    (hit : Represents keccak256 db (pfx.nibbles ++ [x]) it t) (hcan : t.Canonical m)
    (hfit : TrieFits t) (hlen : pfx.nibbles.length < 64) :
    ∃ acc', trieChildrenAdd keccak256 db acc pfx x it = .ok acc' ∧
      Assembles keccak256 db pfx.nibbles m acc' (Function.update cs x t) := by
  by_cases ht : t = .empty
  · have hval := hit.value_iff.mpr ht
    refine ⟨acc, by simp only [trieChildrenAdd, hval], ?_⟩
    rwa [ht, Function.update_eq_self_iff.mpr hx.symm]
  · obtain ⟨r, hr, hro⟩ := trieChildRef_spec hit
    rw [List.length_append, List.length_singleton] at hr
    have hpre := represents_path_prefix hit ht
    obtain ⟨acc', hadd, hg⟩ :=
      hacc.gathers.add hx hit ht (fun h => ht (hit.value_iff.mp h)) hpre hr hro hlen
    have hupd : ∀ Q : NibbleTrie → Prop, Q t → (∀ y, Q (cs y)) →
        ∀ y, Q (Function.update cs x t y) := by
      intro Q hQ hcs y
      rcases eq_or_ne y x with rfl | hyx
      · rwa [Function.update_self]
      · rw [Function.update_of_ne hyx]
        exact hcs y
    exact ⟨acc', hadd, hg.mask, hg.refs, hg.count, hg.only,
      hupd (Trie.Canonical m) hcan hacc.canonical, hupd TrieFits hfit hacc.fits⟩

/-- Finishing an accumulator reassembles the family. -/
theorem trieChildrenFinish_spec {pfx : TriePath} {m : Nat} {acc : TrieChildren}
    {cs : Nibble → NibbleTrie} (hacc : Assembles keccak256 db pfx.nibbles m acc cs)
    (hlen : pfx.nibbles.length + (m + 1) ≤ 64) :
    ∃ it, trieChildrenFinish keccak256 pfx acc = .ok it ∧
      Represents keccak256 db pfx.nibbles it (Trie.combine cs) := by
  obtain ⟨it, hit, hcase⟩ := hacc.gathers.finish pfx
  refine ⟨it, hit, ?_⟩
  rcases hcase with ⟨rfl, hall⟩ | ⟨x, hx, hothers, hrep⟩ | ⟨x, y, hxy, hx, hy, r, rfl, hro⟩
  · rw [Trie.combine_empty hall]
    exact .empty pfx
  · rw [Trie.combine_single hx hothers]
    exact hrep.up
  · rw [Trie.combine_branch hxy hx hy]
    have : Represents keccak256 db pfx.nibbles (trieBranch pfx r) ((Trie.branch cs).prepend []) :=
      .item _ [] _ (m + 1) (by simp [trieBranch]) (.branch cs r hro)
        (.branch cs hacc.canonical hxy hx hy) (.branch cs hacc.fits) (by simpa using hlen)
    simpa using this

end EvmSail
