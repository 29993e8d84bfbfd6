/-
# `EvmSail.Tx.CanonicalSound` — what the field decoders return

One lemma for each decoder of `Tx.Codec` says on which fields it returns,
and one for each leniently read field that it is in canonical form exactly
when it is the canonical field of the value read from it.  Both kinds
compose along lists (`listOf_iff`): a cursor is a sequence of items in one
way only, so a span is reproduced exactly when its items are.
-/
import EvmSail.Tx.Canonical

namespace EvmSail

open Fallible

/-! ## Items of a span -/

theorem rlpItems_eq_ok {c : List Byte} {fs : List RlpFieldRef} :
    rlpItems c = .ok fs ↔ Fields c fs := by
  have hwalk : rlpItems c = .ok fs ↔ ∃ gs, Fields c gs ∧ fs = gs := by
    refine walk_iff (W := fun c (_ : Unit) => rlpItems c) (R := fun gs _ fs => fs = gs) (s := ())
      ?_ ?_ ?_
    · intro _ fs
      rw [rlpItems, if_pos List.length_nil]
      constructor
      · intro h
        exact (Except.ok.inj h).symm
      · intro h
        rw [h]
    · intro c _ fs hc h
      rw [rlpItems, if_neg (by simpa using hc)] at h
      obtain ⟨⟨f, next⟩, htake, hrest⟩ := bind_eq_ok.mp h
      obtain ⟨rest, hnext, _⟩ := bind_eq_ok.mp hrest
      obtain ⟨hf, hcat⟩ := rlpTakeItem_eq_ok htake
      exact ⟨f, next.val, hf, hcat, (), rest, hnext⟩
    · intro f rest gs hf ih _ fs
      obtain ⟨hlt, htake⟩ := rlpTakeItem_append hf rest
      rw [rlpItems, if_neg (by simp [hf.source_ne_nil]), htake, ok_bind]
      simp only
      rw [(ih () gs).mpr rfl, ok_bind]
      constructor
      · intro h
        exact (Except.ok.inj h).symm
      · intro h
        rw [h]
  rw [hwalk]
  constructor
  · rintro ⟨gs, hgs, rfl⟩
    exact hgs
  · intro h
    exact ⟨fs, h, rfl⟩

theorem readSpan_eq_ok {α : Type} {read : RlpFieldRef → Result α} {span : List Byte}
    {as : List α} : readSpan read span = .ok as ↔
      ∃ fs, Fields span fs ∧ List.Forall₂ (fun f a => read f = .ok a) fs as := by
  rw [readSpan, bind_eq_ok]
  constructor
  · rintro ⟨fs, hfs, has⟩
    exact ⟨fs, rlpItems_eq_ok.mp hfs, mapM_eq_ok.mp has⟩
  · rintro ⟨fs, hfs, has⟩
    exact ⟨fs, rlpItems_eq_ok.mpr hfs, mapM_eq_ok.mpr has⟩

/-- A walk that reads each item, by what it does with what it has read. -/
theorem walk_readSpan_iff {σ ρ α : Type} {W : List Byte → σ → Result ρ}
    {read : RlpFieldRef → Result α} {Q : List α → σ → ρ → Prop}
    (hnil : ∀ s r, W [] s = .ok r ↔ Q [] s r)
    (hstuck : ∀ c s r, c ≠ [] → W c s = .ok r → ∃ (f : RlpFieldRef) (rest : List Byte),
      f.Announced ∧ c = f.source ++ rest ∧ ∃ s' r', W rest s' = .ok r')
    (hcons : ∀ f rest (P : List α → Prop), f.Announced →
      (∀ s r, W rest s = .ok r ↔ ∃ as, P as ∧ Q as s r) →
      ∀ s r, W (f.source ++ rest) s = .ok r ↔ ∃ a as, read f = .ok a ∧ P as ∧ Q (a :: as) s r)
    {c : List Byte} {s : σ} {r : ρ} :
    W c s = .ok r ↔ ∃ as, readSpan read c = .ok as ∧ Q as s r := by
  have hwalk : W c s = .ok r ↔ ∃ fs, Fields c fs ∧
      ∃ as, List.Forall₂ (fun f a => read f = .ok a) fs as ∧ Q as s r := by
    refine walk_iff (W := W) (R := fun fs s r =>
      ∃ as, List.Forall₂ (fun f a => read f = .ok a) fs as ∧ Q as s r) ?_ hstuck ?_
    · intro s r
      rw [hnil]
      constructor
      · intro h
        exact ⟨[], .nil, h⟩
      · rintro ⟨as, has, h⟩
        rwa [List.forall₂_nil_left_iff.mp has] at h
    · intro f rest fs hf ih s r
      rw [hcons f rest _ hf ih]
      constructor
      · rintro ⟨a, as, ha, has, h⟩
        exact ⟨a :: as, .cons ha has, h⟩
      · rintro ⟨as, has, h⟩
        cases has with
        | cons ha has => exact ⟨_, _, ha, has, h⟩
  rw [hwalk]
  constructor
  · rintro ⟨fs, hfs, as, has, h⟩
    exact ⟨as, readSpan_eq_ok.mpr ⟨fs, hfs, has⟩, h⟩
  · rintro ⟨as, has, h⟩
    obtain ⟨fs, hfs, has⟩ := readSpan_eq_ok.mp has
    exact ⟨fs, hfs, as, has, h⟩

theorem rlpDecodeList_eq_ok {f : RlpFieldRef} {c : List Byte} :
    rlpDecodeList f = .ok c ↔ f.isList = true ∧ c = rlpItemContent f := by
  rw [rlpDecodeList]
  constructor
  · intro h
    split at h
    · rename_i hkind
      exact ⟨hkind, (Except.ok.inj h).symm⟩
    · cases h
  · rintro ⟨hkind, rfl⟩
    rw [if_pos hkind]
    rfl

theorem rlpSingleRef_eq_ok {b : List Byte} {f : RlpFieldRef} :
    rlpSingleRef b = .ok f ↔ f.Announced ∧ f.source = b := by
  rw [rlpSingleRef]
  constructor
  · intro h
    split at h
    · cases h
    obtain ⟨⟨isList, off, len⟩, hhdr, h⟩ := bind_eq_ok.mp h
    simp only at h
    split at h
    · rename_i hlen
      obtain rfl := Except.ok.inj h
      refine ⟨rlpDecodeItem_eq_ok.mpr ⟨off, hhdr, ?_, ?_, ?_⟩, rfl⟩
      all_goals simp only
      · omega
      · omega
      · rw [List.take_of_length_le (by omega)]
    · cases h
  · rintro ⟨hf, rfl⟩
    obtain ⟨off, hhdr, hpos, hle, hsource⟩ := rlpDecodeItem_eq_ok.mp hf
    have hlen := congrArg List.length hsource
    rw [List.length_take, Nat.min_eq_left hle] at hlen
    rw [if_neg (by omega), hhdr, ok_bind]
    simp only
    rw [dif_pos ⟨by omega, by omega⟩]

theorem rlpNodeCursor_eq_ok {b c : List Byte} :
    rlpNodeCursor b = .ok c ↔
      ∃ root, rlpSingleRef b = .ok root ∧ root.isList = true ∧ c = rlpItemContent root := by
  rw [rlpNodeCursor]
  constructor
  · intro h
    split at h
    · cases h
    obtain ⟨root, hroot, hlist⟩ := bind_eq_ok.mp h
    exact ⟨root, hroot, rlpDecodeList_eq_ok.mp hlist⟩
  · rintro ⟨root, hroot, hlist⟩
    have hne : ¬ b.length = 0 := by
      intro hb
      rw [rlpSingleRef, if_pos hb] at hroot
      cases hroot
    rw [if_neg hne, hroot, ok_bind]
    exact rlpDecodeList_eq_ok.mpr hlist

/-! ## Canonical fields -/

/-- A field that is the shortest encoding of its content. -/
def RlpFieldRef.Canonical (f : RlpFieldRef) : Prop := ∃ b, f = bytesField b ∨ f = listField b

theorem canonical_bytesField (b : List Byte) : (bytesField b).Canonical := ⟨b, Or.inl rfl⟩

theorem canonical_listOf (fs : List RlpFieldRef) : (listOf fs).Canonical := ⟨_, Or.inr rfl⟩

theorem RlpFieldRef.Canonical.announced {f : RlpFieldRef} (h : f.Canonical)
    (hlen : f.source.length ≤ scratchRegionBound) : f.Announced := by
  have hcontent := f.content_le.trans hlen
  obtain ⟨b, rfl | rfl⟩ := h
  · exact announced_bytesField hcontent
  · exact announced_listField hcontent

theorem rlpItemContent_listOf (fs : List RlpFieldRef) :
    rlpItemContent (listOf fs) = sourcesOf fs :=
  rlpItemContent_listField _

theorem length_sourcesOf_le (fs : List RlpFieldRef) :
    (sourcesOf fs).length ≤ (listOf fs).source.length := (listOf fs).content_le

theorem length_source_le {g : RlpFieldRef} {fs : List RlpFieldRef} (h : g ∈ fs) :
    g.source.length ≤ (sourcesOf fs).length :=
  (List.sublist_flatten_of_mem (List.mem_map_of_mem h)).length_le

/-- The items of a canonical list. -/
theorem fields_listOf {gs : List RlpFieldRef} (hgs : ∀ g ∈ gs, g.Canonical)
    (hlen : (sourcesOf gs).length ≤ scratchRegionBound) : Fields (sourcesOf gs) gs := by
  refine ⟨?_, rfl⟩
  intro g hg
  exact (hgs g hg).announced ((length_source_le hg).trans hlen)

/-- A list is the canonical list over given items exactly when its header
is shortest and its items are these. -/
theorem listOf_iff {f : RlpFieldRef} {fs gs : List RlpFieldRef}
    (hlen : f.source.length ≤ scratchRegionBound) (hfs : Fields (rlpItemContent f) fs)
    (hgs : ∀ g ∈ gs, g.Canonical) :
    f = listOf gs ↔ f = listField (rlpItemContent f) ∧ fs = gs := by
  constructor
  · intro h
    have hcontent : rlpItemContent f = sourcesOf gs := by
      rw [h, rlpItemContent_listOf]
    refine ⟨?_, ?_⟩
    · rw [hcontent]
      exact h
    · have hle : (sourcesOf gs).length ≤ scratchRegionBound := by
        rw [← hcontent, length_rlpItemContent]
        exact f.content_le.trans hlen
      have hgs' := fields_listOf hgs hle
      rw [← hcontent] at hgs'
      exact hfs.unique hgs'
  · rintro ⟨h, rfl⟩
    rw [h, listOf, ← hfs.bytes]

/-! ## Scalars -/

/-- The word in a string field. -/
theorem toNat_of_rlpDecodeWord {f : RlpFieldRef} {w : Word} (h : rlpDecodeWord f = .ok w) :
    w.toNat = natOfBytes (rlpItemContent f) := by
  obtain ⟨_, hlen, rfl⟩ := rlpDecodeWord_eq_ok.mp h
  have hlt := natOfBytes_content_lt hlen
  rw [BitVec.toNat_ofNat, Nat.mod_eq_of_lt (by simpa using hlt)]

theorem rlpDecodeWord_bytesField {b : List Byte} (h : b.length ≤ 32) :
    rlpDecodeWord (bytesField b) = .ok (BitVec.ofNat 256 (natOfBytes b)) := by
  refine rlpDecodeWord_eq_ok.mpr ⟨rfl, h, ?_⟩
  rw [rlpItemContent_bytesField]

/-- A string read as a word is canonical at a width exactly when it is the
canonical string of that width over the word. -/
theorem tightBytes_iff {f : RlpFieldRef} {w : Word} {width : Nat}
    (hlen : f.source.length ≤ scratchRegionBound) (h : rlpDecodeWord f = .ok w) :
    TightBytes width f ↔ f = bytesField (bytesOfNat width w.toNat) := by
  rw [TightBytes, rlpBytesCanonical_iff (f.content_le.trans hlen), toNat_of_rlpDecodeWord h]
  constructor
  · rintro ⟨hf, rfl⟩
    have hback := bytesOfNat_natOfBytes (rlpItemContent f)
    rw [length_rlpItemContent] at hback
    rwa [hback]
  · intro hf
    have hcontent : rlpItemContent f = bytesOfNat width (natOfBytes (rlpItemContent f)) := by
      have hcontent := congrArg rlpItemContent hf
      rwa [rlpItemContent_bytesField] at hcontent
    refine ⟨by rwa [← hcontent] at hf, ?_⟩
    rw [← length_rlpItemContent, hcontent, length_bytesOfNat]

theorem tightAddress_iff {f : RlpFieldRef} {w : Word}
    (hlen : f.source.length ≤ scratchRegionBound) (h : rlpDecodeWord f = .ok w) :
    TightBytes 20 f ↔ f = addressField (wordToAddress w) := by
  rw [tightBytes_iff hlen h, addressField, addressBytes_wordToAddress]

theorem contentLen_bytesField (b : List Byte) : (bytesField b).contentLen = b.length := rfl

theorem tightRecipient_iff {f : RlpFieldRef} {w : Word}
    (hlen : f.source.length ≤ scratchRegionBound) (h : rlpDecodeWord f = .ok w) :
    TightBytes 0 f ∨ TightBytes 20 f ↔
      f = recipientField (if (f.contentLen == 0) = true then none
        else some (wordToAddress w)) := by
  by_cases hzero : f.contentLen = 0
  · rw [if_pos (by simp [hzero]), recipientField, tightBytes_iff hlen h]
    constructor
    · rintro (h₀ | h₂₀)
      · exact h₀
      · exact absurd (hzero.symm.trans h₂₀.2) (by decide)
    · exact Or.inl
  · rw [if_neg (by simp [hzero]), recipientField, tightAddress_iff hlen h]
    constructor
    · rintro (h₀ | h₂₀)
      · exact absurd h₀.2 hzero
      · exact h₂₀
    · exact Or.inr

theorem tightUint_iff {f : RlpFieldRef} {w : Word}
    (hlen : f.source.length ≤ scratchRegionBound) (h : rlpDecodeWord f = .ok w) :
    rlpItemUintCanonical f = true ↔ f = uintField w.toNat := by
  rw [rlpUintCanonical_iff (f.content_le.trans hlen), uintField, toNat_of_rlpDecodeWord h]

theorem rlpDecodeU256_eq_uint {f : RlpFieldRef} {w : Word}
    (hlen : f.source.length ≤ scratchRegionBound) (h : rlpDecodeU256 f = .ok w) :
    f = uintField w.toNat :=
  (rlpDecodeU256_eq_ok (f.content_le.trans hlen)).mp h

theorem rlpDecodeU256_uintField (w : Word) (hlen : (uintField w.toNat).source.length ≤
    scratchRegionBound) : rlpDecodeU256 (uintField w.toNat) = .ok w :=
  (rlpDecodeU256_eq_ok ((uintField w.toNat).content_le.trans hlen)).mpr rfl

/-! ## Lists and tuples -/

/-- A tuple is canonical when its header is shortest and its items are. -/
theorem tightTuple_iff {n : Nat} {P : Vector RlpFieldRef n → Prop} {f : RlpFieldRef}
    {v : Vector RlpFieldRef n} (hlen : f.source.length ≤ scratchRegionBound)
    (hkind : f.isList = true) (hv : Fields (rlpItemContent f) v.toList) :
    TightTuple n P f ↔ f = listField (rlpItemContent f) ∧ P v := by
  rw [TightTuple, rlpListCanonical_iff (f.content_le.trans hlen) hkind]
  refine and_congr_right' ?_
  constructor
  · intro h
    exact h v hv
  · intro h w hw
    rwa [Vector.toList_inj.mp (hw.unique hv)]

/-- A list read item by item is canonical exactly when it is the canonical
list over what was read. -/
theorem tightList_iff {α : Type} {read : RlpFieldRef → Result α} {field : α → RlpFieldRef}
    {P : RlpFieldRef → Prop} {f : RlpFieldRef} {as : List α}
    (hP : ∀ g a, g.source.length ≤ scratchRegionBound → read g = .ok a → (P g ↔ g = field a))
    (hfield : ∀ a, (field a).Canonical) (hlen : f.source.length ≤ scratchRegionBound)
    (hkind : f.isList = true) (h : readSpan read (rlpItemContent f) = .ok as) :
    TightList P f ↔ f = listOf (as.map field) := by
  obtain ⟨fs, hfs, hread⟩ := readSpan_eq_ok.mp h
  have hitems : (∀ g ∈ fs, P g) ↔ fs = as.map field := by
    have hbound : ∀ g ∈ fs, g.source.length ≤ scratchRegionBound := by
      intro g hg
      have hle := hfs.length_le hg
      rw [length_rlpItemContent] at hle
      exact (hle.trans f.content_le).trans hlen
    clear hfs h
    induction hread with
    | nil => simp
    | cons hg _ ih =>
      rw [List.forall_mem_cons] at hbound ⊢
      rw [List.map_cons, List.cons.injEq]
      exact and_congr (hP _ _ hbound.1 hg) (ih hbound.2)
  have hcanon : ∀ g ∈ as.map field, g.Canonical := by
    intro g hg
    obtain ⟨a, _, rfl⟩ := List.mem_map.mp hg
    exact hfield a
  rw [listOf_iff hlen hfs hcanon, ← hitems, TightList,
    rlpListCanonical_iff (f.content_le.trans hlen) hkind]
  refine and_congr_right' ?_
  constructor
  · intro h
    exact h fs hfs
  · intro h gs hgs
    rwa [hgs.unique hfs]

/-- Reading a canonical list back. -/
theorem readSpan_listOf {α : Type} {read : RlpFieldRef → Result α} {field : α → RlpFieldRef}
    (as : List α)
    (hread : ∀ a, (field a).source.length ≤ scratchRegionBound → read (field a) = .ok a)
    (hfield : ∀ a, (field a).Canonical)
    (hlen : (sourcesOf (as.map field)).length ≤ scratchRegionBound) :
    Fields (sourcesOf (as.map field)) (as.map field) ∧
      readSpan read (sourcesOf (as.map field)) = .ok as := by
  have hbound : ∀ a ∈ as, (field a).source.length ≤ scratchRegionBound := by
    intro a ha
    exact (length_source_le (List.mem_map_of_mem ha)).trans hlen
  have hfields : Fields (sourcesOf (as.map field)) (as.map field) := by
    refine fields_listOf ?_ hlen
    intro g hg
    obtain ⟨a, _, rfl⟩ := List.mem_map.mp hg
    exact hfield a
  refine ⟨hfields, readSpan_eq_ok.mpr ⟨_, hfields, ?_⟩⟩
  rw [List.forall₂_map_left_iff, List.forall₂_same]
  intro a ha
  exact hread a (hbound a ha)

/-! ## Access-list entries and authorization tuples -/

theorem vector_toList_eq {α : Type} {n : Nat} (v : Vector α n) :
    v.toList = List.ofFn fun i : Fin n => v[i] := by
  apply List.ext_getElem
  · simp
  · intro i _ _
    simp

theorem readAccessEntry_eq_ok {f : RlpFieldRef} {e : AccessEntry} :
    readAccessEntry f = .ok e ↔ f.isList = true ∧ ∃ v : Vector RlpFieldRef 2,
      Fields (rlpItemContent f) v.toList ∧
      (∃ w, rlpDecodeWord (entryAddress v) = .ok w ∧ e.address = wordToAddress w) ∧
      (entryKeys v).isList = true ∧
      readSpan rlpDecodeWord (rlpItemContent (entryKeys v)) = .ok e.keys := by
  constructor
  · intro h
    obtain ⟨c, hc, h₁⟩ := bind_eq_ok.mp h
    obtain ⟨v, hv, h₂⟩ := bind_eq_ok.mp h₁
    obtain ⟨w, hw, h₃⟩ := bind_eq_ok.mp h₂
    obtain ⟨c', hc', h₄⟩ := bind_eq_ok.mp h₃
    obtain ⟨hkind, rfl⟩ := rlpDecodeList_eq_ok.mp hc
    obtain ⟨hkind', rfl⟩ := rlpDecodeList_eq_ok.mp hc'
    obtain ⟨ks, hks, h₅⟩ := bind_eq_ok.mp h₄
    obtain ⟨ws, hws, h₆⟩ := bind_eq_ok.mp h₅
    obtain rfl := Except.ok.inj h₆
    exact ⟨hkind, v, rlpTakeFields_eq_ok.mp hv, ⟨w, hw, rfl⟩, hkind',
      bind_eq_ok.mpr ⟨ks, hks, hws⟩⟩
  · rintro ⟨hkind, v, hv, ⟨w, hw, haddr⟩, hkind', hkeys⟩
    obtain ⟨ks, hks, hws⟩ := bind_eq_ok.mp hkeys
    rw [readAccessEntry, rlpDecodeList_eq_ok.mpr ⟨hkind, rfl⟩, ok_bind,
      rlpTakeFields_eq_ok.mpr hv, ok_bind, hw, ok_bind, rlpDecodeList_eq_ok.mpr ⟨hkind', rfl⟩,
      ok_bind, hks, ok_bind, hws, ok_bind, ← haddr]

theorem canonical_addressField (a : Address) : (addressField a).Canonical := canonical_bytesField _

theorem canonical_wordField (w : Word) : (wordField w).Canonical := canonical_bytesField _

theorem canonical_uintField (n : Nat) : (uintField n).Canonical := canonical_bytesField _

theorem rlpDecodeWord_wordField (w : Word) : rlpDecodeWord (wordField w) = .ok w := by
  rw [wordField, rlpDecodeWord_bytesField (by simp), natOfBytes_bytesOfNat,
    Nat.mod_eq_of_lt (by simpa using w.isLt), BitVec.ofNat_toNat, BitVec.setWidth_eq]

theorem rlpDecodeWord_addressField (a : Address) :
    ∃ w, rlpDecodeWord (addressField a) = .ok w ∧ a = wordToAddress w := by
  refine ⟨_, rlpDecodeWord_bytesField (by simp), ?_⟩
  have hlt := a.isLt
  apply BitVec.eq_of_toNat_eq
  rw [wordToAddress, BitVec.toNat_setWidth, BitVec.toNat_ofNat, addressBytes,
    natOfBytes_bytesOfNat]
  omega

/-- The items of a bounded list field are bounded. -/
theorem length_item_le {f : RlpFieldRef} {n : Nat} {v : Vector RlpFieldRef n}
    (hlen : f.source.length ≤ scratchRegionBound) (hv : Fields (rlpItemContent f) v.toList)
    {g : RlpFieldRef} (hg : g ∈ v.toList) : g.source.length ≤ scratchRegionBound := by
  have hle := hv.length_le hg
  rw [length_rlpItemContent] at hle
  exact (hle.trans f.content_le).trans hlen

theorem tightAccessEntry_iff {f : RlpFieldRef} {e : AccessEntry}
    (hlen : f.source.length ≤ scratchRegionBound) (h : readAccessEntry f = .ok e) :
    TightAccessEntry f ↔ f = e.field := by
  obtain ⟨hkind, v, hv, ⟨w, hw, haddr⟩, hkind', hkeys⟩ := readAccessEntry_eq_ok.mp h
  have htwo : v.toList = [entryAddress v, entryKeys v] := vector_toList_eq v
  have hbound : ∀ g ∈ v.toList, g.source.length ≤ scratchRegionBound := by
    intro g hg
    exact length_item_le hlen hv hg
  rw [htwo, List.forall_mem_cons, List.forall_mem_singleton] at hbound
  have hcanon : ∀ g ∈ [addressField e.address, listOf (e.keys.map wordField)], g.Canonical :=
    List.forall_mem_cons.mpr ⟨canonical_addressField _,
      List.forall_mem_singleton.mpr (canonical_listOf _)⟩
  rw [TightAccessEntry, tightTuple_iff hlen hkind hv, AccessEntry.field, listOf_iff hlen hv hcanon,
    htwo, tightAddress_iff hbound.1 hw, ← haddr,
    tightList_iff (fun g a hg ha => tightBytes_iff hg ha) canonical_wordField hbound.2 hkind' hkeys]
  refine and_congr_right' ?_
  simp only [List.cons.injEq, and_true]
  rfl

theorem readAccessEntry_field {e : AccessEntry}
    (hlen : e.field.source.length ≤ scratchRegionBound) :
    readAccessEntry e.field = .ok e := by
  have hcanon : ∀ g ∈ [addressField e.address, listOf (e.keys.map wordField)], g.Canonical :=
    List.forall_mem_cons.mpr ⟨canonical_addressField _,
      List.forall_mem_singleton.mpr (canonical_listOf _)⟩
  have hfields := fields_listOf hcanon ((length_sourcesOf_le _).trans hlen)
  have hlist : (sourcesOf (e.keys.map wordField)).length ≤ scratchRegionBound :=
    (length_sourcesOf_le _).trans ((length_source_le (List.mem_cons_of_mem _
      List.mem_cons_self)).trans ((length_sourcesOf_le _).trans hlen))
  refine readAccessEntry_eq_ok.mpr ⟨rfl, #v[addressField e.address, listOf (e.keys.map wordField)],
    ?_, rlpDecodeWord_addressField e.address, rfl, ?_⟩
  · rw [AccessEntry.field, rlpItemContent_listOf]
    exact hfields
  · have hkeys := (readSpan_listOf e.keys (fun w _ => rlpDecodeWord_wordField w) canonical_wordField
      hlist).2
    rwa [← rlpItemContent_listOf] at hkeys

theorem rlpDecodeUint64_eq_uint64 {f : RlpFieldRef} {n : Nat}
    (hlen : f.source.length ≤ scratchRegionBound) (h : rlpDecodeUint64 f = .ok n) :
    n < 2 ^ 64 ∧ f = uintField (BitVec.ofNat 64 n).toNat := by
  obtain ⟨hn, hf⟩ := (rlpDecodeUint64_eq_ok (f.content_le.trans hlen)).mp h
  rw [BitVec.toNat_ofNat, Nat.mod_eq_of_lt hn]
  exact ⟨hn, hf⟩

theorem rlpDecodeUint64_uintField (n : BitVec 64)
    (hlen : (uintField n.toNat).source.length ≤ scratchRegionBound) :
    rlpDecodeUint64 (uintField n.toNat) = .ok n.toNat :=
  (rlpDecodeUint64_eq_ok ((uintField n.toNat).content_le.trans hlen)).mpr ⟨n.isLt, rfl⟩

/-- The six fields of a tuple in order. -/
def AuthTupleRefs.toList (r : AuthTupleRefs) : List RlpFieldRef :=
  [r.chainId, r.address, r.nonce, r.yParity, r.r, r.s]

theorem toList_authTupleRefs (v : Vector RlpFieldRef 6) :
    v.toList = (authTupleRefs v).toList := vector_toList_eq v

theorem authTupleRefs_bounded {f : RlpFieldRef} {v : Vector RlpFieldRef 6}
    (hlen : f.source.length ≤ scratchRegionBound) (hv : Fields (rlpItemContent f) v.toList) :
    (authTupleRefs v).chainId.source.length ≤ scratchRegionBound ∧
    (authTupleRefs v).address.source.length ≤ scratchRegionBound ∧
    (authTupleRefs v).nonce.source.length ≤ scratchRegionBound ∧
    (authTupleRefs v).yParity.source.length ≤ scratchRegionBound ∧
    (authTupleRefs v).r.source.length ≤ scratchRegionBound ∧
    (authTupleRefs v).s.source.length ≤ scratchRegionBound := by
  have hall : ∀ g ∈ (authTupleRefs v).toList, g.source.length ≤ scratchRegionBound := by
    rw [← toList_authTupleRefs]
    intro g hg
    exact length_item_le hlen hv hg
  simpa [AuthTupleRefs.toList] using hall

/-- The six fields of a tuple, and which words they are. -/
def IsAuthTuple (v : Vector RlpFieldRef 6) (t : AuthTuple) : Prop :=
  (authTupleRefs v).chainId = uintField t.chainId.toNat ∧
    (∃ w, rlpDecodeWord (authTupleRefs v).address = .ok w ∧ t.address = wordToAddress w) ∧
    (authTupleRefs v).nonce = uintField t.nonce.toNat ∧
    (authTupleRefs v).yParity = uintField t.yParity.toNat ∧
    (authTupleRefs v).r = uintField t.r.toNat ∧ (authTupleRefs v).s = uintField t.s.toNat

theorem readAuthTuple_eq_ok {f : RlpFieldRef} {t : AuthTuple}
    (hlen : f.source.length ≤ scratchRegionBound) :
    readAuthTuple f = .ok t ↔ f.isList = true ∧ ∃ v : Vector RlpFieldRef 6,
      Fields (rlpItemContent f) v.toList ∧ IsAuthTuple v t := by
  constructor
  · intro h
    obtain ⟨c, hc, h₁⟩ := bind_eq_ok.mp h
    obtain ⟨v, hv, h₂⟩ := bind_eq_ok.mp h₁
    obtain ⟨y, hy, h₃⟩ := bind_eq_ok.mp h₂
    obtain ⟨chainId, hchain, h₄⟩ := bind_eq_ok.mp h₃
    obtain ⟨nonce, hnonce, h₅⟩ := bind_eq_ok.mp h₄
    obtain ⟨r, hr, h₆⟩ := bind_eq_ok.mp h₅
    obtain ⟨s, hs, h₇⟩ := bind_eq_ok.mp h₆
    obtain ⟨w, hw, h₈⟩ := bind_eq_ok.mp h₇
    obtain rfl := Except.ok.inj h₈
    obtain ⟨hkind, rfl⟩ := rlpDecodeList_eq_ok.mp hc
    have hfields := rlpTakeFields_eq_ok.mp hv
    obtain ⟨h₀, _, h₂, h₃, h₄, h₅⟩ := authTupleRefs_bounded hlen hfields
    exact ⟨hkind, v, hfields, rlpDecodeU256_eq_uint h₀ hchain, ⟨w, hw, rfl⟩,
      (rlpDecodeUint64_eq_uint64 h₂ hnonce).2, (rlpDecodeUint64_eq_uint64 h₃ hy).2,
      rlpDecodeU256_eq_uint h₄ hr, rlpDecodeU256_eq_uint h₅ hs⟩
  · rintro ⟨hkind, v, hv, hchain, ⟨w, hw, haddr⟩, hnonce, hy, hr, hs⟩
    obtain ⟨h₀, _, h₂, h₃, h₄, h₅⟩ := authTupleRefs_bounded hlen hv
    rw [hchain] at h₀
    rw [hnonce] at h₂
    rw [hy] at h₃
    rw [hr] at h₄
    rw [hs] at h₅
    rw [readAuthTuple, rlpDecodeList_eq_ok.mpr ⟨hkind, rfl⟩, ok_bind, rlpTakeFields_eq_ok.mpr hv,
      ok_bind, hy, rlpDecodeUint64_uintField _ h₃, ok_bind, hchain, rlpDecodeU256_uintField _ h₀,
      ok_bind, hnonce, rlpDecodeUint64_uintField _ h₂, ok_bind, hr, rlpDecodeU256_uintField _ h₄,
      ok_bind, hs, rlpDecodeU256_uintField _ h₅, ok_bind, hw, ok_bind]
    simp only [BitVec.ofNat_toNat, BitVec.setWidth_eq, ← haddr]

/-- The canonical fields of a tuple. -/
def AuthTuple.items (t : AuthTuple) : List RlpFieldRef :=
  [uintField t.chainId.toNat, addressField t.address, uintField t.nonce.toNat,
    uintField t.yParity.toNat, uintField t.r.toNat, uintField t.s.toNat]

theorem canonical_authItems (t : AuthTuple) : ∀ g ∈ t.items, g.Canonical := by
  intro g hg
  simp only [AuthTuple.items, List.mem_cons, List.not_mem_nil, or_false] at hg
  rcases hg with rfl | rfl | rfl | rfl | rfl | rfl <;> exact canonical_bytesField _

theorem tightAuthTuple_iff {f : RlpFieldRef} {t : AuthTuple}
    (hlen : f.source.length ≤ scratchRegionBound) (h : readAuthTuple f = .ok t) :
    TightAuthTuple f ↔ f = t.field := by
  obtain ⟨hkind, v, hv, hchain, ⟨w, hw, haddr⟩, hnonce, hy, hr, hs⟩ :=
    (readAuthTuple_eq_ok hlen).mp h
  have hsix : v.toList = (authTupleRefs v).toList := toList_authTupleRefs v
  obtain ⟨_, hone, _⟩ := authTupleRefs_bounded hlen hv
  have hfield : t.field = listOf t.items := rfl
  rw [TightAuthTuple, tightTuple_iff hlen hkind hv, hfield,
    listOf_iff hlen hv (canonical_authItems t), hsix, AuthTupleRefs.toList,
    AuthTuple.items, tightAddress_iff hone hw,
    ← haddr, ← hchain, ← hnonce, ← hy, ← hr, ← hs]
  refine and_congr_right' ?_
  simp only [List.cons.injEq, and_true, true_and]

theorem readAuthTuple_field {t : AuthTuple}
    (hlen : t.field.source.length ≤ scratchRegionBound) : readAuthTuple t.field = .ok t := by
  have hfields := fields_listOf (canonical_authItems t) ((length_sourcesOf_le _).trans hlen)
  refine (readAuthTuple_eq_ok hlen).mpr ⟨rfl, ⟨t.items.toArray, rfl⟩, ?_, rfl,
    rlpDecodeWord_addressField t.address, rfl, rfl, rfl, rfl⟩
  rw [AuthTuple.field, rlpItemContent_listOf]
  exact hfields

theorem length_rlpWriteUint {w : Nat} (hw : w < 2 ^ 256) :
    (rlpWriteUint w).length = rlpUintSize w := by
  rw [rlpWriteUint_eq, length_rlpBytes_bigEndian hw]

theorem length_rlpWriteListPrefix (n : Nat) :
    (rlpWriteListPrefix n).length = rlpLengthPrefixLen n := by
  rw [rlpWriteListPrefix_eq, length_rlpHeader]

theorem length_rlpWriteAddr (a : Address) : (rlpWriteAddr a).length = rlpAddrSize := by
  simp [rlpWriteAddr, rlpWriteStringPrefix, rlpAddrSize]

section Hashing

variable (keccak256 : List Byte → Hash)

/-- The authorization preimage has the announced length. -/
theorem authSigningHash_ok (chainId : Word) (addr : Address) {nonce : Nat} (hn : nonce < 2 ^ 64) :
    ∃ h, authSigningHash keccak256 chainId addr nonce = .ok h := by
  have hlen : ∀ n, ([0x05] ++ rlpWriteListPrefix n ++ rlpWriteUint chainId.toNat ++
      rlpWriteAddr addr ++ rlpWriteUint nonce).length = 1 + rlpLengthPrefixLen n +
        (rlpUintSize chainId.toNat + rlpAddrSize + rlpUintSize nonce) := by
    intro n
    simp only [List.length_append, length_rlpWriteListPrefix, length_rlpWriteAddr,
      length_rlpWriteUint chainId.isLt, length_rlpWriteUint (hn.trans (by norm_num)),
      List.length_singleton]
    omega
  rw [authSigningHash, rlpEncoderFinish_ok, ok_bind]
  · exact ⟨_, rfl⟩
  · rw [hlen, rlpListSize, Nat.add_assoc]

/-- The transaction preimage has the announced length. -/
theorem txSigningHash_ok (t : TxType) {contentSrc : List Byte} (v : Word)
    (hlen : contentSrc.length ≤ transactionLengthBound) :
    ∃ h, txSigningHash keccak256 t contentSrc v = .ok h := by
  rw [txSigningHash]
  simp only
  rw [if_pos hlen, rlpEncoderFinish_ok, ok_bind]
  · exact ⟨_, rfl⟩
  · generalize (txEnvelopeType t == 0x00 && decide (35 ≤ v)) = eip155
    simp only [List.length_append, length_rlpWriteListPrefix]
    cases eip155 with
    | true =>
      simp only [if_true, List.length_append, length_rlpWriteUint (legacySigChainId v).isLt,
        List.length_cons, List.length_nil]
      split <;> simp <;> omega
    | false =>
      simp only [Bool.false_eq_true, if_false, List.length_nil]
      split <;> simp

/-- A tuple is prepared exactly when it can be read. -/
theorem decodeAuthorization_ok_iff (ecrecover : Hash → Fin 2 → Word → Word → AddressResult)
    {f : RlpFieldRef} (hlen : f.source.length ≤ scratchRegionBound) :
    (∃ a, decodeAuthorization keccak256 ecrecover f = .ok a) ↔ ∃ t, readAuthTuple f = .ok t := by
  constructor
  · rintro ⟨a, h⟩
    obtain ⟨c, hc, h₁⟩ := bind_eq_ok.mp h
    obtain ⟨v, hv, h₂⟩ := bind_eq_ok.mp h₁
    obtain ⟨y, hy, h₃⟩ := bind_eq_ok.mp h₂
    obtain ⟨chainId, hchain, h₄⟩ := bind_eq_ok.mp h₃
    obtain ⟨nonce, hnonce, h₅⟩ := bind_eq_ok.mp h₄
    obtain ⟨r, hr, h₆⟩ := bind_eq_ok.mp h₅
    obtain ⟨s, hs, h₇⟩ := bind_eq_ok.mp h₆
    obtain ⟨w, hw, _⟩ := bind_eq_ok.mp h₇
    obtain ⟨parity, hparity, _⟩ := bind_eq_ok.mp hy
    refine ⟨⟨chainId, wordToAddress w, .ofNat 64 nonce, .ofNat 64 parity, r, s⟩, ?_⟩
    rw [readAuthTuple, hc, ok_bind, hv, ok_bind, hparity, ok_bind, hchain, ok_bind, hnonce,
      ok_bind, hr, ok_bind, hs, ok_bind, hw, ok_bind]
  · rintro ⟨t, h⟩
    obtain ⟨c, hc, h₁⟩ := bind_eq_ok.mp h
    obtain ⟨v, hv, h₂⟩ := bind_eq_ok.mp h₁
    obtain ⟨parity, hparity, h₃⟩ := bind_eq_ok.mp h₂
    obtain ⟨chainId, hchain, h₄⟩ := bind_eq_ok.mp h₃
    obtain ⟨nonce, hnonce, h₅⟩ := bind_eq_ok.mp h₄
    obtain ⟨r, hr, h₆⟩ := bind_eq_ok.mp h₅
    obtain ⟨s, hs, h₇⟩ := bind_eq_ok.mp h₆
    obtain ⟨w, hw, _⟩ := bind_eq_ok.mp h₇
    obtain ⟨_, rfl⟩ := rlpDecodeList_eq_ok.mp hc
    obtain ⟨_, _, hbound, _⟩ := authTupleRefs_bounded hlen (rlpTakeFields_eq_ok.mp hv)
    obtain ⟨hash, hhash⟩ := authSigningHash_ok keccak256 chainId (wordToAddress w)
      (rlpDecodeUint64_eq_uint64 hbound hnonce).1
    have hy : ∃ y, rlpDecodeBool (authTupleRefs v).yParity = .ok y := by
      rw [rlpDecodeBool, hparity, ok_bind]
      split <;> exact ⟨_, rfl⟩
    obtain ⟨y, hy⟩ := hy
    rw [decodeAuthorization, hc, ok_bind, hv, ok_bind, hy, ok_bind, hchain, ok_bind, hnonce,
      ok_bind, hr, ok_bind, hs, ok_bind, hw, ok_bind]
    simp only
    rw [hhash, ok_bind]
    exact ⟨_, rfl⟩

end Hashing

/-! ## The walkers -/

theorem decodeAccessListKeys_eq_ok {c : List Byte} {tail result : AccessListDecode} :
    decodeAccessListKeys c tail = .ok result ↔ ∃ ws, readSpan rlpDecodeWord c = .ok ws ∧
      result = ⟨tail.addressCount, tail.slotCount + ws.length⟩ := by
  refine walk_readSpan_iff (W := decodeAccessListKeys)
    (Q := fun ws (tail result : AccessListDecode) =>
      result = ⟨tail.addressCount, tail.slotCount + ws.length⟩) ?_ ?_ ?_
  · intro tail result
    rw [decodeAccessListKeys, if_pos List.length_nil]
    constructor
    · intro h
      exact (Except.ok.inj h).symm
    · rintro rfl
      rfl
  · intro c tail result hc h
    rw [decodeAccessListKeys, if_neg (by simpa using hc)] at h
    obtain ⟨⟨f, next⟩, htake, h₁⟩ := bind_eq_ok.mp h
    obtain ⟨_, _, h₂⟩ := bind_eq_ok.mp h₁
    obtain ⟨rest, hnext, _⟩ := bind_eq_ok.mp h₂
    obtain ⟨hf, hcat⟩ := rlpTakeItem_eq_ok htake
    exact ⟨f, next.val, hf, hcat, tail, rest, hnext⟩
  · intro f rest P hf ih tail result
    obtain ⟨hlt, htake⟩ := rlpTakeItem_append hf rest
    rw [decodeAccessListKeys, if_neg (by simp [hf.source_ne_nil]), htake, ok_bind]
    simp only
    constructor
    · intro h
      obtain ⟨w, hw, h₁⟩ := bind_eq_ok.mp h
      obtain ⟨inner, hinner, h₂⟩ := bind_eq_ok.mp h₁
      obtain ⟨ws, hws, rfl⟩ := (ih tail inner).mp hinner
      exact ⟨w, ws, hw, hws, (Except.ok.inj h₂).symm⟩
    · rintro ⟨w, ws, hw, hws, rfl⟩
      rw [hw, ok_bind, (ih tail _).mpr ⟨ws, hws, rfl⟩, ok_bind]
      rfl

/-- The counts of a decoded access list. -/
def countsOf (es : List AccessEntry) : AccessListDecode :=
  ⟨es.length, (es.map fun e => e.keys.length).sum⟩

theorem decodeAccessListEntries_eq_ok {c : List Byte} {result : AccessListDecode} :
    decodeAccessListEntries c = .ok result ↔
      ∃ es, readSpan readAccessEntry c = .ok es ∧ result = countsOf es := by
  refine walk_readSpan_iff (W := fun c (_ : Unit) => decodeAccessListEntries c)
    (Q := fun es _ (result : AccessListDecode) => result = countsOf es) (s := ()) ?_ ?_ ?_
  · intro _ result
    rw [decodeAccessListEntries, if_pos List.length_nil]
    constructor
    · intro h
      exact (Except.ok.inj h).symm
    · rintro rfl
      rfl
  · intro c _ result hc h
    rw [decodeAccessListEntries, if_neg (by simpa using hc)] at h
    obtain ⟨⟨f, next⟩, htake, h₁⟩ := bind_eq_ok.mp h
    obtain ⟨_, _, h₂⟩ := bind_eq_ok.mp h₁
    obtain ⟨_, _, h₃⟩ := bind_eq_ok.mp h₂
    obtain ⟨_, _, h₄⟩ := bind_eq_ok.mp h₃
    obtain ⟨rest, hnext, _⟩ := bind_eq_ok.mp h₄
    obtain ⟨hf, hcat⟩ := rlpTakeItem_eq_ok htake
    exact ⟨f, next.val, hf, hcat, (), rest, hnext⟩
  · intro f rest P hf ih _ result
    obtain ⟨hlt, htake⟩ := rlpTakeItem_append hf rest
    rw [decodeAccessListEntries, if_neg (by simp [hf.source_ne_nil]), htake, ok_bind]
    simp only
    constructor
    · intro h
      obtain ⟨c', hc', h₁⟩ := bind_eq_ok.mp h
      obtain ⟨v, hv, h₂⟩ := bind_eq_ok.mp h₁
      obtain ⟨w, hw, h₃⟩ := bind_eq_ok.mp h₂
      obtain ⟨tail, htail, h₄⟩ := bind_eq_ok.mp h₃
      obtain ⟨ks, hks, h₅⟩ := bind_eq_ok.mp h₄
      obtain ⟨inner, hinner, h₆⟩ := bind_eq_ok.mp h₅
      obtain ⟨es, hes, rfl⟩ := (ih () tail).mp htail
      obtain ⟨ws, hws, rfl⟩ := decodeAccessListKeys_eq_ok.mp hinner
      obtain ⟨hkind, rfl⟩ := rlpDecodeList_eq_ok.mp hc'
      obtain ⟨hkind', rfl⟩ := rlpDecodeList_eq_ok.mp hks
      obtain rfl := Except.ok.inj h₆
      refine ⟨⟨wordToAddress w, ws⟩, es, ?_, hes, ?_⟩
      · exact readAccessEntry_eq_ok.mpr
          ⟨hkind, v, rlpTakeFields_eq_ok.mp hv, ⟨w, hw, rfl⟩, hkind', hws⟩
      · simp [countsOf, Nat.add_comm]
    · rintro ⟨e, es, hentry, hes, rfl⟩
      obtain ⟨hkind, v, hv, ⟨w, hw, _⟩, hkind', hkeys⟩ := readAccessEntry_eq_ok.mp hentry
      rw [rlpDecodeList_eq_ok.mpr ⟨hkind, rfl⟩, ok_bind, rlpTakeFields_eq_ok.mpr hv, ok_bind,
        hw, ok_bind, (ih () _).mpr ⟨_, hes, rfl⟩, ok_bind,
        rlpDecodeList_eq_ok.mpr ⟨hkind', rfl⟩, ok_bind,
        decodeAccessListKeys_eq_ok.mpr ⟨_, hkeys, rfl⟩, ok_bind]
      simp [countsOf, Nat.add_comm]

theorem decodeAccessList_eq_ok {f : RlpFieldRef} {result : AccessListRef}
    (hlen : f.source.length ≤ transactionLengthBound) :
    decodeAccessList f = .ok result ↔ f.isList = true ∧
      ∃ es, readSpan readAccessEntry (rlpItemContent f) = .ok es ∧
        result = ⟨rlpItemContent f, (countsOf es).addressCount, (countsOf es).slotCount⟩ := by
  rw [decodeAccessList, if_pos hlen]
  constructor
  · intro h
    obtain ⟨c, hc, h₁⟩ := bind_eq_ok.mp h
    obtain ⟨decoded, hdecoded, h₂⟩ := bind_eq_ok.mp h₁
    obtain ⟨hkind, rfl⟩ := rlpDecodeList_eq_ok.mp hc
    obtain ⟨es, hes, rfl⟩ := decodeAccessListEntries_eq_ok.mp hdecoded
    exact ⟨hkind, es, hes, (Except.ok.inj h₂).symm⟩
  · rintro ⟨hkind, es, hes, rfl⟩
    rw [rlpDecodeList_eq_ok.mpr ⟨hkind, rfl⟩, ok_bind,
      decodeAccessListEntries_eq_ok.mpr ⟨es, hes, rfl⟩, ok_bind]
    rfl

/-- The canonical encoding of a list of entries is accepted. -/
theorem decodeAccessList_listOf {es : List AccessEntry}
    (hlen : (listOf (es.map AccessEntry.field)).source.length ≤ transactionLengthBound) :
    decodeAccessList (listOf (es.map AccessEntry.field)) =
      .ok ⟨sourcesOf (es.map AccessEntry.field), (countsOf es).addressCount,
        (countsOf es).slotCount⟩ := by
  have hspan := (readSpan_listOf es (fun e he => readAccessEntry_field he)
    (fun e => canonical_listOf _)
    ((length_sourcesOf_le _).trans (hlen.trans transactionLengthBound_le))).2
  rw [← rlpItemContent_listOf] at hspan ⊢
  exact (decodeAccessList_eq_ok hlen).mpr ⟨rfl, es, hspan, rfl⟩

/-- The walkers that check every item and count it, up to a limit. -/
theorem countItems_eq_ok {W : List Byte → Nat → Result Nat} {visit : RlpFieldRef → Result Unit}
    {limit : Nat} (hnil : ∀ count, W [] count = .ok count)
    (hcons : ∀ c count, c ≠ [] → W c count = rlpTakeItem c >>= fun item =>
      visit item.1 >>= fun _ =>
        if count < limit then W item.2.val (count + 1) else fatalError .rlpDecode)
    {c : List Byte} {count result : Nat} (hcount : count ≤ limit) :
    W c count = .ok result ↔ ∃ fs, Fields c fs ∧ (∀ f ∈ fs, visit f = .ok ()) ∧
      result = count + fs.length ∧ result ≤ limit := by
  have hwalk : W c count = .ok result ↔ ∃ fs, Fields c fs ∧ (fs = [] ∧ result = count ∨
      (∀ f ∈ fs, visit f = .ok ()) ∧ result = count + fs.length ∧ result ≤ limit) := by
    refine walk_iff (W := W) (R := fun fs (count result : Nat) => fs = [] ∧ result = count ∨
      (∀ f ∈ fs, visit f = .ok ()) ∧ result = count + fs.length ∧ result ≤ limit) ?_ ?_ ?_
    · intro count result
      rw [hnil]
      constructor
      · intro h
        exact Or.inl ⟨rfl, (Except.ok.inj h).symm⟩
      · rintro (⟨_, rfl⟩ | ⟨_, rfl, _⟩) <;> rfl
    · intro c count result hc h
      rw [hcons c count hc] at h
      obtain ⟨item, htake, h₁⟩ := bind_eq_ok.mp h
      obtain ⟨_, _, h₂⟩ := bind_eq_ok.mp h₁
      obtain ⟨hf, hcat⟩ := rlpTakeItem_eq_ok htake
      split at h₂
      · exact ⟨item.1, item.2.val, hf, hcat, _, _, h₂⟩
      · cases h₂
    · intro f rest fs hf ih count result
      obtain ⟨hlt, htake⟩ := rlpTakeItem_append hf rest
      rw [hcons _ count (by simp [hf.source_ne_nil]), htake, ok_bind]
      constructor
      · intro h
        obtain ⟨_, hvisit, h₁⟩ := bind_eq_ok.mp h
        split at h₁
        · rename_i hroom
          refine Or.inr ?_
          rcases (ih _ _).mp h₁ with ⟨rfl, rfl⟩ | ⟨hall, hlen, hle⟩
          · exact ⟨by simpa using hvisit, rfl, hroom⟩
          · refine ⟨List.forall_mem_cons.mpr ⟨hvisit, hall⟩, ?_, hle⟩
            rw [hlen, List.length_cons]
            omega
        · cases h₁
      · rintro (⟨hnil, _⟩ | ⟨hall, hlen, hle⟩)
        · cases hnil
        · obtain ⟨hvisit, hrest⟩ := List.forall_mem_cons.mp hall
          rw [List.length_cons] at hlen
          rw [hvisit, ok_bind, if_pos (by omega)]
          exact (ih _ _).mpr (Or.inr ⟨hrest, by omega, hle⟩)
  rw [hwalk]
  constructor
  · rintro ⟨fs, hfs, ⟨rfl, rfl⟩ | h⟩
    · exact ⟨[], hfs, by simp, rfl, hcount⟩
    · exact ⟨fs, hfs, h⟩
  · rintro ⟨fs, hfs, h⟩
    exact ⟨fs, hfs, Or.inr h⟩

theorem decodeBlobHashes_eq_ok {f : RlpFieldRef} {limit : Nat} {result : BlobHashes} :
    decodeBlobHashes f limit = .ok result ↔ f.isList = true ∧ ∃ fs, Fields (rlpItemContent f) fs ∧
      (∀ g ∈ fs, blobHashItem g = .ok ()) ∧ fs.length ≤ limit ∧
      result = ⟨rlpItemContent f, fs.length⟩ := by
  have hitems : ∀ c n, decodeBlobHashItems c limit 0 = .ok n ↔ ∃ fs, Fields c fs ∧
      (∀ g ∈ fs, blobHashItem g = .ok ()) ∧ n = 0 + fs.length ∧ n ≤ limit := by
    intro c n
    refine countItems_eq_ok (W := fun c count => decodeBlobHashItems c limit count) ?_ ?_
      (Nat.zero_le limit)
    · intro count
      rw [decodeBlobHashItems, if_pos List.length_nil]
    · intro c count hc
      rw [decodeBlobHashItems, if_neg (by simpa using hc)]
  rw [decodeBlobHashes]
  constructor
  · intro h
    obtain ⟨c, hc, h₁⟩ := bind_eq_ok.mp h
    obtain ⟨n, hn, h₂⟩ := bind_eq_ok.mp h₁
    obtain ⟨hkind, rfl⟩ := rlpDecodeList_eq_ok.mp hc
    obtain ⟨fs, hfs, hall, hlen, hle⟩ := (hitems _ n).mp hn
    rw [Nat.zero_add] at hlen
    obtain rfl := Except.ok.inj h₂
    exact ⟨hkind, fs, hfs, hall, hlen ▸ hle, by rw [hlen]; rfl⟩
  · rintro ⟨hkind, fs, hfs, hall, hle, rfl⟩
    rw [rlpDecodeList_eq_ok.mpr ⟨hkind, rfl⟩, ok_bind,
      (hitems _ _).mpr ⟨fs, hfs, hall, (Nat.zero_add _).symm, hle⟩, ok_bind]
    rfl

theorem decodeAuthList_eq_ok {f : RlpFieldRef} {result : AuthorizationListRef}
    (hlen : f.source.length ≤ transactionLengthBound) :
    decodeAuthList f = .ok result ↔ f.isList = true ∧ ∃ fs, Fields (rlpItemContent f) fs ∧
      (∀ g ∈ fs, g.isList = true) ∧ fs.length ≤ transactionLengthBound ∧
      result = ⟨rlpItemContent f, fs.length⟩ := by
  have hitems : ∀ c n, validateAuthTuples c 0 = .ok n ↔ ∃ fs, Fields c fs ∧
      (∀ g ∈ fs, (rlpDecodeList g >>= fun _ => .ok ()) = .ok ()) ∧ n = 0 + fs.length ∧
      n ≤ transactionLengthBound := by
    intro c n
    refine countItems_eq_ok (W := validateAuthTuples) ?_ ?_ (Nat.zero_le _)
    · intro count
      rw [validateAuthTuples, if_pos List.length_nil]
    · intro c count hc
      rw [validateAuthTuples, if_neg (by simpa using hc)]
      refine congrArg _ (funext fun item => ?_)
      rw [bind_assoc_except]
      rfl
  have hlist : ∀ g : RlpFieldRef, (rlpDecodeList g >>= fun _ => (.ok () : Result Unit)) = .ok () ↔
      g.isList = true := by
    intro g
    rw [bind_eq_ok]
    constructor
    · rintro ⟨c, hc, _⟩
      exact (rlpDecodeList_eq_ok.mp hc).1
    · intro hg
      exact ⟨_, rlpDecodeList_eq_ok.mpr ⟨hg, rfl⟩, rfl⟩
  rw [decodeAuthList, if_pos hlen]
  constructor
  · intro h
    obtain ⟨c, hc, h₁⟩ := bind_eq_ok.mp h
    obtain ⟨n, hn, h₂⟩ := bind_eq_ok.mp h₁
    obtain ⟨hkind, rfl⟩ := rlpDecodeList_eq_ok.mp hc
    obtain ⟨fs, hfs, hall, hcount, hle⟩ := (hitems _ n).mp hn
    rw [Nat.zero_add] at hcount
    obtain rfl := Except.ok.inj h₂
    exact ⟨hkind, fs, hfs, fun g hg => (hlist g).mp (hall g hg), hcount ▸ hle,
      by rw [hcount]; rfl⟩
  · rintro ⟨hkind, fs, hfs, hall, hle, rfl⟩
    rw [rlpDecodeList_eq_ok.mpr ⟨hkind, rfl⟩, ok_bind,
      (hitems _ _).mpr ⟨fs, hfs, fun g hg => (hlist g).mpr (hall g hg), (Nat.zero_add _).symm,
        hle⟩, ok_bind]
    rfl

section Recovery

variable (keccak256 : List Byte → Hash)
  (ecrecover : Hash → Fin 2 → Word → Word → AddressResult)

theorem prepareAuthorizationEntries_ok_iff {c : List Byte} {n : Nat} :
    (∃ l, prepareAuthorizationEntries keccak256 ecrecover c n = .ok l) ↔
      ∃ fs, Fields c fs ∧ fs.length = n ∧
        ∀ f ∈ fs, ∃ a, decodeAuthorization keccak256 ecrecover f = .ok a := by
  induction n generalizing c with
  | zero =>
    rw [prepareAuthorizationEntries]
    constructor
    · rintro ⟨l, h⟩
      split at h
      · cases h
      · rename_i hc
        rw [not_not] at hc
        rw [List.eq_nil_of_length_eq_zero hc]
        exact ⟨[], Fields.nil, rfl, by simp⟩
    · rintro ⟨fs, hfs, hlen, _⟩
      rw [List.eq_nil_of_length_eq_zero hlen] at hfs
      rw [show c = [] from hfs.bytes]
      exact ⟨[], rfl⟩
  | succ n ih =>
    rw [prepareAuthorizationEntries]
    constructor
    · rintro ⟨l, h⟩
      split at h
      · cases h
      obtain ⟨f, hitem, h₁⟩ := bind_eq_ok.mp h
      obtain ⟨a, ha, h₂⟩ := bind_eq_ok.mp h₁
      obtain ⟨rest, hrest, _⟩ := bind_eq_ok.mp h₂
      obtain ⟨hf, next, rfl⟩ := rlpDecodeItem_announced hitem
      rw [rlpCursorAdvance_append] at hrest
      obtain ⟨fs, hfs, hlen, hall⟩ := ih.mp ⟨rest, hrest⟩
      exact ⟨f :: fs, hfs.cons hf, by rw [List.length_cons, hlen],
        List.forall_mem_cons.mpr ⟨⟨a, ha⟩, hall⟩⟩
    · rintro ⟨fs, hfs, hlen, hall⟩
      obtain ⟨f, gs, rfl⟩ := List.exists_cons_of_length_pos (show 0 < fs.length by omega)
      obtain ⟨hf, rfl, hgs⟩ := hfs.tail
      obtain ⟨⟨a, ha⟩, hrest⟩ := List.forall_mem_cons.mp hall
      rw [List.length_cons] at hlen
      obtain ⟨l, hl⟩ := ih.mpr ⟨gs, hgs, by omega, hrest⟩
      rw [if_neg (by simp [hf.source_ne_nil]), hf.decode, ok_bind, ha, ok_bind,
        rlpCursorAdvance_append, hl, ok_bind]
      exact ⟨_, rfl⟩

/-- An authorization list is prepared exactly when its tuples can be read
and there are as many as announced, within the bound. -/
theorem prepareAuthorizations_ok_iff {authorizations : AuthorizationListRef}
    (hlen : authorizations.encoded.length ≤ scratchRegionBound) :
    (∃ l, prepareAuthorizations keccak256 ecrecover authorizations = .ok l) ↔
      authorizations.count ≤ preparedAuthorizationCountBound ∧
        ∃ ts, readSpan readAuthTuple authorizations.encoded = .ok ts ∧
          ts.length = authorizations.count := by
  have hread : ∀ fs, Fields authorizations.encoded fs →
      ((∀ f ∈ fs, ∃ a, decodeAuthorization keccak256 ecrecover f = .ok a) ↔
        ∃ ts, List.Forall₂ (fun f t => readAuthTuple f = .ok t) fs ts) := by
    intro fs hfs
    have hbound : ∀ f ∈ fs, f.source.length ≤ scratchRegionBound := by
      intro f hf
      exact (hfs.length_le hf).trans hlen
    clear hfs
    induction fs with
    | nil => exact ⟨fun _ => ⟨[], .nil⟩, fun _ => by simp⟩
    | cons f fs ih =>
      obtain ⟨hf, hrest⟩ := List.forall_mem_cons.mp hbound
      rw [List.forall_mem_cons]
      constructor
      · rintro ⟨ha, hall⟩
        obtain ⟨t, ht⟩ := (decodeAuthorization_ok_iff keccak256 ecrecover hf).mp ha
        obtain ⟨ts, hts⟩ := (ih hrest).mp hall
        exact ⟨t :: ts, .cons ht hts⟩
      · rintro ⟨ts, hts⟩
        cases hts with
        | cons ht hts =>
          exact ⟨(decodeAuthorization_ok_iff keccak256 ecrecover hf).mpr ⟨_, ht⟩,
            (ih hrest).mpr ⟨_, hts⟩⟩
  rw [prepareAuthorizations]
  constructor
  · rintro ⟨l, h⟩
    split at h
    · rename_i hcount
      obtain ⟨entries, hentries, _⟩ := bind_eq_ok.mp h
      obtain ⟨fs, hfs, hfslen, hall⟩ :=
        (prepareAuthorizationEntries_ok_iff _ _).mp ⟨entries, hentries⟩
      obtain ⟨ts, hts⟩ := (hread fs hfs).mp hall
      exact ⟨hcount, ts, readSpan_eq_ok.mpr ⟨fs, hfs, hts⟩, hts.length_eq ▸ hfslen⟩
    · cases h
  · rintro ⟨hcount, ts, hts, htslen⟩
    obtain ⟨fs, hfs, hall⟩ := readSpan_eq_ok.mp hts
    obtain ⟨entries, hentries⟩ := (prepareAuthorizationEntries_ok_iff keccak256 ecrecover).mpr
      ⟨fs, hfs, hall.length_eq.trans htslen, (hread fs hfs).mpr ⟨ts, hall⟩⟩
    rw [if_pos hcount, hentries, ok_bind]
    exact ⟨_, rfl⟩

end Recovery

/-! ## Versioned hashes -/

/-- The field of a versioned hash. -/
def hashField (h : Hash) : RlpFieldRef := bytesField h.toList

theorem canonical_hashField (h : Hash) : (hashField h).Canonical := canonical_bytesField _

theorem readBlobHash_hashField (h : Hash) : readBlobHash (hashField h) = .ok h := by
  obtain ⟨w, hw, hback⟩ := rlpDecodeWord_hash h
  rw [readBlobHash, hashField, hw, ok_bind, hback]

theorem source_hashField (h : Hash) : (hashField h).source = 0xa0 :: h.toList := by
  have hns : ¬ SelfEncoded h.toList := by
    rintro ⟨x, hx, _⟩
    have hlen : h.toList.length = 32 := by simp
    rw [hx] at hlen
    cases hlen
  change rlpBytes h.toList = _
  rw [rlpBytes_of_not_selfEncoded hns, Vector.length_toList]
  rfl

/-- The items that the blob-hash walker lets pass are versioned hashes. -/
theorem blobHashItem_eq_ok {f : RlpFieldRef} :
    blobHashItem f = .ok () ↔ ∃ h : Hash, h.get 0 = 0x01 ∧ f = hashField h := by
  rw [blobHashItem]
  constructor
  · intro h
    split at h
    · cases h
    · rename_i hshape
      simp only [not_or, Bool.not_eq_true, not_not] at hshape
      obtain ⟨hkind, hsource, hcontent, hfirst⟩ := hshape
      split at h
      · cases h
      · rename_i hversion
        rw [not_not] at hversion
        obtain ⟨x, content, hcons⟩ := List.exists_cons_of_length_pos (l := f.source) (by omega)
        rw [hcons, List.length_cons] at hsource
        rw [hcons] at hfirst hversion
        have hx : x = 0xa0 := hfirst
        have hlen : content.length = 32 := by omega
        refine ⟨⟨content.toArray, by simpa using hlen⟩, ?_, ?_⟩
        · have hget : sliceByte (x :: content) 1 = content[0] := by
            rw [sliceByte, List.getElem?_cons_succ, List.getElem?_eq_getElem (by omega)]
            rfl
          rw [hget] at hversion
          simpa using hversion
        · refine RlpFieldRef.eq_of ?_ hkind ?_
          · rw [source_hashField, hcons, hx]
            rfl
          · rw [hcontent, hashField, contentLen_bytesField, Vector.length_toList]
  · rintro ⟨h, hversion, rfl⟩
    have hlen : h.toList.length = 32 := by simp
    rw [if_neg, if_neg]
    · rw [not_not, source_hashField, sliceByte, List.getElem?_cons_succ,
        List.getElem?_eq_getElem (by omega)]
      rw [Vector.getElem_toList]
      exact hversion
    · rw [source_hashField, hashField, contentLen_bytesField]
      simp only [List.length_cons, hlen, not_or, not_not]
      exact ⟨by simp [bytesField], trivial, trivial, rfl⟩

end EvmSail
