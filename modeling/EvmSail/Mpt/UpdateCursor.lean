/-
# `EvmSail.Mpt.UpdateCursor` — what a cursor holds

`pending` is the list of updates a cursor has still to consume, and
`CursorAt P` the invariant of a cursor handed to the walk of prefix `P`:
the pending keys are full, strictly ascending and not before `P`, and the
relation says correctly whether the first of them lies below `P`.  A
beyond-prefix relation is correct for every ancestor of `P` at once,
which is what lets `trieUpdatesRebase` decide at any of them without
comparing keys again.
-/
import EvmSail.Lib.PrefixOrder
import EvmSail.Mpt.Walker
import EvmSail.Mpt.Assembly

namespace EvmSail

open Fallible Radix

/-! ## Pending updates -/

/-- The updates a cursor has still to consume, the active one first. -/
def pending (u : TrieUpdateCursor) : List TrieUpdate :=
  match u.relation with
  | .updateSourceExhausted => []
  | _ => u.current :: u.source

/-- The update's key lies below the prefix. -/
abbrev Below (P : List Nibble) (s : TrieUpdate) : Prop := P <+: s.key.nibbles

/-- A put leaves room for the framing of its leaf. -/
def UpdateFits (s : TrieUpdate) : Prop := ∀ v, s.change = .triePut v → ValueFits v

/-- Strictly ascending full-length keys. -/
structure Ascending (S : List TrieUpdate) : Prop where
  sorted : S.Pairwise fun s s' => s.key.nibbles < s'.key.nibbles
  full : ∀ s ∈ S, s.key.nibbles.length = 64

theorem Ascending.tail {s : TrieUpdate} {S : List TrieUpdate} (h : Ascending (s :: S)) :
    Ascending S :=
  ⟨(List.pairwise_cons.mp h.sorted).2, fun s hs => h.full s (List.mem_cons_of_mem _ hs)⟩

theorem Ascending.filter {S : List TrieUpdate} (h : Ascending S) (p : TrieUpdate → Bool) :
    Ascending (S.filter p) :=
  ⟨h.sorted.filter p, fun s hs => h.full s (List.mem_of_mem_filter hs)⟩

/-- The relation of a cursor at the prefix `P`. -/
def RelationAt (P : List Nibble) (u : TrieUpdateCursor) : Prop :=
  match u.relation with
  | .updateUnderPrefix post => u.current.key.nibbles = P ++ post.nibbles
  | .updateBeyondPrefix c =>
    ¬ P <+: u.current.key.nibbles ∧
      ∀ n, n ≤ P.length → (n ≤ c ↔ P.take n <+: u.current.key.nibbles)
  | .updateSourceExhausted => u.source = []

/-- The invariant of a cursor at the prefix `P`. -/
structure CursorAt (P : List Nibble) (u : TrieUpdateCursor) : Prop where
  ascending : Ascending (pending u)
  fits : ∀ s ∈ pending u, UpdateFits s
  lower : ∀ s ∈ pending u, P ≤ s.key.nibbles
  relation : RelationAt P u

theorem CursorAt.under {P : List Nibble} {u : TrieUpdateCursor} (h : CursorAt P u)
    (hu : updateUnderCurrentPrefix u = true) :
    ∃ post, u.relation = .updateUnderPrefix post ∧ pending u = u.current :: u.source ∧
      u.current.key.nibbles = P ++ post.nibbles := by
  have hrel := h.relation
  unfold RelationAt at hrel
  unfold updateUnderCurrentPrefix at hu
  cases hr : u.relation with
  | updateUnderPrefix post =>
    rw [hr] at hrel
    exact ⟨post, rfl, by simp [pending, hr], hrel⟩
  | updateBeyondPrefix c =>
    rw [hr] at hu
    cases hu
  | updateSourceExhausted =>
    rw [hr] at hu
    cases hu

/-- When the active update is not below the prefix, no pending one is. -/
theorem CursorAt.not_below {P : List Nibble} {u : TrieUpdateCursor} (h : CursorAt P u)
    (hu : updateUnderCurrentPrefix u = false) : ∀ s ∈ pending u, ¬ Below P s := by
  have hrel := h.relation
  have hlow := h.lower
  have hasc := h.ascending.sorted
  unfold RelationAt at hrel
  unfold updateUnderCurrentPrefix at hu
  cases hr : u.relation with
  | updateUnderPrefix post =>
    rw [hr] at hu
    cases hu
  | updateBeyondPrefix c =>
    rw [hr] at hrel
    have hp : pending u = u.current :: u.source := by simp [pending, hr]
    rw [hp] at hlow hasc ⊢
    intro s hs
    rcases List.mem_cons.mp hs with rfl | hs
    · exact hrel.1
    · have hlt := (List.pairwise_cons.mp hasc).1 s hs
      exact fun hb => hrel.1 (prefix_of_le_of_lt (hlow _ (List.mem_cons_self ..)) hlt hb)
  | updateSourceExhausted =>
    have hp : pending u = [] := by simp [pending, hr]
    rw [hp]
    intro s hs
    cases hs

/-- Opening a cursor on an ascending stream. -/
theorem cursorAt_begin {U : List TrieUpdate} (h : Ascending U) (hf : ∀ s ∈ U, UpdateFits s) :
    CursorAt [] (trieUpdatesBegin U) ∧ pending (trieUpdatesBegin U) = U := by
  cases U with
  | nil =>
    have hp : pending (trieUpdatesBegin []) = [] := rfl
    exact ⟨⟨hp ▸ h, hp ▸ hf, by simp [hp], rfl⟩, hp⟩
  | cons s U =>
    have hp : pending (trieUpdatesBegin (s :: U)) = s :: U := rfl
    exact ⟨⟨hp ▸ h, hp ▸ hf, fun s _ => le_of_isPrefix List.nil_prefix, rfl⟩, hp⟩

theorem updatesEmpty_begin (U : List TrieUpdate) :
    updatesEmpty (trieUpdatesBegin U) = decide (U = []) := by
  cases U <;> rfl

/-! ## Child edges -/

/-- Below a proper prefix the active update has a child nibble, and moving
the cursor through that edge keeps it in place. -/
theorem CursorAt.descend {P : List Nibble} {u : TrieUpdateCursor} (h : CursorAt P u)
    (hu : updateUnderCurrentPrefix u = true) (hP : P.length < 64) :
    ∃ x v, updateChildNibble u = .ok x ∧ trieUpdatesDescend u = .ok v ∧
      CursorAt (P ++ [x]) v ∧ pending v = pending u ∧
      updateUnderCurrentPrefix v = true ∧ Below (P ++ [x]) u.current := by
  obtain ⟨post, hr, hp, hkey⟩ := h.under hu
  have hmem : u.current ∈ pending u := by
    rw [hp]
    exact List.mem_cons_self ..
  have hlen := h.ascending.full _ hmem
  rw [hkey, List.length_append] at hlen
  obtain ⟨x, l, hpost⟩ : ∃ x l, post.nibbles = x :: l := by
    cases hpost : post.nibbles with
    | nil =>
      rw [hpost, List.length_nil] at hlen
      omega
    | cons x l => exact ⟨x, l, rfl⟩
  have hne : ¬ pathLen post = 0 := by
    rw [pathLen_eq, hpost]
    simp
  have hl : l.length ≤ 64 := by
    rw [hpost, List.length_cons] at hlen
    omega
  have hbelow : Below (P ++ [x]) u.current := by
    rw [Below, hkey, hpost]
    exact ⟨l, by simp⟩
  refine ⟨x, { u with relation := .updateUnderPrefix (.ofNibbles l) }, ?_, ?_, ?_, ?_, rfl, hbelow⟩
  · simp only [updateChildNibble, hr, if_neg hne, pathNibble_eq, hpost]
    rfl
  · simp only [trieUpdatesDescend, hr, if_neg hne, pathDrop_eq, ok_bind, hpost]
    rfl
  · have hpv : pending { u with relation := .updateUnderPrefix (.ofNibbles l) } = pending u := by
      rw [hp]
      rfl
    refine ⟨by rw [hpv]; exact h.ascending, by rw [hpv]; exact h.fits, ?_, ?_⟩
    · rw [hpv, hp]
      have hasc := h.ascending.sorted
      rw [hp] at hasc
      intro s hs
      rcases List.mem_cons.mp hs with rfl | hs
      · exact le_of_isPrefix hbelow
      · exact le_trans (le_of_isPrefix hbelow) (le_of_lt ((List.pairwise_cons.mp hasc).1 s hs))
    · show u.current.key.nibbles = P ++ [x] ++ (TriePath.ofNibbles l).nibbles
      rw [TriePath.nibbles_ofNibbles hl, hkey, hpost, List.append_assoc]
      rfl
  · rw [hp]
    rfl

/-- A cursor that left the child prefix is re-read at the parent. -/
theorem CursorAt.rebase {pfx : TriePath} {x : Nibble} {u : TrieUpdateCursor}
    (h : CursorAt (pfx.nibbles ++ [x]) u) (hu : updateUnderCurrentPrefix u = false) :
    ∃ v, trieUpdatesRebase u pfx = .ok v ∧ CursorAt pfx.nibbles v ∧ pending v = pending u := by
  have hlow : ∀ s ∈ pending u, pfx.nibbles ≤ s.key.nibbles := fun s hs =>
    le_trans (le_of_isPrefix (List.prefix_append _ _)) (h.lower s hs)
  have hrel := h.relation
  unfold RelationAt at hrel
  unfold updateUnderCurrentPrefix at hu
  cases hr : u.relation with
  | updateUnderPrefix post =>
    rw [hr] at hu
    cases hu
  | updateSourceExhausted =>
    refine ⟨u, by simp [trieUpdatesRebase, hr], ⟨h.ascending, h.fits, hlow, ?_⟩, rfl⟩
    rw [hr] at hrel
    simpa [RelationAt, hr] using hrel
  | updateBeyondPrefix c =>
    rw [hr] at hrel
    have hp : pending u = u.current :: u.source := by simp [pending, hr]
    have hmem : u.current ∈ pending u := by
      rw [hp]
      exact List.mem_cons_self ..
    have hanc : ∀ n, n ≤ pfx.nibbles.length →
        (n ≤ c ↔ pfx.nibbles.take n <+: u.current.key.nibbles) := by
      intro n hn
      have := hrel.2 n (by rw [List.length_append]; omega)
      rwa [List.take_append_of_le_length hn] at this
    by_cases hc : pfx.nibbles.length ≤ c
    · have hpre : pfx.nibbles <+: u.current.key.nibbles := by
        have := (hanc _ (Nat.le_refl _)).mp hc
        rwa [List.take_length] at this
      obtain ⟨r, hkey⟩ := hpre
      have hfull := h.ascending.full _ hmem
      rw [← hkey, List.length_append] at hfull
      have hpv : pending { u with relation := .updateUnderPrefix (.ofNibbles r) } = pending u := by
        rw [hp]
        rfl
      refine ⟨{ u with relation := .updateUnderPrefix (.ofNibbles r) }, ?_,
        ⟨by rw [hpv]; exact h.ascending, by rw [hpv]; exact h.fits, by rw [hpv]; exact hlow, ?_⟩,
        hpv⟩
      · simp only [trieUpdatesRebase, hr, pathLen_eq, if_pos hc, pathDrop_eq, ok_bind]
        rw [← hkey, List.drop_left]
      · show u.current.key.nibbles = pfx.nibbles ++ (TriePath.ofNibbles r).nibbles
        rw [TriePath.nibbles_ofNibbles (by omega), hkey]
    · refine ⟨u, ?_, ⟨h.ascending, h.fits, hlow, ?_⟩, rfl⟩
      · simp only [trieUpdatesRebase, hr, pathLen_eq, if_neg hc]
      · rw [RelationAt, hr]
        refine ⟨fun hpre => hc ?_, hanc⟩
        exact (hanc _ (Nat.le_refl _)).mpr (by rwa [List.take_length])

/-! ## Consuming the update at a full key -/

/-- The change an update list makes at a key. -/
def changeAt (S : List TrieUpdate) (K : List Nibble) : Option TrieChange :=
  (S.find? fun s => decide (s.key.nibbles = K)).map (·.change)

/-- The value after a change. -/
def applyChange (c : Option TrieChange) (v : Option (List Byte)) : Option (List Byte) :=
  match c with
  | none => v
  | some (.triePut b) => some b
  | some .trieDelete => none

/-- The map `m` below the prefix `P`, with the updates `S` applied. -/
def updated (S : List TrieUpdate) (P : List Nibble) (m : List Nibble → Option (List Byte)) :
    List Nibble → Option (List Byte) :=
  fun k => applyChange (changeAt S (P ++ k)) (m k)

theorem changeAt_filter {S : List TrieUpdate} {K : List Nibble} {p : TrieUpdate → Bool}
    (h : ∀ s ∈ S, s.key.nibbles = K → p s = true) :
    changeAt (S.filter p) K = changeAt S K := by
  rw [changeAt, changeAt, List.find?_filter]
  congr 1
  induction S with
  | nil => rfl
  | cons s S ih =>
    rw [List.find?_cons, List.find?_cons, ih fun s hs => h s (List.mem_cons_of_mem _ hs)]
    by_cases hk : s.key.nibbles = K
    · simp [hk, h s (List.mem_cons_self ..) hk]
    · simp [hk]

/-- Updates none of which is below the prefix change nothing there. -/
theorem updated_of_not_below {S : List TrieUpdate} {P : List Nibble}
    {m : List Nibble → Option (List Byte)} (h : ∀ s ∈ S, ¬ Below P s) : updated S P m = m := by
  funext k
  have : changeAt S (P ++ k) = none := by
    rw [changeAt, List.find?_eq_none.mpr]
    · rfl
    · intro s hs hk
      rw [decide_eq_true_eq] at hk
      refine h s hs ?_
      rw [Below, hk]
      exact List.prefix_append P k
  rw [updated, this]
  rfl

theorem updated_append (S : List TrieUpdate) (P : List Nibble) (x : Nibble)
    (m : List Nibble → Option (List Byte)) (k : List Nibble) :
    updated S P m (x :: k) = updated S (P ++ [x]) (fun k => m (x :: k)) k := by
  simp [updated]

/-- A change is the change of some update. -/
theorem mem_of_changeAt {S : List TrieUpdate} {K : List Nibble} {c : TrieChange}
    (h : changeAt S K = some c) : ∃ s ∈ S, s.key.nibbles = K ∧ s.change = c := by
  rw [changeAt, Option.map_eq_some_iff] at h
  obtain ⟨s, hs, hc⟩ := h
  refine ⟨s, List.mem_of_find?_eq_some hs, ?_, hc⟩
  simpa using List.find?_some hs

/-- What the walk of a subtree does to the pending updates: it consumes
those below its prefix. -/
def afterPrefix (P : List Nibble) (S : List TrieUpdate) : List TrieUpdate :=
  S.filter fun s => decide (¬ Below P s)

theorem afterPrefix_of_not_below {P : List Nibble} {S : List TrieUpdate}
    (h : ∀ s ∈ S, ¬ Below P s) : afterPrefix P S = S := by
  rw [afterPrefix, List.filter_eq_self]
  intro s hs
  simpa using h s hs

theorem not_below_afterPrefix {P : List Nibble} {S : List TrieUpdate} :
    ∀ s ∈ afterPrefix P S, ¬ Below P s := by
  intro s hs
  simpa using List.of_mem_filter hs

theorem prefix_full {a b : List Nibble} (ha : a.length = 64) (hb : b.length = 64) :
    a <+: b ↔ a = b :=
  ⟨fun h => h.eq_of_length (by omega), fun h => h ▸ List.prefix_refl _⟩

/-- The relation of a successor to the full key consumed before it. -/
theorem beyond_relation {K L : List Nibble} (hK : K.length = 64) (hL : L.length = 64)
    (hlt : K < L) :
    ¬ K <+: L ∧ ∀ n, n ≤ K.length → (n ≤ (lcp K L).length ↔ K.take n <+: L) := by
  refine ⟨fun h => ?_, fun n hn => ?_⟩
  · rw [prefix_full hK hL] at h
    exact absurd hlt (h ▸ lt_irrefl _)
  · have hl := prefix_lcp.mp (List.prefix_refl (lcp K L))
    constructor
    · intro hnl
      have htake : K.take n <+: lcp K L :=
        List.prefix_of_prefix_length_le (List.take_prefix n K) hl.1
          (by rw [List.length_take]; omega)
      exact htake.trans hl.2
    · intro h
      have := (prefix_lcp.mpr ⟨List.take_prefix n K, h⟩).length_le
      rw [List.length_take] at this
      omega

/-- Popping at the full key of the active update. -/
theorem CursorAt.pop {P : List Nibble} {u : TrieUpdateCursor} (h : CursorAt P u)
    (hu : updateUnderCurrentPrefix u = true) (hP : P.length = 64) :
    ∃ v, trieUpdatesPop u = .ok (u.current, v) ∧ CursorAt P v ∧
      pending v = afterPrefix P (pending u) ∧ u.current.key.nibbles = P ∧
      changeAt (pending u) P = some u.current.change := by
  obtain ⟨post, hr, hp, hkey⟩ := h.under hu
  have hasc := h.ascending
  have hfit := h.fits
  have hlow := h.lower
  rw [hp] at hasc hfit hlow
  have hcur : u.current.key.nibbles = P := by
    have := hasc.full _ (List.mem_cons_self ..)
    rw [hkey, List.length_append] at this
    rw [hkey, List.eq_nil_of_length_eq_zero (by omega : post.nibbles.length = 0), List.append_nil]
  have hchange : changeAt (pending u) P = some u.current.change := by
    rw [hp, changeAt, List.find?_cons_of_pos (by simpa using hcur)]
    rfl
  have hafter : afterPrefix P (pending u) = u.source := by
    rw [hp, afterPrefix, List.filter_cons_of_neg (by simp [Below, hcur])]
    rw [List.filter_eq_self]
    intro s hs
    have hlt := (List.pairwise_cons.mp hasc.sorted).1 s hs
    have hs64 := hasc.full s (List.mem_cons_of_mem _ hs)
    rw [hcur] at hlt
    simp only [Below, decide_eq_true_eq, prefix_full hP hs64]
    rintro rfl
    exact lt_irrefl _ hlt
  cases hsrc : u.source with
  | nil =>
    refine ⟨{ source := [], current := emptyTrieUpdate, relation := .updateSourceExhausted },
      ?_, ?_, ?_, hcur, hchange⟩
    · simp [trieUpdatesPop, hr, hsrc, trieUpdateSourceNext]
    · exact ⟨⟨List.Pairwise.nil, by simp [pending]⟩, by simp [pending], by simp [pending], rfl⟩
    · rw [hafter, hsrc]
      rfl
  | cons s rest =>
    rw [hsrc] at hasc hfit hlow
    have hlt := (List.pairwise_cons.mp hasc.sorted).1 s (List.mem_cons_self ..)
    have hs64 := hasc.full s (by simp)
    rw [hcur] at hlt
    refine ⟨{ source := rest
              current := s
              relation := .updateBeyondPrefix (lcp P s.key.nibbles).length },
      ?_, ?_, ?_, hcur, hchange⟩
    · simp [trieUpdatesPop, hr, hsrc, trieUpdateSourceNext, commonPrefixLength_eq, hcur]
    · refine ⟨hasc.tail, fun s hs => hfit s (List.mem_cons_of_mem _ hs),
        fun s hs => hlow s (List.mem_cons_of_mem _ hs), ?_⟩
      exact beyond_relation hP hs64 hlt
    · rw [hafter, hsrc]
      rfl

end EvmSail
