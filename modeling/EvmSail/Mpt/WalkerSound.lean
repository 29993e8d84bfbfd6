/-
# `EvmSail.Mpt.WalkerSound` — the walk computes the updated trie

`WalkSpec P u r t` is the contract of every walk: `r` returns an item for
the canonical trie `t` below the prefix `P`, and a cursor that has
consumed exactly the updates below `P`.

The three loops of the walker (over the updates alone, over an existing
item and the updates, over the children of a witness branch) build the
same family of sub-tries in the same order; what they have built before
digit `b` is `RangeInv b`.  A round either consumes the updates below the
next digit (`RangeInv.consume`) or takes over an untouched child
(`RangeInv.passive`), and digits at which there is nothing are skipped
(`RangeInv.skip`).
-/
import EvmSail.Mpt.UpdateCursor

namespace EvmSail

open Fallible Radix

variable {keccak256 : List Byte → Hash} {db : Hash → StatelessInputSlice}

/-! ## The updated trie -/

/-- The canonical trie of a trie with updates applied below `P`. -/
noncomputable def updatedTrie (S : List TrieUpdate) (P : List Nibble) (m : Nat)
    (t : NibbleTrie) : NibbleTrie :=
  Trie.ofMap m (updated S P t.lookup)

theorem TrieFits.value {t : NibbleTrie} (h : TrieFits t) :
    ∀ {k : List Nibble} {v : List Byte}, t.lookup k = some v → ValueFits v := by
  induction h with
  | empty => simp
  | leaf p w _ hw =>
    intro k v hk
    rw [Trie.lookup_leaf] at hk
    split at hk
    · cases hk
      exact hw
    · cases hk
  | ext p c _ _ ih =>
    intro k v hk
    rw [Trie.lookup] at hk
    split at hk
    · exact ih hk
    · cases hk
  | branch cs _ ih =>
    intro k v hk
    cases k with
    | nil => simp at hk
    | cons x k => exact ih x hk

theorem canonical_updatedTrie (S : List TrieUpdate) (P : List Nibble) (m : Nat)
    (t : NibbleTrie) : (updatedTrie S P m t).Canonical m :=
  Trie.canonical_ofMap _ _

theorem fits_updatedTrie {S : List TrieUpdate} {P : List Nibble} {m : Nat} {t : NibbleTrie}
    (hS : ∀ s ∈ S, UpdateFits s) (ht : TrieFits t) (hm : m ≤ 64) :
    TrieFits (updatedTrie S P m t) := by
  refine .of_canonical (canonical_updatedTrie S P m t) hm fun k v hk => ?_
  have hlen : k.length = m := by
    by_contra hne
    rw [(canonical_updatedTrie S P m t).lookup_eq_none hne] at hk
    cases hk
  rw [updatedTrie, Trie.lookup_ofMap hlen, updated] at hk
  cases hc : changeAt S (P ++ k) with
  | none =>
    rw [hc] at hk
    exact ht.value hk
  | some c =>
    rw [hc] at hk
    obtain ⟨s, hs, _, hchange⟩ := mem_of_changeAt hc
    cases c with
    | triePut b =>
      cases hk
      exact hS s hs _ hchange
    | trieDelete => cases hk

/-- Updates elsewhere leave a canonical trie as it is. -/
theorem updatedTrie_of_not_below {S : List TrieUpdate} {P : List Nibble} {m : Nat}
    {t : NibbleTrie} (ht : t.Canonical m) (h : ∀ s ∈ S, ¬ Below P s) :
    updatedTrie S P m t = t := by
  rw [updatedTrie, updated_of_not_below h, ← ht.eq_ofMap]

/-- The updated trie is assembled from the updated children. -/
theorem updatedTrie_succ (S : List TrieUpdate) (P : List Nibble) {m : Nat} {t : NibbleTrie}
    (ht : t.Canonical (m + 1)) :
    updatedTrie S P (m + 1) t =
      Trie.combine fun x => updatedTrie S (P ++ [x]) m (t.child x) := by
  rw [updatedTrie, Trie.ofMap]
  congr 1
  funext x
  refine Trie.ofMap_congr fun k _ => ?_
  rw [updated_append]
  simp only [updated, ht.lookup_child]

theorem TrieFits.child {t : NibbleTrie} (h : TrieFits t) {m : Nat} (hc : t.Canonical (m + 1))
    (hm : m ≤ 64) (x : Nibble) : TrieFits (t.child x) :=
  .of_canonical (hc.child x) hm fun k v hk => h.value (by rwa [hc.lookup_child] at hk)

/-! ## The contract of a walk -/

/-- The walk of prefix `P` returns the trie `t` and consumes the updates
below `P`. -/
def WalkSpec (keccak256 : List Byte → Hash) (db : Hash → StatelessInputSlice) (P : List Nibble)
    (u : TrieUpdateCursor) (r : Result (TrieItem × TrieUpdateCursor)) (t : NibbleTrie) : Prop :=
  ∃ it u', r = .ok (it, u') ∧ Represents keccak256 db P it t ∧ CursorAt P u' ∧
    pending u' = afterPrefix P (pending u)

/-- A walk that finds no update below its prefix. -/
theorem walkSpec_untouched {P : List Nibble} {u : TrieUpdateCursor} {it : TrieItem} {m : Nat}
    {t : NibbleTrie} (hu : CursorAt P u) (hno : updateUnderCurrentPrefix u = false)
    (ht : t.Canonical m) (hit : Represents keccak256 db P it t) :
    WalkSpec keccak256 db P u (.ok (it, u)) (updatedTrie (pending u) P m t) := by
  have hnb := hu.not_below hno
  rw [updatedTrie_of_not_below ht hnb]
  exact ⟨it, u, rfl, hit, hu, (afterPrefix_of_not_below hnb).symm⟩

/-- The walk at a full key. -/
theorem popUpdateAt_spec {key : TriePath} {u : TrieUpdateCursor} {t : NibbleTrie}
    (hu : CursorAt key.nibbles u) (hunder : updateUnderCurrentPrefix u = true)
    (hlen : key.nibbles.length = 64) :
    WalkSpec keccak256 db key.nibbles u (popUpdateAt u key)
      (updatedTrie (pending u) key.nibbles 0 t) := by
  obtain ⟨post, hr, hp, hkey⟩ := hu.under hunder
  obtain ⟨v, hpop, hv, hpend, hcur, hchange⟩ := hu.pop hunder hlen
  have hpost : pathLen post = 0 := by
    rw [hcur] at hkey
    have := congrArg List.length hkey
    rw [List.length_append] at this
    rw [pathLen_eq]
    omega
  have hmatch : pathEq u.current.key key = true := by
    rw [pathEq_eq, decide_eq_true hcur]
  have hfit := hu.fits u.current (by rw [hp]; exact List.mem_cons_self ..)
  have hval : ∀ c, u.current.change = c → updatedTrie (pending u) key.nibbles 0 t =
      Trie.ofMap 0 fun _ => applyChange (some c) (t.lookup []) := by
    rintro c rfl
    refine Trie.ofMap_congr fun k hk => ?_
    rw [List.eq_nil_of_length_eq_zero hk, updated, List.append_nil, hchange]
  unfold popUpdateAt
  rw [hr]
  simp only [hpost, ne_eq, not_true_eq_false, if_false, hpop, ok_bind, hmatch]
  cases hc : u.current.change with
  | trieDelete =>
    rw [hval _ hc]
    exact ⟨_, v, rfl, .empty _, hv, hpend⟩
  | triePut b =>
    rw [hval _ hc]
    exact ⟨_, v, rfl, represents_scratchLeaf (List.append_nil _).symm (hfit b hc), hv, hpend⟩

/-! ## The invariant of the loops -/

/-- The children below `b` are the updated children of `t`, and the
updates below them are consumed. -/
structure RangeInv (keccak256 : List Byte → Hash) (db : Hash → StatelessInputSlice)
    (P : List Nibble) (m : Nat) (t : NibbleTrie) (S : List TrieUpdate) (b : Nat)
    (acc : TrieChildren) (u : TrieUpdateCursor) : Prop where
  children : Assembles keccak256 db P m acc fun x =>
    if x.val < b then updatedTrie S (P ++ [x]) m (t.child x) else .empty
  cursor : CursorAt P u
  rest : pending u = S.filter fun s => decide (∀ x : Nibble, x.val < b → ¬ Below (P ++ [x]) s)

theorem below_digit {P k : List Nibble} {x y : Nibble} {s : TrieUpdate}
    (hx : s.key.nibbles = P ++ x :: k) (hy : Below (P ++ [y]) s) : y = x := by
  obtain ⟨r, hr⟩ := hy
  rw [hx, List.append_assoc] at hr
  exact (List.cons.inj (List.append_cancel_left hr)).1

theorem below_iff_exists {P : List Nibble} {s : TrieUpdate} (hP : P.length < 64)
    (hs : s.key.nibbles.length = 64) : Below P s ↔ ∃ x, Below (P ++ [x]) s := by
  constructor
  · rintro ⟨r, hr⟩
    cases r with
    | nil =>
      rw [List.append_nil] at hr
      rw [← hr] at hs
      omega
    | cons x r => exact ⟨x, r, by rw [List.append_assoc]; exact hr⟩
  · rintro ⟨x, hx⟩
    exact (List.prefix_append P [x]).trans hx

section

variable {pfx : TriePath} {m : Nat} {t : NibbleTrie} {S : List TrieUpdate} {b : Nat}
  {acc : TrieChildren} {u : TrieUpdateCursor}

theorem rangeInv_start (hu : CursorAt pfx.nibbles u) :
    RangeInv keccak256 db pfx.nibbles m t (pending u) 0 trieChildrenEmpty u where
  children := assembles_empty pfx.nibbles m
  cursor := hu
  rest := by
    rw [eq_comm, List.filter_eq_self]
    intro s _
    simp

namespace RangeInv

theorem pending_ge (h : RangeInv keccak256 db pfx.nibbles m t S b acc u) {s : TrieUpdate}
    (hs : s ∈ pending u) {x : Nibble} (hx : Below (pfx.nibbles ++ [x]) s) : b ≤ x.val := by
  rw [h.rest] at hs
  have hall := of_decide_eq_true (List.mem_filter.mp hs).2
  by_contra hlt
  exact hall x (by omega) hx

/-- Below a digit still to come, the pending updates say what all updates
say. -/
theorem updated_pending (h : RangeInv keccak256 db pfx.nibbles m t S b acc u) {x : Nibble}
    (hx : b ≤ x.val) (t' : NibbleTrie) :
    updatedTrie (pending u) (pfx.nibbles ++ [x]) m t' =
      updatedTrie S (pfx.nibbles ++ [x]) m t' := by
  rw [updatedTrie, updatedTrie]
  congr 1
  funext k
  rw [updated, updated, h.rest, changeAt_filter]
  intro s _ hk
  rw [decide_eq_true_eq]
  intro y hy hb
  rw [List.append_assoc] at hk
  have := below_digit hk hb
  subst this
  omega

/-- Digits at which there is neither a child nor an update. -/
theorem skip (h : RangeInv keccak256 db pfx.nibbles m t S b acc u) {b' : Nat} (hb : b ≤ b')
    (hno : ∀ x : Nibble, b ≤ x.val → x.val < b' →
      t.child x = .empty ∧ ∀ s ∈ pending u, ¬ Below (pfx.nibbles ++ [x]) s) :
    RangeInv keccak256 db pfx.nibbles m t S b' acc u := by
  have hfam : (fun x : Nibble =>
      if x.val < b' then updatedTrie S (pfx.nibbles ++ [x]) m (t.child x) else .empty) =
      fun x : Nibble =>
        if x.val < b then updatedTrie S (pfx.nibbles ++ [x]) m (t.child x) else .empty := by
    funext x
    by_cases h1 : x.val < b
    · rw [if_pos h1, if_pos (by omega)]
    · rw [if_neg h1]
      by_cases h2 : x.val < b'
      · obtain ⟨hempty, hnb⟩ := hno x (by omega) h2
        rw [if_pos h2, ← h.updated_pending (by omega), hempty,
          updatedTrie_of_not_below .empty hnb]
      · rw [if_neg h2]
  refine ⟨hfam ▸ h.children, h.cursor, ?_⟩
  rw [h.rest]
  refine List.filter_congr fun s hs => ?_
  rw [decide_eq_decide]
  constructor
  · intro hall x hx
    by_cases h1 : x.val < b
    · exact hall x h1
    · refine (hno x (by omega) hx).2 s ?_
      rw [h.rest]
      exact List.mem_filter.mpr ⟨hs, decide_eq_true hall⟩
  · exact fun hall x hx => hall x (by omega)

/-- Taking over the child at `x`, no update being pending below it. -/
theorem passive {x : Nibble} (h : RangeInv keccak256 db pfx.nibbles m t S x.val acc u)
    (ht : t.Canonical (m + 1)) (hfit : TrieFits t) (hlen : pfx.nibbles.length + (m + 1) ≤ 64)
    (hno : ∀ s ∈ pending u, ¬ Below (pfx.nibbles ++ [x]) s) {it : TrieItem}
    (hit : Represents keccak256 db (pfx.nibbles ++ [x]) it (t.child x)) :
    ∃ acc', trieChildrenAdd keccak256 db acc pfx x it = .ok acc' ∧
      RangeInv keccak256 db pfx.nibbles m t S (x.val + 1) acc' u := by
  have hsame : updatedTrie S (pfx.nibbles ++ [x]) m (t.child x) = t.child x := by
    rw [← h.updated_pending (Nat.le_refl _), updatedTrie_of_not_below (ht.child x) hno]
  obtain ⟨acc', hadd, hacc⟩ := trieChildrenAdd_spec h.children (by simp) hit (ht.child x)
    (hfit.child ht (by omega) x) (by omega)
  refine ⟨acc', hadd, ?_, h.cursor, ?_⟩
  · convert hacc using 1
    funext y
    by_cases hy : y = x
    · subst hy
      simp [hsame]
    · have hne : y.val ≠ x.val := fun h => hy (Fin.ext h)
      rw [Function.update_of_ne hy]
      by_cases hlt : y.val < x.val
      · rw [if_pos hlt, if_pos (by omega)]
      · rw [if_neg hlt, if_neg (by omega)]
  · rw [h.rest]
    refine List.filter_congr fun s hs => ?_
    rw [decide_eq_decide]
    constructor
    · intro hall y hy
      by_cases hyx : y = x
      · subst hyx
        refine hno s ?_
        rw [h.rest]
        exact List.mem_filter.mpr ⟨hs, decide_eq_true hall⟩
      · have hne : y.val ≠ x.val := fun h => hyx (Fin.ext h)
        exact hall y (by omega)
    · exact fun hall y hy => hall y (by omega)

/-- The item and the cursor a child walk leaves behind, added at `x`. -/
theorem advance {x : Nibble} (h : RangeInv keccak256 db pfx.nibbles m t S x.val acc u)
    (hfit : TrieFits t) (ht : t.Canonical (m + 1)) (hS : ∀ s ∈ S, UpdateFits s)
    (hlen : pfx.nibbles.length + (m + 1) ≤ 64) {it : TrieItem} {v : TrieUpdateCursor}
    (hit : Represents keccak256 db (pfx.nibbles ++ [x]) it
      (updatedTrie (pending u) (pfx.nibbles ++ [x]) m (t.child x)))
    (hv : CursorAt (pfx.nibbles ++ [x]) v)
    (hpend : pending v = afterPrefix (pfx.nibbles ++ [x]) (pending u)) :
    ∃ acc' w, trieChildrenAdd keccak256 db acc pfx x it = .ok acc' ∧
      trieUpdatesRebase v pfx = .ok w ∧
      RangeInv keccak256 db pfx.nibbles m t S (x.val + 1) acc' w := by
  rw [h.updated_pending (Nat.le_refl _)] at hit
  obtain ⟨acc', hadd, hacc⟩ := trieChildrenAdd_spec h.children (by simp) hit
    (canonical_updatedTrie ..) (fits_updatedTrie hS (hfit.child ht (by omega) x) (by omega))
    (by omega)
  have hnot : updateUnderCurrentPrefix v = false := by
    rw [← Bool.not_eq_true]
    intro hu
    obtain ⟨post, _, hp, hkey⟩ := hv.under hu
    refine not_below_afterPrefix (P := pfx.nibbles ++ [x]) (S := pending u) v.current ?_ ?_
    · rw [← hpend, hp]
      exact List.mem_cons_self ..
    · rw [Below, hkey]
      exact List.prefix_append _ _
  obtain ⟨w, hw, hcw, hpw⟩ := hv.rebase hnot
  refine ⟨acc', w, hadd, hw, ?_, hcw, ?_⟩
  · convert hacc using 1
    funext y
    by_cases hy : y = x
    · subst hy
      simp
    · have hne : y.val ≠ x.val := fun h => hy (Fin.ext h)
      rw [Function.update_of_ne hy]
      by_cases hlt : y.val < x.val
      · rw [if_pos hlt, if_pos (by omega)]
      · rw [if_neg hlt, if_neg (by omega)]
  · rw [hpw, hpend, h.rest, afterPrefix, List.filter_filter]
    refine List.filter_congr fun s _ => ?_
    rw [← Bool.decide_and, decide_eq_decide]
    constructor
    · rintro ⟨hx, hall⟩ y hy
      by_cases hyx : y = x
      · exact hyx ▸ hx
      · have hne : y.val ≠ x.val := fun h => hyx (Fin.ext h)
        exact hall y (by omega)
    · exact fun hall => ⟨hall x (by omega), fun y hy => hall y (by omega)⟩

/-- Consuming the updates below the active nibble. -/
theorem consume {x : Nibble} (h : RangeInv keccak256 db pfx.nibbles m t S x.val acc u)
    (hfit : TrieFits t) (ht : t.Canonical (m + 1)) (hS : ∀ s ∈ S, UpdateFits s)
    (hlen : pfx.nibbles.length + (m + 1) ≤ 64) {v : TrieUpdateCursor}
    (hdesc : trieUpdatesDescend u = .ok v) (hvp : pending v = pending u) {walk : ChildWalk}
    (hwalk : WalkSpec keccak256 db (pfx.nibbles ++ [x]) v
      (walk v (.ofNibbles (pfx.nibbles ++ [x])))
      (updatedTrie (pending v) (pfx.nibbles ++ [x]) m (t.child x))) :
    ∃ acc' w, consumeChild keccak256 db walk pfx x acc u = .ok (acc', w) ∧
      RangeInv keccak256 db pfx.nibbles m t S (x.val + 1) acc' w := by
  obtain ⟨it, v', hres, hit, hv', hpend⟩ := hwalk
  rw [hvp] at hit hpend
  obtain ⟨acc', w, hadd, hreb, hinv⟩ := h.advance hfit ht hS hlen hit hv' hpend
  have hlater : checkLaterSibling w x = .ok () := by
    rw [checkLaterSibling]
    cases hu : updateUnderCurrentPrefix w with
    | false => rfl
    | true =>
      obtain ⟨y, _, hy, _, _, _, _, hbelow⟩ := hinv.cursor.descend hu (by omega)
      obtain ⟨_, _, hp, _⟩ := hinv.cursor.under hu
      have hge := hinv.pending_ge (s := w.current) (by rw [hp]; exact List.mem_cons_self ..) hbelow
      rw [if_pos rfl, hy, ok_bind, if_neg]
      exact not_le.mpr (Fin.lt_def.mpr hge)
  refine ⟨acc', w, ?_, hinv⟩
  have hsingle : (TriePath.ofNibbles [x]).nibbles = [x] := TriePath.nibbles_ofNibbles (by simp)
  simp only [consumeChild, pathSingle_eq, ok_bind, pathConcat_eq, hsingle, List.length_singleton]
  rw [if_pos (by omega), ok_bind, hdesc, ok_bind, hres, ok_bind]
  simp only [hadd, ok_bind, hreb, hlater]

/-- No pending update lies below a digit before the active one. -/
theorem none_earlier (h : RangeInv keccak256 db pfx.nibbles m t S b acc u)
    (hu : updateUnderCurrentPrefix u = true) {x : Nibble}
    (hx : Below (pfx.nibbles ++ [x]) u.current) {y : Nibble} (hy : y.val < x.val) :
    ∀ s ∈ pending u, ¬ Below (pfx.nibbles ++ [y]) s := by
  obtain ⟨post, _, hp, _⟩ := h.cursor.under hu
  have hasc := h.cursor.ascending.sorted
  rw [hp] at hasc ⊢
  intro s hs hb
  obtain ⟨r, hr⟩ := hx
  obtain ⟨r', hr'⟩ := hb
  rw [List.append_assoc] at hr hr'
  rcases List.mem_cons.mp hs with rfl | hs
  · rw [← hr] at hr'
    have := (List.cons.inj (List.append_cancel_left hr')).1
    subst this
    omega
  · have hlt := (List.pairwise_cons.mp hasc).1 s hs
    rw [← hr, ← hr'] at hlt
    have := Fin.le_def.mp (digit_le_of_lt hlt)
    omega

/-- The finished loop. -/
theorem finish (h : RangeInv keccak256 db pfx.nibbles m t S 16 acc u)
    (ht : t.Canonical (m + 1)) (hasc : Ascending S)
    (hlen : pfx.nibbles.length + (m + 1) ≤ 64) :
    ∃ it, trieChildrenFinish keccak256 pfx acc = .ok it ∧
      Represents keccak256 db pfx.nibbles it (updatedTrie S pfx.nibbles (m + 1) t) ∧
      CursorAt pfx.nibbles u ∧ pending u = afterPrefix pfx.nibbles S := by
  have hfam : (fun x : Nibble =>
      if x.val < 16 then updatedTrie S (pfx.nibbles ++ [x]) m (t.child x) else .empty) =
      fun x => updatedTrie S (pfx.nibbles ++ [x]) m (t.child x) := by
    funext x
    rw [if_pos x.isLt]
  have hchildren := h.children
  rw [hfam] at hchildren
  obtain ⟨it, hfin, hrep⟩ := trieChildrenFinish_spec hchildren hlen
  refine ⟨it, hfin, ?_, h.cursor, ?_⟩
  · rwa [updatedTrie_succ S pfx.nibbles ht]
  · rw [h.rest, afterPrefix]
    refine List.filter_congr fun s hs => ?_
    rw [decide_eq_decide, below_iff_exists (by omega) (hasc.full s hs)]
    constructor
    · rintro hall ⟨x, hx⟩
      exact hall x x.isLt hx
    · exact fun hno x _ hx => hno ⟨x, hx⟩

end RangeInv

end

/-! ## The updates alone -/

variable (keccak256 db) in
theorem updatesChildren_spec {pfx : TriePath} (m : Nat) {u : TrieUpdateCursor} (walk : ChildWalk)
    (hu : CursorAt pfx.nibbles u) (hlen : pfx.nibbles.length + (m + 1) ≤ 64)
    (hwalk : ∀ x v, CursorAt (pfx.nibbles ++ [x]) v → WalkSpec keccak256 db (pfx.nibbles ++ [x]) v
      (walk v (.ofNibbles (pfx.nibbles ++ [x])))
      (updatedTrie (pending v) (pfx.nibbles ++ [x]) m .empty)) :
    ∃ acc w, updatesChildren keccak256 db walk pfx u = .ok (acc, w) ∧
      RangeInv keccak256 db pfx.nibbles m .empty (pending u) 16 acc w := by
  have hstep : ∀ s : TrieChildren × TrieUpdateCursor,
      (∃ b, b ≤ 16 ∧ RangeInv keccak256 db pfx.nibbles m .empty (pending u) b s.1 s.2) →
      updateUnderCurrentPrefix s.2 = true →
      ∃ s', updatesRound keccak256 db walk pfx s = .ok s' ∧
        ∃ b, b ≤ 16 ∧ RangeInv keccak256 db pfx.nibbles m .empty (pending u) b s'.1 s'.2 := by
    rintro ⟨acc, w⟩ ⟨b, _, hinv⟩ hunder
    obtain ⟨x, v, hnib, hdesc, hcv, hpv, _, hbelow⟩ := hinv.cursor.descend hunder (by omega)
    obtain ⟨_, _, hp, _⟩ := hinv.cursor.under hunder
    have hge := hinv.pending_ge (by rw [hp]; exact List.mem_cons_self ..) hbelow
    have hx := hinv.skip hge fun y _ hy => ⟨rfl, hinv.none_earlier hunder hbelow hy⟩
    obtain ⟨acc', w', hcon, hinv'⟩ :=
      hx.consume .empty .empty hu.fits hlen hdesc hpv (hwalk x v hcv)
    refine ⟨(acc', w'), ?_, x.val + 1, x.isLt, hinv'⟩
    rw [updatesRound, hnib, ok_bind]
    exact hcon
  obtain ⟨⟨acc, w⟩, hloop, ⟨b, hb, hinv⟩, hend⟩ := loop_inv
    (fun _ _ _ h => updatesRound_decreases keccak256 db h) _ hstep
    (trieChildrenEmpty, u) ⟨0, by omega, rangeInv_start hu⟩
  refine ⟨acc, w, hloop, hinv.skip hb fun x _ _ => ⟨rfl, fun s hs hbelow => ?_⟩⟩
  exact hinv.cursor.not_below hend s hs ((List.prefix_append _ [x]).trans hbelow)

variable (keccak256 db) in
theorem updatesSubtree_spec (m : Nat) (pfx : TriePath) {u : TrieUpdateCursor}
    (hlen : pfx.nibbles.length + m = 64) (hu : CursorAt pfx.nibbles u) :
    WalkSpec keccak256 db pfx.nibbles u (updatesSubtree keccak256 db u pfx pfx.nibbles.length)
      (updatedTrie (pending u) pfx.nibbles m .empty) := by
  induction m generalizing pfx u with
  | zero =>
    rw [updatesSubtree, dif_neg (by simp)]
    cases hunder : updateUnderCurrentPrefix u with
    | false => exact walkSpec_untouched hu hunder .empty (.empty _)
    | true =>
      rw [if_neg (by simp), dif_pos (by omega)]
      exact popUpdateAt_spec hu hunder (by omega)
  | succ m ih =>
    rw [updatesSubtree, dif_neg (by simp)]
    cases hunder : updateUnderCurrentPrefix u with
    | false => exact walkSpec_untouched hu hunder .empty (.empty _)
    | true =>
      rw [if_neg (by simp), dif_neg (by omega)]
      obtain ⟨acc, w, hrun, hinv⟩ := updatesChildren_spec keccak256 db m
        (fun v p => updatesSubtree keccak256 db v p (pfx.nibbles.length + 1)) hu (by omega)
        (fun x v hv => by
          have hp : (TriePath.ofNibbles (pfx.nibbles ++ [x])).nibbles = pfx.nibbles ++ [x] :=
            TriePath.nibbles_ofNibbles (by simp; omega)
          have hl : (pfx.nibbles ++ [x]).length = pfx.nibbles.length + 1 := by simp
          have := ih (.ofNibbles (pfx.nibbles ++ [x])) (u := v) (by rw [hp, hl]; omega)
            (by rwa [hp])
          rwa [hp, hl] at this)
      obtain ⟨it, hfin, hrep, hcur, hpend⟩ := hinv.finish .empty hu.ascending (by omega)
      refine ⟨it, w, ?_, hrep, hcur, hpend⟩
      rw [hrun, ok_bind]
      simp only [hfin, ok_bind]

/-! ## One existing path and the updates -/

variable (keccak256 db) in
theorem overlayChildren_spec (existing : TrieItem) (e : Nibble) (walkExisting walk : ChildWalk)
    {pfx : TriePath} {m : Nat} {u : TrieUpdateCursor} {t : NibbleTrie}
    (hu : CursorAt pfx.nibbles u) (ht : t.Canonical (m + 1)) (hfit : TrieFits t)
    (hlen : pfx.nibbles.length + (m + 1) ≤ 64) (honly : ∀ x, x ≠ e → t.child x = .empty)
    (hex : Represents keccak256 db (pfx.nibbles ++ [e]) existing (t.child e))
    (hwalkExisting : ∀ v, CursorAt (pfx.nibbles ++ [e]) v →
      WalkSpec keccak256 db (pfx.nibbles ++ [e]) v
        (walkExisting v (.ofNibbles (pfx.nibbles ++ [e])))
        (updatedTrie (pending v) (pfx.nibbles ++ [e]) m (t.child e)))
    (hwalk : ∀ x v, CursorAt (pfx.nibbles ++ [x]) v → WalkSpec keccak256 db (pfx.nibbles ++ [x]) v
      (walk v (.ofNibbles (pfx.nibbles ++ [x])))
      (updatedTrie (pending v) (pfx.nibbles ++ [x]) m .empty)) :
    ∃ s, overlayChildren keccak256 db existing e walkExisting walk pfx u = .ok s ∧
      RangeInv keccak256 db pfx.nibbles m t (pending u) 16 s.children s.remaining := by
  have hstep : ∀ s : OverlayState,
      (∃ b, b ≤ 16 ∧
        RangeInv keccak256 db pfx.nibbles m t (pending u) b s.children s.remaining ∧
        (s.existingPending = true ↔ b ≤ e.val)) →
      (s.existingPending || updateUnderCurrentPrefix s.remaining) = true →
      ∃ s', overlayRound keccak256 db existing e walkExisting walk pfx s = .ok s' ∧
        ∃ b, b ≤ 16 ∧
          RangeInv keccak256 db pfx.nibbles m t (pending u) b s'.children s'.remaining ∧
          (s'.existingPending = true ↔ b ≤ e.val) := by
    rintro ⟨acc, w, pend⟩ ⟨b, _, hinv, hpend⟩ hcond
    simp only at hinv hpend hcond
    cases hunder : updateUnderCurrentPrefix w with
    | false =>
      -- only the existing item is left: everything before it is empty
      obtain rfl : pend = true := by
        rw [hunder, Bool.or_false] at hcond
        exact hcond
      have hnb := hinv.cursor.not_below hunder
      have hnone : ∀ x : Nibble, ∀ s ∈ pending w, ¬ Below (pfx.nibbles ++ [x]) s :=
        fun x s hs hb => hnb s hs ((List.prefix_append _ [x]).trans hb)
      have hskip := hinv.skip (hpend.mp rfl) fun x _ hx =>
        ⟨honly x (fun h => by rw [h] at hx; omega), hnone x⟩
      obtain ⟨acc', hadd, hinv'⟩ := hskip.passive ht hfit hlen (hnone e) hex
      refine ⟨⟨acc', w, false⟩, ?_, e.val + 1, e.isLt, hinv', by simp⟩
      simp only [overlayRound, hunder, Bool.false_eq_true, if_false, hadd, ok_bind]
    | true =>
      obtain ⟨x, v, hnib, hdesc, hcv, hpv, _, hbelow⟩ := hinv.cursor.descend hunder (by omega)
      obtain ⟨_, _, hp, _⟩ := hinv.cursor.under hunder
      have hge := hinv.pending_ge (by rw [hp]; exact List.mem_cons_self ..) hbelow
      by_cases hfirst : pend = true ∧ e < x
      · -- the existing item comes before the next update range
        have hlt : e.val < x.val := hfirst.2
        have hskip := hinv.skip (hpend.mp hfirst.1) fun y _ hy =>
          ⟨honly y (fun h => by rw [h] at hy; omega),
            hinv.none_earlier hunder hbelow (by omega)⟩
        obtain ⟨acc', hadd, hinv'⟩ := hskip.passive ht hfit hlen
          (hinv.none_earlier hunder hbelow hlt) hex
        refine ⟨⟨acc', w, false⟩, ?_, e.val + 1, e.isLt, hinv', by simp⟩
        simp only [overlayRound, hunder, if_pos, hnib, ok_bind, if_pos hfirst, hadd]
      · -- the next update range comes first, or contains the existing item
        have hle : pend = true → x.val ≤ e.val := by
          intro h
          by_contra hlt
          exact hfirst ⟨h, Fin.lt_def.mpr (by omega)⟩
        have hskip := hinv.skip hge fun y hby hy => by
          refine ⟨honly y fun h => ?_, hinv.none_earlier hunder hbelow hy⟩
          have := hpend.mpr (h ▸ hby)
          have := hle this
          rw [h] at hy
          omega
        by_cases hsame : (pend && x == e) = true
        · obtain ⟨rfl, rfl⟩ : pend = true ∧ x = e := by
            simpa using hsame
          obtain ⟨acc', w', hcon, hinv'⟩ := hskip.consume hfit ht hu.fits hlen hdesc hpv
            (hwalkExisting v hcv)
          refine ⟨⟨acc', w', false⟩, ?_, x.val + 1, x.isLt, hinv', by simp⟩
          rw [overlayRound, if_pos hunder, hnib, ok_bind, if_neg hfirst]
          simp only [hsame, if_true, hcon, ok_bind]
        · have hxe : t.child x = .empty := by
            refine honly x fun h => hsame ?_
            have : pend = true := hpend.mpr (by rw [← h]; exact hge)
            simp [this, h]
          have hw := hwalk x v hcv
          rw [← hxe] at hw
          obtain ⟨acc', w', hcon, hinv'⟩ := hskip.consume hfit ht hu.fits hlen hdesc hpv hw
          rw [Bool.not_eq_true] at hsame
          refine ⟨⟨acc', w', pend⟩, ?_, x.val + 1, x.isLt, hinv', ?_⟩
          · simp only [overlayRound, hunder, if_pos, hnib, ok_bind, if_neg hfirst, hsame,
              Bool.false_eq_true, if_false, hcon]
          · constructor
            · rintro rfl
              have h1 := hle rfl
              have h2 : x.val ≠ e.val := by
                intro h
                rw [Fin.ext h] at hsame
                simp at hsame
              omega
            · intro h
              exact hpend.mpr (by omega)
  obtain ⟨s, hloop, ⟨b, hb, hinv, hpend⟩, hend⟩ := loop_inv
    (fun _ _ hc h => overlayRound_decreases keccak256 db hc h) _ hstep
    ⟨trieChildrenEmpty, u, true⟩ ⟨0, by omega, rangeInv_start hu, by simp⟩
  obtain ⟨hp, hunder⟩ : s.existingPending = false ∧
      updateUnderCurrentPrefix s.remaining = false := by
    simpa using hend
  refine ⟨s, hloop, hinv.skip hb fun x hbx _ => ⟨honly x fun h => ?_, fun s' hs hbelow => ?_⟩⟩
  · have := hpend.mpr (h ▸ hbx)
    rw [hp] at this
    cases this
  · exact hinv.cursor.not_below hunder s' hs ((List.prefix_append _ [x]).trans hbelow)

/-- The walk of the updates under one digit, as the loops call it. -/
theorem updatesWalk_spec {pfx : TriePath} {m : Nat} (hlen : pfx.nibbles.length + (m + 1) = 64)
    (x : Nibble) (v : TrieUpdateCursor) (hv : CursorAt (pfx.nibbles ++ [x]) v) :
    WalkSpec keccak256 db (pfx.nibbles ++ [x]) v
      (updatesSubtree keccak256 db v (.ofNibbles (pfx.nibbles ++ [x])) (pfx.nibbles.length + 1))
      (updatedTrie (pending v) (pfx.nibbles ++ [x]) m .empty) := by
  have hp : (TriePath.ofNibbles (pfx.nibbles ++ [x])).nibbles = pfx.nibbles ++ [x] :=
    TriePath.nibbles_ofNibbles (by simp; omega)
  have hl : (pfx.nibbles ++ [x]).length = pfx.nibbles.length + 1 := by simp
  have := updatesSubtree_spec keccak256 db m (.ofNibbles (pfx.nibbles ++ [x])) (u := v)
    (by rw [hp, hl]; omega) (by rwa [hp])
  rwa [hp, hl] at this

theorem overlayLeafSubtree_spec (m : Nat) (pfx : TriePath) {key : TriePath} {q : List Nibble}
    {v : List Byte} {u : TrieUpdateCursor} (hkey : key.nibbles = pfx.nibbles ++ q)
    (hq : q.length = m)
    (hlen : pfx.nibbles.length + m = 64) (hv : ValueFits v) (hu : CursorAt pfx.nibbles u) :
    WalkSpec keccak256 db pfx.nibbles u
      (overlayLeafSubtree keccak256 db u pfx key v pfx.nibbles.length)
      (updatedTrie (pending u) pfx.nibbles m (.leaf q v)) := by
  induction m generalizing pfx q u with
  | zero =>
    obtain rfl := List.eq_nil_of_length_eq_zero hq
    rw [List.append_nil] at hkey
    obtain rfl := TriePath.eq_of_nibbles hkey
    rw [overlayLeafSubtree, dif_neg (by simp [pathPrefixOf_eq]), dif_pos (by omega),
      if_neg (by simp [pathEq_eq])]
    cases hunder : updateUnderCurrentPrefix u with
    | false =>
      exact walkSpec_untouched hu hunder (.leaf _ _ rfl)
        (represents_inputLeaf (List.append_nil _).symm hv)
    | true =>
      rw [if_pos rfl]
      exact popUpdateAt_spec hu hunder (by omega)
  | succ m ih =>
    cases q with
    | nil => simp at hq
    | cons y q =>
      have ht : (Trie.leaf (y :: q) v : NibbleTrie).Canonical (m + 1) := .leaf _ _ hq
      have hnib : pathNibble key pfx.nibbles.length = y := by
        rw [pathNibble_eq, hkey]
        simp
      rw [overlayLeafSubtree, dif_neg (by simp [pathPrefixOf_eq, hkey]), dif_neg (by omega), hnib]
      have hkey' : key.nibbles = pfx.nibbles ++ [y] ++ q := by
        rw [hkey, List.append_assoc]
        rfl
      obtain ⟨s, hrun, hinv⟩ := overlayChildren_spec keccak256 db (trieInputLeaf key v) y
        (fun w p => overlayLeafSubtree keccak256 db w p key v (pfx.nibbles.length + 1))
        (fun w p => updatesSubtree keccak256 db w p (pfx.nibbles.length + 1))
        hu ht (.leaf _ _ (by omega) hv) (by omega)
        (fun x hx => by simp [hx])
        (by simpa using represents_inputLeaf hkey' hv)
        (fun w hw => by
          have hp : (TriePath.ofNibbles (pfx.nibbles ++ [y])).nibbles = pfx.nibbles ++ [y] :=
            TriePath.nibbles_ofNibbles (by simp; omega)
          have hl : (pfx.nibbles ++ [y]).length = pfx.nibbles.length + 1 := by simp
          have := ih (.ofNibbles (pfx.nibbles ++ [y])) (q := q) (u := w)
            (by rw [hp]; exact hkey') (by simpa using hq) (by rw [hp, hl]; omega) (by rwa [hp])
          rw [hp, hl] at this
          simpa using this)
        (updatesWalk_spec (by omega))
      obtain ⟨it, hfin, hrep, hcur, hpend⟩ := hinv.finish ht hu.ascending (by omega)
      refine ⟨it, s.remaining, ?_, hrep, hcur, hpend⟩
      rw [hrun, ok_bind, hfin, ok_bind]

theorem overlayExtensionSubtree_spec {cs : Nibble → NibbleTrie} {m' : Nat}
    (hb : (Trie.branch cs).Canonical m') (hfb : TrieFits (.branch cs))
    (hw : Witnessed keccak256 db (.branch cs)) {childref : NodeRef}
    (hr : InputRefOf keccak256 childref (encodeNode keccak256 (.branch cs)))
    (resume : StatelessInputSlice → TrieUpdateCursor → Result (TrieItem × TrieUpdateCursor))
    (childPrefix : TriePath)
    (hresume : ∀ u, CursorAt childPrefix.nibbles u → WalkSpec keccak256 db childPrefix.nibbles u
      (resume (encodeNode keccak256 (.branch cs)) u)
      (updatedTrie (pending u) childPrefix.nibbles m' (.branch cs)))
    (hlenc : childPrefix.nibbles.length + m' = 64) (q : List Nibble) (pfx : TriePath)
    {u : TrieUpdateCursor} (hpre : childPrefix.nibbles = pfx.nibbles ++ q)
    (hu : CursorAt pfx.nibbles u) :
    WalkSpec keccak256 db pfx.nibbles u
      (overlayExtensionSubtree keccak256 db resume childref childPrefix u pfx pfx.nibbles.length)
      (updatedTrie (pending u) pfx.nibbles (q.length + m') ((Trie.branch cs).prepend q)) := by
  have hlenq := congrArg List.length hpre
  rw [List.length_append] at hlenq
  induction q generalizing pfx u with
  | nil =>
    rw [List.append_nil] at hpre
    obtain rfl := TriePath.eq_of_nibbles hpre
    rw [overlayExtensionSubtree, dif_neg (by simp [pathPrefixOf_eq]), if_pos (by simp [pathEq_eq])]
    simp only [List.length_nil, Nat.zero_add, Trie.prepend_nil]
    cases hunder : updateUnderCurrentPrefix u with
    | false =>
      refine walkSpec_untouched hu hunder hb ?_
      have : Represents keccak256 db childPrefix.nibbles (trieBranch childPrefix childref)
          ((Trie.branch cs).prepend []) :=
        .item _ [] _ m' (by simp [trieBranch]) (.branch cs childref hr.refOf) hb hfb
          (by simp; omega)
      simpa using this
    | true =>
      rw [if_pos rfl, hw.resolve hr.refOf hr.notScratch, ok_bind]
      exact hresume u hu
  | cons y q ih =>
    rw [List.length_cons] at hlenq
    have hm : (y :: q).length + m' = q.length + m' + 1 := by
      rw [List.length_cons]
      omega
    have hprep : (Trie.branch cs).prepend (y :: q) = Trie.ext (y :: q) (.branch cs) :=
      Trie.prepend_branch (by simp) cs
    have ht : (Trie.ext (y :: q) (.branch cs) : NibbleTrie).Canonical (q.length + m' + 1) :=
      .ext _ cs (by simp) hm hb
    have hne : ¬ pathEq pfx childPrefix = true := by
      rw [pathEq_eq, decide_eq_true_eq]
      intro h
      have := congrArg List.length h
      omega
    have hnib : pathNibble childPrefix pfx.nibbles.length = y := by
      rw [pathNibble_eq, hpre]
      simp
    have hpre' : childPrefix.nibbles = pfx.nibbles ++ [y] ++ q := by
      rw [hpre, List.append_assoc]
      rfl
    rw [hprep, hm, overlayExtensionSubtree, dif_neg (by simp [pathPrefixOf_eq, hpre]), if_neg hne,
      dif_neg (by omega), hnib]
    obtain ⟨s, hrun, hinv⟩ := overlayChildren_spec keccak256 db
      (trieBranch childPrefix childref) y
      (fun w p => overlayExtensionSubtree keccak256 db resume childref childPrefix w p
        (pfx.nibbles.length + 1))
      (fun w p => updatesSubtree keccak256 db w p (pfx.nibbles.length + 1))
      hu ht (.ext _ _ (by rw [List.length_cons]; omega) hfb) (by omega)
      (fun x hx => by simp [hx])
      (by
        have : Represents keccak256 db (pfx.nibbles ++ [y]) (trieBranch childPrefix childref)
            ((Trie.branch cs).prepend q) :=
          .item _ q _ m' (by simp [trieBranch, hpre]) (.branch cs childref hr.refOf) hb hfb
            (by simp; omega)
        simpa using this)
      (fun w hw' => by
        have hp : (TriePath.ofNibbles (pfx.nibbles ++ [y])).nibbles = pfx.nibbles ++ [y] :=
          TriePath.nibbles_ofNibbles (by simp; omega)
        have hl : (pfx.nibbles ++ [y]).length = pfx.nibbles.length + 1 := by simp
        have := ih (.ofNibbles (pfx.nibbles ++ [y])) (u := w) (by rw [hp]; exact hpre')
          (by rwa [hp]) (by rw [hp, hl]; omega)
        rw [hp, hl] at this
        simpa using this)
      (updatesWalk_spec (by omega))
    obtain ⟨it, hfin, hrep, hcur, hpend⟩ := hinv.finish ht hu.ascending (by omega)
    refine ⟨it, s.remaining, ?_, hrep, hcur, hpend⟩
    rw [hrun, ok_bind, hfin, ok_bind]

/-! ## The children of a witness branch -/

theorem branchRound_spec {pfx : TriePath} {m : Nat} {S : List TrieUpdate}
    {cs : Nibble → NibbleTrie} {children : BranchRefs} {resume : StatelessInputSlice → ChildWalk}
    {walk : ChildWalk} (ht : (Trie.branch cs).Canonical (m + 1)) (hfit : TrieFits (.branch cs))
    (hw : Witnessed keccak256 db (.branch cs)) (hS : ∀ s ∈ S, UpdateFits s)
    (hlen : pfx.nibbles.length + (m + 1) = 64)
    (hrefs : ∀ x : Nibble,
      InputRefOf keccak256 (branchRefsGet children x) (encodeNode keccak256 (cs x)))
    (hresume : ∀ x v, CursorAt (pfx.nibbles ++ [x]) v →
      WalkSpec keccak256 db (pfx.nibbles ++ [x]) v
        (resume (encodeNode keccak256 (cs x)) v (.ofNibbles (pfx.nibbles ++ [x])))
        (updatedTrie (pending v) (pfx.nibbles ++ [x]) m (cs x)))
    (hwalk : ∀ x v, CursorAt (pfx.nibbles ++ [x]) v → WalkSpec keccak256 db (pfx.nibbles ++ [x]) v
      (walk v (.ofNibbles (pfx.nibbles ++ [x])))
      (updatedTrie (pending v) (pfx.nibbles ++ [x]) m .empty))
    (x : Nibble) (s : TrieChildren × TrieUpdateCursor)
    (hinv : RangeInv keccak256 db pfx.nibbles m (.branch cs) S x.val s.1 s.2) :
    ∃ s', branchRound keccak256 db resume walk children pfx x s = .ok s' ∧
      RangeInv keccak256 db pfx.nibbles m (.branch cs) S (x.val + 1) s'.1 s'.2 := by
  obtain ⟨acc, u⟩ := s
  have hsingle : (TriePath.ofNibbles [x]).nibbles = [x] := TriePath.nibbles_ofNibbles (by simp)
  have hpath : (TriePath.ofNibbles (pfx.nibbles ++ [x])).nibbles = pfx.nibbles ++ [x] :=
    TriePath.nibbles_ofNibbles (by simp; omega)
  have hpresent : (branchRefsGet children x).isPresent = true ↔ cs x ≠ .empty := by
    have := (hrefs x).refOf.eq_nil_iff
    rw [encodeNode_eq_nil] at this
    rw [ne_eq, this]
    cases branchRefsGet children x <;> simp [NodeRef.isPresent]
  have hround : ∀ r, (branchUpdateHere u x >>= fun here =>
      branchChild db resume walk (branchRefsGet children x) (.ofNibbles (pfx.nibbles ++ [x])) u
          here >>=
        fun c => trieChildrenAdd keccak256 db acc pfx x c.1 >>= fun built =>
          if here then trieUpdatesRebase c.2 pfx >>= fun w => .ok (built, w)
          else .ok (built, c.2)) = r →
      branchRound keccak256 db resume walk children pfx x (acc, u) = r := by
    intro r h
    rw [← h]
    simp only [branchRound, pathSingle_eq, ok_bind, pathConcat_eq, hsingle, List.length_singleton]
    rw [if_pos (by omega), ok_bind]
  -- an untouched child is taken over by reference
  have hpassive : branchUpdateHere u x = .ok false →
      (∀ s ∈ pending u, ¬ Below (pfx.nibbles ++ [x]) s) →
      ∃ s', branchRound keccak256 db resume walk children pfx x (acc, u) = .ok s' ∧
        RangeInv keccak256 db pfx.nibbles m (.branch cs) S (x.val + 1) s'.1 s'.2 := by
    intro hhere hno
    obtain ⟨it, hit, hrep⟩ : ∃ it,
        branchChild db resume walk (branchRefsGet children x) (.ofNibbles (pfx.nibbles ++ [x])) u
            false =
          .ok (it, u) ∧ Represents keccak256 db (pfx.nibbles ++ [x]) it (cs x) := by
      by_cases hc : cs x = .empty
      · have hp : ¬ (branchRefsGet children x).isPresent = true := fun h => hpresent.mp h hc
        refine ⟨trieEmptySubtree, by rw [branchChild, if_neg Bool.false_ne_true, if_neg hp], ?_⟩
        rw [hc]
        exact .empty _
      · refine ⟨trieSubtree (.ofNibbles (pfx.nibbles ++ [x])) (branchRefsGet children x),
          by rw [branchChild, if_neg Bool.false_ne_true, if_pos (hpresent.mpr hc)], ?_⟩
        have : Represents keccak256 db (pfx.nibbles ++ [x])
            (trieSubtree (.ofNibbles (pfx.nibbles ++ [x])) (branchRefsGet children x))
            ((cs x).prepend []) :=
          .item _ [] _ m (by simp [trieSubtree, hpath])
            (.subtree (cs x) _ hc (hrefs x).refOf (hw.branch x)) (ht.child x)
            (hfit.child ht (by omega) x) (by simp; omega)
        simpa using this
    obtain ⟨acc', hadd, hinv'⟩ := hinv.passive ht hfit (by omega) hno hrep
    refine ⟨(acc', u), hround _ ?_, hinv'⟩
    rw [hhere, ok_bind, hit, ok_bind, hadd, ok_bind]
    simp
  cases hunder : updateUnderCurrentPrefix u with
  | false =>
    refine hpassive (by simp [branchUpdateHere, hunder]) fun s hs hb => ?_
    exact hinv.cursor.not_below hunder s hs ((List.prefix_append _ [x]).trans hb)
  | true =>
    obtain ⟨y, v, hnib, hdesc, hcv, hpv, _, hbelow⟩ := hinv.cursor.descend hunder (by omega)
    obtain ⟨_, _, hp, _⟩ := hinv.cursor.under hunder
    have hge := hinv.pending_ge (by rw [hp]; exact List.mem_cons_self ..) hbelow
    have hhere : branchUpdateHere u x = .ok (y == x) := by
      rw [branchUpdateHere, hunder, if_pos rfl, hnib, ok_bind, if_neg]
      exact not_lt.mpr (Fin.le_def.mpr hge)
    by_cases hyx : y = x
    · subst hyx
      rw [beq_self_eq_true] at hhere
      have hchild : WalkSpec keccak256 db (pfx.nibbles ++ [y]) v
          (branchChild db resume walk (branchRefsGet children y) (.ofNibbles (pfx.nibbles ++ [y])) u
            true)
          (updatedTrie (pending v) (pfx.nibbles ++ [y]) m (cs y)) := by
        rw [branchChild, if_pos rfl, hdesc, ok_bind]
        by_cases hc : cs y = .empty
        · rw [if_neg fun h => hpresent.mp h hc, hc]
          exact hwalk y v hcv
        · rw [if_pos (hpresent.mpr hc),
            (hw.branch y).resolve (hrefs y).refOf (hrefs y).notScratch, ok_bind]
          exact hresume y v hcv
      obtain ⟨it, v', hres, hit, hv', hpend⟩ := hchild
      rw [hpv] at hit hpend
      obtain ⟨acc', w, hadd, hreb, hinv'⟩ := hinv.advance hfit ht hS (by omega) hit hv' hpend
      refine ⟨(acc', w), hround _ ?_, hinv'⟩
      rw [hhere, ok_bind, hres, ok_bind, hadd, ok_bind, if_pos rfl, hreb, ok_bind]
    · have hlt : x.val < y.val := by
        have : y.val ≠ x.val := fun h => hyx (Fin.ext h)
        omega
      rw [beq_eq_false_iff_ne.mpr hyx] at hhere
      exact hpassive hhere (hinv.none_earlier hunder hbelow hlt)

/-! ## The witness walk -/

theorem witnessSubtree_spec (n : Nat) (pfx : TriePath) {t : NibbleTrie} {u : TrieUpdateCursor}
    (ht : t.Canonical n) (hfit : TrieFits t) (hw : Witnessed keccak256 db t)
    (hlen : pfx.nibbles.length + n = 64) (hu : CursorAt pfx.nibbles u) :
    WalkSpec keccak256 db pfx.nibbles u
      (witnessSubtree keccak256 db (encodeNode keccak256 t) pfx u pfx.nibbles.length)
      (updatedTrie (pending u) pfx.nibbles n t) := by
  induction n using Nat.strongRecOn generalizing t pfx u with
  | _ n ih =>
  rw [witnessSubtree, dif_neg (by simp)]
  by_cases hne : t = .empty
  · subst hne
    rw [if_pos (show (encodeNode keccak256 .empty).length = 0 from rfl)]
    exact updatesSubtree_spec keccak256 db n pfx hlen hu
  rw [if_neg (by rw [List.length_eq_zero_iff, encodeNode_eq_nil]; exact hne)]
  obtain ⟨node, hnode, hdec⟩ := decodeInputTrieNode_encodeNode keccak256 ht.compressed hfit hne
  rw [hnode]
  cases hdec with
  | leaf q v hq =>
    cases ht with
    | leaf _ _ hqn =>
    cases hfit with
    | leaf _ _ _ hv =>
    simp only [pathConcat_eq, TriePath.nibbles_ofNibbles hq]
    rw [if_pos (by omega), ok_bind]
    exact overlayLeafSubtree_spec n pfx
      (TriePath.nibbles_ofNibbles (by simp only [List.length_append]; omega)) hqn hlen hv hu
  | ext q c r hq hr =>
    cases ht with
    | @ext _ m' _ cs hqne hqn hc =>
    cases hfit with
    | ext _ _ _ hfc =>
    have hqpos := List.length_pos_iff.mpr hqne
    have hext : ¬ (pathLen (.ofNibbles q) = 0 ∨
        64 < pfx.nibbles.length + pathLen (.ofNibbles q)) := by
      rw [pathLen_eq, TriePath.nibbles_ofNibbles hq]
      omega
    have hconcat : pathConcat pfx (.ofNibbles q) = .ok (.ofNibbles (pfx.nibbles ++ q)) := by
      rw [pathConcat_eq, TriePath.nibbles_ofNibbles hq, if_pos (by omega)]
    have hp : (TriePath.ofNibbles (pfx.nibbles ++ q)).nibbles = pfx.nibbles ++ q :=
      TriePath.nibbles_ofNibbles (by simp only [List.length_append]; omega)
    simp only [dif_neg hext]
    split
    · rename_i e he
      rw [hconcat] at he
      cases he
    · rename_i childPrefix hcp
      rw [hconcat] at hcp
      obtain rfl := Except.ok.inj hcp
      have hspec := overlayExtensionSubtree_spec hc hfc hw.ext hr
        (fun child updates => witnessSubtree keccak256 db child
          (.ofNibbles (pfx.nibbles ++ q)) updates (pathLen (.ofNibbles (pfx.nibbles ++ q))))
        (.ofNibbles (pfx.nibbles ++ q))
        (fun w hcw => by
          rw [pathLen_eq]
          exact ih m' (by omega) _ hc hfc hw.ext
            (by rw [hp, List.length_append]; omega) hcw)
        (by rw [hp, List.length_append]; omega) q pfx hp hu
      rw [Trie.prepend_branch hqne, hqn] at hspec
      exact hspec
  | branch cs children hrefs =>
    cases ht with
    | branch _ hcs hab ha hb =>
    rename_i m a b
    have ht : (Trie.branch cs).Canonical (m + 1) := .branch cs hcs hab ha hb
    cases hfit with
    | branch _ hfcs =>
    have hfit : TrieFits (.branch cs) := .branch cs hfcs
    have hbr : ¬ (([] : List Byte).length ≠ 0 ∨ 64 ≤ pfx.nibbles.length) := by
      simp
      omega
    simp only [dif_neg hbr]
    obtain ⟨⟨acc, w⟩, hrun, hinv⟩ := foreach_inv
      (branchRound keccak256 db
        (fun child descended childPrefix =>
          witnessSubtree keccak256 db child childPrefix descended (pfx.nibbles.length + 1))
        (fun descended childPrefix =>
          updatesSubtree keccak256 db descended childPrefix (pfx.nibbles.length + 1))
        children pfx)
      (fun k s => RangeInv keccak256 db pfx.nibbles m (.branch cs) (pending u) k s.1 s.2)
      (fun x s hinv => branchRound_spec ht hfit hw hu.fits hlen hrefs
        (fun x v hv => by
          have hp : (TriePath.ofNibbles (pfx.nibbles ++ [x])).nibbles = pfx.nibbles ++ [x] :=
            TriePath.nibbles_ofNibbles (by simp; omega)
          have hl : (pfx.nibbles ++ [x]).length = pfx.nibbles.length + 1 := by simp
          have := ih m (by omega) (.ofNibbles (pfx.nibbles ++ [x])) (t := cs x) (u := v)
            (hcs x) (hfcs x) (hw.branch x) (by rw [hp, hl]; omega) (by rwa [hp])
          rwa [hp, hl] at this)
        (updatesWalk_spec hlen) x s hinv)
      (trieChildrenEmpty, u) (rangeInv_start hu)
    obtain ⟨it, hfin, hrep, hcur, hpend⟩ := hinv.finish ht hu.ascending (by omega)
    have hnot : updateUnderCurrentPrefix w = false := by
      rw [← Bool.not_eq_true]
      intro hunder
      obtain ⟨post, _, hp, hkey⟩ := hcur.under hunder
      refine not_below_afterPrefix (P := pfx.nibbles) (S := pending u) w.current ?_ ?_
      · rw [← hpend, hp]
        exact List.mem_cons_self ..
      · rw [Below, hkey]
        exact List.prefix_append _ _
    refine ⟨it, w, ?_, hrep, hcur, hpend⟩
    rw [hrun, ok_bind]
    simp only [hnot, Bool.false_eq_true, if_false, hfin, ok_bind]

end EvmSail
