/-
# `EvmSail.Lib.LinearProbe` — open addressing with linear probing

A table of `m` buckets in which a key is stored at the first empty bucket
from its home on, and looked for until an empty one.  Keys that are there
already keep their first value.

`Represents` is the invariant: every stored key is reached from its home past
other keys only.  It makes lookups those of the list of insertions
(`find_eq`), and it is kept as long as an empty bucket is left
(`Represents.insert`, `Represents.insertAll`).
-/
import Mathlib

namespace LinearProbe

variable {κ ν : Type} [DecidableEq κ]

/-- Looks for a key from a bucket on, at most `n` buckets far. -/
def find (m : Nat) (buckets : Nat → Option (κ × ν)) (k : κ) : Nat → Nat → Option ν
  | 0, _ => none
  | n + 1, b =>
    match buckets b with
    | none => none
    | some (k', v) => if k' = k then some v else find m buckets k n ((b + 1) % m)

/-- Stores a key that is not there yet; nothing without an empty bucket. -/
def insert (m : Nat) (buckets : Nat → Option (κ × ν)) (k : κ) (v : ν) :
    Nat → Nat → Option (Nat → Option (κ × ν))
  | 0, _ => none
  | n + 1, b =>
    match buckets b with
    | none => some (Function.update buckets b (some (k, v)))
    | some (k', _) => if k' = k then some buckets else insert m buckets k v n ((b + 1) % m)

/-- From bucket `b` the `j` next ones hold other keys. -/
def Passes (m : Nat) (buckets : Nat → Option (κ × ν)) (k : κ) (b j : Nat) : Prop :=
  ∀ i < j, ∃ k' v', buckets ((b + i) % m) = some (k', v') ∧ k' ≠ k

/-- The buckets hold the first value of each key of the list. -/
structure Represents (m : Nat) (home : κ → Nat) (buckets : Nat → Option (κ × ν))
    [BEq κ] (l : List (κ × ν)) : Prop where
  sound : ∀ b < m, ∀ k v, buckets b = some (k, v) → l.lookup k = some v
  complete : ∀ k v, l.lookup k = some v → ∃ j < m, Passes m buckets k (home k) j ∧
    buckets ((home k + j) % m) = some (k, v)
  room : ((Finset.range m).filter fun b => (buckets b).isSome).card ≤ l.length

section

variable {m : Nat} {buckets : Nat → Option (κ × ν)} {k : κ} {v : ν}

omit [DecidableEq κ] in
theorem Passes.tail {b j : Nat} (h : Passes m buckets k b (j + 1)) :
    Passes m buckets k (b + 1) j := by
  intro i hi
  obtain ⟨k', v', hat, hne⟩ := h (i + 1) (by omega)
  refine ⟨k', v', ?_, hne⟩
  rwa [show b + 1 + i = b + (i + 1) by omega]

omit [DecidableEq κ] in
/-- Storing at an empty bucket leaves what was reached. -/
theorem Passes.update {b j e : Nat} (h : Passes m buckets k b j) (hempty : buckets e = none)
    (x : κ × ν) : Passes m (Function.update buckets e (some x)) k b j := by
  intro i hi
  obtain ⟨k', v', hat, hne⟩ := h i hi
  refine ⟨k', v', ?_, hne⟩
  rw [Function.update_of_ne, hat]
  rintro heq
  rw [heq, hempty] at hat
  cases hat

theorem find_of_passes {b j n : Nat} (hj : j < n) (hpass : Passes m buckets k b j)
    (hat : buckets ((b + j) % m) = some (k, v)) :
    find m buckets k n (b % m) = some v := by
  induction j generalizing b n with
  | zero =>
    obtain ⟨n, rfl⟩ := Nat.exists_eq_succ_of_ne_zero (Nat.ne_of_gt hj)
    rw [Nat.add_zero] at hat
    rw [find, hat]
    exact if_pos rfl
  | succ j ih =>
    obtain ⟨n, rfl⟩ := Nat.exists_eq_succ_of_ne_zero (Nat.ne_of_gt (Nat.zero_lt_of_lt hj))
    obtain ⟨k', v', hfirst, hne⟩ := hpass 0 (Nat.succ_pos j)
    rw [Nat.add_zero] at hfirst
    have hstep := ih (b := b + 1) (Nat.lt_of_succ_lt_succ hj) hpass.tail
      (by rwa [show b + 1 + j = b + (j + 1) by omega])
    rw [find, hfirst]
    dsimp only
    rw [if_neg hne, Nat.mod_add_mod, hstep]

theorem find_eq_none (hm : 0 < m) (hnone : ∀ b < m, ∀ v, buckets b ≠ some (k, v)) (n b : Nat)
    (hb : b < m) : find m buckets k n b = none := by
  induction n generalizing b with
  | zero => rfl
  | succ n ih =>
    rw [find]
    split
    · rfl
    · rename_i k' v' hat
      have hne : k' ≠ k := by
        rintro rfl
        exact hnone b hb v' hat
      rw [if_neg hne]
      exact ih _ (Nat.mod_lt _ hm)

theorem insert_of_passes {b j n : Nat} (hj : j < n) (hpass : Passes m buckets k b j) (v : ν) :
    insert m buckets k v n (b % m) = insert m buckets k v (n - j) ((b + j) % m) := by
  induction j generalizing b n with
  | zero => rfl
  | succ j ih =>
    obtain ⟨n, rfl⟩ := Nat.exists_eq_succ_of_ne_zero (Nat.ne_of_gt (Nat.zero_lt_of_lt hj))
    obtain ⟨k', v', hfirst, hne⟩ := hpass 0 (Nat.succ_pos j)
    rw [Nat.add_zero] at hfirst
    rw [insert, hfirst]
    dsimp only
    rw [if_neg hne, Nat.mod_add_mod, ih (Nat.lt_of_succ_lt_succ hj) hpass.tail,
      Nat.succ_sub_succ, show b + 1 + j = b + (j + 1) by omega]

omit [DecidableEq κ] in
/-- With fewer buckets taken than there are, one on the way is empty. -/
theorem exists_empty (hm : 0 < m)
    (hroom : ((Finset.range m).filter fun b => (buckets b).isSome).card < m) (b : Nat) :
    ∃ j < m, buckets ((b + j) % m) = none := by
  obtain ⟨e, he, hnot⟩ : ∃ e < m, buckets e = none := by
    by_contra hall
    push Not at hall
    have hfull : (Finset.range m).filter (fun b => (buckets b).isSome) = Finset.range m :=
      Finset.filter_true_of_mem fun e he =>
        Option.isSome_iff_ne_none.mpr (hall e (Finset.mem_range.mp he))
    rw [hfull, Finset.card_range] at hroom
    exact Nat.lt_irrefl m hroom
  refine ⟨(e + (m - b % m)) % m, Nat.mod_lt _ hm, ?_⟩
  have hb : b % m < m := Nat.mod_lt b hm
  have hto : (b + (e + (m - b % m)) % m) % m = e := by
    have hsplit := Nat.div_add_mod b m
    have hwhole : b + (e + (m - b % m)) = e + m * (b / m + 1) := by
      rw [Nat.mul_add, Nat.mul_one]
      omega
    rw [Nat.add_mod_mod, hwhole, Nat.add_mul_mod_self_left, Nat.mod_eq_of_lt he]
  rw [hto, hnot]

end

section

variable [BEq κ] [LawfulBEq κ] {m : Nat} {home : κ → Nat} {buckets : Nat → Option (κ × ν)}
  {l : List (κ × ν)} {k : κ} {v : ν}

omit [LawfulBEq κ] in
/-- A lookup from the home of a key. -/
theorem find_eq (h : Represents m home buckets l) (hm : 0 < m) (k : κ) :
    find m buckets k m (home k % m) = l.lookup k := by
  cases hlookup : l.lookup k with
  | none =>
    refine find_eq_none hm (fun b hb v hat => ?_) m _ (Nat.mod_lt _ hm)
    have hsome := h.sound b hb k v hat
    rw [hlookup] at hsome
    cases hsome
  | some v =>
    obtain ⟨j, hj, hpass, hat⟩ := h.complete k v hlookup
    exact find_of_passes hj hpass hat

omit [DecidableEq κ] [LawfulBEq κ] in
theorem represents_nil (m : Nat) (home : κ → Nat) :
    Represents m home (fun _ => none) ([] : List (κ × ν)) where
  sound := nofun
  complete := nofun
  room := by simp

theorem lookup_concat (l : List (κ × ν)) (k k' : κ) (v : ν) :
    (l ++ [(k, v)]).lookup k' = (l.lookup k').or (if k' = k then some v else none) := by
  induction l with
  | nil =>
    rw [List.nil_append, List.lookup_cons, List.lookup_nil, Option.none_or]
    by_cases h : k' = k
    · rw [if_pos h, beq_iff_eq.mpr h]
    · rw [if_neg h, beq_eq_false_iff_ne.mpr h]
  | cons e l ih =>
    rw [List.cons_append, List.lookup_cons, List.lookup_cons]
    by_cases h : k' = e.1
    · simp [h]
    · simp [beq_eq_false_iff_ne.mpr h, ih]

/-- A key that is there keeps its value; the buckets stay. -/
theorem insert_present (h : Represents m home buckets l) {v' : ν} (hlookup : l.lookup k = some v')
    (v : ν) : insert m buckets k v m (home k % m) = some buckets ∧
      Represents m home buckets (l ++ [(k, v)]) := by
  obtain ⟨j, hj, hpass, hat⟩ := h.complete k v' hlookup
  constructor
  · rw [insert_of_passes hj hpass]
    obtain ⟨n, hn⟩ := Nat.exists_eq_succ_of_ne_zero (Nat.sub_ne_zero_of_lt hj)
    rw [hn, insert, hat]
    exact if_pos rfl
  · have hsame : ∀ k', (l ++ [(k, v)]).lookup k' = l.lookup k' := by
      intro k'
      rw [lookup_concat]
      by_cases hk : k' = k
      · rw [hk, hlookup, Option.some_or]
      · rw [if_neg hk, Option.or_none]
    refine ⟨fun b hb k' u hat' => ?_, fun k' u hlook => ?_, ?_⟩
    · rw [hsame]
      exact h.sound b hb k' u hat'
    · rw [hsame] at hlook
      exact h.complete k' u hlook
    · rw [List.length_append]
      exact h.room.trans (Nat.le_add_right _ _)

theorem insert_absent (h : Represents m home buckets l) (hm : 0 < m) (hlen : l.length < m)
    (hlookup : l.lookup k = none) (v : ν) :
    ∃ buckets', insert m buckets k v m (home k % m) = some buckets' ∧
      Represents m home buckets' (l ++ [(k, v)]) := by
  have hexists : ∃ j, buckets ((home k + j) % m) = none := by
    obtain ⟨j, _, hempty⟩ := exists_empty hm (h.room.trans_lt hlen) (home k)
    exact ⟨j, hempty⟩
  classical
  -- the first empty bucket from the home on
  obtain ⟨j, hj, hempty, hbefore⟩ : ∃ j < m, buckets ((home k + j) % m) = none ∧
      ∀ i < j, buckets ((home k + i) % m) ≠ none := by
    obtain ⟨j, hj, hempty⟩ := exists_empty hm (h.room.trans_lt hlen) (home k)
    exact ⟨Nat.find hexists, (Nat.find_min' hexists hempty).trans_lt hj, Nat.find_spec hexists,
      fun i hi => Nat.find_min hexists hi⟩
  have hnew : ∀ b < m, ∀ u, buckets b ≠ some (k, u) := by
    intro b hb u hat
    have hsome := h.sound b hb k u hat
    rw [hlookup] at hsome
    cases hsome
  have hpass : Passes m buckets k (home k) j := by
    intro i hi
    obtain ⟨⟨k', u⟩, hat⟩ := Option.ne_none_iff_exists'.mp (hbefore i hi)
    exact ⟨k', u, hat, fun heq => hnew _ (Nat.mod_lt _ hm) u (heq ▸ hat)⟩
  refine ⟨Function.update buckets ((home k + j) % m) (some (k, v)), ?_, ?_, ?_, ?_⟩
  · rw [insert_of_passes hj hpass]
    obtain ⟨n, hn⟩ := Nat.exists_eq_succ_of_ne_zero (Nat.sub_ne_zero_of_lt hj)
    rw [hn, insert, hempty]
  · intro b hb k' u hat
    rw [lookup_concat]
    by_cases heq : b = (home k + j) % m
    · rw [heq, Function.update_self] at hat
      cases hat
      rw [hlookup, Option.none_or, if_pos rfl]
    · rw [Function.update_of_ne heq] at hat
      rw [h.sound b hb k' u hat, Option.some_or]
  · intro k' u hlook
    rw [lookup_concat] at hlook
    cases hold : l.lookup k' with
    | some u' =>
      rw [hold, Option.some_or] at hlook
      cases hlook
      obtain ⟨i, hi, hreach, hat⟩ := h.complete k' u hold
      refine ⟨i, hi, hreach.update hempty _, ?_⟩
      rw [Function.update_of_ne, hat]
      rintro heq
      rw [heq, hempty] at hat
      cases hat
    | none =>
      rw [hold, Option.none_or] at hlook
      by_cases hk : k' = k
      · rw [if_pos hk] at hlook
        cases hlook
        subst hk
        exact ⟨j, hj, hpass.update hempty _, Function.update_self _ _ _⟩
      · rw [if_neg hk] at hlook
        cases hlook
  · have hsub : (Finset.range m).filter
        (fun b => (Function.update buckets ((home k + j) % m) (some (k, v)) b).isSome) ⊆
        Insert.insert ((home k + j) % m)
          ((Finset.range m).filter fun b => (buckets b).isSome) := by
      intro b hb
      rw [Finset.mem_filter] at hb
      rw [Finset.mem_insert, Finset.mem_filter]
      by_cases heq : b = (home k + j) % m
      · exact Or.inl heq
      · rw [Function.update_of_ne heq] at hb
        exact Or.inr hb
    rw [List.length_append, List.length_singleton]
    exact ((Finset.card_le_card hsub).trans (Finset.card_insert_le _ _)).trans
      (Nat.add_le_add_right h.room 1)

/-- As long as there are more buckets than insertions, one more is added. -/
theorem Represents.insert (h : Represents m home buckets l) (hlen : l.length < m) (k : κ) (v : ν) :
    ∃ buckets', insert m buckets k v m (home k % m) = some buckets' ∧
      Represents m home buckets' (l ++ [(k, v)]) := by
  cases hlookup : l.lookup k with
  | none => exact insert_absent h (Nat.zero_lt_of_lt hlen) hlen hlookup v
  | some v' => exact ⟨buckets, insert_present h hlookup v⟩

/-- A whole list is added where there are enough buckets. -/
theorem Represents.insertAll (h : Represents m home buckets l) {l' : List (κ × ν)}
    (hlen : l.length + l'.length ≤ m) :
    ∃ buckets', l'.foldlM (fun buckets e => LinearProbe.insert m buckets e.1 e.2 m (home e.1 % m))
      buckets = some buckets' ∧ Represents m home buckets' (l ++ l') := by
  induction l' generalizing buckets l with
  | nil => exact ⟨buckets, rfl, (List.append_nil l).symm ▸ h⟩
  | cons e l' ih =>
    rw [List.length_cons] at hlen
    obtain ⟨buckets₁, hinsert, h₁⟩ := h.insert (by omega) e.1 e.2
    obtain ⟨buckets', hrest, h'⟩ := ih h₁ (by rw [List.length_append, List.length_singleton]; omega)
    refine ⟨buckets', ?_, ?_⟩
    · rw [List.foldlM_cons, hinsert]
      exact hrest
    · rwa [List.append_assoc] at h'

end

end LinearProbe
