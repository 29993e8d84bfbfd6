/-
# `EvmSail.Lib.RadixBelow` — the parts of a trie below its paths

`subtrie n p J` is what the construction of `EvmSail.Lib.RadixBuild` makes of
the entries below a path.  It is the combination of those one digit further
down (`subtrie_combine`), and where all entries below a path share a longer
one, it is that of the longer path with the difference in front
(`subtrie_prepend`).

An entry forks from a path at the digit where it leaves it.  Entries that are
added in order leave the last of them only where an earlier one has, or
has not, left it already, which is what a stack of open branches records.
-/
import EvmSail.Lib.RadixBuild
import EvmSail.Lib.PrefixOrder

namespace Radix

section

variable {α β : Type} [DecidableEq α] {n : Nat} {p q : List α} {J J' : List (List α × β)}

/-- The entries below a path, with the path removed. -/
def below (p : List α) (J : List (List α × β)) : List (List α × β) :=
  p.foldl (fun J x => restrict x J) J

theorem below_concat (p : List α) (x : α) (J : List (List α × β)) :
    below (p ++ [x]) J = restrict x (below p J) := by
  rw [below, List.foldl_append]
  rfl

theorem mem_below {e : List α × β} : e ∈ below p J ↔ (p ++ e.1, e.2) ∈ J := by
  induction p using List.reverseRecOn generalizing e with
  | nil => exact Iff.rfl
  | append_singleton p x ih => rw [below_concat, mem_restrict, ih, List.append_assoc]; rfl

theorem below_append : below p (J ++ J') = below p J ++ below p J' := by
  induction p using List.reverseRecOn with
  | nil => rfl
  | append_singleton p x ih =>
    rw [below_concat, ih, restrict_append, ← below_concat, ← below_concat]

theorem below_eq_nil : below p J = [] ↔ ∀ e ∈ J, ¬ p <+: e.1 := by
  rw [List.eq_nil_iff_forall_not_mem]
  constructor
  · rintro h ⟨k, v⟩ he ⟨r, rfl⟩
    exact h (r, v) (mem_below.mpr he)
  · intro h e he
    exact h _ (mem_below.mp he) (List.prefix_append p e.1)

theorem below_singleton (p q : List α) (v : β) : below p [(p ++ q, v)] = [(q, v)] := by
  induction p using List.reverseRecOn generalizing q with
  | nil => rfl
  | append_singleton p x ih =>
    rw [below_concat, List.append_assoc, List.singleton_append, ih]
    simp [restrict]

theorem PrefixFree.below (h : PrefixFree n J) (hp : p.length ≤ n) :
    PrefixFree (n - p.length) (below p J) := by
  induction p using List.reverseRecOn with
  | nil => exact h
  | append_singleton p x ih =>
    rw [List.length_append, List.length_singleton] at hp ⊢
    have hstep := ih (by omega)
    rw [show n - p.length = n - (p.length + 1) + 1 by omega] at hstep
    rw [below_concat]
    exact hstep.restrict x

/-- The trie of the entries below a path. -/
def subtrie (n : Nat) (p : List α) (J : List (List α × β)) : Trie α β :=
  build (n - p.length) (below p J)

theorem subtrie_eq_empty (h : PrefixFree n J) (hp : p.length ≤ n) :
    subtrie n p J = .empty ↔ ∀ e ∈ J, ¬ p <+: e.1 := by
  rw [← below_eq_nil]
  constructor
  · intro hempty
    by_contra hne
    exact build_ne_empty (h.below hp) hne hempty
  · intro hnil
    rw [subtrie, hnil, build]

theorem subtrie_combine (h : PrefixFree n J) (hp : p.length < n) (hkey : ∀ e ∈ J, e.1 ≠ p) :
    subtrie n p J = Trie.combine fun x => subtrie n (p ++ [x]) J := by
  have hfree := h.below hp.le
  rw [show n - p.length = n - (p.length + 1) + 1 by omega] at hfree
  have hnil : ∀ e ∈ below p J, e.1 ≠ [] := by
    intro e he hnil
    have hmem := mem_below.mp he
    rw [hnil, List.append_nil] at hmem
    exact hkey _ hmem rfl
  rw [subtrie, show n - p.length = n - (p.length + 1) + 1 by omega, build_combine hfree hnil]
  congr 1
  funext x
  rw [subtrie, below_concat, List.length_append, List.length_singleton]

/-- Where all entries below a path share a longer one. -/
theorem subtrie_prepend (h : PrefixFree n J) (hlen : (p ++ q).length ≤ n)
    (hshare : ∀ e ∈ J, p <+: e.1 → p ++ q <+: e.1) :
    subtrie n p J = Trie.prepend q (subtrie n (p ++ q) J) := by
  induction q generalizing p with
  | nil => rw [List.append_nil, Trie.prepend_nil]
  | cons a q ih =>
    rw [List.length_append, List.length_cons] at hlen
    have hdigit : ∀ e ∈ J, p <+: e.1 → p ++ [a] <+: e.1 := fun e he hpre =>
      List.IsPrefix.trans ⟨q, by simp⟩ (hshare e he hpre)
    have hkey : ∀ e ∈ J, e.1 ≠ p := by
      intro e he heq
      have hle := (hdigit e he (heq ▸ List.prefix_refl _)).length_le
      rw [heq, List.length_append, List.length_singleton] at hle
      omega
    have hother : ∀ x, x ≠ a → subtrie n (p ++ [x]) J = .empty := by
      intro x hx
      refine (subtrie_eq_empty h (by simp; omega)).mpr fun e he hpre => hx ?_
      obtain ⟨r, hr⟩ := hpre
      have ha := hdigit e he ⟨x :: r, by simp [← hr]⟩
      rw [← hr, List.append_assoc, List.prefix_append_right_inj] at ha
      exact ((List.cons_prefix_cons.mp ha).1).symm
    have hnext : subtrie n (p ++ [a]) J = Trie.prepend q (subtrie n (p ++ a :: q) J) := by
      have hassoc : p ++ [a] ++ q = p ++ a :: q := by simp
      rw [ih (by simp; omega) fun e he hpre => ?_, hassoc]
      rw [hassoc]
      exact hshare e he (List.IsPrefix.trans (List.prefix_append p [a]) hpre)
    have hsplit : Trie.prepend (a :: q) (subtrie n (p ++ a :: q) J) =
        Trie.prepend [a] (subtrie n (p ++ [a]) J) := by
      rw [hnext, ← Trie.prepend_append, List.singleton_append]
    rw [subtrie_combine h (by omega) hkey, hsplit]
    by_cases hempty : subtrie n (p ++ [a]) J = .empty
    · rw [hempty, Trie.prepend_empty]
      refine Trie.combine_empty fun x => ?_
      rcases eq_or_ne x a with rfl | hx
      · exact hempty
      · exact hother x hx
    · exact Trie.combine_single hempty hother

theorem subtrie_nil (n : Nat) (J : List (List α × β)) : subtrie n [] J = build n J := rfl

/-- An entry elsewhere. -/
theorem subtrie_concat {e : List α × β} (h : ¬ p <+: e.1) :
    subtrie n p (J ++ [e]) = subtrie n p J := by
  have hnil : below p [e] = [] := below_eq_nil.mpr (by simpa using h)
  rw [subtrie, below_append, hnil, List.append_nil, subtrie]

/-- The only entry below a path. -/
theorem subtrie_leaf (h : ∀ e ∈ J, ¬ p <+: e.1) (v : β) :
    subtrie n p (J ++ [(p ++ q, v)]) = .leaf q v := by
  rw [subtrie, below_append, below_eq_nil.mpr h, List.nil_append, below_singleton, build]

/-! ## Forks -/

/-- An entry leaves the path `a` at its digit `d`. -/
def Forks (J : List (List α × β)) (a : List α) (d : Nat) : Prop :=
  ∃ e ∈ J, a.take d <+: e.1 ∧ ¬ a.take (d + 1) <+: e.1

variable {a a' k : List α} {d : Nat}

omit [DecidableEq α] in
theorem Forks.lt_length (h : Forks J a d) : d < a.length := by
  by_contra hle
  obtain ⟨e, _, hpre, hleaves⟩ := h
  rw [List.take_of_length_le (by omega)] at hpre hleaves
  exact hleaves hpre

omit [DecidableEq α] in
/-- An entry at the path itself leaves it nowhere. -/
theorem forks_concat_self (v : β) : Forks (J ++ [(a, v)]) a d ↔ Forks J a d := by
  constructor
  · rintro ⟨e, he, hpre, hnot⟩
    rcases List.mem_append.mp he with he | he
    · exact ⟨e, he, hpre, hnot⟩
    · rw [List.mem_singleton.mp he] at hnot
      exact absurd (List.take_prefix (d + 1) a) hnot
  · rintro ⟨e, he, h⟩
    exact ⟨e, List.mem_append_left _ he, h⟩

omit [DecidableEq α] in
theorem forks_congr (h : a.take (d + 1) = a'.take (d + 1)) : Forks J a d ↔ Forks J a' d := by
  have htake : a.take d = a'.take d := by
    have hcut := congrArg (List.take d) h
    rwa [List.take_take, List.take_take, Nat.min_eq_left (Nat.le_succ d)] at hcut
  rw [Forks, Forks, h, htake]

omit [DecidableEq α] in
/-- Where nothing leaves, the entries stay on the path. -/
theorem prefix_of_not_forks {e : List α × β} {m : Nat} (he : e ∈ J) (hdm : d ≤ m)
    (hpre : a.take d <+: e.1) (h : ∀ i, d ≤ i → i < m → ¬ Forks J a i) : a.take m <+: e.1 := by
  induction m, hdm using Nat.le_induction with
  | base => exact hpre
  | succ m hdm ih =>
    have hstep := ih fun i hi him => h i hi (Nat.lt_succ_of_lt him)
    by_contra hnot
    exact h m hdm (Nat.lt_succ_self m) ⟨e, he, hstep, hnot⟩

omit [DecidableEq α] in
theorem exists_forks {e : List α × β} (he : e ∈ J) (hnot : ¬ a <+: e.1) :
    ∃ d < a.length, Forks J a d ∧ ¬ a.take (d + 1) <+: e.1 := by
  by_contra hall
  push Not at hall
  have hall' : ∀ m, m ≤ a.length → a.take m <+: e.1 := by
    intro m
    induction m with
    | zero => exact fun _ => List.nil_prefix
    | succ m ih =>
      intro hm
      have hpre := ih (Nat.le_of_succ_le hm)
      by_contra hleaves
      exact hleaves (hall m hm ⟨e, he, hpre, hleaves⟩)
  have hwhole := hall' a.length (Nat.le_refl _)
  rw [List.take_length] at hwhole
  exact hnot hwhole

omit [DecidableEq α] in
/-- Past the last fork there is nothing. -/
theorem not_prefix_of_forks_lt {m : Nat} (hlt : ∀ i, Forks J a i → i < m) {e : List α × β}
    (he : e ∈ J) (hnot : ¬ a <+: e.1) : ¬ a.take m <+: e.1 := by
  intro hpre
  obtain ⟨d, _, hforks, hleaves⟩ := exists_forks he hnot
  refine hleaves (List.IsPrefix.trans ?_ hpre)
  rw [List.prefix_take_iff]
  exact ⟨List.take_prefix _ a, (List.length_take_le _ _).trans (hlt d hforks)⟩

end

/-! ## Entries in order -/

section

variable {α : Type} [LinearOrder α] {k a a' : List α}

/-- What does not start like the greater of two paths, and is not a prefix
of it, is below it at the first digit where they differ. -/
theorem precedes_of_lt (h : a < a') (hpre : ¬ a <+: a') : Precedes a a' := by
  induction a generalizing a' with
  | nil => exact absurd List.nil_prefix hpre
  | cons x a ih =>
    cases a' with
    | nil => exact absurd h (not_lt_nil _)
    | cons y a' =>
      rcases List.cons_lt_cons_iff.mp h with hxy | ⟨rfl, hlt⟩
      · exact ⟨[], x, y, a, a', rfl, rfl, hxy⟩
      · have hrest := ih hlt fun hle => hpre (List.cons_prefix_cons.mpr ⟨rfl, hle⟩)
        obtain ⟨p, u, v, r, r', rfl, rfl, huv⟩ := hrest
        exact ⟨x :: p, u, v, r, r', rfl, rfl, huv⟩

/-- A path up to `a` does not share with a later path more than `a` does. -/
theorem not_prefix_of_le {p r : List α} {x y : α} (hk : k ≤ p ++ x :: r) (hxy : x < y) :
    ¬ p ++ [y] <+: k := by
  rintro ⟨s, rfl⟩
  have hlt : p ++ x :: r < p ++ [y] ++ s := by
    have hprecedes : Precedes (p ++ x :: r) (p ++ [y] ++ s) :=
      ⟨p, x, y, r, s, rfl, by simp, hxy⟩
    exact hprecedes.lt
  exact absurd hk (not_le.mpr hlt)

end

end Radix
