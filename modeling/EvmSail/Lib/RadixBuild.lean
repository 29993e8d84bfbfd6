/-
# `EvmSail.Lib.RadixBuild` — the canonical trie of a list of entries

The textbook construction of a compressed trie: a single entry is a
leaf; entries with a common prefix are an extension over the rest; any
other entries are a branch over their restrictions to each digit.

`build_spec` says that this is the canonical trie of the map the entries
list, for entries with pairwise different keys of one length.
-/
import EvmSail.Lib.Radix

namespace Radix

variable {α β : Type}

/-! ## Entries of one key length -/

/-- Entries with pairwise different keys, all of length `n`. -/
structure Entries (n : Nat) (J : List (List α × β)) : Prop where
  length : ∀ e ∈ J, e.1.length = n
  nodup : (J.map Prod.fst).Nodup

theorem Entries.tail {n : Nat} {e : List α × β} {J : List (List α × β)}
    (h : Entries n (e :: J)) : Entries n J :=
  ⟨fun e he => h.length e (List.mem_cons_of_mem _ he), (List.nodup_cons.mp h.nodup).2⟩

/-- The entries with the first `m` digits removed. -/
def dropKeys (m : Nat) (J : List (List α × β)) : List (List α × β) :=
  J.map fun e => (e.1.drop m, e.2)

theorem Entries.dropKeys {n m : Nat} {p : List α} {J : List (List α × β)}
    (h : Entries n J) (hp : ∀ e ∈ J, p <+: e.1) (hn : p.length + m = n) :
    Entries m (dropKeys p.length J) := by
  refine ⟨?_, ?_⟩
  · intro e he
    obtain ⟨e', he', rfl⟩ := List.mem_map.mp he
    have := h.length e' he'
    simp only [List.length_drop]
    omega
  · rw [Radix.dropKeys, List.map_map]
    refine List.Nodup.map_on ?_ (List.Nodup.of_map _ h.nodup)
    intro e he e' he' heq
    obtain ⟨r, hr⟩ := hp e he
    obtain ⟨r', hr'⟩ := hp e' he'
    have hk : e.1 = e'.1 := by
      simp only [Function.comp, ← hr, ← hr', List.drop_left] at heq
      rw [← hr, ← hr', heq]
    exact List.inj_on_of_nodup_map h.nodup he he' hk

theorem Entries.not_two_of_zero {e e' : List α × β} {J : List (List α × β)}
    (h : Entries 0 (e :: e' :: J)) : False := by
  have he := List.eq_nil_of_length_eq_zero (h.length e (by simp))
  have he' := List.eq_nil_of_length_eq_zero (h.length e' (by simp))
  have := h.nodup
  simp [he, he'] at this

variable [DecidableEq α]

/-! ## Common prefixes -/

/-- The longest common prefix of two paths. -/
def lcp : List α → List α → List α
  | a :: l, b :: l' => if a = b then a :: lcp l l' else []
  | _, _ => []

@[simp] theorem lcp_nil_left (l : List α) : lcp [] l = [] := by
  cases l <;> rfl

@[simp] theorem lcp_nil_right (l : List α) : lcp l [] = [] := by
  cases l <;> rfl

theorem lcp_cons_cons (a b : α) (l l' : List α) :
    lcp (a :: l) (b :: l') = if a = b then a :: lcp l l' else [] := rfl

theorem prefix_lcp {p l l' : List α} : p <+: lcp l l' ↔ p <+: l ∧ p <+: l' := by
  induction p generalizing l l' with
  | nil => simp
  | cons c p ih =>
    cases l with
    | nil => simp
    | cons a l =>
      cases l' with
      | nil => simp
      | cons b l' =>
        rw [lcp_cons_cons]
        by_cases hab : a = b
        · subst hab
          simp only [if_pos, List.cons_prefix_cons, ih]
          constructor
          · rintro ⟨rfl, h, h'⟩
            exact ⟨⟨rfl, h⟩, rfl, h'⟩
          · rintro ⟨⟨rfl, h⟩, _, h'⟩
            exact ⟨rfl, h, h'⟩
        · simp only [if_neg hab, List.cons_prefix_cons, List.prefix_nil]
          constructor
          · intro h
            cases h
          · rintro ⟨⟨rfl, _⟩, hcb, _⟩
            exact absurd hcb hab

/-- The longest common prefix of the keys of some entries. -/
def commonPrefix : List (List α × β) → List α
  | [] => []
  | [e] => e.1
  | e :: e' :: es => lcp e.1 (commonPrefix (e' :: es))

theorem prefix_commonPrefix {p : List α} {J : List (List α × β)} (hJ : J ≠ []) :
    p <+: commonPrefix J ↔ ∀ e ∈ J, p <+: e.1 := by
  induction J with
  | nil => exact absurd rfl hJ
  | cons e J ih =>
    cases J with
    | nil => simp [commonPrefix]
    | cons e' J =>
      rw [commonPrefix, prefix_lcp, ih (by simp)]
      simp

/-! ## Restrictions -/

/-- The entries under one digit, that digit removed. -/
def restrict (x : α) (J : List (List α × β)) : List (List α × β) :=
  J.filterMap fun e =>
    match e.1 with
    | a :: k => if a = x then some (k, e.2) else none
    | [] => none

theorem mem_restrict {x : α} {J : List (List α × β)} {e : List α × β} :
    e ∈ restrict x J ↔ (x :: e.1, e.2) ∈ J := by
  simp only [restrict, List.mem_filterMap]
  constructor
  · rintro ⟨⟨k, v⟩, hk, he⟩
    cases k with
    | nil => simp at he
    | cons a k =>
      by_cases ha : a = x
      · subst ha
        simp only [if_pos, Option.some.injEq] at he
        subst he
        exact hk
      · simp [ha] at he
  · intro h
    exact ⟨_, h, by simp⟩

theorem lookup_restrict (x : α) (k : List α) (J : List (List α × β)) :
    (restrict x J).lookup k = J.lookup (x :: k) := by
  induction J with
  | nil => rfl
  | cons e J ih =>
    obtain ⟨key, v⟩ := e
    cases key with
    | nil =>
      rw [List.lookup_cons, show (x :: k == []) = false from rfl, ← ih]
      rfl
    | cons a key =>
      by_cases ha : a = x
      · subst ha
        have hr : restrict a ((a :: key, v) :: J) = (key, v) :: restrict a J := by
          simp [restrict]
        rw [hr, List.lookup_cons, List.lookup_cons, ih, List.cons_beq_cons, beq_self_eq_true,
          Bool.true_and]
      · have hr : restrict x ((a :: key, v) :: J) = restrict x J := by
          simp [restrict, ha]
        have hne : (x :: k == a :: key) = false :=
          beq_false_of_ne fun h => ha (List.cons.inj h).1.symm
        rw [hr, List.lookup_cons, hne, ih]

theorem lookup_dropKeys {p : List α} {J : List (List α × β)}
    (hp : ∀ e ∈ J, p <+: e.1) (k : List α) :
    (dropKeys p.length J).lookup k = J.lookup (p ++ k) := by
  induction J with
  | nil => rfl
  | cons e J ih =>
    obtain ⟨key, v⟩ := e
    obtain ⟨r, rfl⟩ : p <+: key := hp _ (List.mem_cons_self ..)
    have hd : dropKeys p.length ((p ++ r, v) :: J) = (r, v) :: dropKeys p.length J := by
      simp [dropKeys]
    rw [hd, List.lookup_cons, List.lookup_cons,
      ih fun e he => hp e (List.mem_cons_of_mem _ he)]
    by_cases hk : k = r
    · simp [hk]
    · rw [beq_false_of_ne hk, beq_false_of_ne fun h => hk (List.append_cancel_left h)]

theorem lookup_isSome_of_mem {J : List (List α × β)} {e : List α × β}
    (he : e ∈ J) : J.lookup e.1 ≠ none := by
  intro h
  rw [List.lookup_eq_none_iff] at h
  simpa using h e he

theorem Entries.restrict {n : Nat} {J : List (List α × β)}
    (h : Entries (n + 1) J) (x : α) : Entries n (restrict x J) := by
  refine ⟨fun e he => by simpa using h.length _ (mem_restrict.mp he), ?_⟩
  induction J with
  | nil => exact List.nodup_nil
  | cons e J ih =>
    obtain ⟨key, v⟩ := e
    cases key with
    | nil => exact ih h.tail
    | cons a key =>
      by_cases ha : a = x
      · subst ha
        have hr : Radix.restrict a ((a :: key, v) :: J) = (key, v) :: Radix.restrict a J := by
          simp [Radix.restrict]
        rw [hr, List.map_cons, List.nodup_cons]
        refine ⟨?_, ih h.tail⟩
        intro hmem
        obtain ⟨e, he, hk⟩ := List.mem_map.mp hmem
        have := (List.nodup_cons.mp h.nodup).1
        exact this (List.mem_map.mpr ⟨_, mem_restrict.mp he, by simp [hk]⟩)
      · have hr : Radix.restrict x ((a :: key, v) :: J) = Radix.restrict x J := by
          simp [Radix.restrict, ha]
        rw [hr]
        exact ih h.tail

/-- Two entries of keys with different first digits, when there is no
common prefix. -/
theorem exists_two_digits {n : Nat} {e e' : List α × β} {J : List (List α × β)}
    (h : Entries (n + 1) (e :: e' :: J)) (hp : commonPrefix (e :: e' :: J) = []) :
    ∃ a k v b k' v', a ≠ b ∧ (a :: k, v) ∈ e :: e' :: J ∧
      (b :: k', v') ∈ e :: e' :: J := by
  obtain ⟨key, v⟩ := e
  cases key with
  | nil =>
    have := h.length _ (List.mem_cons_self ..)
    simp at this
  | cons a k =>
    by_contra hno
    have hall : ∀ f ∈ (a :: k, v) :: e' :: J, [a] <+: f.1 := by
      rintro ⟨key', v'⟩ hf
      cases key' with
      | nil =>
        have := h.length _ hf
        simp at this
      | cons b k' =>
        by_cases hab : a = b
        · simp [hab, List.cons_prefix_cons]
        · exact absurd ⟨a, k, v, b, k', v', hab, List.mem_cons_self .., hf⟩ hno
    have := (prefix_commonPrefix (by simp)).mpr hall
    rw [hp] at this
    simp at this

/-! ## The construction -/

/-- The trie of entries with keys of length `n`. -/
def build : Nat → List (List α × β) → Trie α β
  | _, [] => .empty
  | _, [e] => .leaf e.1 e.2
  | 0, _ :: _ :: _ => .empty
  | n + 1, J@(_ :: _ :: _) =>
    if _h : commonPrefix J = [] then
      .branch fun x => build n (restrict x J)
    else
      .ext (commonPrefix J)
        (build (n + 1 - (commonPrefix J).length) (dropKeys (commonPrefix J).length J))
termination_by n => n
decreasing_by
  · exact Nat.lt_succ_self n
  · have := List.length_pos_iff.mpr _h
    omega

theorem build_branch {n : Nat} {e e' : List α × β} {J : List (List α × β)}
    (hp : commonPrefix (e :: e' :: J) = []) :
    build (n + 1) (e :: e' :: J) = .branch fun x => build n (restrict x (e :: e' :: J)) := by
  rw [build, dif_pos hp]

theorem build_ext {n : Nat} {e e' : List α × β} {J : List (List α × β)}
    (hp : commonPrefix (e :: e' :: J) ≠ []) :
    build (n + 1) (e :: e' :: J) =
      .ext (commonPrefix (e :: e' :: J))
        (build (n + 1 - (commonPrefix (e :: e' :: J)).length)
          (dropKeys (commonPrefix (e :: e' :: J)).length (e :: e' :: J))) := by
  rw [build, dif_neg hp]

/-- What is left of entries once their longest common prefix is removed
has no common prefix. -/
theorem commonPrefix_dropKeys {J : List (List α × β)} (hJ : J ≠ []) :
    commonPrefix (dropKeys (commonPrefix J).length J) = [] := by
  have hall := (prefix_commonPrefix hJ).mp (List.prefix_refl (commonPrefix J))
  have hJ' : dropKeys (commonPrefix J).length J ≠ [] := by
    simpa [dropKeys] using hJ
  cases hq : commonPrefix (dropKeys (commonPrefix J).length J) with
  | nil => rfl
  | cons a q =>
    have hq' := (prefix_commonPrefix (p := a :: q) hJ').mp (by rw [hq])
    have hext : commonPrefix J ++ (a :: q) <+: commonPrefix J := by
      refine (prefix_commonPrefix hJ).mpr fun e he => ?_
      obtain ⟨r, hr⟩ := hall e he
      have := hq' _ (List.mem_map.mpr ⟨e, he, rfl⟩)
      rw [← hr, List.drop_left] at this
      rw [← hr]
      exact (List.prefix_append_right_inj _).mpr this
    have hle := hext.length_le
    simp only [List.length_append, List.length_cons] at hle
    omega

/-- The construction yields the canonical trie of the listed map. -/
theorem build_spec {n : Nat} {J : List (List α × β)} (h : Entries n J) :
    (build n J).Canonical n ∧ ∀ k, k.length = n → (build n J).lookup k = J.lookup k := by
  induction n using Nat.strongRecOn generalizing J with
  | _ n ih =>
  match n, J, h with
  | n, [], _ =>
    rw [build]
    exact ⟨.empty, fun k _ => rfl⟩
  | n, [(key, v)], h =>
    rw [build]
    refine ⟨.leaf _ _ (h.length _ (List.mem_singleton_self _)), fun k _ => ?_⟩
    rw [Trie.lookup_leaf, List.lookup_cons]
    by_cases hk : k = key
    · simp [hk]
    · rw [if_neg hk, beq_false_of_ne hk]
      rfl
  | 0, e :: e' :: J, h => exact h.not_two_of_zero.elim
  | n + 1, e :: e' :: J, h =>
    by_cases hp : commonPrefix (e :: e' :: J) = []
    · -- no common prefix: one canonical child per digit, two of them inhabited
      have hc := fun x => ih n (Nat.lt_succ_self n) (h.restrict x)
      have hinh : ∀ a k v, (a :: k, v) ∈ e :: e' :: J →
          build n (restrict a (e :: e' :: J)) ≠ .empty := by
        intro a k v hmem hempty
        have hlen : k.length = n := by simpa using h.length _ hmem
        have hl := (hc a).2 k hlen
        rw [hempty, Trie.lookup_empty, lookup_restrict] at hl
        exact lookup_isSome_of_mem hmem hl.symm
      obtain ⟨a, k, v, b, k', v', hab, ha, hb⟩ := exists_two_digits h hp
      rw [build_branch hp]
      refine ⟨.branch _ (fun x => (hc x).1) hab (hinh a k v ha) (hinh b k' v' hb), ?_⟩
      intro key hkey
      cases key with
      | nil => simp at hkey
      | cons x key =>
        rw [Trie.lookup_branch_cons, (hc x).2 key (by simpa using hkey), lookup_restrict]
    · -- a common prefix `p`: what remains has none, hence is a branch
      have hall := (prefix_commonPrefix (J := e :: e' :: J) (by simp)).mp (List.prefix_refl _)
      have hdrop := commonPrefix_dropKeys (J := e :: e' :: J) (by simp)
      rw [build_ext hp]
      generalize commonPrefix (e :: e' :: J) = p at hp hall hdrop
      have hplen : p.length ≤ n + 1 := by
        rw [← h.length e (by simp)]
        exact (hall e (by simp)).length_le
      have hpos := List.length_pos_iff.mpr hp
      have hent : Entries (n + 1 - p.length) (dropKeys p.length (e :: e' :: J)) :=
        h.dropKeys hall (by omega)
      obtain ⟨hcan, hlook⟩ := ih (n + 1 - p.length) (by omega) hent
      obtain ⟨m, hm⟩ : ∃ m, n + 1 - p.length = m + 1 := by
        cases hm : n + 1 - p.length with
        | zero =>
          rw [hm] at hent
          exact hent.not_two_of_zero.elim
        | succ m => exact ⟨m, rfl⟩
      rw [hm] at hcan hlook ⊢
      have hbr := build_branch (n := m) hdrop
      change build (m + 1) (dropKeys p.length (e :: e' :: J)) = _ at hbr
      constructor
      · rw [hbr] at hcan ⊢
        exact .ext p _ hp (by omega) hcan
      · intro k hk
        by_cases hpk : p <+: k
        · obtain ⟨r, rfl⟩ := hpk
          rw [Trie.lookup_ext_append, hlook r (by simp only [List.length_append] at hk; omega),
            lookup_dropKeys hall]
        · rw [Trie.lookup_ext_of_not_prefix hpk, eq_comm, List.lookup_eq_none_iff]
          intro f hf
          simp only [bne_iff_ne, ne_eq]
          rintro rfl
          exact hpk (hall f hf)

/-! ## Keys of different lengths

No key is a prefix of another.  Then no key ends at a branch, and the
construction goes digit by digit. -/

/-- Prefix-free entries, their keys at most `n` long. -/
structure PrefixFree (n : Nat) (J : List (List α × β)) : Prop where
  length : ∀ e ∈ J, e.1.length ≤ n
  free : J.Pairwise fun e e' => ¬ e.1 <+: e'.1 ∧ ¬ e'.1 <+: e.1

omit [DecidableEq α] in
theorem PrefixFree.ne_nil {n : Nat} {e e' : List α × β} {J : List (List α × β)}
    (h : PrefixFree n (e :: e' :: J)) : ∀ f ∈ e :: e' :: J, f.1 ≠ [] := by
  intro f hf hnil
  have hfirst := (List.pairwise_cons.mp h.free).1
  rcases List.mem_cons.mp hf with rfl | hf
  · exact (hfirst e' (by simp)).1 (hnil ▸ List.nil_prefix)
  · exact (hfirst f hf).2 (hnil ▸ List.nil_prefix)

omit [DecidableEq α] in
theorem PrefixFree.not_two_of_zero {e e' : List α × β} {J : List (List α × β)}
    (h : PrefixFree 0 (e :: e' :: J)) : False :=
  h.ne_nil e (by simp) (List.eq_nil_of_length_eq_zero (Nat.le_zero.mp (h.length e (by simp))))

theorem PrefixFree.restrict {n : Nat} {J : List (List α × β)} (h : PrefixFree (n + 1) J) (x : α) :
    PrefixFree n (restrict x J) := by
  refine ⟨fun e he => by simpa using h.length _ (mem_restrict.mp he), ?_⟩
  refine List.Pairwise.filterMap _ ?_ h.free
  rintro ⟨k, v⟩ ⟨k', v'⟩ hfree e he e' he'
  cases k with
  | nil => simp at he
  | cons a k =>
    cases k' with
    | nil => simp at he'
    | cons a' k' =>
      simp only [Option.ite_none_right_eq_some, Option.some.injEq] at he he'
      obtain ⟨rfl, rfl⟩ := he
      obtain ⟨rfl, rfl⟩ := he'
      simpa [List.cons_prefix_cons] using hfree

theorem build_ne_empty {n : Nat} {J : List (List α × β)} (h : PrefixFree n J) (hJ : J ≠ []) :
    build n J ≠ .empty := by
  match n, J, h with
  | _, [], _ => exact absurd rfl hJ
  | _, [e], _ =>
    rw [build]
    exact nofun
  | 0, e :: e' :: J, h => exact h.not_two_of_zero.elim
  | n + 1, e :: e' :: J, _ =>
    rcases eq_or_ne (commonPrefix (e :: e' :: J)) [] with hp | hp
    · rw [build_branch hp]
      exact nofun
    · rw [build_ext hp]
      exact nofun

/-- Entries under one digit only. -/
theorem restrict_eq_dropKeys {x : α} {J : List (List α × β)} (h : ∀ e ∈ J, [x] <+: e.1) :
    restrict x J = dropKeys 1 J := by
  induction J with
  | nil => rfl
  | cons e J ih =>
    obtain ⟨key, v⟩ := e
    obtain ⟨k, rfl⟩ : [x] <+: key := h _ List.mem_cons_self
    have hrest := ih fun e he => h e (List.mem_cons_of_mem _ he)
    rw [dropKeys, List.map_cons, ← dropKeys, ← hrest]
    simp [restrict]

theorem restrict_eq_nil {x : α} {J : List (List α × β)} (h : ∀ e ∈ J, ¬ [x] <+: e.1) :
    restrict x J = [] := by
  refine List.eq_nil_iff_forall_not_mem.mpr fun e he => h _ (mem_restrict.mp he) ?_
  exact ⟨e.1, rfl⟩

theorem restrict_append (x : α) (J J' : List (List α × β)) :
    restrict x (J ++ J') = restrict x J ++ restrict x J' :=
  List.filterMap_append

theorem PrefixFree.dropKeys {n : Nat} {a : α} {J : List (List α × β)} (h : PrefixFree (n + 1) J)
    (ha : ∀ e ∈ J, [a] <+: e.1) : PrefixFree n (dropKeys 1 J) := by
  rw [← restrict_eq_dropKeys ha]
  exact h.restrict a

/-- What the construction does to entries that share a first digit. -/
theorem build_cons {n : Nat} {a : α} {e e' : List α × β} {J : List (List α × β)}
    (hfree : PrefixFree (n + 1) (e :: e' :: J)) (h : ∀ f ∈ e :: e' :: J, [a] <+: f.1) :
    build (n + 1) (e :: e' :: J) =
      Trie.prepend [a] (build n (dropKeys 1 (e :: e' :: J))) := by
  have hne : (e :: e' :: J) ≠ [] := by simp
  obtain ⟨q, hq⟩ : ∃ q, commonPrefix (e :: e' :: J) = a :: q := by
    obtain ⟨q, hq⟩ := (prefix_commonPrefix hne).mpr h
    exact ⟨q, hq.symm⟩
  have hmap : dropKeys 1 (e :: e' :: J) =
      (e.1.drop 1, e.2) :: (e'.1.drop 1, e'.2) :: dropKeys 1 J := rfl
  -- the common prefix of what is left is what is left of the common prefix
  have hq' : commonPrefix (dropKeys 1 (e :: e' :: J)) = q := by
    have hiff : ∀ p, p <+: commonPrefix (dropKeys 1 (e :: e' :: J)) ↔ p <+: q := by
      intro p
      have hcons : p <+: q ↔ ∀ f ∈ e :: e' :: J, a :: p <+: f.1 := by
        rw [← prefix_commonPrefix hne, hq, List.cons_prefix_cons]
        simp
      rw [hcons, prefix_commonPrefix (by simp [hmap])]
      simp only [dropKeys, List.forall_mem_map]
      refine forall₂_congr fun f hf => ?_
      obtain ⟨k, hk⟩ := h f hf
      rw [← hk]
      simp [List.cons_prefix_cons]
    have h₁ := (hiff _).mp (List.prefix_refl _)
    have h₂ := (hiff _).mpr (List.prefix_refl q)
    exact h₁.eq_of_length_le h₂.length_le
  obtain ⟨m, rfl⟩ : ∃ m, n = m + 1 := by
    cases n with
    | zero =>
      have := hfree.dropKeys h
      rw [hmap] at this
      exact this.not_two_of_zero.elim
    | succ m => exact ⟨m, rfl⟩
  rw [build_ext (by simp [hq]), hq]
  have hdd : dropKeys (a :: q).length (e :: e' :: J) =
      dropKeys q.length (dropKeys 1 (e :: e' :: J)) := by
    simp [dropKeys]
  have hsub : m + 1 + 1 - (a :: q).length = m + 1 - q.length := by simp
  rw [hdd, hsub]
  rw [hmap] at hq' ⊢
  rcases eq_or_ne q [] with rfl | hqne
  · have hid : dropKeys 0 ((e.1.drop 1, e.2) :: (e'.1.drop 1, e'.2) :: dropKeys 1 J) =
        (e.1.drop 1, e.2) :: (e'.1.drop 1, e'.2) :: dropKeys 1 J := by
      simp [dropKeys]
    rw [List.length_nil, hid, Nat.sub_zero, build_branch hq', Trie.prepend_branch (by simp)]
  · rw [build_ext (by rw [hq']; exact hqne), hq', Trie.prepend_ext, List.singleton_append]

omit [DecidableEq α] in
theorem PrefixFree.perm {n : Nat} {J J' : List (List α × β)} (h : PrefixFree n J)
    (hperm : J.Perm J') : PrefixFree n J' where
  length := fun e he => h.length e (hperm.mem_iff.mpr he)
  free := hperm.pairwise h.free fun he => ⟨he.2, he.1⟩

/-- The construction goes digit by digit. -/
theorem build_combine {n : Nat} {J : List (List α × β)} (hfree : PrefixFree (n + 1) J)
    (hnil : ∀ e ∈ J, e.1 ≠ []) :
    build (n + 1) J = Trie.combine fun x => build n (restrict x J) := by
  have hempty : ∀ x, restrict x J = [] → build n (restrict x J) = .empty := by
    intro x hx
    rw [hx, build]
  have hinh : ∀ a k v, (a :: k, v) ∈ J → build n (restrict a J) ≠ .empty := by
    intro a k v hmem
    refine build_ne_empty (hfree.restrict a) (List.ne_nil_of_mem (a := (k, v)) ?_)
    exact mem_restrict.mpr hmem
  match J, hfree, hnil with
  | [], _, _ =>
    rw [build, Trie.combine_empty fun x => hempty x rfl]
  | [(key, v)], _, hnil =>
    obtain ⟨a, k, rfl⟩ := List.exists_cons_of_ne_nil (hnil _ (List.mem_singleton_self _))
    have hother : ∀ b, b ≠ a → build n (restrict b [(a :: k, v)]) = .empty := by
      intro b hb
      exact hempty b (by simp [restrict, hb.symm])
    have hself : restrict a [(a :: k, v)] = [(k, v)] := by simp [restrict]
    rw [Trie.combine_single (hinh a k v (List.mem_singleton_self _)) hother, hself, build, build,
      Trie.prepend_leaf, List.singleton_append]
  | e :: e' :: J, hfree, hnil =>
    obtain ⟨a, k, ha⟩ := List.exists_cons_of_ne_nil (hnil e List.mem_cons_self)
    have hea : (a :: k, e.2) ∈ e :: e' :: J := by
      rw [← ha]
      exact List.mem_cons_self
    by_cases hall : ∀ f ∈ e :: e' :: J, [a] <+: f.1
    · -- one digit: the others have nothing below them
      have hother : ∀ b, b ≠ a → build n (restrict b (e :: e' :: J)) = .empty := by
        intro b hb
        refine hempty b (restrict_eq_nil fun f hf hbf => hb ?_)
        obtain ⟨r, hr⟩ := hall f hf
        rw [← hr, List.cons_append, List.cons_prefix_cons] at hbf
        exact hbf.1
      rw [Trie.combine_single (hinh a k e.2 hea) hother, restrict_eq_dropKeys hall,
        build_cons hfree hall]
    · -- two digits: no common prefix
      push Not at hall
      obtain ⟨f, hf, hfa⟩ := hall
      obtain ⟨b, k', hb⟩ := List.exists_cons_of_ne_nil (hnil f hf)
      have hfb : (b :: k', f.2) ∈ e :: e' :: J := by
        rw [← hb]
        exact hf
      have hab : a ≠ b := by
        rintro rfl
        exact hfa ⟨k', hb.symm⟩
      have hp : commonPrefix (e :: e' :: J) = [] := by
        cases hc : commonPrefix (e :: e' :: J) with
        | nil => rfl
        | cons c q =>
          have hpre := (prefix_commonPrefix (J := e :: e' :: J) (by simp)).mp (List.prefix_refl _)
          rw [hc] at hpre
          have hac := hpre _ hea
          have hbc := hpre _ hfb
          rw [List.cons_prefix_cons] at hac hbc
          exact absurd (hac.1.symm.trans hbc.1) hab
      rw [build_branch hp, Trie.combine_branch hab (hinh a k e.2 hea) (hinh b k' f.2 hfb)]

/-- The order of the entries does not matter. -/
theorem build_perm {n : Nat} {J J' : List (List α × β)} (h : PrefixFree n J)
    (hperm : J.Perm J') : build n J = build n J' := by
  induction n generalizing J J' with
  | zero =>
    match J, h, hperm with
    | [], _, hperm => rw [hperm.nil_eq]
    | [e], _, hperm => rw [List.singleton_perm.mp hperm]
    | _ :: _ :: _, h, _ => exact h.not_two_of_zero.elim
  | succ n ih =>
    match J, h, hperm with
    | [], _, hperm => rw [hperm.nil_eq]
    | [e], _, hperm => rw [List.singleton_perm.mp hperm]
    | e :: e' :: J, h, hperm =>
      have hne := h.ne_nil
      rw [build_combine h hne,
        build_combine (h.perm hperm) fun f hf => hne f (hperm.mem_iff.mpr hf)]
      congr 1
      funext x
      exact ih (h.restrict x) (hperm.filterMap _)

end Radix
