/-
# `EvmSail.Lib.Radix` — compressed radix tries as finite maps

A compressed trie over digits `α` with values in `β`: leaves and
extensions carry a whole path, branches one child per digit.  A trie
whose keys all have length `n` is *canonical* (`Canonical n`) when every
extension is non-empty and leads to a branch, and every branch has at
least two inhabited children.

The point of canonical tries is that they are nothing but their lookup
function: `ofMap n m` builds the canonical trie of a map `m` digit by
digit with the one operation `combine`, and every canonical trie is the
`ofMap` of its own `lookup` (`Canonical.eq_ofMap`).  So an algorithm that
reassembles tries with `combine` is correct as soon as its lookups are.
-/
import Mathlib.Data.List.Basic
import Mathlib.Data.List.Infix
import Mathlib.Data.List.Nodup
import Mathlib.Tactic.Common

namespace Radix

/-- A compressed trie. -/
inductive Trie (α β : Type) where
  | empty
  | leaf (path : List α) (value : β)
  | ext (path : List α) (child : Trie α β)
  | branch (children : α → Trie α β)

namespace Trie

variable {α β : Type}

/-- Whether a trie is a branch node. -/
inductive IsBranch : Trie α β → Prop
  | intro (cs : α → Trie α β) : IsBranch (branch cs)

/-- Canonical tries with keys of length `n`. -/
inductive Canonical : Nat → Trie α β → Prop
  | empty {n : Nat} : Canonical n empty
  | leaf {n : Nat} (p : List α) (v : β) : p.length = n → Canonical n (leaf p v)
  | ext {n m : Nat} (p : List α) (cs : α → Trie α β) : p ≠ [] →
      p.length + m = n → Canonical m (branch cs) → Canonical n (ext p (branch cs))
  | branch {n : Nat} (cs : α → Trie α β) {a b : α} : (∀ x, Canonical n (cs x)) →
      a ≠ b → cs a ≠ empty → cs b ≠ empty → Canonical (n + 1) (branch cs)

/-- Canonical tries with keys of any lengths. -/
inductive Compressed : Trie α β → Prop
  | empty : Compressed empty
  | leaf (p : List α) (v : β) : Compressed (leaf p v)
  | ext (p : List α) (cs : α → Trie α β) : p ≠ [] → Compressed (branch cs) →
      Compressed (ext p (branch cs))
  | branch (cs : α → Trie α β) {a b : α} : (∀ x, Compressed (cs x)) →
      a ≠ b → cs a ≠ empty → cs b ≠ empty → Compressed (branch cs)

theorem Canonical.compressed {n : Nat} {t : Trie α β} (h : Canonical n t) : Compressed t := by
  induction h with
  | empty => exact .empty
  | leaf p v _ => exact .leaf p v
  | ext p cs hp _ _ ih => exact .ext p cs hp ih
  | branch cs _ hab ha hb ih => exact .branch cs ih hab ha hb

/-- The digits that all keys of a node share by its form. -/
def headPath : Trie α β → List α
  | empty => []
  | leaf p _ => p
  | ext p _ => p
  | branch _ => []

theorem Canonical.length_headPath_le {n : Nat} {t : Trie α β} (h : Canonical n t) :
    t.headPath.length ≤ n := by
  cases h with
  | empty => exact Nat.zero_le n
  | leaf p v hp => exact Nat.le_of_eq hp
  | ext p cs _ hm _ => exact Nat.le.intro hm
  | branch cs _ _ _ _ => exact Nat.zero_le _

/-! ## Prefixing -/

/-- Every key lengthened by `p`: a leaf or extension absorbs it, a branch
gains one extension. -/
def prepend (p : List α) : Trie α β → Trie α β
  | empty => empty
  | leaf q v => leaf (p ++ q) v
  | ext q c => ext (p ++ q) c
  | branch cs => if p = [] then branch cs else ext p (branch cs)

@[simp] theorem prepend_empty (p : List α) :
    prepend p (empty : Trie α β) = empty := rfl

@[simp] theorem prepend_leaf (p q : List α) (v : β) :
    prepend p (leaf q v) = leaf (p ++ q) v := rfl

@[simp] theorem prepend_ext (p q : List α) (c : Trie α β) :
    prepend p (ext q c) = ext (p ++ q) c := rfl

@[simp] theorem prepend_nil (t : Trie α β) : prepend [] t = t := by
  cases t <;> simp [prepend]

theorem prepend_branch {p : List α} (hp : p ≠ []) (cs : α → Trie α β) :
    prepend p (branch cs) = ext p (branch cs) := by
  simp [prepend, hp]

theorem prepend_append (p q : List α) (t : Trie α β) :
    prepend (p ++ q) t = prepend p (prepend q t) := by
  cases t with
  | empty => rfl
  | leaf r v => simp
  | ext r c => simp
  | branch cs =>
    by_cases hq : q = []
    · subst hq
      simp
    · rw [prepend_branch hq, prepend_branch (by simp [hq])]
      rfl

theorem prepend_eq_empty {p : List α} {t : Trie α β} :
    prepend p t = empty ↔ t = empty := by
  cases t with
  | branch cs => by_cases hp : p = [] <;> simp [prepend, hp]
  | _ => simp [prepend]

theorem Canonical.prepend {n : Nat} {t : Trie α β} (h : Canonical n t)
    (p : List α) : Canonical (p.length + n) (prepend p t) := by
  cases h with
  | empty => exact .empty
  | leaf q v hq => exact .leaf _ _ (by simp [hq])
  | ext q cs hq hn hc =>
    exact .ext _ cs (by simp [hq]) (by simp only [List.length_append]; omega) hc
  | branch cs hcs hab ha hb =>
    by_cases hp : p = []
    · subst hp
      simpa using Canonical.branch cs hcs hab ha hb
    · rw [prepend_branch hp]
      exact .ext p cs hp rfl (.branch cs hcs hab ha hb)

theorem Compressed.prepend {t : Trie α β} (h : Compressed t) (p : List α) :
    Compressed (prepend p t) := by
  cases h with
  | empty => exact .empty
  | leaf q v => exact .leaf (p ++ q) v
  | ext q cs hq hc => exact .ext (p ++ q) cs (List.append_ne_nil_of_right_ne_nil p hq) hc
  | branch cs hcs hab ha hb =>
    have hbranch := Compressed.branch cs hcs hab ha hb
    rcases List.eq_nil_or_concat p with rfl | hp
    · rw [prepend_nil]
      exact hbranch
    · have hne : p ≠ [] := by
        rintro rfl
        simp at hp
      rw [prepend_branch hne]
      exact .ext p cs hne hbranch

/-! ## Reassembly -/

open Classical in
/-- The canonical trie over a family of sub-tries: nothing, the one
inhabited sub-trie under its digit, or a branch. -/
noncomputable def combine (cs : α → Trie α β) : Trie α β :=
  if h : ∃ a, cs a ≠ empty then
    if ∀ b, b ≠ h.choose → cs b = empty then prepend [h.choose] (cs h.choose)
    else branch cs
  else empty

theorem combine_empty {cs : α → Trie α β} (h : ∀ a, cs a = empty) :
    combine cs = empty := by
  rw [combine, dif_neg]
  rintro ⟨a, ha⟩
  exact ha (h a)

theorem combine_single {cs : α → Trie α β} {a : α} (ha : cs a ≠ empty)
    (h : ∀ b, b ≠ a → cs b = empty) : combine cs = prepend [a] (cs a) := by
  have hex : ∃ a, cs a ≠ empty := ⟨a, ha⟩
  have hc : hex.choose = a := by
    by_contra hne
    exact hex.choose_spec (h _ hne)
  rw [combine, dif_pos hex, hc, if_pos h]

theorem combine_branch {cs : α → Trie α β} {a b : α} (hab : a ≠ b)
    (ha : cs a ≠ empty) (hb : cs b ≠ empty) : combine cs = branch cs := by
  have hex : ∃ a, cs a ≠ empty := ⟨a, ha⟩
  rw [combine, dif_pos hex, if_neg]
  intro h
  by_cases hc : a = hex.choose
  · exact hb (h b fun hb => hab (hc.trans hb.symm))
  · exact ha (h a hc)

/-- The three shapes of a reassembled trie. -/
theorem combine_cases (cs : α → Trie α β) :
    ((∀ a, cs a = empty) ∧ combine cs = empty) ∨
    (∃ a, cs a ≠ empty ∧ (∀ b, b ≠ a → cs b = empty) ∧
      combine cs = prepend [a] (cs a)) ∨
    (∃ a b, a ≠ b ∧ cs a ≠ empty ∧ cs b ≠ empty ∧ combine cs = branch cs) := by
  by_cases h₀ : ∀ a, cs a = empty
  · exact Or.inl ⟨h₀, combine_empty h₀⟩
  · obtain ⟨a, ha⟩ := not_forall.mp h₀
    by_cases h₁ : ∀ b, b ≠ a → cs b = empty
    · exact Or.inr (Or.inl ⟨a, ha, h₁, combine_single ha h₁⟩)
    · obtain ⟨b, hb⟩ := not_forall.mp h₁
      obtain ⟨hba, hb⟩ : b ≠ a ∧ cs b ≠ empty := by
        simpa only [Classical.not_imp] using hb
      exact Or.inr (Or.inr ⟨a, b, fun h => hba h.symm, ha, hb,
        combine_branch (fun h => hba h.symm) ha hb⟩)

theorem canonical_combine {n : Nat} {cs : α → Trie α β}
    (h : ∀ a, Canonical n (cs a)) : Canonical (n + 1) (combine cs) := by
  rcases combine_cases cs with ⟨_, he⟩ | ⟨a, _, _, he⟩ | ⟨a, b, hab, ha, hb, he⟩
  · rw [he]
    exact .empty
  · rw [he]
    have := (h a).prepend [a]
    rwa [show [a].length + n = n + 1 by simp; omega] at this
  · rw [he]
    exact .branch cs h hab ha hb

/-- The canonical trie of the keys of length `n` of a map. -/
noncomputable def ofMap : Nat → (List α → Option β) → Trie α β
  | 0, m => match m [] with
    | none => empty
    | some v => leaf [] v
  | n + 1, m => combine fun x => ofMap n fun k => m (x :: k)

theorem canonical_ofMap (n : Nat) (m : List α → Option β) :
    Canonical n (ofMap n m) := by
  induction n generalizing m with
  | zero =>
    rw [ofMap]
    split
    · exact .empty
    · exact .leaf _ _ rfl
  | succ n ih => exact canonical_combine fun x => ih _

theorem ofMap_congr {n : Nat} {m m' : List α → Option β}
    (h : ∀ k, k.length = n → m k = m' k) : ofMap n m = ofMap n m' := by
  induction n generalizing m m' with
  | zero => rw [ofMap, ofMap, h [] rfl]
  | succ n ih =>
    rw [ofMap, ofMap]
    congr 1
    funext x
    exact ih fun k hk => h (x :: k) (by simp [hk])

/-! ## Lookup -/

variable [DecidableEq α]

/-- The value a trie holds at a key. -/
def lookup : Trie α β → List α → Option β
  | empty, _ => none
  | leaf p v, k => if k = p then some v else none
  | ext p c, k => if p <+: k then lookup c (k.drop p.length) else none
  | branch _, [] => none
  | branch cs, a :: k => lookup (cs a) k

@[simp] theorem lookup_empty (k : List α) :
    lookup (empty : Trie α β) k = none := rfl

@[simp] theorem lookup_leaf (p k : List α) (v : β) :
    lookup (leaf p v) k = if k = p then some v else none := rfl

@[simp] theorem lookup_ext_append (p k : List α) (c : Trie α β) :
    lookup (ext p c) (p ++ k) = lookup c k := by
  simp [lookup]

@[simp] theorem lookup_branch_nil (cs : α → Trie α β) :
    lookup (branch cs) [] = none := rfl

@[simp] theorem lookup_branch_cons (cs : α → Trie α β) (a : α) (k : List α) :
    lookup (branch cs) (a :: k) = lookup (cs a) k := rfl

theorem lookup_ext_of_not_prefix {p k : List α} (h : ¬ p <+: k) (c : Trie α β) :
    lookup (ext p c) k = none := by
  simp [lookup, h]

/-- Looking up below a prefix. -/
theorem lookup_prepend (p k : List α) (t : Trie α β) :
    lookup (prepend p t) k =
      if p <+: k then lookup t (k.drop p.length) else none := by
  by_cases hp : p <+: k
  · obtain ⟨r, rfl⟩ := hp
    rw [if_pos (List.prefix_append p r), List.drop_left]
    cases t with
    | empty => rfl
    | leaf q v => simp
    | ext q c =>
      simp only [prepend_ext, lookup, List.prefix_append_right_inj, List.length_append,
        List.drop_length_add_append]
    | branch cs =>
      by_cases hp : p = []
      · simp [hp]
      · rw [prepend_branch hp, lookup_ext_append]
  · rw [if_neg hp]
    cases t with
    | empty => rfl
    | leaf q v =>
      rw [prepend_leaf, lookup_leaf, if_neg]
      rintro rfl
      exact hp (List.prefix_append p q)
    | ext q c =>
      rw [prepend_ext, lookup_ext_of_not_prefix]
      exact fun h => hp ((List.prefix_append p q).trans h)
    | branch cs =>
      rw [prepend_branch, lookup_ext_of_not_prefix hp]
      rintro rfl
      exact hp List.nil_prefix

@[simp] theorem lookup_prepend_append (p k : List α) (t : Trie α β) :
    lookup (prepend p t) (p ++ k) = lookup t k := by
  simp [lookup_prepend]

/-- Prefixing by one digit moves the whole map under that digit. -/
theorem lookup_prepend_cons (a x : α) (k : List α) (t : Trie α β) :
    lookup (prepend [a] t) (x :: k) = if x = a then lookup t k else none := by
  rw [lookup_prepend]
  by_cases hx : x = a
  · subst hx
    simp
  · rw [if_neg hx, if_neg]
    intro h
    exact hx (List.cons_prefix_cons.mp h).1.symm

theorem lookup_ext_cons (a x : α) (p k : List α) (c : Trie α β) :
    lookup (ext (a :: p) c) (x :: k) =
      if x = a then lookup (prepend p c) k else none := by
  by_cases hx : x = a
  · subst hx
    simp [lookup, lookup_prepend, List.cons_prefix_cons]
  · rw [if_neg hx, lookup_ext_of_not_prefix]
    intro h
    exact hx (List.cons_prefix_cons.mp h).1.symm

/-- A canonical trie only holds keys of its own length. -/
theorem Canonical.lookup_eq_none {n : Nat} {t : Trie α β} (h : Canonical n t) :
    ∀ {k : List α}, k.length ≠ n → lookup t k = none := by
  induction h with
  | empty => intros; rfl
  | leaf p v hp =>
    intro k hk
    rw [lookup_leaf, if_neg]
    rintro rfl
    exact hk hp
  | ext p cs _ hn _ ih =>
    intro k hk
    by_cases hp : p <+: k
    · obtain ⟨r, rfl⟩ := hp
      rw [lookup_ext_append]
      exact ih fun hr => hk (by simp [hr, hn])
    · exact lookup_ext_of_not_prefix hp _
  | branch cs _ _ _ _ ih =>
    intro k hk
    cases k with
    | nil => rfl
    | cons a k => exact ih a fun hr => hk (by simp [hr])

/-! ## Children -/

/-- The sub-trie under one digit, whatever the node form. -/
def child : Trie α β → α → Trie α β
  | empty, _ => empty
  | leaf [] _, _ => empty
  | leaf (a :: p) v, x => if x = a then leaf p v else empty
  | ext [] _, _ => empty
  | ext (a :: p) c, x => if x = a then prepend p c else empty
  | branch cs, x => cs x

@[simp] theorem child_empty (x : α) : child (empty : Trie α β) x = empty := rfl

@[simp] theorem child_leaf_cons (a x : α) (p : List α) (v : β) :
    child (leaf (a :: p) v) x = if x = a then leaf p v else empty := rfl

@[simp] theorem child_ext_cons (a x : α) (p : List α) (c : Trie α β) :
    child (ext (a :: p) c) x = if x = a then prepend p c else empty := rfl

@[simp] theorem child_branch (cs : α → Trie α β) (x : α) :
    child (branch cs) x = cs x := rfl

theorem Canonical.child {n : Nat} {t : Trie α β} (h : Canonical (n + 1) t) (x : α) :
    Canonical n (child t x) := by
  cases h with
  | empty => exact .empty
  | leaf p v hp =>
    cases p with
    | nil => simp at hp
    | cons a p =>
      rw [child_leaf_cons]
      split
      · exact .leaf p v (by simpa using hp)
      · exact .empty
  | ext p cs hp hn hc =>
    cases p with
    | nil => exact absurd rfl hp
    | cons a p =>
      rw [child_ext_cons]
      split
      · have := hc.prepend p
        rwa [show p.length + _ = n by simp only [List.length_cons] at hn; omega] at this
      · exact .empty
  | branch cs hcs _ _ _ => exact hcs x

theorem Canonical.lookup_child {n : Nat} {t : Trie α β} (h : Canonical (n + 1) t)
    (x : α) (k : List α) : lookup (Trie.child t x) k = lookup t (x :: k) := by
  cases h with
  | empty => rfl
  | leaf p v hp =>
    cases p with
    | nil => simp at hp
    | cons a p => by_cases hx : x = a <;> simp [hx]
  | ext p cs hp hn hc =>
    cases p with
    | nil => exact absurd rfl hp
    | cons a p =>
      rw [lookup_ext_cons, child_ext_cons]
      split <;> rfl
  | branch cs hcs _ _ _ => rfl

/-! ## Lookups of a reassembled trie -/

@[simp] theorem lookup_combine_cons (cs : α → Trie α β) (x : α) (k : List α) :
    lookup (combine cs) (x :: k) = lookup (cs x) k := by
  rcases combine_cases cs with ⟨h, he⟩ | ⟨a, _, h, he⟩ | ⟨a, b, _, _, _, he⟩
  · rw [he, h x]
    rfl
  · rw [he, lookup_prepend_cons]
    by_cases hx : x = a
    · rw [if_pos hx, hx]
    · rw [if_neg hx, h x hx]
      rfl
  · rw [he]
    rfl

/-- A canonical trie is the reassembly of its children. -/
theorem Canonical.combine_child {n : Nat} {t : Trie α β}
    (h : Canonical (n + 1) t) : combine (Trie.child t) = t := by
  cases h with
  | empty => exact combine_empty fun _ => rfl
  | leaf p v hp =>
    cases p with
    | nil => simp at hp
    | cons a p =>
      rw [combine_single (a := a) (by simp) (fun b hb => by simp [hb])]
      simp
  | ext p cs hp hn hc =>
    cases p with
    | nil => exact absurd rfl hp
    | cons a p =>
      rw [combine_single (a := a) (by simp [prepend_eq_empty]) (fun b hb => by simp [hb]),
        child_ext_cons, if_pos rfl, ← prepend_append, List.singleton_append,
        prepend_branch (by simp)]
  | branch cs hcs hab ha hb => exact combine_branch hab ha hb

/-! ## Canonical tries are maps -/

theorem lookup_ofMap {n : Nat} {m : List α → Option β} {k : List α}
    (hk : k.length = n) : lookup (ofMap n m) k = m k := by
  induction n generalizing m k with
  | zero =>
    obtain rfl := List.eq_nil_of_length_eq_zero hk
    rw [ofMap]
    split <;> simp [*]
  | succ n ih =>
    cases k with
    | nil => simp at hk
    | cons x k =>
      rw [ofMap, lookup_combine_cons, ih (by simpa using hk)]

/-- A canonical trie is determined by what it holds. -/
theorem Canonical.eq_ofMap {n : Nat} {t : Trie α β} (h : Canonical n t) :
    t = ofMap n (lookup t) := by
  induction n generalizing t with
  | zero =>
    rw [ofMap]
    cases h with
    | empty => rfl
    | leaf p v hp =>
      obtain rfl := List.eq_nil_of_length_eq_zero hp
      simp
    | ext p cs hp hn _ =>
      cases p with
      | nil => exact absurd rfl hp
      | cons a p => simp at hn
  | succ n ih =>
    rw [ofMap, ← h.combine_child]
    congr 1
    funext x
    rw [h.combine_child, ih (h.child x)]
    congr 1
    funext k
    exact h.lookup_child x k

/-- Canonical tries with the same lookups are the same trie. -/
theorem Canonical.ext_lookup {n : Nat} {t t' : Trie α β} (h : Canonical n t)
    (h' : Canonical n t') (hl : ∀ k, k.length = n → lookup t k = lookup t' k) :
    t = t' := by
  rw [h.eq_ofMap, h'.eq_ofMap]
  exact ofMap_congr hl

end Trie

end Radix
