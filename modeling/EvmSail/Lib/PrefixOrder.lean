/-
# `EvmSail.Lib.PrefixOrder` — prefix ranges of the lexicographic order

In the lexicographic order the paths below one prefix form an interval
that starts at the prefix itself.  Paths that differ at a digit
(`Precedes`) are ordered and neither is a prefix of the other.
-/
import Mathlib

namespace Radix

variable {α : Type} [LinearOrder α]

theorem not_lt_nil (l : List α) : ¬ l < [] := nofun

theorem le_of_isPrefix {p a : List α} (h : p <+: a) : p ≤ a := by
  obtain ⟨r, rfl⟩ := h
  induction p with
  | nil => exact not_lt.mp (not_lt_nil _)
  | cons x p ih =>
    rw [List.cons_append]
    exact List.cons_le_cons x ih

/-- Convexity: whatever lies between a prefix and a path below it lies
below it too. -/
theorem prefix_of_le_of_lt {p a b : List α} (hpa : p ≤ a) (hab : a < b) (hb : p <+: b) :
    p <+: a := by
  rcases eq_or_lt_of_le hpa with rfl | hlt
  · exact List.prefix_refl _
  clear hpa
  induction p generalizing a b with
  | nil => exact List.nil_prefix
  | cons x p ih =>
    obtain ⟨r, rfl⟩ := hb
    cases a with
    | nil => exact absurd hlt (not_lt_nil _)
    | cons y a =>
      rw [List.cons_append, List.cons_lt_cons_iff] at hab
      rw [List.cons_lt_cons_iff] at hlt
      rcases hlt with hxy | ⟨rfl, hlt⟩
      · rcases hab with hyx | ⟨rfl, _⟩
        · exact absurd hxy (lt_asymm hyx)
        · exact absurd hxy (lt_irrefl _)
      · rcases hab with hyx | ⟨_, hab⟩
        · exact absurd hyx (lt_irrefl _)
        · exact List.cons_prefix_cons.mpr ⟨rfl, ih hab (List.prefix_append p r) hlt⟩

/-- Below one prefix the order is first by the next digit. -/
theorem digit_le_of_lt {p r r' : List α} {x y : α} (h : p ++ x :: r < p ++ y :: r') : x ≤ y := by
  induction p with
  | nil =>
    rw [List.nil_append, List.nil_append, List.cons_lt_cons_iff] at h
    rcases h with h | ⟨rfl, _⟩
    · exact le_of_lt h
    · exact le_refl _
  | cons z p ih =>
    rw [List.cons_append, List.cons_append, List.cons_lt_cons_iff] at h
    rcases h with h | ⟨_, h⟩
    · exact absurd h (lt_irrefl _)
    · exact ih h

/-! ## Paths that differ -/

/-- `a` is below `b` at the first digit where they differ. -/
def Precedes {α : Type} [LT α] (a b : List α) : Prop :=
  ∃ p x y r r', a = p ++ x :: r ∧ b = p ++ y :: r' ∧ x < y

theorem Precedes.lt {a b : List α} (h : Precedes a b) : a < b := by
  obtain ⟨p, x, y, r, r', rfl, rfl, hxy⟩ := h
  induction p with
  | nil => exact List.Lex.rel hxy
  | cons z p ih => exact List.Lex.cons ih

theorem Precedes.incomparable {a b : List α} (h : Precedes a b) : ¬ a <+: b ∧ ¬ b <+: a := by
  obtain ⟨p, x, y, r, r', rfl, rfl, hxy⟩ := h
  rw [List.prefix_append_right_inj, List.prefix_append_right_inj, List.cons_prefix_cons,
    List.cons_prefix_cons]
  exact ⟨fun h => absurd h.1 (ne_of_lt hxy), fun h => absurd h.1.symm (ne_of_lt hxy)⟩

omit [LinearOrder α] in
theorem Precedes.append_left [LT α] {a b : List α} (h : Precedes a b) (p : List α) :
    Precedes (p ++ a) (p ++ b) := by
  obtain ⟨q, x, y, r, r', rfl, rfl, hxy⟩ := h
  exact ⟨p ++ q, x, y, r, r', (List.append_assoc ..).symm, (List.append_assoc ..).symm, hxy⟩

omit [LinearOrder α] in
theorem Precedes.append_right [LT α] {a b : List α} (h : Precedes a b) (s s' : List α) :
    Precedes (a ++ s) (b ++ s') := by
  obtain ⟨q, x, y, r, r', rfl, rfl, hxy⟩ := h
  exact ⟨q, x, y, r ++ s, r' ++ s', by simp, by simp, hxy⟩

end Radix
