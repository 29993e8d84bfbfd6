/-
# `EvmSail.Lib.MerkleFrontier` — roots of trees that are filled one leaf at a time

`partialRoot combine zero d leaves` is the root of a tree of depth `d` over
fewer leaves than it has room for, where a part without leaves is not
computed but has the node `zero k` of its depth `k`.  The `zero k` may be
anything.

A frontier computes the same from below.  Behind `n` leaves it holds one
node for every binary digit of `n`: the last node of each level that has an
odd number of them (`Holds`).  One more leaf climbs as far as the levels
below it are odd (`holds_climb`), and the root is reached by closing the
levels in turn (`closed_root`).

Both rest on pairing the leaves up: the tree over the leaves is the tree,
one level lower, over their pairs (`partialRoot_pairUp`), and so is the
frontier (`Holds.shift`).
-/
import EvmSail.Lib.Merkle

namespace Merkle

variable {α : Type*} (combine : α → α → α)

/-! ## Trees -/

/-- The root of a tree over some leaves, its empty parts given. -/
def partialRoot (zero : Nat → α) : Nat → List α → α
  | d, [] => zero d
  | 0, leaf :: _ => leaf
  | d + 1, leaf :: leaves =>
    combine (partialRoot zero d ((leaf :: leaves).take (2 ^ d)))
      (partialRoot zero d ((leaf :: leaves).drop (2 ^ d)))

/-- The nodes over the complete pairs of a level. -/
def pairs : List α → List α
  | a :: b :: nodes => combine a b :: pairs nodes
  | _ => []

/-- The nodes over a level, the last one over `zero` where it is alone. -/
def pairUp (zero : α) : List α → List α
  | a :: b :: nodes => combine a b :: pairUp zero nodes
  | [a] => [combine a zero]
  | [] => []

variable {combine} {zero : Nat → α}

theorem partialRoot_nil (d : Nat) : partialRoot combine zero d [] = zero d := by
  cases d <;> rfl

theorem partialRoot_succ {d : Nat} {leaves : List α} (h : leaves ≠ []) :
    partialRoot combine zero (d + 1) leaves =
      combine (partialRoot combine zero d (leaves.take (2 ^ d)))
        (partialRoot combine zero d (leaves.drop (2 ^ d))) := by
  cases leaves with
  | nil => exact absurd rfl h
  | cons leaf leaves => rfl

theorem length_pairs (nodes : List α) : (pairs combine nodes).length = nodes.length / 2 := by
  induction nodes using pairs.induct with
  | case1 a b nodes ih =>
    rw [pairs, List.length_cons, ih, List.length_cons, List.length_cons]
    omega
  | case2 nodes h =>
    rcases nodes with _ | ⟨a, _ | ⟨b, nodes⟩⟩
    · simp [pairs]
    · simp [pairs]
    · exact absurd rfl (h a b nodes)

theorem length_pairUp (z : α) (nodes : List α) :
    (pairUp combine z nodes).length = (nodes.length + 1) / 2 := by
  induction nodes using pairUp.induct with
  | case1 a b nodes ih =>
    rw [pairUp, List.length_cons, ih, List.length_cons, List.length_cons]
    omega
  | case2 a => simp [pairUp]
  | case3 => simp [pairUp]

theorem take_pairUp (z : α) (m : Nat) (nodes : List α) :
    pairUp combine z (nodes.take (2 * m)) = (pairUp combine z nodes).take m := by
  induction m generalizing nodes with
  | zero => rfl
  | succ m ih =>
    have hdouble : 2 * (m + 1) = 2 * m + 1 + 1 := by omega
    rcases nodes with _ | ⟨a, _ | ⟨b, nodes⟩⟩
    · rfl
    · rw [hdouble, List.take_succ_cons, List.take_nil, pairUp, List.take_succ_cons, List.take_nil]
    · rw [hdouble, List.take_succ_cons, List.take_succ_cons, pairUp, pairUp, List.take_succ_cons,
        ih]

theorem drop_pairUp (z : α) (m : Nat) (nodes : List α) :
    pairUp combine z (nodes.drop (2 * m)) = (pairUp combine z nodes).drop m := by
  induction m generalizing nodes with
  | zero => rfl
  | succ m ih =>
    have hdouble : 2 * (m + 1) = 2 * m + 1 + 1 := by omega
    rcases nodes with _ | ⟨a, _ | ⟨b, nodes⟩⟩
    · rfl
    · rw [hdouble, List.drop_succ_cons, List.drop_nil, pairUp, pairUp, List.drop_succ_cons,
        List.drop_nil]
    · rw [hdouble, List.drop_succ_cons, List.drop_succ_cons, pairUp, List.drop_succ_cons, ih]

/-- The tree over the leaves is a tree over their pairs. -/
theorem partialRoot_pairUp {d : Nat} {leaves : List α} (h : leaves.length ≤ 2 ^ (d + 1)) :
    partialRoot combine zero (d + 1) leaves =
      partialRoot combine (fun k => zero (k + 1)) d (pairUp combine (zero 0) leaves) := by
  induction d generalizing leaves with
  | zero =>
    rcases leaves with _ | ⟨a, _ | ⟨b, leaves⟩⟩
    · rfl
    · rfl
    · have hnil : leaves = [] := by
        simp only [List.length_cons] at h
        exact List.eq_nil_of_length_eq_zero (by omega)
      rw [hnil]
      rfl
  | succ d ih =>
    rcases leaves with _ | ⟨a, leaves⟩
    · rfl
    · have hpow : 2 ^ (d + 1) = 2 * 2 ^ d := by rw [Nat.pow_succ, Nat.mul_comm]
      have hpairs : pairUp combine (zero 0) (a :: leaves) ≠ [] := by
        refine List.ne_nil_of_length_pos ?_
        rw [length_pairUp, List.length_cons]
        omega
      have hleft : ((a :: leaves).take (2 ^ (d + 1))).length ≤ 2 ^ (d + 1) := List.length_take_le ..
      have hright : ((a :: leaves).drop (2 ^ (d + 1))).length ≤ 2 ^ (d + 1) := by
        rw [Nat.pow_succ 2 (d + 1)] at h
        rw [List.length_drop]
        omega
      rw [partialRoot_succ (List.cons_ne_nil a leaves), ih hleft, ih hright,
        partialRoot_succ hpairs, hpow, take_pairUp, drop_pairUp]

/-- Where the nodes of empty parts are the roots of padding, the tree is the
complete one over the padded leaves. -/
theorem partialRoot_padded {z : α} {d : Nat} (hzero : ∀ k ≤ d, zero k = zeroRoot combine z k)
    {leaves : List α} (h : leaves.length ≤ 2 ^ d) :
    partialRoot combine zero d leaves = root combine d (padded z leaves) := by
  induction d generalizing leaves with
  | zero =>
    rcases leaves with _ | ⟨a, leaves⟩
    · exact hzero 0 (Nat.le_refl _)
    · rfl
  | succ d ih =>
    have hlower : ∀ k ≤ d, zero k = zeroRoot combine z k := fun k hk => hzero k (by omega)
    rcases leaves with _ | ⟨a, leaves⟩
    · rw [partialRoot_nil, root_padded_nil, hzero _ (Nat.le_refl _)]
    · rw [Nat.pow_succ] at h
      have hright : ((a :: leaves).drop (2 ^ d)).length ≤ 2 ^ d := by
        rw [List.length_drop]
        omega
      rw [partialRoot_succ (List.cons_ne_nil a leaves), ih hlower (List.length_take_le ..),
        ih hlower hright]
      by_cases hle : (a :: leaves).length ≤ 2 ^ d
      · rw [List.take_of_length_le hle, List.drop_eq_nil_of_le hle, root_padded_nil,
          root_padded_left hle]
      · have hfull : ((a :: leaves).take (2 ^ d)).length = 2 ^ d := by
          rw [List.length_take]
          omega
        have hsplit : root combine (d + 1)
            (padded z ((a :: leaves).take (2 ^ d) ++ (a :: leaves).drop (2 ^ d))) = _ :=
          root_padded_append hfull
        rw [List.take_append_drop] at hsplit
        exact hsplit.symm

/-! ## Frontiers -/

/-- The last node of each odd level stands in the frontier. -/
def Holds (combine : α → α → α) (frontier : Nat → α) (nodes : List α) : Prop :=
  ∀ level, ((pairs combine)^[level] nodes).length % 2 = 1 →
    ((pairs combine)^[level] nodes).getLast? = some (frontier level)

theorem holds_nil (frontier : Nat → α) : Holds combine frontier [] := by
  intro level hodd
  have hnil : (pairs combine)^[level] ([] : List α) = [] := Function.iterate_fixed rfl level
  rw [hnil] at hodd
  cases hodd

theorem Holds.shift {frontier : Nat → α} {nodes : List α} (h : Holds combine frontier nodes) :
    Holds combine (fun level => frontier (level + 1)) (pairs combine nodes) :=
  fun level => h (level + 1)

theorem shift_eq (frontier : Nat → α) (level : Nat) :
    (fun k => frontier (level + (k + 1))) = fun k => frontier (level + 1 + k) :=
  funext fun k => congrArg frontier (by omega)

/-- One level up. -/
theorem Holds.up {frontier : Nat → α} {nodes : List α} {level : Nat}
    (h : Holds combine (fun k => frontier (level + k)) nodes) :
    Holds combine (fun k => frontier (level + 1 + k)) (pairs combine nodes) :=
  shift_eq frontier level ▸ h.shift

/-- A frontier is that of the pairs above the last node that is alone. -/
theorem Holds.unshift {frontier : Nat → α} {nodes : List α}
    (h : Holds combine (fun level => frontier (level + 1)) (pairs combine nodes))
    (hlast : nodes.length % 2 = 1 → nodes.getLast? = some (frontier 0)) :
    Holds combine frontier nodes := by
  intro level hodd
  cases level with
  | zero => exact hlast hodd
  | succ level => exact h level hodd

/-- The level whose last node is alone is the frontier's own. -/
theorem Holds.last {frontier : Nat → α} {nodes : List α} (h : Holds combine frontier nodes)
    (hodd : nodes.length % 2 = 1) : ∃ init, init.length % 2 = 0 ∧ nodes = init ++ [frontier 0] := by
  have hlast : nodes.getLast? = some (frontier 0) := h 0 hodd
  obtain ⟨init, hinit⟩ := List.getLast?_eq_some_iff.mp hlast
  refine ⟨init, ?_, hinit⟩
  rw [hinit, List.length_append, List.length_singleton] at hodd
  omega

/-- An even list is paired up apart from what follows it. -/
theorem pairs_append {nodes : List α} (heven : nodes.length % 2 = 0) (more : List α) :
    pairs combine (nodes ++ more) = pairs combine nodes ++ pairs combine more := by
  induction nodes using pairs.induct with
  | case1 a b nodes ih =>
    rw [List.length_cons, List.length_cons] at heven
    rw [List.cons_append, List.cons_append, pairs, pairs, ih (by omega), List.cons_append]
  | case2 nodes h =>
    rcases nodes with _ | ⟨a, _ | ⟨b, nodes⟩⟩
    · rfl
    · cases heven
    · exact absurd rfl (h a b nodes)

theorem pairUp_append {z : α} {nodes : List α} (heven : nodes.length % 2 = 0) (more : List α) :
    pairUp combine z (nodes ++ more) = pairs combine nodes ++ pairUp combine z more := by
  induction nodes using pairs.induct with
  | case1 a b nodes ih =>
    rw [List.length_cons, List.length_cons] at heven
    rw [List.cons_append, List.cons_append, pairUp, pairs, ih (by omega), List.cons_append]
  | case2 nodes h =>
    rcases nodes with _ | ⟨a, _ | ⟨b, nodes⟩⟩
    · rfl
    · cases heven
    · exact absurd rfl (h a b nodes)

/-- How far a new node climbs, and what it has become there. -/
def climb (combine : α → α → α) (frontier : Nat → α) (occupied level : Nat) (carry : α) : Nat × α :=
  if occupied % 2 = 1 then
    climb combine frontier (occupied / 2) (level + 1) (combine (frontier level) carry)
  else (level, carry)
termination_by occupied
decreasing_by omega

/-- A node climbs as many levels as the number of nodes has final ones. -/
theorem climb_le (frontier : Nat → α) (occupied level : Nat) (carry : α) :
    2 ^ (climb combine frontier occupied level carry).1 ≤ 2 ^ level * (occupied + 1) := by
  induction occupied using Nat.strongRecOn generalizing level carry with
  | _ occupied ih =>
    rw [climb]
    by_cases hodd : occupied % 2 = 1
    · rw [if_pos hodd]
      have hup := ih (occupied / 2) (by omega) (level + 1) (combine (frontier level) carry)
      have hhalf : 2 * (occupied / 2 + 1) = occupied + 1 := by omega
      rwa [Nat.pow_succ, Nat.mul_assoc, hhalf] at hup
    · rw [if_neg hodd]
      exact Nat.le_mul_of_pos_right _ (Nat.succ_pos _)

/-- The frontier with one more node in it, where that has climbed to. -/
theorem holds_climb {frontier : Nat → α} {nodes : List α} {level : Nat} (carry : α)
    (h : Holds combine (fun k => frontier (level + k)) nodes) :
    level ≤ (climb combine frontier nodes.length level carry).1 ∧
      Holds combine
        (fun k => Function.update frontier (climb combine frontier nodes.length level carry).1
          (climb combine frontier nodes.length level carry).2 (level + k))
        (nodes ++ [carry]) := by
  induction hn : nodes.length using Nat.strongRecOn generalizing nodes level carry with
  | _ n ih =>
    subst hn
    rw [climb]
    by_cases hodd : nodes.length % 2 = 1
    · rw [if_pos hodd]
      obtain ⟨init, heven, hinit⟩ := h.last hodd
      have hpaired : pairs combine (nodes ++ [carry]) =
          pairs combine nodes ++ [combine (frontier level) carry] := by
        rw [hinit, List.append_assoc, pairs_append heven, pairs_append heven]
        exact congrArg (· ++ _) (List.append_nil _).symm
      have hlength : (pairs combine nodes).length = nodes.length / 2 := length_pairs nodes
      obtain ⟨hle, hholds⟩ :=
        ih (nodes.length / 2) (by omega) (combine (frontier level) carry) h.up hlength
      refine ⟨by omega, Holds.unshift ?_ fun hsum => ?_⟩
      · rw [hpaired, shift_eq (Function.update frontier _ _)]
        exact hholds
      · rw [List.length_append, List.length_singleton] at hsum
        omega
    · rw [if_neg hodd]
      refine ⟨Nat.le_refl _, Holds.unshift ?_ fun _ => ?_⟩
      · rw [pairs_append (by omega), show pairs combine [carry] = [] from rfl, List.append_nil]
        intro k hk
        have hne : level + (k + 1) ≠ level := by omega
        dsimp only
        rw [Function.update_of_ne hne]
        exact h.shift k hk
      · rw [List.getLast?_concat, Nat.add_zero, Function.update_self]

/-! ## Closing a frontier -/

/-- Closes one level: what of the level is left of its complete nodes, and
the node that is not complete. -/
def closeLevel (combine : α → α → α) (zero : Nat → α) (frontier : Nat → α) (s : Nat × Option α)
    (level : Nat) : Nat × Option α :=
  (s.1 / 2,
    if s.1 % 2 = 1 then some (combine (frontier level) (s.2.getD (zero level)))
    else s.2.map fun right => combine right (zero level))

/-- The root behind some leaves. -/
def closedRoot (combine : α → α → α) (zero : Nat → α) (frontier : Nat → α)
    (count depth : Nat) : α :=
  let s := (List.range depth).foldl (closeLevel combine zero frontier) (count, none)
  if s.1 = 1 then frontier depth else s.2.getD (zero depth)

/-- Closing a level pairs its nodes up, the incomplete one last. -/
theorem closeLevel_pairUp (zero : Nat → α) {frontier : Nat → α} {level : Nat} {nodes : List α}
    (right : Option α) (h : Holds combine (fun k => frontier (level + k)) nodes) :
    closeLevel combine zero frontier (nodes.length, right) level =
        ((pairs combine nodes).length,
          (closeLevel combine zero frontier (nodes.length, right) level).2) ∧
      pairUp combine (zero level) (nodes ++ right.toList) =
        pairs combine nodes ++
          (closeLevel combine zero frontier (nodes.length, right) level).2.toList := by
  refine ⟨by rw [length_pairs]; rfl, ?_⟩
  simp only [closeLevel]
  by_cases hodd : nodes.length % 2 = 1
  · obtain ⟨init, heven, hinit⟩ := h.last hodd
    rw [if_pos hodd]
    have hpairs : pairs combine nodes = pairs combine init := by
      rw [hinit, pairs_append heven]
      exact List.append_nil _
    rw [hpairs]
    nth_rewrite 1 [hinit]
    rw [List.append_assoc, pairUp_append heven]
    cases right with
    | none => rfl
    | some right => rfl
  · rw [if_neg hodd, pairUp_append (by omega)]
    cases right with
    | none => rfl
    | some right => rfl

/-- After some levels the rest of the tree is over the nodes of the level. -/
theorem closed_levels {frontier : Nat → α} {depth : Nat} {nodes : List α} (right : Option α)
    {level : Nat} (h : Holds combine (fun k => frontier (level + k)) nodes)
    (hroom : (nodes ++ right.toList).length ≤ 2 ^ depth) :
    let s :=
      (List.range' level depth).foldl (closeLevel combine zero frontier) (nodes.length, right)
    partialRoot combine (fun k => zero (k + level)) depth (nodes ++ right.toList) =
      if s.1 = 1 then frontier (level + depth) else s.2.getD (zero (level + depth)) := by
  induction depth generalizing nodes right level with
  | zero =>
    rw [List.range'_zero, List.foldl_nil, List.length_append] at *
    rcases nodes with _ | ⟨a, nodes⟩
    · cases right with
      | none => simp [partialRoot]
      | some right => simp [partialRoot]
    · have hnodes : nodes = [] ∧ right = none := by
        rw [List.length_cons] at hroom
        refine ⟨List.eq_nil_of_length_eq_zero (by omega), ?_⟩
        cases right with
        | none => rfl
        | some right =>
          rw [Option.toList_some, List.length_singleton] at hroom
          omega
      obtain ⟨rfl, rfl⟩ := hnodes
      have hlast : [a].getLast? = some (frontier (level + 0)) := h 0 rfl
      simpa [partialRoot] using hlast
  | succ depth ih =>
    obtain ⟨hcount, hpaired⟩ := closeLevel_pairUp zero right h
    have hfits : (pairs combine nodes ++
        (closeLevel combine zero frontier (nodes.length, right) level).2.toList).length ≤
          2 ^ depth := by
      rw [← hpaired, length_pairUp]
      rw [Nat.pow_succ] at hroom
      omega
    have hrest := ih _ h.up hfits
    rw [show level + 1 + depth = level + (depth + 1) by omega] at hrest
    have hzero : (fun k => zero (k + 1 + level)) = fun k => zero (k + (level + 1)) :=
      funext fun k => congrArg zero (by omega)
    rw [List.range'_succ, List.foldl_cons, partialRoot_pairUp hroom, Nat.zero_add, hpaired, hcount,
      hzero]
    exact hrest

/-- A frontier closes to the root of the tree over its leaves. -/
theorem closed_root {frontier : Nat → α} {leaves : List α} {depth : Nat}
    (h : Holds combine frontier leaves) (hroom : leaves.length ≤ 2 ^ depth) :
    closedRoot combine zero frontier leaves.length depth =
      partialRoot combine zero depth leaves := by
  have hlevels : Holds combine (fun k => frontier (0 + k)) leaves := by
    simpa only [Nat.zero_add] using h
  have hfits : (leaves ++ (none : Option α).toList).length ≤ 2 ^ depth := by
    rwa [Option.toList_none, List.append_nil]
  have hclosed : partialRoot combine (fun k => zero (k + 0)) depth
      (leaves ++ (none : Option α).toList) = _ := closed_levels none hlevels hfits
  rw [Option.toList_none, List.append_nil, ← List.range_eq_range', Nat.zero_add] at hclosed
  exact hclosed.symm

end Merkle
