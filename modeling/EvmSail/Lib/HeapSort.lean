/-
# `EvmSail.Lib.HeapSort` — sorting an array in place

An array of `n` places is a function on them, and exchanging two places
is composing it with their transposition.  So whatever a program that only
exchanges does, its result is the array behind a permutation; what is left
to show is where the keys stand.

Sifting an element down repairs a heap that is wrong at one place only
(`heap_siftDown`).  Done from the last parent on it makes a heap
(`heap_heapify`), and done after the largest key has been moved behind the
heap it keeps what stands there settled (`settled_extract`).
-/
import Mathlib.Data.List.OfFn
import Mathlib.Data.List.FinRange
import Mathlib.Logic.Equiv.Basic
import Mathlib.Order.Defs.LinearOrder

namespace HeapSort

variable {α β : Type} {n : Nat}

/-! ## The program -/

section

variable (less : α → α → Bool)

/-- The child with the greater key, the left one if there is no other. -/
def greaterChild (xs : Fin n → α) (root stop : Nat) (hleft : 2 * root + 1 < stop)
    (hstop : stop ≤ n) : Fin n :=
  let left : Fin n := ⟨2 * root + 1, by omega⟩
  if hright : 2 * root + 2 < stop then
    let right : Fin n := ⟨2 * root + 2, by omega⟩
    if less (xs left) (xs right) then right else left
  else left

theorem val_greaterChild (xs : Fin n → α) {root stop : Nat} (hleft : 2 * root + 1 < stop)
    (hstop : stop ≤ n) :
    ((greaterChild less xs root stop hleft hstop).val = 2 * root + 1 ∨
        (greaterChild less xs root stop hleft hstop).val = 2 * root + 2) ∧
      (greaterChild less xs root stop hleft hstop).val < stop := by
  rw [greaterChild]
  dsimp only
  split
  · rename_i hright
    split
    · exact ⟨Or.inr rfl, hright⟩
    · exact ⟨Or.inl rfl, hleft⟩
  · exact ⟨Or.inl rfl, hleft⟩

/-- Sifts the element at `root` down among the first `stop` places. -/
def siftDown (xs : Fin n → α) (root stop : Nat) (hstop : stop ≤ n) : Fin n → α :=
  if hroot : 2 ≤ stop ∧ root ≤ (stop - 2) / 2 then
    let top : Fin n := ⟨root, by omega⟩
    let child := greaterChild less xs root stop (by omega) hstop
    if less (xs top) (xs child) then siftDown (xs ∘ Equiv.swap top child) child stop hstop else xs
  else xs
termination_by stop - root
decreasing_by
  have hchild := val_greaterChild less xs (show 2 * root + 1 < stop by omega) hstop
  omega

/-- Sifts down the elements before `start`, the last one first. -/
def heapify : Nat → (Fin n → α) → Fin n → α
  | 0, xs => xs
  | start + 1, xs => heapify start (siftDown less xs start n (Nat.le_refl n))

/-- Moves the first element of the heap behind it, as long as there are two. -/
def extract : (stop : Nat) → stop ≤ n → (Fin n → α) → Fin n → α
  | 0, _, xs => xs
  | 1, _, xs => xs
  | stop + 2, h, xs =>
    extract (stop + 1) (by omega)
      (siftDown less (xs ∘ Equiv.swap ⟨0, by omega⟩ ⟨stop + 1, by omega⟩) 0 (stop + 1) (by omega))

def sort (xs : Fin n → α) : Fin n → α :=
  extract less n (Nat.le_refl n) (heapify less (n / 2) xs)

def sortList (l : List α) : List α := List.ofFn (sort less l.get)

end

/-! ## Exchanging within a range -/

/-- The array with places before `stop` permuted. -/
def Within (stop : Nat) (xs ys : Fin n → α) : Prop :=
  ∃ σ : Equiv.Perm (Fin n), ys = xs ∘ σ ∧ ∀ i, stop ≤ i.val → σ i = i

namespace Within

variable {stop : Nat} {xs ys zs : Fin n → α}

theorem refl (stop : Nat) (xs : Fin n → α) : Within stop xs xs :=
  ⟨Equiv.refl _, rfl, fun _ _ => rfl⟩

theorem trans (h : Within stop xs ys) (h' : Within stop ys zs) : Within stop xs zs := by
  obtain ⟨σ, rfl, hσ⟩ := h
  obtain ⟨τ, rfl, hτ⟩ := h'
  refine ⟨τ.trans σ, rfl, fun i hi => ?_⟩
  rw [Equiv.trans_apply, hτ i hi, hσ i hi]

theorem mono {stop' : Nat} (h : Within stop xs ys) (hle : stop ≤ stop') : Within stop' xs ys := by
  obtain ⟨σ, hys, hσ⟩ := h
  exact ⟨σ, hys, fun i hi => hσ i (hle.trans hi)⟩

theorem swap (xs : Fin n → α) {i j : Fin n} (hi : i.val < stop) (hj : j.val < stop) :
    Within stop xs (xs ∘ Equiv.swap i j) := by
  refine ⟨Equiv.swap i j, rfl, fun k hk => ?_⟩
  refine Equiv.swap_apply_of_ne_of_ne ?_ ?_
  · rintro rfl
    omega
  · rintro rfl
    omega

/-- What stands in the range came from it. -/
theorem source (h : Within stop xs ys) (i : Fin n) :
    ∃ k, ys i = xs k ∧ (i.val < stop → k.val < stop) ∧ (stop ≤ i.val → k = i) := by
  obtain ⟨σ, rfl, hσ⟩ := h
  refine ⟨σ i, rfl, fun hi => ?_, hσ i⟩
  by_contra hge
  have hfixed : σ i = i := σ.injective (hσ (σ i) (by omega))
  rw [hfixed] at hge
  exact hge hi

end Within

section

variable (less : α → α → Bool)

theorem within_siftDown (xs : Fin n → α) (root : Nat) {stop : Nat} (hstop : stop ≤ n) :
    Within stop xs (siftDown less xs root stop hstop) := by
  induction hm : stop - root using Nat.strongRecOn generalizing xs root with
  | _ m ih =>
    rw [siftDown]
    split
    · rename_i hroot
      have hchild := val_greaterChild less xs (show 2 * root + 1 < stop by omega) hstop
      dsimp only
      split
      · have htop : (⟨root, by omega⟩ : Fin n).val < stop := show root < stop by omega
        refine (Within.swap xs htop hchild.2).trans ?_
        exact ih _ (by omega) _ _ rfl
      · exact .refl _ _
    · exact .refl _ _

theorem within_heapify (start : Nat) (xs : Fin n → α) : Within n xs (heapify less start xs) := by
  induction start generalizing xs with
  | zero => exact .refl _ _
  | succ start ih => exact (within_siftDown less xs start (Nat.le_refl n)).trans (ih _)

theorem within_extract {stop : Nat} (hstop : stop ≤ n) (xs : Fin n → α) :
    Within stop xs (extract less stop hstop xs) := by
  induction stop generalizing xs with
  | zero => exact .refl _ _
  | succ stop ih =>
    cases stop with
    | zero => exact .refl _ _
    | succ stop =>
      have hsift := within_siftDown less
        (xs ∘ Equiv.swap ⟨0, by omega⟩ ⟨stop + 1, by omega⟩) 0 (show stop + 1 ≤ n by omega)
      have hrest := hsift.trans (ih (by omega) _)
      exact (Within.swap xs (by simp) (by simp)).trans (hrest.mono (by omega))

end

/-! ## Heaps -/

section

variable [LinearOrder β] (key : α → β)

/-- `c` is a child of `i`. -/
def Child (i c : Nat) : Prop := c = 2 * i + 1 ∨ c = 2 * i + 2

/-- From `lo` on no parent has a smaller key than its children. -/
def Heap (lo stop : Nat) (xs : Fin n → α) : Prop :=
  ∀ i c : Fin n, lo ≤ i.val → Child i c → c.val < stop → key (xs c) ≤ key (xs i)

/-- A heap but for the place `root`, whose children are not above its parent. -/
structure HeapOff (lo stop root : Nat) (xs : Fin n → α) : Prop where
  off : ∀ i c : Fin n, lo ≤ i.val → i.val ≠ root → Child i c → c.val < stop →
    key (xs c) ≤ key (xs i)
  across : ∀ i r c : Fin n, lo ≤ i.val → r.val = root → Child i r → Child r c → c.val < stop →
    key (xs c) ≤ key (xs i)

variable {key}

/-- The first key of a heap is the largest. -/
theorem Heap.le_first {stop : Nat} {xs : Fin n → α} (h : Heap key 0 stop xs) (hn : 0 < n)
    (i : Fin n) (hi : i.val < stop) : key (xs i) ≤ key (xs ⟨0, hn⟩) := by
  obtain ⟨i, hin⟩ := i
  induction i using Nat.strongRecOn with
  | _ i ih =>
    by_cases hzero : i = 0
    · subst hzero
      exact le_refl _
    · have hparent : Child ((i - 1) / 2) i := by
        unfold Child
        omega
      have hlt : (i - 1) / 2 < i := by omega
      exact (h ⟨(i - 1) / 2, by omega⟩ ⟨i, hin⟩ (Nat.zero_le _) hparent hi).trans
        (ih _ hlt _ (hlt.trans hi))

variable {less : α → α → Bool} (hless : ∀ x y, less x y = decide (key x < key y))

include hless

theorem le_greaterChild (xs : Fin n → α) {root stop : Nat} (hleft : 2 * root + 1 < stop)
    (hstop : stop ≤ n) (c : Fin n) (hc : Child root c) (hcs : c.val < stop) :
    key (xs c) ≤ key (xs (greaterChild less xs root stop hleft hstop)) := by
  obtain ⟨c, hcn⟩ := c
  rw [greaterChild]
  dsimp only at hcs ⊢
  split
  · rw [hless]
    split
    · rename_i hlt
      rcases hc with rfl | rfl
      · exact (of_decide_eq_true hlt).le
      · exact le_refl _
    · rename_i hlt
      rcases hc with rfl | rfl
      · exact le_refl _
      · exact le_of_not_gt (of_decide_eq_false (eq_false_of_ne_true hlt))
  · rename_i hright
    rcases hc with rfl | rfl
    · exact le_refl _
    · exact absurd hcs hright

/-- Sifting down repairs the one place at which the heap is wrong. -/
theorem heap_siftDown {lo root stop : Nat} (hstop : stop ≤ n) {xs : Fin n → α} (hlo : lo ≤ root)
    (h : HeapOff key lo stop root xs) : Heap key lo stop (siftDown less xs root stop hstop) := by
  induction hm : stop - root using Nat.strongRecOn generalizing xs root with
  | _ m ih =>
    rw [siftDown]
    split
    · rename_i hroot
      have hleft : 2 * root + 1 < stop := by omega
      obtain ⟨hchild, hchildStop⟩ := val_greaterChild less xs hleft hstop
      have hgreatest := le_greaterChild hless xs hleft hstop
      dsimp only
      generalize hc : greaterChild less xs root stop hleft hstop = child at *
      generalize htop : (⟨root, by omega⟩ : Fin n) = top at *
      have htopVal : top.val = root := by rw [← htop]
      have hne : ∀ i : Fin n, i ≠ top → i ≠ child → (xs ∘ Equiv.swap top child) i = xs i :=
        fun i h₁ h₂ => congrArg xs (Equiv.swap_apply_of_ne_of_ne h₁ h₂)
      have hatTop : (xs ∘ Equiv.swap top child) top = xs child :=
        congrArg xs (Equiv.swap_apply_left _ _)
      have hatChild : (xs ∘ Equiv.swap top child) child = xs top :=
        congrArg xs (Equiv.swap_apply_right _ _)
      rw [hless]
      split
      · -- the element goes down, and its place has the greatest key below it
        rename_i hlt
        have hlt := (of_decide_eq_true hlt).le
        refine ih _ (by omega) (by omega) ⟨?_, ?_⟩ rfl
        · intro i c hi hic hcld hcs
          have hchildOf : ∀ j : Fin n, j.val = root → j = top :=
            fun j hj => Fin.ext (hj.trans htopVal.symm)
          have hic' : i ≠ child := fun heq => hic (congrArg Fin.val heq)
          by_cases hir : i.val = root
          · obtain rfl := hchildOf i hir
            rw [hatTop]
            rw [hir] at hcld
            by_cases hcc : c = child
            · rw [hcc, hatChild]
              exact hlt
            · rw [hne c (by rintro rfl; unfold Child at hcld; omega) hcc]
              exact hgreatest c hcld hcs
          · rw [hne i (fun heq => hir (heq ▸ htopVal)) hic']
            by_cases hcr : c.val = root
            · obtain rfl := hchildOf c hcr
              rw [hatTop]
              exact h.across i c child hi hcr hcld (hcr.symm ▸ hchild) hchildStop
            · have hcc : c ≠ child := by
                rintro rfl
                unfold Child at hcld
                omega
              rw [hne c (fun heq => hcr (heq ▸ htopVal)) hcc]
              exact h.off i c hi hir hcld hcs
        · intro i r c hi hr hir hrc hcs
          obtain rfl : r = child := Fin.ext hr
          have hit : i = top := by
            refine Fin.ext ?_
            unfold Child at hir
            omega
          have hcr : c ≠ top ∧ c ≠ r := by
            unfold Child at hrc
            refine ⟨?_, ?_⟩
            · rintro rfl
              omega
            · rintro rfl
              omega
          rw [hit, hatTop, hne c hcr.1 hcr.2]
          exact h.off r c (by omega) (by omega) hrc hcs
      · rename_i hnot
        have hge := le_of_not_gt (of_decide_eq_false (eq_false_of_ne_true hnot))
        intro i c hi hcld hcs
        by_cases hir : i.val = root
        · obtain rfl : i = top := Fin.ext (hir.trans htopVal.symm)
          rw [hir] at hcld
          exact (hgreatest c hcld hcs).trans hge
        · exact h.off i c hi hir hcld hcs
    · rename_i hroot
      intro i c hi hcld hcs
      have hir : i.val ≠ root := by
        unfold Child at hcld
        omega
      exact h.off i c hi hir hcld hcs

theorem heap_heapify {start : Nat} {xs : Fin n → α} (h : Heap key start n xs) :
    Heap key 0 n (heapify less start xs) := by
  induction start generalizing xs with
  | zero => exact h
  | succ start ih =>
    refine ih (heap_siftDown hless (Nat.le_refl n) (Nat.le_refl start) ⟨?_, ?_⟩)
    · intro i c hi hne hic hc
      exact h i c (by omega) hic hc
    · intro i r c hi hr hir _ _
      unfold Child at hir
      omega

/-! ## Extraction -/

/-- What stands from `stop` on has its place. -/
def Settled (key : α → β) (stop : Nat) (xs : Fin n → α) : Prop :=
  ∀ i j : Fin n, stop ≤ j.val → i ≤ j → key (xs i) ≤ key (xs j)

omit hless in
/-- Permuting what stands before. -/
theorem Settled.within {stop : Nat} {xs ys : Fin n → α} (h : Settled key stop xs)
    (hw : Within stop xs ys) : Settled key stop ys := by
  intro i j hj hij
  obtain ⟨k, hk, hkin, hkout⟩ := hw.source i
  obtain ⟨l, hl, _, hlout⟩ := hw.source j
  obtain rfl := hlout hj
  rw [hk, hl]
  refine h k l hj ?_
  by_cases hi : i.val < stop
  · exact Fin.le_def.mpr ((hkin hi).le.trans hj)
  · rw [hkout (Nat.le_of_not_lt hi)]
    exact hij

/-- Each round settles the last place of the heap. -/
theorem settled_extract {stop : Nat} (hstop : stop ≤ n) {xs : Fin n → α}
    (hheap : Heap key 0 stop xs) (h : Settled key stop xs) :
    Settled key 0 (extract less stop hstop xs) := by
  induction stop generalizing xs with
  | zero => exact h
  | succ stop ih =>
    cases stop with
    | zero =>
      intro i j _ hij
      by_cases hj : 1 ≤ j.val
      · exact h i j hj hij
      · obtain rfl : i = j := by
          refine Fin.ext ?_
          have hle := Fin.le_def.mp hij
          omega
        exact le_refl _
    | succ stop =>
      rw [extract]
      generalize hfirst : (⟨0, by omega⟩ : Fin n) = first
      generalize hlast : (⟨stop + 1, by omega⟩ : Fin n) = last
      have hfirstVal : first.val = 0 := by rw [← hfirst]
      have hlastVal : last.val = stop + 1 := by rw [← hlast]
      have hne : ∀ i : Fin n, i ≠ first → i ≠ last → (xs ∘ Equiv.swap first last) i = xs i :=
        fun i h₁ h₂ => congrArg xs (Equiv.swap_apply_of_ne_of_ne h₁ h₂)
      have hatLast : (xs ∘ Equiv.swap first last) last = xs first :=
        congrArg xs (Equiv.swap_apply_right _ _)
      have hbound : ∀ i : Fin n, i.val < stop + 2 → key (xs i) ≤ key (xs first) := by
        intro i hi
        rw [← hfirst]
        exact hheap.le_first _ i hi
      have hmoved : Within (stop + 2) xs (xs ∘ Equiv.swap first last) :=
        Within.swap xs (by omega) (by omega)
      have hsettled : Settled key (stop + 1) (xs ∘ Equiv.swap first last) := by
        intro i j hj hij
        have hle := Fin.le_def.mp hij
        by_cases hjl : j = last
        · obtain ⟨k, hk, hkin, _⟩ := hmoved.source i
          rw [hjl, hatLast, hk]
          rw [hjl] at hle
          exact hbound k (hkin (by omega))
        · have hjge : stop + 2 ≤ j.val := by
            have hjv : j.val ≠ last.val := fun heq => hjl (Fin.ext heq)
            omega
          exact (h.within hmoved) i j hjge hij
      have hoff : HeapOff key 0 (stop + 1) 0 (xs ∘ Equiv.swap first last) := by
        refine ⟨?_, ?_⟩
        · intro i c _ hi hic hc
          unfold Child at hic
          have hi' : i ≠ first ∧ i ≠ last := ⟨by rintro rfl; omega, by rintro rfl; omega⟩
          have hc' : c ≠ first ∧ c ≠ last := ⟨by rintro rfl; omega, by rintro rfl; omega⟩
          rw [hne i hi'.1 hi'.2, hne c hc'.1 hc'.2]
          exact hheap i c (Nat.zero_le _) hic (by omega)
        · intro i r c _ hr hir _ _
          unfold Child at hir
          omega
      refine ih _ (heap_siftDown hless _ (Nat.le_refl 0) hoff) ?_
      exact hsettled.within (within_siftDown less _ 0 _)

/-- The sorted array. -/
theorem sort_le (xs : Fin n → α) {i j : Fin n} (hij : i ≤ j) :
    key (sort less xs i) ≤ key (sort less xs j) := by
  have hleaves : Heap key (n / 2) n xs := by
    intro i c hi hic _
    unfold Child at hic
    omega
  have hnone : Settled key n (heapify less (n / 2) xs) := by
    intro i j hj _
    omega
  exact settled_extract hless (Nat.le_refl n) (heap_heapify hless hleaves) hnone i j
    (Nat.zero_le _) hij

theorem sortList_pairwise (l : List α) :
    (sortList less l).Pairwise fun x y => key x ≤ key y := by
  rw [sortList, List.pairwise_ofFn]
  intro i j hij
  exact sort_le hless _ hij.le

end

theorem sortList_perm (less : α → α → Bool) (l : List α) : (sortList less l).Perm l := by
  obtain ⟨σ, hσ, _⟩ := (within_heapify less (l.length / 2) l.get).trans
    (within_extract less (Nat.le_refl l.length) _)
  have hperm : (List.ofFn (l.get ∘ σ)).Perm (List.ofFn l.get) := Equiv.Perm.ofFn_comp_perm σ l.get
  rw [List.ofFn_get] at hperm
  rw [sortList, sort, hσ]
  exact hperm

end HeapSort
