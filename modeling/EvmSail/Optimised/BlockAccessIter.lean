/-
# `EvmSail.Optimised.BlockAccessIter` — the iteration of block accesses

The comparisons of the host are those of the numbers, so a sorted order
ascends by them (`sortIndexOrder_pairwise`).

From the start of an account on, the phases return its entries in turn
(`emits_account`): the storage cursor passes its slots once for the
changes, is set back to the first of them, and passes them again for the
reads; then each field's chain is followed.  The cursor is then at the
slots of the next account, and by induction over the accounts that are left
the whole iteration returns the sections of all of them.
-/
import EvmSail.Optimised.BlockAccessRecords

namespace EvmSail.Optimised

/-! ## Comparisons -/

/-- Two numbers of a leading digit and a rest compare by the digit first. -/
theorem compare_digits {b d e x y : Nat} (hx : x < b) (hy : y < b) :
    compare (d * b + x) (e * b + y) =
      if d < e then .lt else if e < d then .gt else compare x y := by
  split
  · rename_i hlt
    have hmul : (d + 1) * b ≤ e * b := Nat.mul_le_mul_right b hlt
    rw [Nat.succ_mul] at hmul
    exact Nat.compare_eq_lt.mpr (by omega)
  · split
    · rename_i hgt
      have hmul : (e + 1) * b ≤ d * b := Nat.mul_le_mul_right b hgt
      rw [Nat.succ_mul] at hmul
      exact Nat.compare_eq_gt.mpr (by omega)
    · obtain rfl : d = e := by omega
      rcases Nat.lt_trichotomy x y with hlt | rfl | hgt
      · rw [Nat.compare_eq_lt.mpr hlt, Nat.compare_eq_lt.mpr (by omega)]
      · rw [Nat.compare_eq_eq.mpr rfl, Nat.compare_eq_eq.mpr rfl]
      · rw [Nat.compare_eq_gt.mpr hgt, Nat.compare_eq_gt.mpr (by omega)]

theorem memcmp_eq {xs ys : List Byte} (h : xs.length = ys.length) :
    memcmp xs ys = compare (natOfBytes xs) (natOfBytes ys) := by
  induction xs generalizing ys with
  | nil =>
    rw [List.eq_nil_of_length_eq_zero h.symm]
    rfl
  | cons x xs ih =>
    cases ys with
    | nil => cases h
    | cons y ys =>
      have hlen : xs.length = ys.length := Nat.succ.inj h
      have hx := natOfBytes_append [x] xs
      have hy := natOfBytes_append [y] ys
      have hxs := natOfBytes_lt xs
      have hdigit : ∀ b : Byte, natOfBytes [b] = b.toNat := fun b => Nat.zero_add _
      rw [hlen] at hx hxs
      rw [List.singleton_append, hdigit] at hx hy
      rw [hx, hy, compare_digits hxs (natOfBytes_lt ys), memcmp, ih hlen]
      simp only [BitVec.lt_def]

theorem addressCompare_eq (left right : Address) :
    addressCompare left right = compare left.toNat right.toNat := by
  have hbytes : ∀ a : Address, natOfBytes (addressBytes a) = a.toNat := by
    intro a
    rw [addressBytes, natOfBytes_bytesOfNat]
    exact Nat.mod_eq_of_lt (a.isLt.trans_le (by norm_num))
  rw [addressCompare, memcmp_eq (by simp), hbytes, hbytes]

theorem compareLimbs_eq (left right : Word) (limbs : Nat) :
    compareLimbs left right limbs =
      compare (left.toNat % (2 ^ 64) ^ limbs) (right.toNat % (2 ^ 64) ^ limbs) := by
  induction limbs with
  | zero => simp [compareLimbs, Nat.mod_one]
  | succ limb ih =>
    have hpos : 0 < (2 ^ 64) ^ limb := by positivity
    have hsplit : ∀ w : Word, w.toNat % (2 ^ 64) ^ (limb + 1) =
        wordLimb w limb * (2 ^ 64) ^ limb + w.toNat % (2 ^ 64) ^ limb := by
      intro w
      rw [Nat.pow_succ, Nat.mod_mul, wordLimb]
      ring
    rw [hsplit, hsplit, compare_digits (Nat.mod_lt _ hpos) (Nat.mod_lt _ hpos), compareLimbs, ih]

theorem wordCompare_eq (left right : Word) :
    wordCompare left right = compare left.toNat right.toNat := by
  have hword : ∀ w : Word, w.toNat % (2 ^ 64) ^ 4 = w.toNat :=
    fun w => Nat.mod_eq_of_lt (w.isLt.trans_le (by norm_num))
  rw [wordCompare, compareLimbs_eq, hword, hword]

/-- The sort key is the high part of the address. -/
theorem addressSortKey_eq (a : Address) : addressSortKey a = a.toNat / 256 ^ 12 := by
  have hbytes : natOfBytes (addressBytes a) = a.toNat := by
    rw [addressBytes, natOfBytes_bytesOfNat]
    exact Nat.mod_eq_of_lt (a.isLt.trans_le (by norm_num))
  have hsplit := natOfBytes_append ((addressBytes a).take 8) ((addressBytes a).drop 8)
  have hrest : ((addressBytes a).drop 8).length = 12 := by simp
  have hlt := natOfBytes_lt ((addressBytes a).drop 8)
  rw [hrest] at hlt hsplit
  rw [List.take_append_drop, hbytes] at hsplit
  rw [addressSortKey, hsplit]
  rw [Nat.mul_comm, Nat.mul_add_div (by positivity), Nat.div_eq_of_lt hlt, Nat.add_zero]

/-! ## Sorted orders -/

section

variable {α β : Type} [LinearOrder β]

theorem sortIndexOrder_perm (compare : α → α → Ordering) (sortKey : α → Nat) (order : List α) :
    (sortIndexOrder compare sortKey order).Perm order := by
  have hperm := (HeapSort.sortList_perm (balOrderLess compare)
    (order.map fun id => (sortKey id, id))).map Prod.snd
  have hids : (order.map fun id => (sortKey id, id)).map Prod.snd = order := by
    rw [List.map_map]
    exact List.map_id _
  rw [hids] at hperm
  exact hperm

/-- Ids are sorted by their rank, if the comparison is that of the ranks and
the key does not fall where the rank rises. -/
theorem sortIndexOrder_pairwise {compare : α → α → Ordering} {sortKey : α → Nat} (rank : α → β)
    (hcompare : ∀ a b, compare a b = .lt ↔ rank a < rank b)
    (hkey : ∀ a b, rank a ≤ rank b → sortKey a ≤ sortKey b) (order : List α) :
    (sortIndexOrder compare sortKey order).Pairwise fun a b => rank a ≤ rank b := by
  have hless : ∀ x y : Nat × α, balOrderLess compare x y =
      decide (toLex (x.1, rank x.2) < toLex (y.1, rank y.2)) := by
    rintro ⟨k, a⟩ ⟨l, b⟩
    rw [Bool.eq_iff_iff, decide_eq_true_iff, Prod.Lex.toLex_lt_toLex, balOrderLess]
    by_cases heq : k = l
    · simp [heq, hcompare]
    · simp [heq]
  have hsorted := HeapSort.sortList_pairwise hless (order.map fun id => (sortKey id, id))
  have hperm := HeapSort.sortList_perm (balOrderLess compare)
    (order.map fun id => (sortKey id, id))
  rw [sortIndexOrder, List.pairwise_map]
  refine hsorted.imp_of_mem fun {x y} hx hy hle => ?_
  obtain ⟨a, _, rfl⟩ := List.mem_map.mp (hperm.mem_iff.mp hx)
  obtain ⟨b, _, rfl⟩ := List.mem_map.mp (hperm.mem_iff.mp hy)
  rcases Prod.Lex.toLex_le_toLex.mp hle with hlt | ⟨_, hrank⟩
  · by_contra hnot
    exact absurd (hkey b a (le_of_not_ge hnot)) (not_le.mpr hlt)
  · exact hrank

end

/-! ## Rounds -/

section

variable {A S : Type} [DecidableEq A] {schema : BalSchema A S} {t : BalTable A S}
  {c c' : BalCursors A} {out : List (BalIterEntry A S)}

theorem balIterNextProbe_returns {entry : BalIterEntry A S}
    (h : balIterRound schema t c = some (.returns entry c')) :
    balIterNextProbe schema t c = some (entry, c') := by
  rw [balIterNextProbe]
  split
  · rename_i hnone
    rw [h] at hnone
    cases hnone
  · rename_i hreturns
    rw [h] at hreturns
    cases hreturns
    rfl
  · rename_i hcontinues
    rw [h] at hcontinues
    cases hcontinues

theorem balIterNextProbe_continues (h : balIterRound schema t c = some (.continues c')) :
    balIterNextProbe schema t c = balIterNextProbe schema t c' := by
  rw [balIterNextProbe]
  split
  · rename_i hnone
    rw [h] at hnone
    cases hnone
  · rename_i hreturns
    rw [h] at hreturns
    cases hreturns
  · rename_i hcontinues
    rw [h] at hcontinues
    cases hcontinues
    rfl

theorem balIterNextProbe_none (h : balIterRound schema t c = none) :
    balIterNextProbe schema t c = none := by
  rw [balIterNextProbe]
  split
  · rfl
  · rename_i hreturns
    rw [h] at hreturns
    cases hreturns
  · rename_i hcontinues
    rw [h] at hcontinues
    cases hcontinues

theorem BalEmits.of_probe (h : balIterNextProbe schema t c = balIterNextProbe schema t c')
    (hout : BalEmits schema t c' out) : BalEmits schema t c out := by
  cases hout with
  | done hdone => exact .done (h.trans hdone)
  | next hnext hne hrest => exact .next (h.trans hnext) hne hrest

/-- A round that goes on returns nothing. -/
theorem BalEmits.continues (h : balIterRound schema t c = some (.continues c'))
    (hout : BalEmits schema t c' out) : BalEmits schema t c out :=
  hout.of_probe (balIterNextProbe_continues h)

/-- States with the same round return the same. -/
theorem BalEmits.of_round (h : balIterRound schema t c = balIterRound schema t c')
    (hout : BalEmits schema t c' out) : BalEmits schema t c out := by
  refine hout.of_probe ?_
  cases hround : balIterRound schema t c' with
  | none => rw [balIterNextProbe_none hround, balIterNextProbe_none (h.trans hround)]
  | some round =>
    cases round with
    | continues c'' =>
      rw [balIterNextProbe_continues hround, balIterNextProbe_continues (h.trans hround)]
    | returns entry c'' =>
      rw [balIterNextProbe_returns hround, balIterNextProbe_returns (h.trans hround)]

theorem BalEmits.returns {entry : BalIterEntry A S}
    (h : balIterRound schema t c = some (.returns entry c')) (hne : entry ≠ .empty)
    (hout : BalEmits schema t c' out) : BalEmits schema t c (entry :: out) :=
  .next (balIterNextProbe_returns h) hne hout

/-! ## Chains -/

/-- The changes of a slot. -/
theorem emits_changes {ps : List Nat} {es : List (Nat × Word)} {a : A} {s : S}
    (hlinked : Linked t.storageHistory ps es) (hne : ps ≠ []) (hphase : c.phase = .storageChange)
    (hactive : c.activeAccount = some a) (hhead : c.activeStorageHistory = ps.head?)
    (hslot : t.storageOrder[c.storageCursor]? = some s)
    (hout : BalEmits schema t
      { c with storageCursor := c.storageCursor + 1, activeStorageHistory := none } out) :
    BalEmits schema t c ((es.map fun e => .storageChange a s e.1 e.2) ++ out) := by
  induction hlinked generalizing c with
  | nil => exact absurd rfl hne
  | @cons p ps e es hrow hrest ih =>
    rw [List.head?_cons] at hhead
    have hround : balIterRound schema t c = some (.returns (.storageChange a s e.1 e.2)
        { c with
          activeStorageHistory := ps.head?
          storageCursor := if ps.head? = none then c.storageCursor + 1 else c.storageCursor }) := by
      rw [balIterRound, hphase]
      dsimp only
      rw [hhead]
      simp [hrow, hslot, hactive]
    refine BalEmits.returns hround (by intro h; cases h) ?_
    cases hrest with
    | nil =>
      rw [List.head?_nil, if_pos rfl]
      exact hout
    | @cons q qs f fs hrow' hrest' =>
      rw [List.head?_cons, if_neg (Option.some_ne_none q)]
      exact ih (List.cons_ne_nil q qs) hphase hactive rfl hslot hout

/-- The changes of a field. -/
theorem emits_field {α : Type} {rows : List (BalHistoryRow α)}
    {entry : A → Nat → α → BalIterEntry A S} {nextHead : A → Option Nat}
    {phase nextPhase : BalStreamPhase} {ps : List Nat} {es : List (Nat × α)} {a : A}
    (hround : ∀ c : BalCursors A, c.phase = phase →
      balIterRound schema t c = balFieldPhase rows entry nextHead nextPhase c)
    (hentry : ∀ a index value, entry a index value ≠ .empty)
    (hlinked : Linked rows ps es) (hphase : c.phase = phase) (hactive : c.activeAccount = some a)
    (hhead : c.activeFieldHistory = ps.head?)
    (hout : BalEmits schema t { c with activeFieldHistory := nextHead a, phase := nextPhase } out) :
    BalEmits schema t c ((es.map fun e => entry a e.1 e.2) ++ out) := by
  induction hlinked generalizing c with
  | nil =>
    refine hout.continues ?_
    rw [hround c hphase, balFieldPhase, hactive, hhead]
    rfl
  | @cons p ps e es hrow hrest ih =>
    rw [List.head?_cons] at hhead
    have hreturns : balIterRound schema t c =
        some (.returns (entry a e.1 e.2) { c with activeFieldHistory := ps.head? }) := by
      rw [hround c hphase, balFieldPhase, hactive, hhead]
      simp [hrow]
    exact BalEmits.returns hreturns (hentry a e.1 e.2) (ih hphase hactive rfl hout)

/-! ## The slots of an account -/

section

variable {a : A}

theorem belongs_iff (t : BalTable A S) (a : A) (s : S) :
    balStorageBelongsToActive t (some a) s = true ↔ (t.storage s).accountId = a := by
  rw [balStorageBelongsToActive, beq_iff_eq, Option.some_inj, eq_comm]

/-- The cursor goes back to the first slot of the account. -/
theorem rewind_eq {pre slots rest : List S} (horder : t.storageOrder = pre ++ slots ++ rest)
    (hslots : ∀ s ∈ slots, (t.storage s).accountId = a)
    (hpre : ∀ s ∈ pre.getLast?, (t.storage s).accountId ≠ a) :
    rewind t (some a) (pre.length + slots.length) = pre.length := by
  induction slots using List.reverseRecOn generalizing rest with
  | nil =>
    rcases List.eq_nil_or_concat pre with rfl | ⟨init, last, rfl⟩
    · rfl
    · have hlast : (t.storage last).accountId ≠ a := hpre last (by simp)
      have hnot : balStorageBelongsToActive t (some a) last = false :=
        Bool.eq_false_iff.mpr fun h => hlast ((belongs_iff t a last).mp h)
      have hat : t.storageOrder[init.length]? = some last := by simp [horder]
      rw [List.length_nil, Nat.add_zero, List.length_concat, rewind, hat, Option.any_some, hnot]
      rfl
  | append_singleton slots s ih =>
    have hbelongs := (belongs_iff t a s).mpr (hslots s (by simp))
    have hat : t.storageOrder[pre.length + slots.length]? = some s := by simp [horder]
    rw [List.length_append, List.length_singleton, ← Nat.add_assoc, rewind, hat, Option.any_some,
      if_pos hbelongs]
    have hshift : t.storageOrder = pre ++ slots ++ (s :: rest) := by simp [horder]
    exact ih hshift fun s' hs' => hslots s' (by simp [hs'])

theorem round_storageChange (c : BalCursors A) {cursor : Nat} {head : Option Nat}
    (hphase : c.phase = .storageChange) (hactive : c.activeAccount = some a)
    (hnone : c.activeStorageHistory = none)
    (hseek : seekChange t (some a) c.storageCursor (t.storageOrder.drop c.storageCursor) =
      (cursor, head)) :
    balIterRound schema t c =
      if head ≠ none then
        some (.continues { c with storageCursor := cursor, activeStorageHistory := head })
      else
        some (.continues
          { c with storageCursor := rewind t (some a) cursor, phase := .storageRead }) := by
  rw [balIterRound, hphase]
  dsimp only
  rw [hnone, hactive]
  dsimp only
  rw [hseek]

/-- The first pass over the slots returns the changes. -/
theorem emits_slots {changes : S → List (Nat × Word)} {pos : S → List Nat}
    {pre post rest : List S} (horder : t.storageOrder = pre ++ post ++ rest)
    (hslots : ∀ s ∈ post, (t.storage s).accountId = a)
    (hrest : ∀ s ∈ rest.head?, (t.storage s).accountId ≠ a)
    (hlinked : ∀ s ∈ post, Linked t.storageHistory (pos s) (changes s))
    (hhead : ∀ s ∈ post, (t.storage s).change.head = (pos s).head?)
    (hphase : c.phase = .storageChange) (hactive : c.activeAccount = some a)
    (hnone : c.activeStorageHistory = none) (hcursor : c.storageCursor = pre.length)
    (hout : BalEmits schema t
      { c with
        storageCursor := rewind t (some a) (pre.length + post.length)
        phase := .storageRead } out) :
    BalEmits schema t c
      ((post.flatMap fun s => (changes s).map fun e => .storageChange a s e.1 e.2) ++ out) := by
  induction post generalizing pre c with
  | nil =>
    have hseek : seekChange t (some a) c.storageCursor (t.storageOrder.drop c.storageCursor) =
        (pre.length, none) := by
      rw [hcursor, horder, List.append_nil, List.drop_left]
      cases rest with
      | nil => rfl
      | cons s rest => rw [seekChange, if_pos (mt (belongs_iff t a s).mp (hrest s rfl))]
    exact BalEmits.continues (round_storageChange c hphase hactive hnone hseek) hout
  | cons s post ih =>
    have hbelongs := (belongs_iff t a s).mpr (hslots s List.mem_cons_self)
    have hdrop : t.storageOrder.drop c.storageCursor = s :: (post ++ rest) := by
      simp [horder, hcursor]
    have hdropNext : t.storageOrder.drop (c.storageCursor + 1) = post ++ rest := by
      rw [← List.drop_drop, hdrop]
      rfl
    have hlength : pre.length + (s :: post).length = (pre ++ [s]).length + post.length := by
      simp only [List.length_append, List.length_cons, List.length_nil]
      omega
    have hshift : t.storageOrder = (pre ++ [s]) ++ post ++ rest := by simp [horder]
    have hcursorNext : c.storageCursor + 1 = (pre ++ [s]).length := by simp [hcursor]
    rw [hlength] at hout
    have hnext := fun (c' : BalCursors A) => @ih c' (pre ++ [s]) hshift
      (fun s' hs' => hslots s' (List.mem_cons_of_mem s hs'))
      (fun s' hs' => hlinked s' (List.mem_cons_of_mem s hs'))
      (fun s' hs' => hhead s' (List.mem_cons_of_mem s hs'))
    have hlinkedS := hlinked s List.mem_cons_self
    have hheadS := hhead s List.mem_cons_self
    rw [List.flatMap_cons, List.append_assoc]
    cases hpos : pos s with
    | nil =>
      -- no changes: the round is that from the next slot on
      rw [hpos] at hlinkedS hheadS
      have hempty : ¬ (t.storage s).change.head ≠ none := not_not.mpr hheadS
      rw [hlinkedS.eq_nil rfl, List.map_nil, List.nil_append]
      have hsame : balIterRound schema t c =
          balIterRound schema t { c with storageCursor := c.storageCursor + 1 } := by
        rcases hfound : seekChange t (some a) (c.storageCursor + 1) (post ++ rest) with
          ⟨cursor, head⟩
        have hseek : seekChange t (some a) c.storageCursor (t.storageOrder.drop c.storageCursor) =
            (cursor, head) := by
          rw [hdrop, seekChange, if_neg (not_not.mpr hbelongs), if_neg hempty, hfound]
        rw [round_storageChange c hphase hactive hnone hseek]
        refine (round_storageChange { c with storageCursor := c.storageCursor + 1 } hphase hactive
          hnone ?_).symm
        rw [hdropNext, hfound]
      exact BalEmits.of_round hsame (hnext _ hphase hactive hnone hcursorNext hout)
    | cons p ps =>
      rw [hpos] at hlinkedS hheadS
      have hne : (t.storage s).change.head ≠ none := by simp [hheadS]
      have hseek : seekChange t (some a) c.storageCursor (t.storageOrder.drop c.storageCursor) =
          (c.storageCursor, some p) := by
        rw [hdrop, seekChange, if_neg (not_not.mpr hbelongs), if_pos hne, hheadS]
        rfl
      refine BalEmits.continues (round_storageChange c hphase hactive hnone hseek) ?_
      refine emits_changes hlinkedS (List.cons_ne_nil p ps) hphase hactive rfl ?_ ?_
      · simp [horder, hcursor]
      · exact hnext _ hphase hactive rfl hcursorNext (by simpa [hnone] using hout)

theorem round_storageRead (c : BalCursors A) {cursor : Nat} {found : Option S}
    (hphase : c.phase = .storageRead) (hactive : c.activeAccount = some a)
    (hseek : seekRead t (some a) c.storageCursor (t.storageOrder.drop c.storageCursor) =
      (cursor, found)) :
    balIterRound schema t c =
      found.elim
        (some (.continues
          { c with
            storageCursor := cursor
            activeFieldHistory := (t.accounts a).balance.head
            phase := .balance }))
        fun s => some (.returns (.storageRead a s) { c with storageCursor := cursor }) := by
  obtain ⟨accountCursor, storageCursor, activeAccount, storageHistory, fieldHistory, phase⟩ := c
  obtain rfl : phase = .storageRead := hphase
  obtain rfl : activeAccount = some a := hactive
  rw [balIterRound]
  dsimp only [Option.bind_eq_bind, Option.bind_some] at hseek ⊢
  rw [hseek]
  cases found with
  | none => rfl
  | some s => rfl

/-- A slot that the second pass returns. -/
def readOnly (t : BalTable A S) (s : S) : Bool :=
  (t.storage s).read && (t.storage s).change.head.isNone

/-- The second pass returns the slots that are read and have no changes. -/
theorem emits_reads {pre post rest : List S} (horder : t.storageOrder = pre ++ post ++ rest)
    (hslots : ∀ s ∈ post, (t.storage s).accountId = a)
    (hrest : ∀ s ∈ rest.head?, (t.storage s).accountId ≠ a)
    (hphase : c.phase = .storageRead) (hactive : c.activeAccount = some a)
    (hcursor : c.storageCursor = pre.length)
    (hout : BalEmits schema t
      { c with
        storageCursor := pre.length + post.length
        activeFieldHistory := (t.accounts a).balance.head
        phase := .balance } out) :
    BalEmits schema t c (((post.filter (readOnly t)).map fun s => .storageRead a s) ++ out) := by
  induction post generalizing pre c with
  | nil =>
    have hseek : seekRead t (some a) c.storageCursor (t.storageOrder.drop c.storageCursor) =
        (pre.length, none) := by
      rw [hcursor, horder, List.append_nil, List.drop_left]
      cases rest with
      | nil => rfl
      | cons s rest => rw [seekRead, if_pos (mt (belongs_iff t a s).mp (hrest s rfl))]
    exact BalEmits.continues (round_storageRead c hphase hactive hseek) hout
  | cons s post ih =>
    have hbelongs := (belongs_iff t a s).mpr (hslots s List.mem_cons_self)
    have hdrop : t.storageOrder.drop c.storageCursor = s :: (post ++ rest) := by
      simp [horder, hcursor]
    have hdropNext : t.storageOrder.drop (c.storageCursor + 1) = post ++ rest := by
      rw [← List.drop_drop, hdrop]
      rfl
    have hlength : pre.length + (s :: post).length = (pre ++ [s]).length + post.length := by
      simp only [List.length_append, List.length_cons, List.length_nil]
      omega
    have hshift : t.storageOrder = (pre ++ [s]) ++ post ++ rest := by simp [horder]
    have hcursorNext : c.storageCursor + 1 = (pre ++ [s]).length := by simp [hcursor]
    rw [hlength] at hout
    have hnext : BalEmits schema t { c with storageCursor := c.storageCursor + 1 } _ :=
      ih hshift (fun s' hs' => hslots s' (List.mem_cons_of_mem s hs')) hphase hactive hcursorNext
        hout
    cases hread : readOnly t s with
    | false =>
      -- the round is that from the next slot on
      have hskip : (t.storage s).read = false ∨ (t.storage s).change.head ≠ none := by
        rw [readOnly, Bool.and_eq_false_iff] at hread
        exact hread.imp id fun h hnone => by
          rw [hnone] at h
          cases h
      rw [List.filter_cons_of_neg (by simp [hread])]
      have hsame : balIterRound schema t c =
          balIterRound schema t { c with storageCursor := c.storageCursor + 1 } := by
        rcases hfound : seekRead t (some a) (c.storageCursor + 1) (post ++ rest) with
          ⟨cursor, found⟩
        have hseek : seekRead t (some a) c.storageCursor (t.storageOrder.drop c.storageCursor) =
            (cursor, found) := by
          rw [hdrop, seekRead, if_neg (not_not.mpr hbelongs), if_pos hskip, hfound]
        rw [round_storageRead c hphase hactive hseek]
        refine (round_storageRead { c with storageCursor := c.storageCursor + 1 } hphase hactive
          ?_).symm
        rw [hdropNext, hfound]
      exact BalEmits.of_round hsame hnext
    | true =>
      have hstay : ¬ ((t.storage s).read = false ∨ (t.storage s).change.head ≠ none) := by
        rw [readOnly, Bool.and_eq_true] at hread
        rw [not_or, hread.1]
        exact ⟨nofun, not_not.mpr (Option.isNone_iff_eq_none.mp hread.2)⟩
      have hseek : seekRead t (some a) c.storageCursor (t.storageOrder.drop c.storageCursor) =
          (c.storageCursor + 1, some s) := by
        rw [hdrop, seekRead, if_neg (not_not.mpr hbelongs), if_neg hstay]
      rw [List.filter_cons_of_pos hread, List.map_cons, List.cons_append]
      exact BalEmits.returns (round_storageRead c hphase hactive hseek) nofun hnext

end

/-! ## Accounts -/

/-- The entries of an account: its changed slots, its read slots, and the
changes of its fields. -/
def accountEntries (content : BalContent A S) (slots reads : List S) (a : A) :
    List (BalIterEntry A S) :=
  [.account a] ++
    ((slots.flatMap fun s => (content.storage s).map fun e => .storageChange a s e.1 e.2) ++
      ((reads.map fun s => .storageRead a s) ++
        (((content.balance a).map fun e => .balanceChange a e.1 e.2) ++
          (((content.nonce a).map fun e => .nonceChange a e.1 e.2) ++
            (((content.code a).map fun e => .codeChange a e.1 e.2) ++ [.accountEnd a])))))

/-- From the start of an account on its entries are returned. -/
theorem emits_account {content : BalContent A S} (h : Records schema t content) {a : A}
    {pre slots rest : List S} (horder : t.storageOrder = pre ++ slots ++ rest)
    (hslots : ∀ s ∈ slots, (t.storage s).accountId = a)
    (hpre : ∀ s ∈ pre.getLast?, (t.storage s).accountId ≠ a)
    (hrest : ∀ s ∈ rest.head?, (t.storage s).accountId ≠ a)
    (hskip : ∀ s ∈ (slots ++ rest).head?,
      addressCompare (schema.address (t.storage s).accountId) (schema.address a) ≠ .lt)
    (hphase : c.phase = .account) (hat : t.accountOrder[c.accountCursor]? = some a)
    (hcursor : c.storageCursor = pre.length)
    (hout : BalEmits schema t
      ⟨c.accountCursor + 1, pre.length + slots.length, none, none, none, .account⟩ out) :
    BalEmits schema t c (accountEntries content slots (slots.filter (readOnly t)) a ++ out) := by
  have haccount : (t.accounts a).blockEpoch = t.blockEpoch :=
    (h.accounts.eq_iff a).mpr ((h.accounts.mem_iff a).mp (List.mem_of_getElem? hat))
  obtain ⟨spos, hsChains⟩ := h.storageChains
  obtain ⟨bpos, hbChains⟩ := h.balanceChains
  obtain ⟨npos, hnChains⟩ := h.nonceChains
  obtain ⟨cpos, hcChains⟩ := h.codeChains
  have hheads : ∀ {field : BalAccountState → BalChain} {ps : List Nat},
      t.accountChain field a = ⟨ps.head?, ps.getLast?⟩ →
        (field (t.accounts a)).head = ps.head? := by
    intro field ps hchain
    rw [BalTable.accountChain, if_pos haccount] at hchain
    rw [hchain]
  have hslotHeads : ∀ s ∈ slots, (t.storage s).change.head = (spos s).head? := by
    intro s hs
    have hmem : s ∈ t.storageOrder := by simp [horder, hs]
    have hepoch := (h.slots.eq_iff s).mpr ((h.slots.mem_iff s).mp hmem)
    have hchain := hsChains.chain_eq s
    rw [BalTable.storageChain, if_pos hepoch] at hchain
    rw [hchain]
  have hseek : skipSmaller schema t a c.storageCursor (t.storageOrder.drop c.storageCursor) =
      pre.length := by
    rw [hcursor, horder, List.append_assoc, List.drop_left]
    cases hnext : slots ++ rest with
    | nil => rfl
    | cons s next =>
      rw [hnext] at hskip
      rw [skipSmaller, if_pos (hskip s rfl)]
  have hbalance : ∀ c : BalCursors A, c.phase = .balance → balIterRound schema t c =
      balFieldPhase t.balanceHistory .balanceChange (fun a => (t.accounts a).nonce.head)
        .nonce c := by
    intro c hc
    rw [balIterRound, hc]
  have hnonce : ∀ c : BalCursors A, c.phase = .nonce → balIterRound schema t c =
      balFieldPhase t.nonceHistories .nonceChange (fun a => (t.accounts a).code.head) .code c := by
    intro c hc
    rw [balIterRound, hc]
  have hcode : ∀ c : BalCursors A, c.phase = .code → balIterRound schema t c =
      balFieldPhase t.codeHistories .codeChange (fun _ => none) .accountEnd c := by
    intro c hc
    rw [balIterRound, hc]
  have hround : balIterRound schema t c = some (.returns (.account a)
      ⟨c.accountCursor + 1, pre.length, some a, none, none, .storageChange⟩) := by
    rw [balIterRound, hphase]
    dsimp only
    rw [hat]
    dsimp only
    rw [hseek]
  rw [accountEntries, List.append_assoc, List.singleton_append]
  refine BalEmits.returns hround (by intro h; cases h) ?_
  rw [List.append_assoc]
  refine emits_slots horder hslots hrest (fun s _ => hsChains.linked s) hslotHeads rfl rfl rfl rfl
    ?_
  rw [rewind_eq horder hslots hpre, List.append_assoc]
  refine emits_reads horder hslots hrest rfl rfl rfl ?_
  rw [List.append_assoc]
  refine emits_field hbalance (by intro _ _ _ h; cases h) (hbChains.linked a) rfl rfl
    (hheads (hbChains.chain_eq a)) ?_
  rw [List.append_assoc]
  refine emits_field hnonce (by intro _ _ _ h; cases h) (hnChains.linked a) rfl rfl
    (hheads (hnChains.chain_eq a)) ?_
  rw [List.append_assoc]
  refine emits_field hcode (by intro _ _ _ h; cases h) (hcChains.linked a) rfl rfl
    (hheads (hcChains.chain_eq a)) ?_
  refine BalEmits.returns ?_ (by intro h; cases h) hout
  rfl

/-- From an account on the entries of all accounts that are left are
returned. -/
theorem emits_accounts {content : BalContent A S} (h : Records schema t content)
    {done accounts : List A} {slotsOf : A → List S} {pre : List S}
    (haccounts : t.accountOrder = done ++ accounts)
    (hascend : (done ++ accounts).Pairwise fun a b => (schema.address a) < (schema.address b))
    (horder : t.storageOrder = pre ++ accounts.flatMap slotsOf)
    (hslots : ∀ a, ∀ s ∈ slotsOf a, (t.storage s).accountId = a)
    (hpre : ∀ s ∈ pre, (t.storage s).accountId ∈ done)
    (hphase : c.phase = .account) (hcursor : c.accountCursor = done.length)
    (hstorage : c.storageCursor = pre.length) :
    BalEmits schema t c
      (accounts.flatMap fun a =>
        accountEntries content (slotsOf a) ((slotsOf a).filter (readOnly t)) a) := by
  induction accounts generalizing done pre c with
  | nil =>
    have hround : balIterRound schema t c = some (.returns .empty { c with phase := .empty }) := by
      rw [balIterRound, hphase]
      dsimp only
      rw [haccounts, hcursor, List.append_nil, List.getElem?_eq_none (Nat.le_refl _)]
    exact .done (balIterNextProbe_returns hround)
  | cons a accounts ih =>
    have hirrefl : ∀ a b : A, schema.address a < schema.address b → a ≠ b := by
      rintro a b hlt rfl
      exact absurd hlt (BitVec.lt_irrefl _)
    have hlater : ∀ b ∈ accounts, schema.address a < schema.address b :=
      (List.pairwise_cons.mp (List.pairwise_append.mp hascend).2.1).1
    have hearlier : ∀ b ∈ done, schema.address b < schema.address a :=
      fun b hb => (List.pairwise_append.mp hascend).2.2 b hb a List.mem_cons_self
    have hrestOf : ∀ s ∈ accounts.flatMap slotsOf, (t.storage s).accountId ∈ accounts := by
      intro s hs
      obtain ⟨b, hb, hsb⟩ := List.mem_flatMap.mp hs
      rw [hslots b s hsb]
      exact hb
    have hhere : t.storageOrder = pre ++ slotsOf a ++ accounts.flatMap slotsOf := by
      rw [horder, List.flatMap_cons, List.append_assoc]
    rw [List.flatMap_cons]
    refine emits_account h hhere (hslots a) ?_ ?_ ?_ hphase ?_ hstorage ?_
    · intro s hs heq
      exact hirrefl _ _ (hearlier _ (hpre s (List.mem_of_getLast? hs))) heq
    · intro s hs heq
      exact hirrefl _ _ (hlater _ (hrestOf s (List.mem_of_head? hs))) heq.symm
    · intro s hs
      rw [addressCompare_eq, Ne, Nat.compare_eq_lt, Nat.not_lt]
      rcases List.mem_append.mp (List.mem_of_head? hs) with hmem | hmem
      · rw [hslots a s hmem]
      · exact (BitVec.lt_def.mp (hlater _ (hrestOf s hmem))).le
    · rw [haccounts, hcursor]
      simp
    · have haccounts' : t.accountOrder = (done ++ [a]) ++ accounts := by simp [haccounts]
      refine ih haccounts' (by simpa using hascend) hhere ?_ rfl (by simp [hcursor]) (by simp)
      intro s hs
      rcases List.mem_append.mp hs with hs | hs
      · exact List.mem_append_left _ (hpre s hs)
      · rw [hslots a s hs]
        exact List.mem_append_right _ List.mem_cons_self

end

end EvmSail.Optimised
