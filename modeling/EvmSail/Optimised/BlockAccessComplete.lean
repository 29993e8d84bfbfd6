/-
# `EvmSail.Optimised.BlockAccessComplete` — all recorded accesses are returned

The account order that is iterated ascends by address.  The storage order
ascends by the address of the owner and then by slot, so it is the slots of
the first account, the slots of the second, and so on
(`storageOrder_eq_flatMap`), which is how the iteration passes it.

The changes that a chain holds are the last of every transaction
(`mem_lastChanges`); their indices ascend, as the notes of a block are in the
order of its transactions.
-/
import EvmSail.Optimised.BlockAccessIter

namespace EvmSail.Optimised

/-! ## Changes -/

section

variable {α : Type} {l : List (Nat × α)}

/-- One more change comes last, after those of earlier transactions. -/
theorem recordChange_spec {change : Nat × α} (hascend : (l.map Prod.fst).Pairwise (· < ·))
    (hle : ∀ other ∈ l, other.1 ≤ change.1) :
    ∃ earlier : List (Nat × α), recordChange l change = earlier ++ [change] ∧
      (earlier.map Prod.fst).Pairwise (· < ·) ∧ (∀ other ∈ earlier, other.1 < change.1) ∧
      ∀ other, other.1 ≠ change.1 → (other ∈ earlier ↔ other ∈ l) := by
  rcases List.eq_nil_or_concat l with rfl | ⟨init, last, rfl⟩
  · exact ⟨[], by simp [recordChange], List.Pairwise.nil, by simp, by simp⟩
  · rw [List.concat_eq_append] at hascend hle ⊢
    rw [List.map_append, List.map_singleton, List.pairwise_append] at hascend
    have hinit : ∀ other ∈ init, other.1 < last.1 := fun other hother =>
      hascend.2.2 other.1 (List.mem_map_of_mem hother) last.1 (List.mem_singleton_self _)
    by_cases hsame : last.1 = change.1
    · refine ⟨init, ?_, hascend.1, fun other hother => ?_, fun other hne => ?_⟩
      · simp [recordChange, hsame]
      · rw [← hsame]
        exact hinit other hother
      · rw [List.mem_append, List.mem_singleton]
        exact ⟨Or.inl, fun hmem => hmem.resolve_right fun heq => hne (heq ▸ hsame)⟩
    · have hlast : last.1 < change.1 := lt_of_le_of_ne (hle last (by simp)) hsame
      refine ⟨init ++ [last], ?_, ?_, fun other hother => ?_, fun other _ => Iff.rfl⟩
      · simp [recordChange, hsame]
      · rw [List.map_append, List.map_singleton, List.pairwise_append]
        exact hascend
      · rcases List.mem_append.mp hother with hother | hother
        · exact (hinit other hother).trans hlast
        · rw [List.mem_singleton.mp hother]
          exact hlast

/-- Changes in the order of their transactions leave the last one of every
transaction, in ascending order. -/
theorem lastChanges_spec (h : (l.map Prod.fst).Pairwise (· ≤ ·)) :
    ((lastChanges l).map Prod.fst).Pairwise (· < ·) ∧
      ∀ change, change ∈ lastChanges l ↔
        (l.filter fun other => other.1 = change.1).getLast? = some change := by
  induction l using List.reverseRecOn with
  | nil => simp [lastChanges]
  | append_singleton l last ih =>
    rw [List.map_append, List.map_singleton, List.pairwise_append] at h
    obtain ⟨hascend, hmem⟩ := ih h.1
    have hle : ∀ other ∈ lastChanges l, other.1 ≤ last.1 := by
      intro other hother
      have hlast := List.mem_of_getLast? ((hmem other).mp hother)
      exact h.2.2 other.1 (List.mem_map_of_mem (List.mem_filter.mp hlast).1) last.1
        (List.mem_singleton_self _)
    obtain ⟨earlier, hrecord, hearlier, hlt, hothers⟩ := recordChange_spec hascend hle
    have hfold : lastChanges (l ++ [last]) = earlier ++ [last] := by
      rw [lastChanges, List.foldl_append, ← hrecord]
      rfl
    rw [hfold]
    refine ⟨?_, fun change => ?_⟩
    · rw [List.map_append, List.map_singleton, List.pairwise_append]
      refine ⟨hearlier, List.pairwise_singleton _ _, fun i hi j hj => ?_⟩
      obtain ⟨other, hother, rfl⟩ := List.mem_map.mp hi
      rw [List.mem_singleton.mp hj]
      exact hlt other hother
    · rw [List.filter_append, List.mem_append, List.mem_singleton]
      by_cases hsame : last.1 = change.1
      · have hnot : change ∉ earlier := fun hin => absurd (hlt change hin) (by omega)
        simp [hsame, hnot, eq_comm]
      · have hne : change ≠ last := fun heq => hsame (heq ▸ rfl)
        rw [or_iff_left hne, hothers change (Ne.symm hsame), hmem]
        simp [hsame]

end

/-! ## Orders -/

section

variable {A S : Type} {schema : BalSchema A S} {t : BalTable A S} {c : BalContent A S}

theorem Activated.perm {κ : Type} {epoch : κ → Nat} {blockEpoch : Nat} {order order' : List κ}
    {active : κ → Prop} (h : Activated epoch blockEpoch order active) (hperm : order'.Perm order) :
    Activated epoch blockEpoch order' active :=
  ⟨h.le, h.eq_iff, hperm.nodup_iff.mpr h.nodup, fun k => hperm.mem_iff.trans (h.mem_iff k)⟩

theorem Records.prepareIter (h : Records schema t c) :
    Records schema (balPrepareIter schema t).1 c where
  accounts := h.accounts.perm (sortIndexOrder_perm _ _ _)
  slots := h.slots.perm (sortIndexOrder_perm _ _ _)
  owner := h.owner
  owner_active := h.owner_active
  read := h.read
  read_slot := h.read_slot
  storageChains := h.storageChains
  balanceChains := h.balanceChains
  nonceChains := h.nonceChains
  codeChains := h.codeChains

theorem addressSortKey_mono {a b : Address} (h : a.toNat ≤ b.toNat) :
    addressSortKey a ≤ addressSortKey b := by
  rw [addressSortKey_eq, addressSortKey_eq]
  exact Nat.div_le_div_right h

theorem accountOrder_ascends (h : Records schema t c) :
    (balPrepareIter schema t).1.accountOrder.Pairwise fun a b =>
      schema.address a < schema.address b := by
  have hle : (balPrepareIter schema t).1.accountOrder.Pairwise fun a b =>
      (schema.address a).toNat ≤ (schema.address b).toNat := by
    refine sortIndexOrder_pairwise (fun a => (schema.address a).toNat) (fun a b => ?_)
      (fun a b => addressSortKey_mono) _
    rw [balAccountOrderCompare, addressCompare_eq, Nat.compare_eq_lt]
  refine (hle.and h.prepareIter.accounts.nodup).imp fun {a b} hab => ?_
  refine BitVec.lt_def.mpr (lt_of_le_of_ne hab.1 fun heq => hab.2 ?_)
  exact schema.address_injective (BitVec.eq_of_toNat_eq heq)

/-- Where a slot stands in the sorted order. -/
def slotRank (schema : BalSchema A S) (s : S) : Lex (Nat × Nat) :=
  toLex ((schema.address (schema.owner s)).toNat, (schema.slot s).toNat)

theorem slotRank_injective (schema : BalSchema A S) : Function.Injective (slotRank schema) := by
  intro s s' heq
  obtain ⟨howner, hslot⟩ := Prod.mk.inj (toLex.injective heq)
  exact schema.slot_injective s s' (schema.address_injective (BitVec.eq_of_toNat_eq howner))
    (BitVec.eq_of_toNat_eq hslot)

theorem storageOrder_ascends (h : Records schema t c) :
    (balPrepareIter schema t).1.storageOrder.Pairwise fun s s' =>
      slotRank schema s < slotRank schema s' := by
  -- the ranks of the rows, which are those of the slots where the rows are active
  have hle : (balPrepareIter schema t).1.storageOrder.Pairwise fun s s' =>
      toLex ((schema.address (t.storage s).accountId).toNat, (schema.slot s).toNat) ≤
        toLex ((schema.address (t.storage s').accountId).toNat, (schema.slot s').toNat) := by
    refine sortIndexOrder_pairwise (fun s => toLex
      ((schema.address (t.storage s).accountId).toNat, (schema.slot s).toNat)) (fun s s' => ?_)
      (fun s s' hrank => addressSortKey_mono ?_) _
    · rw [balStorageOrderCompare, addressCompare_eq, wordCompare_eq, Prod.Lex.toLex_lt_toLex]
      rcases Nat.lt_trichotomy (schema.address (t.storage s).accountId).toNat
        (schema.address (t.storage s').accountId).toNat with hlt | heq | hgt
      · rw [Nat.compare_eq_lt.mpr hlt]
        exact iff_of_true rfl (Or.inl hlt)
      · rw [Nat.compare_eq_eq.mpr heq]
        exact Nat.compare_eq_lt.trans (by simp [heq])
      · rw [Nat.compare_eq_gt.mpr hgt]
        exact iff_of_false nofun (by simp only [not_or, not_and]; omega)
    · rcases Prod.Lex.toLex_le_toLex.mp hrank with hlt | ⟨heq, _⟩
      · exact hlt.le
      · exact heq.le
  refine (hle.and h.prepareIter.slots.nodup).imp_of_mem fun {s s'} hs hs' hab => ?_
  have howner := h.owner s ((h.prepareIter.slots.mem_iff s).mp hs)
  have howner' := h.owner s' ((h.prepareIter.slots.mem_iff s').mp hs')
  rw [howner, howner'] at hab
  exact lt_of_le_of_ne hab.1 fun heq => hab.2 (slotRank_injective schema heq)

variable [DecidableEq A]

/-- The slots of an account in the sorted order. -/
def slotsOf (schema : BalSchema A S) (t : BalTable A S) (a : A) : List S :=
  (balPrepareIter schema t).1.storageOrder.filter fun s => schema.owner s = a

theorem mem_slotsOf (h : Records schema t c) {a : A} {s : S} :
    s ∈ slotsOf schema t a ↔ c.slots s ∧ schema.owner s = a := by
  rw [slotsOf, List.mem_filter, h.prepareIter.slots.mem_iff, decide_eq_true_iff]

theorem slotsOf_ascends (h : Records schema t c) (a : A) :
    (slotsOf schema t a).Pairwise fun s s' => schema.slot s < schema.slot s' := by
  refine ((storageOrder_ascends h).filter _).imp_of_mem fun {s s'} hs hs' hlt => ?_
  have howner := of_decide_eq_true (List.mem_filter.mp hs).2
  have howner' := of_decide_eq_true (List.mem_filter.mp hs').2
  rw [slotRank, slotRank, howner, howner', Prod.Lex.toLex_lt_toLex] at hlt
  rcases hlt with hlt | ⟨_, hlt⟩
  · exact absurd hlt (Nat.lt_irrefl _)
  · exact BitVec.lt_def.mpr hlt

/-- The sorted slots are those of the sorted accounts. -/
theorem storageOrder_eq_flatMap (h : Records schema t c) :
    (balPrepareIter schema t).1.storageOrder =
      (balPrepareIter schema t).1.accountOrder.flatMap (slotsOf schema t) := by
  let less : S → S → Prop := fun s s' => slotRank schema s < slotRank schema s'
  have hirrefl : Std.Irrefl less := ⟨fun s => lt_irrefl (slotRank schema s)⟩
  have hantisymm : Std.Antisymm less := ⟨fun s s' hlt hgt => absurd hgt (not_lt.mpr hlt.le)⟩
  have hascend : (balPrepareIter schema t).1.storageOrder.Pairwise less := storageOrder_ascends h
  refine hascend.eq_of_mem_iff (List.pairwise_flatMap.mpr ⟨fun a _ => hascend.filter _, ?_⟩)
    fun s => ?_
  · refine (accountOrder_ascends h).imp fun {a b} hlt s hs s' hs' => ?_
    rw [slotsOf, List.mem_filter, decide_eq_true_iff] at hs hs'
    refine Prod.Lex.toLex_lt_toLex.mpr (Or.inl ?_)
    rw [hs.2, hs'.2]
    exact BitVec.lt_def.mp hlt
  · rw [List.mem_flatMap, h.prepareIter.slots.mem_iff]
    refine ⟨fun hs => ⟨schema.owner s, ?_, (mem_slotsOf h).mpr ⟨hs, rfl⟩⟩, ?_⟩
    · exact (h.prepareIter.accounts.mem_iff _).mpr (h.owner_active s hs)
    · rintro ⟨a, _, hs⟩
      exact ((mem_slotsOf h).mp hs).1

/-! ## Changed and read slots -/

omit [DecidableEq A] in
/-- The row of a slot has a change if the slot has one. -/
theorem Records.head_eq_none (h : Records schema t c) {s : S} (hs : c.slots s) :
    (t.storage s).change.head = none ↔ c.storage s = [] := by
  obtain ⟨pos, hchains⟩ := h.storageChains
  have hchain := hchains.chain_eq s
  rw [BalTable.storageChain, if_pos ((h.slots.eq_iff s).mpr hs)] at hchain
  rw [hchain, List.head?_eq_none_iff]
  refine ⟨(hchains.linked s).eq_nil, fun hnil => ?_⟩
  have hlinked := hchains.linked s
  rw [hnil] at hlinked
  cases hpos : pos s with
  | nil => rfl
  | cons p ps =>
    rw [hpos] at hlinked
    cases hlinked

omit [DecidableEq A] in
theorem Records.slot_of_change (h : Records schema t c) {s : S} (hs : c.storage s ≠ []) :
    c.slots s := by
  obtain ⟨pos, hchains⟩ := h.storageChains
  by_contra hnot
  have hchain := hchains.chain_eq s
  rw [BalTable.storageChain, if_neg fun heq => hnot ((h.slots.eq_iff s).mp heq)] at hchain
  have hempty := List.head?_eq_none_iff.mp (congrArg BalChain.head hchain).symm
  exact hs ((hchains.linked s).eq_nil hempty)

theorem mem_readOnly (h : Records schema t c) {a : A} {s : S} :
    s ∈ (slotsOf schema t a).filter (readOnly t) ↔
      schema.owner s = a ∧ c.reads s ∧ c.storage s = [] := by
  rw [List.mem_filter, mem_slotsOf h, readOnly, Bool.and_eq_true, Option.isNone_iff_eq_none]
  constructor
  · rintro ⟨⟨hs, howner⟩, hread, hhead⟩
    exact ⟨howner, (h.read s hs).mp hread, (h.head_eq_none hs).mp hhead⟩
  · rintro ⟨howner, hread, hnil⟩
    have hs := h.read_slot s hread
    exact ⟨⟨hs, howner⟩, (h.read s hs).mpr hread, (h.head_eq_none hs).mpr hnil⟩

/-- The changed slots of an account in the sorted order. -/
def changedSlotsOf (schema : BalSchema A S) (t : BalTable A S) (a : A) : List S :=
  (slotsOf schema t a).filter fun s => (t.storage s).change.head.isSome

theorem mem_changedSlotsOf (h : Records schema t c) {a : A} {s : S} :
    s ∈ changedSlotsOf schema t a ↔ schema.owner s = a ∧ c.storage s ≠ [] := by
  rw [changedSlotsOf, List.mem_filter, mem_slotsOf h, Option.isSome_iff_ne_none]
  constructor
  · rintro ⟨⟨hs, howner⟩, hhead⟩
    exact ⟨howner, fun hnil => hhead ((h.head_eq_none hs).mpr hnil)⟩
  · rintro ⟨howner, hne⟩
    have hs := h.slot_of_change hne
    exact ⟨⟨hs, howner⟩, fun hhead => hne ((h.head_eq_none hs).mp hhead)⟩

/-- A slot without changes adds nothing to the entries. -/
theorem flatMap_changedSlotsOf (h : Records schema t c) (a : A) :
    ((slotsOf schema t a).flatMap fun s =>
        (c.storage s).map fun e => BalIterEntry.storageChange a s e.1 e.2) =
      (changedSlotsOf schema t a).flatMap fun s =>
        (c.storage s).map fun e => BalIterEntry.storageChange a s e.1 e.2 := by
  have hslots : ∀ s ∈ slotsOf schema t a, c.slots s := fun s hs => ((mem_slotsOf h).mp hs).1
  rw [changedSlotsOf]
  generalize slotsOf schema t a = slots at hslots ⊢
  induction slots with
  | nil => rfl
  | cons s rest ih =>
    rw [List.flatMap_cons, ih fun s' hs' => hslots s' (List.mem_cons_of_mem s hs')]
    cases hhead : (t.storage s).change.head with
    | none =>
      rw [(h.head_eq_none (hslots s List.mem_cons_self)).mp hhead,
        List.filter_cons_of_neg (by simp [hhead])]
      rfl
    | some position => rw [List.filter_cons_of_pos (by simp [hhead]), List.flatMap_cons]

end

/-! ## Runs -/

section

variable {A S : Type} [DecidableEq A] [DecidableEq S]

/-- The tables of a run of the host, with the notes since the last reset.
The index of a change is the count of transactions of the block, a
`uint32_t`. -/
inductive BalReachable (schema : BalSchema A S) : BalTable A S → List (BalNote A S) → Prop where
  | start {t : BalTable A S} :
      t.blockEpoch = 1 → (∀ a, (t.accounts a).blockEpoch = 0) →
      (∀ s, (t.storage s).blockEpoch = 0) → t.storageHistory = [] → t.balanceHistory = [] →
      t.nonceHistories = [] → t.codeHistories = [] → t.accountOrder = [] → t.storageOrder = [] →
      BalReachable schema t []
  | reset {t t' : BalTable A S} {notes : List (BalNote A S)} :
      BalReachable schema t notes → balReset t = some t' → BalReachable schema t' []
  | note {t t' : BalTable A S} {notes : List (BalNote A S)} {n : BalNote A S} :
      BalReachable schema t notes →
      (∀ e, n.epoch = some e → e < 2 ^ 32 ∧ ∀ e' ∈ notes.filterMap BalNote.epoch, e' ≤ e) →
      balNote schema t n = some t' → BalReachable schema t' (notes ++ [n])
  | prepareIter {t : BalTable A S} {notes : List (BalNote A S)} :
      BalReachable schema t notes → BalReachable schema (balPrepareIter schema t).1 notes

variable {schema : BalSchema A S} {t : BalTable A S} {notes : List (BalNote A S)}

theorem BalReachable.epochsAscend (h : BalReachable schema t notes) : EpochsAscend notes := by
  induction h with
  | start => exact List.Pairwise.nil
  | reset => exact List.Pairwise.nil
  | prepareIter _ ih => exact ih
  | @note t t' notes n _ hepoch _ ih =>
    rw [EpochsAscend, List.filterMap_append, List.pairwise_append]
    cases hn : n.epoch with
    | none => exact ⟨ih, by simp [hn], by simp [hn]⟩
    | some e =>
      refine ⟨ih, by simp [hn], fun e' he' e'' he'' => ?_⟩
      simp only [List.filterMap_cons, hn, List.filterMap_nil, List.mem_singleton] at he''
      rw [he'']
      exact (hepoch e hn).2 e' he'

theorem BalReachable.records (h : BalReachable schema t notes) :
    Records schema t (contentOf schema notes) := by
  induction h with
  | @start t hblock haccount hstorage hs hb hn hc haccounts hslots =>
    refine .fresh (fun a => ?_) (fun s => ?_) hs hb hn hc haccounts hslots
    · rw [haccount, hblock]
      exact Nat.zero_lt_one
    · rw [hstorage, hblock]
      exact Nat.zero_lt_one
  | reset _ hreset ih => exact Records.reset ih.accounts.le ih.slots.le hreset
  | note _ hepoch hnote ih =>
    rw [contentOf_concat]
    exact ih.note (fun e he => (hepoch e he).1) hnote
  | prepareIter _ ih => exact ih.prepareIter

/-! ## Entries -/

/-- What an entry says of the notes. -/
def BalIterEntry.Recorded (schema : BalSchema A S) (notes : List (BalNote A S)) :
    BalIterEntry A S → Prop
  | .account a => ∃ n ∈ notes, n.account schema = a
  | .storageChange a s index value => schema.owner s = a ∧ (index, value) ∈ storageChanges notes s
  | .storageRead a s =>
    schema.owner s = a ∧ .storageTouch s ∈ notes ∧ storageChanges notes s = []
  | .balanceChange a index value => (index, value) ∈ balanceChanges notes a
  | .nonceChange a index nonce => (index, nonce) ∈ nonceChanges notes a
  | .codeChange a index codeHash => (index, codeHash) ∈ codeChanges notes a
  | .accountEnd a => ∃ n ∈ notes, n.account schema = a
  | .empty => False

omit [DecidableEq A] [DecidableEq S] in
theorem mem_accountEntries {content : BalContent A S} {slots reads : List S} {a : A}
    {entry : BalIterEntry A S} :
    entry ∈ accountEntries content slots reads a ↔
      entry = .account a ∨
        (∃ s ∈ slots, ∃ e ∈ content.storage s, .storageChange a s e.1 e.2 = entry) ∨
          (∃ s ∈ reads, .storageRead a s = entry) ∨
            (∃ e ∈ content.balance a, .balanceChange a e.1 e.2 = entry) ∨
              (∃ e ∈ content.nonce a, .nonceChange a e.1 e.2 = entry) ∨
                (∃ e ∈ content.code a, .codeChange a e.1 e.2 = entry) ∨ entry = .accountEnd a := by
  simp only [accountEntries, List.mem_append, List.mem_singleton, List.mem_flatMap, List.mem_map]

/-- The part of the section of its account that an entry is in. -/
def BalIterEntry.part : BalIterEntry A S → Nat
  | .account _ => 0
  | .storageChange .. => 1
  | .storageRead .. => 2
  | .balanceChange .. => 3
  | .nonceChange .. => 4
  | .codeChange .. => 5
  | .accountEnd _ => 6
  | .empty => 7

omit [DecidableEq A] [DecidableEq S] in
/-- The entries of an account repeat nothing that is not repeated in its
parts. -/
theorem nodup_accountEntries {content : BalContent A S} {slots reads : List S} {a : A}
    (hslots : slots.Nodup) (hreads : reads.Nodup) (hstorage : ∀ s, (content.storage s).Nodup)
    (hbalance : (content.balance a).Nodup) (hnonce : (content.nonce a).Nodup)
    (hcode : (content.code a).Nodup) : (accountEntries content slots reads a).Nodup := by
  have hmap : ∀ {α : Type} {l : List (Nat × α)} (entry : Nat → α → BalIterEntry A S), l.Nodup →
      (∀ i v j w, entry i v = entry j w → i = j ∧ v = w) →
      (l.map fun e => entry e.1 e.2).Nodup := by
    intro α l entry hl hinj
    refine hl.map fun e f heq => ?_
    obtain ⟨hi, hv⟩ := hinj e.1 e.2 f.1 f.2 heq
    exact Prod.ext hi hv
  have hchanges : (slots.flatMap fun s =>
      (content.storage s).map fun e => BalIterEntry.storageChange a s e.1 e.2).Nodup := by
    refine List.nodup_flatMap.mpr ⟨fun s _ => ?_, hslots.imp fun {s s'} hne => ?_⟩
    · exact hmap (.storageChange a s) (hstorage s) (by simp)
    · refine List.disjoint_left.mpr fun entry hin hin' => hne ?_
      obtain ⟨e, _, rfl⟩ := List.mem_map.mp hin
      obtain ⟨e', _, heq⟩ := List.mem_map.mp hin'
      exact (BalIterEntry.storageChange.inj heq).2.1.symm
  have hread : (reads.map fun s => BalIterEntry.storageRead a s).Nodup :=
    hreads.map fun s s' heq => by cases heq; rfl
  have hbalances := hmap (BalIterEntry.balanceChange a) hbalance (by simp)
  have hnonces := hmap (BalIterEntry.nonceChange a) hnonce (by simp)
  have hcodes := hmap (BalIterEntry.codeChange a) hcode (by simp)
  have hapart : ∀ {parts others : List (BalIterEntry A S)} (k : Nat), parts.Nodup →
      others.Nodup → (∀ x ∈ parts, x.part = k) → (∀ x ∈ others, k < x.part) →
      (parts ++ others).Nodup := by
    intro parts others k hparts hothers hk hlt
    refine List.nodup_append.mpr ⟨hparts, hothers, fun x hx y hy heq => ?_⟩
    exact absurd (hlt y hy) (by rw [← heq, hk x hx]; exact Nat.lt_irrefl k)
  rw [accountEntries]
  refine hapart 0 (List.nodup_singleton _) (hapart 1 hchanges (hapart 2 hread (hapart 3 hbalances
    (hapart 4 hnonces (hapart 5 hcodes (List.nodup_singleton _) ?_ ?_) ?_ ?_) ?_ ?_) ?_ ?_) ?_ ?_)
    ?_ ?_
  all_goals
    simp only [List.forall_mem_append, List.forall_mem_map, List.forall_mem_singleton,
      List.forall_mem_flatMap]
    simp [BalIterEntry.part]

omit [DecidableEq A] [DecidableEq S] in
/-- The changes of one key are in the order of the transactions as well. -/
theorem EpochsAscend.changes {α : Type} (h : EpochsAscend notes)
    {f : BalNote A S → Option (Nat × α)}
    (hf : ∀ n change, f n = some change → n.epoch = some change.1) :
    ((notes.filterMap f).map Prod.fst).Pairwise (· ≤ ·) := by
  refine List.Pairwise.sublist ?_ h
  induction notes with
  | nil => exact List.Sublist.refl _
  | cons n notes ih =>
    have hrest := ih (List.Pairwise.sublist ((List.sublist_cons_self n notes).filterMap _) h)
    rw [List.filterMap_cons, List.filterMap_cons]
    cases hn : f n with
    | none =>
      cases n.epoch with
      | none => exact hrest
      | some e => exact hrest.cons e
    | some change =>
      rw [hf n change hn]
      exact hrest.cons_cons change.1

omit [DecidableEq A] in
theorem storageChangeOf_eq_some {n : BalNote A S} {s : S} {change : Nat × Word}
    (h : n.storageChangeOf s = some change) : n = .storageChange change.1 s change.2 := by
  cases n with
  | storageChange e s' value =>
    rw [BalNote.storageChangeOf] at h
    split at h
    · rename_i heq
      cases h
      rw [heq]
    · cases h
  | _ => cases h

omit [DecidableEq S] in
theorem balanceChangeOf_eq_some {n : BalNote A S} {a : A} {change : Nat × Word}
    (h : n.balanceChangeOf a = some change) : n = .balanceChange change.1 a change.2 := by
  cases n with
  | balanceChange e a' value =>
    rw [BalNote.balanceChangeOf] at h
    split at h
    · rename_i heq
      cases h
      rw [heq]
    · cases h
  | _ => cases h

omit [DecidableEq S] in
theorem nonceChangeOf_eq_some {n : BalNote A S} {a : A} {change : Nat × Nat}
    (h : n.nonceChangeOf a = some change) : n = .nonceChange change.1 a change.2 := by
  cases n with
  | nonceChange e a' nonce =>
    rw [BalNote.nonceChangeOf] at h
    split at h
    · rename_i heq
      cases h
      rw [heq]
    · cases h
  | _ => cases h

omit [DecidableEq S] in
theorem codeChangeOf_eq_some {n : BalNote A S} {a : A} {change : Nat × Hash}
    (h : n.codeChangeOf a = some change) : n = .codeChange change.1 a change.2 := by
  cases n with
  | codeChange e a' codeHash =>
    rw [BalNote.codeChangeOf] at h
    split at h
    · rename_i heq
      cases h
      rw [heq]
    · cases h
  | _ => cases h

/-- The indices of all changes ascend. -/
structure ChangesAscend (notes : List (BalNote A S)) : Prop where
  storage : ∀ s, ((storageChanges notes s).map Prod.fst).Pairwise (· < ·)
  balance : ∀ a, ((balanceChanges notes a).map Prod.fst).Pairwise (· < ·)
  nonce : ∀ a, ((nonceChanges notes a).map Prod.fst).Pairwise (· < ·)
  code : ∀ a, ((codeChanges notes a).map Prod.fst).Pairwise (· < ·)

theorem EpochsAscend.changesAscend (h : EpochsAscend notes) : ChangesAscend notes where
  storage _ := (lastChanges_spec (h.changes fun _ _ he => storageChangeOf_eq_some he ▸ rfl)).1
  balance _ := (lastChanges_spec (h.changes fun _ _ he => balanceChangeOf_eq_some he ▸ rfl)).1
  nonce _ := (lastChanges_spec (h.changes fun _ _ he => nonceChangeOf_eq_some he ▸ rfl)).1
  code _ := (lastChanges_spec (h.changes fun _ _ he => codeChangeOf_eq_some he ▸ rfl)).1

omit [DecidableEq A] [DecidableEq S] in
/-- A change that is left is one that was noted. -/
theorem EpochsAscend.of_mem {α : Type} (h : EpochsAscend notes)
    {f : BalNote A S → Option (Nat × α)}
    (hf : ∀ n change, f n = some change → n.epoch = some change.1) {change : Nat × α}
    (hmem : change ∈ lastChanges (notes.filterMap f)) : ∃ n ∈ notes, f n = some change := by
  have hlast := ((lastChanges_spec (h.changes hf)).2 change).mp hmem
  exact List.mem_filterMap.mp (List.mem_filter.mp (List.mem_of_getLast? hlast)).1

/-! ## The iteration -/

/-- The accounts, and their changed and read slots, in the order in which
they are returned. -/
structure BalListing (schema : BalSchema A S) (notes : List (BalNote A S)) (accounts : List A)
    (changed reads : A → List S) : Prop where
  accounts_ascend : accounts.Pairwise fun a b => schema.address a < schema.address b
  mem_accounts : ∀ a, a ∈ accounts ↔ ∃ n ∈ notes, n.account schema = a
  changed_ascend : ∀ a, (changed a).Pairwise fun s s' => schema.slot s < schema.slot s'
  mem_changed : ∀ a s, s ∈ changed a ↔ schema.owner s = a ∧ storageChanges notes s ≠ []
  reads_ascend : ∀ a, (reads a).Pairwise fun s s' => schema.slot s < schema.slot s'
  mem_reads : ∀ a s, s ∈ reads a ↔
    schema.owner s = a ∧ .storageTouch s ∈ notes ∧ storageChanges notes s = []

variable {accounts : List A} {changed reads : A → List S}

/-- The sections of the accounts hold what the notes say, and nothing else. -/
theorem BalListing.mem_iff (h : BalListing schema notes accounts changed reads)
    (hepochs : EpochsAscend notes) {entry : BalIterEntry A S} :
    entry ∈ (accounts.flatMap fun a =>
        accountEntries (contentOf schema notes) (changed a) (reads a) a) ↔
      entry.Recorded schema notes := by
  -- the account of a change or a read is one of the accounts
  have hstorage : ∀ s e, e ∈ storageChanges notes s → schema.owner s ∈ accounts := by
    intro s e he
    obtain ⟨n, hn, hne⟩ := hepochs.of_mem (fun _ _ he => storageChangeOf_eq_some he ▸ rfl) he
    exact (h.mem_accounts _).mpr ⟨n, hn, storageChangeOf_eq_some hne ▸ rfl⟩
  have hread : ∀ s, .storageTouch s ∈ notes → schema.owner s ∈ accounts :=
    fun s hs => (h.mem_accounts _).mpr ⟨_, hs, rfl⟩
  have hbalance : ∀ a e, e ∈ balanceChanges notes a → a ∈ accounts := by
    intro a e he
    obtain ⟨n, hn, hne⟩ := hepochs.of_mem (fun _ _ he => balanceChangeOf_eq_some he ▸ rfl) he
    exact (h.mem_accounts a).mpr ⟨n, hn, balanceChangeOf_eq_some hne ▸ rfl⟩
  have hnonce : ∀ a e, e ∈ nonceChanges notes a → a ∈ accounts := by
    intro a e he
    obtain ⟨n, hn, hne⟩ := hepochs.of_mem (fun _ _ he => nonceChangeOf_eq_some he ▸ rfl) he
    exact (h.mem_accounts a).mpr ⟨n, hn, nonceChangeOf_eq_some hne ▸ rfl⟩
  have hcode : ∀ a e, e ∈ codeChanges notes a → a ∈ accounts := by
    intro a e he
    obtain ⟨n, hn, hne⟩ := hepochs.of_mem (fun _ _ he => codeChangeOf_eq_some he ▸ rfl) he
    exact (h.mem_accounts a).mpr ⟨n, hn, codeChangeOf_eq_some hne ▸ rfl⟩
  simp only [List.mem_flatMap, mem_accountEntries]
  cases entry with
  | account a => simp [BalIterEntry.Recorded, h.mem_accounts]
  | accountEnd a => simp [BalIterEntry.Recorded, h.mem_accounts]
  | empty => simp [BalIterEntry.Recorded]
  | storageRead a s =>
    suffices schema.owner s = a → .storageTouch s ∈ notes → storageChanges notes s = [] →
        a ∈ accounts by
      simpa [BalIterEntry.Recorded, h.mem_reads] using this
    rintro rfl hs _
    exact hread s hs
  | storageChange a s index value =>
    suffices (∃ a' ∈ accounts, (schema.owner s = a' ∧ storageChanges notes s ≠ []) ∧
        (index, value) ∈ storageChanges notes s ∧ a' = a) ↔
          schema.owner s = a ∧ (index, value) ∈ storageChanges notes s by
      simpa [BalIterEntry.Recorded, h.mem_changed, contentOf] using this
    constructor
    · rintro ⟨a', _, ⟨howner, _⟩, hchange, rfl⟩
      exact ⟨howner, hchange⟩
    · rintro ⟨rfl, hchange⟩
      exact ⟨_, hstorage s _ hchange, ⟨rfl, List.ne_nil_of_mem hchange⟩, hchange, rfl⟩
  | balanceChange a index value =>
    simpa [BalIterEntry.Recorded, contentOf] using hbalance a (index, value)
  | nonceChange a index nonce =>
    simpa [BalIterEntry.Recorded, contentOf] using hnonce a (index, nonce)
  | codeChange a index codeHash =>
    simpa [BalIterEntry.Recorded, contentOf] using hcode a (index, codeHash)

/-- The account of an entry. -/
def BalIterEntry.accountOf : BalIterEntry A S → Option A
  | .account a => some a
  | .storageChange a _ _ _ => some a
  | .storageRead a _ => some a
  | .balanceChange a _ _ => some a
  | .nonceChange a _ _ => some a
  | .codeChange a _ _ => some a
  | .accountEnd a => some a
  | .empty => none

omit [DecidableEq A] [DecidableEq S] in
theorem accountOf_accountEntries {content : BalContent A S} {slots reads : List S} {a : A} :
    ∀ entry ∈ accountEntries content slots reads a, entry.accountOf = some a := by
  intro entry hentry
  rcases mem_accountEntries.mp hentry with rfl | ⟨_, _, _, _, rfl⟩ | ⟨_, _, rfl⟩ | ⟨_, _, rfl⟩ |
    ⟨_, _, rfl⟩ | ⟨_, _, rfl⟩ | rfl <;> rfl

/-- Nothing is in the sections twice. -/
theorem BalListing.nodup (h : BalListing schema notes accounts changed reads)
    (hchanges : ChangesAscend notes) :
    (accounts.flatMap fun a =>
      accountEntries (contentOf schema notes) (changed a) (reads a) a).Nodup := by
  have hnodup : ∀ {α : Type} {l : List (Nat × α)}, (l.map Prod.fst).Pairwise (· < ·) → l.Nodup :=
    fun hl => List.Nodup.of_map Prod.fst (hl.imp Nat.ne_of_lt)
  have hslots : ∀ {l : List S}, (l.Pairwise fun s s' => schema.slot s < schema.slot s') →
      l.Nodup := by
    refine fun hl => hl.imp fun {s s'} hlt heq => ?_
    rw [heq] at hlt
    exact BitVec.lt_irrefl _ hlt
  refine List.nodup_flatMap.mpr ⟨fun a _ => ?_, h.accounts_ascend.imp fun {a b} hlt => ?_⟩
  · exact nodup_accountEntries (hslots (h.changed_ascend a)) (hslots (h.reads_ascend a))
      (fun s => hnodup (hchanges.storage s)) (hnodup (hchanges.balance a))
      (hnodup (hchanges.nonce a)) (hnodup (hchanges.code a))
  · refine List.disjoint_left.mpr fun entry ha hb => ?_
    have heq := (accountOf_accountEntries entry ha).symm.trans (accountOf_accountEntries entry hb)
    rw [Option.some.inj heq] at hlt
    exact BitVec.lt_irrefl _ hlt

/-- The iteration returns, account by account in ascending order, the changes
of the changed slots, the read slots, and the changes of the fields: all that
the notes say, and nothing twice. -/
theorem balIterNextProbe_complete (h : BalReachable schema t notes) :
    ∃ (accounts : List A) (changed reads : A → List S) (out : List (BalIterEntry A S)),
      BalEmits schema (balPrepareIter schema t).1 (balPrepareIter schema t).2 out ∧
      (out = accounts.flatMap fun a =>
        accountEntries (contentOf schema notes) (changed a) (reads a) a) ∧
      BalListing schema notes accounts changed reads ∧ ChangesAscend notes ∧
      out.Nodup ∧ ∀ entry, entry ∈ out ↔ entry.Recorded schema notes := by
  have hrecords := h.records
  have hlisting : BalListing schema notes (balPrepareIter schema t).1.accountOrder
      (changedSlotsOf schema t) fun a => (slotsOf schema t a).filter (readOnly t) :=
    { accounts_ascend := accountOrder_ascends hrecords
      mem_accounts := hrecords.prepareIter.accounts.mem_iff
      changed_ascend := fun a => (slotsOf_ascends hrecords a).filter _
      mem_changed := fun a s => mem_changedSlotsOf hrecords
      reads_ascend := fun a => (slotsOf_ascends hrecords a).filter _
      mem_reads := fun a s => mem_readOnly hrecords }
  refine ⟨_, _, _, _, ?_, rfl, hlisting, h.epochsAscend.changesAscend,
    hlisting.nodup h.epochsAscend.changesAscend, fun entry => hlisting.mem_iff h.epochsAscend⟩
  have howner : ∀ a, ∀ s ∈ slotsOf schema t a, (t.storage s).accountId = a := by
    intro a s hs
    obtain ⟨hslot, howner⟩ := (mem_slotsOf hrecords).mp hs
    rw [hrecords.owner s hslot, howner]
  have hsection : ∀ a, accountEntries (contentOf schema notes) (slotsOf schema t a)
        ((slotsOf schema t a).filter (readOnly t)) a =
      accountEntries (contentOf schema notes) (changedSlotsOf schema t a)
        ((slotsOf schema t a).filter (readOnly t)) a := by
    intro a
    rw [accountEntries, accountEntries, flatMap_changedSlotsOf hrecords]
  have horder : (balPrepareIter schema t).1.storageOrder =
      [] ++ (balPrepareIter schema t).1.accountOrder.flatMap (slotsOf schema t) :=
    storageOrder_eq_flatMap hrecords
  rw [← funext hsection]
  exact emits_accounts hrecords.prepareIter (List.nil_append _).symm (accountOrder_ascends hrecords)
    horder howner (fun s hs => absurd hs List.not_mem_nil) rfl rfl rfl

/-- One account with two slots. -/
def twoSlots : BalSchema (Fin 1) (Fin 2) where
  address _ := 7
  owner _ := 0
  slot s := BitVec.ofNat 256 s.val
  address_injective a b _ := Subsingleton.elim a b
  slot_injective := by decide

/-- A slot that is only read, and one that is read and changed. -/
theorem balIterNextProbe_complete_twoSlots :
    ∃ t : BalTable (Fin 1) (Fin 2),
      ∃ (accounts : List (Fin 1)) (changed reads : Fin 1 → List (Fin 2))
        (out : List (BalIterEntry (Fin 1) (Fin 2))),
        BalEmits twoSlots (balPrepareIter twoSlots t).1 (balPrepareIter twoSlots t).2 out ∧
        (out = accounts.flatMap fun a =>
          accountEntries
            (contentOf twoSlots [.storageTouch 1, .storageTouch 0, .storageChange 1 0 5])
            (changed a) (reads a) a) ∧
        BalListing twoSlots [.storageTouch 1, .storageTouch 0, .storageChange 1 0 5] accounts
          changed reads ∧
        ChangesAscend ([.storageTouch 1, .storageTouch 0, .storageChange 1 0 5] :
          List (BalNote (Fin 1) (Fin 2))) ∧
        out.Nodup ∧ ∀ entry, entry ∈ out ↔
          entry.Recorded twoSlots [.storageTouch 1, .storageTouch 0, .storageChange 1 0 5] := by
  have hstart : BalReachable twoSlots ⟨[], [], [], [], fun _ => ⟨0, .none, .none, .none, false⟩,
      fun _ => ⟨0, 0, .none, false⟩, 1, [], []⟩ [] :=
    .start rfl (fun _ => rfl) (fun _ => rfl) rfl rfl rfl rfl rfl rfl
  have hread := (hstart.note (n := .storageTouch 1) nofun rfl).note (n := .storageTouch 0) nofun rfl
  have hchange := hread.note (n := .storageChange 1 0 5) (by simp [BalNote.epoch]) rfl
  exact ⟨_, balIterNextProbe_complete hchange⟩

end

end EvmSail.Optimised
