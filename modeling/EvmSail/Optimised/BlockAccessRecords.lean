/-
# `EvmSail.Optimised.BlockAccessRecords` — what the host has recorded

`Records` says what a table has recorded after some notes: which rows are
active, and that their chains are the last changes of each transaction.
Each of the steps a note takes is recorded (`Records.note`): an activation,
a change that is appended to the history or overwrites the last one, the
mark of a read.  The chains of the other accounts and slots are untouched,
since no two of them share a position (`Chains.append`).
-/
import EvmSail.Optimised.BlockAccessList

namespace EvmSail.Optimised

/-! ## Chains -/

section

variable {α : Type} {rows : List (BalHistoryRow α)}

/-- From the first of the positions on, the history chains these changes. -/
inductive Linked (rows : List (BalHistoryRow α)) : List Nat → List (Nat × α) → Prop where
  | nil : Linked rows [] []
  | cons {p : Nat} {ps : List Nat} {e : Nat × α} {es : List (Nat × α)} :
      rows[p]? = some ⟨e.1, ps.head?, e.2⟩ → Linked rows ps es → Linked rows (p :: ps) (e :: es)

namespace Linked

variable {ps : List Nat} {es : List (Nat × α)}

theorem lt (h : Linked rows ps es) : ∀ p ∈ ps, p < rows.length := by
  induction h with
  | nil => exact fun p hp => absurd hp List.not_mem_nil
  | cons hrow _ ih =>
    intro p hp
    rcases List.mem_cons.mp hp with rfl | hp
    · exact (List.getElem?_eq_some_iff.mp hrow).1
    · exact ih p hp

theorem eq_nil (h : Linked rows ps es) (hps : ps = []) : es = [] := by
  cases h with
  | nil => rfl
  | cons hrow hrest => cases hps

theorem congr {rows' : List (BalHistoryRow α)} (h : Linked rows ps es)
    (hsame : ∀ p ∈ ps, rows'[p]? = rows[p]?) : Linked rows' ps es := by
  induction h with
  | nil => exact .nil
  | cons hrow _ ih =>
    refine .cons ?_ (ih fun p hp => hsame p (List.mem_cons_of_mem _ hp))
    rw [hsame _ List.mem_cons_self, hrow]

/-- The row of the last position is that of the last change. -/
theorem last (h : Linked rows ps es) {tail : Nat} (htail : ps.getLast? = some tail) :
    ∃ e, es.getLast? = some e ∧ rows[tail]? = some ⟨e.1, none, e.2⟩ := by
  induction h with
  | nil => cases htail
  | @cons p ps e es hrow hrest ih =>
    cases hrest with
    | nil =>
      cases htail
      exact ⟨e, rfl, hrow⟩
    | cons hrow' hrest' =>
      rw [List.getLast?_cons_cons] at htail ⊢
      exact ih htail

/-- Overwriting the last change. -/
theorem overwrite (h : Linked rows ps es) (hnodup : ps.Nodup) {tail index : Nat}
    (htail : ps.getLast? = some tail) (hindex : es.getLast?.map Prod.fst = some index) (value : α) :
    Linked (rows.modify tail fun last => { last with value }) ps
      (es.dropLast ++ [(index, value)]) := by
  induction h with
  | nil => cases htail
  | @cons p ps e es hrow hrest ih =>
    cases hrest with
    | nil =>
      obtain rfl : p = tail := Option.some.inj htail
      obtain rfl : e.1 = index := Option.some.inj hindex
      refine .cons ?_ .nil
      rw [List.getElem?_modify_eq, hrow]
      rfl
    | @cons q qs f fs hrow' hrest' =>
      rw [List.getLast?_cons_cons] at htail hindex
      have hne : tail ≠ p := by
        rintro rfl
        exact (List.nodup_cons.mp hnodup).1 (List.mem_of_getLast? htail)
      refine .cons ?_ (ih (List.nodup_cons.mp hnodup).2 htail hindex)
      rw [List.getElem?_modify_ne _ _ hne, hrow]

/-- Linking a new last change. -/
theorem extend (h : Linked rows ps es) (hnodup : ps.Nodup) {tail : Nat}
    (htail : ps.getLast? = some tail) (index : Nat) (value : α) :
    Linked
      ((rows.modify tail fun last => { last with next := some rows.length }) ++
        [⟨index, none, value⟩])
      (ps ++ [rows.length]) (es ++ [(index, value)]) := by
  have hlen : ∀ f : BalHistoryRow α → BalHistoryRow α,
      (rows.modify tail f).length = rows.length := fun f => List.length_modify ..
  have hnew : ((rows.modify tail fun last => { last with next := some rows.length }) ++
      [⟨index, none, value⟩])[rows.length]? = some ⟨index, none, value⟩ := by
    rw [List.getElem?_append_right (hlen _).le, hlen, Nat.sub_self]
    rfl
  have hold : ∀ p, p < rows.length → tail ≠ p →
      ((rows.modify tail fun last => { last with next := some rows.length }) ++
        [⟨index, none, value⟩])[p]? = rows[p]? := by
    intro p hp hne
    rw [List.getElem?_append_left (by rwa [hlen]), List.getElem?_modify_ne _ _ hne]
  induction h with
  | nil => cases htail
  | @cons p ps e es hrow hrest ih =>
    have hp : p < rows.length := (List.getElem?_eq_some_iff.mp hrow).1
    cases hrest with
    | nil =>
      obtain rfl : p = tail := Option.some.inj htail
      refine .cons ?_ (.cons hnew .nil)
      rw [List.getElem?_append_left (by rwa [hlen]), List.getElem?_modify_eq, hrow]
      rfl
    | @cons q qs f fs hrow' hrest' =>
      rw [List.getLast?_cons_cons] at htail
      have hne : tail ≠ p := by
        rintro rfl
        exact (List.nodup_cons.mp hnodup).1 (List.mem_of_getLast? htail)
      refine .cons ?_ (ih (List.nodup_cons.mp hnodup).2 htail)
      rw [hold p hp hne, hrow]
      rfl

end Linked

/-- A history with the chains of all accounts or slots in it. -/
structure Chains {κ : Type} (rows : List (BalHistoryRow α)) (chain : κ → BalChain)
    (log : κ → List (Nat × α)) (pos : κ → List Nat) : Prop where
  chain_eq : ∀ k, chain k = ⟨(pos k).head?, (pos k).getLast?⟩
  linked : ∀ k, Linked rows (pos k) (log k)
  nodup : ∀ k, (pos k).Nodup
  apart : ∀ k k' p, p ∈ pos k → p ∈ pos k' → k = k'

/-- One more change of `k`; the chains of the others are untouched. -/
theorem Chains.append {κ : Type} [DecidableEq κ] {chain : κ → BalChain}
    {log : κ → List (Nat × α)} {pos : κ → List Nat} (h : Chains rows chain log pos) (k : κ)
    {capacity index : Nat} {value : α} {rows' : List (BalHistoryRow α)} {chain' : BalChain}
    (happ : balAppendHistory rows capacity (chain k) index value = some (rows', chain')) :
    ∃ pos', Chains rows' (Function.update chain k chain')
      (Function.update log k (recordChange (log k) (index, value))) pos' := by
  obtain ⟨hchain, hlinked, hnodup, hapart⟩ := h
  have hold : ∀ k', rows.length ∉ pos k' :=
    fun k' hmem => absurd ((hlinked k').lt _ hmem) (Nat.lt_irrefl _)
  -- where the change gets a position of its own
  have hfresh : ∀ linked head, (∀ k', k' ≠ k → Linked (linked ++ [⟨index, none, value⟩]) (pos k')
          (log k')) →
        Linked (linked ++ [⟨index, none, value⟩]) (pos k ++ [rows.length])
          (recordChange (log k) (index, value)) →
        (pos k ++ [rows.length]).head? = head →
      Chains (linked ++ [⟨index, none, value⟩])
        (Function.update chain k ⟨head, some rows.length⟩)
        (Function.update log k (recordChange (log k) (index, value)))
        (Function.update pos k (pos k ++ [rows.length])) := by
    intro linked head hothers hk hhead
    have hmem : ∀ k' p, p ∈ Function.update pos k (pos k ++ [rows.length]) k' ↔
        p ∈ pos k' ∨ k' = k ∧ p = rows.length := by
      intro k' p
      by_cases heq : k' = k
      · subst heq
        rw [Function.update_self, List.mem_append, List.mem_singleton]
        simp
      · rw [Function.update_of_ne heq]
        simp [heq]
    refine ⟨fun k' => ?_, fun k' => ?_, fun k' => ?_, fun k₁ k₂ p h₁ h₂ => ?_⟩
    · by_cases heq : k' = k
      · subst heq
        rw [Function.update_self, Function.update_self, hhead, List.getLast?_concat]
      · rw [Function.update_of_ne heq, Function.update_of_ne heq, hchain]
    · by_cases heq : k' = k
      · subst heq
        rwa [Function.update_self, Function.update_self]
      · rw [Function.update_of_ne heq, Function.update_of_ne heq]
        exact hothers k' heq
    · by_cases heq : k' = k
      · subst heq
        rw [Function.update_self]
        rw [← List.concat_eq_append]
        exact (hnodup k').concat (hold k')
      · rw [Function.update_of_ne heq]
        exact hnodup k'
    · rw [hmem] at h₁ h₂
      rcases h₁ with h₁ | ⟨rfl, rfl⟩
      · rcases h₂ with h₂ | ⟨rfl, rfl⟩
        · exact hapart k₁ k₂ p h₁ h₂
        · exact absurd h₁ (hold k₁)
      · rcases h₂ with h₂ | ⟨rfl, _⟩
        · exact absurd h₂ (hold k₂)
        · rfl
  rw [balAppendHistory, hchain] at happ
  dsimp only at happ
  cases htail : (pos k).getLast? with
  | none =>
    have hnil : pos k = [] := List.getLast?_eq_none_iff.mp htail
    have hlog : log k = [] := (hlinked k).eq_nil hnil
    rw [htail] at happ
    dsimp only at happ
    split at happ
    · cases happ
    · cases happ
      refine ⟨_, hfresh rows (some rows.length) ?_ ?_ (by rw [hnil]; rfl)⟩
      · intro k' _
        refine (hlinked k').congr fun p hp => ?_
        exact List.getElem?_append_left ((hlinked k').lt p hp)
      · rw [hnil, hlog]
        refine .cons ?_ .nil
        rw [List.getElem?_append_right (Nat.le_refl _), Nat.sub_self]
        rfl
  | some tail =>
    obtain ⟨e, he, hrow⟩ := (hlinked k).last htail
    have htailMem : tail ∈ pos k := List.mem_of_getLast? htail
    have hothers : ∀ f : BalHistoryRow α → BalHistoryRow α, ∀ k', k' ≠ k →
        Linked (rows.modify tail f) (pos k') (log k') := by
      intro f k' hne
      refine (hlinked k').congr fun p hp => ?_
      exact List.getElem?_modify_ne _ _ fun heq => hne (hapart k' k p hp (heq ▸ htailMem))
    rw [htail] at happ
    dsimp only at happ
    rw [hrow, Option.map_some] at happ
    split at happ
    · -- the last change is of the same transaction
      rename_i hindex
      cases happ
      have hrecord : recordChange (log k) (index, value) =
          (log k).dropLast ++ [(index, value)] := by
        rw [recordChange, he, Option.map_some, if_pos hindex]
      have hlast : (log k).getLast?.map Prod.fst = some index := by
        rw [he]
        exact hindex
      refine ⟨pos, ⟨fun k' => ?_, fun k' => ?_, hnodup, hapart⟩⟩
      · rw [← htail, ← hchain k, Function.update_eq_self, hchain]
      · by_cases heq : k' = k
        · subst heq
          rw [Function.update_self, hrecord]
          exact (hlinked k').overwrite (hnodup k') htail hlast value
        · rw [Function.update_of_ne heq]
          exact hothers _ k' heq
    · rename_i hindex
      split at happ
      · cases happ
      · cases happ
        have hrecord : recordChange (log k) (index, value) = log k ++ [(index, value)] := by
          rw [recordChange, he, Option.map_some, if_neg hindex]
        refine ⟨_, hfresh _ (pos k).head? ?_ ?_ ?_⟩
        · intro k' hne
          have hkept := hothers (fun last => { last with next := some rows.length }) k' hne
          exact hkept.congr fun p hp => List.getElem?_append_left (hkept.lt p hp)
        · rw [hrecord]
          exact (hlinked k).extend (hnodup k) htail index value
        · exact List.head?_append_of_ne_nil _ (List.ne_nil_of_mem htailMem)

/-- An empty history. -/
theorem chains_nil {κ : Type} {log : κ → List (Nat × α)} (hlog : ∀ k, log k = []) :
    Chains ([] : List (BalHistoryRow α)) (fun _ : κ => .none) log (fun _ => []) :=
  ⟨fun _ => rfl, fun k => hlog k ▸ .nil, fun _ => List.nodup_nil,
    fun _ _ _ hp => absurd hp List.not_mem_nil⟩

end

/-! ## What a table has recorded -/

section

variable {A S : Type}

/-- The accesses of a block. -/
@[ext] structure BalContent (A S : Type) where
  accounts : A → Prop
  slots : S → Prop
  reads : S → Prop
  storage : S → List (Nat × Word)
  balance : A → List (Nat × Word)
  nonce : A → List (Nat × Nat)
  code : A → List (Nat × Hash)

/-- The chain of a slot in this block. -/
def BalTable.storageChain (t : BalTable A S) (s : S) : BalChain :=
  if (t.storage s).blockEpoch = t.blockEpoch then (t.storage s).change else .none

/-- A chain of an account in this block. -/
def BalTable.accountChain (t : BalTable A S) (field : BalAccountState → BalChain) (a : A) :
    BalChain :=
  if (t.accounts a).blockEpoch = t.blockEpoch then field (t.accounts a) else .none

/-- The rows of the current epoch are the active ones, and those are in the
order. -/
structure Activated {κ : Type} (epoch : κ → Nat) (blockEpoch : Nat) (order : List κ)
    (active : κ → Prop) : Prop where
  le : ∀ k, epoch k ≤ blockEpoch
  eq_iff : ∀ k, epoch k = blockEpoch ↔ active k
  nodup : order.Nodup
  mem_iff : ∀ k, k ∈ order ↔ active k

theorem Activated.activate {κ : Type} [DecidableEq κ] {epoch : κ → Nat} {blockEpoch : Nat}
    {order : List κ} {active : κ → Prop} (h : Activated epoch blockEpoch order active) (k : κ) :
    Activated (Function.update epoch k blockEpoch) blockEpoch
      (if epoch k ≠ blockEpoch then order ++ [k] else order) (fun k' => active k' ∨ k' = k) := by
  refine ⟨fun k' => ?_, fun k' => ?_, ?_, fun k' => ?_⟩
  · by_cases heq : k' = k
    · rw [heq, Function.update_self]
    · rw [Function.update_of_ne heq]
      exact h.le k'
  · by_cases heq : k' = k
    · simp [heq]
    · rw [Function.update_of_ne heq, h.eq_iff]
      simp [heq]
  · split
    · rename_i hne
      rw [← List.concat_eq_append]
      refine h.nodup.concat fun hmem => hne ?_
      rw [h.eq_iff, ← h.mem_iff]
      exact hmem
    · exact h.nodup
  · split
    · rw [List.mem_append, List.mem_singleton, h.mem_iff]
    · rename_i heq
      have hactive : active k := (h.eq_iff k).mp (not_not.mp heq)
      rw [h.mem_iff]
      refine ⟨Or.inl, ?_⟩
      rintro (h | rfl)
      · exact h
      · exact hactive

/-- The table has recorded these accesses. -/
structure Records (schema : BalSchema A S) (t : BalTable A S) (c : BalContent A S) : Prop where
  accounts : Activated (fun a => (t.accounts a).blockEpoch) t.blockEpoch t.accountOrder c.accounts
  slots : Activated (fun s => (t.storage s).blockEpoch) t.blockEpoch t.storageOrder c.slots
  owner : ∀ s, c.slots s → (t.storage s).accountId = schema.owner s
  owner_active : ∀ s, c.slots s → c.accounts (schema.owner s)
  read : ∀ s, c.slots s → ((t.storage s).read = true ↔ c.reads s)
  read_slot : ∀ s, c.reads s → c.slots s
  storageChains : ∃ pos, Chains t.storageHistory t.storageChain c.storage pos
  balanceChains : ∃ pos, Chains t.balanceHistory (t.accountChain (·.balance)) c.balance pos
  nonceChains : ∃ pos, Chains t.nonceHistories (t.accountChain (·.nonce)) c.nonce pos
  codeChains : ∃ pos, Chains t.codeHistories (t.accountChain (·.code)) c.code pos

/-- The row of an account once it is active. -/
def activeAccount (t : BalTable A S) (a : A) : BalAccountState :=
  if (t.accounts a).blockEpoch ≠ t.blockEpoch then ⟨t.blockEpoch, .none, .none, .none, true⟩
  else { t.accounts a with touched := true }

theorem blockEpoch_activeAccount (t : BalTable A S) (a : A) :
    (activeAccount t a).blockEpoch = t.blockEpoch := by
  rw [activeAccount]
  split
  · rfl
  · rename_i heq
    exact not_not.mp heq

/-- Activation leaves the chains of an account as they are in this block. -/
theorem chain_activeAccount (t : BalTable A S) (a : A) {field : BalAccountState → BalChain}
    (hnew : field ⟨t.blockEpoch, .none, .none, .none, true⟩ = .none)
    (htouched : ∀ row : BalAccountState, field { row with touched := true } = field row) :
    field (activeAccount t a) = t.accountChain field a := by
  by_cases heq : (t.accounts a).blockEpoch = t.blockEpoch
  · rw [activeAccount, BalTable.accountChain, if_neg (not_not.mpr heq), if_pos heq, htouched]
  · rw [activeAccount, BalTable.accountChain, if_pos heq, if_neg heq, hnew]

variable [DecidableEq A] [DecidableEq S] {schema : BalSchema A S} {t : BalTable A S}
  {c : BalContent A S}

omit [DecidableEq S] in
/-- Writing the row of one account. -/
theorem accountChain_update (t : BalTable A S) (a : A) (order : List A) {row : BalAccountState}
    {field : BalAccountState → BalChain} (hepoch : row.blockEpoch = t.blockEpoch) :
    BalTable.accountChain
        { t with accounts := Function.update t.accounts a row, accountOrder := order } field =
      Function.update (t.accountChain field) a (field row) := by
  funext a'
  simp only [BalTable.accountChain]
  by_cases heq : a' = a
  · subst heq
    rw [Function.update_self, Function.update_self, if_pos hepoch]
  · rw [Function.update_of_ne heq, Function.update_of_ne heq]
    rfl

omit [DecidableEq A] in
/-- Writing the row of one slot. -/
theorem storageChain_update (t : BalTable A S) (s : S) (order : List S) {row : BalStorageState A}
    (hepoch : row.blockEpoch = t.blockEpoch) :
    BalTable.storageChain
        { t with storage := Function.update t.storage s row, storageOrder := order } =
      Function.update t.storageChain s row.change := by
  funext s'
  simp only [BalTable.storageChain]
  by_cases heq : s' = s
  · subst heq
    rw [Function.update_self, Function.update_self, if_pos hepoch]
  · rw [Function.update_of_ne heq, Function.update_of_ne heq]
    rfl

omit [DecidableEq S] in
theorem balAccountActivate_eq (t : BalTable A S) (a : A) :
    balAccountActivate t a =
      { t with
        accounts := Function.update t.accounts a (activeAccount t a)
        accountOrder :=
          if (t.accounts a).blockEpoch ≠ t.blockEpoch then t.accountOrder ++ [a]
          else t.accountOrder } := by
  rw [balAccountActivate, activeAccount]
  dsimp only
  split
  · rfl
  · rfl

omit [DecidableEq S] in
theorem Records.accountActivate (h : Records schema t c) (a : A) :
    Records schema (balAccountActivate t a)
      { c with accounts := fun a' => c.accounts a' ∨ a' = a } := by
  have hepoch := blockEpoch_activeAccount t a
  have hchain : ∀ field : BalAccountState → BalChain,
      field ⟨t.blockEpoch, .none, .none, .none, true⟩ = .none →
      (∀ row : BalAccountState, field { row with touched := true } = field row) →
      Function.update (t.accountChain field) a (field (activeAccount t a)) =
        t.accountChain field := by
    intro field hnew htouched
    rw [chain_activeAccount t a hnew htouched, Function.update_eq_self]
  have hactive := h.accounts.activate a
  rw [balAccountActivate_eq]
  constructor
  · convert hactive using 1
    funext a'
    rw [← hepoch]
    exact Function.apply_update (fun _ row => row.blockEpoch) t.accounts a _ a'
  · exact h.slots
  · exact h.owner
  · exact fun s hs => Or.inl (h.owner_active s hs)
  · exact h.read
  · exact h.read_slot
  · exact h.storageChains
  · rw [accountChain_update t a _ hepoch, hchain _ rfl fun _ => rfl]
    exact h.balanceChains
  · rw [accountChain_update t a _ hepoch, hchain _ rfl fun _ => rfl]
    exact h.nonceChains
  · rw [accountChain_update t a _ hepoch, hchain _ rfl fun _ => rfl]
    exact h.codeChains

/-- The row of a slot once it is active. -/
def activeSlot (t : BalTable A S) (accountId : A) (s : S) : BalStorageState A :=
  if (t.storage s).blockEpoch ≠ t.blockEpoch then ⟨t.blockEpoch, accountId, .none, false⟩
  else t.storage s

omit [DecidableEq A] in
theorem balStorageActivate_eq (t : BalTable A S) (accountId : A) (s : S) :
    balStorageActivate t accountId s =
      { t with
        storage := Function.update t.storage s (activeSlot t accountId s)
        storageOrder :=
          if (t.storage s).blockEpoch ≠ t.blockEpoch then t.storageOrder ++ [s]
          else t.storageOrder } := by
  rw [balStorageActivate, activeSlot]
  split
  · rfl
  · rw [Function.update_eq_self]

omit [DecidableEq A] in
theorem Records.storageActivate (h : Records schema t c) (s : S)
    (haccount : c.accounts (schema.owner s)) :
    Records schema (balStorageActivate t (schema.owner s) s)
      { c with slots := fun s' => c.slots s' ∨ s' = s } := by
  have hepoch : (activeSlot t (schema.owner s) s).blockEpoch = t.blockEpoch := by
    rw [activeSlot]
    split
    · rfl
    · rename_i heq
      exact not_not.mp heq
  have hchain : (activeSlot t (schema.owner s) s).change = t.storageChain s := by
    by_cases heq : (t.storage s).blockEpoch = t.blockEpoch
    · rw [activeSlot, BalTable.storageChain, if_neg (not_not.mpr heq), if_pos heq]
    · rw [activeSlot, BalTable.storageChain, if_pos heq, if_neg heq]
  have hrow : (activeSlot t (schema.owner s) s).accountId = schema.owner s ∧
      ((activeSlot t (schema.owner s) s).read = true ↔ c.reads s) := by
    by_cases hactive : c.slots s
    · rw [activeSlot, if_neg (not_not.mpr ((h.slots.eq_iff s).mpr hactive))]
      exact ⟨h.owner s hactive, h.read s hactive⟩
    · rw [activeSlot, if_pos fun heq => hactive ((h.slots.eq_iff s).mp heq)]
      exact ⟨rfl, nofun, fun hread => absurd (h.read_slot s hread) hactive⟩
  have hactive := h.slots.activate s
  rw [balStorageActivate_eq]
  constructor
  · exact h.accounts
  · convert hactive using 1
    funext s'
    rw [← hepoch]
    exact Function.apply_update (fun _ row => row.blockEpoch) t.storage s _ s'
  · intro s' hs'
    by_cases heq : s' = s
    · subst heq
      simp only [Function.update_self, hrow.1]
    · simp only [Function.update_of_ne heq]
      exact h.owner s' (hs'.resolve_right heq)
  · rintro s' (hs' | rfl)
    · exact h.owner_active s' hs'
    · exact haccount
  · intro s' hs'
    by_cases heq : s' = s
    · subst heq
      simp only [Function.update_self]
      exact hrow.2
    · simp only [Function.update_of_ne heq]
      exact h.read s' (hs'.resolve_right heq)
  · exact fun s' hs' => Or.inl (h.read_slot s' hs')
  · rw [storageChain_update t s _ hepoch, hchain, Function.update_eq_self]
    exact h.storageChains
  · exact h.balanceChains
  · exact h.nonceChains
  · exact h.codeChains

omit [DecidableEq A] in
/-- One more change of an active slot. -/
theorem Records.storageChange (h : Records schema t c) {s : S} (hs : c.slots s)
    {capacity index : Nat} {value : Word} {rows : List (BalHistoryRow Word)} {chain : BalChain}
    (happ : balAppendHistory t.storageHistory capacity (t.storage s).change index value =
      some (rows, chain)) :
    Records schema
      { t with
        storageHistory := rows
        storage := Function.update t.storage s { t.storage s with change := chain } }
      { c with
        storage := Function.update c.storage s (recordChange (c.storage s) (index, value)) } := by
  have hepoch : (t.storage s).blockEpoch = t.blockEpoch := (h.slots.eq_iff s).mpr hs
  have hchain : t.storageChain s = (t.storage s).change := if_pos hepoch
  have hother : ∀ {β : Type} (field : BalStorageState A → β),
      field { t.storage s with change := chain } = field (t.storage s) → ∀ s',
      field (Function.update t.storage s { t.storage s with change := chain } s') =
        field (t.storage s') := by
    intro β field hfield s'
    by_cases heq : s' = s
    · rw [heq, Function.update_self, hfield]
    · rw [Function.update_of_ne heq]
  obtain ⟨pos, hchains⟩ := h.storageChains
  constructor
  · exact h.accounts
  · convert h.slots using 1
    funext s'
    exact hother (·.blockEpoch) rfl s'
  · intro s' hs'
    rw [← h.owner s' hs']
    exact hother (·.accountId) rfl s'
  · exact h.owner_active
  · intro s' hs'
    rw [← h.read s' hs']
    exact iff_of_eq (congrArg (· = true) (hother (·.read) rfl s'))
  · exact h.read_slot
  · have hupdate : BalTable.storageChain
        { t with
          storageHistory := rows
          storage := Function.update t.storage s { t.storage s with change := chain } } =
        Function.update t.storageChain s chain :=
      storageChain_update { t with storageHistory := rows } s t.storageOrder hepoch
    rw [← hchain] at happ
    rw [hupdate]
    exact hchains.append s happ
  · exact h.balanceChains
  · exact h.nonceChains
  · exact h.codeChains

omit [DecidableEq A] in
/-- An active slot is read. -/
theorem Records.storageRead (h : Records schema t c) {s : S} (hs : c.slots s) :
    Records schema
      { t with storage := Function.update t.storage s { t.storage s with read := true } }
      { c with reads := fun s' => c.reads s' ∨ s' = s } := by
  have hepoch : (t.storage s).blockEpoch = t.blockEpoch := (h.slots.eq_iff s).mpr hs
  have hother : ∀ {β : Type} (field : BalStorageState A → β),
      field { t.storage s with read := true } = field (t.storage s) → ∀ s',
      field (Function.update t.storage s { t.storage s with read := true } s') =
        field (t.storage s') := by
    intro β field hfield s'
    by_cases heq : s' = s
    · rw [heq, Function.update_self, hfield]
    · rw [Function.update_of_ne heq]
  constructor
  · exact h.accounts
  · convert h.slots using 1
    funext s'
    exact hother (·.blockEpoch) rfl s'
  · intro s' hs'
    rw [← h.owner s' hs']
    exact hother (·.accountId) rfl s'
  · exact h.owner_active
  · intro s' hs'
    by_cases heq : s' = s
    · subst heq
      simp
    · simp only [Function.update_of_ne heq, heq, or_false]
      exact h.read s' hs'
  · rintro s' (hs' | rfl)
    · exact h.read_slot s' hs'
    · exact hs
  · have hupdate : BalTable.storageChain
        { t with storage := Function.update t.storage s { t.storage s with read := true } } =
        Function.update t.storageChain s (t.storage s).change :=
      storageChain_update t s t.storageOrder hepoch
    have hchain : t.storageChain s = (t.storage s).change := if_pos hepoch
    rw [hupdate, ← hchain, Function.update_eq_self]
    exact h.storageChains
  · exact h.balanceChains
  · exact h.nonceChains
  · exact h.codeChains

omit [DecidableEq S] in
/-- Writing the row of an active account. -/
theorem Records.accountRow (h : Records schema t c) {a : A} (ha : c.accounts a)
    (row : BalAccountState) (hrow : row.blockEpoch = (t.accounts a).blockEpoch) :
    Activated (fun a' => (Function.update t.accounts a row a').blockEpoch) t.blockEpoch
        t.accountOrder c.accounts ∧
      (∀ field : BalAccountState → BalChain, t.accountChain field a = field (t.accounts a)) ∧
      (∀ balance nonce code (field : BalAccountState → BalChain),
        BalTable.accountChain
            { t with
              balanceHistory := balance
              nonceHistories := nonce
              codeHistories := code
              accounts := Function.update t.accounts a row } field =
          Function.update (t.accountChain field) a (field row)) ∧
      ∀ balance nonce code (field : BalAccountState → BalChain), field row = field (t.accounts a) →
        BalTable.accountChain
            { t with
              balanceHistory := balance
              nonceHistories := nonce
              codeHistories := code
              accounts := Function.update t.accounts a row } field =
          t.accountChain field := by
  have hepoch : (t.accounts a).blockEpoch = t.blockEpoch := (h.accounts.eq_iff a).mpr ha
  have hself : ∀ field : BalAccountState → BalChain,
      t.accountChain field a = field (t.accounts a) := fun field => if_pos hepoch
  have hchain : ∀ field : BalAccountState → BalChain,
      BalTable.accountChain { t with accounts := Function.update t.accounts a row } field =
        Function.update (t.accountChain field) a (field row) :=
    fun field => accountChain_update t a t.accountOrder (hrow.trans hepoch)
  refine ⟨?_, hself, fun _ _ _ field => hchain field, fun _ _ _ field hfield => ?_⟩
  · convert h.accounts using 1
    funext a'
    by_cases heq : a' = a
    · rw [heq, Function.update_self, hrow]
    · rw [Function.update_of_ne heq]
  · refine (hchain field).trans ?_
    rw [hfield, ← hself field, Function.update_eq_self]

/-! The changes of an active account. -/

omit [DecidableEq S] in
theorem Records.balanceChange (h : Records schema t c) {a : A} (ha : c.accounts a)
    {capacity index : Nat} {value : Word} {rows : List (BalHistoryRow Word)} {chain : BalChain}
    (happ : balAppendHistory t.balanceHistory capacity (t.accounts a).balance index value =
      some (rows, chain)) :
    Records schema
      { t with
        balanceHistory := rows
        accounts := Function.update t.accounts a { t.accounts a with balance := chain } }
      { c with
        balance := Function.update c.balance a (recordChange (c.balance a) (index, value)) } := by
  obtain ⟨hactivated, hself, hchain, hother⟩ :=
    h.accountRow ha { t.accounts a with balance := chain } rfl
  obtain ⟨pos, hchains⟩ := h.balanceChains
  have hhead : t.accountChain (·.balance) a = (t.accounts a).balance := hself _
  rw [← hhead] at happ
  refine ⟨hactivated, h.slots, h.owner, h.owner_active, h.read, h.read_slot, h.storageChains, ?_,
    ?_, ?_⟩
  · rw [hchain]
    exact hchains.append a happ
  · rw [hother _ _ _ _ rfl]
    exact h.nonceChains
  · rw [hother _ _ _ _ rfl]
    exact h.codeChains

omit [DecidableEq S] in
theorem Records.nonceChange (h : Records schema t c) {a : A} (ha : c.accounts a)
    {capacity index : Nat} {value : Nat} {rows : List (BalHistoryRow Nat)} {chain : BalChain}
    (happ : balAppendHistory t.nonceHistories capacity (t.accounts a).nonce index value =
      some (rows, chain)) :
    Records schema
      { t with
        nonceHistories := rows
        accounts := Function.update t.accounts a { t.accounts a with nonce := chain } }
      { c with
        nonce := Function.update c.nonce a (recordChange (c.nonce a) (index, value)) } := by
  obtain ⟨hactivated, hself, hchain, hother⟩ :=
    h.accountRow ha { t.accounts a with nonce := chain } rfl
  obtain ⟨pos, hchains⟩ := h.nonceChains
  have hhead : t.accountChain (·.nonce) a = (t.accounts a).nonce := hself _
  rw [← hhead] at happ
  refine ⟨hactivated, h.slots, h.owner, h.owner_active, h.read, h.read_slot, h.storageChains, ?_,
    ?_, ?_⟩
  · rw [hother _ _ _ _ rfl]
    exact h.balanceChains
  · rw [hchain]
    exact hchains.append a happ
  · rw [hother _ _ _ _ rfl]
    exact h.codeChains

omit [DecidableEq S] in
theorem Records.codeChange (h : Records schema t c) {a : A} (ha : c.accounts a)
    {capacity index : Nat} {value : Hash} {rows : List (BalHistoryRow Hash)} {chain : BalChain}
    (happ : balAppendHistory t.codeHistories capacity (t.accounts a).code index value =
      some (rows, chain)) :
    Records schema
      { t with
        codeHistories := rows
        accounts := Function.update t.accounts a { t.accounts a with code := chain } }
      { c with
        code := Function.update c.code a (recordChange (c.code a) (index, value)) } := by
  obtain ⟨hactivated, hself, hchain, hother⟩ :=
    h.accountRow ha { t.accounts a with code := chain } rfl
  obtain ⟨pos, hchains⟩ := h.codeChains
  have hhead : t.accountChain (·.code) a = (t.accounts a).code := hself _
  rw [← hhead] at happ
  refine ⟨hactivated, h.slots, h.owner, h.owner_active, h.read, h.read_slot, h.storageChains, ?_,
    ?_, ?_⟩
  · rw [hother _ _ _ _ rfl]
    exact h.balanceChains
  · rw [hother _ _ _ _ rfl]
    exact h.nonceChains
  · rw [hchain]
    exact hchains.append a happ

/-! ## Runs -/

/-- What some notes have recorded. -/
def contentOf (schema : BalSchema A S) (notes : List (BalNote A S)) : BalContent A S where
  accounts a := ∃ n ∈ notes, n.account schema = a
  slots s := ∃ n ∈ notes, n.storage = some s
  reads s := .storageTouch s ∈ notes
  storage := storageChanges notes
  balance := balanceChanges notes
  nonce := nonceChanges notes
  code := codeChanges notes

theorem lastChanges_concat {α : Type} {β : Type} (f : β → Option (Nat × α)) (notes : List β)
    (n : β) :
    lastChanges ((notes ++ [n]).filterMap f) =
      match f n with
      | none => lastChanges (notes.filterMap f)
      | some change => recordChange (lastChanges (notes.filterMap f)) change := by
  rw [List.filterMap_append, lastChanges, List.foldl_append]
  cases hf : f n with
  | none => simp [hf, lastChanges]
  | some change => simp [hf, lastChanges]

/-- One more note. -/
def BalContent.note (schema : BalSchema A S) (c : BalContent A S) : BalNote A S → BalContent A S
  | .accountTouch a => { c with accounts := fun a' => c.accounts a' ∨ a' = a }
  | .storageTouch s =>
    { c with
      accounts := fun a' => c.accounts a' ∨ a' = schema.owner s
      slots := fun s' => c.slots s' ∨ s' = s
      reads := fun s' => c.reads s' ∨ s' = s }
  | .storageChange e s value =>
    { c with
      accounts := fun a' => c.accounts a' ∨ a' = schema.owner s
      slots := fun s' => c.slots s' ∨ s' = s
      storage := Function.update c.storage s (recordChange (c.storage s) (e, value)) }
  | .balanceChange e a value =>
    { c with
      accounts := fun a' => c.accounts a' ∨ a' = a
      balance := Function.update c.balance a (recordChange (c.balance a) (e, value)) }
  | .nonceChange e a value =>
    { c with
      accounts := fun a' => c.accounts a' ∨ a' = a
      nonce := Function.update c.nonce a (recordChange (c.nonce a) (e, value)) }
  | .codeChange e a value =>
    { c with
      accounts := fun a' => c.accounts a' ∨ a' = a
      code := Function.update c.code a (recordChange (c.code a) (e, value)) }

/-- The changes of one account or slot after one more note. -/
theorem changes_concat {α β κ : Type} [DecidableEq κ] {f : κ → β → Option (Nat × α)}
    (notes : List β) {n : β} {k : κ} {change : Nat × α}
    (hn : ∀ k', f k' n = if k = k' then some change else none) :
    (fun k' => lastChanges ((notes ++ [n]).filterMap (f k'))) =
      Function.update (fun k' => lastChanges (notes.filterMap (f k'))) k
        (recordChange (lastChanges (notes.filterMap (f k))) change) := by
  funext k'
  rw [lastChanges_concat, hn]
  by_cases heq : k' = k
  · subst heq
    rw [if_pos rfl, Function.update_self]
  · rw [if_neg (Ne.symm heq), Function.update_of_ne heq]

theorem changes_concat_none {α β κ : Type} {f : κ → β → Option (Nat × α)} (notes : List β) {n : β}
    (hn : ∀ k, f k n = none) :
    (fun k => lastChanges ((notes ++ [n]).filterMap (f k))) =
      fun k => lastChanges (notes.filterMap (f k)) := by
  funext k
  rw [lastChanges_concat, hn]

theorem contentOf_concat (schema : BalSchema A S) (notes : List (BalNote A S)) (n : BalNote A S) :
    contentOf schema (notes ++ [n]) = (contentOf schema notes).note schema n := by
  have haccounts : ∀ a, (∃ m ∈ notes ++ [n], m.account schema = a) ↔
      (∃ m ∈ notes, m.account schema = a) ∨ a = n.account schema := by
    intro a
    simp [or_and_right, exists_or, eq_comm]
  have hslots : ∀ s, (∃ m ∈ notes ++ [n], m.storage = some s) ↔
      (∃ m ∈ notes, m.storage = some s) ∨ n.storage = some s := by
    intro s
    simp [or_and_right, exists_or]
  have hreads : ∀ s, .storageTouch s ∈ notes ++ [n] ↔
      .storageTouch s ∈ notes ∨ n = .storageTouch s := by
    intro s
    simp [eq_comm]
  have hnoSlot : n.storage = none → (contentOf schema (notes ++ [n])).slots =
      (contentOf schema notes).slots := by
    intro hnone
    funext s
    refine propext ((hslots s).trans (or_iff_left ?_))
    rw [hnone]
    nofun
  have hslot : ∀ s, n.storage = some s → (contentOf schema (notes ++ [n])).slots =
      fun s' => (contentOf schema notes).slots s' ∨ s' = s := by
    intro s hs
    funext s'
    refine propext ((hslots s').trans (or_congr_right ?_))
    rw [hs, Option.some_inj, eq_comm]
  have hnoRead : (∀ s, n ≠ .storageTouch s) → (contentOf schema (notes ++ [n])).reads =
      (contentOf schema notes).reads :=
    fun hne => funext fun s => propext ((hreads s).trans (or_iff_left (hne s)))
  have haccount : (contentOf schema (notes ++ [n])).accounts =
      fun a => (contentOf schema notes).accounts a ∨ a = n.account schema :=
    funext fun a => propext (haccounts a)
  cases n with
  | accountTouch a =>
    exact BalContent.ext haccount (hnoSlot rfl) (hnoRead nofun)
      (changes_concat_none notes fun _ => rfl) (changes_concat_none notes fun _ => rfl)
      (changes_concat_none notes fun _ => rfl) (changes_concat_none notes fun _ => rfl)
  | storageTouch s =>
    refine BalContent.ext haccount (hslot s rfl) ?_
      (changes_concat_none notes fun _ => rfl) (changes_concat_none notes fun _ => rfl)
      (changes_concat_none notes fun _ => rfl) (changes_concat_none notes fun _ => rfl)
    funext s'
    refine propext ((hreads s').trans (or_congr_right ?_))
    rw [BalNote.storageTouch.injEq, eq_comm]
  | storageChange e s value =>
    exact BalContent.ext haccount (hslot s rfl) (hnoRead nofun)
      (changes_concat notes fun _ => rfl) (changes_concat_none notes fun _ => rfl)
      (changes_concat_none notes fun _ => rfl) (changes_concat_none notes fun _ => rfl)
  | balanceChange e a value =>
    exact BalContent.ext haccount (hnoSlot rfl) (hnoRead nofun)
      (changes_concat_none notes fun _ => rfl) (changes_concat notes fun _ => rfl)
      (changes_concat_none notes fun _ => rfl) (changes_concat_none notes fun _ => rfl)
  | nonceChange e a nonce =>
    exact BalContent.ext haccount (hnoSlot rfl) (hnoRead nofun)
      (changes_concat_none notes fun _ => rfl) (changes_concat_none notes fun _ => rfl)
      (changes_concat notes fun _ => rfl) (changes_concat_none notes fun _ => rfl)
  | codeChange e a codeHash =>
    exact BalContent.ext haccount (hnoSlot rfl) (hnoRead nofun)
      (changes_concat_none notes fun _ => rfl) (changes_concat_none notes fun _ => rfl)
      (changes_concat_none notes fun _ => rfl) (changes_concat notes fun _ => rfl)

/-- A note is recorded. -/
theorem Records.note {t' : BalTable A S} {n : BalNote A S} (h : Records schema t c)
    (hepoch : ∀ e, n.epoch = some e → e < 2 ^ 32) (hn : balNote schema t n = some t') :
    Records schema t' (c.note schema n) := by
  cases n with
  | accountTouch a =>
    cases hn
    exact h.accountActivate a
  | storageTouch s =>
    cases hn
    exact ((h.accountActivate (schema.owner s)).storageActivate s (Or.inr rfl)).storageRead
      (Or.inr rfl)
  | storageChange e s value =>
    have hactive := (h.accountActivate (schema.owner s)).storageActivate s (Or.inr rfl)
    rw [balNote, balNoteStorageChange, Nat.mod_eq_of_lt (hepoch e rfl)] at hn
    obtain ⟨⟨rows, chain⟩, happ, hn⟩ := Option.bind_eq_some_iff.mp hn
    cases hn
    exact hactive.storageChange (Or.inr rfl) happ
  | balanceChange e a value =>
    rw [balNote, balNoteBalanceChange, Nat.mod_eq_of_lt (hepoch e rfl)] at hn
    obtain ⟨⟨rows, chain⟩, happ, hn⟩ := Option.bind_eq_some_iff.mp hn
    cases hn
    exact (h.accountActivate a).balanceChange (Or.inr rfl) happ
  | nonceChange e a nonce =>
    rw [balNote, balNoteNonceChange, Nat.mod_eq_of_lt (hepoch e rfl)] at hn
    obtain ⟨⟨rows, chain⟩, happ, hn⟩ := Option.bind_eq_some_iff.mp hn
    cases hn
    exact (h.accountActivate a).nonceChange (Or.inr rfl) happ
  | codeChange e a codeHash =>
    rw [balNote, balNoteCodeChange, Nat.mod_eq_of_lt (hepoch e rfl)] at hn
    obtain ⟨⟨rows, chain⟩, happ, hn⟩ := Option.bind_eq_some_iff.mp hn
    cases hn
    exact (h.accountActivate a).codeChange (Or.inr rfl) happ

omit [DecidableEq A] [DecidableEq S] in
theorem activated_nil {κ : Type} {epoch : κ → Nat} {blockEpoch : Nat} {active : κ → Prop}
    (hle : ∀ k, epoch k < blockEpoch) (hnone : ∀ k, ¬ active k) :
    Activated epoch blockEpoch [] active :=
  ⟨fun k => (hle k).le, fun k => iff_of_false (hle k).ne (hnone k), List.nodup_nil,
    fun k => iff_of_false List.not_mem_nil (hnone k)⟩

/-- A table with no row of its epoch has recorded nothing. -/
theorem Records.fresh (haccount : ∀ a, (t.accounts a).blockEpoch < t.blockEpoch)
    (hstorage : ∀ s, (t.storage s).blockEpoch < t.blockEpoch) (hs : t.storageHistory = [])
    (hb : t.balanceHistory = []) (hn : t.nonceHistories = []) (hc : t.codeHistories = [])
    (haccounts : t.accountOrder = []) (hslots : t.storageOrder = []) :
    Records schema t (contentOf schema []) := by
  have hnone : ∀ field, t.accountChain field = fun _ => .none :=
    fun field => funext fun a => if_neg (haccount a).ne
  have hnoSlot : t.storageChain = fun _ => .none := funext fun s => if_neg (hstorage s).ne
  refine ⟨?_, ?_, by simp [contentOf], by simp [contentOf], by simp [contentOf],
    by simp [contentOf], ⟨fun _ => [], ?_⟩, ⟨fun _ => [], ?_⟩, ⟨fun _ => [], ?_⟩,
    ⟨fun _ => [], ?_⟩⟩
  · rw [haccounts]
    exact activated_nil haccount (by simp [contentOf])
  · rw [hslots]
    exact activated_nil hstorage (by simp [contentOf])
  · rw [hnoSlot, hs]
    exact chains_nil fun _ => rfl
  · rw [hnone, hb]
    exact chains_nil fun _ => rfl
  · rw [hnone, hn]
    exact chains_nil fun _ => rfl
  · rw [hnone, hc]
    exact chains_nil fun _ => rfl

theorem Records.reset {t' : BalTable A S} (haccount : ∀ a, (t.accounts a).blockEpoch ≤ t.blockEpoch)
    (hstorage : ∀ s, (t.storage s).blockEpoch ≤ t.blockEpoch) (hreset : balReset t = some t') :
    Records schema t' (contentOf schema []) := by
  rw [balReset] at hreset
  split at hreset
  · cases hreset
  · rw [← Option.some.inj hreset]
    exact .fresh (fun a => Nat.lt_succ_of_le (haccount a)) (fun s => Nat.lt_succ_of_le (hstorage s))
      rfl rfl rfl rfl rfl rfl

end

end EvmSail.Optimised
