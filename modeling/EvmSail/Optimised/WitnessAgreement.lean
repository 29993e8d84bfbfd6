/-
# `EvmSail.Optimised.WitnessAgreement` — reads and the specification

Reads decode rows, link children and fill the memo of the index; none of it
changes what a later read answers (`ReadRun.readable`).  So a read after any
others agrees with a lookup of the specification in the node database of the
table, followed by its decoder of the leaf value (`witnessReads_agree`): where
both return they return the same, and they return alike where the nodes on the
path and the record are framed as both decoders ask.
-/
import EvmSail.Optimised.WitnessLookup
import EvmSail.Optimised.WitnessRecords

namespace EvmSail.Optimised

open Fallible Kernel

/-! ## Runs of reads -/

/-- The tables that reads lead to. -/
inductive ReadRun (keccak256 : List Byte → Hash) (inputs : List (List Byte))
    (start : WitnessNodeTable) : WitnessNodeTable → Prop
  | begin : TableRun keccak256 inputs start → ReadRun keccak256 inputs start start
  | account {table table' : WitnessNodeTable} {root addressHash : Hash} {read : AccountRead} :
      ReadRun keccak256 inputs start table →
      statelessAccountRead table root addressHash = .ok (read, table') →
      ReadRun keccak256 inputs start table'
  | bindStorage {table : WitnessNodeTable} (root : Hash) : ReadRun keccak256 inputs start table →
      ReadRun keccak256 inputs start (mptBindStorageRootIdentity table root).2
  | storage {table table' : WitnessNodeTable} {root slotHash : Hash} {read : StorageRead} :
      ReadRun keccak256 inputs start table →
      statelessStorageRead table (mptBindStorageRootIdentity start root).1 slotHash =
        .ok (read, table') →
      ReadRun keccak256 inputs start table'

/-- The node database of the specification: the span the index has for a digest. -/
def nodedbLookup (table : WitnessNodeTable) (digest : Hash) : StatelessInputSlice :=
  (mptNodeIndexSpan table digest).1.getD []

section

variable {keccak256 : List Byte → Hash} {inputs : List (List Byte)}
  {data : NodeId → Option (List Byte)} {index : Hash → Option NodeId} {table : WitnessNodeTable}

theorem Readable.nodedbLookup_eq (h : Readable keccak256 inputs data index table) :
    nodedbLookup table = witnessDb data index := by
  funext digest
  obtain ⟨hanswer, hnext⟩ := h.lookup digest
  rw [nodedbLookup, mptNodeIndexSpan, witnessDb]
  generalize mptNodeIndexLookup table digest = answer at hanswer hnext
  obtain ⟨answer, table'⟩ := answer
  subst hanswer
  dsimp only at hnext ⊢
  cases hindex : index digest with
  | none => rfl
  | some nodeId =>
    obtain ⟨e, he⟩ := hnext.indexed_row hindex
    rcases hnext.row nodeId with ⟨row, hrow, hdata, _⟩ | ⟨hnone, _⟩
    · rw [Option.bind_some, Option.bind_some, hrow, hdata, Option.map_some]
    · rw [hnone] at he
      cases he

/-! ## Accounts -/

/-- The account of a leaf value, by the optimised decoder. -/
def leafAccount (value : List Byte) : Result (Option AccountInfo) :=
  if value.length = 0 then .ok none else mptDecodeAccountValue value

theorem Readable.accountRead (h : Readable keccak256 inputs data index table)
    {root addressHash : Hash} {read : AccountRead} {table' : WitnessNodeTable}
    (hread : statelessAccountRead table root addressHash = .ok (read, table')) :
    Readable keccak256 inputs data index table' ∧
      (∃ value, trieLookup (witnessDb data index) root (keyPath addressHash) = .ok value ∧
        (∀ node, OnPath (witnessDb data index) root addressHash node → WellFormed node) ∧
        leafAccount value = .ok read.info) ∧
      ∀ info, read.info = some info →
        read.storageRootNode = boundRoot index info.storageRoot := by
  have hfinds := mptPointLookup_spec h root addressHash
  rw [statelessAccountRead] at hread
  obtain ⟨⟨lookup, table₁⟩, hlookup, hread⟩ := bind_eq_ok.mp hread
  rw [hlookup] at hfinds
  obtain ⟨hvalue, hpath, hnext⟩ := hfinds
  dsimp only at hread
  split at hread
  · rename_i hzero
    cases hread
    exact ⟨hnext, ⟨_, hvalue, hpath, if_pos hzero⟩, nofun⟩
  · rename_i hne
    obtain ⟨info, hinfo, hread⟩ := bind_eq_ok.mp hread
    cases info with
    | none =>
      cases hread
      exact ⟨hnext, ⟨_, hvalue, hpath, (if_neg hne).trans hinfo⟩, nofun⟩
    | some info =>
      obtain ⟨hbound, hbind⟩ := hnext.bindStorageRoot info.storageRoot
      cases hread
      refine ⟨hbind, ⟨_, hvalue, hpath, (if_neg hne).trans hinfo⟩, fun info' hinfo' => ?_⟩
      cases hinfo'
      exact hbound

theorem Readable.exists_accountRead (h : Readable keccak256 inputs data index table)
    {root addressHash : Hash} {value : List Byte} {info : Option AccountInfo}
    (hvalue : trieLookup (witnessDb data index) root (keyPath addressHash) = .ok value)
    (hpath : ∀ node, OnPath (witnessDb data index) root addressHash node → WellFormed node)
    (hinfo : leafAccount value = .ok info) :
    ∃ read table', statelessAccountRead table root addressHash = .ok (read, table') ∧
      read.info = info := by
  have hfinds := mptPointLookup_spec h root addressHash
  rw [statelessAccountRead]
  cases hlookup : mptPointLookup table root addressHash with
  | error e =>
    rw [hlookup] at hfinds
    obtain ⟨node, hnode, hwf⟩ := hfinds value hvalue
    exact absurd (hpath node hnode) hwf
  | ok answer =>
    obtain ⟨lookup, table₁⟩ := answer
    rw [hlookup] at hfinds
    have hsame := hfinds.1
    rw [hvalue] at hsame
    cases hsame
    rw [ok_bind]
    dsimp only
    rw [leafAccount] at hinfo
    split at hinfo
    · rename_i hzero
      rw [if_pos hzero]
      cases hinfo
      exact ⟨_, _, rfl, rfl⟩
    · rename_i hne
      rw [if_neg hne, hinfo, ok_bind]
      cases info with
      | none => exact ⟨_, _, rfl, rfl⟩
      | some info => exact ⟨_, _, rfl, rfl⟩

/-! ## Slots -/

/-- The word of a leaf value, by the optimised decoder. -/
def leafSlot (value : List Byte) : Result Word :=
  if value.length = 0 then .ok 0
  else
    match mptRlpPop value with
    | none => fatalError .rlpDecode
    | some (item, cursor) =>
      if cursor.length ≠ 0 then fatalError .rlpDecode else mptDecodeWordItem item

theorem leafSlot_eq_ok {value : List Byte} (hne : value.length ≠ 0) {w : Word} :
    leafSlot value = .ok w ↔
      ∃ f, rlpSingleRef value = .ok f ∧ mptDecodeWordItem (rlpItemOf f) = .ok w := by
  rw [leafSlot, if_neg hne]
  constructor
  · intro h
    split at h
    · cases h
    rename_i item cursor hpop
    split at h
    · cases h
    rename_i hend
    rw [List.eq_nil_of_length_eq_zero (not_not.mp hend)] at hpop
    obtain ⟨f, hf, rfl⟩ := mptRlpPop_whole.mp hpop
    exact ⟨f, hf, h⟩
  · rintro ⟨f, hf, h⟩
    rw [mptRlpPop_whole.mpr ⟨f, hf, rfl⟩]
    exact (if_neg (not_not.mpr List.length_nil)).trans h

theorem statelessStorageRead_eq (table : WitnessNodeTable) (rootNode : NodeId) (slotHash : Hash) :
    statelessStorageRead table rootNode slotHash =
      mptPointLookupNode table rootNode slotHash >>= fun answer =>
        leafSlot answer.1.value >>= fun value =>
          .ok (⟨value, answer.1.value.length ≠ 0, answer.1.terminalNode⟩, answer.2) := by
  rw [statelessStorageRead]
  refine congrArg _ (funext fun answer => ?_)
  obtain ⟨lookup, table'⟩ := answer
  dsimp only
  rw [leafSlot]
  by_cases hzero : lookup.value.length = 0
  · rw [if_pos hzero, if_pos hzero, ok_bind, decide_eq_false (not_not.mpr hzero)]
  · rw [if_neg hzero, if_neg hzero, decide_eq_true hzero]
    cases mptRlpPop lookup.value with
    | none => rfl
    | some popped =>
      obtain ⟨item, cursor⟩ := popped
      dsimp only
      split <;> rfl

theorem Readable.storageRead (h : Readable keccak256 inputs data index table)
    {root slotHash : Hash} {read : StorageRead} {table' : WitnessNodeTable}
    (hread : statelessStorageRead table (boundRoot index root) slotHash = .ok (read, table')) :
    Readable keccak256 inputs data index table' ∧
      ∃ value, trieLookup (witnessDb data index) root (keyPath slotHash) = .ok value ∧
        (∀ node, OnPath (witnessDb data index) root slotHash node → WellFormed node) ∧
        leafSlot value = .ok read.value := by
  have hfinds := mptPointLookupNode_spec h root slotHash
  rw [statelessStorageRead_eq] at hread
  obtain ⟨⟨lookup, table₁⟩, hlookup, hread⟩ := bind_eq_ok.mp hread
  obtain ⟨w, hw, hread⟩ := bind_eq_ok.mp hread
  rw [hlookup] at hfinds
  cases hread
  exact ⟨hfinds.2.2, _, hfinds.1, hfinds.2.1, hw⟩

theorem Readable.exists_storageRead (h : Readable keccak256 inputs data index table)
    {root slotHash : Hash} {value : List Byte} {w : Word}
    (hvalue : trieLookup (witnessDb data index) root (keyPath slotHash) = .ok value)
    (hpath : ∀ node, OnPath (witnessDb data index) root slotHash node → WellFormed node)
    (hw : leafSlot value = .ok w) :
    ∃ read table', statelessStorageRead table (boundRoot index root) slotHash =
      .ok (read, table') ∧ read.value = w := by
  have hfinds := mptPointLookupNode_spec h root slotHash
  rw [statelessStorageRead_eq]
  cases hlookup : mptPointLookupNode table (boundRoot index root) slotHash with
  | error e =>
    rw [hlookup] at hfinds
    obtain ⟨node, hnode, hwf⟩ := hfinds value hvalue
    exact absurd (hpath node hnode) hwf
  | ok answer =>
    rw [hlookup] at hfinds
    have hsame := hfinds.1
    rw [hvalue] at hsame
    cases hsame
    rw [ok_bind, hw, ok_bind]
    exact ⟨_, _, rfl, rfl⟩

theorem ReadRun.start {start : WitnessNodeTable} (h : ReadRun keccak256 inputs start table) :
    TableRun keccak256 inputs start := by
  induction h with
  | begin h => exact h
  | account _ _ ih => exact ih
  | bindStorage _ _ ih => exact ih
  | storage _ _ ih => exact ih

/-- Every table of a run is read as the first one is. -/
theorem ReadRun.readable {start : WitnessNodeTable} (h : ReadRun keccak256 inputs start table) :
    Readable keccak256 inputs (rowData (start.nodes.getD [])) (indexed start) table := by
  induction h with
  | begin h => exact h.readable
  | account _ hread ih => exact (ih.accountRead hread).1
  | bindStorage root _ ih => exact (ih.bindStorageRoot root).2
  | storage hrun hread ih =>
    rw [(hrun.start.readable.bindStorageRoot _).1] at hread
    exact (ih.storageRead hread).1

end

/-! ## Agreement -/

/-- The one string of a slot value is framed in the shortest way. -/
def SlotFramed (value : List Byte) : Prop :=
  ∀ f, rlpSingleRef value = .ok f → rlpRefFramingCanonical f = true

/-- Reads from `table` and the specification on the node database of `start`. -/
structure ReadsAgree (start table : WitnessNodeTable) : Prop where
  lookup_iff : ∀ root key value,
    (∃ lookup table', mptPointLookup table root key = .ok (lookup, table') ∧
        lookup.value = value) ↔
      trieLookup (nodedbLookup start) root (keyPath key) = .ok value ∧
        ∀ node, OnPath (nodedbLookup start) root key node → WellFormed node
  account_eq : ∀ {root addressHash read table' account},
    statelessAccountRead table root addressHash = .ok (read, table') →
    statelessAccountByKey (nodedbLookup start) root addressHash = .ok account →
    read.account = account
  account_iff : ∀ {root addressHash},
    (∀ node, OnPath (nodedbLookup start) root addressHash node → WellFormed node) →
    (∀ value, trieLookup (nodedbLookup start) root (keyPath addressHash) = .ok value →
      value.length ≠ 0 → AccountFramed value) → ∀ account,
    (∃ read table', statelessAccountRead table root addressHash = .ok (read, table') ∧
        read.account = account) ↔
      statelessAccountByKey (nodedbLookup start) root addressHash = .ok account
  account_rejected : ∀ {root addressHash value},
    trieLookup (nodedbLookup start) root (keyPath addressHash) = .ok value → value.length ≠ 0 →
    MalformedRecord value → ∀ answer, statelessAccountRead table root addressHash ≠ .ok answer
  account_root : ∀ {root addressHash read table' info},
    statelessAccountRead table root addressHash = .ok (read, table') → read.info = some info →
    read.storageRootNode = (mptBindStorageRootIdentity start info.storageRoot).1
  slot_eq : ∀ {root slotHash read table' value},
    statelessStorageRead table (mptBindStorageRootIdentity start root).1 slotHash =
      .ok (read, table') →
    statelessStorageByKey (nodedbLookup start) root slotHash = .ok value → read.value = value
  slot_iff : ∀ {root slotHash},
    (∀ node, OnPath (nodedbLookup start) root slotHash node → WellFormed node) →
    (∀ value, trieLookup (nodedbLookup start) root (keyPath slotHash) = .ok value →
      value.length ≠ 0 → SlotFramed value) → ∀ word,
    (∃ read table', statelessStorageRead table (mptBindStorageRootIdentity start root).1
        slotHash = .ok (read, table') ∧ read.value = word) ↔
      statelessStorageByKey (nodedbLookup start) root slotHash = .ok word

section

variable {db : Hash → StatelessInputSlice} {value : List Byte}

/-- The account of the specification at a leaf value. -/
theorem statelessAccountByKey_eq_ok {root addressHash : Hash} {account : Account} :
    statelessAccountByKey db root addressHash = .ok account ↔
      ∃ value, trieLookup db root (keyPath addressHash) = .ok value ∧
        (value.length = 0 ∧ account = emptyAccount ∨ value.length ≠ 0 ∧
          ∃ info, decodeStateAccount value = .ok info ∧ account = accountFromInfo info) := by
  rw [statelessAccountByKey, bind_eq_ok]
  refine exists_congr fun value => and_congr_right fun _ => ?_
  by_cases hzero : value.length = 0
  · rw [if_pos hzero, Except.ok.injEq, eq_comm]
    exact ⟨fun h => Or.inl ⟨hzero, h⟩, fun h => (h.resolve_right fun hne => hne.1 hzero).2⟩
  · rw [if_neg hzero, bind_eq_ok]
    constructor
    · rintro ⟨info, hinfo, h⟩
      exact Or.inr ⟨hzero, info, hinfo, (Except.ok.inj h).symm⟩
    · rintro (⟨h, _⟩ | ⟨_, info, hinfo, rfl⟩)
      · exact absurd h hzero
      · exact ⟨info, hinfo, rfl⟩

theorem statelessStorageByKey_eq_ok {root slotHash : Hash} {word : Word} :
    statelessStorageByKey db root slotHash = .ok word ↔
      ∃ value, trieLookup db root (keyPath slotHash) = .ok value ∧
        (value.length = 0 ∧ word = 0 ∨ value.length ≠ 0 ∧
          ∃ f, rlpSingleRef value = .ok f ∧ rlpDecodeU256 f = .ok word) := by
  rw [statelessStorageByKey, bind_eq_ok]
  refine exists_congr fun value => and_congr_right fun _ => ?_
  by_cases hzero : value.length = 0
  · rw [if_pos hzero, Except.ok.injEq, eq_comm]
    exact ⟨fun h => Or.inl ⟨hzero, h⟩, fun h => (h.resolve_right fun hne => hne.1 hzero).2⟩
  · rw [if_neg hzero, bind_eq_ok]
    constructor
    · exact fun h => Or.inr ⟨hzero, h⟩
    · exact fun h => (h.resolve_left fun hnil => hzero hnil.1).2

/-- The account of a read that found `info`. -/
theorem AccountRead.account_of_some {read : AccountRead} {info : AccountInfo}
    (h : read.info = some info) : read.account = accountFromInfo info := by
  rw [AccountRead.account, h]
  rfl

theorem AccountRead.account_of_none {read : AccountRead} (h : read.info = none) :
    read.account = emptyAccount := by
  rw [AccountRead.account, h]

end

section

variable {keccak256 : List Byte → Hash} {inputs : List (List Byte)}
  {data : NodeId → Option (List Byte)} {index : Hash → Option NodeId} {table : WitnessNodeTable}

theorem Readable.lookup_iff (h : Readable keccak256 inputs data index table) (root key : Hash)
    (value : List Byte) :
    (∃ lookup table', mptPointLookup table root key = .ok (lookup, table') ∧
        lookup.value = value) ↔
      trieLookup (witnessDb data index) root (keyPath key) = .ok value ∧
        ∀ node, OnPath (witnessDb data index) root key node → WellFormed node := by
  have hfinds := mptPointLookup_spec h root key
  constructor
  · rintro ⟨lookup, table', hlookup, rfl⟩
    rw [hlookup] at hfinds
    exact ⟨hfinds.1, hfinds.2.1⟩
  · rintro ⟨hvalue, hpath⟩
    cases hlookup : mptPointLookup table root key with
    | error e =>
      rw [hlookup] at hfinds
      obtain ⟨node, hnode, hwf⟩ := hfinds value hvalue
      exact absurd (hpath node hnode) hwf
    | ok answer =>
      rw [hlookup] at hfinds
      have hsame := hfinds.1
      rw [hvalue] at hsame
      exact ⟨answer.1, answer.2, rfl, (Except.ok.inj hsame).symm⟩

/-- An account read, and the account of the specification. -/
theorem Readable.account_eq (h : Readable keccak256 inputs data index table)
    {root addressHash : Hash} {read : AccountRead} {table' : WitnessNodeTable} {account : Account}
    (hread : statelessAccountRead table root addressHash = .ok (read, table'))
    (haccount : statelessAccountByKey (witnessDb data index) root addressHash = .ok account) :
    read.account = account := by
  obtain ⟨_, ⟨value, hvalue, _, hinfo⟩, _⟩ := h.accountRead hread
  obtain ⟨value', hvalue', hcase⟩ := statelessAccountByKey_eq_ok.mp haccount
  rw [hvalue] at hvalue'
  cases hvalue'
  rw [leafAccount] at hinfo
  rcases hcase with ⟨hzero, rfl⟩ | ⟨hne, info, hdecode, rfl⟩
  · rw [if_pos hzero] at hinfo
    exact AccountRead.account_of_none (Except.ok.inj hinfo).symm
  · rw [if_neg hne] at hinfo
    exact AccountRead.account_of_some (mptDecodeAccountValue_agree hdecode hinfo)

theorem Readable.account_iff (h : Readable keccak256 inputs data index table)
    {root addressHash : Hash}
    (hpath : ∀ node, OnPath (witnessDb data index) root addressHash node → WellFormed node)
    (hframed : ∀ value, trieLookup (witnessDb data index) root (keyPath addressHash) = .ok value →
      value.length ≠ 0 → AccountFramed value) (account : Account) :
    (∃ read table', statelessAccountRead table root addressHash = .ok (read, table') ∧
        read.account = account) ↔
      statelessAccountByKey (witnessDb data index) root addressHash = .ok account := by
  rw [statelessAccountByKey_eq_ok]
  constructor
  · rintro ⟨read, table', hread, rfl⟩
    obtain ⟨_, ⟨value, hvalue, _, hinfo⟩, _⟩ := h.accountRead hread
    refine ⟨value, hvalue, ?_⟩
    rw [leafAccount] at hinfo
    by_cases hzero : value.length = 0
    · rw [if_pos hzero] at hinfo
      exact Or.inl ⟨hzero, AccountRead.account_of_none (Except.ok.inj hinfo).symm⟩
    · rw [if_neg hzero] at hinfo
      have hframe := hframed value hvalue hzero
      cases hsome : read.info with
      | none =>
        rw [hsome] at hinfo
        exact absurd hinfo hframe.decode_ne_none
      | some info =>
        rw [hsome] at hinfo
        exact Or.inr ⟨hzero, info, hframe.decode_iff.mp hinfo, AccountRead.account_of_some hsome⟩
  · rintro ⟨value, hvalue, ⟨hzero, rfl⟩ | ⟨hne, info, hdecode, rfl⟩⟩
    · obtain ⟨read, table', hread, hnone⟩ := h.exists_accountRead hvalue hpath (if_pos hzero)
      exact ⟨read, table', hread, AccountRead.account_of_none hnone⟩
    · have hinfo := (hframed value hvalue hne).decode_iff.mpr hdecode
      obtain ⟨read, table', hread, hsome⟩ :=
        h.exists_accountRead hvalue hpath ((if_neg hne).trans hinfo)
      exact ⟨read, table', hread, AccountRead.account_of_some hsome⟩

/-- A storage read, and the slot of the specification. -/
theorem Readable.slot_eq (h : Readable keccak256 inputs data index table)
    {root slotHash : Hash} {read : StorageRead} {table' : WitnessNodeTable} {word : Word}
    (hread : statelessStorageRead table (boundRoot index root) slotHash = .ok (read, table'))
    (hword : statelessStorageByKey (witnessDb data index) root slotHash = .ok word) :
    read.value = word := by
  obtain ⟨_, value, hvalue, _, hslot⟩ := h.storageRead hread
  obtain ⟨value', hvalue', hcase⟩ := statelessStorageByKey_eq_ok.mp hword
  rw [hvalue] at hvalue'
  cases hvalue'
  rcases hcase with ⟨hzero, rfl⟩ | ⟨hne, f, hf, hdecode⟩
  · rw [leafSlot, if_pos hzero] at hslot
    exact (Except.ok.inj hslot).symm
  · obtain ⟨g, hg, hitem⟩ := (leafSlot_eq_ok hne).mp hslot
    rw [hf] at hg
    cases hg
    rw [(rlpDecodeU256_iff.mp hdecode).2] at hitem
    exact (Except.ok.inj hitem).symm

theorem Readable.slot_iff (h : Readable keccak256 inputs data index table)
    {root slotHash : Hash}
    (hpath : ∀ node, OnPath (witnessDb data index) root slotHash node → WellFormed node)
    (hframed : ∀ value, trieLookup (witnessDb data index) root (keyPath slotHash) = .ok value →
      value.length ≠ 0 → SlotFramed value) (word : Word) :
    (∃ read table', statelessStorageRead table (boundRoot index root) slotHash =
        .ok (read, table') ∧ read.value = word) ↔
      statelessStorageByKey (witnessDb data index) root slotHash = .ok word := by
  rw [statelessStorageByKey_eq_ok]
  constructor
  · rintro ⟨read, table', hread, rfl⟩
    obtain ⟨_, value, hvalue, _, hslot⟩ := h.storageRead hread
    refine ⟨value, hvalue, ?_⟩
    by_cases hzero : value.length = 0
    · rw [leafSlot, if_pos hzero] at hslot
      exact Or.inl ⟨hzero, (Except.ok.inj hslot).symm⟩
    · obtain ⟨f, hf, hitem⟩ := (leafSlot_eq_ok hzero).mp hslot
      exact Or.inr ⟨hzero, f, hf,
        rlpDecodeU256_iff.mpr ⟨hframed value hvalue hzero f hf, hitem⟩⟩
  · rintro ⟨value, hvalue, ⟨hzero, rfl⟩ | ⟨hne, f, hf, hdecode⟩⟩
    · exact h.exists_storageRead hvalue hpath (if_pos hzero)
    · have hitem := (rlpDecodeU256_iff.mp hdecode).2
      exact h.exists_storageRead hvalue hpath ((leafSlot_eq_ok hne).mpr ⟨f, hf, hitem⟩)

end

/-- Reads after any others agree with the specification. -/
theorem witnessReads_agree {keccak256 : List Byte → Hash} {inputs : List (List Byte)}
    {start table : WitnessNodeTable} (h : ReadRun keccak256 inputs start table) :
    ReadsAgree start table := by
  have hread := h.readable
  have hdb := h.start.readable.nodedbLookup_eq
  have hbound := fun root => (h.start.readable.bindStorageRoot root).1
  refine ⟨?_, ?_, ?_, ?_, ?_, ?_, ?_⟩
  · rw [hdb]
    exact hread.lookup_iff
  · rw [hdb]
    exact hread.account_eq
  · rw [hdb]
    exact hread.account_iff
  · rw [hdb]
    intro root addressHash value hvalue hne hmalformed answer hanswer
    obtain ⟨_, ⟨value', hvalue', _, hinfo⟩, _⟩ := hread.accountRead hanswer
    rw [hvalue] at hvalue'
    cases hvalue'
    rw [leafAccount, if_neg hne] at hinfo
    exact hmalformed.decode _ hinfo
  · intro root addressHash read table' info hanswer hinfo
    rw [hbound]
    exact (hread.accountRead hanswer).2.2 info hinfo
  · rw [hdb]
    intro root slotHash read table' value
    rw [hbound]
    exact hread.slot_eq
  · rw [hdb]
    intro root slotHash
    rw [hbound]
    exact hread.slot_iff

/-! ### A slot framed as two bytes where one is enough -/

section

def slotValue : List Byte := [0x81, 0x05]

def slotLeaf : List Byte := 0xe5 :: 0xa1 :: 0x20 :: (List.replicate 32 0 ++ 0x82 :: slotValue)

theorem slotValue_field : ∃ f, rlpSingleRef slotValue = .ok f ∧ rlpItemContent f = [0x05] ∧
    f.isList = false ∧ rlpRefFramingCanonical f = false := by
  have hfields : (rlpSingleRef slotValue).toOption.map
      (fun f => (rlpItemContent f, f.isList, rlpRefFramingCanonical f)) =
        some ([0x05], false, false) := by
    decide
  obtain ⟨f, hf, hfields⟩ := Option.map_eq_some_iff.mp hfields
  cases hsingle : rlpSingleRef slotValue with
  | error e =>
    rw [hsingle] at hf
    cases hf
  | ok g =>
    rw [hsingle] at hf
    cases hf
    simp only [Prod.mk.injEq] at hfields
    exact ⟨f, rfl, hfields⟩

theorem slotLeaf_decode : ∃ node, mptDecodeTrustedStateNode slotLeaf = some node ∧
    node.kind = .leaf ∧ node.path = List.replicate 64 0 ∧ node.value = slotValue ∧
    ∀ x, inlineChild (node.child x) = none := by
  have hfields : (mptDecodeTrustedStateNode slotLeaf).map
      (fun node => (node.kind, node.path, node.value)) =
        some (.leaf, List.replicate 64 0, slotValue) := by
    decide
  have hchildren : (mptDecodeTrustedStateNode slotLeaf).map
      (fun node => decide (∀ x, inlineChild (node.child x) = none)) = some true := by
    decide
  obtain ⟨node, hnode, hfields⟩ := Option.map_eq_some_iff.mp hfields
  rw [hnode, Option.map_some, Option.some.injEq, decide_eq_true_iff] at hchildren
  simp only [Prod.mk.injEq] at hfields
  exact ⟨node, hnode, hfields.1, hfields.2.1, hfields.2.2, hchildren⟩

theorem registered_slotLeaf {bytes : List Byte} (h : Registered slotLeaf bytes) :
    bytes = slotLeaf := by
  obtain ⟨node, hnode, _, _, _, hchildren⟩ := slotLeaf_decode
  cases h with
  | self => rfl
  | @inline _ _ _ node' x hnode' hinline _ =>
    rw [hnode] at hnode'
    cases hnode'
    rw [hchildren x] at hinline
    cases hinline

/-- A table of this one node. -/
theorem exists_slotTable : ∃ table, TableRun toyKeccak [slotLeaf] table ∧
    nodedbLookup table (toyKeccak slotLeaf) = slotLeaf := by
  obtain ⟨node, hnode, hkind, _, _, _⟩ := slotLeaf_decode
  have hrows : witnessRows slotLeaf = 1 := by
    rw [witnessRows_node hnode, hkind]
    rfl
  have hempty : ((mptNodeArenaBegin mptNodeArenaReset).nodes.getD []).length = 0 := rfl
  obtain ⟨table, hrun, hopen, hlen⟩ := exists_insert .begin rfl slotLeaf
    (by decide) (by rw [hempty, hrows]; decide)
  rw [hempty, hrows] at hlen
  obtain ⟨nodes, hvalid⟩ := hrun.valid
  rw [hvalid.nodes_eq, Option.getD_some] at hlen
  cases hseal : mptNodeIndexSeal table with
  | none =>
    have hfull := (mptNodeIndexSeal_spec hvalid.nodes_eq hopen).1.mp hseal
    omega
  | some table' =>
    obtain ⟨hsealed, hvalid'⟩ := hvalid.seal hseal
    refine ⟨table', .sealed hrun hseal, ?_⟩
    have hindexed : ∀ digest, indexed table' digest = (indexEntries nodes).lookup digest := by
      intro digest
      rw [indexed, if_pos hsealed, hvalid'.nodes_eq, Option.getD_some]
    obtain ⟨row, hrow, hdata⟩ := (hvalid'.registered slotLeaf).mpr
      ⟨slotLeaf, List.mem_singleton.mpr rfl, .self slotLeaf⟩
    have hdigest : row.digest = toyKeccak slotLeaf := by rw [hvalid'.digest row hrow, hdata]
    obtain ⟨nodeId, hlookup⟩ := exists_lookup_indexEntries.mpr ⟨row, hrow, hdigest⟩
    obtain ⟨_, found, hget, _⟩ := lookup_indexEntries hlookup
    obtain ⟨input, hinput, hreg⟩ :=
      (hvalid'.registered found.data).mp ⟨found, List.mem_of_getElem? hget, rfl⟩
    rw [List.mem_singleton.mp hinput] at hreg
    have hfound := registered_slotLeaf hreg
    rw [nodedbLookup, mptNodeIndexSpan, hvalid'.lookup_eq, hindexed, hlookup]
    dsimp only
    rw [Option.bind_some, nodeAt, hvalid'.nodes_eq, Option.getD_some, hget, Option.map_some,
      Option.getD_some, hfound]

/-- The optimised read returns five, and the specification fails. -/
theorem slotTable_reads : ∃ table, TableRun toyKeccak [slotLeaf] table ∧
    (∃ read table', statelessStorageRead table
        (mptBindStorageRootIdentity table (toyKeccak slotLeaf)).1 zeroHash = .ok (read, table') ∧
      read.value = 5) ∧
    ∀ word, statelessStorageByKey (nodedbLookup table) (toyKeccak slotLeaf) zeroHash ≠
      .ok word := by
  obtain ⟨table, hrun, hnode⟩ := exists_slotTable
  have hread := hrun.readable
  have hdb := hread.nodedbLookup_eq
  obtain ⟨node, hdecode, hkind, hpath, hvalue, _⟩ := slotLeaf_decode
  obtain ⟨t, ht, hmatches⟩ := mptDecode_sound hdecode
  obtain ⟨path, rfl, hnibbles⟩ := hmatches.of_leaf hkind
  have hroot : toyKeccak slotLeaf ≠ emptyTrieRoot := by decide
  have hne : slotLeaf.length ≠ 0 := by decide
  have hmatch : mptKeyMatches zeroHash 0 path.nibbles = true := by
    rw [hnibbles, hpath]
    decide
  have hlookup : trieLookup (nodedbLookup table) (toyKeccak slotLeaf) (keyPath zeroHash) =
      .ok slotValue := by
    rw [trieLookup, if_neg hroot]
    dsimp only
    rw [hnode, if_neg hne, trieWalk_leaf hne ht, if_pos, hvalue]
    refine ⟨?_, ?_⟩
    · rw [pathLen_eq, hnibbles, hpath]
      rfl
    · rw [← mptKeyMatches_eq, hmatch]
  have hwf : ∀ node, OnPath (nodedbLookup table) (toyKeccak slotLeaf) zeroHash node →
      WellFormed node := by
    rintro node ⟨_, hreached⟩
    rw [hnode] at hreached
    cases hreached with
    | here => exact .of_decode hdecode
    | step hstep _ =>
      cases hstep with
      | extension ht' =>
        rw [ht] at ht'
        cases ht'
      | branch ht' =>
        rw [ht] at ht'
        cases ht'
  obtain ⟨f, hf, hcontent, hlist, hframing⟩ := slotValue_field
  have hlen : f.contentLen = 1 := by rw [← length_rlpItemContent, hcontent]; rfl
  have hcanonical : mptUintCanonical (rlpItemOf f) 32 = .ok () :=
    mptUintCanonical_eq_ok.mpr ⟨hlist, by omega, fun _ => by rw [hcontent]; decide⟩
  have hfive : natOfBytes (rightAligned (rlpItemOf f).content) = 5 := by
    rw [rightAligned, natOfBytes_zeros_append]
    change natOfBytes (rlpItemContent f) = 5
    rw [hcontent]
    rfl
  have hslot : leafSlot slotValue = .ok 5 := by
    refine (leafSlot_eq_ok (by decide)).mpr ⟨f, hf, ?_⟩
    rw [mptDecodeWordItem, hcanonical, ok_bind, hfive]
    rfl
  refine ⟨table, hrun, ?_, fun word hword => ?_⟩
  · rw [hdb] at hlookup hwf
    rw [(hread.bindStorageRoot _).1]
    exact hread.exists_storageRead hlookup hwf hslot
  · obtain ⟨value, hvalue', hcase⟩ := statelessStorageByKey_eq_ok.mp hword
    rw [hlookup] at hvalue'
    cases hvalue'
    rcases hcase with ⟨hzero, _⟩ | ⟨_, g, hg, hword⟩
    · cases hzero
    · rw [hf] at hg
      cases hg
      rw [(rlpDecodeU256_iff.mp hword).1] at hframing
      cases hframing

/-- So the two do not fail on the same inputs. -/
theorem witnessReads_failUnlike : ¬ ∀ (keccak256 : List Byte → Hash) (inputs : List (List Byte))
    (start table : WitnessNodeTable), ReadRun keccak256 inputs start table → ∀ root slotHash,
      (∃ answer, statelessStorageRead table (mptBindStorageRootIdentity start root).1 slotHash =
        .ok answer) ↔
      ∃ word, statelessStorageByKey (nodedbLookup start) root slotHash = .ok word := by
  intro h
  obtain ⟨table, hrun, ⟨read, table', hread, _⟩, hfails⟩ := slotTable_reads
  obtain ⟨word, hword⟩ := (h _ _ _ _ (.begin hrun) _ _).mp ⟨_, hread⟩
  exact hfails word hword

/-- After a read of the slot, reads of that table agree. -/
theorem witnessReads_agree_slotTable : ∃ start table,
    ReadRun toyKeccak [slotLeaf] start table ∧ ReadsAgree start table := by
  obtain ⟨start, hrun, ⟨read, table, hread, _⟩, _⟩ := slotTable_reads
  exact ⟨start, table, .storage (.begin hrun) hread,
    witnessReads_agree (.storage (.begin hrun) hread)⟩

end

end EvmSail.Optimised
