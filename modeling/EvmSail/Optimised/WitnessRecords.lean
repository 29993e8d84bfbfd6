/-
# `EvmSail.Optimised.WitnessRecords` — both decoders of a leaf value

A record is a list of four fields (`RecordFields`), read by both decoders in the
same way but for two points.  The specification asks of an integer that it is
framed in the shortest way, which the optimised decoder leaves to the digest of
the node; and the optimised decoder refuses a digest that is an empty list.
-/
import EvmSail.Mpt.StateTrie
import EvmSail.Optimised.WitnessReads

namespace EvmSail.Optimised

open Fallible Kernel

/-! ## Fields -/

/-- A string of at most `maximum` bytes that does not start with a zero byte. -/
structure UintField (f : RlpFieldRef) (maximum : Nat) : Prop where
  isString : f.isList = false
  width : f.contentLen ≤ maximum
  minimal : f.contentLen ≠ 0 → sliceByte (rlpItemContent f) 0 ≠ 0

theorem mptUintCanonical_eq_ok {f : RlpFieldRef} {maximum : Nat} :
    mptUintCanonical (rlpItemOf f) maximum = .ok () ↔ UintField f maximum := by
  have hlen := length_rlpItemContent f
  rw [mptUintCanonical, rlpItemOf]
  dsimp only
  rw [hlen]
  constructor
  · intro h
    split at h
    · cases h
    · rename_i hno
      rw [not_or, not_or, not_and, Bool.not_eq_true, Nat.not_lt] at hno
      exact ⟨hno.1, hno.2.1, hno.2.2⟩
  · rintro ⟨hkind, hwidth, hmin⟩
    rw [if_neg]
    rw [not_or, not_or, not_and, Bool.not_eq_true, Nat.not_lt]
    exact ⟨hkind, hwidth, hmin⟩

/-- The specification's test of an integer field. -/
theorem rlpItemUintCanonical_iff {f : RlpFieldRef} :
    rlpItemUintCanonical f = true ↔ rlpRefFramingCanonical f = true ∧ f.isList = false ∧
      (f.contentLen ≠ 0 → sliceByte (rlpItemContent f) 0 ≠ 0) := by
  rw [rlpItemUintCanonical, rlpRefBytesCanonical, Bool.and_eq_true, Bool.and_eq_true,
    Bool.not_eq_true', Bool.or_eq_true, beq_iff_eq, bne_iff_ne]
  constructor
  · rintro ⟨⟨hkind, hframing⟩, hmin⟩
    refine ⟨hframing, hkind, fun hne => ?_⟩
    rw [← sliceByte_content hne]
    exact hmin.resolve_left hne
  · rintro ⟨hframing, hkind, hmin⟩
    refine ⟨⟨hkind, hframing⟩, ?_⟩
    by_cases hne : f.contentLen = 0
    · exact Or.inl hne
    · rw [sliceByte_content hne]
      exact Or.inr (hmin hne)

theorem foldl_shiftOr (bytes : List Byte) (value : Nat) :
    bytes.foldl (fun value b => (value <<< 8) ||| b.toNat) value =
      bytes.foldl (fun value b => value * 256 + b.toNat) value := by
  induction bytes generalizing value with
  | nil => rfl
  | cons b bytes ih =>
    rw [List.foldl_cons, List.foldl_cons, ih, ← Nat.shiftLeft_add_eq_or_of_lt b.isLt,
      Nat.shiftLeft_eq]

/-- A nonce, by both decoders. -/
theorem rlpDecodeUint64_iff {f : RlpFieldRef} {n : Nat} :
    rlpDecodeUint64 f = .ok n ↔
      rlpRefFramingCanonical f = true ∧ mptDecodeU64Item (rlpItemOf f) = .ok n := by
  have hcontent : (rlpItemOf f).content = rlpItemContent f := rfl
  have hlen := length_rlpItemContent f
  rw [rlpDecodeUint64, mptDecodeU64Item, hcontent, foldl_shiftOr, bind_eq_ok]
  constructor
  · intro h
    split at h
    · cases h
    rename_i hno
    rw [Bool.or_eq_true, not_or, Bool.not_eq_true', Bool.not_eq_false, decide_eq_true_iff,
      Nat.not_lt] at hno
    obtain ⟨hframing, hkind, hmin⟩ := rlpItemUintCanonical_iff.mp hno.1
    refine ⟨hframing, (), mptUintCanonical_eq_ok.mpr ⟨hkind, hno.2, hmin⟩, ?_⟩
    rw [← h, Nat.mod_eq_of_lt (by omega), ← hlen, rlpUint64Width_eq, natOfBytes]
  · rintro ⟨hframing, _, hcanonical, h⟩
    obtain ⟨hkind, hwidth, hmin⟩ := mptUintCanonical_eq_ok.mp hcanonical
    rw [if_neg]
    · rw [← h, Nat.mod_eq_of_lt (by omega), ← hlen, rlpUint64Width_eq, natOfBytes]
    · rw [rlpItemUintCanonical_iff.mpr ⟨hframing, hkind, hmin⟩]
      simpa using hwidth

/-- A balance or a slot, by both decoders. -/
theorem rlpDecodeU256_iff {f : RlpFieldRef} {w : Word} :
    rlpDecodeU256 f = .ok w ↔
      rlpRefFramingCanonical f = true ∧ mptDecodeWordItem (rlpItemOf f) = .ok w := by
  have hvalue : natOfBytes (rightAligned (rlpItemOf f).content) = natOfBytes (rlpItemContent f) :=
    natOfBytes_zeros_append ..
  rw [rlpDecodeU256, mptDecodeWordItem, hvalue, bind_eq_ok]
  constructor
  · intro h
    split at h
    · rename_i hcanonical
      obtain ⟨hframing, hkind, hmin⟩ := rlpItemUintCanonical_iff.mp hcanonical
      obtain ⟨_, hwidth, rfl⟩ := rlpDecodeWord_eq_ok.mp h
      exact ⟨hframing, (), mptUintCanonical_eq_ok.mpr ⟨hkind, hwidth, hmin⟩, rfl⟩
    · cases h
  · rintro ⟨hframing, _, hcanonical, h⟩
    obtain ⟨hkind, hwidth, hmin⟩ := mptUintCanonical_eq_ok.mp hcanonical
    rw [if_pos (rlpItemUintCanonical_iff.mpr ⟨hframing, hkind, hmin⟩)]
    exact rlpDecodeWord_eq_ok.mpr ⟨hkind, hwidth, (Except.ok.inj h).symm⟩

/-- A digest, by both decoders. -/
theorem mptDecodeHashItem_iff {f : RlpFieldRef} {empty digest : Hash} :
    mptDecodeHashItem (rlpItemOf f) empty = .ok digest ↔
      ¬ (f.isList = true ∧ f.contentLen = 0) ∧ decodeRecordHash f empty = .ok digest := by
  have hlen : (rlpItemOf f).content.length = f.contentLen := length_rlpItemContent f
  have hkind : (rlpItemOf f).list = f.isList := rfl
  rw [mptDecodeHashItem, decodeRecordHash, hlen, hkind]
  by_cases hlist : f.isList = true
  · rw [if_pos (Or.inl hlist)]
    constructor
    · nofun
    · rintro ⟨hne, h⟩
      rw [if_neg fun hzero => hne ⟨hlist, hzero⟩] at h
      obtain ⟨w, hword, _⟩ := bind_eq_ok.mp h
      rw [(rlpDecodeWord_eq_ok.mp hword).1] at hlist
      cases hlist
  by_cases hwide : f.contentLen > 32
  · rw [if_pos (Or.inr hwide), if_neg (by omega)]
    constructor
    · nofun
    · rintro ⟨_, h⟩
      obtain ⟨w, hword, _⟩ := bind_eq_ok.mp h
      exact absurd (rlpDecodeWord_eq_ok.mp hword).2.1 (Nat.not_le.mpr hwide)
  rw [if_neg (not_or.mpr ⟨hlist, hwide⟩)]
  by_cases hzero : f.contentLen = 0
  · rw [if_pos hzero, if_pos hzero]
    exact ⟨fun h => ⟨fun hand => hlist hand.1, h⟩, fun h => h.2⟩
  · have hword : rlpDecodeWord f = .ok (BitVec.ofNat 256 (natOfBytes (rlpItemContent f))) :=
      rlpDecodeWord_eq_ok.mpr ⟨Bool.eq_false_iff.mpr hlist, Nat.not_lt.mp hwide, rfl⟩
    have haligned : (rightAligned (rlpItemOf f).content).length = 32 := by
      rw [rightAligned, List.length_append, List.length_replicate, hlen]
      omega
    have hvalue : natOfBytes (rightAligned (rlpItemOf f).content) =
        natOfBytes (rlpItemContent f) := natOfBytes_zeros_append ..
    rw [if_neg hzero, if_neg hzero, hword, ok_bind, ← hvalue, wordToHash_natOfBytes haligned]
    exact ⟨fun h => ⟨fun hand => hlist hand.1, h⟩, fun h => h.2⟩

/-! ## Records -/

/-- A value that is a list, and its fields. -/
def RecordFields (value : List Byte) (fs : List RlpFieldRef) : Prop :=
  ∃ root, rlpSingleRef value = .ok root ∧ root.isList = true ∧ Fields (rlpItemContent root) fs

theorem RecordFields.unique {value : List Byte} {fs gs : List RlpFieldRef}
    (h : RecordFields value fs) (h' : RecordFields value gs) : fs = gs := by
  obtain ⟨root, hroot, _, hfs⟩ := h
  obtain ⟨root', hroot', _, hgs⟩ := h'
  rw [hroot] at hroot'
  cases hroot'
  exact hfs.unique hgs

/-- The record of the specification. -/
theorem decodeStateAccount_eq_ok {value : List Byte} {info : AccountInfo} :
    decodeStateAccount value = .ok info ↔
      ∃ nonce balance storage code, RecordFields value [nonce, balance, storage, code] ∧
        rlpDecodeUint64 nonce = .ok info.nonce ∧ rlpDecodeU256 balance = .ok info.balance ∧
        decodeRecordHash storage emptyTrieRoot = .ok info.storageRoot ∧
        decodeRecordHash code Kernel.keccakEmpty = .ok info.codeHash := by
  rw [decodeStateAccount]
  constructor
  · intro h
    obtain ⟨fields, hfields, h⟩ := bind_eq_ok.mp h
    obtain ⟨root, hroot, hlist, rfl⟩ := rlpNodeCursor_eq_ok.mp hfields
    obtain ⟨nonce, hitem, h⟩ := bind_eq_ok.mp h
    obtain ⟨hnonce, rest, hbytes⟩ := rlpDecodeItem_announced hitem
    rw [hbytes, rlpCursorAdvance_append] at h
    obtain ⟨balance, hitem, h⟩ := bind_eq_ok.mp h
    obtain ⟨hbalance, rest, rfl⟩ := rlpDecodeItem_announced hitem
    rw [rlpCursorAdvance_append] at h
    obtain ⟨storage, hitem, h⟩ := bind_eq_ok.mp h
    obtain ⟨hstorage, rest, rfl⟩ := rlpDecodeItem_announced hitem
    rw [rlpCursorAdvance_append] at h
    obtain ⟨code, hitem, h⟩ := bind_eq_ok.mp h
    obtain ⟨hcode, rest, rfl⟩ := rlpDecodeItem_announced hitem
    rw [rlpCursorAdvance_append] at h
    obtain ⟨_, hend, h⟩ := bind_eq_ok.mp h
    rw [rlpCursorExpectEnd] at hend
    split at hend
    · rename_i hnil
      rw [List.eq_nil_of_length_eq_zero hnil] at hbytes
      obtain ⟨storageRoot, hstorageRoot, h⟩ := bind_eq_ok.mp h
      obtain ⟨codeHash, hcodeHash, h⟩ := bind_eq_ok.mp h
      obtain ⟨n, hn, h⟩ := bind_eq_ok.mp h
      obtain ⟨b, hb, h⟩ := bind_eq_ok.mp h
      obtain rfl := Except.ok.inj h
      exact ⟨nonce, balance, storage, code, ⟨root, hroot, hlist,
        hbytes ▸ (((Fields.nil.cons hcode).cons hstorage).cons hbalance).cons hnonce⟩,
        hn, hb, hstorageRoot, hcodeHash⟩
    · cases hend
  · rintro ⟨nonce, balance, storage, code, ⟨root, hroot, hlist, hfields⟩, hn, hb, hs, hc⟩
    obtain ⟨hnonce, hbytes, hfields⟩ := hfields.tail
    obtain ⟨hbalance, hbytes₁, hfields⟩ := hfields.tail
    obtain ⟨hstorage, hbytes₂, hfields⟩ := hfields.tail
    obtain ⟨hcode, hbytes₃, _⟩ := hfields.tail
    rw [rlpNodeCursor_eq_ok.mpr ⟨root, hroot, hlist, rfl⟩, ok_bind, hbytes, hnonce.decode, ok_bind]
    dsimp only
    rw [rlpCursorAdvance_append, hbytes₁, hbalance.decode, ok_bind, rlpCursorAdvance_append,
      hbytes₂, hstorage.decode, ok_bind, rlpCursorAdvance_append, hbytes₃, hcode.decode, ok_bind,
      rlpCursorAdvance_append, hs, hc, hn, hb]
    rfl

/-- Four items at the front of the fields. -/
theorem mptPopRecord_eq_some {fields rest : List Byte}
    {items : RlpItem × RlpItem × RlpItem × RlpItem} :
    mptPopRecord fields = some (items, rest) ↔
      ∃ nonce balance storage code : RlpFieldRef,
        (∀ f ∈ [nonce, balance, storage, code], f.Announced) ∧
        fields = sourcesOf [nonce, balance, storage, code] ++ rest ∧
        items = (rlpItemOf nonce, rlpItemOf balance, rlpItemOf storage, rlpItemOf code) := by
  rw [mptPopRecord]
  constructor
  · intro h
    obtain ⟨⟨_, _⟩, hpop, h⟩ := Option.bind_eq_some_iff.mp h
    obtain ⟨nonce, hnonce, rfl, rfl⟩ := mptRlpPop_eq_some.mp hpop
    obtain ⟨⟨_, _⟩, hpop, h⟩ := Option.bind_eq_some_iff.mp h
    obtain ⟨balance, hbalance, rfl, rfl⟩ := mptRlpPop_eq_some.mp hpop
    obtain ⟨⟨_, _⟩, hpop, h⟩ := Option.bind_eq_some_iff.mp h
    obtain ⟨storage, hstorage, rfl, rfl⟩ := mptRlpPop_eq_some.mp hpop
    obtain ⟨⟨_, _⟩, hpop, h⟩ := Option.bind_eq_some_iff.mp h
    obtain ⟨code, hcode, rfl, rfl⟩ := mptRlpPop_eq_some.mp hpop
    obtain ⟨rfl, rfl⟩ := Prod.mk.inj (Option.some.inj h)
    refine ⟨nonce, balance, storage, code, by simp [hnonce, hbalance, hstorage, hcode], ?_, rfl⟩
    simp only [sourcesOf_cons, sourcesOf_nil, List.append_nil, List.append_assoc]
  · rintro ⟨nonce, balance, storage, code, hall, rfl, rfl⟩
    simp only [List.mem_cons, List.not_mem_nil, or_false, forall_eq_or_imp, forall_eq] at hall
    obtain ⟨hnonce, hbalance, hstorage, hcode⟩ := hall
    have hpop : ∀ {f : RlpFieldRef}, f.Announced → ∀ rest,
        mptRlpPop (f.source ++ rest) = some (rlpItemOf f, rest) :=
      fun hf rest => mptRlpPop_eq_some.mpr ⟨_, hf, rfl, rfl⟩
    simp only [sourcesOf_cons, sourcesOf_nil, List.append_nil, List.append_assoc]
    rw [hpop hnonce]
    refine Option.bind_eq_some_iff.mpr ⟨_, rfl, ?_⟩
    rw [hpop hbalance]
    refine Option.bind_eq_some_iff.mpr ⟨_, rfl, ?_⟩
    rw [hpop hstorage]
    refine Option.bind_eq_some_iff.mpr ⟨_, rfl, ?_⟩
    rw [hpop hcode]
    rfl

/-- A value popped as a whole. -/
theorem mptRlpPop_whole {value : List Byte} {item : RlpItem} :
    mptRlpPop value = some (item, []) ↔
      ∃ root, rlpSingleRef value = .ok root ∧ item = rlpItemOf root := by
  rw [mptRlpPop_eq_some]
  refine exists_congr fun root => ?_
  rw [rlpSingleRef_eq_ok, List.append_nil, and_assoc, eq_comm (a := value)]

theorem RecordFields.popped {value : List Byte} {nonce balance storage code : RlpFieldRef}
    (h : RecordFields value [nonce, balance, storage, code]) {root : RlpFieldRef}
    (hroot : rlpSingleRef value = .ok root) :
    mptPopRecord (rlpItemContent root) =
      some ((rlpItemOf nonce, rlpItemOf balance, rlpItemOf storage, rlpItemOf code), []) := by
  obtain ⟨root', hroot', _, hall, hbytes⟩ := h
  rw [hroot] at hroot'
  cases hroot'
  exact mptPopRecord_eq_some.mpr
    ⟨nonce, balance, storage, code, hall, hbytes.trans (List.append_nil _).symm, rfl⟩

/-- The decoder on a list. -/
theorem mptDecodeAccountValue_list {value : List Byte} {root : RlpFieldRef}
    (hroot : rlpSingleRef value = .ok root) (hlist : root.isList = true) :
    mptDecodeAccountValue value =
      (match mptPopRecord (rlpItemContent root) with
      | none => .ok none
      | some ((nonce, balance, storage, code), fields) =>
        if fields.length ≠ 0 then fatalError .rlpDecode
        else do
          let nonce ← mptDecodeU64Item nonce
          let balance ← mptDecodeWordItem balance
          let storageRoot ← mptDecodeHashItem storage emptyTrieRoot
          let codeHash ← mptDecodeHashItem code Kernel.keccakEmpty
          .ok (some { nonce, balance, storageRoot, codeHash })) := by
  rw [mptDecodeAccountValue, mptRlpPop_whole.mpr ⟨root, hroot, rfl⟩]
  refine if_neg ?_
  rw [not_or, not_not, not_not]
  exact ⟨List.length_nil, hlist⟩

theorem mptDecodeAccountValue_notList {value : List Byte}
    (h : ∀ root, rlpSingleRef value = .ok root → root.isList = false) :
    mptDecodeAccountValue value = fatalError .rlpDecode := by
  rw [mptDecodeAccountValue]
  cases hpop : mptRlpPop value with
  | none => rfl
  | some popped =>
    obtain ⟨outer, rest⟩ := popped
    refine if_pos ?_
    by_cases hrest : rest.length ≠ 0
    · exact Or.inl hrest
    · rw [List.eq_nil_of_length_eq_zero (not_not.mp hrest)] at hpop
      obtain ⟨root, hroot, rfl⟩ := mptRlpPop_whole.mp hpop
      exact Or.inr (Bool.eq_false_iff.mp (h root hroot))

/-- What the decoder returns on, it read as a list. -/
theorem exists_list_of_decode {value : List Byte} {result : Option AccountInfo}
    (h : mptDecodeAccountValue value = .ok result) :
    ∃ root, rlpSingleRef value = .ok root ∧ root.isList = true := by
  by_contra hnot
  have hnot' : ∀ root, rlpSingleRef value = .ok root → root.isList = false :=
    fun root hroot => Bool.eq_false_iff.mpr fun hlist => hnot ⟨root, hroot, hlist⟩
  rw [mptDecodeAccountValue_notList hnot'] at h
  cases h

/-- The record of the optimised decoder. -/
theorem mptDecodeAccountValue_eq_some {value : List Byte} {info : AccountInfo} :
    mptDecodeAccountValue value = .ok (some info) ↔
      ∃ nonce balance storage code, RecordFields value [nonce, balance, storage, code] ∧
        mptDecodeU64Item (rlpItemOf nonce) = .ok info.nonce ∧
        mptDecodeWordItem (rlpItemOf balance) = .ok info.balance ∧
        mptDecodeHashItem (rlpItemOf storage) emptyTrieRoot = .ok info.storageRoot ∧
        mptDecodeHashItem (rlpItemOf code) Kernel.keccakEmpty = .ok info.codeHash := by
  constructor
  · intro h
    obtain ⟨root, hroot, hlist⟩ := exists_list_of_decode h
    rw [mptDecodeAccountValue_list hroot hlist] at h
    split at h
    · cases h
    rename_i _ _ _ _ fields hrecord
    split at h
    · cases h
    rename_i hend
    rw [List.eq_nil_of_length_eq_zero (not_not.mp hend)] at hrecord
    obtain ⟨nonce, balance, storage, code, hall, hfields, hitems⟩ := mptPopRecord_eq_some.mp hrecord
    cases hitems
    rw [List.append_nil] at hfields
    obtain ⟨n, hn, h⟩ := bind_eq_ok.mp h
    obtain ⟨b, hb, h⟩ := bind_eq_ok.mp h
    obtain ⟨storageRoot, hs, h⟩ := bind_eq_ok.mp h
    obtain ⟨codeHash, hc, h⟩ := bind_eq_ok.mp h
    obtain rfl := Option.some.inj (Except.ok.inj h)
    exact ⟨nonce, balance, storage, code, ⟨root, hroot, hlist, hall, hfields⟩, hn, hb, hs, hc⟩
  · rintro ⟨nonce, balance, storage, code, hfields, hn, hb, hs, hc⟩
    have ⟨root, hroot, hlist, _⟩ := hfields
    rw [mptDecodeAccountValue_list hroot hlist, hfields.popped hroot]
    dsimp only
    rw [if_neg (not_not.mpr List.length_nil), hn, hb, hs, hc]
    rfl

/-- A record is given up where not even four fields can be read. -/
theorem mptDecodeAccountValue_eq_none {value : List Byte}
    (h : mptDecodeAccountValue value = .ok none) :
    ∃ root, rlpSingleRef value = .ok root ∧ root.isList = true ∧
      mptPopRecord (rlpItemContent root) = none := by
  obtain ⟨root, hroot, hlist⟩ := exists_list_of_decode h
  rw [mptDecodeAccountValue_list hroot hlist] at h
  refine ⟨root, hroot, hlist, ?_⟩
  split at h
  · assumption
  · split at h
    · cases h
    · obtain ⟨n, hn, h⟩ := bind_eq_ok.mp h
      obtain ⟨b, hb, h⟩ := bind_eq_ok.mp h
      obtain ⟨storageRoot, hs, h⟩ := bind_eq_ok.mp h
      obtain ⟨codeHash, hc, h⟩ := bind_eq_ok.mp h
      cases h

/-- A list of four fields is not given up. -/
theorem RecordFields.decode_ne_none {value : List Byte} {nonce balance storage code : RlpFieldRef}
    (h : RecordFields value [nonce, balance, storage, code]) :
    mptDecodeAccountValue value ≠ .ok none := by
  intro hnone
  obtain ⟨root, hroot, _, hrecord⟩ := mptDecodeAccountValue_eq_none hnone
  rw [h.popped hroot] at hrecord
  cases hrecord

/-! ## Agreement -/

/-- Where both decode a record, they decode the same. -/
theorem mptDecodeAccountValue_agree {value : List Byte} {info : AccountInfo}
    {result : Option AccountInfo} (hsail : decodeStateAccount value = .ok info)
    (h : mptDecodeAccountValue value = .ok result) : result = some info := by
  obtain ⟨nonce, balance, storage, code, hfields, hn, hb, hs, hc⟩ :=
    decodeStateAccount_eq_ok.mp hsail
  cases result with
  | none => exact absurd h hfields.decode_ne_none
  | some info' =>
    obtain ⟨nonce', balance', storage', code', hfields', hn', hb', hs', hc'⟩ :=
      mptDecodeAccountValue_eq_some.mp h
    have hsame := hfields.unique hfields'
    simp only [List.cons.injEq, and_true] at hsame
    obtain ⟨rfl, rfl, rfl, rfl⟩ := hsame
    have hn := (rlpDecodeUint64_iff.mp hn).2
    have hb := (rlpDecodeU256_iff.mp hb).2
    have hs' := (mptDecodeHashItem_iff.mp hs').2
    have hc' := (mptDecodeHashItem_iff.mp hc').2
    rw [hn] at hn'
    rw [hb] at hb'
    rw [hs] at hs'
    rw [hc] at hc'
    obtain ⟨_, _, _, _⟩ := info
    obtain ⟨_, _, _, _⟩ := info'
    cases hn'
    cases hb'
    cases hs'
    cases hc'
    rfl

/-- What only one of the decoders asks of an account record. -/
structure AccountFramed (value : List Byte) : Prop where
  fields : ∀ root, rlpSingleRef value = .ok root → root.isList = true →
    ∃ fs rest, fs.length = 4 ∧ (∀ f ∈ fs, RlpFieldRef.Announced f) ∧
      rlpItemContent root = sourcesOf fs ++ rest
  integers : ∀ nonce balance storage code, RecordFields value [nonce, balance, storage, code] →
    rlpRefFramingCanonical nonce = true ∧ rlpRefFramingCanonical balance = true
  digests : ∀ nonce balance storage code, RecordFields value [nonce, balance, storage, code] →
    ∀ f ∈ [storage, code], ¬ (f.isList = true ∧ f.contentLen = 0)

/-- A framed record is decoded by both or by neither. -/
theorem AccountFramed.decode_iff {value : List Byte} (h : AccountFramed value)
    {info : AccountInfo} :
    mptDecodeAccountValue value = .ok (some info) ↔ decodeStateAccount value = .ok info := by
  rw [mptDecodeAccountValue_eq_some, decodeStateAccount_eq_ok]
  refine exists_congr fun nonce => exists_congr fun balance => exists_congr fun storage =>
    exists_congr fun code => and_congr_right fun hfields => ?_
  obtain ⟨hnonce, hbalance⟩ := h.integers _ _ _ _ hfields
  have hstorage := h.digests _ _ _ _ hfields storage (by simp)
  have hcode := h.digests _ _ _ _ hfields code (by simp)
  rw [rlpDecodeUint64_iff, rlpDecodeU256_iff, mptDecodeHashItem_iff, mptDecodeHashItem_iff,
    and_iff_right hnonce, and_iff_right hbalance, and_iff_right hstorage, and_iff_right hcode]

/-- A framed record is not given up. -/
theorem AccountFramed.decode_ne_none {value : List Byte} (h : AccountFramed value) :
    mptDecodeAccountValue value ≠ .ok none := by
  intro hnone
  obtain ⟨root, hroot, hlist, hrecord⟩ := mptDecodeAccountValue_eq_none hnone
  obtain ⟨fs, rest, hlen, hall, hbytes⟩ := h.fields root hroot hlist
  match fs, hlen with
  | [nonce, balance, storage, code], _ =>
    rw [mptPopRecord_eq_some.mpr ⟨nonce, balance, storage, code, hall, hbytes, rfl⟩] at hrecord
    cases hrecord

/-! ## Malformed records -/

/-- The field is a list, or longer than what it is read as. -/
def Misfit (f : RlpFieldRef) (width : Nat) : Prop := f.isList = true ∨ width < f.contentLen

/-- A value that is no list in whole, a list with something behind its four
fields, or four fields one of which does not fit. -/
inductive MalformedRecord (value : List Byte) : Prop
  | notList : (∀ root, rlpSingleRef value = .ok root → root.isList = false) → MalformedRecord value
  | trailing {root : RlpFieldRef} {fs : List RlpFieldRef} {rest : List Byte} :
      rlpSingleRef value = .ok root → root.isList = true → fs.length = 4 →
      (∀ f ∈ fs, RlpFieldRef.Announced f) → rlpItemContent root = sourcesOf fs ++ rest →
      rest ≠ [] → MalformedRecord value
  | misfit {nonce balance storage code : RlpFieldRef} :
      RecordFields value [nonce, balance, storage, code] →
      Misfit nonce 8 ∨ Misfit balance 32 ∨ Misfit storage 32 ∨ Misfit code 32 →
      MalformedRecord value

theorem mptDecodeU64Item_fits {f : RlpFieldRef} {n : Nat}
    (h : mptDecodeU64Item (rlpItemOf f) = .ok n) : ¬ Misfit f 8 := by
  obtain ⟨_, hcanonical, _⟩ := bind_eq_ok.mp h
  obtain ⟨hkind, hwidth, _⟩ := mptUintCanonical_eq_ok.mp hcanonical
  rw [Misfit, hkind]
  exact not_or.mpr ⟨Bool.false_ne_true, Nat.not_lt.mpr hwidth⟩

theorem mptDecodeWordItem_fits {f : RlpFieldRef} {w : Word}
    (h : mptDecodeWordItem (rlpItemOf f) = .ok w) : ¬ Misfit f 32 := by
  obtain ⟨_, hcanonical, _⟩ := bind_eq_ok.mp h
  obtain ⟨hkind, hwidth, _⟩ := mptUintCanonical_eq_ok.mp hcanonical
  rw [Misfit, hkind]
  exact not_or.mpr ⟨Bool.false_ne_true, Nat.not_lt.mpr hwidth⟩

theorem mptDecodeHashItem_fits {f : RlpFieldRef} {empty digest : Hash}
    (h : mptDecodeHashItem (rlpItemOf f) empty = .ok digest) : ¬ Misfit f 32 := by
  rw [mptDecodeHashItem] at h
  split at h
  · cases h
  · rename_i hno
    have hlen : (rlpItemOf f).content.length = f.contentLen := length_rlpItemContent f
    rw [hlen] at hno
    exact hno

/-- A malformed record is rejected. -/
theorem MalformedRecord.decode {value : List Byte} (h : MalformedRecord value)
    (result : Option AccountInfo) : mptDecodeAccountValue value ≠ .ok result := by
  intro hdecode
  cases h with
  | notList hnot =>
    rw [mptDecodeAccountValue_notList hnot] at hdecode
    cases hdecode
  | @trailing root fs rest hroot hlist hlen hall hbytes hrest =>
    match fs, hlen with
    | [nonce, balance, storage, code], _ =>
      have hrecord := mptPopRecord_eq_some.mpr ⟨nonce, balance, storage, code, hall, hbytes, rfl⟩
      have hlen : rest.length ≠ 0 := fun hzero => hrest (List.eq_nil_of_length_eq_zero hzero)
      rw [mptDecodeAccountValue_list hroot hlist, hrecord] at hdecode
      dsimp only at hdecode
      rw [if_pos hlen] at hdecode
      cases hdecode
  | @misfit nonce balance storage code hfields hmisfit =>
    cases result with
    | none => exact hfields.decode_ne_none hdecode
    | some info =>
      obtain ⟨nonce', balance', storage', code', hfields', hn, hb, hs, hc⟩ :=
        mptDecodeAccountValue_eq_some.mp hdecode
      have hsame := hfields.unique hfields'
      simp only [List.cons.injEq, and_true] at hsame
      obtain ⟨rfl, rfl, rfl, rfl⟩ := hsame
      rcases hmisfit with h | h | h | h
      · exact mptDecodeU64Item_fits hn h
      · exact mptDecodeWordItem_fits hb h
      · exact mptDecodeHashItem_fits hs h
      · exact mptDecodeHashItem_fits hc h

end EvmSail.Optimised
