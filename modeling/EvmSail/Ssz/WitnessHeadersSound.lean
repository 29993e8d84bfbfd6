/-
# `EvmSail.Ssz.WitnessHeadersSound` — what the header walk authenticates

A walk over the witness headers that returns has read every item of the
list; each header names the hash of the one before it; the table holds the
hashes by their distance from the newest one; and the context is read from
the newest header.  The invariant of the walk is `Walked`, and one step of
it is `Walked.step`.

What the walk does not read, and nothing else reads either, is the number,
the timestamp and the gas limit of the parent.  The position of a header in
the chain is its distance from the executing block, and `BLOCKHASH` is
about that position (`indexWitnessHeaders_sound`), not about the number
that the header itself states (`blockhash_unlinkedNumber`).
-/
import EvmSail.Ssz.WitnessHeaders

namespace EvmSail

open Fallible

/-! ## The fields of a header -/

/-- The items of a header. -/
def HeaderItems (header : List Byte) (fs : List RlpFieldRef) : Prop :=
  ∃ content, rlpNodeCursor header = .ok content ∧ Fields content fs

/-- The fields, one after the other. -/
def foldHeaderFields (profile : ProtocolProfile) :
    List RlpFieldRef → Nat → ParentHeaderFields → Result ParentHeaderFields
  | [], _, acc => .ok acc
  | f :: fs, i, acc =>
    decodeParentHeaderField profile i f acc >>= foldHeaderFields profile fs
      (nextParentHeaderField i)

theorem decodeParentHeaderFields_eq_ok {profile : ProtocolProfile} {c : List Byte} {i : Nat}
    {acc r : ParentHeaderFields} :
    decodeParentHeaderFields profile c i acc = .ok r ↔
      ∃ fs, Fields c fs ∧ foldHeaderFields profile fs i acc = .ok r := by
  refine walk_iff (W := fun c (s : Nat × ParentHeaderFields) =>
      decodeParentHeaderFields profile c s.1 s.2)
    (R := fun fs s r => foldHeaderFields profile fs s.1 s.2 = .ok r) (s := (i, acc)) ?_ ?_ ?_
  · intro s r
    rw [decodeParentHeaderFields, if_pos List.length_nil]
    rfl
  · intro c s r hc h
    rw [decodeParentHeaderFields, if_neg (by simpa using hc)] at h
    obtain ⟨⟨f, next⟩, htake, h⟩ := bind_eq_ok.mp h
    obtain ⟨decoded, _, h⟩ := bind_eq_ok.mp h
    obtain ⟨hf, hcat⟩ := rlpTakeItem_eq_ok htake
    exact ⟨f, next.val, hf, hcat, (nextParentHeaderField s.1, decoded), r, h⟩
  · intro f rest fs hf ih s r
    obtain ⟨hlt, htake⟩ := rlpTakeItem_append hf rest
    rw [decodeParentHeaderFields, if_neg (by simp [hf.source_ne_nil]), htake, ok_bind]
    simp only
    rw [foldHeaderFields, bind_eq_ok, bind_eq_ok]
    constructor
    · rintro ⟨decoded, hdecoded, h⟩
      exact ⟨decoded, hdecoded, (ih (_, decoded) r).mp h⟩
    · rintro ⟨decoded, hdecoded, h⟩
      exact ⟨decoded, hdecoded, (ih (_, decoded) r).mpr h⟩

/-- The field at position `p`, of those that stand from position `i` on. -/
def fieldFrom (fs : List RlpFieldRef) (i p : Nat) : Option RlpFieldRef :=
  if i ≤ p then fs[p - i]? else none

theorem fieldFrom_cons {f : RlpFieldRef} {fs : List RlpFieldRef} {i p : Nat} (hp : p < 19) :
    fieldFrom (f :: fs) i p =
      if i = p then some f else fieldFrom fs (nextParentHeaderField i) p := by
  rw [fieldFrom, fieldFrom, nextParentHeaderField]
  split
  · rename_i hle
    split
    · rename_i heq
      rw [heq, Nat.sub_self]
      rfl
    · rename_i hne
      rw [if_pos (by omega : i < 19), if_pos (by omega), show p - i = p - (i + 1) + 1 by omega,
        List.getElem?_cons_succ]
  · rename_i hgt
    rw [if_neg (by omega)]
    split
    · rw [if_neg (by omega)]
    · rw [if_neg (by omega)]

/-- What a walk leaves of one field: whether it was there, and its value. -/
def FieldRead {α : Type} (read : RlpFieldRef → Result α) (old new : Bool × α) :
    Option RlpFieldRef → Prop
  | some f => new.1 = true ∧ read f = .ok new.2
  | none => new = old

/-- A part of the decoded fields that one position alone writes. -/
theorem foldHeaderFields_reads {α : Type} {profile : ProtocolProfile}
    (part : ParentHeaderFields → Bool × α) (p : Nat) (read : RlpFieldRef → Result α) (hp : p < 19)
    (hat : ∀ f acc acc', decodeParentHeaderField profile p f acc = .ok acc' →
      (part acc').1 = true ∧ read f = .ok (part acc').2)
    (hother : ∀ i f acc acc', i ≠ p → decodeParentHeaderField profile i f acc = .ok acc' →
      part acc' = part acc)
    {fs : List RlpFieldRef} {i : Nat} {acc r : ParentHeaderFields}
    (h : foldHeaderFields profile fs i acc = .ok r) :
    FieldRead read (part acc) (part r) (fieldFrom fs i p) := by
  -- a position behind `p` leaves the part alone
  have hbehind : ∀ {fs : List RlpFieldRef} {i : Nat} {acc r : ParentHeaderFields}, p < i →
      foldHeaderFields profile fs i acc = .ok r → part r = part acc := by
    intro fs
    induction fs with
    | nil =>
      intro i acc r _ h
      cases h
      rfl
    | cons f fs ih =>
      intro i acc r hlt h
      obtain ⟨acc', hstep, h⟩ := bind_eq_ok.mp h
      have hnext : p < nextParentHeaderField i := by
        rw [nextParentHeaderField]
        split <;> omega
      rw [ih hnext h]
      exact hother i f acc acc' (Nat.ne_of_gt hlt) hstep
  induction fs generalizing i acc with
  | nil =>
    cases h
    have hnone : fieldFrom [] i p = none := by
      rw [fieldFrom]
      split <;> rfl
    rw [hnone]
    rfl
  | cons f fs ih =>
    obtain ⟨acc', hstep, h⟩ := bind_eq_ok.mp h
    rw [fieldFrom_cons hp]
    split
    · rename_i heq
      rw [heq] at hstep h
      have hkeep := hbehind (i := nextParentHeaderField p)
        (by rw [nextParentHeaderField, if_pos hp]; exact Nat.lt_succ_self p) h
      rw [FieldRead, hkeep]
      exact hat f acc acc' hstep
    · rename_i hne
      rw [← hother i f acc acc' hne hstep]
      exact ih h

/-- What one field can do. -/
theorem decodeParentHeaderField_cases {profile : ProtocolProfile} {i : Nat} {f : RlpFieldRef}
    {acc acc' : ParentHeaderFields} (h : decodeParentHeaderField profile i f acc = .ok acc') :
    (i = 0 ∧ ∃ v, decodeHeaderHash f = .ok v ∧
        acc' = { acc with parentHash := v, haveParent := true }) ∨
      (i = 3 ∧ ∃ v, decodeHeaderHash f = .ok v ∧
        acc' = { acc with stateRoot := v, haveState := true }) ∨
      (i = 15 ∧ ∃ v, rlpDecodeU256 f = .ok v ∧
        acc' = { acc with baseFee := v, haveBaseFee := true }) ∨
      (i = 17 ∧ ∃ v, decodeHeaderBlobGasUsed profile f = .ok v ∧
        acc' = { acc with blobGasUsed := v, haveBlobGas := true }) ∨
      (i = 18 ∧ ∃ v, decodeHeaderExcessBlobGas profile f = .ok v ∧
        acc' = { acc with excessBlobGas := v, haveExcessBlobGas := true }) ∨
      (i ≠ 0 ∧ i ≠ 3 ∧ i ≠ 15 ∧ i ≠ 17 ∧ i ≠ 18 ∧ acc' = acc) := by
  rw [decodeParentHeaderField] at h
  split at h
  · rename_i hi
    obtain ⟨v, hv, h⟩ := bind_eq_ok.mp h
    exact .inl ⟨hi, v, hv, (Except.ok.inj h).symm⟩
  · rename_i h0
    split at h
    · rename_i hi
      obtain ⟨v, hv, h⟩ := bind_eq_ok.mp h
      exact .inr (.inl ⟨hi, v, hv, (Except.ok.inj h).symm⟩)
    · rename_i h3
      split at h
      · rename_i hi
        obtain ⟨v, hv, h⟩ := bind_eq_ok.mp h
        exact .inr (.inr (.inl ⟨hi, v, hv, (Except.ok.inj h).symm⟩))
      · rename_i h15
        split at h
        · rename_i hi
          obtain ⟨v, hv, h⟩ := bind_eq_ok.mp h
          exact .inr (.inr (.inr (.inl ⟨hi, v, hv, (Except.ok.inj h).symm⟩)))
        · rename_i h17
          split at h
          · rename_i hi
            obtain ⟨v, hv, h⟩ := bind_eq_ok.mp h
            exact .inr (.inr (.inr (.inr (.inl ⟨hi, v, hv, (Except.ok.inj h).symm⟩))))
          · rename_i h18
            exact .inr (.inr (.inr (.inr (.inr ⟨h0, h3, h15, h17, h18, (Except.ok.inj h).symm⟩))))

/-- The decoded fields are those of the header with the items `fs`. -/
structure FieldsOf (profile : ProtocolProfile) (fs : List RlpFieldRef) (d : ParentHeaderFields) :
    Prop where
  parentHash : FieldRead decodeHeaderHash (false, zeroHash) (d.haveParent, d.parentHash) fs[0]?
  stateRoot : FieldRead decodeHeaderHash (false, zeroHash) (d.haveState, d.stateRoot) fs[3]?
  baseFee : FieldRead rlpDecodeU256 (false, 0) (d.haveBaseFee, d.baseFee) fs[15]?
  blobGasUsed : FieldRead (decodeHeaderBlobGasUsed profile) (false, 0)
    (d.haveBlobGas, d.blobGasUsed) fs[17]?
  excessBlobGas : FieldRead (decodeHeaderExcessBlobGas profile) (false, 0)
    (d.haveExcessBlobGas, d.excessBlobGas) fs[18]?

theorem foldHeaderFields_fieldsOf {profile : ProtocolProfile} {fs : List RlpFieldRef}
    {d : ParentHeaderFields} (h : foldHeaderFields profile fs 0 emptyParentHeaderFields = .ok d) :
    FieldsOf profile fs d := by
  constructor
  · refine foldHeaderFields_reads (fun d => (d.haveParent, d.parentHash)) 0 decodeHeaderHash
      (by decide) ?_ ?_ h
    · intro f acc acc' hstep
      rcases decodeParentHeaderField_cases hstep with ⟨_, v, hv, rfl⟩ | ⟨hi, _⟩ | ⟨hi, _⟩ |
        ⟨hi, _⟩ | ⟨hi, _⟩ | ⟨hi, _⟩
      · exact ⟨rfl, hv⟩
      all_goals exact absurd hi (by decide)
    · intro i f acc acc' hne hstep
      rcases decodeParentHeaderField_cases hstep with ⟨hi, _⟩ | ⟨_, _, _, rfl⟩ | ⟨_, _, _, rfl⟩ |
        ⟨_, _, _, rfl⟩ | ⟨_, _, _, rfl⟩ | ⟨_, _, _, _, _, rfl⟩
      · exact absurd hi hne
      all_goals rfl
  · refine foldHeaderFields_reads (fun d => (d.haveState, d.stateRoot)) 3 decodeHeaderHash
      (by decide) ?_ ?_ h
    · intro f acc acc' hstep
      rcases decodeParentHeaderField_cases hstep with ⟨hi, _⟩ | ⟨_, v, hv, rfl⟩ | ⟨hi, _⟩ |
        ⟨hi, _⟩ | ⟨hi, _⟩ | ⟨_, hi, _⟩
      · exact absurd hi (by decide)
      · exact ⟨rfl, hv⟩
      all_goals exact absurd hi (by decide)
    · intro i f acc acc' hne hstep
      rcases decodeParentHeaderField_cases hstep with ⟨_, _, _, rfl⟩ | ⟨hi, _⟩ | ⟨_, _, _, rfl⟩ |
        ⟨_, _, _, rfl⟩ | ⟨_, _, _, rfl⟩ | ⟨_, _, _, _, _, rfl⟩
      · rfl
      · exact absurd hi hne
      all_goals rfl
  · refine foldHeaderFields_reads (fun d => (d.haveBaseFee, d.baseFee)) 15 rlpDecodeU256
      (by decide) ?_ ?_ h
    · intro f acc acc' hstep
      rcases decodeParentHeaderField_cases hstep with ⟨hi, _⟩ | ⟨hi, _⟩ | ⟨_, v, hv, rfl⟩ |
        ⟨hi, _⟩ | ⟨hi, _⟩ | ⟨_, _, hi, _⟩
      · exact absurd hi (by decide)
      · exact absurd hi (by decide)
      · exact ⟨rfl, hv⟩
      all_goals exact absurd hi (by decide)
    · intro i f acc acc' hne hstep
      rcases decodeParentHeaderField_cases hstep with ⟨_, _, _, rfl⟩ | ⟨_, _, _, rfl⟩ | ⟨hi, _⟩ |
        ⟨_, _, _, rfl⟩ | ⟨_, _, _, rfl⟩ | ⟨_, _, _, _, _, rfl⟩
      · rfl
      · rfl
      · exact absurd hi hne
      all_goals rfl
  · refine foldHeaderFields_reads (fun d => (d.haveBlobGas, d.blobGasUsed)) 17
      (decodeHeaderBlobGasUsed profile) (by decide) ?_ ?_ h
    · intro f acc acc' hstep
      rcases decodeParentHeaderField_cases hstep with ⟨hi, _⟩ | ⟨hi, _⟩ | ⟨hi, _⟩ |
        ⟨_, v, hv, rfl⟩ | ⟨hi, _⟩ | ⟨_, _, _, hi, _⟩
      · exact absurd hi (by decide)
      · exact absurd hi (by decide)
      · exact absurd hi (by decide)
      · exact ⟨rfl, hv⟩
      all_goals exact absurd hi (by decide)
    · intro i f acc acc' hne hstep
      rcases decodeParentHeaderField_cases hstep with ⟨_, _, _, rfl⟩ | ⟨_, _, _, rfl⟩ |
        ⟨_, _, _, rfl⟩ | ⟨hi, _⟩ | ⟨_, _, _, rfl⟩ | ⟨_, _, _, _, _, rfl⟩
      · rfl
      · rfl
      · rfl
      · exact absurd hi hne
      all_goals rfl
  · refine foldHeaderFields_reads (fun d => (d.haveExcessBlobGas, d.excessBlobGas)) 18
      (decodeHeaderExcessBlobGas profile) (by decide) ?_ ?_ h
    · intro f acc acc' hstep
      rcases decodeParentHeaderField_cases hstep with ⟨hi, _⟩ | ⟨hi, _⟩ | ⟨hi, _⟩ | ⟨hi, _⟩ |
        ⟨_, v, hv, rfl⟩ | ⟨_, _, _, _, hi, _⟩
      · exact absurd hi (by decide)
      · exact absurd hi (by decide)
      · exact absurd hi (by decide)
      · exact absurd hi (by decide)
      · exact ⟨rfl, hv⟩
      · exact absurd rfl hi
    · intro i f acc acc' hne hstep
      rcases decodeParentHeaderField_cases hstep with ⟨_, _, _, rfl⟩ | ⟨_, _, _, rfl⟩ |
        ⟨_, _, _, rfl⟩ | ⟨_, _, _, rfl⟩ | ⟨hi, _⟩ | ⟨_, _, _, _, _, rfl⟩
      · rfl
      · rfl
      · rfl
      · rfl
      · exact absurd hi hne
      · rfl

/-! ## What a header says -/

/-- The parent-hash field of a header. -/
def NamesParent (header : List Byte) (h : Hash) : Prop :=
  ∃ fs f, HeaderItems header fs ∧ fs[0]? = some f ∧ decodeHeaderHash f = .ok h

/-- The value of a field, if it is there. -/
def ReadOr {α : Type} (read : RlpFieldRef → Result α) (default value : α) :
    Option RlpFieldRef → Prop
  | some f => read f = .ok value
  | none => value = default

/-- The fields of a header that execution uses.  From Cancun on the base fee
is there, and the two blob fields are both there or both absent. -/
structure HeaderContext (profile : ProtocolProfile) (fs : List RlpFieldRef) (stateRoot : Hash)
    (baseFee : Word) (blobGasUsed excessBlobGas : Nat) : Prop where
  stateRoot : ∃ f, fs[3]? = some f ∧ decodeHeaderHash f = .ok stateRoot
  baseFee : ReadOr rlpDecodeU256 0 baseFee fs[15]?
  blobGasUsed : ReadOr (decodeHeaderBlobGasUsed profile) 0 blobGasUsed fs[17]?
  excessBlobGas : ReadOr (decodeHeaderExcessBlobGas profile) 0 excessBlobGas fs[18]?
  complete : Fork.cancun ≤ profile.fork →
    fs[15]?.isSome = true ∧ fs[17]?.isSome = fs[18]?.isSome

theorem FieldRead.have_eq {α : Type} {read : RlpFieldRef → Result α} {default : α}
    {new : Bool × α} {field : Option RlpFieldRef}
    (h : FieldRead read (false, default) new field) : new.1 = field.isSome := by
  cases field with
  | none => exact congrArg Prod.fst h
  | some f => exact h.1

theorem FieldRead.readOr {α : Type} {read : RlpFieldRef → Result α} {default : α}
    {new : Bool × α} {field : Option RlpFieldRef}
    (h : FieldRead read (false, default) new field) : ReadOr read default new.2 field := by
  cases field with
  | none => exact congrArg Prod.snd h
  | some f => exact h.2

theorem FieldRead.value {α : Type} {read : RlpFieldRef → Result α} {default : α}
    {new : Bool × α} {field : Option RlpFieldRef}
    (h : FieldRead read (false, default) new field) (hhave : new.1 = true) :
    ∃ f, field = some f ∧ read f = .ok new.2 := by
  cases field with
  | none =>
    rw [show new = (false, default) from h] at hhave
    cases hhave
  | some f => exact ⟨f, rfl, h.2⟩

/-- The fields of a header with all that has to be there. -/
theorem FieldsOf.context {profile : ProtocolProfile} {fs : List RlpFieldRef}
    {d : ParentHeaderFields} (h : FieldsOf profile fs d)
    (hvalid : parentFieldsValid profile d = true) :
    HeaderContext profile fs d.stateRoot d.baseFee d.blobGasUsed d.excessBlobGas := by
  have hstate : d.haveState = true := by
    rw [parentFieldsValid] at hvalid
    split at hvalid
    · rw [Bool.and_eq_true, Bool.and_eq_true] at hvalid
      exact hvalid.1.1
    · exact hvalid
  refine ⟨h.stateRoot.value hstate, h.baseFee.readOr, h.blobGasUsed.readOr,
    h.excessBlobGas.readOr, ?_⟩
  intro hfork
  rw [parentFieldsValid, if_pos hfork, Bool.and_eq_true, Bool.and_eq_true, beq_iff_eq] at hvalid
  have hbase := h.baseFee.have_eq
  have hused := h.blobGasUsed.have_eq
  have hexcess := h.excessBlobGas.have_eq
  exact ⟨hbase.symm.trans hvalid.1.2, hused.symm.trans (hvalid.2.trans hexcess)⟩

/-! ## One step of the walk -/

/-- After some steps the walk stands behind the headers `hs`. -/
structure Walked (keccak256 : List Byte → Hash) (profile : ProtocolProfile)
    (headers : BoundedSszListRef) (hs : List (List Byte))
    (s : WitnessHeaderIndex × AncestorTable) : Prop where
  items : s.1.cursor.items = headers
  index : s.1.cursor.index = hs.length
  inside : hs.length ≤ headers.count
  current : hs.length < headers.count →
    sszU32InSlice headers.bytes (sszOffsetTablePosition hs.length) = .ok s.1.cursor.current
  read : ∀ i header, hs[i]? = some header → sszListAt headers i = .ok header
  previous : ∀ header, hs.getLast? = some header → s.1.previousHash = keccak256 header
  linked : s.1.valid = true → headers.count ≠ 0 ∧
    ∀ i older newer, hs[i]? = some older → hs[i + 1]? = some newer →
      NamesParent newer (keccak256 older)
  ancestors : ∀ i header, hs[i]? = some header →
    s.2 (headers.count - (i + 1)) = keccak256 header
  parent : hs.length = headers.count → s.1.parentFieldsValid = true →
    ∃ newest fs, hs.getLast? = some newest ∧ HeaderItems newest fs ∧
      HeaderContext profile fs s.1.parentStateRoot s.1.parentBaseFeePerGas s.1.parentBlobGasUsed
        s.1.parentExcessBlobGas

theorem getElem?_snoc {α : Type} {l : List α} {x y : α} {i : Nat}
    (h : (l ++ [x])[i]? = some y) : l[i]? = some y ∨ (i = l.length ∧ x = y) := by
  rcases Nat.lt_trichotomy i l.length with hlt | heq | hgt
  · rw [List.getElem?_append_left hlt] at h
    exact .inl h
  · rw [heq, List.getElem?_concat_length] at h
    exact .inr ⟨heq, Option.some.inj h⟩
  · rw [List.getElem?_eq_none (by simp; omega)] at h
    cases h

/-- What decoding a header does to the running state. -/
theorem decodeWitnessHeader_eq_ok {profile : ProtocolProfile} {index : Nat} {isLast : Bool}
    {header : List Byte} {state result : WitnessHeaderIndex}
    (h : decodeWitnessHeader profile index isLast header state = .ok result) :
    (result.valid = true → state.valid = true ∧
      (index ≠ 0 → NamesParent header state.previousHash)) ∧
    (isLast = true → result.parentFieldsValid = true → ∃ fs, HeaderItems header fs ∧
      HeaderContext profile fs result.parentStateRoot result.parentBaseFeePerGas
        result.parentBlobGasUsed result.parentExcessBlobGas) := by
  rw [decodeWitnessHeader] at h
  split at h
  · obtain ⟨content, hcontent, h⟩ := bind_eq_ok.mp h
    obtain ⟨d, hd, h⟩ := bind_eq_ok.mp h
    obtain ⟨fs, hfs, hfold⟩ := decodeParentHeaderFields_eq_ok.mp hd
    have hfields := foldHeaderFields_fieldsOf hfold
    have hitems : HeaderItems header fs := ⟨content, hcontent, hfs⟩
    cases h
    constructor
    · intro hvalid
      have hlink : (linkHeader index d state).valid = true := by
        rw [installParent] at hvalid
        split at hvalid <;> exact hvalid
      rw [linkHeader] at hlink
      split at hlink
      · split at hlink
        · cases hlink
        · rename_i hhave
          split at hlink
          · cases hlink
          · rename_i hsame
            obtain ⟨f, hf, hread⟩ := hfields.parentHash.value (by simpa using hhave)
            refine ⟨hlink, fun _ => ⟨fs, f, hitems, hf, ?_⟩⟩
            rw [← not_not.mp hsame]
            exact hread
      · rename_i hzero
        exact ⟨hlink, fun hne => absurd hne hzero⟩
    · intro hlast hvalid
      rw [installParent, if_pos hlast] at hvalid ⊢
      exact ⟨fs, hitems, hfields.context hvalid⟩
  · rename_i hskip
    cases h
    refine ⟨fun hvalid => ⟨hvalid, fun hne => absurd (.inl hne) hskip⟩, ?_⟩
    intro hlast
    exact absurd (.inr hlast) hskip

/-- A step reads the next header. -/
theorem Walked.step {keccak256 : List Byte → Hash} {profile : ProtocolProfile}
    {headers : BoundedSszListRef} {hs : List (List Byte)}
    {s s' : WitnessHeaderIndex × AncestorTable}
    (hcount : headers.count ≤ 256) (hw : Walked keccak256 profile headers hs s)
    (h : indexWitnessHeader keccak256 profile s = .ok s') :
    ∃ header, Walked keccak256 profile headers (hs ++ [header]) s' := by
  obtain ⟨⟨header, next⟩, hpop, h⟩ := bind_eq_ok.mp h
  obtain ⟨result, hresult, h⟩ := bind_eq_ok.mp h
  obtain ⟨distance, hdistance, h⟩ := bind_eq_ok.mp h
  obtain ⟨hlt, hstop, hle, hin, hmax, hheader, hnext⟩ := sszListPop_eq_ok.mp hpop
  have hcursor : result.cursor = next := decodeWitnessHeader_cursor profile hresult
  obtain ⟨hlink, hparent⟩ := decodeWitnessHeader_eq_ok hresult
  rw [hw.items, hw.index] at hlt hstop
  rw [hw.items] at hin hmax hheader
  have hitems : next.items = headers := by rw [hnext, ← hw.items]
  have hindex : next.index = hs.length + 1 := by rw [hnext, ← hw.index]
  have hlength : (hs ++ [header]).length = hs.length + 1 := List.length_append
  -- the item that is popped is the one at the cursor's index
  have hread : sszListAt headers hs.length = .ok header := by
    rw [sszListAt, if_pos hlt, hw.current hlt, ok_bind, hstop, ok_bind, if_pos ⟨hle, hin⟩]
    rw [if_neg hmax, hheader]
  have hdist : distance = headers.count - (hs.length + 1) := by
    have hle : hs.length + 1 ≤ headers.count := hlt
    rw [headerDistance, hindex, hw.items, if_pos hle] at hdistance
    exact (Except.ok.inj hdistance).symm
  cases h
  refine ⟨header, ?_⟩
  constructor
  · rw [← hitems, ← hcursor]
  · rw [hlength, ← hindex, ← hcursor]
  · rw [hlength]
    exact hlt
  · intro hmore
    rw [hlength] at hmore ⊢
    rw [sszListStop, if_pos hmore] at hstop
    rw [hstop, ← hcursor]
  · intro i header' hi
    rcases getElem?_snoc hi with hold | ⟨rfl, rfl⟩
    · exact hw.read i header' hold
    · exact hread
  · intro header' hlast
    rw [List.getLast?_concat] at hlast
    cases hlast
    rfl
  · intro hvalid
    obtain ⟨hstate, hnames⟩ := hlink hvalid
    obtain ⟨hne, hlinked⟩ := hw.linked hstate
    refine ⟨hne, ?_⟩
    intro i older newer hi hsucc
    rcases getElem?_snoc hsucc with hold | ⟨heq, rfl⟩
    · have hbelow := (List.getElem?_eq_some_iff.mp hold).1
      rw [List.getElem?_append_left (by omega)] at hi
      exact hlinked i older newer hi hold
    · -- the new header names the last one before it
      rw [List.getElem?_append_left (by omega)] at hi
      have hlast : hs.getLast? = some older := by
        rw [List.getLast?_eq_getElem?, ← heq, Nat.add_sub_cancel]
        exact hi
      rw [← hw.previous older hlast]
      exact hnames (by rw [hw.index]; omega)
  · intro i header' hi
    have hwindow : distance < 256 := by omega
    rw [recordAncestor, if_pos hwindow]
    change Function.update s.2 distance (keccak256 header) (headers.count - (i + 1)) = _
    rcases getElem?_snoc hi with hold | ⟨rfl, rfl⟩
    · have hbelow := (List.getElem?_eq_some_iff.mp hold).1
      rw [Function.update_of_ne (by omega)]
      exact hw.ancestors i header' hold
    · rw [← hdist, Function.update_self]
  · intro hall hvalid
    rw [hlength] at hall
    have hlast : (next.index == s.1.cursor.items.count) = true := by
      rw [hindex, hw.items, hall]
      exact beq_self_eq_true _
    obtain ⟨fs, hfs, hcontext⟩ := hparent hlast hvalid
    exact ⟨header, fs, List.getLast?_concat, hfs, hcontext⟩

/-- The walk starts at the first header. -/
theorem walked_start {keccak256 : List Byte → Hash} {profile : ProtocolProfile}
    {headers : BoundedSszListRef} (hlist : sszRawCount headers.bytes = .ok headers.count)
    (ancestors : AncestorTable) :
    Walked keccak256 profile headers [] (witnessHeaderStart headers, ancestors) := by
  constructor
  · rfl
  · rfl
  · exact Nat.zero_le _
  · intro hpos
    have hlen : 4 ≤ headers.bytes.length := by
      rw [sszRawCount] at hlist
      split at hlist
      · have hzero := Except.ok.inj hlist
        rw [← hzero] at hpos
        cases hpos
      · split at hlist
        · cases hlist
        · omega
    have hne : headers.count ≠ 0 := Nat.ne_of_gt hpos
    rw [sszU32InSlice, if_pos ⟨Nat.zero_le _, hlen⟩, witnessHeaderStart, sszListCursor,
      if_pos hne]
    rfl
  · intro i header hi
    cases hi
  · intro header hlast
    cases hlast
  · intro hvalid
    refine ⟨of_decide_eq_true hvalid, ?_⟩
    intro i older newer hi
    cases hi
  · intro i header hi
    cases hi
  · intro _ hvalid
    cases hvalid

/-- The whole walk. -/
theorem indexWitnessHeaderCursor_walked {keccak256 : List Byte → Hash} {profile : ProtocolProfile}
    {headers : BoundedSszListRef} (hlist : sszRawCount headers.bytes = .ok headers.count)
    (hcount : headers.count ≤ 256) {ancestors : AncestorTable}
    {s : WitnessHeaderIndex × AncestorTable}
    (h : indexWitnessHeaderCursor keccak256 profile (witnessHeaderStart headers, ancestors) =
      .ok s) :
    ∃ hs, hs.length = headers.count ∧ Walked keccak256 profile headers hs s := by
  have hends : Ends (fun s => (∃ hs, Walked keccak256 profile headers hs s) ∧
        (!sszListCursorEmpty s.1.cursor) = false) (fun _ => True)
      (indexWitnessHeaderCursor keccak256 profile (witnessHeaderStart headers, ancestors)) := by
    refine Ends.loop ?_ ⟨[], walked_start hlist ancestors⟩
    rintro s ⟨hs, hw⟩ _
    refine Ends.of_forall_ok ?_
    intro s' hs'
    obtain ⟨header, hw'⟩ := hw.step hcount hs'
    exact ⟨hs ++ [header], hw'⟩
  obtain ⟨⟨hs, hw⟩, hempty⟩ := hends.of_ok h
  have hall : headers.count ≤ hs.length := by
    rw [Bool.not_eq_false', sszListCursorEmpty, decide_eq_true_eq, hw.items, hw.index] at hempty
    exact hempty
  exact ⟨hs, Nat.le_antisymm hw.inside hall, hw⟩

/-! ## Main result -/

/-- What an indexed witness says about the headers `hs`, from the oldest to
the newest: every header names the hash of the one before it, the table
holds the hashes by their distance from the newest one, and the context is
read from the newest one. -/
structure Authenticated (keccak256 : List Byte → Hash) (profile : ProtocolProfile)
    (hs : List (List Byte)) (w : IndexedHeaders) : Prop where
  linked : ∀ i older newer, hs[i]? = some older → hs[i + 1]? = some newer →
    NamesParent newer (keccak256 older)
  ancestors : ∀ d header, hs.reverse[d]? = some header → w.ancestors d = keccak256 header
  count : w.nHeaders = hs.length
  parent : ∃ newest fs, hs.getLast? = some newest ∧ w.context.parentHash = keccak256 newest ∧
    HeaderItems newest fs ∧
    HeaderContext profile fs w.context.parentStateRoot w.context.parentBaseFeePerGas
      w.context.parentBlobGasUsed w.context.parentExcessBlobGas

/-- What `BLOCKHASH` of `n` comes to in the block `number` over the chain `hs`:
zero outside the window, in it the hash of the header at the distance that is
asked for, and a halt where the chain does not go back so far. -/
structure BlockhashOf (keccak256 : List Byte → Hash) (hs : List (List Byte)) (number n : Nat)
    (read : Result Hash) : Prop where
  outside : number ≤ n ∨ 256 < number - n → read = .ok zeroHash
  covered : ∀ header, n < number → number - n ≤ 256 →
    hs.reverse[number - n - 1]? = some header → read = .ok (keccak256 header)
  missing : n < number → number - n ≤ 256 → hs.length < number - n →
    read = .error (.fatal .witnessDeficient)
  only : ∀ r, read = .ok r →
    (r = zeroHash ∧ (number ≤ n ∨ 256 < number - n)) ∨
      (n < number ∧ number - n ≤ 256 ∧
        ∃ header, hs.reverse[number - n - 1]? = some header ∧ r = keccak256 header)

/-- `BLOCKHASH` in terms of the ancestors. -/
theorem Authenticated.blockhash {keccak256 : List Byte → Hash} {profile : ProtocolProfile}
    {hs : List (List Byte)} {w : IndexedHeaders} (hw : Authenticated keccak256 profile hs w)
    {number : Nat} (hnumber : number < 2 ^ 64) (n : Word) :
    BlockhashOf keccak256 hs number n.toNat
      (kBlockhash number w.nHeaders w.ancestors n) := by
  have hword : (BitVec.ofNat 256 number).toNat = number := by
    rw [BitVec.toNat_ofNat]
    exact Nat.mod_eq_of_lt (hnumber.trans (by norm_num))
  have hlt : n < BitVec.ofNat 256 number ↔ n.toNat < number := by
    rw [BitVec.lt_def, hword]
  have houtside : number ≤ n.toNat ∨ 256 < number - n.toNat →
      kBlockhash number w.nHeaders w.ancestors n = .ok zeroHash := by
    intro hout
    rw [kBlockhash]
    simp only
    split
    · next hbelow =>
      have hbelow := hlt.mp hbelow
      rw [hword, if_neg (by omega)]
    · rfl
  have hinside : n.toNat < number → number - n.toNat ≤ 256 →
      kBlockhash number w.nHeaders w.ancestors n =
        if hs.length < number - n.toNat then .error (.fatal .witnessDeficient)
        else .ok (w.ancestors (number - n.toNat - 1)) := by
    intro hbelow hwindow
    rw [kBlockhash]
    simp only
    rw [if_pos (hlt.mpr hbelow), hword, if_pos hwindow, hw.count]
    rfl
  have hheader : ∀ header, hs.reverse[number - n.toNat - 1]? = some header →
      number - n.toNat - 1 < hs.length := by
    intro header hheader
    have hlength := (List.getElem?_eq_some_iff.mp hheader).1
    rwa [List.length_reverse] at hlength
  refine ⟨houtside, ?_, ?_, ?_⟩
  · intro header hbelow hwindow hat
    have hlength := hheader header hat
    rw [hinside hbelow hwindow, if_neg (by omega), hw.ancestors _ header hat]
  · intro hbelow hwindow hshort
    rw [hinside hbelow hwindow, if_pos hshort]
  · intro r hr
    by_cases hout : number ≤ n.toNat ∨ 256 < number - n.toNat
    · rw [houtside hout] at hr
      cases hr
      exact .inl ⟨rfl, hout⟩
    · have hbelow : n.toNat < number := by omega
      have hwindow : number - n.toNat ≤ 256 := by omega
      rw [hinside hbelow hwindow] at hr
      split at hr
      · cases hr
      · cases hr
        have hlength : number - n.toNat - 1 < hs.reverse.length := by
          rw [List.length_reverse]
          omega
        have hat := List.getElem?_eq_getElem hlength
        exact .inr ⟨hbelow, hwindow, _, hat, hw.ancestors _ _ hat⟩

/-- A walk over the witness headers that returns has authenticated them: the
items of the list are a chain, of which the newest header is the parent of
every payload that passes the check of its parent hash, and `BLOCKHASH`
returns the hash of the header at the distance that is asked for in the
window, and zero outside of it. -/
theorem indexWitnessHeaders_sound (keccak256 : List Byte → Hash) (profile : ProtocolProfile)
    (headers : BoundedSszListRef) (ancestors : AncestorTable) (w : IndexedHeaders)
    (hlist : sszRawCount headers.bytes = .ok headers.count) (hcount : headers.count ≤ 2 ^ 8)
    (h : indexWitnessHeaders keccak256 profile headers ancestors = .ok w) :
    ∃ hs : List (List Byte), hs.length = headers.count ∧
      (∀ i header, hs[i]? = some header → sszListAt headers i = .ok header) ∧
      Authenticated keccak256 profile hs w ∧
      (∀ gasLimit gasUsed parentHash,
        checkParentLinkage gasLimit gasUsed parentHash w.context = .ok () →
        ∃ newest, hs.getLast? = some newest ∧ parentHash = keccak256 newest) ∧
      (∀ number < 2 ^ 64, ∀ n : Word,
        BlockhashOf keccak256 hs number n.toNat
          (kBlockhash number w.nHeaders w.ancestors n)) := by
  obtain ⟨s, hs, h⟩ := bind_eq_ok.mp h
  obtain ⟨hdrs, hlen, hw⟩ := indexWitnessHeaderCursor_walked hlist hcount hs
  rw [witnessContext] at h
  split at h
  · cases h
  · rename_i hvalid
    split at h
    · cases h
    · rename_i hfields
      cases h
      have hvalid : s.1.valid = true := by simpa using hvalid
      have hfields : s.1.parentFieldsValid = true := by simpa using hfields
      obtain ⟨newest, fs, hlast, hitems, hcontext⟩ := hw.parent hlen hfields
      have hauth : Authenticated keccak256 profile hdrs
          { context :=
              { parentHash := s.1.previousHash
                parentStateRoot := s.1.parentStateRoot
                parentBaseFeePerGas := s.1.parentBaseFeePerGas
                parentBlobGasUsed := s.1.parentBlobGasUsed
                parentExcessBlobGas := s.1.parentExcessBlobGas }
            nHeaders := headers.count
            ancestors := s.2 } := by
        refine ⟨(hw.linked hvalid).2, ?_, hlen.symm,
          newest, fs, hlast, hw.previous newest hlast, hitems, hcontext⟩
        intro d header hd
        have hbelow := (List.getElem?_eq_some_iff.mp hd).1
        rw [List.length_reverse] at hbelow
        rw [List.getElem?_reverse hbelow] at hd
        have hentry := hw.ancestors _ header hd
        rwa [show headers.count - (hdrs.length - 1 - d + 1) = d by omega] at hentry
      refine ⟨hdrs, hlen, hw.read, hauth, ?_, ?_⟩
      · intro gasLimit gasUsed parentHash hcheck
        rw [checkParentLinkage] at hcheck
        split at hcheck
        · cases hcheck
        · split at hcheck
          · cases hcheck
          · rename_i hsame
            refine ⟨newest, hlast, ?_⟩
            rw [← not_not.mp hsame]
            exact hw.previous newest hlast
      · intro number hnumber n
        exact hauth.blockhash hnumber n

/-! ## The number of the parent -/

/-- The fields of a header with the number 5. -/
def unlinkedFields : List (List Byte) :=
  [List.replicate 32 0, List.replicate 32 0, List.replicate 20 0, List.replicate 32 0,
    List.replicate 32 0, List.replicate 32 0, List.replicate 256 0, [], [5], [], [], [], [],
    List.replicate 32 0, List.replicate 8 0, [7], List.replicate 32 0]

def unlinkedItems : List RlpFieldRef := unlinkedFields.map bytesField

def unlinkedHeader : List Byte := rlpList (sourcesOf unlinkedItems)

/-- A witness with that one header. -/
def unlinkedHeaders : BoundedSszListRef := ⟨[4, 0, 0, 0] ++ unlinkedHeader, 1, 2 ^ 10⟩

/-- Keccak-256 on the header. -/
def keccakTable (bytes : List Byte) : Hash :=
  if bytes = unlinkedHeader then
    hashFromBits 0xd6b4abf52e51058a82a130182b5f7900776b694c74164e92968243f74d5f0af2
  else zeroHash

def shanghaiProfile : ProtocolProfile :=
  packProtocolProfile .shanghai inactiveBlobSchedule 24576 49152 sszUintBound sszUintBound 0 5

theorem length_unlinkedSources : (sourcesOf unlinkedItems).length = 527 := by
  decide +kernel

theorem headerItems_unlinked : HeaderItems unlinkedHeader unlinkedItems := by
  have hlen : (sourcesOf unlinkedItems).length ≤ scratchRegionBound := by
    rw [length_unlinkedSources, scratchRegionBound_eq]
    omega
  refine ⟨_, rlpNodeCursor_list hlen, ?_, rfl⟩
  intro f hf
  obtain ⟨b, hb, rfl⟩ := List.mem_map.mp hf
  have hshort : ∀ b ∈ unlinkedFields, b.length ≤ 256 := by decide +kernel
  refine announced_bytesField ((hshort b hb).trans ?_)
  rw [scratchRegionBound_eq]
  omega

/-- The walk over the one header. -/
theorem indexWitnessHeaders_unlinked :
    ∃ w, sszRawCount unlinkedHeaders.bytes = .ok unlinkedHeaders.count ∧
      indexWitnessHeaders keccakTable shanghaiProfile unlinkedHeaders (fun _ => zeroHash) = .ok w ∧
      w.nHeaders = 1 ∧ w.context.parentHash = keccakTable unlinkedHeader ∧
      w.ancestors 0 = keccakTable unlinkedHeader := by
  have hheader : unlinkedHeader.length = 530 := by
    rw [unlinkedHeader, length_rlpList, length_unlinkedSources]
    decide
  have hbytes : unlinkedHeaders.bytes.length = 534 := by
    rw [unlinkedHeaders, List.length_append, hheader]
    rfl
  obtain ⟨content, hcontent, hfields⟩ := headerItems_unlinked
  have hfold : ∃ d, foldHeaderFields shanghaiProfile unlinkedItems 0 emptyParentHeaderFields =
      .ok d ∧ parentFieldsValid shanghaiProfile d = true := ⟨_, rfl, rfl⟩
  obtain ⟨d, hd, hvalid⟩ := hfold
  have hdecoded := decodeParentHeaderFields_eq_ok.mpr ⟨_, hfields, hd⟩
  have hcursor : sszListCursor unlinkedHeaders = ⟨unlinkedHeaders, 0, 4⟩ := rfl
  have hitem : unlinkedHeader = subSlice unlinkedHeaders.bytes 4 (534 - 4) := by
    have hfour : ∀ (a b c e : Byte) (l : List Byte), ([a, b, c, e] ++ l).drop 4 = l := by
      intros
      rfl
    have hdrop : unlinkedHeaders.bytes.drop 4 = unlinkedHeader := hfour _ _ _ _ _
    rw [subSlice, hdrop, List.take_of_length_le (by rw [hheader])]
  have hpop : sszListPop (sszListCursor unlinkedHeaders) =
      .ok (unlinkedHeader, ⟨unlinkedHeaders, 1, 534⟩) := by
    rw [hcursor]
    refine sszListPop_eq_ok.mpr ⟨Nat.one_pos, ?_, by decide, ?_, by decide, hitem, rfl⟩
    · rw [← hbytes]
      rfl
    · rw [← hbytes]
  have hdecode : ∀ state, decodeWitnessHeader shanghaiProfile 0 true unlinkedHeader state =
      .ok (installParent shanghaiProfile true d state) := by
    intro state
    rw [decodeWitnessHeader, if_pos (.inr rfl), hcontent, ok_bind, hdecoded, ok_bind]
    rfl
  -- the one step of the walk
  obtain ⟨k, hk⟩ : ∃ k, keccakTable unlinkedHeader = k := ⟨_, rfl⟩
  obtain ⟨s, hs⟩ : ∃ s : WitnessHeaderIndex × AncestorTable,
      s = ({ installParent shanghaiProfile true d
              { witnessHeaderStart unlinkedHeaders with cursor := ⟨unlinkedHeaders, 1, 534⟩ } with
            previousHash := k },
          recordAncestor (fun _ => zeroHash) 0 k) := ⟨_, rfl⟩
  have hstep : indexWitnessHeader keccakTable shanghaiProfile
      (witnessHeaderStart unlinkedHeaders, fun _ => zeroHash) =
        .ok s := by
    rw [hs, indexWitnessHeader]
    change (sszListPop (sszListCursor unlinkedHeaders) >>= _) = _
    rw [hpop, ok_bind]
    change (decodeWitnessHeader shanghaiProfile 0 true unlinkedHeader _ >>= _) = _
    rw [hdecode, ← hk]
    rfl
  have hwalk : indexWitnessHeaderCursor keccakTable shanghaiProfile
      (witnessHeaderStart unlinkedHeaders, fun _ => zeroHash) =
        .ok s := by
    have hcursor : s.1.cursor = ⟨unlinkedHeaders, 1, 534⟩ := by rw [hs]; rfl
    rw [indexWitnessHeaderCursor, loop_step rfl, hstep, ok_bind, loop_done]
    rw [hcursor]
    rfl
  have hsvalid : s.1.valid = true := by rw [hs]; rfl
  have hsfields : s.1.parentFieldsValid = true := by rw [hs]; exact hvalid
  have hsprevious : s.1.previousHash = k := by rw [hs]
  have hstable : s.2 0 = k := by rw [hs]; rfl
  have hcount : sszRawCount unlinkedHeaders.bytes = .ok unlinkedHeaders.count := by
    rw [sszRawCount]
    simp only [hbytes]
    rfl
  have hindexed : ∃ w, indexWitnessHeaders keccakTable shanghaiProfile unlinkedHeaders
      (fun _ => zeroHash) = .ok w ∧ w.nHeaders = 1 ∧ w.context.parentHash = k ∧
      w.ancestors 0 = k := by
    rw [indexWitnessHeaders, hwalk, ok_bind, witnessContext, if_neg (by simp [hsvalid]),
      if_neg (by simp [hsfields])]
    exact ⟨_, rfl, rfl, hsprevious, hstable⟩
  obtain ⟨w, hw, hn, hparent, hancestor⟩ := hindexed
  exact ⟨w, hcount, hw, hn, hparent.trans hk.symm, hancestor.trans hk.symm⟩

theorem indexWitnessHeaders_sound_unlinked :
    ∃ w, indexWitnessHeaders keccakTable shanghaiProfile unlinkedHeaders (fun _ => zeroHash) =
        .ok w ∧
      ∃ hs : List (List Byte), hs.length = 1 ∧ Authenticated keccakTable shanghaiProfile hs w := by
  obtain ⟨w, hcount, hw, _⟩ := indexWitnessHeaders_unlinked
  obtain ⟨hs, hlen, _, hauth, _⟩ := indexWitnessHeaders_sound keccakTable shanghaiProfile
    unlinkedHeaders (fun _ => zeroHash) w hcount (by decide) hw
  exact ⟨w, hw, hs, hlen, hauth⟩

/-- The walk does not look at the number of a header: under an executing
block with the number 1000, `BLOCKHASH(999)` is the hash of a header that
says it has the number 5. -/
theorem blockhash_unlinkedNumber :
    ∃ w f, indexWitnessHeaders keccakTable shanghaiProfile unlinkedHeaders (fun _ => zeroHash) =
        .ok w ∧
      checkParentLinkage 0 0 (keccakTable unlinkedHeader) w.context = .ok () ∧
      kBlockhash 1000 w.nHeaders w.ancestors 999 = .ok (keccakTable unlinkedHeader) ∧
      HeaderItems unlinkedHeader unlinkedItems ∧ unlinkedItems[8]? = some f ∧
      rlpDecodeUint64 f = .ok 5 := by
  obtain ⟨w, _, hw, hn, hparent, hancestor⟩ := indexWitnessHeaders_unlinked
  refine ⟨w, bytesField [5], hw, ?_, ?_, headerItems_unlinked, rfl, rfl⟩
  · rw [checkParentLinkage, if_neg (Nat.lt_irrefl 0), if_neg (not_not.mpr hparent)]
  · rw [kBlockhash]
    simp only
    rw [if_pos (by decide), if_pos (by decide), hn, if_neg (by decide)]
    exact congrArg Except.ok hancestor

end EvmSail
