/-
# `EvmSail.Optimised.WitnessCodec` — witness nodes as the optimised host decodes them

The optimised host decodes a witness node once, into its path, its value and
the references to its children, which keep the bytes of the input and leave
room for the table row they are linked to.  Items are read with their spans
checked; that they are encoded in the shortest way is not.

The items popped are the fields of the specification (`mptRlpPop_eq_some`), so
that a decoded node is one of at most seventeen of them (`mptDecode_eq_some`),
read as `ItemsNode` says.
-/
import EvmSail.Tx.CanonicalSound
import EvmSail.Mpt.Codec

namespace EvmSail.Optimised

open Fallible

/-! ## Items -/

/-- `RlpItem`. -/
structure RlpItem where
  raw : List Byte
  content : List Byte
  list : Bool

def sizeMax : Nat := 2 ^ 64 - 1

/-- The length after a long header. -/
def mptRlpLength (bytes : List Byte) : Option Nat :=
  bytes.foldlM (fun content b =>
    if content > sizeMax >>> 8 then none else some ((content <<< 8) ||| b.toNat)) 0

/-- The size of the header, that of the content, and whether it is a list. -/
def mptRlpHeader (cursor : List Byte) (first : Nat) : Option (Nat × Nat × Bool) :=
  if first ≤ 0x7f then some (0, 1, false)
  else if first ≤ 0xb7 then some (1, first - 0x80, false)
  else if first ≤ 0xbf then
    let width := first - 0xb7
    if width > 8 ∨ cursor.length < 1 + width then none
    else (mptRlpLength (subSlice cursor 1 width)).map fun content => (1 + width, content, false)
  else if first ≤ 0xf7 then some (1, first - 0xc0, true)
  else
    let width := first - 0xf7
    if width > 8 ∨ cursor.length < 1 + width then none
    else (mptRlpLength (subSlice cursor 1 width)).map fun content => (1 + width, content, true)

/-- `mpt_rlp_pop`. -/
def mptRlpPop (cursor : List Byte) : Option (RlpItem × List Byte) :=
  if cursor.length = 0 then none
  else do
    let (header, content, list) ← mptRlpHeader cursor (sliceByte cursor 0).toNat
    if header > cursor.length ∨ content > cursor.length - header then none
    else
      some
        ({ raw := cursor.take (header + content)
           content := subSlice cursor header content
           list },
          cursor.drop (header + content))

/-- The items of a list, at most `count` of them. -/
def mptRlpItems : Nat → List Byte → Option (List RlpItem × List Byte)
  | 0, fields => some ([], fields)
  | count + 1, fields =>
    if fields.length = 0 then some ([], fields)
    else do
      let (item, fields) ← mptRlpPop fields
      let (items, fields) ← mptRlpItems count fields
      some (item :: items, fields)

/-- `mpt_decode_compact`: whether it is a leaf, and the path. -/
def mptDecodeCompact (field : RlpItem) : Option (Bool × List Nibble) :=
  if field.list then none
  else
    match field.content with
    | [] => some (false, [])
    | first :: rest =>
      if field.content.length > 33 then none
      else
        let flag := highNibble first
        if flag.val > 3 then none
        else
          let leaf := flag.val.testBit 1
          let odd := flag.val.testBit 0
          if !odd && lowNibble first != 0 then none
          else do
            let path ← rest.foldlM (fun (path : List Nibble) b =>
              if path.length > 62 then none else some (path ++ [highNibble b, lowNibble b]))
              (if odd then [lowNibble first] else [])
            some (leaf, path)

/-! ## Nodes -/

abbrev NodeId := Nat

def mptNodeIdUnlinked : Nat := 0
def mptNodeIdEmpty : Nat := 2 ^ 32 - 1

inductive NodeReferenceKind where
  | empty
  | inline
  | hashed
  deriving DecidableEq

/-- `WitnessChild`. -/
structure WitnessChild where
  encoded : Option (List Byte)
  nodeId : NodeId

/-- What clearing a node leaves. -/
def clearChild : WitnessChild := ⟨none, mptNodeIdUnlinked⟩

def mptWitnessChildKind (ref : WitnessChild) : NodeReferenceKind :=
  match ref.encoded with
  | none => .empty
  | some encoded => if encoded.length = 32 then .hashed else .inline

def mptDecodeChildReference (field : RlpItem) : Option WitnessChild :=
  if field.list then
    if field.raw.length ≥ 32 then none else some ⟨some field.raw, mptNodeIdUnlinked⟩
  else if field.content.length = 32 then some ⟨some field.content, mptNodeIdUnlinked⟩
  else if field.content.length = 0 then some ⟨none, mptNodeIdEmpty⟩
  else none

inductive DecodedNodeKind where
  | leaf
  | extension
  | branch
  deriving DecidableEq

/-- `DecodedNode`; the path of an extension is not empty. -/
structure DecodedNode where
  kind : DecodedNodeKind
  path : List Nibble
  value : List Byte
  child : Nibble → WitnessChild
  path_ne : kind = .extension → path.length ≠ 0

/-- A node of the items of its list. -/
def mptDecodeFields (items : List RlpItem) : Option DecodedNode :=
  match items with
  | [first, second] => do
    let (leaf, path) ← mptDecodeCompact first
    if leaf then
      some { kind := .leaf, path, value := second.content, child := fun _ => clearChild,
             path_ne := nofun }
    else if h : path.length = 0 then none
    else do
      let child ← mptDecodeChildReference second
      some { kind := .extension, path, value := [],
             child := Function.update (fun _ => clearChild) 0 child, path_ne := fun _ => h }
  | items =>
    match items[16]? with
    | none => none
    | some last =>
      if items.length ≠ 17 then none
      else do
        let children ← (items.take 16).mapM mptDecodeChildReference
        some { kind := .branch, path := [], value := last.content,
               child := fun x => (children[x.val]?).getD clearChild, path_ne := nofun }

/-- `mpt_decode_trusted_state_node`. -/
def mptDecodeTrustedStateNode (encoded : List Byte) : Option DecodedNode := do
  let (outer, root) ← mptRlpPop encoded
  if root.length ≠ 0 ∨ ¬ outer.list then none
  else do
    let (items, fields) ← mptRlpItems 17 outer.content
    if fields.length ≠ 0 then none else mptDecodeFields items

/-! ## Items and fields -/

/-- A decoded field as an item. -/
def rlpItemOf (f : RlpFieldRef) : RlpItem := ⟨f.source, rlpItemContent f, f.isList⟩

theorem mptRlpLength_eq {bytes : List Byte} (h : bytes.length ≤ 8) :
    mptRlpLength bytes = some (rlpUint64Width bytes bytes.length) := by
  rw [rlpUint64Width_eq]
  induction bytes using List.reverseRecOn with
  | nil => rfl
  | append_singleton bytes b ih =>
    rw [List.length_append, List.length_singleton] at h
    have hlt : natOfBytes bytes < 256 ^ 7 :=
      (natOfBytes_lt bytes).trans_le (Nat.pow_le_pow_right (by decide) (by omega))
    have hfits : ¬ natOfBytes bytes > sizeMax >>> 8 := by
      have hmax : sizeMax >>> 8 = 256 ^ 7 - 1 := by decide
      rw [hmax]
      omega
    have hor : (natOfBytes bytes <<< 8) ||| b.toNat = natOfBytes bytes * 256 + b.toNat := by
      rw [← Nat.shiftLeft_add_eq_or_of_lt b.isLt, Nat.shiftLeft_eq]
    have hstart := ih (by omega)
    rw [mptRlpLength] at hstart ⊢
    rw [List.foldlM_append, hstart, natOfBytes_append_singleton]
    change (if _ then none else some _) >>= some = _
    rw [if_neg hfits, hor]
    rfl

/-- The two headers of the source. -/
theorem mptRlpHeader_eq {cursor : List Byte} (hne : cursor.length ≠ 0) {header content : Nat}
    {list : Bool} :
    mptRlpHeader cursor (sliceByte cursor 0).toNat = some (header, content, list) ↔
      rlpRefHdr cursor = .ok (list, header, content) := by
  have hbyte : (sliceByte cursor 0).toNat < 256 := (sliceByte cursor 0).isLt
  have hlong : ∀ {width : Nat}, width ≤ 8 → width ≤ cursor.length - 1 →
      mptRlpLength (subSlice cursor 1 width) =
        some (rlpUint64Width (subSlice cursor 1 width) width) := by
    intro width hwidth hfits
    have hlen : (subSlice cursor 1 width).length = width := length_subSlice (by omega)
    have heq := @mptRlpLength_eq (subSlice cursor 1 width) (by omega)
    rwa [hlen] at heq
  rw [rlpRefHdr_eq_ok, and_iff_right hne]
  generalize (sliceByte cursor 0).toNat = first at hbyte
  rw [mptRlpHeader]
  constructor
  · intro h
    split at h
    · simp only [Option.some.injEq, Prod.mk.injEq] at h
      obtain ⟨rfl, rfl, rfl⟩ := h
      exact .byte (by omega)
    split at h
    · simp only [Option.some.injEq, Prod.mk.injEq] at h
      obtain ⟨rfl, rfl, rfl⟩ := h
      exact .string (by omega) (by omega)
    split at h
    · dsimp only at h
      split at h
      · cases h
      · rw [hlong (by omega) (by omega), Option.map_some] at h
        simp only [Option.some.injEq, Prod.mk.injEq] at h
        obtain ⟨rfl, rfl, rfl⟩ := h
        exact .longString (by omega) (by omega) (by omega)
    split at h
    · simp only [Option.some.injEq, Prod.mk.injEq] at h
      obtain ⟨rfl, rfl, rfl⟩ := h
      exact .list (by omega) (by omega)
    · dsimp only at h
      split at h
      · cases h
      · rw [hlong (by omega) (by omega), Option.map_some] at h
        simp only [Option.some.injEq, Prod.mk.injEq] at h
        obtain ⟨rfl, rfl, rfl⟩ := h
        exact .longList (by omega) (by omega)
  · intro h
    cases h with
    | byte h₁ => rw [if_pos (by omega)]
    | string h₁ h₂ => rw [if_neg (by omega), if_pos (by omega)]
    | longString h₁ h₂ hw =>
      rw [if_neg (by omega), if_neg (by omega), if_pos (by omega)]
      dsimp only
      rw [if_neg (by omega), hlong (by omega) hw, Option.map_some]
    | list h₁ h₂ => rw [if_neg (by omega), if_neg (by omega), if_neg (by omega), if_pos (by omega)]
    | longList h₁ hw =>
      rw [if_neg (by omega), if_neg (by omega), if_neg (by omega), if_neg (by omega)]
      dsimp only
      rw [if_neg (by omega), hlong (by omega) hw, Option.map_some]

/-- What is popped is the field the specification decodes. -/
theorem mptRlpPop_eq_some {cursor rest : List Byte} {item : RlpItem} :
    mptRlpPop cursor = some (item, rest) ↔
      ∃ f, f.Announced ∧ cursor = f.source ++ rest ∧ item = rlpItemOf f := by
  have hcontent : ∀ {header content : Nat}, header + content ≤ cursor.length →
      subSlice (cursor.take (header + content)) header content =
        subSlice cursor header content := by
    intro header content _
    rw [subSlice, subSlice, List.drop_take, Nat.add_sub_cancel_left, List.take_take, Nat.min_self]
  constructor
  · intro h
    rw [mptRlpPop] at h
    split at h
    · cases h
    rename_i hne
    obtain ⟨⟨header, content, list⟩, hheader, h⟩ := Option.bind_eq_some_iff.mp h
    dsimp only at h
    split at h
    · cases h
    rename_i hfits
    have hhdr := (mptRlpHeader_eq hne).mp hheader
    have hpos : 0 < header + content := by
      obtain ⟨_, hof⟩ := rlpRefHdr_eq_ok.mp hhdr
      cases hof <;> omega
    have hle : header + content ≤ cursor.length := by omega
    have hlen : (cursor.take (header + content)).length = header + content :=
      List.length_take_of_le hle
    have hitem : rlpDecodeItem cursor = .ok
        ⟨cursor.take (header + content), list, content, by rw [hlen]; omega⟩ :=
      rlpDecodeItem_eq_ok.mpr ⟨header, hhdr, hpos, hle, rfl⟩
    obtain ⟨hitemEq, hrest⟩ := Prod.mk.inj (Option.some.inj h)
    refine ⟨_, (rlpDecodeItem_announced hitem).1, ?_, ?_⟩
    · rw [← hrest, List.take_append_drop]
    · rw [← hitemEq, rlpItemOf, rlpItemContent]
      simp only [hlen, Nat.add_sub_cancel, hcontent hle]
  · rintro ⟨f, hf, hbytes, rfl⟩
    have hdecode : rlpDecodeItem cursor = .ok f := hbytes ▸ hf.decode rest
    obtain ⟨header, hhdr, hpos, hle, hsource⟩ := rlpDecodeItem_eq_ok.mp hdecode
    have hlen : f.source.length = header + f.contentLen := by
      rw [hsource, List.length_take_of_le hle]
    have hne : cursor.length ≠ 0 := by omega
    have hrest : cursor.drop (header + f.contentLen) = rest := by
      rw [← hlen, hbytes, List.drop_left]
    rw [mptRlpPop, if_neg hne, (mptRlpHeader_eq hne).mpr hhdr]
    change (if _ then none else some _) = _
    rw [if_neg (by omega), ← hsource, hrest, rlpItemOf, rlpItemContent, hlen, Nat.add_sub_cancel,
      ← hcontent hle, ← hsource]

theorem mptRlpItems_eq_some {count : Nat} {fields : List Byte} {items : List RlpItem} :
    mptRlpItems count fields = some (items, []) ↔
      ∃ fs, Fields fields fs ∧ fs.length ≤ count ∧ items = fs.map rlpItemOf := by
  induction count generalizing fields items with
  | zero =>
    constructor
    · intro h
      obtain ⟨rfl, rfl⟩ := Prod.mk.inj (Option.some.inj h)
      exact ⟨[], Fields.nil, Nat.le_refl 0, rfl⟩
    · rintro ⟨fs, hfs, hlen, rfl⟩
      rw [List.eq_nil_of_length_eq_zero (Nat.le_zero.mp hlen)] at hfs ⊢
      rw [show fields = [] from hfs.bytes]
      rfl
  | succ count ih =>
    rw [mptRlpItems]
    constructor
    · intro h
      split at h
      · rename_i hnil
        obtain ⟨rfl, rfl⟩ := Prod.mk.inj (Option.some.inj h)
        exact ⟨[], Fields.nil, Nat.zero_le _, rfl⟩
      · obtain ⟨⟨item, rest⟩, hpop, h⟩ := Option.bind_eq_some_iff.mp h
        obtain ⟨⟨items', last⟩, hrest, h⟩ := Option.bind_eq_some_iff.mp h
        obtain ⟨rfl, rfl⟩ := Prod.mk.inj (Option.some.inj h)
        obtain ⟨f, hf, rfl, rfl⟩ := mptRlpPop_eq_some.mp hpop
        obtain ⟨fs, hfs, hlen, rfl⟩ := ih.mp hrest
        exact ⟨f :: fs, hfs.cons hf, Nat.succ_le_succ hlen, rfl⟩
    · rintro ⟨fs, hfs, hlen, rfl⟩
      cases fs with
      | nil =>
        rw [show fields = [] from hfs.bytes]
        rfl
      | cons f fs =>
        obtain ⟨hf, rfl, hrest⟩ := hfs.tail
        have hne : (f.source ++ sourcesOf fs).length ≠ 0 := by
          have := List.length_pos_iff.mpr hf.source_ne_nil
          rw [List.length_append]
          omega
        rw [if_neg hne]
        refine Option.bind_eq_some_iff.mpr
          ⟨_, mptRlpPop_eq_some.mpr ⟨f, hf, rfl, rfl⟩, Option.bind_eq_some_iff.mpr ⟨_, ih.mpr
            ⟨fs, hrest, Nat.le_of_succ_le_succ hlen, rfl⟩, rfl⟩⟩

/-- A decoded node is one of at most seventeen fields of a list. -/
theorem mptDecode_eq_some {encoded : List Byte} {node : DecodedNode} :
    mptDecodeTrustedStateNode encoded = some node ↔
      ∃ root fs, rlpSingleRef encoded = .ok root ∧ root.isList = true ∧
        Fields (rlpItemContent root) fs ∧ fs.length ≤ 17 ∧
        mptDecodeFields (fs.map rlpItemOf) = some node := by
  rw [mptDecodeTrustedStateNode]
  constructor
  · intro h
    obtain ⟨⟨outer, root⟩, hpop, h⟩ := Option.bind_eq_some_iff.mp h
    dsimp only at h
    split at h
    · cases h
    rename_i houter
    obtain ⟨⟨items, fields⟩, hitems, h⟩ := Option.bind_eq_some_iff.mp h
    dsimp only at h
    split at h
    · cases h
    rename_i hend
    rw [not_or, not_not, not_not] at houter
    obtain ⟨f, hf, hbytes, rfl⟩ := mptRlpPop_eq_some.mp hpop
    rw [List.eq_nil_of_length_eq_zero houter.1, List.append_nil] at hbytes
    rw [List.eq_nil_of_length_eq_zero (not_not.mp hend)] at hitems
    obtain ⟨fs, hfs, hlen, rfl⟩ := mptRlpItems_eq_some.mp hitems
    exact ⟨f, fs, rlpSingleRef_eq_ok.mpr ⟨hf, hbytes.symm⟩, houter.2, hfs, hlen, h⟩
  · rintro ⟨root, fs, hroot, hlist, hfs, hlen, h⟩
    obtain ⟨hf, rfl⟩ := rlpSingleRef_eq_ok.mp hroot
    refine Option.bind_eq_some_iff.mpr ⟨(rlpItemOf root, []), mptRlpPop_eq_some.mpr
      ⟨root, hf, (List.append_nil _).symm, rfl⟩, ?_⟩
    dsimp only
    rw [if_neg (by simp [rlpItemOf, hlist])]
    refine Option.bind_eq_some_iff.mpr ⟨(fs.map rlpItemOf, []), mptRlpItems_eq_some.mpr
      ⟨fs, hfs, hlen, rfl⟩, ?_⟩
    exact h

/-! ## What a decoded node says of its items -/

/-- What the optimised decoder makes of the items of a node. -/
inductive ItemsNode (items : List RlpItem) (node : DecodedNode) : Prop
  | leaf {first second : RlpItem} : items = [first, second] →
      mptDecodeCompact first = some (true, node.path) → node.kind = .leaf →
      node.value = second.content → (∀ x, node.child x = clearChild) → ItemsNode items node
  | extension {first second : RlpItem} : items = [first, second] →
      mptDecodeCompact first = some (false, node.path) → node.kind = .extension →
      mptDecodeChildReference second = some (node.child 0) →
      (∀ x, x ≠ 0 → node.child x = clearChild) → ItemsNode items node
  | branch {init : List RlpItem} {last : RlpItem} : items = init ++ [last] → init.length = 16 →
      node.kind = .branch → node.value = last.content →
      (∀ (x : Nibble) item, init[x.val]? = some item →
        mptDecodeChildReference item = some (node.child x)) → ItemsNode items node

theorem mptDecodeFields_items {items : List RlpItem} {node : DecodedNode}
    (h : mptDecodeFields items = some node) : ItemsNode items node := by
  rw [mptDecodeFields.eq_def] at h
  split at h
  · rename_i first second
    obtain ⟨⟨leaf, path⟩, hpath, h⟩ := Option.bind_eq_some_iff.mp h
    dsimp only at h
    split at h
    · rename_i hleaf
      rw [hleaf] at hpath
      cases h
      exact .leaf rfl hpath rfl rfl fun _ => rfl
    · rename_i hleaf
      rw [Bool.eq_false_iff.mpr hleaf] at hpath
      split at h
      · cases h
      · obtain ⟨child, hchild, h⟩ := Option.bind_eq_some_iff.mp h
        cases h
        refine .extension rfl hpath rfl ?_ fun x hx => ?_
        · rw [hchild]
          simp
        · simp [hx]
  · split at h
    · cases h
    rename_i last hlast
    split at h
    · cases h
    rename_i hlen
    obtain ⟨children, hchildren, h⟩ := Option.bind_eq_some_iff.mp h
    cases h
    have hsplit : items = items.take 16 ++ [last] := by
      have hdrop : items.drop 16 = [last] := by
        rw [List.drop_eq_getElem?_toList_append, hlast]
        rw [List.drop_eq_nil_of_le (by omega)]
        rfl
      rw [← hdrop, List.take_append_drop]
    refine .branch hsplit (List.length_take_of_le (by omega)) rfl rfl fun x item hitem => ?_
    obtain ⟨child, hget, hchild⟩ := mapM_eq_some_getElem? hchildren hitem
    rw [hchild]
    dsimp only
    rw [hget, Option.getD_some]

end EvmSail.Optimised
