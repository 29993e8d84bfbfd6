/-
# `EvmSail.Mpt.Canonical` — the trie commitment of a finite map

Appendix D of the Yellow Paper, over the compressed tries of
`EvmSail.Lib.Radix`.  `encodeNode` is the RLP of the composed node
`c(J, i)`, with `n(J, i)` (empty, embedded below 32 bytes, hashed
otherwise) for its children in `nodeField`; `trieCommitment` is `TRIE(J)`,
and `canonicalRoot` that of a list of entries.

The hash function is a parameter throughout.
-/
import EvmSail.Mpt.HexPrefix

namespace EvmSail

open Fallible Radix

/-- Tries over nibbles with byte-string values. -/
abbrev NibbleTrie := Trie Nibble (List Byte)

section

variable (keccak256 : List Byte → Hash)

/-- How a node occurs in its parent: nothing as the empty string, a short
encoding as itself, a long one as its hash. -/
def nodeField (enc : List Byte) : List Byte :=
  if enc = [] then [0x80]
  else if enc.length < 32 then enc
  else rlpBytes (keccak256 enc).toList

/-- The encoding of a node; nothing for the empty trie. -/
def encodeNode : NibbleTrie → List Byte
  | .empty => []
  | .leaf path value => rlpList (rlpBytes (hexPrefix path true) ++ rlpBytes value)
  | .ext path child =>
    rlpList (rlpBytes (hexPrefix path false) ++ nodeField keccak256 (encodeNode child))
  | .branch children =>
    rlpList (((List.finRange 16).flatMap fun x =>
      nodeField keccak256 (encodeNode (children x))) ++ [0x80])

/-- The root commitment of a trie. -/
def trieCommitment (t : NibbleTrie) : Hash :=
  match t with
  | .empty => keccak256 [0x80]
  | t => keccak256 (encodeNode keccak256 t)

/-- The root commitment of entries with keys of at most 64 nibbles, none
a prefix of another. -/
def canonicalRoot (J : List (List Nibble × List Byte)) : Hash :=
  trieCommitment keccak256 (build 64 J)

/-- The node encodings of a trie, its own included. -/
inductive IsNodeOf : List Byte → NibbleTrie → Prop
  | self (t : NibbleTrie) : t ≠ .empty → IsNodeOf (encodeNode keccak256 t) t
  | ext {e : List Byte} (path : List Nibble) {c : NibbleTrie} :
      IsNodeOf e c → IsNodeOf e (.ext path c)
  | branch {e : List Byte} (cs : Nibble → NibbleTrie) (x : Nibble) :
      IsNodeOf e (cs x) → IsNodeOf e (.branch cs)

end

/-! ## Shapes and sizes -/

/-- Node encodings are lists. -/
def IsNodeEncoding (enc : List Byte) : Prop :=
  enc = [] ∨ ∃ payload, enc = rlpList payload ∧ payload.length ≤ scratchRegionBound

/-- Room for the framing of a leaf around a value. -/
def ValueFits (v : List Byte) : Prop := v.length + 44 ≤ scratchRegionBound

/-- Every value of a trie leaves room for the framing of its leaf, and no
path is longer than a key. -/
inductive TrieFits : NibbleTrie → Prop
  | empty : TrieFits .empty
  | leaf (p : List Nibble) (v : List Byte) : p.length ≤ 64 → ValueFits v → TrieFits (.leaf p v)
  | ext (p : List Nibble) (c : NibbleTrie) : p.length ≤ 64 → TrieFits c → TrieFits (.ext p c)
  | branch (cs : Nibble → NibbleTrie) : (∀ x, TrieFits (cs x)) → TrieFits (.branch cs)

variable {keccak256 : List Byte → Hash}

variable (keccak256) in
theorem length_nodeField_le (enc : List Byte) : (nodeField keccak256 enc).length ≤ 33 := by
  rw [nodeField]
  split
  · simp
  · split
    · omega
    · exact Nat.le_of_eq (length_rlpBytes_hash _)

theorem length_flatMap_le {l : List Nibble} {f : Nibble → List Byte} {n : Nat}
    (h : ∀ x, (f x).length ≤ n) : (l.flatMap f).length ≤ l.length * n := by
  induction l with
  | nil => simp
  | cons a l ih =>
    have := h a
    rw [List.flatMap_cons, List.length_append, List.length_cons, Nat.add_mul]
    omega

/-- The payload of a branch is at most 529 bytes. -/
theorem length_branchPayload_le (f : Nibble → List Byte) (h : ∀ x, (f x).length ≤ 33) :
    ((List.finRange 16).flatMap f ++ [0x80]).length ≤ 529 := by
  have := length_flatMap_le (l := List.finRange 16) h
  simp only [List.length_finRange] at this
  simp only [List.length_append, List.length_singleton]
  omega

theorem scratchRegionBound_ge : 1000 ≤ scratchRegionBound := by
  rw [scratchRegionBound_eq]
  omega

/-- The payload of a leaf is addressable when its value leaves room. -/
theorem length_leafPayload_le {p : List Nibble} {v : List Byte} (hp : p.length ≤ 64)
    (hv : ValueFits v) :
    (rlpBytes (hexPrefix p true) ++ rlpBytes v).length ≤ v.length + 39 := by
  have h1 := length_rlpBytes_hexPrefix hp true
  have h2 := length_rlpBytes_le (b := v) (by unfold ValueFits at hv; omega)
  rw [List.length_append]
  omega

variable (keccak256) in
theorem length_extPayload_le {p : List Nibble} (hp : p.length ≤ 64) (enc : List Byte) :
    (rlpBytes (hexPrefix p false) ++ nodeField keccak256 enc).length ≤ 67 := by
  have h1 := length_rlpBytes_hexPrefix hp false
  have h2 := length_nodeField_le keccak256 enc
  rw [List.length_append]
  omega

variable (keccak256) in
theorem isNodeEncoding_encodeNode {t : NibbleTrie} (h : TrieFits t) :
    IsNodeEncoding (encodeNode keccak256 t) := by
  have hb := scratchRegionBound_ge
  cases h with
  | empty => exact Or.inl rfl
  | leaf p v hp hv =>
    have := length_leafPayload_le hp hv
    exact Or.inr ⟨_, rfl, by unfold ValueFits at hv; omega⟩
  | ext p c hp _ =>
    have := length_extPayload_le keccak256 hp (encodeNode keccak256 c)
    exact Or.inr ⟨_, rfl, by omega⟩
  | branch cs _ =>
    have := length_branchPayload_le
      (fun x => nodeField keccak256 (encodeNode keccak256 (cs x)))
      (fun x => length_nodeField_le keccak256 _)
    exact Or.inr ⟨_, rfl, by omega⟩

theorem encodeNode_eq_nil {t : NibbleTrie} : encodeNode keccak256 t = [] ↔ t = .empty := by
  cases t with
  | empty => simp [encodeNode]
  | leaf p v => simp [encodeNode, rlpList_ne_nil]
  | ext p c => simp [encodeNode, rlpList_ne_nil]
  | branch cs => simp [encodeNode, rlpList_ne_nil]

theorem trieCommitment_of_ne {t : NibbleTrie} (h : t ≠ .empty) :
    trieCommitment keccak256 t = keccak256 (encodeNode keccak256 t) := by
  cases t with
  | empty => exact absurd rfl h
  | leaf p v => rfl
  | ext p c => rfl
  | branch cs => rfl

/-! ## Fitting tries -/

theorem TrieFits.prepend {t : NibbleTrie} (h : TrieFits t) {n : Nat} {p : List Nibble}
    (hc : t.Canonical n) (hn : p.length + n ≤ 64) : TrieFits (t.prepend p) := by
  have hcp := hc.prepend p
  cases h with
  | empty => exact .empty
  | leaf q v hq hv =>
    cases hc with
    | leaf _ _ hqn => exact .leaf _ v (by simp only [List.length_append]; omega) hv
  | ext q c hq hfit =>
    cases hc with
    | ext _ cs _ hqn _ => exact .ext _ _ (by simp only [List.length_append]; omega) hfit
  | branch cs hcs =>
    by_cases hp : p = []
    · subst hp
      simpa using TrieFits.branch cs hcs
    · rw [Trie.prepend_branch hp]
      exact .ext p _ (by omega) (.branch cs hcs)

theorem TrieFits.of_canonical {n : Nat} {t : NibbleTrie} (h : t.Canonical n) (hn : n ≤ 64)
    (hv : ∀ k v, t.lookup k = some v → ValueFits v) : TrieFits t := by
  induction h with
  | empty => exact .empty
  | leaf p v hp => exact .leaf p v (by omega) (hv p v (by simp))
  | ext p cs _ hm _ ih =>
    exact .ext p _ (by omega) (ih (by omega) fun k v hk => hv (p ++ k) v (by simpa using hk))
  | branch cs _ _ _ _ ih =>
    exact .branch cs fun x => ih x (by omega) fun k v hk => hv (x :: k) v hk

end EvmSail
