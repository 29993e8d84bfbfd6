/-
# `EvmSail.Ssz.InputSound` — what the decoder accepts is canonical

A stateless input that `decodeStatelessInputRef` accepts is the
serialization of the view it returns.  For each container a lemma says what
its decoder accepts (`decodeBody_tiled` and its siblings): the regions it
hands out tile the container.  `reserialize` writes the containers again
from the regions, with offsets computed from their lengths, and
`decodeStatelessInputRef_reserialize` puts the containers together, from
the innermost out.
-/
import EvmSail.Ssz.Serialize

namespace EvmSail

open Fallible

/-! ## The checks of the decoder -/

theorem ensure_eq_ok {p : Prop} [Decidable p] {u : Unit} : ensure p = .ok u ↔ p := by
  rw [ensure]
  split
  · rename_i hp
    exact ⟨fun _ => hp, fun _ => rfl⟩
  · rename_i hp
    exact ⟨fun h => (by cases h), fun h => absurd h hp⟩

theorem sszContainerBytes_eq_ok {bytes container : List Byte} {minimum : Nat}
    (h : sszContainerBytes bytes minimum = .ok container) :
    container = bytes ∧ minimum ≤ bytes.length := by
  obtain ⟨u, hu, h⟩ := bind_eq_ok.mp h
  cases h
  exact ⟨rfl, ensure_eq_ok.mp hu⟩

theorem sszFieldU32_eq_ok {bytes : List Byte} {offset n : Nat}
    (h : sszFieldU32 bytes offset = .ok n) : n = sszU32At bytes offset := by
  rw [sszFieldU32] at h
  split at h
  · cases h
    rfl
  · cases h

/-! ## The five containers -/

theorem decodeBody_tiled {body : List Byte} {r : BodyRegions} (h : decodeBody body = .ok r) :
    Tiled body 16 [0, 4, 8, 12]
        [r.newPayloadRequest, r.executionWitness, r.chainConfig, r.publicKeys] ∧
      44 ≤ r.newPayloadRequest.length ∧ 12 ≤ r.executionWitness.length := by
  rw [decodeBody] at h
  obtain ⟨_, hbytes, h⟩ := bind_eq_ok.mp h
  obtain ⟨o₀, h₀, h⟩ := bind_eq_ok.mp h
  obtain ⟨o₁, h₁, h⟩ := bind_eq_ok.mp h
  obtain ⟨o₂, h₂, h⟩ := bind_eq_ok.mp h
  obtain ⟨o₃, h₃, h⟩ := bind_eq_ok.mp h
  obtain ⟨_, hfirst, h⟩ := bind_eq_ok.mp h
  obtain ⟨⟨r₀, c₀⟩, t₀, h⟩ := bind_eq_ok.mp h
  obtain ⟨_, hnpr, h⟩ := bind_eq_ok.mp h
  obtain ⟨⟨r₁, c₁⟩, t₁, h⟩ := bind_eq_ok.mp h
  obtain ⟨_, hwit, h⟩ := bind_eq_ok.mp h
  obtain ⟨⟨r₂, c₂⟩, t₂, h⟩ := bind_eq_ok.mp h
  obtain ⟨r₃, t₃, h⟩ := bind_eq_ok.mp h
  cases h
  obtain ⟨rfl, _⟩ := sszContainerBytes_eq_ok hbytes
  obtain rfl := sszFieldU32_eq_ok h₀
  obtain rfl := sszFieldU32_eq_ok h₁
  obtain rfl := sszFieldU32_eq_ok h₂
  obtain rfl := sszFieldU32_eq_ok h₃
  obtain ⟨rfl, tile₀⟩ := TiledFrom.take t₀
  obtain ⟨rfl, tile₁⟩ := TiledFrom.take t₁
  obtain ⟨rfl, tile₂⟩ := TiledFrom.take t₂
  obtain ⟨rfl, hnprLen⟩ := sszContainerBytes_eq_ok hnpr
  obtain ⟨rfl, hwitLen⟩ := sszContainerBytes_eq_ok hwit
  have htiled := tile₀ (tile₁ (tile₂ (TiledFrom.finish t₃)))
  rw [← ensure_eq_ok.mp hfirst] at htiled
  refine ⟨?_, hnprLen, hwitLen⟩
  rw [Tiled, ← ensure_eq_ok.mp hfirst]
  exact htiled

theorem decodePayloadRequest_tiled {request : List Byte} {r : PayloadRequestRegions}
    (h : decodePayloadRequest request = .ok r) :
    Tiled request 44 [0, 4, 40] [r.executionPayload, r.versionedHashes, r.executionRequests] ∧
      20 ≤ r.executionRequests.length := by
  rw [decodePayloadRequest] at h
  obtain ⟨o₀, h₀, h⟩ := bind_eq_ok.mp h
  obtain ⟨o₁, h₁, h⟩ := bind_eq_ok.mp h
  obtain ⟨o₂, h₂, h⟩ := bind_eq_ok.mp h
  obtain ⟨_, hfirst, h⟩ := bind_eq_ok.mp h
  obtain ⟨⟨r₀, c₀⟩, t₀, h⟩ := bind_eq_ok.mp h
  obtain ⟨⟨r₁, c₁⟩, t₁, h⟩ := bind_eq_ok.mp h
  obtain ⟨r₂, t₂, h⟩ := bind_eq_ok.mp h
  obtain ⟨_, hreq, h⟩ := bind_eq_ok.mp h
  cases h
  obtain rfl := sszFieldU32_eq_ok h₀
  obtain rfl := sszFieldU32_eq_ok h₁
  obtain rfl := sszFieldU32_eq_ok h₂
  obtain ⟨rfl, tile₀⟩ := TiledFrom.take t₀
  obtain ⟨rfl, tile₁⟩ := TiledFrom.take t₁
  obtain ⟨rfl, hreqLen⟩ := sszContainerBytes_eq_ok hreq
  have htiled := tile₀ (tile₁ (TiledFrom.finish t₂))
  rw [← ensure_eq_ok.mp hfirst] at htiled
  refine ⟨?_, hreqLen⟩
  rw [Tiled, ← ensure_eq_ok.mp hfirst]
  exact htiled

/-- The limits of the lists and of the byte strings of the payload. -/
structure PayloadRegions.Limits (r : PayloadRegions) : Prop where
  extraData : r.extraData.length ≤ extraDataLengthBound
  blockAccessList : r.blockAccessList.length ≤ blockAccessListLengthBound
  transactions : sszRawCount r.transactions.bytes = .ok r.transactions.count ∧
    r.transactions.maxItemLength = maxTransactionLength ∧
    r.transactions.count ≤ transactionCountBound
  withdrawals : r.withdrawals.bytes.length = r.withdrawals.count * 44 ∧
    r.withdrawals.maxItemLength = 44 ∧ r.withdrawals.count ≤ withdrawalCountBound

theorem decodePayload_tiled {payload : List Byte} {r : PayloadRegions}
    (h : decodePayload payload = .ok r) :
    Tiled payload 540 [436, 504, 508, 528]
        [r.extraData, r.transactions.bytes, r.withdrawals.bytes, r.blockAccessList] ∧
      r.Limits := by
  rw [decodePayload] at h
  obtain ⟨_, hbytes, h⟩ := bind_eq_ok.mp h
  obtain ⟨o₀, h₀, h⟩ := bind_eq_ok.mp h
  obtain ⟨o₁, h₁, h⟩ := bind_eq_ok.mp h
  obtain ⟨o₂, h₂, h⟩ := bind_eq_ok.mp h
  obtain ⟨o₃, h₃, h⟩ := bind_eq_ok.mp h
  obtain ⟨_, hfirst, h⟩ := bind_eq_ok.mp h
  obtain ⟨⟨r₀, c₀⟩, t₀, h⟩ := bind_eq_ok.mp h
  obtain ⟨⟨r₁, c₁⟩, t₁, h⟩ := bind_eq_ok.mp h
  obtain ⟨txs, htxs, h⟩ := bind_eq_ok.mp h
  obtain ⟨⟨r₂, c₂⟩, t₂, h⟩ := bind_eq_ok.mp h
  obtain ⟨wds, hwds, h⟩ := bind_eq_ok.mp h
  obtain ⟨r₃, t₃, h⟩ := bind_eq_ok.mp h
  obtain ⟨_, hextra, h⟩ := bind_eq_ok.mp h
  obtain ⟨_, hbal, h⟩ := bind_eq_ok.mp h
  cases h
  obtain ⟨rfl, _⟩ := sszContainerBytes_eq_ok hbytes
  obtain rfl := sszFieldU32_eq_ok h₀
  obtain rfl := sszFieldU32_eq_ok h₁
  obtain rfl := sszFieldU32_eq_ok h₂
  obtain rfl := sszFieldU32_eq_ok h₃
  obtain ⟨rfl, tile₀⟩ := TiledFrom.take t₀
  obtain ⟨rfl, tile₁⟩ := TiledFrom.take t₁
  obtain ⟨rfl, tile₂⟩ := TiledFrom.take t₂
  obtain ⟨rfl, htxCount, htxMax, htxLe⟩ := sszBoundedVariableListRef_eq_ok.mp htxs
  obtain ⟨rfl, hwdCount, hwdMax, hwdLe⟩ :=
    (sszBoundedFixedListRef_eq_ok (by decide)).mp hwds
  have htiled := tile₀ (tile₁ (tile₂ (TiledFrom.finish t₃)))
  rw [← ensure_eq_ok.mp hfirst] at htiled
  constructor
  · rw [Tiled, ← ensure_eq_ok.mp hfirst]
    exact htiled
  · exact ⟨ensure_eq_ok.mp hextra, ensure_eq_ok.mp hbal, ⟨htxCount, htxMax, htxLe⟩,
      ⟨hwdCount, hwdMax, hwdLe⟩⟩

theorem decodeRequests_tiled {requests : List Byte} {r : RequestRegions}
    (h : decodeRequests requests = .ok r) :
    Tiled requests 20 [0, 4, 8, 12, 16]
      [r.deposits, r.withdrawalRequests, r.consolidationRequests, r.builderDepositRequests,
        r.builderExitRequests] := by
  rw [decodeRequests] at h
  obtain ⟨o₀, h₀, h⟩ := bind_eq_ok.mp h
  obtain ⟨o₁, h₁, h⟩ := bind_eq_ok.mp h
  obtain ⟨o₂, h₂, h⟩ := bind_eq_ok.mp h
  obtain ⟨o₃, h₃, h⟩ := bind_eq_ok.mp h
  obtain ⟨o₄, h₄, h⟩ := bind_eq_ok.mp h
  obtain ⟨_, hfirst, h⟩ := bind_eq_ok.mp h
  obtain ⟨⟨r₀, c₀⟩, t₀, h⟩ := bind_eq_ok.mp h
  obtain ⟨⟨r₁, c₁⟩, t₁, h⟩ := bind_eq_ok.mp h
  obtain ⟨⟨r₂, c₂⟩, t₂, h⟩ := bind_eq_ok.mp h
  obtain ⟨⟨r₃, c₃⟩, t₃, h⟩ := bind_eq_ok.mp h
  obtain ⟨r₄, t₄, h⟩ := bind_eq_ok.mp h
  cases h
  obtain rfl := sszFieldU32_eq_ok h₀
  obtain rfl := sszFieldU32_eq_ok h₁
  obtain rfl := sszFieldU32_eq_ok h₂
  obtain rfl := sszFieldU32_eq_ok h₃
  obtain rfl := sszFieldU32_eq_ok h₄
  obtain ⟨rfl, tile₀⟩ := TiledFrom.take t₀
  obtain ⟨rfl, tile₁⟩ := TiledFrom.take t₁
  obtain ⟨rfl, tile₂⟩ := TiledFrom.take t₂
  obtain ⟨rfl, tile₃⟩ := TiledFrom.take t₃
  have htiled := tile₀ (tile₁ (tile₂ (tile₃ (TiledFrom.finish t₄))))
  rw [← ensure_eq_ok.mp hfirst] at htiled
  rw [Tiled, ← ensure_eq_ok.mp hfirst]
  exact htiled

/-- The limits of the lists of the witness. -/
structure WitnessRegions.Limits (r : WitnessRegions) : Prop where
  state : sszRawCount r.state.bytes = .ok r.state.count ∧
    r.state.maxItemLength = maxWitnessNodeLength ∧ r.state.count ≤ witnessNodeCountBound
  codes : sszRawCount r.codes.bytes = .ok r.codes.count ∧
    r.codes.maxItemLength = maxWitnessCodeLength ∧ r.codes.count ≤ witnessCodeCountBound
  headers : sszRawCount r.headers.bytes = .ok r.headers.count ∧
    r.headers.maxItemLength = maxWitnessHeaderLength ∧ r.headers.count ≤ witnessHeaderCountBound

theorem decodeWitness_tiled {witness : List Byte} {r : WitnessRegions}
    (h : decodeWitness witness = .ok r) :
    Tiled witness 12 [0, 4, 8] [r.state.bytes, r.codes.bytes, r.headers.bytes] ∧ r.Limits := by
  rw [decodeWitness] at h
  obtain ⟨o₀, h₀, h⟩ := bind_eq_ok.mp h
  obtain ⟨o₁, h₁, h⟩ := bind_eq_ok.mp h
  obtain ⟨o₂, h₂, h⟩ := bind_eq_ok.mp h
  obtain ⟨_, hfirst, h⟩ := bind_eq_ok.mp h
  obtain ⟨⟨r₀, c₀⟩, t₀, h⟩ := bind_eq_ok.mp h
  obtain ⟨state, hstate, h⟩ := bind_eq_ok.mp h
  obtain ⟨⟨r₁, c₁⟩, t₁, h⟩ := bind_eq_ok.mp h
  obtain ⟨codes, hcodes, h⟩ := bind_eq_ok.mp h
  obtain ⟨r₂, t₂, h⟩ := bind_eq_ok.mp h
  obtain ⟨headers, hheaders, h⟩ := bind_eq_ok.mp h
  cases h
  obtain rfl := sszFieldU32_eq_ok h₀
  obtain rfl := sszFieldU32_eq_ok h₁
  obtain rfl := sszFieldU32_eq_ok h₂
  obtain ⟨rfl, tile₀⟩ := TiledFrom.take t₀
  obtain ⟨rfl, tile₁⟩ := TiledFrom.take t₁
  obtain ⟨rfl, hstate⟩ := sszBoundedVariableListRef_eq_ok.mp hstate
  obtain ⟨rfl, hcodes⟩ := sszBoundedVariableListRef_eq_ok.mp hcodes
  obtain ⟨rfl, hheaders⟩ := sszBoundedVariableListRef_eq_ok.mp hheaders
  have htiled := tile₀ (tile₁ (TiledFrom.finish t₂))
  rw [← ensure_eq_ok.mp hfirst] at htiled
  constructor
  · rw [Tiled, ← ensure_eq_ok.mp hfirst]
    exact htiled
  · exact ⟨hstate, hcodes, hheaders⟩

/-! ## Serializing a view -/

/-- The byte of a fork in the schema prefix. -/
def schemaForkByte (protocol : ProtocolProfile) : Byte :=
  BitVec.ofNat 8 (protocol.fork.value + 5)

/-- The execution payload: its scalar fields as they were read, its regions
behind them. -/
def payloadFields (v : StatelessInputRef) : List SszField :=
  [.fixed (subSlice v.executionPayload 0 436), .region v.extraData,
    .fixed (subSlice v.executionPayload 440 64), .region v.transactions.bytes,
    .region v.withdrawals.bytes, .fixed (subSlice v.executionPayload 512 16),
    .region v.blockAccessList, .fixed (subSlice v.executionPayload 532 8)]

def requestFields (v : StatelessInputRef) : List SszField :=
  [.region v.deposits, .region v.withdrawalRequests, .region v.consolidationRequests,
    .region v.builderDepositRequests, .region v.builderExitRequests]

/-- The new payload request, with its beacon root between the offsets. -/
def payloadRequestFields (v : StatelessInputRef) : List SszField :=
  [.region (serialize (payloadFields v)), .region v.versionedHashes,
    .fixed (subSlice v.newPayloadRequest 8 32), .region (serialize (requestFields v))]

def witnessFields (v : StatelessInputRef) : List SszField :=
  [.region v.witnessState.bytes, .region v.witnessCodes.bytes, .region v.witnessHeaders.bytes]

def bodyFields (v : StatelessInputRef) : List SszField :=
  [.region (serialize (payloadRequestFields v)), .region (serialize (witnessFields v)),
    .region v.chainConfig, .region v.publicKeys]

/-- The stateless input of a view. -/
def reserialize (v : StatelessInputRef) : List Byte :=
  [schemaForkByte v.protocol, 0x01] ++ serialize (bodyFields v)

/-! ## Canonical inputs -/

/-- The limits of an accepted input.  The length of an item is checked when
the item is reached. -/
structure InputLimits (v : StatelessInputRef) : Prop where
  extraData : v.extraData.length ≤ extraDataLengthBound
  blockAccessList : v.blockAccessList.length ≤ blockAccessListLengthBound
  transactions : sszRawCount v.transactions.bytes = .ok v.transactions.count ∧
    v.transactions.maxItemLength = maxTransactionLength ∧
    v.transactions.count ≤ transactionCountBound
  withdrawals : v.withdrawals.bytes.length = v.withdrawals.count * 44 ∧
    v.withdrawals.maxItemLength = 44 ∧ v.withdrawals.count ≤ withdrawalCountBound
  witnessState : sszRawCount v.witnessState.bytes = .ok v.witnessState.count ∧
    v.witnessState.maxItemLength = maxWitnessNodeLength ∧
    v.witnessState.count ≤ witnessNodeCountBound
  witnessCodes : sszRawCount v.witnessCodes.bytes = .ok v.witnessCodes.count ∧
    v.witnessCodes.maxItemLength = maxWitnessCodeLength ∧
    v.witnessCodes.count ≤ witnessCodeCountBound
  witnessHeaders : sszRawCount v.witnessHeaders.bytes = .ok v.witnessHeaders.count ∧
    v.witnessHeaders.maxItemLength = maxWitnessHeaderLength ∧
    v.witnessHeaders.count ≤ witnessHeaderCountBound
  versionedHashes : ∃ count ≤ blobCommitmentCountBound, v.versionedHashes.length = count * 32
  publicKeys : ∃ count ≤ publicKeyCountBound, v.publicKeys.length = count * 65

/-- The input is the canonical serialization of the view: the schema prefix,
five tiled containers and regions within their limits. -/
structure CanonicalInput (input : List Byte) (v : StatelessInputRef)
    (executionRequests executionWitness : List Byte) : Prop where
  schema : input.take 2 = [schemaForkByte v.protocol, 0x01]
  body : Tiled (input.drop 2) 16 [0, 4, 8, 12]
    [v.newPayloadRequest, executionWitness, v.chainConfig, v.publicKeys]
  newPayloadRequest : Tiled v.newPayloadRequest 44 [0, 4, 40]
    [v.executionPayload, v.versionedHashes, executionRequests]
  executionPayload : Tiled v.executionPayload 540 [436, 504, 508, 528]
    [v.extraData, v.transactions.bytes, v.withdrawals.bytes, v.blockAccessList]
  executionRequests : Tiled executionRequests 20 [0, 4, 8, 12, 16]
    [v.deposits, v.withdrawalRequests, v.consolidationRequests, v.builderDepositRequests,
      v.builderExitRequests]
  executionWitness : Tiled executionWitness 12 [0, 4, 8]
    [v.witnessState.bytes, v.witnessCodes.bytes, v.witnessHeaders.bytes]
  limits : InputLimits v

theorem fixedAt_subSlice {container : List Byte} {position len : Nat} {fields : List SszField}
    (h : position + len ≤ container.length)
    (hrest : FixedAt container (position + len) fields) :
    FixedAt container position (.fixed (subSlice container position len) :: fields) := by
  rw [FixedAt, length_subSlice h]
  exact ⟨rfl, hrest⟩

namespace CanonicalInput

variable {input : List Byte} {v : StatelessInputRef}
  {executionRequests executionWitness : List Byte}

theorem serialize_payloadFields
    (h : CanonicalInput input v executionRequests executionWitness) :
    serialize (payloadFields v) = v.executionPayload := by
  have hlen := h.executionPayload.inside
  have h₀ : (subSlice v.executionPayload 0 436).length = 436 := length_subSlice (by omega)
  have h₁ : (subSlice v.executionPayload 440 64).length = 64 := length_subSlice (by omega)
  have h₂ : (subSlice v.executionPayload 512 16).length = 16 := length_subSlice (by omega)
  have h₃ : (subSlice v.executionPayload 532 8).length = 8 := length_subSlice (by omega)
  have hwidth : fixedWidth (payloadFields v) = 540 := by
    simp [fixedWidth, payloadFields, SszField.width, h₀, h₁, h₂, h₃]
  have hpos : offsetPositions 0 (payloadFields v) = [436, 504, 508, 528] := by
    simp [payloadFields, offsetPositions, h₀, h₁, h₂]
  refine Tiled.serialize_eq (by rw [hwidth, hpos]; exact h.executionPayload) ?_
  refine fixedAt_subSlice (by omega) ?_
  refine fixedAt_subSlice (by omega) ?_
  refine fixedAt_subSlice (by omega) ?_
  exact fixedAt_subSlice (by omega) trivial

theorem serialize_requestFields
    (h : CanonicalInput input v executionRequests executionWitness) :
    serialize (requestFields v) = executionRequests :=
  Tiled.serialize_eq h.executionRequests trivial

theorem serialize_payloadRequestFields
    (h : CanonicalInput input v executionRequests executionWitness) :
    serialize (payloadRequestFields v) = v.newPayloadRequest := by
  have hlen := h.newPayloadRequest.inside
  have h₀ : (subSlice v.newPayloadRequest 8 32).length = 32 := length_subSlice (by omega)
  have hwidth : fixedWidth (payloadRequestFields v) = 44 := by
    simp [fixedWidth, payloadRequestFields, SszField.width, h₀]
  have hpos : offsetPositions 0 (payloadRequestFields v) = [0, 4, 40] := by
    simp [payloadRequestFields, offsetPositions, h₀]
  have htiled : Tiled v.newPayloadRequest 44 [0, 4, 40] (regionsOf (payloadRequestFields v)) := by
    rw [payloadRequestFields, h.serialize_payloadFields, h.serialize_requestFields]
    exact h.newPayloadRequest
  refine Tiled.serialize_eq (by rw [hwidth, hpos]; exact htiled) ?_
  exact fixedAt_subSlice (by omega) trivial

theorem serialize_witnessFields
    (h : CanonicalInput input v executionRequests executionWitness) :
    serialize (witnessFields v) = executionWitness :=
  Tiled.serialize_eq h.executionWitness trivial

theorem serialize_bodyFields
    (h : CanonicalInput input v executionRequests executionWitness) :
    serialize (bodyFields v) = input.drop 2 := by
  have htiled : Tiled (input.drop 2) 16 [0, 4, 8, 12] (regionsOf (bodyFields v)) := by
    rw [bodyFields, h.serialize_payloadRequestFields, h.serialize_witnessFields]
    exact h.body
  exact Tiled.serialize_eq htiled trivial

/-- Writing the containers again, from the innermost out, gives the input. -/
theorem reserialize_eq (h : CanonicalInput input v executionRequests executionWitness) :
    reserialize v = input := by
  rw [reserialize, h.serialize_bodyFields, ← h.schema]
  exact List.take_append_drop 2 input

end CanonicalInput

/-! ## The decoder -/

theorem take_two {input : List Byte} (h : 2 ≤ input.length) :
    input.take 2 = [sliceByte input 0, sliceByte input 1] := by
  rcases input with _ | ⟨b₀, _ | ⟨b₁, rest⟩⟩
  · exact absurd h (by decide)
  · exact absurd h (by decide : ¬ 2 ≤ 1)
  · rfl

theorem decodeSchema_eq_ok {input : List Byte} {protocol : ProtocolProfile}
    (h : decodeSchema input = .ok protocol) :
    input.take 2 = [schemaForkByte protocol, 0x01] := by
  rw [decodeSchema] at h
  obtain ⟨_, hlen, h⟩ := bind_eq_ok.mp h
  obtain ⟨_, hversion, h⟩ := bind_eq_ok.mp h
  obtain ⟨_, hmatch, h⟩ := bind_eq_ok.mp h
  have hlen := ensure_eq_ok.mp hlen
  obtain ⟨p, hp, hbyte⟩ := schemaProtocolProfile_ok (ensure_eq_ok.mp hmatch)
  rw [hp] at h
  cases h
  rw [take_two (by omega), ensure_eq_ok.mp hversion, hbyte]
  rfl

theorem checkPublicKeys_eq_ok {publicKeys : List Byte} {u : Unit}
    (h : checkPublicKeys publicKeys = .ok u) :
    ∃ count ≤ publicKeyCountBound, publicKeys.length = count * 65 := by
  rw [checkPublicKeys] at h
  obtain ⟨_, hwhole, h⟩ := bind_eq_ok.mp h
  exact ⟨publicKeys.length / 65, ensure_eq_ok.mp h, ensure_eq_ok.mp hwhole⟩

/-- An accepted input is the canonical serialization of its view. -/
theorem decodeStatelessInputRef_sound {input : List Byte} {v : StatelessInputRef}
    (h : decodeStatelessInputRef input = .ok v) :
    ∃ executionRequests executionWitness,
      CanonicalInput input v executionRequests executionWitness := by
  rw [decodeStatelessInputRef] at h
  obtain ⟨protocol, hschema, h⟩ := bind_eq_ok.mp h
  obtain ⟨body, hbody, h⟩ := bind_eq_ok.mp h
  obtain ⟨request, hrequest, h⟩ := bind_eq_ok.mp h
  obtain ⟨payload, hpayload, h⟩ := bind_eq_ok.mp h
  obtain ⟨requests, hrequests, h⟩ := bind_eq_ok.mp h
  obtain ⟨witness, hwitness, h⟩ := bind_eq_ok.mp h
  obtain ⟨_, hkeys, h⟩ := bind_eq_ok.mp h
  obtain ⟨hashes, hhashes, h⟩ := bind_eq_ok.mp h
  cases h
  obtain ⟨tBody, _⟩ := decodeBody_tiled hbody
  obtain ⟨tRequest, _⟩ := decodePayloadRequest_tiled hrequest
  obtain ⟨tPayload, payloadLimits⟩ := decodePayload_tiled hpayload
  obtain ⟨tWitness, witnessLimits⟩ := decodeWitness_tiled hwitness
  obtain ⟨_, hhashLen, _, hhashCount⟩ := (sszBoundedFixedListRef_eq_ok (by decide)).mp hhashes
  refine ⟨request.executionRequests, body.executionWitness,
    ⟨decodeSchema_eq_ok hschema, tBody, tRequest, tPayload, decodeRequests_tiled hrequests,
      tWitness, ?_⟩⟩
  exact
    { extraData := payloadLimits.extraData
      blockAccessList := payloadLimits.blockAccessList
      transactions := payloadLimits.transactions
      withdrawals := payloadLimits.withdrawals
      witnessState := witnessLimits.state
      witnessCodes := witnessLimits.codes
      witnessHeaders := witnessLimits.headers
      versionedHashes := ⟨hashes.count, hhashCount, hhashLen⟩
      publicKeys := checkPublicKeys_eq_ok hkeys }

/-! ## Every other input is rejected -/

/-- The decoder stops by rejecting its input. -/
def Rejected (e : Halt) : Prop := e = .fatal .invalidConfig

theorem ensure_ends {p : Prop} [Decidable p] : Ends (fun _ => p) Rejected (ensure p) := by
  rw [ensure]
  split
  · rename_i hp
    exact hp
  · rfl

theorem sszContainerBytes_ends {bytes : List Byte} {minimum : Nat} :
    Ends (fun container => minimum ≤ container.length) Rejected
      (sszContainerBytes bytes minimum) := by
  refine ensure_ends.bind ?_
  intro _ hlen
  exact hlen

/-- An offset inside the fixed part of its container is read. -/
theorem sszFieldU32_ends {bytes : List Byte} {offset : Nat} (h : offset + 4 ≤ bytes.length) :
    Ends (fun _ => True) Rejected (sszFieldU32 bytes offset) := by
  rw [sszFieldU32, if_pos h]
  trivial

theorem sszTake_ends {cursor : SszContainerCursor} {stop : Nat} :
    Ends (fun _ => True) Rejected (sszTake cursor stop) := by
  rw [sszTake]
  split
  · trivial
  · rfl

theorem sszFinish_ends {cursor : SszContainerCursor} :
    Ends (fun _ => True) Rejected (sszFinish cursor) := by
  rw [sszFinish]
  split
  · trivial
  · rfl

theorem sszRawCount_ends {bytes : List Byte} :
    Ends (fun _ => True) Rejected (sszRawCount bytes) := by
  rw [sszRawCount]
  refine Ends.ite (fun _ => trivial) (fun _ => ?_)
  refine Ends.ite (fun _ => rfl) (fun _ => ?_)
  exact Ends.ite (fun _ => rfl) (fun _ => trivial)

theorem sszBoundedVariableListRef_ends {bytes : List Byte} {maximumCount maximumLength : Nat} :
    Ends (fun _ => True) Rejected
      (sszBoundedVariableListRef bytes maximumCount maximumLength) := by
  refine sszRawCount_ends.bind ?_
  intro rawCount _
  exact Ends.ite (fun _ => trivial) (fun _ => rfl)

theorem sszBoundedFixedListRef_ends {bytes : List Byte} {itemSize maximumCount : Nat} :
    Ends (fun _ => True) Rejected (sszBoundedFixedListRef bytes itemSize maximumCount) := by
  refine Ends.ite (fun _ => ?_) (fun _ => rfl)
  refine Ends.ite (fun _ => rfl) (fun _ => ?_)
  exact Ends.ite (fun _ => trivial) (fun _ => rfl)

theorem decodeSchema_ends {input : List Byte} :
    Ends (fun _ => True) Rejected (decodeSchema input) := by
  refine ensure_ends.bind ?_
  intro _ _
  refine ensure_ends.bind ?_
  intro _ _
  refine ensure_ends.bind ?_
  intro _ hmatch
  obtain ⟨p, hp, _⟩ := schemaProtocolProfile_ok hmatch
  rw [hp]
  trivial

theorem decodeBody_ends {body : List Byte} :
    Ends (fun r => 44 ≤ r.newPayloadRequest.length ∧ 12 ≤ r.executionWitness.length) Rejected
      (decodeBody body) := by
  refine sszContainerBytes_ends.bind ?_
  intro container hlen
  refine (sszFieldU32_ends (by omega)).bind ?_
  intro o₀ _
  refine (sszFieldU32_ends (by omega)).bind ?_
  intro o₁ _
  refine (sszFieldU32_ends (by omega)).bind ?_
  intro o₂ _
  refine (sszFieldU32_ends (by omega)).bind ?_
  intro o₃ _
  refine ensure_ends.bind ?_
  intro _ _
  refine sszTake_ends.bind ?_
  rintro ⟨r₀, c₀⟩ _
  refine sszContainerBytes_ends.bind ?_
  intro npr hnpr
  refine sszTake_ends.bind ?_
  rintro ⟨r₁, c₁⟩ _
  refine sszContainerBytes_ends.bind ?_
  intro wit hwit
  refine sszTake_ends.bind ?_
  rintro ⟨r₂, c₂⟩ _
  refine sszFinish_ends.bind ?_
  intro keys _
  exact ⟨hnpr, hwit⟩

theorem decodePayloadRequest_ends {request : List Byte} (hlen : 44 ≤ request.length) :
    Ends (fun r => 20 ≤ r.executionRequests.length) Rejected (decodePayloadRequest request) := by
  refine (sszFieldU32_ends (by omega)).bind ?_
  intro o₀ _
  refine (sszFieldU32_ends (by omega)).bind ?_
  intro o₁ _
  refine (sszFieldU32_ends (by omega)).bind ?_
  intro o₂ _
  refine ensure_ends.bind ?_
  intro _ _
  refine sszTake_ends.bind ?_
  rintro ⟨r₀, c₀⟩ _
  refine sszTake_ends.bind ?_
  rintro ⟨r₁, c₁⟩ _
  refine sszFinish_ends.bind ?_
  intro r₂ _
  refine sszContainerBytes_ends.bind ?_
  intro reqs hreqs
  exact hreqs

theorem decodePayload_ends {payload : List Byte} :
    Ends (fun _ => True) Rejected (decodePayload payload) := by
  refine sszContainerBytes_ends.bind ?_
  intro container hlen
  refine (sszFieldU32_ends (by omega)).bind ?_
  intro o₀ _
  refine (sszFieldU32_ends (by omega)).bind ?_
  intro o₁ _
  refine (sszFieldU32_ends (by omega)).bind ?_
  intro o₂ _
  refine (sszFieldU32_ends (by omega)).bind ?_
  intro o₃ _
  refine ensure_ends.bind ?_
  intro _ _
  refine sszTake_ends.bind ?_
  rintro ⟨r₀, c₀⟩ _
  refine sszTake_ends.bind ?_
  rintro ⟨r₁, c₁⟩ _
  refine sszBoundedVariableListRef_ends.bind ?_
  intro txs _
  refine sszTake_ends.bind ?_
  rintro ⟨r₂, c₂⟩ _
  refine sszBoundedFixedListRef_ends.bind ?_
  intro wds _
  refine sszFinish_ends.bind ?_
  intro bal _
  refine ensure_ends.bind ?_
  intro _ _
  refine ensure_ends.bind ?_
  intro _ _
  trivial

theorem decodeRequests_ends {requests : List Byte} (hlen : 20 ≤ requests.length) :
    Ends (fun _ => True) Rejected (decodeRequests requests) := by
  refine (sszFieldU32_ends (by omega)).bind ?_
  intro o₀ _
  refine (sszFieldU32_ends (by omega)).bind ?_
  intro o₁ _
  refine (sszFieldU32_ends (by omega)).bind ?_
  intro o₂ _
  refine (sszFieldU32_ends (by omega)).bind ?_
  intro o₃ _
  refine (sszFieldU32_ends (by omega)).bind ?_
  intro o₄ _
  refine ensure_ends.bind ?_
  intro _ _
  refine sszTake_ends.bind ?_
  rintro ⟨r₀, c₀⟩ _
  refine sszTake_ends.bind ?_
  rintro ⟨r₁, c₁⟩ _
  refine sszTake_ends.bind ?_
  rintro ⟨r₂, c₂⟩ _
  refine sszTake_ends.bind ?_
  rintro ⟨r₃, c₃⟩ _
  refine sszFinish_ends.bind ?_
  intro r₄ _
  trivial

theorem decodeWitness_ends {witness : List Byte} (hlen : 12 ≤ witness.length) :
    Ends (fun _ => True) Rejected (decodeWitness witness) := by
  refine (sszFieldU32_ends (by omega)).bind ?_
  intro o₀ _
  refine (sszFieldU32_ends (by omega)).bind ?_
  intro o₁ _
  refine (sszFieldU32_ends (by omega)).bind ?_
  intro o₂ _
  refine ensure_ends.bind ?_
  intro _ _
  refine sszTake_ends.bind ?_
  rintro ⟨r₀, c₀⟩ _
  refine sszBoundedVariableListRef_ends.bind ?_
  intro state _
  refine sszTake_ends.bind ?_
  rintro ⟨r₁, c₁⟩ _
  refine sszBoundedVariableListRef_ends.bind ?_
  intro codes _
  refine sszFinish_ends.bind ?_
  intro r₂ _
  refine sszBoundedVariableListRef_ends.bind ?_
  intro headers _
  trivial

theorem checkPublicKeys_ends {publicKeys : List Byte} :
    Ends (fun _ => True) Rejected (checkPublicKeys publicKeys) := by
  refine ensure_ends.bind ?_
  intro _ _
  refine ensure_ends.mono ?_
  intro _ _
  trivial

/-- No input is read past its end: what is not accepted is rejected. -/
theorem decodeStatelessInputRef_ends (input : List Byte) :
    Ends (fun _ => True) Rejected (decodeStatelessInputRef input) := by
  refine decodeSchema_ends.bind ?_
  intro protocol _
  refine decodeBody_ends.bind ?_
  intro body hbody
  refine (decodePayloadRequest_ends hbody.1).bind ?_
  intro request hrequest
  refine decodePayload_ends.bind ?_
  intro payload _
  refine (decodeRequests_ends hrequest).bind ?_
  intro requests _
  refine (decodeWitness_ends hbody.2).bind ?_
  intro witness _
  refine checkPublicKeys_ends.bind ?_
  intro _ _
  refine sszBoundedFixedListRef_ends.bind ?_
  intro hashes _
  trivial

/-! ## Items and the chain config, when they are reached -/

/-- An item of a list is within the limit that the list carries. -/
theorem sszListAt_length {items : BoundedSszListRef} {index : Nat} {item : List Byte}
    (hmax : items.maxItemLength ≠ 0) (h : sszListAt items index = .ok item) :
    item.length ≤ items.maxItemLength := by
  rw [sszListAt] at h
  split at h
  · obtain ⟨start, _, h⟩ := bind_eq_ok.mp h
    obtain ⟨stop, _, h⟩ := bind_eq_ok.mp h
    split at h
    · simp only at h
      split at h
      · cases h
      · rename_i hfits
        cases h
        rw [subSlice, List.length_take]
        have hle : stop - start ≤ items.maxItemLength := by
          by_contra hgt
          exact hfits ⟨hmax, Nat.lt_of_not_le hgt⟩
        exact (Nat.min_le_left _ _).trans hle
    · cases h
  · cases h

theorem sszU32At_drop (s : List Byte) (n i : Nat) :
    sszU32At (s.drop n) i = sszU32At s (n + i) := by
  rw [sszU32At, sszU32At, sliceByte_drop, sliceByte_drop, sliceByte_drop, sliceByte_drop]
  rfl

/-- The containers of the chain config: `SszChainConfig` around
`SszForkConfig` around `SszForkActivation`, whose two regions hold at most
one value each. -/
structure CanonicalChainConfig (cc : List Byte) (blockNumber timestamp : List Byte) : Prop where
  chainConfig : Tiled cc 12 [8] [cc.drop 12]
  forkConfig : Tiled (cc.drop 12) 4 [0] [cc.drop 16]
  activation : Tiled (cc.drop 16) 8 [0, 4] [blockNumber, timestamp]
  blockNumber : blockNumber.length = 0 ∨ blockNumber.length = 8
  timestamp : timestamp.length = 0 ∨ timestamp.length = 8

theorem decodeChainConfig_sound {cc : List Byte} {number timestamp : Nat} {c : ChainConfig}
    (h : decodeChainConfig cc number timestamp = .ok c) :
    ∃ bn ts, CanonicalChainConfig cc bn ts := by
  rw [decodeChainConfig] at h
  obtain ⟨_, _, h⟩ := bind_eq_ok.mp h
  obtain ⟨o₀, h₀, h⟩ := bind_eq_ok.mp h
  obtain ⟨_, hfork, h⟩ := bind_eq_ok.mp h
  obtain ⟨o₁, h₁, h⟩ := bind_eq_ok.mp h
  obtain ⟨_, hactivation, h⟩ := bind_eq_ok.mp h
  obtain ⟨o₂, h₂, h⟩ := bind_eq_ok.mp h
  obtain ⟨o₃, h₃, h⟩ := bind_eq_ok.mp h
  obtain ⟨_, _, h⟩ := bind_eq_ok.mp h
  obtain ⟨_, _, h⟩ := bind_eq_ok.mp h
  obtain ⟨_, hstart, h⟩ := bind_eq_ok.mp h
  obtain ⟨_, hle, h⟩ := bind_eq_ok.mp h
  obtain ⟨_, hstop, h⟩ := bind_eq_ok.mp h
  obtain ⟨_, hwidths, h⟩ := bind_eq_ok.mp h
  have hoff₀ := sszFieldU32_eq_ok h₀
  have hoff₁ := sszFieldU32_eq_ok h₁
  have hoff₂ := sszFieldU32_eq_ok h₂
  have hoff₃ := sszFieldU32_eq_ok h₃
  obtain ⟨hfork, hlen⟩ := ensure_eq_ok.mp hfork
  have hactivation := ensure_eq_ok.mp hactivation
  have hstart := ensure_eq_ok.mp hstart
  have hle := ensure_eq_ok.mp hle
  have hstop := ensure_eq_ok.mp hstop
  obtain ⟨hbn, hts⟩ := ensure_eq_ok.mp hwidths
  have hfirst : o₂ = 8 := by omega
  -- the two regions of the activation record
  have hbnLen : (subSlice cc 24 (o₃ - 8)).length = 16 + o₃ - (16 + o₂) := by
    rw [length_subSlice (by omega)]
    omega
  have htsLen : (cc.drop (16 + o₃)).length = cc.length - (16 + o₃) := List.length_drop
  have hsplit : (cc.drop 16).drop 8 = subSlice cc 24 (o₃ - 8) ++ cc.drop (16 + o₃) := by
    have hcut := List.take_append_drop (o₃ - 8) (cc.drop 24)
    rw [List.drop_drop, show 24 + (o₃ - 8) = 16 + o₃ by omega] at hcut
    rw [List.drop_drop]
    exact hcut.symm
  refine ⟨subSlice cc 24 (o₃ - 8), cc.drop (16 + o₃), ⟨?_, ?_, ?_, ?_, ?_⟩⟩
  · refine ⟨by omega, ?_, (List.flatten_singleton).symm⟩
    rw [List.map_singleton, ← hoff₀, hfork]
    rfl
  · refine ⟨?_, ?_, ?_⟩
    · rw [List.length_drop]
      omega
    · rw [List.map_singleton, sszU32At_drop, ← hoff₁, hactivation]
      rfl
    · rw [List.drop_drop, List.flatten_singleton]
  · refine ⟨?_, ?_, ?_⟩
    · rw [List.length_drop]
      omega
    · rw [List.map_cons, List.map_singleton, sszU32At_drop, sszU32At_drop, ← hoff₂, ← hoff₃,
        runningOffsets, runningOffsets, runningOffsets, hbnLen]
      congr 2
      omega
    · rw [hsplit, List.flatten_cons, List.flatten_singleton]
  · rw [hbnLen]
    exact hbn
  · rw [htsLen]
    exact hts

/-! ## Main result -/

/-- The decoder accepts only canonical inputs.  An accepted input is tiled,
in each of its containers, by the fixed part and the regions of the view,
which respect their limits; serializing the view gives the input back, so
that no two inputs have one view; every other input is rejected.  The items
of the lists and the containers of the chain config are checked when they
are reached, and are then canonical as well. -/
theorem decodeStatelessInputRef_canonical :
    (∀ input v, decodeStatelessInputRef input = .ok v →
      (∃ executionRequests executionWitness,
        CanonicalInput input v executionRequests executionWitness) ∧
      reserialize v = input ∧
      (∀ items ∈ [v.transactions, v.witnessState, v.witnessCodes, v.witnessHeaders],
        ∀ index item, sszListAt items index = .ok item → item.length ≤ items.maxItemLength) ∧
      (∀ number timestamp c, decodeChainConfig v.chainConfig number timestamp = .ok c →
        ∃ bn ts, CanonicalChainConfig v.chainConfig bn ts)) ∧
    (∀ input input' v, decodeStatelessInputRef input = .ok v →
      decodeStatelessInputRef input' = .ok v → input = input') ∧
    (∀ input e, decodeStatelessInputRef input = .error e → e = .fatal .invalidConfig) := by
  refine ⟨?_, ?_, ?_⟩
  · intro input v h
    obtain ⟨requests, witness, hcanonical⟩ := decodeStatelessInputRef_sound h
    have hlimits := hcanonical.limits
    refine ⟨⟨requests, witness, hcanonical⟩, hcanonical.reserialize_eq, ?_, ?_⟩
    · intro items hmem index item hitem
      refine sszListAt_length ?_ hitem
      simp only [List.mem_cons, List.not_mem_nil, or_false] at hmem
      rcases hmem with rfl | rfl | rfl | rfl
      · rw [hlimits.transactions.2.1]
        decide
      · rw [hlimits.witnessState.2.1]
        decide
      · rw [hlimits.witnessCodes.2.1]
        decide
      · rw [hlimits.witnessHeaders.2.1]
        decide
    · intro number timestamp c hc
      exact decodeChainConfig_sound hc
  · intro input input' v h h'
    obtain ⟨_, _, hcanonical⟩ := decodeStatelessInputRef_sound h
    obtain ⟨_, _, hcanonical'⟩ := decodeStatelessInputRef_sound h'
    rw [← hcanonical.reserialize_eq, ← hcanonical'.reserialize_eq]
  · intro input e h
    exact (decodeStatelessInputRef_ends input).of_error h

end EvmSail
