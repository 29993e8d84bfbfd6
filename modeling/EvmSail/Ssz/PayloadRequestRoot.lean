/-
# `EvmSail.Ssz.PayloadRequestRoot` — the root of an accepted payload request

The request is four containers deep: lists and byte strings, the execution
payload and the execution requests over them, and the request itself.  What the
decoder has checked of an input makes every field of these containers readable
but two: the items of the transaction list, and whether a request list is a
whole number of requests, are looked at when their root is computed
(`htrNewPayloadRequest_eq_ok`).
-/
import EvmSail.Ssz.HashTreeRootSound
import EvmSail.Ssz.InputSound

namespace EvmSail

open Fallible

/-! ## The specification -/

/-- The list is a whole number of requests, and not too many of them. -/
def WholeRequests (kind : HtrRequestKind) (bound : Nat) (requests : List Byte) : Prop :=
  ∃ count ≤ bound, requests.length = count * requestLength kind

/-- The execution requests of a view are whole. -/
structure WholeExecutionRequests (v : StatelessInputRef) : Prop where
  deposits : WholeRequests .htrDeposit depositRequestCountBound v.deposits
  withdrawalRequests :
    WholeRequests .htrWithdrawalRequest withdrawalRequestCountBound v.withdrawalRequests
  consolidationRequests :
    WholeRequests .htrConsolidationRequest consolidationRequestCountBound v.consolidationRequests
  builderDepositRequests :
    WholeRequests .htrBuilderDepositRequest builderDepositRequestCountBound
      v.builderDepositRequests
  builderExitRequests :
    WholeRequests .htrBuilderExitRequest builderExitRequestCountBound v.builderExitRequests

section

variable (sha256Pair : Hash → Hash → Hash)

/-- The root of a list of requests. -/
def requestListRoot (kind : HtrRequestKind) (bound : Nat) (requests : List Byte) : Hash :=
  listRoot sha256Pair bound
    ((fixedItems requests (requests.length / requestLength kind) (requestLength kind)).map
      (requestRoot sha256Pair kind))

/-- `ExecutionRequests(deposits, withdrawals, consolidations, builder_deposits,
builder_exits)`. -/
def executionRequestsRoot (v : StatelessInputRef) : Hash :=
  containerRoot sha256Pair
    [requestListRoot sha256Pair .htrDeposit depositRequestCountBound v.deposits,
      requestListRoot sha256Pair .htrWithdrawalRequest withdrawalRequestCountBound
        v.withdrawalRequests,
      requestListRoot sha256Pair .htrConsolidationRequest consolidationRequestCountBound
        v.consolidationRequests,
      requestListRoot sha256Pair .htrBuilderDepositRequest builderDepositRequestCountBound
        v.builderDepositRequests,
      requestListRoot sha256Pair .htrBuilderExitRequest builderExitRequestCountBound
        v.builderExitRequests]

/-- The nineteen fields of `ExecutionPayload`, in their order. -/
def executionPayloadRoot (v : StatelessInputRef) (transactions : List (List Byte)) : Hash :=
  let field := fun offset len => chunkOf (subSlice v.executionPayload offset len)
  containerRoot sha256Pair
    [field 0 32, field 32 20, field 52 32, field 84 32,
      byteVectorRoot sha256Pair (subSlice v.executionPayload 116 256), field 372 32, field 404 8,
      field 412 8, field 420 8, field 428 8,
      byteListRoot sha256Pair extraDataLengthBound v.extraData, field 440 32, field 472 32,
      listRoot sha256Pair transactionCountBound
        (transactions.map (byteListRoot sha256Pair htrByteListLimit)),
      listRoot sha256Pair withdrawalCountBound
        ((fixedItems v.withdrawals.bytes v.withdrawals.count 44).map (withdrawalRoot sha256Pair)),
      field 512 8, field 520 8, byteListRoot sha256Pair htrByteListLimit v.blockAccessList,
      field 532 8]

/-- `NewPayloadRequest(execution_payload, versioned_hashes, parent_beacon_block_root,
execution_requests)`. -/
def newPayloadRequestRoot (v : StatelessInputRef) (transactions : List (List Byte)) : Hash :=
  containerRoot sha256Pair
    [executionPayloadRoot sha256Pair v transactions,
      listRoot sha256Pair blobCommitmentCountBound (pack v.versionedHashes),
      chunkOf (subSlice v.newPayloadRequest 8 32), executionRequestsRoot sha256Pair v]

end

section

variable {sha256Pair : Hash → Hash → Hash} (hzero : ZeroHashes sha256Pair)
include hzero

/-! ## The requests -/

/-- A request list has a root exactly when it is whole. -/
theorem htrRequestList_eq_ok {kind : HtrRequestKind} {depth : Nat} (hdepth : depth ≤ 25)
    {requests : List Byte} {r : Hash} :
    htrRequestList sha256Pair kind (2 ^ depth) depth requests = .ok r ↔
      WholeRequests kind (2 ^ depth) requests ∧
        r = requestListRoot sha256Pair kind (2 ^ depth) requests := by
  have hpos := requestLength_pos kind
  have hroot : ∀ count ≤ 2 ^ depth, requests.length = count * requestLength kind →
      htrRequestList sha256Pair kind (2 ^ depth) depth requests =
        .ok (requestListRoot sha256Pair kind (2 ^ depth) requests) := by
    intro count hcount hlen
    rw [htrRequestList_eq hzero hdepth hlen hcount, requestListRoot, hlen,
      Nat.mul_div_cancel _ hpos]
  constructor
  · intro h
    obtain ⟨items, hitems, -⟩ := bind_eq_ok.mp h
    obtain ⟨-, hlen, -, hcount⟩ := (sszBoundedFixedListRef_eq_ok hpos).mp hitems
    refine ⟨⟨items.count, hcount, hlen⟩, ?_⟩
    rw [hroot _ hcount hlen] at h
    exact (Except.ok.inj h).symm
  · rintro ⟨⟨count, hcount, hlen⟩, rfl⟩
    exact hroot count hcount hlen

theorem htrExecutionRequests_eq_ok {v : StatelessInputRef} {r : Hash} :
    htrExecutionRequests sha256Pair v = .ok r ↔
      WholeExecutionRequests v ∧ r = executionRequestsRoot sha256Pair v := by
  have hlast : ∀ fields : List Hash, fields.length = 5 →
      merkleize sha256Pair fields 3 = .ok (containerRoot sha256Pair fields) := by
    intro fields hlen
    exact merkleize_container hzero (by rw [hlen]; norm_num) (by omega)
  rw [htrExecutionRequests]
  simp only [bind_eq_ok, htrDeposits, htrWithdrawalRequests, htrConsolidationRequests,
    htrBuilderDepositRequests, htrBuilderExitRequests]
  constructor
  · rintro ⟨r₁, h₁, r₂, h₂, r₃, h₃, r₄, h₄, r₅, h₅, h⟩
    obtain ⟨hw₁, rfl⟩ := (htrRequestList_eq_ok hzero (by omega)).mp h₁
    obtain ⟨hw₂, rfl⟩ := (htrRequestList_eq_ok hzero (by omega)).mp h₂
    obtain ⟨hw₃, rfl⟩ := (htrRequestList_eq_ok hzero (by omega)).mp h₃
    obtain ⟨hw₄, rfl⟩ := (htrRequestList_eq_ok hzero (by omega)).mp h₄
    obtain ⟨hw₅, rfl⟩ := (htrRequestList_eq_ok hzero (by omega)).mp h₅
    rw [hlast _ rfl] at h
    exact ⟨⟨hw₁, hw₂, hw₃, hw₄, hw₅⟩, (Except.ok.inj h).symm⟩
  · rintro ⟨⟨hw₁, hw₂, hw₃, hw₄, hw₅⟩, rfl⟩
    exact ⟨_, (htrRequestList_eq_ok hzero (by omega)).mpr ⟨hw₁, rfl⟩,
      _, (htrRequestList_eq_ok hzero (by omega)).mpr ⟨hw₂, rfl⟩,
      _, (htrRequestList_eq_ok hzero (by omega)).mpr ⟨hw₃, rfl⟩,
      _, (htrRequestList_eq_ok hzero (by omega)).mpr ⟨hw₄, rfl⟩,
      _, (htrRequestList_eq_ok hzero (by omega)).mpr ⟨hw₅, rfl⟩, hlast _ rfl⟩

/-! ## The payload -/

/-- The payload of a view has a root exactly when its transactions can be
read. -/
theorem htrExecutionPayload_eq_ok {v : StatelessInputRef} {r : Hash} (hlimits : InputLimits v)
    (hlen : 540 ≤ v.executionPayload.length) :
    htrExecutionPayload sha256Pair v = .ok r ↔
      ∃ transactions,
        (List.range v.transactions.count).mapM (sszListAt v.transactions) = .ok transactions ∧
        r = executionPayloadRoot sha256Pair v transactions := by
  have hitems : ∀ {items : List (List Byte)},
      (List.range v.transactions.count).mapM (sszListAt v.transactions) = .ok items →
      ∀ tx ∈ items, tx.length ≤ htrByteListLimit := by
    intro items hread tx htx
    obtain ⟨hmax, -⟩ := hlimits.transactions.2
    have hall := mapM_eq_ok.mp hread
    obtain ⟨i, hi, rfl⟩ := List.getElem_of_mem htx
    have hitem := hall.get (hall.length_eq ▸ hi) hi
    have hle := sszListAt_length (by rw [hmax]; decide) hitem
    rw [hmax] at hle
    exact hle
  have hextra : htrBytelist sha256Pair v.extraData 32 =
      .ok (byteListRoot sha256Pair extraDataLengthBound v.extraData) :=
    htrBytelist_eq hzero hlimits.extraData (by decide)
  have hbal : htrBytelist sha256Pair v.blockAccessList htrByteListLimit =
      .ok (byteListRoot sha256Pair htrByteListLimit v.blockAccessList) :=
    htrBytelist_eq hzero hlimits.blockAccessList (Nat.le_refl _)
  rw [htrExecutionPayload, htrSszBytevector_eq hzero (by omega) (by decide), ok_bind, hextra,
    ok_bind, htrWithdrawals_eq hzero hlimits.withdrawals.1 hlimits.withdrawals.2.2, bind_eq_ok]
  simp only [ok_bind, hbal, htrSszBytes32_eq, htrSszUint_eq, htrSszU256_eq,
    htrSszAddr_eq (show 32 + 20 ≤ v.executionPayload.length by omega)]
  constructor
  · rintro ⟨transactionsRoot, htransactions, h⟩
    obtain ⟨items, hread, -, rfl⟩ :=
      (htrTransactions_eq_ok hzero hlimits.transactions.2.2).mp htransactions
    rw [merkleize_container hzero (by norm_num) (by omega)] at h
    exact ⟨items, hread, (Except.ok.inj h).symm⟩
  · rintro ⟨items, hread, rfl⟩
    refine ⟨_, (htrTransactions_eq_ok hzero hlimits.transactions.2.2).mpr
      ⟨items, hread, hitems hread, rfl⟩, ?_⟩
    exact merkleize_container hzero (by norm_num) (by omega)

/-- The root of an accepted input's request is computed exactly when its
transactions can be read and its execution requests are whole, and is then the
Merkle root of the container. -/
theorem htrNewPayloadRequest_eq_ok {input : List Byte} {v : StatelessInputRef} {r : Hash}
    (hdecode : decodeStatelessInputRef input = .ok v) :
    htrNewPayloadRequest sha256Pair v = .ok r ↔
      WholeExecutionRequests v ∧ ∃ transactions,
        (List.range v.transactions.count).mapM (sszListAt v.transactions) = .ok transactions ∧
        r = newPayloadRequestRoot sha256Pair v transactions := by
  obtain ⟨_, _, hcanonical⟩ := decodeStatelessInputRef_sound hdecode
  obtain ⟨count, hcount, hlen⟩ := hcanonical.limits.versionedHashes
  rw [htrNewPayloadRequest]
  simp only [htrVersionedHashes_eq hzero hlen hcount, ok_bind, bind_eq_ok, htrSszBytes32_eq,
    htrExecutionPayload_eq_ok hzero hcanonical.limits hcanonical.executionPayload.inside,
    htrExecutionRequests_eq_ok hzero]
  constructor
  · rintro ⟨_, ⟨transactions, hread, rfl⟩, _, ⟨hwhole, rfl⟩, h⟩
    rw [merkleize_container hzero (by norm_num) (by omega)] at h
    exact ⟨hwhole, transactions, hread, (Except.ok.inj h).symm⟩
  · rintro ⟨hwhole, transactions, hread, rfl⟩
    refine ⟨_, ⟨transactions, hread, rfl⟩, _, ⟨hwhole, rfl⟩, ?_⟩
    exact merkleize_container hzero (by norm_num) (by omega)

end

end EvmSail
