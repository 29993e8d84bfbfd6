/-
# `EvmSail.Executor.Deposits` — authenticating deposit requests

The logs of the deposit contract are compared with the request bytes that
the consensus layer committed to: each event must be the ABI encoding of
five byte strings of fixed lengths, and the strings must be the next 192
bytes.  What is returned is the part of the request bytes still to be
accounted for.

`DepositEvent.Encodes` says what such an event is, and `DepositRequests`
what a sequence of logs deposits.  Authentication strips just that off the front
of the request bytes (`authenticateDepositLog_foldlM`), and where it
cannot, the block is rejected.
-/
import EvmSail.Kernel.Logs
import Mathlib.Data.List.SplitLengths

namespace EvmSail

open Fallible Kernel

/-! ## The checks -/

def depositContractAddr : Address := 0x00000000219ab540356cbb839cbe05303d7705fa

def depositEventTopic : Word :=
  0x649bbc62d0e31342afea4e5cd82d4049e7e1ee912fc0889aa790803be39038c5

def depositEventDataLength : Nat := 576

def depositRequestLength : Nat := 192

/-- A word of the event data that has to hold a fixed value. -/
structure DepositWord where
  offset : Nat
  value : Nat

/-- The heads of the five byte strings, and the words of their lengths. -/
def depositEventWords : List DepositWord :=
  [⟨0, 160⟩, ⟨32, 256⟩, ⟨64, 320⟩, ⟨96, 384⟩, ⟨128, 512⟩,
    ⟨160, 48⟩, ⟨256, 32⟩, ⟨320, 8⟩, ⟨384, 96⟩, ⟨512, 8⟩]

/-- A byte string of the event and its place in the request. -/
structure DepositField where
  data : Nat
  request : Nat
  length : Nat

/-- The public key, the withdrawal credentials, the amount, the signature
and the index. -/
def depositEventFields : List DepositField :=
  [⟨192, 0, 48⟩, ⟨288, 48, 32⟩, ⟨352, 80, 8⟩, ⟨416, 88, 96⟩, ⟨544, 184, 8⟩]

def checkDepositWord (data : List Byte) (w : DepositWord) : Result Unit :=
  if sliceLoad data w.offset ≠ BitVec.ofNat 256 w.value then fatalError .invalidExecutionRequests
  else .ok ()

def depositFieldMismatch (data expected : List Byte) (f : DepositField) : Bool :=
  subSlice data f.data f.length != subSlice expected f.request f.length

/-- Validates one event against the next request, and returns the request
bytes behind it. -/
def authenticateDepositRequest (data expected : List Byte) : Result (List Byte) :=
  if data.length = depositEventDataLength then do
    depositEventWords.forM (checkDepositWord data)
    if depositRequestLength ≤ expected.length then
      if depositEventFields.any (depositFieldMismatch data expected) then
        fatalError .invalidExecutionRequests
      else .ok (sliceSuffix expected depositRequestLength)
    else fatalError .invalidExecutionRequests
  else fatalError .invalidExecutionRequests

section

variable (h : Host)

/-- Whether a retained log is a deposit event. -/
def depositLogMatches (index : Nat) : Bool :=
  if logAddress h index ≠ depositContractAddr then false
  else if logTopicsCount h index = 0 then false
  else logTopic h index 0 == depositEventTopic

/-- One round of `authenticate_deposit_logs`. -/
def authenticateDepositLogAt (logs : LogSeriesRef) (remaining : List Byte) (offset : Nat) :
    Result (List Byte) := do
  let index ← logStoreIndexAdd logs.start offset
  let remaining ←
    (if depositLogMatches h index then authenticateDepositRequest (readLogData h index) remaining
    else .ok remaining : Result (List Byte))
  let _next ← logStoreIndexIncrement offset
  .ok remaining

/-- Authenticates the deposit events of a series in emission order. -/
def authenticateDepositLogs (logs : LogSeriesRef) (expected : List Byte) : Result (List Byte) :=
  (List.range logs.count).foldlM (authenticateDepositLogAt h logs) expected

end

/-! ## What a log deposits -/

/-- The five byte strings of a deposit. -/
structure DepositEvent where
  pubkey : Vector Byte 48
  withdrawalCredentials : Vector Byte 32
  amount : Vector Byte 8
  signature : Vector Byte 96
  index : Vector Byte 8

namespace DepositEvent

variable (e : DepositEvent)

def fields : List (List Byte) :=
  [e.pubkey.toList, e.withdrawalCredentials.toList, e.amount.toList, e.signature.toList,
    e.index.toList]

/-- The deposit request. -/
def request : List Byte := e.fields.flatten

/-- The ABI encoding: the heads, then each string behind its length, padded
to whole words with the given bytes. -/
def pieces (padPubkey padAmount padIndex : List Byte) : List (List Byte) :=
  [bytesOfNat 32 160, bytesOfNat 32 256, bytesOfNat 32 320, bytesOfNat 32 384, bytesOfNat 32 512,
    bytesOfNat 32 48, e.pubkey.toList, padPubkey,
    bytesOfNat 32 32, e.withdrawalCredentials.toList,
    bytesOfNat 32 8, e.amount.toList, padAmount,
    bytesOfNat 32 96, e.signature.toList,
    bytesOfNat 32 8, e.index.toList, padIndex]

/-- The data of a log encode the event.  Nothing is asked of the padding. -/
def Encodes (data : List Byte) : Prop :=
  ∃ padPubkey padAmount padIndex : List Byte, padPubkey.length = 16 ∧ padAmount.length = 24 ∧
    padIndex.length = 24 ∧ data = (e.pieces padPubkey padAmount padIndex).flatten

end DepositEvent

/-- A log that the deposit contract emitted under the topic of deposits. -/
def IsDeposit (r : LogRecord) : Prop :=
  r.address = depositContractAddr ∧ r.topics.head? = some depositEventTopic

instance (r : LogRecord) : Decidable (IsDeposit r) :=
  inferInstanceAs (Decidable (_ ∧ _))

/-- The deposits of a sequence of logs, one behind the other.  Logs of
other contracts or topics deposit nothing; a deposit log that encodes no
event leaves the sequence without deposits to compare with. -/
inductive Deposits : List LogRecord → List Byte → Prop
  | nil : Deposits [] []
  | foreign {r : LogRecord} {rs : List LogRecord} {d : List Byte} : ¬ IsDeposit r →
      Deposits rs d → Deposits (r :: rs) d
  | deposit {r : LogRecord} {rs : List LogRecord} {d : List Byte} {e : DepositEvent} :
      IsDeposit r → e.Encodes r.data → Deposits rs d → Deposits (r :: rs) (e.request ++ d)

/-- The requests are the deposits of the logs, concatenated in the order of
emission. -/
def DepositRequests (logs : List LogRecord) (requests : List Byte) : Prop :=
  ∃ events : List DepositEvent,
    List.Forall₂ (fun r e => e.Encodes r.data) (logs.filter fun r => decide (IsDeposit r)) events ∧
      requests = events.flatMap DepositEvent.request

theorem deposits_iff {logs : List LogRecord} {d : List Byte} :
    Deposits logs d ↔ DepositRequests logs d := by
  constructor
  · intro h
    induction h with
    | nil => exact ⟨[], .nil, rfl⟩
    | foreign hforeign _ ih =>
      obtain ⟨events, hevents, rfl⟩ := ih
      refine ⟨events, ?_, rfl⟩
      rwa [List.filter_cons_of_neg (by simpa using hforeign)]
    | @deposit r rs d e hdeposit hencodes _ ih =>
      obtain ⟨events, hevents, rfl⟩ := ih
      refine ⟨e :: events, ?_, rfl⟩
      rw [List.filter_cons_of_pos (by simpa using hdeposit)]
      exact .cons hencodes hevents
  · rintro ⟨events, hevents, rfl⟩
    induction logs generalizing events with
    | nil =>
      cases hevents
      exact .nil
    | cons r logs ih =>
      by_cases hdeposit : IsDeposit r
      · rw [List.filter_cons_of_pos (by simpa using hdeposit)] at hevents
        cases hevents with
        | cons hencodes hevents => exact .deposit hdeposit hencodes (ih _ hevents)
      · rw [List.filter_cons_of_neg (by simpa using hdeposit)] at hevents
        exact .foreign hdeposit (ih _ hevents)

/-- With a malformed deposit log there is nothing to compare with. -/
theorem DepositRequests.encodes {logs : List LogRecord} {d : List Byte}
    (h : DepositRequests logs d) {r : LogRecord} (hr : r ∈ logs) (hdeposit : IsDeposit r) :
    ∃ e : DepositEvent, e.Encodes r.data := by
  obtain ⟨events, hevents, _⟩ := h
  have hmem : r ∈ logs.filter fun r => decide (IsDeposit r) :=
    List.mem_filter.mpr ⟨hr, decide_eq_true hdeposit⟩
  obtain ⟨i, hi, rfl⟩ := List.mem_iff_getElem.mp hmem
  have hi' : i < events.length := hevents.length_eq ▸ hi
  exact ⟨events[i], hevents.get hi hi'⟩

/-! ## Pieces of fixed lengths -/

/-- A list begins with pieces exactly when cutting off their lengths yields
them. -/
theorem eq_flatten_append_iff {sz : List Nat} {l rest : List Byte} {pieces : List (List Byte)}
    (hsz : pieces.map List.length = sz) :
    l = pieces.flatten ++ rest ↔ sz.splitLengths l = pieces ∧ l.drop sz.sum = rest := by
  subst hsz
  induction pieces generalizing l with
  | nil => simp
  | cons p ps ih =>
    simp only [List.map_cons, List.splitLengths_cons, List.sum_cons, List.flatten_cons,
      List.append_assoc, List.cons.injEq, ← List.drop_drop]
    constructor
    · rintro rfl
      rw [List.take_left, List.drop_left]
      exact ⟨⟨rfl, (ih.mp rfl).1⟩, (ih.mp rfl).2⟩
    · rintro ⟨⟨hp, hps⟩, hrest⟩
      rw [← ih.mpr ⟨hps, hrest⟩]
      exact ((congrArg (· ++ _) hp).symm.trans (List.take_append_drop _ _)).symm

/-- A word of the data holds a number when its bytes are the number's. -/
theorem sliceLoad_eq_iff {data : List Byte} {offset n : Nat} (hlen : offset + 32 ≤ data.length)
    (hn : n < 2 ^ 256) :
    sliceLoad data offset = BitVec.ofNat 256 n ↔ (data.drop offset).take 32 = bytesOfNat 32 n := by
  have htake : ((data.drop offset).take 32).length = 32 := length_subSlice hlen
  have hpad : ((data.drop offset).take 32).rightpad 32 0 = (data.drop offset).take 32 := by
    rw [List.rightpad, htake, Nat.sub_self, List.replicate_zero, List.append_nil]
  have hlt := natOfBytes_lt ((data.drop offset).take 32)
  have hback := bytesOfNat_natOfBytes ((data.drop offset).take 32)
  rw [htake] at hlt hback
  rw [sliceLoad, hpad]
  constructor
  · intro h
    have hnat := congrArg BitVec.toNat h
    rw [BitVec.toNat_ofNat, BitVec.toNat_ofNat, Nat.mod_eq_of_lt (by simpa using hlt),
      Nat.mod_eq_of_lt hn] at hnat
    rw [← hback, hnat]
  · intro h
    rw [h, natOfBytes_bytesOfNat, Nat.mod_eq_of_lt (by simpa using hn)]

/-! ## One event -/

theorem forM_checkDepositWord_eq_ok {data : List Byte} {ws : List DepositWord} :
    ws.forM (checkDepositWord data) = .ok () ↔
      ∀ w ∈ ws, sliceLoad data w.offset = BitVec.ofNat 256 w.value := by
  induction ws with
  | nil => exact ⟨fun _ w hw => absurd hw List.not_mem_nil, fun _ => rfl⟩
  | cons w ws ih =>
    have hcons : (w :: ws).forM (checkDepositWord data) =
        checkDepositWord data w >>= fun _ => ws.forM (checkDepositWord data) := rfl
    rw [hcons, List.forall_mem_cons, ← ih, bind_eq_ok, checkDepositWord]
    constructor
    · rintro ⟨_, hw, hws⟩
      split at hw
      · cases hw
      · next hvalue => exact ⟨not_not.mp hvalue, hws⟩
    · rintro ⟨hvalue, hws⟩
      exact ⟨(), if_neg (not_not.mpr hvalue), hws⟩

theorem depositFieldMismatch_eq_false {data expected : List Byte} :
    depositEventFields.any (depositFieldMismatch data expected) = false ↔
      depositEventFields.map (fun f => subSlice data f.data f.length) =
        depositEventFields.map fun f => subSlice expected f.request f.length := by
  simp [depositEventFields, depositFieldMismatch]

theorem authenticateDepositRequest_checks {data expected rest : List Byte} :
    authenticateDepositRequest data expected = .ok rest ↔
      data.length = depositEventDataLength ∧
        (∀ w ∈ depositEventWords, sliceLoad data w.offset = BitVec.ofNat 256 w.value) ∧
        depositRequestLength ≤ expected.length ∧
        depositEventFields.map (fun f => subSlice data f.data f.length) =
          depositEventFields.map (fun f => subSlice expected f.request f.length) ∧
        sliceSuffix expected depositRequestLength = rest := by
  rw [authenticateDepositRequest]
  constructor
  · intro h
    split at h
    · next hlen =>
      obtain ⟨_, hwords, h⟩ := bind_eq_ok.mp h
      split at h
      · next hexpected =>
        split at h
        · cases h
        · next hfields =>
          exact ⟨hlen, forM_checkDepositWord_eq_ok.mp hwords, hexpected,
            depositFieldMismatch_eq_false.mp (Bool.eq_false_iff.mpr hfields), Except.ok.inj h⟩
      · cases h
    · cases h
  · rintro ⟨hlen, hwords, hexpected, hfields, rfl⟩
    rw [if_pos hlen, forM_checkDepositWord_eq_ok.mpr hwords, ok_bind, if_pos hexpected,
      depositFieldMismatch_eq_false.mpr hfields]
    rfl

/-- Whatever is wrong with an event, the requests are invalid. -/
theorem authenticateDepositRequest_ends (data expected : List Byte) :
    Ends (fun _ => True) (fun e => e = .fatal .invalidExecutionRequests)
      (authenticateDepositRequest data expected) := by
  have hwords : ∀ ws : List DepositWord, Ends (fun _ => True)
      (fun e => e = .fatal .invalidExecutionRequests) (ws.forM (checkDepositWord data)) := by
    intro ws
    induction ws with
    | nil => trivial
    | cons w ws ih =>
      refine Ends.bind (P := fun _ => True) ?_ fun _ _ => ih
      rw [checkDepositWord]
      exact .ite (fun _ => rfl) fun _ => trivial
  rw [authenticateDepositRequest]
  refine .ite (fun _ => ?_) fun _ => rfl
  refine (hwords depositEventWords).bind fun _ _ => ?_
  exact .ite (fun _ => .ite (fun _ => rfl) fun _ => trivial) fun _ => rfl

theorem depositEventWords_iff {data : List Byte} (hlen : data.length = depositEventDataLength) :
    (∀ w ∈ depositEventWords, sliceLoad data w.offset = BitVec.ofNat 256 w.value) ↔
      ∀ w ∈ depositEventWords, (data.drop w.offset).take 32 = bytesOfNat 32 w.value := by
  have hbounds : ∀ w ∈ depositEventWords,
      w.offset + 32 ≤ depositEventDataLength ∧ w.value < 2 ^ 256 := by
    simp [depositEventWords, depositEventDataLength]
  refine forall₂_congr fun w hw => ?_
  obtain ⟨hoffset, hvalue⟩ := hbounds w hw
  exact sliceLoad_eq_iff (hlen ▸ hoffset) hvalue

/-- The checks on the data are the ABI encoding, padding apart. -/
theorem DepositEvent.encodes_iff {e : DepositEvent} {data : List Byte} :
    e.Encodes data ↔ data.length = depositEventDataLength ∧
      (∀ w ∈ depositEventWords, sliceLoad data w.offset = BitVec.ofNat 256 w.value) ∧
      depositEventFields.map (fun f => subSlice data f.data f.length) = e.fields := by
  have hsplit : ∀ p₁ p₂ p₃ : List Byte, p₁.length = 16 → p₂.length = 24 → p₃.length = 24 →
      (data = (e.pieces p₁ p₂ p₃).flatten ↔
        [32, 32, 32, 32, 32, 32, 48, 16, 32, 32, 32, 8, 24, 32, 96, 32, 8, 24].splitLengths data =
          e.pieces p₁ p₂ p₃ ∧ data.drop 576 = []) := by
    intro p₁ p₂ p₃ h₁ h₂ h₃
    have hiff := @eq_flatten_append_iff
      [32, 32, 32, 32, 32, 32, 48, 16, 32, 32, 32, 8, 24, 32, 96, 32, 8, 24] data []
      (e.pieces p₁ p₂ p₃) (by simp [DepositEvent.pieces, h₁, h₂, h₃])
    rwa [List.append_nil] at hiff
  simp only [List.splitLengths_cons, List.splitLengths_nil, List.drop_drop, Nat.reduceAdd,
    DepositEvent.pieces, List.cons.injEq] at hsplit
  constructor
  · rintro ⟨p₁, p₂, p₃, h₁, h₂, h₃, hdata⟩
    have hlen : data.length = depositEventDataLength := by
      rw [hdata]
      simp [DepositEvent.pieces, h₁, h₂, h₃, depositEventDataLength]
    obtain ⟨⟨w₁, w₂, w₃, w₄, w₅, w₆, f₁, _, w₇, f₂, w₈, f₃, _, w₉, f₄, w₁₀, f₅, _, _⟩, _⟩ :=
      (hsplit p₁ p₂ p₃ h₁ h₂ h₃).mp hdata
    refine ⟨hlen, (depositEventWords_iff hlen).mpr ?_, ?_⟩
    · simp [depositEventWords, w₁, w₂, w₃, w₄, w₅, w₆, w₇, w₈, w₉, w₁₀]
    · simp [depositEventFields, DepositEvent.fields, subSlice, f₁, f₂, f₃, f₄, f₅]
  · rintro ⟨hlen, hwords, hfields⟩
    have hwords' := (depositEventWords_iff hlen).mp hwords
    simp only [depositEventWords, List.forall_mem_cons, List.not_mem_nil, false_imp_iff,
      implies_true, and_true, List.drop_zero] at hwords'
    simp only [depositEventFields, DepositEvent.fields, subSlice, List.map_cons, List.map_nil,
      List.cons.injEq, and_true] at hfields
    obtain ⟨w₁, w₂, w₃, w₄, w₅, w₆, w₇, w₈, w₉, w₁₀⟩ := hwords'
    obtain ⟨f₁, f₂, f₃, f₄, f₅⟩ := hfields
    rw [depositEventDataLength] at hlen
    refine ⟨subSlice data 240 16, subSlice data 360 24, subSlice data 552 24,
      length_subSlice (by omega), length_subSlice (by omega), length_subSlice (by omega), ?_⟩
    refine (hsplit _ _ _ (length_subSlice (by omega)) (length_subSlice (by omega))
      (length_subSlice (by omega))).mpr ⟨?_, List.drop_eq_nil_of_le hlen.le⟩
    exact ⟨w₁, w₂, w₃, w₄, w₅, w₆, f₁, rfl, w₇, f₂, w₈, f₃, rfl, w₉, f₄, w₁₀, f₅, rfl, trivial⟩

/-- The request bytes begin with the request of the event. -/
theorem DepositEvent.request_iff {e : DepositEvent} {expected rest : List Byte} :
    expected = e.request ++ rest ↔ depositRequestLength ≤ expected.length ∧
      depositEventFields.map (fun f => subSlice expected f.request f.length) = e.fields ∧
      sliceSuffix expected depositRequestLength = rest := by
  have hcut := @eq_flatten_append_iff [48, 32, 8, 96, 8] expected rest e.fields
    (by simp [DepositEvent.fields])
  simp only [List.splitLengths_cons, List.splitLengths_nil, List.drop_drop, Nat.reduceAdd] at hcut
  rw [DepositEvent.request, hcut]
  constructor
  · rintro ⟨hfields, hrest⟩
    refine ⟨?_, hfields, hrest⟩
    have hlen := congrArg (fun l => l.flatten.length) hfields
    simp [DepositEvent.fields] at hlen
    rw [depositRequestLength]
    omega
  · rintro ⟨_, hfields, hrest⟩
    exact ⟨hfields, hrest⟩

/-- Data of the right length always have five strings at their places. -/
theorem exists_depositEvent {data : List Byte} (hlen : data.length = depositEventDataLength) :
    ∃ e : DepositEvent,
      depositEventFields.map (fun f => subSlice data f.data f.length) = e.fields := by
  have hvector : ∀ offset n, offset + n ≤ depositEventDataLength →
      ∃ v : Vector Byte n, subSlice data offset n = v.toList := by
    intro offset n hn
    exact ⟨⟨(subSlice data offset n).toArray, by simpa using length_subSlice (hlen ▸ hn)⟩, rfl⟩
  obtain ⟨pubkey, h₁⟩ := hvector 192 48 (by decide)
  obtain ⟨withdrawalCredentials, h₂⟩ := hvector 288 32 (by decide)
  obtain ⟨amount, h₃⟩ := hvector 352 8 (by decide)
  obtain ⟨signature, h₄⟩ := hvector 416 96 (by decide)
  obtain ⟨index, h₅⟩ := hvector 544 8 (by decide)
  refine ⟨⟨pubkey, withdrawalCredentials, amount, signature, index⟩, ?_⟩
  simp only [depositEventFields, DepositEvent.fields, List.map_cons, List.map_nil, h₁, h₂, h₃, h₄,
    h₅]

/-- An event is authenticated when its request comes next. -/
theorem authenticateDepositRequest_eq_ok {data expected rest : List Byte} :
    authenticateDepositRequest data expected = .ok rest ↔
      ∃ e : DepositEvent, e.Encodes data ∧ expected = e.request ++ rest := by
  rw [authenticateDepositRequest_checks]
  constructor
  · rintro ⟨hlen, hwords, hexpected, hfields, hrest⟩
    obtain ⟨e, he⟩ := exists_depositEvent hlen
    exact ⟨e, DepositEvent.encodes_iff.mpr ⟨hlen, hwords, he⟩,
      DepositEvent.request_iff.mpr ⟨hexpected, hfields.symm.trans he, hrest⟩⟩
  · rintro ⟨e, hencodes, hrequest⟩
    obtain ⟨hlen, hwords, he⟩ := DepositEvent.encodes_iff.mp hencodes
    obtain ⟨hexpected, hfields, hrest⟩ := DepositEvent.request_iff.mp hrequest
    exact ⟨hlen, hwords, hexpected, he.trans hfields.symm, hrest⟩

/-! ## A sequence of logs -/

/-- What one log does to the request bytes. -/
def authenticateDepositLog (remaining : List Byte) (r : LogRecord) : Result (List Byte) :=
  if IsDeposit r then authenticateDepositRequest r.data remaining else .ok remaining

theorem authenticateDepositLog_ends (logs : List LogRecord) (expected : List Byte) :
    Ends (fun _ => True) (fun e => e = .fatal .invalidExecutionRequests)
      (logs.foldlM authenticateDepositLog expected) := by
  refine Ends.foldlM (fun remaining r _ _ => ?_) trivial
  exact .ite (fun _ => authenticateDepositRequest_ends r.data remaining) fun _ => trivial

/-- The logs strip their deposits off the request bytes. -/
theorem authenticateDepositLog_foldlM {logs : List LogRecord} {expected rest : List Byte} :
    logs.foldlM authenticateDepositLog expected = .ok rest ↔
      ∃ d, Deposits logs d ∧ expected = d ++ rest := by
  induction logs generalizing expected with
  | nil =>
    constructor
    · intro h
      cases h
      exact ⟨[], .nil, rfl⟩
    · rintro ⟨d, hd, rfl⟩
      cases hd
      rfl
  | cons r logs ih =>
    rw [List.foldlM_cons, bind_eq_ok, authenticateDepositLog]
    constructor
    · rintro ⟨remaining, hr, hlogs⟩
      obtain ⟨d, hd, rfl⟩ := ih.mp hlogs
      split at hr
      · next hdeposit =>
        obtain ⟨e, hencodes, rfl⟩ := authenticateDepositRequest_eq_ok.mp hr
        exact ⟨e.request ++ d, .deposit hdeposit hencodes hd, (List.append_assoc _ _ _).symm⟩
      · next hforeign =>
        cases hr
        exact ⟨d, .foreign hforeign hd, rfl⟩
    · rintro ⟨d, hd, rfl⟩
      cases hd with
      | foreign hforeign hd => exact ⟨_, if_neg hforeign, ih.mpr ⟨_, hd, rfl⟩⟩
      | @deposit _ _ d e hdeposit hencodes hd =>
        refine ⟨d ++ rest, ?_, ih.mpr ⟨d, hd, rfl⟩⟩
        rw [if_pos hdeposit, List.append_assoc]
        exact authenticateDepositRequest_eq_ok.mpr ⟨e, hencodes, rfl⟩

theorem depositLogMatches_iff {h : Host} {index : Nat} :
    depositLogMatches h index = true ↔ IsDeposit (logAt h index) := by
  have htopic : ∀ topics : List Word, topics.length ≠ 0 →
      (topics.head? = some depositEventTopic ↔ topics.getD 0 0 = depositEventTopic) := by
    intro topics hne
    cases topics with
    | nil => exact absurd rfl hne
    | cons t topics => simp
  rw [depositLogMatches, logAddress, logTopicsCount, logTopic, IsDeposit]
  split
  · next hforeign => simp [hforeign]
  · next haddress =>
    split
    · next hnone => simp [List.eq_nil_of_length_eq_zero hnone]
    · next hsome =>
      rw [beq_iff_eq, htopic _ hsome]
      exact ⟨fun h => ⟨not_not.mp haddress, h⟩, fun h => h.2⟩

/-- Reading the store position by position is reading the logs of the
series. -/
theorem authenticateDepositLogs_eq {h : Host} {series : LogSeriesRef} {logs : List LogRecord}
    (hseries : series.Holds h logs) (expected : List Byte) :
    authenticateDepositLogs h series expected = logs.foldlM authenticateDepositLog expected := by
  rw [authenticateDepositLogs, hseries.count_eq]
  refine foldlM_range logs (fun remaining i r hr => ?_) expected
  have hi := (List.getElem?_eq_some_iff.mp hr).1
  have hfits := hseries.fits
  rw [hseries.count_eq] at hfits
  have hadd : logStoreIndexAdd series.start i = .ok (series.start + i) :=
    if_pos (by omega)
  have hnext : logStoreIndexIncrement i = .ok (i + 1) := if_pos (by omega)
  rw [authenticateDepositLogAt, hadd, ok_bind, hnext, authenticateDepositLog]
  simp only [depositLogMatches_iff, readLogData, hseries.logAt_eq hr, ok_bind]
  exact bind_ok_right _

end EvmSail
