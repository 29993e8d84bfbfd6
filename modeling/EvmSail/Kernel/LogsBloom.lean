/-
# `EvmSail.Kernel.LogsBloom` — the logs bloom of a range of the store

A bloom is recomputed from the log store: `bloom_add_logs` walks a range
and sets three bits for the address and for every topic of each record.
Blooms form a semilattice under `logs_bloom_or`, and adding an entry is
joining its own three-bit bloom (`bloomAddEntryHash_eq`), so the bloom of a
range is the join of the blooms of its entries, and the blooms of adjacent
ranges join to that of both (`logsBloomOfRecords_append`).

What a block does to the store is a sequence of `LogEvent`s: what its
system calls and transactions emit, and the frames that they open, commit
and revert.  `LogEvent.apply` says what such a sequence leaves, without a
host; `Kernel.LogTrace` is a run of the kernel along it.
-/
import EvmSail.Kernel.Logs
import EvmSail.Rlp.Codecs

namespace EvmSail

open Fallible Kernel

/-! ## Joining blooms -/

/-- Combines two blooms, byte by byte. -/
def logsBloomOr (left right : LogsBloom) : LogsBloom :=
  Vector.ofFn fun k => left.get k ||| right.get k

theorem get_logsBloomOr (left right : LogsBloom) (k : Fin 256) :
    (logsBloomOr left right).get k = left.get k ||| right.get k := by
  rw [logsBloomOr, Vector.get_eq_getElem, Vector.getElem_ofFn]

theorem logsBloom_ext {left right : LogsBloom} (h : ∀ k, left.get k = right.get k) :
    left = right := by
  refine Vector.ext fun k hk => ?_
  exact h ⟨k, hk⟩

theorem get_emptyLogsBloom (k : Fin 256) : emptyLogsBloom.get k = 0 := by
  rw [emptyLogsBloom, Vector.get_eq_getElem, Vector.getElem_replicate]

theorem logsBloomOr_empty (bloom : LogsBloom) : logsBloomOr bloom emptyLogsBloom = bloom := by
  refine logsBloom_ext fun k => ?_
  rw [get_logsBloomOr, get_emptyLogsBloom]
  exact BitVec.or_zero

theorem empty_logsBloomOr (bloom : LogsBloom) : logsBloomOr emptyLogsBloom bloom = bloom := by
  refine logsBloom_ext fun k => ?_
  rw [get_logsBloomOr, get_emptyLogsBloom]
  exact BitVec.zero_or

theorem logsBloomOr_assoc (a b c : LogsBloom) :
    logsBloomOr (logsBloomOr a b) c = logsBloomOr a (logsBloomOr b c) := by
  refine logsBloom_ext fun k => ?_
  simp only [get_logsBloomOr]
  exact BitVec.or_assoc _ _ _

/-- The join of a list of blooms. -/
def logsBloomJoin (blooms : List LogsBloom) : LogsBloom := blooms.foldl logsBloomOr emptyLogsBloom

theorem foldl_logsBloomOr (blooms : List LogsBloom) (bloom : LogsBloom) :
    blooms.foldl logsBloomOr bloom = logsBloomOr bloom (logsBloomJoin blooms) := by
  induction blooms generalizing bloom with
  | nil => exact (logsBloomOr_empty bloom).symm
  | cons b blooms ih =>
    rw [logsBloomJoin, List.foldl_cons, List.foldl_cons, ih, ih (logsBloomOr emptyLogsBloom b),
      empty_logsBloomOr, logsBloomOr_assoc]

theorem logsBloomJoin_append (blooms more : List LogsBloom) :
    logsBloomJoin (blooms ++ more) = logsBloomOr (logsBloomJoin blooms) (logsBloomJoin more) := by
  rw [logsBloomJoin, List.foldl_append, foldl_logsBloomOr]
  rfl

theorem logsBloomJoin_flatten (blooms : List (List LogsBloom)) :
    logsBloomJoin blooms.flatten = logsBloomJoin (blooms.map logsBloomJoin) := by
  induction blooms with
  | nil => rfl
  | cons b blooms ih =>
    have hcons : logsBloomJoin (logsBloomJoin b :: blooms.map logsBloomJoin) =
        logsBloomOr (logsBloomJoin b) (logsBloomJoin (blooms.map logsBloomJoin)) := by
      rw [logsBloomJoin, List.foldl_cons, empty_logsBloomOr, foldl_logsBloomOr]
    rw [List.flatten_cons, logsBloomJoin_append, List.map_cons, hcons, ih]

/-! ## Entries -/

theorem bloomSetBit_eq (bloom : LogsBloom) (bit : Nat) :
    bloomSetBit bloom bit = logsBloomOr bloom (bloomSetBit emptyLogsBloom bit) := by
  refine logsBloom_ext fun k => ?_
  rw [get_logsBloomOr]
  simp only [bloomSetBit, Vector.get_eq_getElem, Vector.getElem_ofFn, emptyLogsBloom,
    Vector.getElem_replicate]
  split
  · exact congrArg _ BitVec.zero_or.symm
  · exact BitVec.or_zero.symm

/-- The three-bit bloom of one hashed entry. -/
def entryBloom (h : Hash) : LogsBloom := bloomAddEntryHash emptyLogsBloom h

/-- Adding an entry joins its own bloom. -/
theorem bloomAddEntryHash_eq (bloom : LogsBloom) (h : Hash) :
    bloomAddEntryHash bloom h = logsBloomOr bloom (entryBloom h) := by
  have hset : ∀ b : LogsBloom, bloomAddEntryHash b h =
      logsBloomOr b (logsBloomOr (bloomSetBit emptyLogsBloom (bloomIndex h 0))
        (logsBloomOr (bloomSetBit emptyLogsBloom (bloomIndex h 2))
          (bloomSetBit emptyLogsBloom (bloomIndex h 4)))) := by
    intro b
    rw [bloomAddEntryHash, bloomSetBit_eq, bloomSetBit_eq (bloomSetBit b _), bloomSetBit_eq b,
      logsBloomOr_assoc, logsBloomOr_assoc]
  rw [entryBloom, hset bloom, hset emptyLogsBloom, empty_logsBloomOr]

section

variable (keccak256 : List Byte → Hash)

/-- The three-bit blooms of a record: of its address and of every topic. -/
def recordBlooms (log : LogRecord) : List LogsBloom :=
  entryBloom (keccak256 (addressBytes log.address)) ::
    log.topics.map fun topic => entryBloom (keccak256 (bytesOfNat 32 topic.toNat))

/-- The join of the three-bit blooms of some records. -/
def logsBloomOfRecords (logs : List LogRecord) : LogsBloom :=
  logsBloomJoin (logs.flatMap (recordBlooms keccak256))

theorem bloomAddLogAt_eq (bloom : LogsBloom) (log : LogRecord) :
    bloomAddLogAt keccak256 bloom log = (recordBlooms keccak256 log).foldl logsBloomOr bloom := by
  rw [bloomAddLogAt, recordBlooms, List.foldl_cons, List.foldl_map, bloomAddEntryHash_eq]
  simp only [bloomAddEntryHash_eq]

theorem foldl_bloomAddLogAt (logs : List LogRecord) (bloom : LogsBloom) :
    logs.foldl (bloomAddLogAt keccak256) bloom =
      logsBloomOr bloom (logsBloomOfRecords keccak256 logs) := by
  have hstep : bloomAddLogAt keccak256 =
      fun bloom log => (recordBlooms keccak256 log).foldl logsBloomOr bloom :=
    funext fun bloom => funext fun log => bloomAddLogAt_eq keccak256 bloom log
  rw [logsBloomOfRecords, ← foldl_logsBloomOr, List.foldl_flatMap, hstep]

/-- A receipt's bloom joins the blooms of its entries. -/
theorem logsBloomForLogs_eq (logs : List LogRecord) :
    logsBloomForLogs keccak256 logs = logsBloomOfRecords keccak256 logs := by
  rw [logsBloomForLogs, foldl_bloomAddLogAt, empty_logsBloomOr]

theorem logsBloomOfRecords_flatten (logs : List (List LogRecord)) :
    logsBloomOfRecords keccak256 logs.flatten =
      logsBloomJoin (logs.map (logsBloomOfRecords keccak256)) := by
  have hflat : logs.flatten.flatMap (recordBlooms keccak256) =
      (logs.map fun l => l.flatMap (recordBlooms keccak256)).flatten := by
    rw [List.flatMap_def, List.map_flatten, List.flatten_flatten, List.map_map]
    rfl
  rw [logsBloomOfRecords, hflat, logsBloomJoin_flatten, List.map_map]
  rfl

end

/-! ## Comparing with the header -/

/-- Byte-wise equality. -/
def logsBloomEqual (a b : LogsBloom) : Bool :=
  (List.finRange 256).foldl (fun equal i => equal && a.get i == b.get i) true

def logsBloomMatchesRef (computed : LogsBloom) (reference : LogsBloomRef) : Bool :=
  logsBloomEqual computed (logsBloomFromRef reference)

theorem foldl_and {α : Type} (p : α → Bool) (l : List α) (b : Bool) :
    l.foldl (fun equal i => equal && p i) b = (b && l.all p) := by
  induction l generalizing b with
  | nil => exact (Bool.and_true b).symm
  | cons a l ih => rw [List.foldl_cons, ih, List.all_cons, Bool.and_assoc]

theorem logsBloomEqual_iff (a b : LogsBloom) : logsBloomEqual a b = true ↔ a = b := by
  rw [logsBloomEqual, foldl_and, Bool.true_and, List.all_eq_true]
  constructor
  · intro h
    exact logsBloom_ext fun k => beq_iff_eq.mp (h k (List.mem_finRange k))
  · rintro rfl k _
    exact beq_self_eq_true _

end EvmSail

namespace EvmSail.Kernel

open Fallible

/-! ## A range of the store -/

section

variable (keccak256 : List Byte → Hash) (h : Host)

/-- One round of the walk over the topics of a record. -/
def bloomAddTopicAt (index : Nat) (out : LogsBloom) (topic : Nat) : Result LogsBloom := do
  let out := bloomAddEntryHash out (keccak256 (bytesOfNat 32 (logTopic h index topic).toNat))
  let _ ← logStoreIndexIncrement topic
  .ok out

/-- Adds one retained record. -/
def bloomAddLogAt (bloom : LogsBloom) (index : Nat) : Result LogsBloom :=
  (List.range (logTopicsCount h index)).foldlM (bloomAddTopicAt keccak256 h index)
    (bloomAddEntryHash bloom (keccak256 (addressBytes (logAddress h index))))

/-- One round of the walk over a range. -/
def bloomAddLogsAt (logs : LogSeriesRef) (out : LogsBloom) (offset : Nat) : Result LogsBloom := do
  let index ← logStoreIndexAdd logs.start offset
  let out ← bloomAddLogAt keccak256 h out index
  let _ ← logStoreIndexIncrement offset
  .ok out

/-- Adds a consecutive range. -/
def bloomAddLogs (bloom : LogsBloom) (logs : LogSeriesRef) : Result LogsBloom :=
  (List.range logs.count).foldlM (bloomAddLogsAt keccak256 h logs) bloom

/-- Compares the bloom of a range with the commitment of the header. -/
def blockLogsBloomMatches (logs : LogSeriesRef) (reference : LogsBloomRef) : Result Bool := do
  let logsBloom ← bloomAddLogs keccak256 h emptyLogsBloom logs
  .ok (logsBloomMatchesRef logsBloom reference)

end

/-- The records of a range. -/
def LogSeriesRef.records (s : LogSeriesRef) (h : Host) : List LogRecord :=
  ((retainedLogs h).drop s.start).take s.count

/-- The range lies in the store, and every position of the store has an
index. -/
structure LogSeriesRef.InStore (s : LogSeriesRef) (h : Host) : Prop where
  within : s.start + s.count ≤ (retainedLogs h).length
  indexed : (retainedLogs h).length ≤ logStoreIndexBound

/-- The operands of a log: no opcode has more than four topics. -/
structure LogTopics where
  words : List Word
  bounded : words.length ≤ 4

/-- Every record has been emitted with its topics as operands. -/
def Bounded (logs : List LogRecord) : Prop := ∀ r ∈ logs, r.topics.length ≤ 4

theorem Bounded.append {logs more : List LogRecord} (h : Bounded logs) (hmore : Bounded more) :
    Bounded (logs ++ more) := by
  intro r hr
  rcases List.mem_append.mp hr with hr | hr
  · exact h r hr
  · exact hmore r hr

section

variable {keccak256 : List Byte → Hash} {h : Host}

theorem bloomAddLogAt_eq {index : Nat} {r : LogRecord} (hr : logAt h index = r)
    (hbounded : r.topics.length ≤ 4) (bloom : LogsBloom) :
    bloomAddLogAt keccak256 h bloom index = .ok (EvmSail.bloomAddLogAt keccak256 bloom r) := by
  have hround : ∀ out i topic, r.topics[i]? = some topic →
      bloomAddTopicAt keccak256 h index out i =
        (pure (bloomAddEntryHash out (keccak256 (bytesOfNat 32 topic.toNat))) : Result _) := by
    intro out i topic htopic
    have hi := (List.getElem?_eq_some_iff.mp htopic).1
    have hnext : logStoreIndexIncrement i = .ok (i + 1) := by
      refine if_pos ?_
      rw [logStoreIndexBound]
      omega
    rw [bloomAddTopicAt, hnext, logTopic, hr, List.getD_eq_getElem?_getD, htopic]
    rfl
  rw [bloomAddLogAt, logTopicsCount, hr, foldlM_range r.topics hround, List.foldlM_pure,
    logAddress, hr]
  rfl

/-- Walking a range of the store joins the blooms of its records. -/
theorem bloomAddLogs_eq {s : LogSeriesRef} (hs : s.InStore h) (hbounded : Bounded (retainedLogs h))
    (bloom : LogsBloom) :
    bloomAddLogs keccak256 h bloom s =
      .ok (logsBloomOr bloom (logsBloomOfRecords keccak256 (s.records h))) := by
  have hwithin := hs.within
  have hindexed := hs.indexed
  have hlength : (s.records h).length = s.count := by
    rw [LogSeriesRef.records, List.length_take, List.length_drop]
    omega
  have hround : ∀ out i r, (s.records h)[i]? = some r →
      bloomAddLogsAt keccak256 h s out i =
        (pure (EvmSail.bloomAddLogAt keccak256 out r) : Result _) := by
    intro out i r hr
    have hi := (List.getElem?_eq_some_iff.mp hr).1
    rw [hlength] at hi
    rw [LogSeriesRef.records, List.getElem?_take_of_lt hi, List.getElem?_drop] at hr
    have hat : logAt h (s.start + i) = r := by
      rw [logAt, List.getD_eq_getElem?_getD, hr]
      rfl
    have hadd : logStoreIndexAdd s.start i = .ok (s.start + i) := if_pos (by omega)
    have hnext : logStoreIndexIncrement i = .ok (i + 1) := if_pos (by omega)
    rw [bloomAddLogsAt, hadd, ok_bind, hnext,
      bloomAddLogAt_eq hat (hbounded r (List.mem_of_getElem? hr))]
    rfl
  rw [bloomAddLogs, ← hlength, foldlM_range (s.records h) hround, List.foldlM_pure,
    foldl_bloomAddLogAt]
  rfl

end

/-! ## Traces -/

/-- What can happen to the records, as both hosts see it. -/
inductive LogEvent where
  | log (address : Address) (topics : LogTopics) (data : List Byte)
  | quiet
  | checkpoint
  | commit
  | revert

/-- What an event does to what the live frames have emitted, the innermost
frame first. -/
def LogEvent.apply : LogEvent → List (List LogRecord) → Option (List (List LogRecord))
  | .log address topics data, frame :: parents =>
    some ((frame ++ [⟨address, topics.words, data⟩]) :: parents)
  | .quiet, emitted => some emitted
  | .checkpoint, emitted => some ([] :: emitted)
  | .commit, child :: parent :: parents => some ((parent ++ child) :: parents)
  | .revert, _ :: parent :: parents => some (parent :: parents)
  | _, _ => none

theorem LogEvent.apply_bounded {e : LogEvent} {emitted emitted' : List (List LogRecord)}
    (h : e.apply emitted = some emitted') (hbounded : ∀ l ∈ emitted, Bounded l) :
    ∀ l ∈ emitted', Bounded l := by
  unfold LogEvent.apply at h
  split at h
  · cases h
    rename_i address topics data frame parents
    intro l hl
    rcases List.mem_cons.mp hl with rfl | hl
    · refine (hbounded frame (List.mem_cons_self ..)).append fun r hr => ?_
      rw [List.mem_singleton.mp hr]
      exact topics.bounded
    · exact hbounded l (List.mem_cons_of_mem _ hl)
  · cases h
    exact hbounded
  · cases h
    intro l hl
    rcases List.mem_cons.mp hl with rfl | hl
    · intro r hr
      cases hr
    · exact hbounded l hl
  · cases h
    rename_i child parent parents
    intro l hl
    rcases List.mem_cons.mp hl with rfl | hl
    · exact (hbounded parent (by simp)).append (hbounded child (by simp))
    · exact hbounded l (by simp [hl])
  · cases h
    rename_i child parent parents
    intro l hl
    exact hbounded l (List.mem_cons_of_mem _ hl)
  · cases h

section

variable (env : Env)

/-- A run of the kernel along a sequence of events. -/
inductive LogTrace : List LogEvent → LogFrames → LogFrames → Prop
  | nil (t : LogFrames) : LogTrace [] t t
  | cons {e : LogEvent} {es : List LogEvent} {t t₁ t' : LogFrames} : LogStep env t t₁ →
      e.apply t.emitted = some t₁.emitted → LogTrace es t₁ t' → LogTrace (e :: es) t t'

variable {env}

theorem LogTrace.run {es : List LogEvent} {t t' : LogFrames} (h : LogTrace env es t t') :
    LogRun env t t' := by
  induction h with
  | nil t => exact .refl
  | cons hstep _ _ ih => exact .head hstep ih

/-- The frames that a run ends with are told by its events alone. -/
theorem LogTrace.emitted {es : List LogEvent} {t t' : LogFrames} (h : LogTrace env es t t') :
    es.foldlM (fun emitted e => e.apply emitted) t.emitted = some t'.emitted := by
  induction h with
  | nil t => rfl
  | cons _ happly _ ih =>
    rw [List.foldlM_cons, happly]
    exact ih

theorem LogTrace.bounded {es : List LogEvent} {t t' : LogFrames} (h : LogTrace env es t t')
    (hbounded : ∀ l ∈ t.emitted, Bounded l) : ∀ l ∈ t'.emitted, Bounded l := by
  induction h with
  | nil t => exact hbounded
  | cons _ happly _ ih => exact ih (LogEvent.apply_bounded happly hbounded)

/-- The records that a closed sequence of events leaves. -/
def survivors (es : List LogEvent) : List LogRecord :=
  match es.foldlM (fun emitted e => e.apply emitted) [[]] with
  | some [logs] => logs
  | _ => []

theorem LogTrace.survivors_eq {es : List LogEvent} {logs : List LogRecord} {h h' : Host}
    (ht : LogTrace env es ⟨[[]], h⟩ ⟨[logs], h'⟩) : survivors es = logs := by
  rw [survivors, ht.emitted]

/-- A frame that is reverted might as well not have been opened. -/
theorem survivors_revert {before inner after : List LogEvent} {frame parent : List LogRecord}
    {parents : List (List LogRecord)}
    (hbefore : before.foldlM (fun emitted e => e.apply emitted) [[]] = some (parent :: parents))
    (hinner : inner.foldlM (fun emitted e => e.apply emitted) ([] :: parent :: parents) =
      some (frame :: parent :: parents)) :
    survivors (before ++ (.checkpoint :: (inner ++ .revert :: after))) =
      survivors (before ++ after) := by
  have hframe : (LogEvent.checkpoint :: (inner ++ .revert :: after)).foldlM
      (fun emitted e => LogEvent.apply e emitted) (parent :: parents) =
      after.foldlM (fun emitted e => LogEvent.apply e emitted) (parent :: parents) := by
    rw [List.foldlM_cons, LogEvent.apply, Option.bind_eq_bind, Option.bind_some,
      List.foldlM_append, hinner, Option.bind_eq_bind, Option.bind_some, List.foldlM_cons]
    rfl
  rw [survivors, survivors, List.foldlM_append, List.foldlM_append, hbefore, Option.bind_eq_bind,
    Option.bind_some, Option.bind_some, hframe]

end

end EvmSail.Kernel
