/-
# `EvmSail.Optimised.LogTable` — the log table along a block

The optimised host keeps its records in one table whose topics and data
stand in two arenas; a record names its share of each by an offset and a
length.  `LogTable.Holds` says which records the table stands for.

No operation but a log touches the table, so along a sequence of the
`LogEvent`s that the kernel sees as well, the table of every reachable host
holds what the frames have emitted (`LogTrace.logged`): a log is one record
more, and what a revert restores is the table of the frame's checkpoint.
-/
import EvmSail.Optimised.Lifecycle
import EvmSail.Kernel.LogsBloom

namespace EvmSail.Optimised

open Fallible Journal

open Kernel (LogEvent survivors)

/-! ## What the table holds -/

/-- The record that an entry of the table stands for. -/
def LogTable.recordAt (t : LogTable) (r : LogRecord) : Kernel.LogRecord where
  address := r.address
  topics := (t.topics.drop r.topicOffset).take r.topicCount
  data := (t.data.drop r.dataOffset).take r.dataLength

/-- The table holds these records, the last transaction's from `start` on. -/
structure LogTable.Holds (t : LogTable) (start : Nat) (logs : List Kernel.LogRecord) : Prop where
  topics_le : ∀ r ∈ t.records, r.topicOffset + r.topicCount ≤ t.topics.length
  data_le : ∀ r ∈ t.records, r.dataOffset + r.dataLength ≤ t.data.length
  records : t.records.map t.recordAt = logs
  start : t.transactionStart = start

theorem LogTable.Holds.length {t : LogTable} {start : Nat} {logs : List Kernel.LogRecord}
    (ht : t.Holds start logs) : t.records.length = logs.length := by
  rw [← ht.records, List.length_map]

/-- `l'` is `l` with one more record, of these topics and data. -/
structure LogTable.Appended (l l' : LogTable) (address : Address) (topics : List Word)
    (data : List Byte) : Prop where
  records : l'.records = l.records ++
    [⟨address, l.topics.length, topics.length, l.data.length, data.length⟩]
  topics : l'.topics = l.topics ++ topics
  data : l'.data = l.data ++ data
  start : l'.transactionStart = l.transactionStart

theorem LogTable.Holds.append {l l' : LogTable} {start : Nat} {logs : List Kernel.LogRecord}
    {address : Address} {topics : List Word} {data : List Byte} (hl : l.Holds start logs)
    (happ : l.Appended l' address topics data) :
    l'.Holds start (logs ++ [⟨address, topics, data⟩]) := by
  obtain ⟨hrecords, htopics, hdata, hstart⟩ := happ
  have hold : ∀ r ∈ l.records, l'.recordAt r = l.recordAt r := by
    intro r hr
    have ht := hl.topics_le r hr
    have hd := hl.data_le r hr
    rw [recordAt, recordAt, htopics, hdata, List.drop_append_of_le_length (by omega),
      List.drop_append_of_le_length (by omega),
      List.take_append_of_le_length (by rw [List.length_drop]; omega),
      List.take_append_of_le_length (by rw [List.length_drop]; omega)]
  refine ⟨?_, ?_, ?_, hstart.trans hl.start⟩
  · intro r hr
    rw [hrecords, List.mem_append, List.mem_singleton] at hr
    rw [htopics, List.length_append]
    rcases hr with hr | rfl
    · exact Nat.le_add_right_of_le (hl.topics_le r hr)
    · exact Nat.le_refl _
  · intro r hr
    rw [hrecords, List.mem_append, List.mem_singleton] at hr
    rw [hdata, List.length_append]
    rcases hr with hr | rfl
    · exact Nat.le_add_right_of_le (hl.data_le r hr)
    · exact Nat.le_refl _
  · rw [hrecords, List.map_append, List.map_congr_left hold, hl.records, List.map_singleton,
      recordAt, htopics, hdata, List.drop_left, List.drop_left, List.take_length, List.take_length]

section

variable (capacity : Nat)

theorem logBegin_appended (h : Host) (address : Address) :
    Ends (fun h' => h.state.logs.Appended h'.state.logs address [] []) (fun _ => True)
      (logBegin capacity h address) := by
  refine Ends.ite (fun _ => trivial) fun _ => ?_
  refine Ends.bind (push_ends capacity h _) fun h₁ hh₁ => ?_
  subst hh₁
  exact ⟨rfl, (List.append_nil _).symm, (List.append_nil _).symm, rfl⟩

theorem logAddTopic_appended {l : LogTable} {h : Host} {address : Address} {topics : List Word}
    {data : List Byte} (happ : l.Appended h.state.logs address topics data) (topic : Word) :
    Ends (fun h' => l.Appended h'.state.logs address (topics ++ [topic]) data) (fun _ => True)
      (logAddTopic h topic) := by
  obtain ⟨hrecords, htopics, hdata, hstart⟩ := happ
  refine Ends.ite (fun _ => trivial) fun _ => ⟨?_, ?_, hdata, hstart⟩
  · simp [modify, modifyLast, hrecords]
  · simp [modify, htopics]

theorem foldlM_logAddTopic_appended {l : LogTable} {h : Host} {address : Address}
    {topics : List Word} {data : List Byte} (more : List Word)
    (happ : l.Appended h.state.logs address topics data) :
    Ends (fun h' => l.Appended h'.state.logs address (topics ++ more) data) (fun _ => True)
      (more.foldlM logAddTopic h) := by
  induction more generalizing h topics with
  | nil => exact (List.append_nil topics).symm ▸ happ
  | cons topic more ih =>
    rw [List.foldlM_cons]
    refine Ends.bind (logAddTopic_appended happ topic) fun h' happ' => ?_
    exact List.append_cons topics topic more ▸ ih happ'

/-- A log is one record more. -/
theorem appendLog_appended (h : Host) (address : Address) (topics : List Word)
    (bytes : List Byte) :
    Ends (fun h' => h.state.logs.Appended h'.state.logs address topics bytes) (fun _ => True)
      (appendLog capacity h address topics bytes) := by
  refine Ends.bind (logBegin_appended capacity h address) fun h₁ happ₁ => ?_
  refine Ends.bind (foldlM_logAddTopic_appended topics happ₁) fun h₂ happ₂ => ?_
  obtain ⟨hrecords, htopics, hdata, hstart⟩ := happ₂
  refine Ends.ite (fun _ => trivial) fun _ => ⟨?_, htopics, ?_, hstart⟩
  · simp [modify, modifyLast, hrecords]
  · simp [modify, hdata]

end

/-! ## What leaves the table alone -/

/-- An operation that leaves the log table as it is. -/
abbrev SameLogs (h : Host) (x : Result Host) : Prop :=
  Ends (fun h' => h'.state.logs = h.state.logs) (fun _ => True) x

theorem SameLogs.bind {h : Host} {x : Result Host} {f : Host → Result Host} (hx : SameLogs h x)
    (hf : ∀ h', SameLogs h' (f h')) : SameLogs h (x >>= f) :=
  Ends.bind hx fun h' hh' => (hf h').mono fun _ hh'' => hh''.trans hh'

section

variable (capacity : Nat) (h : Host)

theorem push_sameLogs (r : Record JournalEntry) : SameLogs h (push capacity h r) :=
  (push_ends capacity h r).mono fun h' hh' => by
    rw [hh']
    rfl

/-- A record is pushed, and then something else than the table changes. -/
theorem push_modify_sameLogs (r : Record JournalEntry) (f : Host → State → State)
    (hf : ∀ h' s, (f h' s).logs = s.logs) :
    SameLogs h (push capacity h r >>= fun h' => .ok (modify h' (f h'))) :=
  SameLogs.bind (push_sameLogs capacity h r) fun h' => hf h' h'.state

theorem accountMarkWarm_sameLogs (address : Address) :
    SameLogs h (accountMarkWarm capacity h address) := by
  unfold accountMarkWarm
  split
  · rfl
  · exact Ends.ite (fun _ => push_modify_sameLogs capacity h _ _ fun _ _ => rfl) fun _ => rfl

theorem storageIdMarkWarm_sameLogs (storageId : Option StorageId) :
    SameLogs h (storageIdMarkWarm capacity h storageId) := by
  unfold storageIdMarkWarm
  split
  · rfl
  · exact Ends.ite (fun _ => push_modify_sameLogs capacity h _ _ fun _ _ => rfl) fun _ => rfl

theorem storageMarkWarm_sameLogs (address : Address) (slot : Word) :
    SameLogs h (storageMarkWarm capacity h address slot) := by
  unfold storageMarkWarm
  split
  · rfl
  · refine Ends.bind (Ends.of_forall_ok (P := fun _ => True) fun _ _ => trivial)
      fun storageId _ => ?_
    exact storageIdMarkWarm_sameLogs capacity h storageId

theorem accountTransactionTouch_sameLogs (id : AccountId) :
    SameLogs h (accountTransactionTouch capacity h id) :=
  Ends.ite (fun _ => rfl) fun _ => push_modify_sameLogs capacity h _ _ fun _ _ => rfl

theorem writeField_sameLogs (id : AccountId) (next : AccountField) :
    SameLogs h (writeField capacity h id next) :=
  Ends.ite (fun _ => rfl) fun _ => push_modify_sameLogs capacity h _ _ fun _ _ => rfl

theorem accountClearStorageGeneration_sameLogs (id : AccountId) :
    SameLogs h (accountClearStorageGeneration capacity h id) := by
  refine SameLogs.bind (accountTransactionTouch_sameLogs capacity h id) fun h₁ => ?_
  refine SameLogs.bind (push_sameLogs capacity h₁ _) fun h₂ => ?_
  exact Ends.ite (fun _ => trivial) fun _ => rfl

theorem hostAccountUpdate_sameLogs (address : Address) (u : AccountUpdate) :
    SameLogs h (hostAccountUpdate capacity h address u) := by
  refine Ends.bind (getAccountId_ends h address) fun id _ => ?_
  refine SameLogs.bind (accountTransactionTouch_sameLogs capacity h id) fun h₁ => ?_
  refine SameLogs.bind (writeField_sameLogs capacity h₁ id _) fun h₂ => ?_
  refine SameLogs.bind (writeField_sameLogs capacity h₂ id _) fun h₃ => ?_
  refine SameLogs.bind (writeField_sameLogs capacity h₃ id _) fun h₄ => ?_
  refine SameLogs.bind (writeField_sameLogs capacity h₄ id _) fun h₅ => ?_
  refine SameLogs.bind (writeField_sameLogs capacity h₅ id _) fun h₆ => ?_
  refine SameLogs.bind (writeField_sameLogs capacity h₆ id _) fun h₇ => ?_
  exact Ends.ite (fun _ => accountClearStorageGeneration_sameLogs capacity h₇ id) fun _ => rfl

theorem acctTxSetField_sameLogs (address : Address) (next : AccountField) :
    SameLogs h (acctTxSetField capacity h address next) := by
  refine Ends.bind (getAccountId_ends h address) fun id _ => ?_
  refine SameLogs.bind (accountTransactionTouch_sameLogs capacity h id) fun h₁ => ?_
  exact writeField_sameLogs capacity h₁ id next

theorem storageTxClear_sameLogs (address : Address) :
    SameLogs h (storageTxClear capacity h address) :=
  Ends.bind (getAccountId_ends h address) fun id _ =>
    accountClearStorageGeneration_sameLogs capacity h id

theorem storageTransactionBind_sameLogs (id : AccountId) (storageId : StorageId) (orig : Word) :
    SameLogs h (storageTransactionBind capacity h id storageId orig) := by
  refine Ends.ite (fun _ => ?_) fun _ => rfl
  exact push_modify_sameLogs capacity _ _ _ fun _ _ => rfl

theorem storageUpdateById_sameLogs (id : AccountId) (generation : StorageGeneration)
    (storageId : Option StorageId) (v orig : Word) :
    SameLogs h (storageUpdateById capacity h id generation storageId v orig) := by
  refine SameLogs.bind (accountTransactionTouch_sameLogs capacity h id) fun h₁ => ?_
  split
  · trivial
  · refine SameLogs.bind (storageTransactionBind_sameLogs capacity h₁ id _ orig) fun h₂ => ?_
    refine SameLogs.bind ?_ fun h₃ => ?_
    · exact Ends.ite (fun _ => push_modify_sameLogs capacity h₂ _ _ fun _ _ => rfl) fun _ => rfl
    · exact Ends.ite (fun _ => push_modify_sameLogs capacity h₃ _ _ fun _ _ => rfl) fun _ => rfl

theorem storageUpdate_sameLogs (address : Address) (generation : StorageGeneration)
    (slot v orig : Word) :
    SameLogs h (storageUpdate capacity h address generation slot v orig) := by
  refine Ends.bind (getAccountId_ends h address) fun id _ => ?_
  refine Ends.bind (Ends.of_forall_ok (P := fun _ => True) fun _ _ => trivial) fun storageId _ => ?_
  exact storageUpdateById_sameLogs capacity h id generation storageId v orig

theorem transientStorageWrite_sameLogs (address : Address) (slot v : Word) :
    SameLogs h (transientStorageWrite capacity h address slot v) := by
  refine Ends.bind (getAccountId_ends h address) fun id _ => ?_
  refine SameLogs.bind (push_sameLogs capacity h _) fun h₁ => ?_
  refine Ends.bind (Ends.of_forall_ok (P := fun _ => True) fun _ _ => trivial) fun transient _ => ?_
  exact rfl

/-- Whether an operation is a log. -/
def HostOp.isLog : HostOp → Bool
  | .log _ _ _ => true
  | _ => false

theorem HostOp.step_sameLogs (o : HostOp) (hlog : o.isLog = false) :
    SameLogs h (o.step capacity h) := by
  cases o with
  | accountUpdate address u => exact hostAccountUpdate_sameLogs capacity h address u
  | setBalance address balance => exact acctTxSetField_sameLogs capacity h address _
  | setNonce address nonce => exact acctTxSetField_sameLogs capacity h address _
  | setCodeHash address codeHash => exact acctTxSetField_sameLogs capacity h address _
  | storageClear address => exact storageTxClear_sameLogs capacity h address
  | storageUpdate address generation slot v orig =>
    exact storageUpdate_sameLogs capacity h address generation slot v orig
  | transientWrite address slot v => exact transientStorageWrite_sameLogs capacity h address slot v
  | accountMarkWarm address => exact accountMarkWarm_sameLogs capacity h address
  | storageMarkWarm address slot => exact storageMarkWarm_sameLogs capacity h address slot
  | storageIdMarkWarm storageId => exact storageIdMarkWarm_sameLogs capacity h storageId
  | log address topics bytes => cases hlog

end

/-! ### Loading, merging and resetting -/

theorem balPreloadSlots_logs (id : AccountId) (previous : Option Word)
    (slots : List (Word × Word)) (s : State) :
    Ends (fun s' => s'.logs = s.logs) (fun _ => True) (balPreloadSlots id previous slots s) := by
  induction slots generalizing previous s with
  | nil => rfl
  | cons slot slots ih =>
    exact Ends.ite (fun _ => trivial) fun _ => ih (some slot.1) (storagePreload s id slot.1 slot.2)

theorem accountBlockInitialize_logs (s : State) (id : AccountId)
    (prestate : Option (Nat × Word × Hash)) :
    (accountBlockInitialize s id prestate).logs = s.logs := by
  unfold accountBlockInitialize
  split <;> rfl

theorem loadAccount_logs (s : State) (account : BalAccount) :
    Ends (fun s' => s'.logs = s.logs) (fun _ => True) (loadAccount s account) := by
  have hinsert : Ends (fun s' => s'.logs = s.logs) (fun _ => True)
      (accountSchemaInsert s account.address) := Ends.ite (fun _ => trivial) fun _ => rfl
  refine Ends.bind hinsert fun s₁ hs₁ => ?_
  refine Ends.bind (balPreloadSlots_logs _ none _ _) fun s₂ hs₂ => ?_
  refine Ends.bind (balPreloadSlots_logs _ none _ _) fun s₃ hs₃ => ?_
  exact hs₃.trans (hs₂.trans ((accountBlockInitialize_logs s₁ _ _).trans hs₁))

/-- A block begins with an empty table. -/
theorem initializeBlockAccessListState_logs (limits : Limits) (accounts : List BalAccount) :
    Ends (fun s => s.logs.Holds 0 []) (fun _ => True)
      (initializeBlockAccessListState limits accounts) := by
  have hloaded : Ends (fun s => s.logs = (initialState limits).logs) (fun _ => True)
      (initializeBlockAccessListState limits accounts) := by
    refine Ends.foldlM (fun s account _ hs => ?_) rfl
    exact (loadAccount_logs s account).mono fun s' hs' => hs'.trans hs
  refine hloaded.mono fun s hs => ?_
  rw [hs]
  exact ⟨fun r hr => (nomatch hr), fun r hr => (nomatch hr), rfl, rfl⟩

theorem txReset_state_logs (s : State) : (acctTxReset (storageTxReset s)).logs = s.logs := by
  rw [storageTxReset_eq, foldl_storageTransactionForget, acctTxReset, foldl_forgetTransaction]

theorem txMerge_logs (semantics : TransactionMergeSemantics) (epoch : Nat) (s : State) :
    Ends (fun merged => merged.1.logs = s.logs) (fun _ => True) (txMerge semantics epoch s) := by
  have hdelete : ∀ (s : State) id,
      Ends (fun s' => s'.logs = s.logs) (fun _ => True) (deleteAccount semantics s id) :=
    fun s id => Ends.ite (fun _ => Ends.ite (fun _ => trivial) fun _ => rfl) fun _ => rfl
  have hmerge : Ends (fun merged => merged.1.logs = s.logs) (fun _ => True)
      (accountTransactionMerge semantics epoch s) := by
    refine Ends.foldlM (fun merged id _ hmerged => ?_) rfl
    refine Ends.bind (hdelete merged.1 id) fun s' hs' => ?_
    exact hs'.trans hmerged
  refine Ends.bind hmerge fun merged hmerged => ?_
  exact (txReset_state_logs merged.1).trans hmerged

/-- A transaction begins behind what is in the table. -/
theorem txReset_logs (epoch : Nat) {h : Host} {start : Nat} {logs : List Kernel.LogRecord}
    (hlogs : h.state.logs.Holds start logs) :
    (txReset epoch h).state.logs.Holds logs.length logs := by
  have hsame := txReset_state_logs h.state
  have htable : (txReset epoch h).state.logs =
      { h.state.logs with transactionStart := h.state.logs.records.length } := by
    simp only [txReset, stateJournalReset, logsTxReset, transientStorageReset, warmReset, hsame]
  rw [htable]
  exact ⟨hlogs.topics_le, hlogs.data_le, hlogs.records, hlogs.length⟩

/-! ## Traces -/

/-- A host with the checkpoints of its open frames. -/
structure Frames where
  checkpoints : List Host
  host : Host

section

variable (capacity : Nat)

/-- What the host does on an event. -/
inductive LogStep : LogEvent → Frames → Frames → Prop
  | log {frames : List Host} {h h' : Host} {address : Address} {topics : Kernel.LogTopics}
      {data : List Byte} : appendLog capacity h address topics.words data = .ok h' →
      LogStep (.log address topics data) ⟨frames, h⟩ ⟨frames, h'⟩
  | op {frames : List Host} {h h' : Host} (o : HostOp) : o.isLog = false →
      o.step capacity h = .ok h' → LogStep .quiet ⟨frames, h⟩ ⟨frames, h'⟩
  | checkpoint {frames : List Host} {h h' : Host} : stateJournalCheckpoint capacity h = .ok h' →
      LogStep .checkpoint ⟨frames, h⟩ ⟨h :: frames, h'⟩
  | commit {frames : List Host} {f h h' : Host} : stateJournalCommit capacity h = .ok h' →
      LogStep .commit ⟨f :: frames, h⟩ ⟨frames, h'⟩
  | revert {frames : List Host} {f h h' : Host} : stateJournalRevert h = .ok h' →
      LogStep .revert ⟨f :: frames, h⟩ ⟨frames, h'⟩
  | merge {h : Host} {s : State} {changes : List BalChange}
      (semantics : TransactionMergeSemantics) (epoch : Nat) :
      txMerge semantics epoch h.state = .ok (s, changes) →
      LogStep .quiet ⟨[], h⟩ ⟨[], { h with state := s }⟩

/-- A run of the host along a sequence of events. -/
inductive LogTrace : List LogEvent → Frames → Frames → Prop
  | nil (t : Frames) : LogTrace [] t t
  | cons {e : LogEvent} {es : List LogEvent} {t t₁ t' : Frames} : LogStep capacity e t t₁ →
      LogTrace es t₁ t' → LogTrace (e :: es) t t'

variable {capacity}

theorem LogStep.reachable {e : LogEvent} {t t' : Frames} (hstep : LogStep capacity e t t')
    (hr : Reachable capacity t.checkpoints t.host) : Reachable capacity t'.checkpoints t'.host := by
  cases hstep with
  | @log frames h h' address topics data happend =>
    exact .op (.log address topics.words data) hr happend
  | op o _ ho => exact .op o hr ho
  | checkpoint hcheckpoint => exact .checkpoint hr hcheckpoint
  | commit hcommit => exact .commit hr hcommit
  | revert hrevert => exact .revert hr hrevert
  | merge semantics epoch hmerge => exact .merge semantics epoch hr hmerge

theorem LogTrace.reachable {es : List LogEvent} {t t' : Frames} (ht : LogTrace capacity es t t')
    (hr : Reachable capacity t.checkpoints t.host) : Reachable capacity t'.checkpoints t'.host := by
  induction ht with
  | nil t => exact hr
  | cons hstep _ ih => exact ih (hstep.reachable hr)

/-- The table holds what the frames have emitted, behind `base`. -/
inductive Logged (base : List Kernel.LogRecord) (start : Nat) :
    List (List Kernel.LogRecord) → List Host → Host → Prop
  | transaction {frame : List Kernel.LogRecord} {h : Host} :
      h.state.logs.Holds start (base ++ frame) → Logged base start [frame] [] h
  | frame {frame under : List Kernel.LogRecord} {parents : List (List Kernel.LogRecord)}
      {frames : List Host} {f h : Host} : Logged base start parents frames f →
      f.state.logs.Holds start under → h.state.logs.Holds start (under ++ frame) →
      Logged base start (frame :: parents) (f :: frames) h

variable {base : List Kernel.LogRecord} {start : Nat}

theorem Logged.congr {emitted : List (List Kernel.LogRecord)} {frames : List Host} {h h' : Host}
    (hl : Logged base start emitted frames h) (hlogs : h'.state.logs = h.state.logs) :
    Logged base start emitted frames h' := by
  cases hl with
  | transaction hholds => exact .transaction (hlogs.symm ▸ hholds)
  | frame hparents hunder hholds => exact .frame hparents hunder (hlogs.symm ▸ hholds)

theorem Logged.append {frame : List Kernel.LogRecord} {parents : List (List Kernel.LogRecord)}
    {frames : List Host} {h h' : Host} {address : Address} {topics : List Word} {data : List Byte}
    (hl : Logged base start (frame :: parents) frames h)
    (happ : h.state.logs.Appended h'.state.logs address topics data) :
    Logged base start ((frame ++ [⟨address, topics, data⟩]) :: parents) frames h' := by
  cases hl with
  | transaction hholds =>
    refine .transaction ?_
    rw [← List.append_assoc]
    exact hholds.append happ
  | frame hparents hunder hholds =>
    refine .frame hparents hunder ?_
    rw [← List.append_assoc]
    exact hholds.append happ

/-- What the innermost live frame leaves in the table. -/
theorem Logged.holds {emitted : List (List Kernel.LogRecord)} {frames : List Host} {h : Host}
    (hl : Logged base start emitted frames h) : ∃ logs, h.state.logs.Holds start logs := by
  cases hl with
  | transaction hholds => exact ⟨_, hholds⟩
  | frame _ _ hholds => exact ⟨_, hholds⟩

/-- The parent of a frame takes over its records. -/
theorem Logged.merge {child : List Kernel.LogRecord} {parents : List (List Kernel.LogRecord)}
    {frames : List Host} {f h : Host} (hl : Logged base start (child :: parents) (f :: frames) h) :
    ∃ parent rest, parents = parent :: rest ∧
      Logged base start ((parent ++ child) :: rest) frames h := by
  cases hl with
  | frame hparents hunder hholds =>
    cases hparents with
    | transaction hbase =>
      refine ⟨_, _, rfl, .transaction ?_⟩
      rw [← List.append_assoc, ← hbase.records, hunder.records]
      exact hholds
    | frame hgrand hunder' hbase =>
      refine ⟨_, _, rfl, .frame hgrand hunder' ?_⟩
      rw [← List.append_assoc, ← hbase.records, hunder.records]
      exact hholds

theorem LogStep.logged {e : LogEvent} {t t' : Frames} {emitted : List (List Kernel.LogRecord)}
    (hstep : LogStep capacity e t t') (hr : Reachable capacity t.checkpoints t.host)
    (hl : Logged base start emitted t.checkpoints t.host) :
    ∃ emitted', e.apply emitted = some emitted' ∧
      Logged base start emitted' t'.checkpoints t'.host := by
  cases hstep with
  | log happend =>
    cases emitted with
    | nil => cases hl
    | cons frame parents =>
      exact ⟨_, rfl, hl.append ((appendLog_appended capacity _ _ _ _).of_ok happend)⟩
  | op o hlog ho =>
    exact ⟨emitted, rfl, hl.congr ((o.step_sameLogs capacity _ hlog).of_ok ho)⟩
  | @checkpoint frames h h' hcheckpoint =>
    obtain ⟨logs, hholds⟩ := hl.holds
    refine ⟨[] :: emitted, rfl, .frame hl hholds ?_⟩
    rw [List.append_nil, (hostRollback capacity).checkpoint_ok h h' hcheckpoint]
    exact hholds
  | @commit frames f h h' hcommit =>
    cases emitted with
    | nil => cases hl
    | cons child parents =>
      obtain ⟨parent, rest, rfl, hmerged⟩ := hl.merge
      refine ⟨_, rfl, hmerged.congr ?_⟩
      rw [(hostRollback capacity).commit_ok h h' hcommit]
      rfl
  | @revert frames f h h' hrevert =>
    obtain ⟨h'', hrevert', hview, _, _⟩ := hr.stacked.revert
    have heq : h' = h'' := Except.ok.inj (hrevert.symm.trans hrevert')
    have hlogs : h'.state.logs = f.state.logs := heq ▸ congrArg View.logs hview
    cases hl with
    | @frame child _ parents _ _ _ hparents _ _ =>
      obtain ⟨parent, rest, rfl⟩ : ∃ parent rest, parents = parent :: rest := by
        cases hparents with
        | transaction _ => exact ⟨_, _, rfl⟩
        | frame _ _ _ => exact ⟨_, _, rfl⟩
      exact ⟨_, rfl, hparents.congr hlogs⟩
  | @merge h s changes semantics epoch hmerge =>
    have hlogs := (txMerge_logs semantics epoch h.state).of_ok hmerge
    exact ⟨emitted, rfl, hl.congr hlogs⟩

theorem LogTrace.logged {es : List LogEvent} {t t' : Frames}
    {emitted : List (List Kernel.LogRecord)} (ht : LogTrace capacity es t t')
    (hr : Reachable capacity t.checkpoints t.host)
    (hl : Logged base start emitted t.checkpoints t.host) :
    ∃ emitted', es.foldlM (fun emitted e => e.apply emitted) emitted = some emitted' ∧
      Logged base start emitted' t'.checkpoints t'.host := by
  induction ht generalizing emitted with
  | nil t => exact ⟨emitted, rfl, hl⟩
  | cons hstep _ ih =>
    obtain ⟨emitted₁, happly, hl₁⟩ := hstep.logged hr hl
    obtain ⟨emitted', hrest, hl'⟩ := ih (hstep.reachable hr) hl₁
    refine ⟨emitted', ?_, hl'⟩
    rw [List.foldlM_cons, happly]
    exact hrest

/-- A transaction leaves in the table what its events leave. -/
theorem LogTrace.holds {es : List LogEvent} {epoch : Nat} {h h' : Host} {start : Nat}
    {logs : List Kernel.LogRecord} (ht : LogTrace capacity es ⟨[], txReset epoch h⟩ ⟨[], h'⟩)
    (hr : Reachable capacity [] h) (hlogs : h.state.logs.Holds start logs) :
    h'.state.logs.Holds logs.length (logs ++ survivors es) := by
  have hstart : Logged logs logs.length [[]] [] (txReset epoch h) := by
    refine .transaction ?_
    rw [List.append_nil]
    exact txReset_logs epoch hlogs
  obtain ⟨emitted', hrun, hl⟩ := ht.logged (.reset epoch hr) hstart
  cases hl with
  | transaction hholds =>
    rw [survivors, hrun]
    exact hholds

/-- The table of every reachable host holds some records. -/
theorem Reachable.holds {frames : List Host} {h : Host} (hr : Reachable capacity frames h) :
    (∃ start logs, h.state.logs.Holds start logs) ∧
      ∀ f ∈ frames, ∃ start logs, f.state.logs.Holds start logs := by
  induction hr with
  | @start limits accounts s epoch hload =>
    have hloaded := (initializeBlockAccessListState_logs limits accounts).of_ok hload
    exact ⟨⟨0, [], hloaded⟩, fun f hf => (nomatch hf)⟩
  | @op frames h h' o _ ho ih =>
    refine ⟨?_, ih.2⟩
    obtain ⟨start, logs, hholds⟩ := ih.1
    cases hlog : o.isLog with
    | false =>
      rw [(o.step_sameLogs capacity h hlog).of_ok ho]
      exact ih.1
    | true =>
      cases o with
      | log address topics bytes =>
        exact ⟨start, _, hholds.append ((appendLog_appended capacity h _ _ _).of_ok ho)⟩
      | _ => cases hlog
  | @checkpoint frames h h' _ hcheckpoint ih =>
    rw [(hostRollback capacity).checkpoint_ok h h' hcheckpoint]
    refine ⟨ih.1, fun f hf => ?_⟩
    rcases List.mem_cons.mp hf with rfl | hf
    · exact ih.1
    · exact ih.2 f hf
  | @commit frames f h h' _ hcommit ih =>
    rw [(hostRollback capacity).commit_ok h h' hcommit]
    exact ⟨ih.1, fun f hf => ih.2 f (List.mem_cons_of_mem _ hf)⟩
  | @revert frames f h h' hr hrevert ih =>
    obtain ⟨h'', hrevert', hview, _, _⟩ := hr.stacked.revert
    have heq : h' = h'' := Except.ok.inj (hrevert.symm.trans hrevert')
    have hlogs : h'.state.logs = f.state.logs := heq ▸ congrArg View.logs hview
    rw [hlogs]
    exact ⟨ih.2 f (List.mem_cons_self ..), fun f hf => ih.2 f (List.mem_cons_of_mem _ hf)⟩
  | @merge h s changes semantics epoch _ hmerge ih =>
    have hlogs := (txMerge_logs semantics epoch h.state).of_ok hmerge
    refine ⟨?_, ih.2⟩
    rw [hlogs]
    exact ih.1
  | @reset h epoch _ ih =>
    obtain ⟨start, logs, hholds⟩ := ih.1
    exact ⟨⟨_, _, txReset_logs epoch hholds⟩, ih.2⟩
  | warmReset epoch _ _ ih => exact ih

end

end EvmSail.Optimised
