/-
# `EvmSail.Executor.LogsBloom` — the bloom of a block and of its receipts

The transactions of a block leave consecutive ranges in the log store,
behind what the system calls before them have left.  Each receipt carries
the bloom of its own range when it is appended; the header's bloom is
compared with that of the range of the whole block, read once every
transaction and the system calls behind them are through.

`BlockLogs` follows the transactions by the events of each.  The loop of
the executor is such a run (`executeBlockTransactions_blockLogs`), and the
bloom of its range is the join of its receipts' (`BlockLogs.bloom_eq`).
-/
import EvmSail.Executor.BlockTransactions
import EvmSail.Kernel.LogsBloom

namespace EvmSail

open Fallible Kernel

/-! ## The range of a block -/

/-- The range from the start of the block's transactions to the end of the
store. -/
def blockLogSeries (logsStart logsTxStart : Nat) (h : Host) : Result LogSeriesRef := do
  let retained ← retainedLogsEnd logsTxStart h
  .ok ⟨logsStart, if logsStart ≤ retained then retained - logsStart else 0⟩

theorem retainedLogsEnd_eq {logsTxStart : Nat} {h : Host}
    (hstart : logsTxStart ≤ (retainedLogs h).length)
    (hindexed : (retainedLogs h).length ≤ logStoreIndexBound) :
    retainedLogsEnd logsTxStart h = .ok (retainedLogs h).length := by
  have hend : logsTxStart + ((retainedLogs h).length - logsTxStart) = (retainedLogs h).length :=
    Nat.add_sub_cancel' hstart
  have hfits : (retainedLogs h).length - logsTxStart ≤ logStoreIndexBound - logsTxStart := by
    omega
  rw [retainedLogsEnd, readLogs, logStoreIndexAdd, if_pos hfits, hend]

section

variable (env : Env) (logsTxStart : Nat) (h₀ : Host)

/-- The transactions of a block: their events, the blooms that their
receipts carry, the start that the log store was last reset to, and the
kernel. -/
inductive BlockLogs : List (List LogEvent) → List LogsBloom → Nat → Host → Prop
  | start : BlockLogs [] [] logsTxStart h₀
  | transaction {traces : List (List LogEvent)} {blooms : List LogsBloom} {txStart : Nat}
      {h h' : Host} {events : List LogEvent} {logs : List LogRecord} {bloom : LogsBloom} :
      BlockLogs traces blooms txStart h →
      LogTrace env events ⟨[[]], kTxReset h⟩ ⟨[logs], h'⟩ →
      bloomAddLogs env.keccak256 h' emptyLogsBloom (readLogs (retainedLogs h).length h') =
        .ok bloom →
      BlockLogs (traces ++ [events]) (blooms ++ [bloom]) (retainedLogs h).length h'

variable {env logsTxStart h₀} {traces : List (List LogEvent)} {blooms : List LogsBloom}
  {txStart : Nat} {h : Host}

/-- The store gains what the transactions leave. -/
theorem BlockLogs.retained (hb : BlockLogs env logsTxStart h₀ traces blooms txStart h) :
    retainedLogs h = retainedLogs h₀ ++ (traces.map survivors).flatten := by
  induction hb with
  | start => exact (List.append_nil _).symm
  | transaction _ htrace _ ih =>
    rw [htrace.run.retained, List.map_append, List.flatten_append, ← List.append_assoc, ← ih,
      ← htrace.survivors_eq]
    exact congrArg _ (List.append_nil _).symm

theorem BlockLogs.txStart_le (hb : BlockLogs env logsTxStart h₀ traces blooms txStart h)
    (hstart : logsTxStart ≤ (retainedLogs h₀).length) : txStart ≤ (retainedLogs h).length := by
  cases hb with
  | start => exact hstart
  | transaction _ htrace _ =>
    rw [htrace.run.retained, List.length_append]
    exact Nat.le_add_right _ _

theorem survivors_bounded (events : List LogEvent) : Bounded (survivors events) := by
  have hfold : ∀ emitted emitted',
      events.foldlM (fun emitted e => LogEvent.apply e emitted) emitted = some emitted' →
      (∀ l ∈ emitted, Bounded l) → ∀ l ∈ emitted', Bounded l := by
    induction events with
    | nil =>
      intro emitted emitted' hrun hbounded
      cases hrun
      exact hbounded
    | cons e events ih =>
      intro emitted emitted' hrun hbounded
      rw [List.foldlM_cons] at hrun
      obtain ⟨emitted₁, happly, hrest⟩ := Option.bind_eq_some_iff.mp hrun
      exact ih _ _ hrest (LogEvent.apply_bounded happly hbounded)
  rw [survivors]
  split
  · rename_i logs hrun
    exact hfold _ _ hrun (by simp [Bounded]) logs (List.mem_singleton_self _)
  · intro r hr
    cases hr

theorem flatten_survivors_bounded (traces : List (List LogEvent)) :
    Bounded (traces.map survivors).flatten := by
  intro r hr
  obtain ⟨logs, hlogs, hr⟩ := List.mem_flatten.mp hr
  obtain ⟨events, _, rfl⟩ := List.mem_map.mp hlogs
  exact survivors_bounded events r hr

/-- Each receipt carries the bloom of what its transaction leaves. -/
theorem BlockLogs.blooms_eq (hb : BlockLogs env logsTxStart h₀ traces blooms txStart h)
    (hindexed : (retainedLogs h).length ≤ logStoreIndexBound)
    (hbounded : Bounded (retainedLogs h₀)) :
    blooms = traces.map fun events => logsBloomOfRecords env.keccak256 (survivors events) := by
  induction hb with
  | start => rfl
  | @transaction traces blooms txStart h h' events logs bloom hb htrace hbloom ih =>
    have hretained := htrace.run.retained
    have hlength := congrArg List.length hretained
    rw [List.length_append] at hlength
    have hseries : (readLogs (retainedLogs h).length h').InStore h' := by
      refine ⟨?_, hindexed⟩
      dsimp only [readLogs]
      omega
    have hall : Bounded (retainedLogs h') := by
      rw [hretained, hb.retained, ← htrace.survivors_eq]
      exact (hbounded.append (flatten_survivors_bounded traces)).append (survivors_bounded events)
    have hrecords : (readLogs (retainedLogs h).length h').records h' = survivors events := by
      rw [LogSeriesRef.records, readLogs, hretained, List.drop_left, htrace.survivors_eq]
      refine List.take_of_length_le ?_
      dsimp only
      rw [List.length_append]
      omega
    rw [bloomAddLogs_eq hseries hall, empty_logsBloomOr, hrecords] at hbloom
    cases hbloom
    rw [List.map_append, ← ih (by omega)]
    rfl

/-- The block's range, read after the system calls behind the transactions
have left their records too: its bloom joins those of the receipts. -/
theorem BlockLogs.bloom_eq (hb : BlockLogs env logsTxStart h₀ traces blooms txStart h)
    (hstart : logsTxStart ≤ (retainedLogs h₀).length) (hbounded : Bounded (retainedLogs h₀))
    {post : List LogEvent} {more : List LogRecord} {h' : Host}
    (hpost : LogTrace env post ⟨[[]], h⟩ ⟨[more], h'⟩)
    (hindexed : (retainedLogs h').length ≤ logStoreIndexBound) :
    ∃ logsStart series, retainedLogsEnd logsTxStart h₀ = .ok logsStart ∧
      blockLogSeries logsStart txStart h = .ok series ∧
      series.records h' = (traces.map survivors).flatten ∧
      bloomAddLogs env.keccak256 h' emptyLogsBloom series = .ok (logsBloomJoin blooms) := by
  have hretained := hb.retained
  have hmore := hpost.run.gains
  have hlength := congrArg List.length hretained
  have hlength' := congrArg List.length hmore
  rw [List.length_append] at hlength hlength'
  have hend := retainedLogsEnd_eq (hb.txStart_le hstart) (by omega)
  have hle : (retainedLogs h₀).length ≤ (retainedLogs h).length := by omega
  refine ⟨_, _, retainedLogsEnd_eq hstart (by omega), by rw [blockLogSeries, hend]; rfl, ?_⟩
  rw [if_pos hle]
  have hrecords : LogSeriesRef.records ⟨(retainedLogs h₀).length,
      (retainedLogs h).length - (retainedLogs h₀).length⟩ h' = (traces.map survivors).flatten := by
    rw [LogSeriesRef.records, hmore, hretained, List.append_assoc, List.drop_left,
      List.length_append, Nat.add_sub_cancel_left, List.take_left]
  refine ⟨hrecords, ?_⟩
  have hall : Bounded (retainedLogs h') := by
    rw [hmore, hretained, ← hpost.survivors_eq]
    exact (hbounded.append (flatten_survivors_bounded traces)).append (survivors_bounded post)
  have hseries : LogSeriesRef.InStore ⟨(retainedLogs h₀).length,
      (retainedLogs h).length - (retainedLogs h₀).length⟩ h' := by
    refine ⟨?_, hindexed⟩
    dsimp only
    omega
  rw [bloomAddLogs_eq hseries hall, empty_logsBloomOr, hrecords, logsBloomOfRecords_flatten,
    List.map_map, hb.blooms_eq (by omega) hbounded]
  rfl

end

/-! ## The executor -/

section

variable (env : Env) (nodedbLookup : Hash → StatelessInputSlice) (blockLimit : Nat)
  (processTransaction : Nat → TransactionFields → (allowance : TransactionGasAllowance) →
    (h : Host) → Result (SettledTransaction env h allowance))

/-- Every log is emitted by an opcode or by the protocol, with its topics as
operands. -/
def EmitsOperands : Prop :=
  ∀ epoch tx allowance h t, processTransaction epoch tx allowance h = .ok t →
    ∃ events, LogTrace env events ⟨[[]], kTxReset h⟩ ⟨[t.emitted], t.after⟩

/-- What one round does to the variables that locate the logs. -/
structure LogRound (s s' : BlockProgress blockLimit) : Prop where
  logsStart : s'.logsStart = s.logsStart
  txStart : s'.logsTxStart = (retainedLogs s.host).length
  events : ∃ events logs, LogTrace env events ⟨[[]], kTxReset s.host⟩ ⟨[logs], s'.host⟩
  indexed : (retainedLogs s'.host).length ≤ logStoreIndexBound

variable {env blockLimit processTransaction}

theorem retainTransaction_logRound {s s' : BlockProgress blockLimit}
    {allowance : TransactionGasAllowance} {t : SettledTransaction env s.host allowance}
    {usage : BlockGasUsage blockLimit} {blobGas : Nat} {logs : EmittedLogs}
    (h : retainTransaction env blockLimit s t usage blobGas = .ok (s', logs))
    (hevents : ∃ events, LogTrace env events ⟨[[]], kTxReset s.host⟩ ⟨[t.emitted], t.after⟩) :
    LogRound env blockLimit s s' := by
  obtain ⟨_, _, h⟩ := bind_eq_ok.mp h
  cases h
  obtain ⟨events, htrace⟩ := hevents
  exact ⟨rfl, rfl, ⟨events, _, htrace⟩, t.indexed⟩

theorem executeAmsterdamTransaction_logRound (hemits : EmitsOperands env processTransaction)
    {s s' : BlockProgress blockLimit} {epoch : Nat} {tx : TransactionFields}
    {allowance : TransactionGasAllowance} {logs : EmittedLogs}
    (h : executeAmsterdamTransaction env blockLimit processTransaction s epoch tx allowance =
      .ok (s', logs)) : LogRound env blockLimit s s' := by
  rw [executeAmsterdamTransaction] at h
  split at h
  · cases h
  · obtain ⟨_, _, h⟩ := bind_eq_ok.mp h
    obtain ⟨receipt, hreceipt, h⟩ := bind_eq_ok.mp h
    exact retainTransaction_logRound h (hemits _ _ _ _ _ hreceipt)

theorem executeEarlierTransaction_logRound (hemits : EmitsOperands env processTransaction)
    {s s' : BlockProgress blockLimit} {epoch : Nat} {tx : TransactionFields}
    {allowance : TransactionGasAllowance} {logs : EmittedLogs}
    (h : executeEarlierTransaction env blockLimit processTransaction s epoch tx allowance =
      .ok (s', logs)) : LogRound env blockLimit s s' := by
  rw [executeEarlierTransaction] at h
  split at h
  · cases h
  · obtain ⟨_, _, h⟩ := bind_eq_ok.mp h
    obtain ⟨receipt, hreceipt, h⟩ := bind_eq_ok.mp h
    exact retainTransaction_logRound h (hemits _ _ _ _ _ hreceipt)

theorem executeBlockTransaction_logRound (hemits : EmitsOperands env processTransaction)
    {s s' : BlockProgress blockLimit} {logs : EmittedLogs}
    (h : executeBlockTransaction env blockLimit processTransaction s = .ok (s', logs)) :
    LogRound env blockLimit s s' := by
  obtain ⟨_, _, h⟩ := bind_eq_ok.mp h
  split at h
  · obtain ⟨tx, _, h⟩ := bind_eq_ok.mp h
    obtain ⟨allowance, _, h⟩ := bind_eq_ok.mp h
    by_cases hfork : .amsterdam ≤ env.profile.fork
    · rw [if_pos hfork] at h
      have hround := executeAmsterdamTransaction_logRound hemits h
      exact ⟨hround.logsStart, hround.txStart, hround.events, hround.indexed⟩
    · rw [if_neg hfork] at h
      have hround := executeEarlierTransaction_logRound hemits h
      exact ⟨hround.logsStart, hround.txStart, hround.events, hround.indexed⟩
  · cases h

/-- A round appends a transaction to the run, with the bloom of its
receipt. -/
theorem BlockLogs.round {logsTxStart : Nat} {h₀ : Host} {traces : List (List LogEvent)}
    {blooms : List LogsBloom} {s s' : BlockProgress blockLimit}
    (hb : BlockLogs env logsTxStart h₀ traces blooms s.logsTxStart s.host)
    (hround : LogRound env blockLimit s s') (hbounded : Bounded (retainedLogs h₀)) :
    ∃ events bloom, BlockLogs env logsTxStart h₀ (traces ++ [events]) (blooms ++ [bloom])
      s'.logsTxStart s'.host := by
  obtain ⟨events, logs, htrace⟩ := hround.events
  have hretained := htrace.run.retained
  have hlength := congrArg List.length hretained
  rw [List.length_append] at hlength
  have hseries : (readLogs (retainedLogs s.host).length s'.host).InStore s'.host := by
    refine ⟨?_, hround.indexed⟩
    dsimp only [readLogs]
    omega
  have hall : Bounded (retainedLogs s'.host) := by
    rw [hretained, hb.retained, ← htrace.survivors_eq]
    exact (hbounded.append (flatten_survivors_bounded traces)).append (survivors_bounded events)
  rw [hround.txStart]
  exact ⟨events, _, hb.transaction htrace (bloomAddLogs_eq hseries hall _)⟩

/-- The executor's transactions are such a run, and its result holds their
range. -/
theorem executeBlockTransactions_blockLogs (hemits : EmitsOperands env processTransaction)
    {transactions : TransactionListRef} {publicKeys expected : StatelessInputSlice}
    {logsTxStart : Nat} {h : Host} {result : BlockExecutionResult × Host}
    (hresult : executeBlockTransactions env nodedbLookup blockLimit processTransaction transactions
      publicKeys expected logsTxStart h = .ok result)
    (hbounded : Bounded (retainedLogs h)) :
    ∃ traces blooms txStart logsStart, BlockLogs env logsTxStart h traces blooms txStart result.2 ∧
      retainedLogsEnd logsTxStart h = .ok logsStart ∧
      blockLogSeries logsStart txStart result.2 = .ok result.1.logs := by
  obtain ⟨emitted, s, ⟨start, hstart, hproduces⟩, _, hfinish⟩ :=
    executeBlockTransactions_reaches hresult
  have hrun : ∀ traces blooms,
      BlockLogs env logsTxStart h traces blooms start.logsTxStart start.host →
      ∃ traces blooms, BlockLogs env logsTxStart h traces blooms s.logsTxStart s.host ∧
        s.logsStart = start.logsStart := by
    refine hproduces.rel (R := fun start _ s => ∀ traces blooms,
      BlockLogs env logsTxStart h traces blooms start.logsTxStart start.host →
      ∃ traces blooms, BlockLogs env logsTxStart h traces blooms s.logsTxStart s.host ∧
        s.logsStart = start.logsStart) ?_ ?_
    · exact fun s traces blooms hb => ⟨traces, blooms, hb, rfl⟩
    · intro s s₁ s' logs _ hround hrest traces blooms hb
      have hlog := executeBlockTransaction_logRound hemits hround
      obtain ⟨events, bloom, hb₁⟩ := hb.round hlog hbounded
      obtain ⟨traces', blooms', hb', hstart'⟩ := hrest _ _ hb₁
      exact ⟨traces', blooms', hb', hstart'.trans hlog.logsStart⟩
  rw [beginBlockTransactions] at hstart
  split at hstart
  · cases hstart
  · obtain ⟨logsStart, hlogsStart, hstart⟩ := bind_eq_ok.mp hstart
    cases hstart
    obtain ⟨traces, blooms, hb, hsame⟩ := hrun [] [] .start
    obtain ⟨root, _, hfinish⟩ := bind_eq_ok.mp hfinish
    obtain ⟨retained, hretained, hfinish⟩ := bind_eq_ok.mp hfinish
    cases hfinish
    refine ⟨traces, blooms, s.logsTxStart, logsStart, hb, hlogsStart, ?_⟩
    rw [blockLogSeries, hretained, ok_bind, hsame]

end

end EvmSail
