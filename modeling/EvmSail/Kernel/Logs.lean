/-
# `EvmSail.Kernel.Logs` — the log store of a block

Records are kept for the whole block.  A transaction is reset to a new
start in the store, and its receipt names what it has emitted by a start
and a count; the records of frames that were reverted are gone from the
store by then.

`LogRun` follows a transaction by what each of its live frames has
emitted.  A frame that reverts takes its records with it, one that commits
leaves them to its parent, and what the transaction's own frame ends with
is what the store has gained (`LogRun.retained`), whatever else the frames
did.
-/
import EvmSail.Kernel.Stores
import Mathlib.Logic.Relation

namespace EvmSail.Kernel

open Fallible Journal

/-! ## Positions in the store -/

def logStoreIndexBound : Nat := 2 ^ 64 - 1

def logStoreIndexIncrement (value : Nat) : Result Nat :=
  if value < logStoreIndexBound then .ok (value + 1) else .error .assertFailed

def logStoreIndexAdd (left right : Nat) : Result Nat :=
  if right ≤ logStoreIndexBound - left then .ok (left + right) else .error .assertFailed

/-- A consecutive range of the store. -/
structure LogSeriesRef where
  start : Nat
  count : Nat

/-- The records that are retained, in the order in which they were emitted. -/
def retainedLogs (h : Host) : List LogRecord := h.state.effects.logs.reverse

/-- The record at a position; empty outside the store. -/
def logAt (h : Host) (index : Nat) : LogRecord :=
  (retainedLogs h).getD index { address := 0, topics := [], data := [] }

def logAddress (h : Host) (index : Nat) : Address := (logAt h index).address

def logTopicsCount (h : Host) (index : Nat) : Nat := (logAt h index).topics.length

def logTopic (h : Host) (index topic : Nat) : Word := (logAt h index).topics.getD topic 0

def readLogData (h : Host) (index : Nat) : List Byte := (logAt h index).data

/-- Resets every per-transaction store and the journal.  The records of
earlier transactions stay where they are. -/
def kTxReset (h : Host) : Host :=
  { state :=
      { h.state with
        effects := noEffects h.state.effects.logs
        warm := coldWarm
        acctTxRows := []
        storageTxRows := []
        nextGeneration := ⟨initialGeneration, Nat.le_refl _⟩ }
    journal := [] }

/-- The range that a transaction has added to the store since `start`. -/
def readLogs (start : Nat) (h : Host) : LogSeriesRef :=
  { start := start, count := (retainedLogs h).length - start }

/-- The range holds these records, the last ones of the store. -/
structure LogSeriesRef.Holds (s : LogSeriesRef) (h : Host) (logs : List LogRecord) : Prop where
  fits : s.start + s.count ≤ logStoreIndexBound
  count_eq : s.count = logs.length
  retained : ∃ earlier : List LogRecord, earlier.length = s.start ∧
    retainedLogs h = earlier ++ logs

theorem LogSeriesRef.Holds.logAt_eq {s : LogSeriesRef} {h : Host} {logs : List LogRecord}
    (hs : s.Holds h logs) {i : Nat} {r : LogRecord} (hr : logs[i]? = some r) :
    logAt h (s.start + i) = r := by
  obtain ⟨earlier, hlen, hretained⟩ := hs.retained
  rw [logAt, hretained, ← hlen, List.getD_eq_getElem?_getD,
    List.getElem?_append_right (Nat.le_add_right _ _), Nat.add_sub_cancel_left, hr]
  rfl

/-! ## The frames of a transaction -/

/-- A transaction as the log store sees it: what each live frame has
emitted, the innermost first and that of the transaction last, and the
kernel. -/
structure LogFrames where
  emitted : List (List LogRecord)
  host : Host

section

variable (env : Env)

/-- What can happen to the records.  Between the frames' own steps stands
any operation that the journal takes back, as it does every one of the
kernel (`Changed.tracks`), and that emits nothing; once no frame is open,
as when the transaction is merged into the block, anything that emits
nothing. -/
inductive LogStep : LogFrames → LogFrames → Prop
  | emit {frame : List LogRecord} {parents : List (List LogRecord)} {h : Host} (r : LogRecord) :
      LogStep ⟨frame :: parents, h⟩ ⟨(frame ++ [r]) :: parents, logAppend r h⟩
  | other {emitted : List (List LogRecord)} {h h' : Host} : Tracks (kernelInverse env) h h' →
      h'.state.effects.logs = h.state.effects.logs → LogStep ⟨emitted, h⟩ ⟨emitted, h'⟩
  | enter {emitted : List (List LogRecord)} {h h' : Host} : stateJournalCheckpoint h = .ok h' →
      LogStep ⟨emitted, h⟩ ⟨[] :: emitted, h'⟩
  | commit {child parent : List LogRecord} {parents : List (List LogRecord)} {h h' : Host} :
      stateJournalCommit h = .ok h' →
      LogStep ⟨child :: parent :: parents, h⟩ ⟨(parent ++ child) :: parents, h'⟩
  | revert {child parent : List LogRecord} {parents : List (List LogRecord)} {h h' : Host} :
      stateJournalRevert h = .ok h' →
      LogStep ⟨child :: parent :: parents, h⟩ ⟨parent :: parents, h'⟩
  | settle {emitted : List LogRecord} {h h' : Host} :
      h'.state.effects.logs = h.state.effects.logs → LogStep ⟨[emitted], h⟩ ⟨[emitted], h'⟩

abbrev LogRun := Relation.ReflTransGen (LogStep env)

/-- The store holds what the frames have emitted, behind `base`. -/
inductive Logged (base : List LogRecord) : List (List LogRecord) → Host → Prop
  | transaction {frame : List LogRecord} {h : Host} :
      h.state.effects.logs = frame.reverse ++ base → Logged base [frame] h
  | frame {frame : List LogRecord} {parents : List (List LogRecord)} {h₀ h₁ h : Host} :
      Logged base parents h₀ → stateJournalCheckpoint h₀ = .ok h₁ →
      Tracks (kernelInverse env) h₁ h →
      h.state.effects.logs = frame.reverse ++ h₀.state.effects.logs →
      Logged base (frame :: parents) h

variable {env} {base : List LogRecord}

/-- The innermost frame moves on. -/
theorem Logged.move {frame more : List LogRecord} {parents : List (List LogRecord)} {h h' : Host}
    (hl : Logged env base (frame :: parents) h) (htracks : Tracks (kernelInverse env) h h')
    (hlogs : h'.state.effects.logs = more.reverse ++ h.state.effects.logs) :
    Logged env base ((frame ++ more) :: parents) h' := by
  cases hl with
  | transaction hbase =>
    refine .transaction ?_
    rw [hlogs, hbase, List.reverse_append, List.append_assoc]
  | frame hparents hcheckpoint hframe hown =>
    refine .frame hparents hcheckpoint (hframe.trans htracks) ?_
    rw [hlogs, hown, List.reverse_append, List.append_assoc]

theorem Logged.quiet {emitted : List (List LogRecord)} {h h' : Host}
    (hl : Logged env base emitted h) (htracks : Tracks (kernelInverse env) h h')
    (hlogs : h'.state.effects.logs = h.state.effects.logs) : Logged env base emitted h' := by
  cases emitted with
  | nil => cases hl
  | cons frame parents =>
    have hmoved : Logged env base ((frame ++ []) :: parents) h' := hl.move htracks hlogs
    rwa [List.append_nil] at hmoved

theorem logAppend_tracks (r : LogRecord) (h : Host) :
    Tracks (kernelInverse env) h (logAppend r h) :=
  .change rfl rfl trivial fun _ _ => trivial

theorem LogStep.logged {t t' : LogFrames} (hstep : LogStep env t t')
    (hl : Logged env base t.emitted t.host) : Logged env base t'.emitted t'.host := by
  cases hstep with
  | emit r => exact hl.move (logAppend_tracks r _) rfl
  | other htracks hlogs => exact hl.quiet htracks hlogs
  | enter hcheckpoint =>
    refine .frame hl hcheckpoint (.refl _) ?_
    cases hcheckpoint
    rfl
  | commit hcommit =>
    cases hl with
    | @frame _ _ h₀ _ _ hparents hcheckpoint hframe hown =>
      have hstate := congrArg State.effects (congrArg Journaled.state
        (kernelRollback.commit_ok _ _ hcommit))
      have htracks : Tracks (kernelInverse env) h₀ _ :=
        commit_tracks (R := kernelRollback) hcheckpoint hframe hcommit
      refine hparents.move htracks ?_
      rw [← hown]
      exact congrArg Effects.logs hstate
  | revert hrevert =>
    cases hl with
    | frame hparents hcheckpoint hframe hown =>
      obtain ⟨h'', hrevert', hview, hjournal, hready⟩ :=
        revert_exact (R := kernelRollback) (I := kernelInverse env) hcheckpoint hframe
      have hsame := hrevert.symm.trans hrevert'
      cases hsame
      have heffects : _ = _ := congrArg View.effects hview
      exact hparents.quiet (.of_view_eq hjournal hview hready) (congrArg Effects.logs heffects)
  | settle hlogs =>
    cases hl with
    | transaction hbase => exact .transaction (hlogs.trans hbase)
    | frame hparents _ _ _ => cases hparents

theorem LogRun.logged {t t' : LogFrames} (hrun : LogRun env t t')
    (hl : Logged env base t.emitted t.host) : Logged env base t'.emitted t'.host := by
  induction hrun with
  | refl => exact hl
  | tail _ hstep ih => exact hstep.logged ih

/-- A run adds to the store what its outermost frame ends with. -/
theorem LogRun.gains {h h' : Host} {logs : List LogRecord}
    (hrun : LogRun env ⟨[[]], h⟩ ⟨[logs], h'⟩) :
    retainedLogs h' = retainedLogs h ++ logs := by
  have hl : Logged env h.state.effects.logs [logs] h' := hrun.logged (.transaction rfl)
  cases hl with
  | transaction hlogs => rw [retainedLogs, hlogs, List.reverse_append, List.reverse_reverse]; rfl
  | frame hparents _ _ _ => cases hparents

/-- A transaction adds to the store what its own frame ends with: the
records of frames that reverted are not among them. -/
theorem LogRun.retained {h h' : Host} {logs : List LogRecord}
    (hrun : LogRun env ⟨[[]], kTxReset h⟩ ⟨[logs], h'⟩) :
    retainedLogs h' = retainedLogs h ++ logs := hrun.gains

/-- What `read_logs` captures at the end of a transaction. -/
theorem LogRun.holds {h h' : Host} {logs : List LogRecord}
    (hrun : LogRun env ⟨[[]], kTxReset h⟩ ⟨[logs], h'⟩)
    (hfits : (retainedLogs h').length ≤ logStoreIndexBound) :
    (readLogs (retainedLogs h).length h').Holds h' logs := by
  have hretained := hrun.retained
  have hlen := congrArg List.length hretained
  rw [List.length_append] at hlen
  refine ⟨?_, ?_, retainedLogs h, rfl, hretained⟩
  · dsimp only [readLogs]
    omega
  · dsimp only [readLogs]
    omega

end

end EvmSail.Kernel
