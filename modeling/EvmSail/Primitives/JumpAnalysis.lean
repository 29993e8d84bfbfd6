/-
# `EvmSail.Primitives.JumpAnalysis` — the jump-destination analysis

Code is scanned once, when it is stored, and the positions of its
`JUMPDEST`s are kept beside it.  The scan steps over the immediate data of
`PUSH`, and from Amsterdam over the immediate byte of the three deep-stack
operations when that byte is valid.

`instructionStarts` lists the positions at which the scan finds an
instruction.  Both scanners, the specification's and the optimised
guest's, mark the `0x5b` bytes among them (`analyzeCode_eq`,
`codeDbAnalyzeRegion_eq`).
-/
import EvmSail.Prelude

namespace EvmSail

open Fallible

/-! ## Immediates -/

inductive DeepStackOperation where
  | deepStackDuplicate
  | deepStackSwap
  | deepStackExchange
  | notDeepStackOperation
  deriving DecidableEq

def deepStackOperation (opcode : Nat) : DeepStackOperation :=
  match opcode with
  | 230 => .deepStackDuplicate
  | 231 => .deepStackSwap
  | 232 => .deepStackExchange
  | _ => .notDeepStackOperation

def deepStackImmediateValid (immediate : Byte) : Bool :=
  decide (immediate.toNat ≤ 90 ∨ 128 ≤ immediate.toNat)

def exchangeImmediateValid (immediate : Byte) : Bool :=
  decide (immediate.toNat ≤ 81 ∨ 128 ≤ immediate.toNat)

def deepStackOperationImmediateValid (operation : DeepStackOperation) (immediate : Byte) : Bool :=
  match operation with
  | .deepStackDuplicate => deepStackImmediateValid immediate
  | .deepStackSwap => deepStackImmediateValid immediate
  | .deepStackExchange => exchangeImmediateValid immediate
  | .notDeepStackOperation => false

/-- `slice_byte`: bytes past the end of the code are zero. -/
def codeByte (code : List Byte) (i : Nat) : Byte := code.getD i 0

/-- How far the scan moves from an instruction. -/
def scanStep (amsterdam : Bool) (code : List Byte) (current : Nat) : Nat :=
  let opcode := (codeByte code current).toNat
  if 96 ≤ opcode ∧ opcode ≤ 127 then opcode - 94
  else if amsterdam then
    if deepStackOperationImmediateValid (deepStackOperation opcode) (codeByte code (current + 1))
    then 2
    else 1
  else 1

theorem scanStep_pos (amsterdam : Bool) (code : List Byte) (current : Nat) :
    0 < scanStep amsterdam code current := by
  simp only [scanStep]
  split
  · omega
  · split
    · split <;> omega
    · omega

/-! ## The scan of the specification -/

/-- The variables of the loop, with the positions that are marked. -/
structure ScanState where
  scanning : Bool
  position : Nat
  marks : List Nat

/-- `jumpdest_table_mark`. -/
def jumpdestTableMark (codeLen position : Nat) : Bool := decide (position < codeLen)

def scanRound (amsterdam : Bool) (code : List Byte) (s : ScanState) : Result ScanState := do
  let current := s.position
  let marks ←
    (if codeByte code current = 0x5b then
      if jumpdestTableMark code.length current then .ok (s.marks ++ [current])
      else .error .assertFailed
    else .ok s.marks : Result (List Nat))
  let step := scanStep amsterdam code current
  if step < code.length - current then
    .ok { scanning := true, position := current + step, marks := marks }
  else
    .ok { scanning := false, position := current, marks := marks }

/-- `scanning & position < code_len`. -/
def ScanState.goesOn (code : List Byte) (s : ScanState) : Bool :=
  s.scanning && decide (s.position < code.length)

/-- What remains to be scanned. -/
def ScanState.remaining (code : List Byte) (s : ScanState) : Nat :=
  if s.scanning then code.length - s.position + 1 else 0

theorem scanRound_decreases (amsterdam : Bool) (code : List Byte) (s s' : ScanState)
    (hc : s.goesOn code = true) (h : scanRound amsterdam code s = .ok s') :
    s'.remaining code < s.remaining code := by
  rw [ScanState.goesOn, Bool.and_eq_true, decide_eq_true_eq] at hc
  obtain ⟨hscanning, hlt⟩ := hc
  simp only [scanRound] at h
  obtain ⟨marks, -, h⟩ := bind_eq_ok.mp h
  have hpos := scanStep_pos amsterdam code s.position
  split at h
  · cases h
    simp only [ScanState.remaining, hscanning, if_true]
    omega
  · cases h
    simp [ScanState.remaining, hscanning]

def analyzeCodeFrom (amsterdam : Bool) (code : List Byte) : ScanState → Result ScanState :=
  loop (ScanState.goesOn code) (scanRound amsterdam code) (ScanState.remaining code)
    (scanRound_decreases amsterdam code)

/-- The positions of the jump destinations. -/
def analyzeCode (amsterdam : Bool) (code : List Byte) : Result (List Nat) :=
  if code.length = 0 then .ok []
  else do
    let s ← analyzeCodeFrom amsterdam code { scanning := true, position := 0, marks := [] }
    .ok s.marks

/-! ## Where instructions start -/

/-- The instructions that a scan from `position` finds. -/
def instructionStarts (amsterdam : Bool) (code : List Byte) (position : Nat) : List Nat :=
  if position < code.length then
    position :: instructionStarts amsterdam code (position + scanStep amsterdam code position)
  else []
termination_by code.length - position
decreasing_by
  have := scanStep_pos amsterdam code position
  omega

/-- The jump destinations among them. -/
def destinationsFrom (amsterdam : Bool) (code : List Byte) (position : Nat) : List Nat :=
  (instructionStarts amsterdam code position).filter fun p => codeByte code p == 0x5b

theorem destinationsFrom_step (amsterdam : Bool) (code : List Byte) {position : Nat}
    (h : position < code.length) :
    destinationsFrom amsterdam code position =
      (if codeByte code position = 0x5b then [position] else []) ++
        destinationsFrom amsterdam code (position + scanStep amsterdam code position) := by
  rw [destinationsFrom, instructionStarts, if_pos h, List.filter_cons, destinationsFrom]
  simp only [beq_iff_eq]
  split
  · rfl
  · rfl

theorem destinationsFrom_end (amsterdam : Bool) (code : List Byte) {position : Nat}
    (h : code.length ≤ position) : destinationsFrom amsterdam code position = [] := by
  rw [destinationsFrom, instructionStarts, if_neg (Nat.not_lt_of_le h)]
  rfl

/-- One round marks the destination it stands on. -/
theorem scanRound_eq (amsterdam : Bool) (code : List Byte) {s : ScanState}
    (h : s.position < code.length) :
    scanRound amsterdam code s =
      .ok
        (if scanStep amsterdam code s.position < code.length - s.position then
          { scanning := true
            position := s.position + scanStep amsterdam code s.position
            marks := s.marks ++ if codeByte code s.position = 0x5b then [s.position] else [] }
        else
          { scanning := false
            position := s.position
            marks :=
              s.marks ++ if codeByte code s.position = 0x5b then [s.position] else [] }) := by
  have hmark : jumpdestTableMark code.length s.position = true := decide_eq_true h
  simp only [scanRound, hmark, if_true]
  by_cases hdest : codeByte code s.position = 0x5b
  · simp only [if_pos hdest, ok_bind]
    split <;> rfl
  · simp only [if_neg hdest, ok_bind, List.append_nil]
    split <;> rfl

theorem analyzeCodeFrom_eq (amsterdam : Bool) (code : List Byte) (n : Nat) :
    ∀ s : ScanState, s.scanning = true → s.position < code.length →
      code.length - s.position ≤ n →
      ∃ s', analyzeCodeFrom amsterdam code s = .ok s' ∧
        s'.marks = s.marks ++ destinationsFrom amsterdam code s.position := by
  induction n with
  | zero =>
    intro s _ hlt hle
    omega
  | succ n ih =>
    intro s hscanning hlt hle
    have hcond : s.goesOn code = true := by
      rw [ScanState.goesOn, hscanning, decide_eq_true hlt]
      rfl
    rw [analyzeCodeFrom, loop_step hcond, scanRound_eq amsterdam code hlt,
      destinationsFrom_step amsterdam code hlt, ← List.append_assoc]
    have hpos := scanStep_pos amsterdam code s.position
    by_cases hstep : scanStep amsterdam code s.position < code.length - s.position
    · rw [if_pos hstep]
      exact ih _ rfl (by simp only; omega) (by simp only; omega)
    · rw [if_neg hstep]
      refine ⟨_, loop_done rfl, ?_⟩
      rw [destinationsFrom_end amsterdam code (by omega), List.append_nil]

theorem analyzeCode_eq (amsterdam : Bool) (code : List Byte) :
    analyzeCode amsterdam code = .ok (destinationsFrom amsterdam code 0) := by
  rw [analyzeCode]
  split
  · next hnil =>
    rw [destinationsFrom_end amsterdam code (Nat.le_of_eq hnil)]
  · next hne =>
    obtain ⟨s, hs, hmarks⟩ := analyzeCodeFrom_eq amsterdam code code.length
      { scanning := true, position := 0, marks := [] } rfl (Nat.pos_of_ne_zero hne)
      (Nat.le_of_eq (Nat.sub_zero _))
    rw [hs, ok_bind, hmarks]
    rfl

/-! ## The scan of the optimised guest -/

/-- `immediate_widths`. -/
def immediateWidth (opcode : Nat) : Nat :=
  if 0x60 ≤ opcode ∧ opcode ≤ 0x7f then opcode - 0x5f else 0

/-- How far the scan moves when the deep-stack operations have an
immediate. -/
def regionStep (code : List Byte) (position : Nat) : Nat :=
  let opcode := (codeByte code position).toNat
  let step := 1 + immediateWidth opcode
  if 0xe6 ≤ opcode ∧ opcode ≤ 0xe8 then
    let immediate := if position + 1 < code.length then (codeByte code (position + 1)).toNat else 0
    let valid :=
      if opcode = 0xe8 then decide (immediate ≤ 81 ∨ immediate ≥ 128)
      else decide (immediate ≤ 90 ∨ immediate ≥ 128)
    if valid then 2 else step
  else step

theorem regionStep_eq (code : List Byte) (position : Nat) :
    regionStep code position = scanStep true code position := by
  have hbyte : (if position + 1 < code.length then (codeByte code (position + 1)).toNat else 0) =
      (codeByte code (position + 1)).toNat := by
    split
    · rfl
    · next hend =>
      rw [codeByte, List.getD_eq_default _ _ (Nat.le_of_not_lt hend)]
      rfl
  simp only [regionStep, hbyte, scanStep, immediateWidth]
  generalize (codeByte code position).toNat = opcode
  generalize codeByte code (position + 1) = immediate
  by_cases hpush : 96 ≤ opcode ∧ opcode ≤ 127
  · rw [if_pos hpush, if_neg (by omega), if_pos hpush]
    omega
  · rw [if_neg hpush, if_neg hpush]
    by_cases hdeep : 230 ≤ opcode ∧ opcode ≤ 232
    · have hcases : opcode = 230 ∨ opcode = 231 ∨ opcode = 232 := by omega
      rw [if_pos hdeep]
      rcases hcases with rfl | rfl | rfl <;> rfl
    · have hnone : deepStackOperation opcode = .notDeepStackOperation := by
        unfold deepStackOperation
        split
        · omega
        · omega
        · omega
        · rfl
      rw [if_neg hdeep, hnone]
      rfl

/-- The step of either loop. -/
def regionLoopStep (amsterdamOrLater : Bool) (code : List Byte) (position : Nat) : Nat :=
  if amsterdamOrLater then regionStep code position
  else 1 + immediateWidth (codeByte code position).toNat

theorem regionLoopStep_eq (amsterdamOrLater : Bool) (code : List Byte) (position : Nat) :
    regionLoopStep amsterdamOrLater code position = scanStep amsterdamOrLater code position := by
  cases amsterdamOrLater with
  | true => exact regionStep_eq code position
  | false =>
    simp only [regionLoopStep, scanStep, immediateWidth, Bool.false_eq_true, if_false]
    split
    · omega
    · rfl

/-- The two loops of `code_db_analyze_region`. -/
def analyzeRegionFrom (amsterdamOrLater : Bool) (code : List Byte) (position : Nat)
    (jumpdests : List Nat) : List Nat :=
  if position < code.length then
    let jumpdests := if codeByte code position = 0x5b then jumpdests ++ [position] else jumpdests
    analyzeRegionFrom amsterdamOrLater code
      (position + regionLoopStep amsterdamOrLater code position) jumpdests
  else jumpdests
termination_by code.length - position
decreasing_by
  have := scanStep_pos amsterdamOrLater code position
  rw [regionLoopStep_eq]
  omega

def codeDbAnalyzeRegion (amsterdamOrLater : Bool) (code : List Byte) : List Nat :=
  if code.length = 0 then [] else analyzeRegionFrom amsterdamOrLater code 0 []

theorem analyzeRegionFrom_eq (amsterdamOrLater : Bool) (code : List Byte) (n : Nat) :
    ∀ position jumpdests, code.length - position ≤ n →
      analyzeRegionFrom amsterdamOrLater code position jumpdests =
        jumpdests ++ destinationsFrom amsterdamOrLater code position := by
  induction n with
  | zero =>
    intro position jumpdests hle
    rw [analyzeRegionFrom, if_neg (by omega), destinationsFrom_end _ _ (by omega),
      List.append_nil]
  | succ n ih =>
    intro position jumpdests hle
    by_cases hlt : position < code.length
    · have hpos := scanStep_pos amsterdamOrLater code position
      rw [analyzeRegionFrom, if_pos hlt, regionLoopStep_eq, ih _ _ (by omega),
        destinationsFrom_step _ _ hlt, ← List.append_assoc]
      congr 1
      split
      · rfl
      · rw [List.append_nil]
    · rw [analyzeRegionFrom, if_neg hlt, destinationsFrom_end _ _ (by omega), List.append_nil]

theorem codeDbAnalyzeRegion_eq (amsterdamOrLater : Bool) (code : List Byte) :
    codeDbAnalyzeRegion amsterdamOrLater code = destinationsFrom amsterdamOrLater code 0 := by
  rw [codeDbAnalyzeRegion]
  split
  · next hnil =>
    rw [destinationsFrom_end amsterdamOrLater code (Nat.le_of_eq hnil)]
  · exact analyzeRegionFrom_eq amsterdamOrLater code code.length 0 []
      (Nat.le_of_eq (Nat.sub_zero _))

/-! ## The immediates of the deep-stack operations -/

/-- A byte that is consumed as a valid immediate is neither a `JUMPDEST`
nor a `PUSH`. -/
theorem immediate_not_push {operation : DeepStackOperation} {immediate : Byte}
    (h : deepStackOperationImmediateValid operation immediate = true) :
    ¬ (91 ≤ immediate.toNat ∧ immediate.toNat ≤ 127) := by
  cases operation with
  | deepStackDuplicate =>
    have := of_decide_eq_true h
    omega
  | deepStackSwap =>
    have := of_decide_eq_true h
    omega
  | deepStackExchange =>
    have := of_decide_eq_true h
    omega
  | notDeepStackOperation => cases h

/-- Passing over such a byte does not change what is found behind it. -/
theorem destinationsFrom_immediate {code : List Byte} {position : Nat}
    (h : ¬ (91 ≤ (codeByte code position).toNat ∧ (codeByte code position).toNat ≤ 127)) :
    destinationsFrom false code position = destinationsFrom false code (position + 1) := by
  by_cases hlt : position < code.length
  · have hstep : scanStep false code position = 1 := by
      simp only [scanStep]
      rw [if_neg (by omega)]
      rfl
    have hdest : codeByte code position ≠ 0x5b := by
      intro heq
      rw [heq] at h
      exact h (by decide)
    rw [destinationsFrom_step false code hlt, hstep, if_neg hdest, List.nil_append]
  · rw [destinationsFrom_end false code (by omega), destinationsFrom_end false code (by omega)]

/-- The immediates of Amsterdam neither add nor remove a destination. -/
theorem destinationsFrom_amsterdam (code : List Byte) (n : Nat) :
    ∀ position, code.length - position ≤ n →
      destinationsFrom true code position = destinationsFrom false code position := by
  induction n with
  | zero =>
    intro position hle
    rw [destinationsFrom_end true code (by omega), destinationsFrom_end false code (by omega)]
  | succ n ih =>
    intro position hle
    by_cases hlt : position < code.length
    · have hpos := scanStep_pos true code position
      rw [destinationsFrom_step true code hlt, destinationsFrom_step false code hlt,
        ih _ (by omega)]
      congr 1
      simp only [scanStep]
      split
      · rfl
      · simp only [if_true, Bool.false_eq_true, if_false]
        split
        · next hvalid => exact (destinationsFrom_immediate (immediate_not_push hvalid)).symm
        · rfl
    · rw [destinationsFrom_end true code (by omega), destinationsFrom_end false code (by omega)]

/-! ## Push data -/

/-- Position `p` lies in the immediate data of a `PUSH`. -/
def InsidePush (code : List Byte) (p : Nat) : Prop :=
  ∃ q ∈ instructionStarts false code 0,
    96 ≤ (codeByte code q).toNat ∧ (codeByte code q).toNat ≤ 127 ∧
      q < p ∧ p ≤ q + immediateWidth (codeByte code q).toNat

theorem instructionStarts_ge {amsterdam : Bool} {code : List Byte} (n : Nat) :
    ∀ position, code.length - position ≤ n →
      ∀ p ∈ instructionStarts amsterdam code position, position ≤ p ∧ p < code.length := by
  induction n with
  | zero =>
    intro position hle p hp
    rw [instructionStarts, if_neg (by omega)] at hp
    cases hp
  | succ n ih =>
    intro position hle p hp
    have hpos := scanStep_pos amsterdam code position
    rw [instructionStarts] at hp
    split at hp
    · next hlt =>
      rcases List.mem_cons.mp hp with rfl | hp
      · exact ⟨Nat.le_refl _, hlt⟩
      · have := ih _ (by omega) p hp
        omega
    · cases hp

/-- A position is an instruction of the scan, or the scan steps over it. -/
theorem instructionStarts_or_skipped (amsterdam : Bool) (code : List Byte) (n : Nat) :
    ∀ position p, code.length - position ≤ n → position ≤ p → p < code.length →
      (p ∈ instructionStarts amsterdam code position ↔
        ¬ ∃ q ∈ instructionStarts amsterdam code position,
          q < p ∧ p < q + scanStep amsterdam code q) := by
  induction n with
  | zero =>
    intro position p hle hge hlt
    omega
  | succ n ih =>
    intro position p hle hge hlt
    have hpos := scanStep_pos amsterdam code position
    have hstarts : instructionStarts amsterdam code position =
        position :: instructionStarts amsterdam code
          (position + scanStep amsterdam code position) := by
      rw [instructionStarts, if_pos (by omega)]
    rw [hstarts]
    rcases Nat.lt_trichotomy p position with hlow | rfl | hhigh
    · omega
    · refine ⟨fun _ => ?_, fun _ => List.mem_cons_self⟩
      rintro ⟨q, hq, hqp, -⟩
      rcases List.mem_cons.mp hq with rfl | hq
      · exact Nat.lt_irrefl _ hqp
      · have := instructionStarts_ge n _ (by omega) q hq
        omega
    · by_cases hskip : p < position + scanStep amsterdam code position
      · refine ⟨fun hmem => ?_,
          fun hnot => absurd ⟨position, List.mem_cons_self, hhigh, hskip⟩ hnot⟩
        rcases List.mem_cons.mp hmem with rfl | hmem
        · exact absurd hhigh (Nat.lt_irrefl _)
        · have := instructionStarts_ge n _ (by omega) p hmem
          omega
      · have hrest := ih (position + scanStep amsterdam code position) p (by omega) (by omega) hlt
        rw [List.mem_cons, or_iff_right (by omega), hrest]
        refine not_congr ⟨?_, ?_⟩
        · rintro ⟨q, hq, h⟩
          exact ⟨q, List.mem_cons_of_mem _ hq, h⟩
        · rintro ⟨q, hq, h⟩
          rcases List.mem_cons.mp hq with rfl | hq
          · omega
          · exact ⟨q, hq, h⟩

/-- The scan without deep-stack immediates steps over push data only. -/
theorem mem_instructionStarts_iff {code : List Byte} {p : Nat} (hp : p < code.length) :
    p ∈ instructionStarts false code 0 ↔ ¬ InsidePush code p := by
  rw [instructionStarts_or_skipped false code code.length 0 p (by omega) (Nat.zero_le p) hp]
  refine not_congr ⟨?_, ?_⟩
  · rintro ⟨q, hq, hqp, hpq⟩
    simp only [scanStep, Bool.false_eq_true, if_false] at hpq
    split at hpq
    · next hpush =>
      refine ⟨q, hq, hpush.1, hpush.2, hqp, ?_⟩
      rw [immediateWidth, if_pos hpush]
      omega
    · omega
  · rintro ⟨q, hq, hlow, hhigh, hqp, hpq⟩
    refine ⟨q, hq, hqp, ?_⟩
    rw [immediateWidth, if_pos ⟨hlow, hhigh⟩] at hpq
    simp only [scanStep]
    rw [if_pos ⟨hlow, hhigh⟩]
    omega

/-- The immediates of the deep-stack operations do not bear on what is marked. -/
theorem destinationsFrom_plain (amsterdam : Bool) (code : List Byte) :
    destinationsFrom amsterdam code 0 = destinationsFrom false code 0 := by
  cases amsterdam with
  | true => exact destinationsFrom_amsterdam code code.length 0 (Nat.le_of_eq (Nat.sub_zero _))
  | false => rfl

/-- What the analysis marks. -/
theorem mem_destinationsFrom {amsterdam : Bool} {code : List Byte} {p : Nat} :
    p ∈ destinationsFrom amsterdam code 0 ↔
      p < code.length ∧ codeByte code p = 0x5b ∧ ¬ InsidePush code p := by
  rw [destinationsFrom_plain, destinationsFrom, List.mem_filter, beq_iff_eq]
  constructor
  · rintro ⟨hmem, hdest⟩
    have hlt := (instructionStarts_ge code.length 0 (by omega) p hmem).2
    exact ⟨hlt, hdest, (mem_instructionStarts_iff hlt).mp hmem⟩
  · rintro ⟨hlt, hdest, hinside⟩
    exact ⟨(mem_instructionStarts_iff hlt).mpr hinside, hdest⟩

end EvmSail
