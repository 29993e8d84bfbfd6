/-
# `EvmSail.Vm.Fetch` — decoding the instruction at the program counter

The interpreter decodes as it goes; the jump destinations come from a scan
that was made when the code was stored.  Both step over immediates, each
with its own test of the opcode and of the fork, and they agree
(`fetch_next`): from an instruction of the scan the interpreter comes to the
next one.
-/
import EvmSail.Vm.Handlers

namespace EvmSail.Vm

/-- Whether the fork has the opcode; a byte that no fork has counts as
available, and decodes to `INVALID`. -/
def opcodeAvailable (opcode : Nat) (fork : Fork) : Bool :=
  match opcode with
  | 30 => decide (.osaka ≤ fork)
  | 72 => decide (.london ≤ fork)
  | 73 => decide (.cancun ≤ fork)
  | 74 => decide (.cancun ≤ fork)
  | 75 => decide (.amsterdam ≤ fork)
  | 92 => decide (.cancun ≤ fork)
  | 93 => decide (.cancun ≤ fork)
  | 94 => decide (.cancun ≤ fork)
  | 95 => decide (.shanghai ≤ fork)
  | 230 => decide (.amsterdam ≤ fork)
  | 231 => decide (.amsterdam ≤ fork)
  | 232 => decide (.amsterdam ≤ fork)
  | _ => true

/-- `decode_push_immediate`: bytes behind the end of the code are zero, and
belong to the instruction all the same. -/
def decodePushImmediate (code : List Byte) (immediateOffset width : Nat) : Nat × Word :=
  (immediateOffset + width, sliceLoadN code immediateOffset width)

/-- An immediate that is not valid is not consumed. -/
def decodeDeepImmediate (code : List Byte) (immediateOffset : Nat)
    (operation : DeepStackOperation) : Nat × Byte :=
  let immediate := codeByte code immediateOffset
  let immediateValid := deepStackOperationImmediateValid operation immediate
  (if immediateValid then immediateOffset + 1 else immediateOffset, immediate)

/-- The opcodes outside the families. -/
def decodeTable : Nat → Ast
  | 0 => .stop
  | 1 => .add
  | 2 => .mul
  | 3 => .sub
  | 4 => .div
  | 5 => .sdiv
  | 6 => .mod
  | 7 => .smod
  | 8 => .addmod
  | 9 => .mulmod
  | 10 => .exp
  | 11 => .signextend
  | 16 => .lt
  | 17 => .gt
  | 18 => .slt
  | 19 => .sgt
  | 20 => .eq
  | 21 => .iszero
  | 22 => .and
  | 23 => .or
  | 24 => .xor
  | 25 => .not
  | 26 => .byte
  | 27 => .shl
  | 28 => .shr
  | 29 => .sar
  | 30 => .clz
  | 32 => .keccak256
  | 48 => .address
  | 49 => .balance
  | 50 => .origin
  | 51 => .caller
  | 52 => .callvalue
  | 53 => .calldataload
  | 54 => .calldatasize
  | 55 => .calldatacopy
  | 56 => .codesize
  | 57 => .codecopy
  | 58 => .gasprice
  | 59 => .extcodesize
  | 60 => .extcodecopy
  | 61 => .returndatasize
  | 62 => .returndatacopy
  | 63 => .extcodehash
  | 64 => .blockhash
  | 65 => .coinbase
  | 66 => .timestamp
  | 67 => .number
  | 68 => .prevrandao
  | 69 => .gaslimit
  | 70 => .chainid
  | 71 => .selfbalance
  | 72 => .basefee
  | 73 => .blobhash
  | 74 => .blobbasefee
  | 75 => .slotnum
  | 80 => .pop
  | 81 => .mload
  | 82 => .mstore
  | 83 => .mstore8
  | 84 => .sload
  | 85 => .sstore
  | 86 => .jump
  | 87 => .jumpi
  | 88 => .pc
  | 89 => .msize
  | 90 => .gas
  | 91 => .jumpdest
  | 92 => .tload
  | 93 => .tstore
  | 94 => .mcopy
  | 240 => .opcodeCreate
  | 241 => .call
  | 242 => .callcode
  | 243 => .return_
  | 244 => .delegatecall
  | 245 => .create2
  | 250 => .staticcall
  | 253 => .revert
  | 255 => .selfdestruct
  | _ => .invalid

/-- `decode_simple`. -/
def decodeSimple (opcode : Nat) (fork : Fork) : Ast :=
  if !opcodeAvailable opcode fork then .invalid
  else if 128 ≤ opcode ∧ opcode ≤ 143 then .dup (opcode - 127)
  else if 144 ≤ opcode ∧ opcode ≤ 159 then .swap (opcode - 143)
  else if 160 ≤ opcode ∧ opcode ≤ 164 then .log (opcode - 160)
  else decodeTable opcode

/-- The instruction at `current`, and the counter behind it.  Behind the
end of the code every instruction is `STOP`. -/
def fetch (code : List Byte) (current : Nat) (fork : Fork) : Nat × Ast :=
  if ¬ current < code.length then (current, .stop)
  else
    let opcode := (codeByte code current).toNat
    let immediateOffset := current + 1
    if !opcodeAvailable opcode fork then (immediateOffset, .invalid)
    else if 95 ≤ opcode ∧ opcode ≤ 127 then
      let size := opcode - 95
      let (afterImmediate, value) := decodePushImmediate code immediateOffset size
      (afterImmediate, .push size value)
    else
      let operation := deepStackOperation opcode
      let (afterInstruction, immediate) := decodeDeepImmediate code immediateOffset operation
      match operation with
      | .deepStackDuplicate => (afterInstruction, .dupn immediate)
      | .deepStackSwap => (afterInstruction, .swapn immediate)
      | .deepStackExchange => (afterInstruction, .exchange immediate)
      | .notDeepStackOperation => (immediateOffset, decodeSimple opcode fork)

/-! ## Where the interpreter stands -/

/-- The scan's setting for a fork. -/
def scansDeep (fork : Fork) : Bool := decide (.amsterdam ≤ fork)

/-- A position at which the scan finds an instruction, or behind them. -/
def AtInstruction (fork : Fork) (code : List Byte) (position : Nat) : Prop :=
  position ∈ instructionStarts (scansDeep fork) code 0 ∨ code.length ≤ position

theorem atInstruction_zero (fork : Fork) (code : List Byte) : AtInstruction fork code 0 := by
  rcases Nat.eq_zero_or_pos code.length with hnil | hpos
  · exact .inr (Nat.le_of_eq hnil)
  · left
    rw [instructionStarts, if_pos hpos]
    exact List.mem_cons_self

/-- From an instruction the scan comes to the next one. -/
theorem instructionStarts_next {amsterdam : Bool} {code : List Byte} (n : Nat) :
    ∀ position, code.length - position ≤ n →
      ∀ p ∈ instructionStarts amsterdam code position,
        p + scanStep amsterdam code p ∈ instructionStarts amsterdam code position ∨
          code.length ≤ p + scanStep amsterdam code p := by
  induction n with
  | zero =>
    intro position hle p hp
    rw [instructionStarts, if_neg (by omega)] at hp
    cases hp
  | succ n ih =>
    intro position hle p hp
    have hpos := scanStep_pos amsterdam code position
    rw [instructionStarts] at hp ⊢
    split at hp
    · next hlt =>
      rw [if_pos hlt]
      rcases List.mem_cons.mp hp with rfl | hp
      · rcases Nat.lt_or_ge (p + scanStep amsterdam code p) code.length with hnext | hend
        · left
          refine List.mem_cons_of_mem _ ?_
          rw [instructionStarts, if_pos hnext]
          exact List.mem_cons_self
        · exact .inr hend
      · rcases ih _ (by omega) p hp with hnext | hend
        · exact .inl (List.mem_cons_of_mem _ hnext)
        · exact .inr hend
    · cases hp

/-- `PUSH` with data is in every fork. -/
theorem opcodeAvailable_push {opcode : Nat} (h : 96 ≤ opcode ∧ opcode ≤ 127) (fork : Fork) :
    opcodeAvailable opcode fork = true := by
  unfold opcodeAvailable
  split
  all_goals first
    | rfl
    | omega

/-- The deep-stack operations are in the forks whose scan knows them. -/
theorem opcodeAvailable_deep {opcode : Nat}
    (h : deepStackOperation opcode ≠ .notDeepStackOperation) (fork : Fork) :
    (opcode = 230 ∨ opcode = 231 ∨ opcode = 232) ∧
      opcodeAvailable opcode fork = scansDeep fork := by
  unfold deepStackOperation at h
  split at h
  · exact ⟨.inl rfl, rfl⟩
  · exact ⟨.inr (.inl rfl), rfl⟩
  · exact ⟨.inr (.inr rfl), rfl⟩
  · exact absurd rfl h

theorem scanStep_push {amsterdam : Bool} {code : List Byte} {current : Nat}
    (h : 96 ≤ (codeByte code current).toNat ∧ (codeByte code current).toNat ≤ 127) :
    scanStep amsterdam code current = (codeByte code current).toNat - 94 := by
  simp only [scanStep]
  rw [if_pos h]

/-- Opcodes without an immediate take one byte. -/
theorem scanStep_plain {amsterdam : Bool} {code : List Byte} {current : Nat}
    (hpush : ¬ (96 ≤ (codeByte code current).toNat ∧ (codeByte code current).toNat ≤ 127))
    (h : amsterdam = false ∨
      deepStackOperation (codeByte code current).toNat = .notDeepStackOperation) :
    scanStep amsterdam code current = 1 := by
  simp only [scanStep]
  rw [if_neg hpush]
  rcases h with rfl | hdeep
  · rfl
  · rw [hdeep]
    exact ite_self 1

/-- The interpreter steps as the scan does. -/
theorem fetch_next {code : List Byte} {current : Nat} {fork : Fork} (h : current < code.length) :
    (fetch code current fork).1 = current + scanStep (scansDeep fork) code current := by
  by_cases hpush : 96 ≤ (codeByte code current).toNat ∧ (codeByte code current).toNat ≤ 127
  · rw [scanStep_push hpush]
    simp only [fetch, decodePushImmediate, opcodeAvailable_push hpush fork]
    rw [if_neg (not_not.mpr h), if_neg (by decide), if_pos ⟨by omega, hpush.2⟩]
    show current + 1 + ((codeByte code current).toNat - 95) = _
    omega
  by_cases hdeep : deepStackOperation (codeByte code current).toNat = .notDeepStackOperation
  · rw [scanStep_plain hpush (.inr hdeep)]
    simp only [fetch, decodePushImmediate, hdeep]
    rw [if_neg (not_not.mpr h)]
    split
    · rfl
    · split
      · show current + 1 + ((codeByte code current).toNat - 95) = _
        omega
      · rfl
  · obtain ⟨hopcode, havailable⟩ := opcodeAvailable_deep hdeep fork
    have hnotpush : ¬ (95 ≤ (codeByte code current).toNat ∧
        (codeByte code current).toNat ≤ 127) := by omega
    simp only [fetch, decodeDeepImmediate, havailable]
    rw [if_neg (not_not.mpr h)]
    cases hscans : scansDeep fork with
    | false =>
      rw [scanStep_plain hpush (.inl rfl)]
      rfl
    | true =>
      simp only [scanStep, if_true]
      rw [if_neg (by decide), if_neg hnotpush, if_neg hpush]
      rcases hopcode with hopcode | hopcode | hopcode
      all_goals
        rw [hopcode]
        simp only [deepStackOperation]
        split
        · rfl
        · rfl

/-- From an instruction of the scan the interpreter comes to the next one,
or behind the code. -/
theorem atInstruction_fetch {code : List Byte} {current : Nat} {fork : Fork}
    (h : AtInstruction fork code current) :
    AtInstruction fork code (fetch code current fork).1 := by
  rcases Nat.lt_or_ge current code.length with hlt | hend
  · rcases h with hmem | hend
    · rw [fetch_next hlt]
      exact instructionStarts_next code.length 0 (by omega) current hmem
    · omega
  · have hstop : fetch code current fork = (current, .stop) := by
      rw [fetch, if_pos (by omega)]
    rw [hstop]
    exact .inr hend

/-- A jump destination is an instruction. -/
theorem atInstruction_of_jumpdest {code : Kernel.Code} {position : Nat} {fork : Fork}
    (hcode : analyzeCode (scansDeep fork) code.bytes = .ok code.jumpdests)
    (h : position ∈ code.jumpdests) : AtInstruction fork code.bytes position := by
  rw [analyzeCode_eq] at hcode
  rw [← Except.ok.inj hcode] at h
  exact .inl (List.mem_filter.mp h).1

end EvmSail.Vm
