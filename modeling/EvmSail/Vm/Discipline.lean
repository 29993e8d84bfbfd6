/-
# `EvmSail.Vm.Discipline` — what frames leave to each other

A frame works inside its row and above its base, and so does everything it
calls: rows and memory of the frames below it stay (`spans_keeps`).  So a
frame that goes on over its child is the frame that was suspended, but for
one word on its stack and the range of memory it has asked for
(`call_restores`), and the input of a child does not change under it.

The depth counts the suspended frames, and the row of a frame is its depth;
that neither the rows nor the frame stack can run out is a consequence.
-/
import EvmSail.Vm.OpcodeFailures
import EvmSail.Vm.Steps

namespace EvmSail.Vm

open Fallible Kernel Relation

/-! ## The invariant -/

/-- Where the input of a frame is: not in its own memory. -/
def CalldataSlice.Below (base : Nat) : CalldataSlice → Prop
  | .inputCalldata _ => True
  | .memoryCalldata range => range.off + range.len ≤ base

/-- The row of a frame is within its depth, its depth within the limit. -/
structure Orderly (a : Activation) : Prop where
  depth : a.frame.message.depth ≤ callDepthLimit
  row : a.state.row ≤ a.frame.message.depth
  sp : a.state.sp ≤ stackLimit
  calldata : a.frame.calldata.Below a.frame.memoryBase

/-- `b` is the frame of `a`, later on: it is the same frame, and nothing that
belongs to the frames below it has changed. -/
structure SameFrame (a b : Activation) : Prop where
  message : b.frame.message = a.frame.message
  memoryBase : b.frame.memoryBase = a.frame.memoryBase
  code : b.frame.code = a.frame.code
  calldata : b.frame.calldata = a.frame.calldata
  row : b.state.row = a.state.row
  operands : ∀ row, row < a.state.row → b.state.operands row = a.state.operands row
  memory : ∀ i, i < a.frame.memoryBase → b.state.memory i = a.state.memory i

instance : IsPreorder Activation SameFrame where
  refl _ := ⟨rfl, rfl, rfl, rfl, rfl, fun _ _ => rfl, fun _ _ => rfl⟩
  trans _ _ _ h₁ h₂ :=
    ⟨h₂.message.trans h₁.message, h₂.memoryBase.trans h₁.memoryBase, h₂.code.trans h₁.code,
      h₂.calldata.trans h₁.calldata, h₂.row.trans h₁.row,
      fun row hrow => (h₂.operands row (h₁.row ▸ hrow)).trans (h₁.operands row hrow),
      fun i hi => (h₂.memory i (h₁.memoryBase ▸ hi)).trans (h₁.memory i hi)⟩

/-- An orderly frame stays the same, and orderly. -/
def Keeps (a b : Activation) : Prop := Orderly a → SameFrame a b ∧ Orderly b

instance : IsPreorder Activation Keeps where
  refl a ha := ⟨Std.Refl.refl a, ha⟩
  trans _ _ _ h₁ h₂ ha :=
    ⟨IsTrans.trans _ _ _ (h₁ ha).1 (h₂ (h₁ ha).2).1, (h₂ (h₁ ha).2).2⟩

section

variable {ctx : Context}

theorem QuietMove.room {f : Frame} {s s' : MachineState} (h : QuietMove ctx f s s')
    (hroom : s.sp ≤ stackLimit) : s'.sp ≤ stackLimit := by
  cases h with
  | draw h =>
    cases h with
    | pop h => exact (Nat.sub_le s.sp 1).trans hroom
    | _ => exact hroom
  | push h value => exact h
  | _ => exact hroom

theorem FailingMoves.room {f : Frame} {s s' : MachineState} (h : FailingMoves ctx f s s')
    (hroom : s.sp ≤ stackLimit) : s'.sp ≤ stackLimit := by
  induction h with
  | refl => exact hroom
  | tail _ hmove ih =>
    cases hmove with
    | quiet h => exact h.room ih
    | stateCredit amount pools h => exact ih

theorem Moves.room {f : Frame} {s s' : MachineState} (h : Moves ctx f s s')
    (hroom : s.sp ≤ stackLimit) : s'.sp ≤ stackLimit := by
  induction h with
  | refl => exact hroom
  | tail _ hmove ih =>
    cases hmove with
    | quiet h => exact h.room ih
    | _ => exact ih

theorem Moves.inside {f : Frame} {s s' : MachineState} (h : Moves ctx f s s') :
    Inside f s s' := reflTransGen_inside h fun _ _ => Move.inside

theorem Executed.inside {f : Frame} {least : Nat} {s s' : MachineState} {status : FrameStatus}
    (h : Executed least ctx f s status s') :
    Inside f s s' ∧ (s.sp ≤ stackLimit → s'.sp ≤ stackLimit) := by
  cases h with
  | goesOn hmoves hspent => exact ⟨hmoves.inside, hmoves.room⟩
  | fails kind hmoves => exact ⟨hmoves.inside, hmoves.room⟩
  | ends kind hkind hmoves => exact ⟨hmoves.inside, hmoves.room⟩
  | reverts pools buffer output hmoves hpools =>
    have hinside := hmoves.moves.inside
    exact ⟨⟨hinside.row, hinside.others, hinside.below⟩, hmoves.moves.room⟩

/-- Of a frame that ends exceptionally, only the gas is touched. -/
theorem leave_inside (f : Frame) (status : FrameStatus) (s : MachineState) :
    Inside f s (leave ctx f status s) ∧ (leave ctx f status s).sp = s.sp := by
  cases status with
  | running | halted | exceptional => exact ⟨⟨rfl, fun _ _ => rfl, fun _ _ => rfl⟩, rfl⟩

theorem keeps_of_inside {a b : Activation} (hmessage : b.frame.message = a.frame.message)
    (hbase : b.frame.memoryBase = a.frame.memoryBase) (hcode : b.frame.code = a.frame.code)
    (hcalldata : b.frame.calldata = a.frame.calldata) (hinside : Inside a.frame a.state b.state)
    (hroom : a.state.sp ≤ stackLimit → b.state.sp ≤ stackLimit) : Keeps a b := fun ha =>
  ⟨⟨hmessage, hbase, hcode, hcalldata, hinside.row, fun row hrow => hinside.others row (by omega),
    hinside.below⟩,
    ⟨hmessage ▸ ha.depth, hinside.row ▸ hmessage ▸ ha.row, hroom ha.sp,
      hcalldata ▸ hbase ▸ ha.calldata⟩⟩

theorem Stayed.keeps {a b : Activation} (h : Stayed ctx a b) : Keeps a b := by
  cases h with
  | opcode status s' h =>
    obtain ⟨hleave, hsp⟩ := @leave_inside ctx a.frame status s'
    obtain ⟨hinside, hroom⟩ := h.inside
    have hfetched : Inside a.frame a.state (a.fetched ctx) :=
      ⟨rfl, fun _ _ => rfl, fun _ _ => rfl⟩
    refine keeps_of_inside rfl rfl rfl rfl
      (IsTrans.trans _ _ _ hfetched (IsTrans.trans _ _ _ hinside hleave)) fun ha => ?_
    rw [hsp]
    exact hroom ha
  | answered returndata s' h =>
    have hinside := h.inside
    exact keeps_of_inside rfl rfl rfl rfl ⟨hinside.row, hinside.others, hinside.below⟩
      fun _ => h.room

/-! ## Calls -/

/-- A child starts orderly, one row up, above all memory of its parent. -/
theorem Entered.orderly {b c : Activation} {k : FrameContinuation} {s s₁ : MachineState}
    (hb : Orderly b) (hrow : s.row = b.state.row)
    (h : Entered ctx b.frame s s₁ k c.frame c.state) :
    Orderly c ∧ c.state.row = b.state.row + 1 := by
  have hdepth := h.opens.depth
  have hlimit := h.opens.limit
  have hrow₁ : s₁.row = b.state.row := h.row.trans hrow
  have hrowDepth := hb.row
  have hdepthLimit : b.frame.message.depth < callDepthLimit :=
    lt_of_le_of_ne hb.depth hlimit
  have hchild : c.state.row = b.state.row + 1 ∧ c.state.sp = 0 := by
    obtain ⟨gas, kernel, hstate, -, -⟩ := h.begins
    rw [hstate]
    refine ⟨?_, rfl⟩
    show (if s₁.row + 1 < operandRows then s₁.row + 1 else s₁.row) = _
    rw [if_pos (by rw [operandRows]; rw [callDepthLimit] at hdepthLimit; omega), hrow₁]
  refine ⟨⟨?_, ?_, ?_, ?_⟩, hchild.1⟩
  · omega
  · omega
  · rw [hchild.2]
    exact Nat.zero_le _
  · rcases h.opens.calldata with hempty | ⟨range, hrange, hwhere⟩
    · rw [hempty]
      trivial
    · rw [hrange]
      rcases hwhere with rfl | ⟨-, hin⟩
      · exact Nat.zero_le _
      · exact hin

/-- Where the memory of a caller is not the range it has asked for. -/
def FrameContinuation.Outside (base outputLen i : Nat) : FrameContinuation → Prop
  | .resumeCall _ off len _ => i < base + off ∨ base + off + min len outputLen ≤ i
  | .resumeCreate _ _ _ => True

/-- `e` is the frame of `b`, behind a call in front of which it was in the
state `s₁`. -/
structure Restored (b : Activation) (s₁ : MachineState) (k : FrameContinuation)
    (output : OutputSlice) (e : Activation) : Prop where
  frame : e.frame = { b.frame with returndata := e.frame.returndata }
  status : e.status = .running
  pc : e.state.pc = s₁.pc
  row : e.state.row = b.state.row
  sp : e.state.sp = s₁.sp + 1
  operands : ∀ row i, row ≤ b.state.row → (row = b.state.row → i ≠ s₁.sp) →
    e.state.operands row i = b.state.operands row i
  height : e.state.memoryHeight = s₁.memoryHeight
  memory : ∀ i, i < b.frame.memoryBase + s₁.memoryHeight →
    k.Outside b.frame.memoryBase output.len i → e.state.memory i = s₁.memory i

/-- The registers that come back are those of the checkpoint. -/
theorem Returns.restored {b c d e : Activation} {k : FrameContinuation} {s s₁ : MachineState}
    {succeeds : Bool} (hrow : s.row = b.state.row) (hoperands : s.operands = b.state.operands)
    (henter : Entered ctx b.frame s s₁ k c.frame c.state) (hsame : SameFrame c d)
    (hchildRow : c.state.row = b.state.row + 1)
    (hstatus : e.status = k.checkpoint.status)
    (h : Returns ctx d.frame d.status k d.state succeeds e.frame e.state) :
    Restored b s₁ k (frameOutput d.status) e := by
  have hbase : d.frame.memoryBase = b.frame.memoryBase + s₁.memoryHeight :=
    hsame.memoryBase.trans henter.opens.memoryBase
  have hdRow : d.state.row = b.state.row + 1 := hsame.row.trans hchildRow
  -- what the child leaves to its parent is what it was given
  have hrows : ∀ row, row ≤ b.state.row → d.state.operands row = b.state.operands row := by
    intro row hle
    rw [hsame.operands row (by omega)]
    obtain ⟨gas, kernel, hstate, -, -⟩ := henter.begins
    rw [hstate]
    show s₁.operands row = _
    rw [henter.operands, hoperands]
  have hmemory : ∀ i, i < b.frame.memoryBase + s₁.memoryHeight →
      d.state.memory i = s₁.memory i := by
    intro i hi
    rw [hsame.memory i (by rw [henter.opens.memoryBase]; exact hi)]
    obtain ⟨gas, kernel, hstate, -, -⟩ := henter.begins
    rw [hstate]
    rfl
  -- whatever the gas, the refund and the host are
  have hback : ∀ (base : Nat) (memory : Nat → Byte) (pools : GasPools) (refund : Int)
      (kernel : Host) (word : Word),
      memoryParentBase d.frame.memoryBase k.checkpoint.memoryHeight = .ok base →
      k.Writes ctx base (frameOutput d.status) d.state.memory memory →
      e.frame = parentFrame k.checkpoint base (k.returndata d.status) →
      e.state = { d.state.resumed k.checkpoint memory with
        toGasPools := pools, refund := refund, kernel := kernel }.setOperand k.checkpoint.sp word →
      Restored b s₁ k (frameOutput d.status) e := by
    intro base memory pools refund kernel word hparent hwrites hframe hstate
    have hcheckpoint := henter.checkpoint
    have hpopped : (if 0 < d.state.row then d.state.row - 1 else d.state.row) = b.state.row := by
      rw [if_pos (by omega)]
      omega
    have hparentBase : base = b.frame.memoryBase := by
      rw [memoryParentBase, hcheckpoint, hbase] at hparent
      split at hparent
      · cases hparent
        exact Nat.add_sub_cancel _ _
      · cases hparent
    rw [hcheckpoint] at hframe hstate hstatus
    refine ⟨?_, hstatus, ?_, ?_, ?_, ?_, ?_, ?_⟩
    · rw [hframe, hparentBase]
      rfl
    · rw [hstate]
      rfl
    · rw [hstate]
      exact hpopped
    · rw [hstate]
      rfl
    · intro row i hle hne
      rw [hstate]
      show Function.update d.state.operands _ (Function.update _ s₁.sp word) row i = _
      rw [show ({ d.state.resumed (frameCheckpoint b.frame s₁) memory with
        toGasPools := pools, refund := refund, kernel := kernel } : MachineState).row =
          b.state.row from hpopped]
      by_cases hthis : row = b.state.row
      · subst hthis
        rw [Function.update_self, Function.update_of_ne (hne rfl)]
        show d.state.operands _ i = _
        rw [hrows _ hle]
      · rw [Function.update_of_ne hthis, hrows row hle]
    · rw [hstate]
      rfl
    · intro i hi houtside
      rw [hstate]
      show memory i = _
      rw [← hmemory i hi]
      subst hparentBase
      cases k with
      | resumeCall c off len charged => exact hwrites.2 i houtside
      | resumeCreate c address charged =>
        have hsame : memory = d.state.memory := hwrites
        rw [hsame]
  generalize hframe : e.frame = parent at h
  generalize hstate : e.state = s' at h
  cases h with
  | kept settled pools base memory refund deployed kernel word hsettled hparent hgas hstateGas
      hwrites hrefund hdeploys hcommit =>
    exact hback base memory pools refund kernel word hparent hwrites hframe hstate
  | undone settled returned pools base memory kernel hsettled hparent hgas hstateGas hwrites
      hcredit hrevert =>
    exact hback base memory pools _ kernel 0 hparent hwrites hframe hstate

/-- A call restores the frame that makes it, when its child leaves the rows
and the memory below it. -/
theorem call_restored {b c d e : Activation} {k : FrameContinuation} {s₁ : MachineState}
    (hb : Orderly b) (henter : Entered ctx b.frame (b.fetched ctx) s₁ k c.frame c.state)
    (hchild : Keeps c d) (hresume : Resumes ctx d k e) :
    Restored b s₁ k (frameOutput d.status) e := by
  obtain ⟨hc, hrow⟩ := henter.orderly (s := b.fetched ctx) hb rfl
  obtain ⟨-, hstatus, hreturns⟩ := hresume.returns
  exact hreturns.restored (s := b.fetched ctx) rfl rfl henter (hchild hc).1 hrow hstatus

theorem call_keeps {b c d e : Activation} {k : FrameContinuation} (henter : Enters ctx b k c)
    (hchild : Keeps c d) (hresume : Resumes ctx d k e) : Keeps b e := by
  intro hb
  obtain ⟨-, -, s₁, hentered⟩ := henter.entered
  have hback := call_restored hb hentered hchild hresume
  have hroom := hentered.room
  refine ⟨⟨?_, ?_, ?_, ?_, hback.row, ?_, ?_⟩, ⟨?_, ?_, ?_, ?_⟩⟩
  · rw [hback.frame]
  · rw [hback.frame]
  · rw [hback.frame]
  · rw [hback.frame]
  · intro row hlt
    funext i
    exact hback.operands row i (Nat.le_of_lt hlt) fun heq => absurd heq (Nat.ne_of_lt hlt)
  · intro i hi
    rw [hback.memory i (by omega) ?_, hentered.memory i (by omega)]
    · rfl
    · cases k with
      | resumeCall c off len charged => exact .inl (by omega)
      | resumeCreate c address charged => trivial
  · rw [hback.frame]
    exact hb.depth
  · rw [hback.frame, hback.row]
    exact hb.row
  · rw [hback.sp]
    exact hroom
  · rw [hback.frame]
    exact hb.calldata

/-- A frame leaves the frames below it alone, with everything it calls. -/
theorem spans_keeps {a b : Activation} (h : (calls ctx).Spans a b) : Keeps a b :=
  Nesting.Spans.inside (R := Keeps) (fun _ _ hstays => (Stays.stayed hstays).2.keeps)
    (fun _ _ _ _ _ henter _ hchild hresume => call_keeps henter hchild hresume) h

/-! ## Runs -/

theorem enters_orderly {b c : Activation} {k : FrameContinuation} (henter : Enters ctx b k c)
    (hb : Orderly b) : Orderly c ∧ c.state.row = b.state.row + 1 := by
  obtain ⟨-, -, s₁, hentered⟩ := henter.entered
  exact hentered.orderly (s := b.fetched ctx) hb rfl

/-- Every frame of a run is orderly. -/
theorem spine_orderly {a₀ a : Activation} {ks : List FrameContinuation} (h₀ : Orderly a₀)
    (h : (calls ctx).Spine a₀ ks a) : Orderly a :=
  Nesting.Spine.invariant (fun _ _ hspans ha => (spans_keeps hspans ha).2)
    (fun _ _ _ henter ha => (enters_orderly henter ha).1) h h₀

/-- The memory of a caller but for the range it has asked for, as far as there
was output for it. -/
def Request.Outside (r : Request) (base outputLen i : Nat) : Prop :=
  i < base + r.ret.start ∨ base + r.ret.start + min r.ret.size outputLen ≤ i

theorem Asked.outside {r : Request} {s s' : MachineState} {k : FrameContinuation}
    {base outputLen i : Nat} (h : Asked r s k s') (hi : r.Outside base outputLen i) :
    k.Outside base outputLen i := by
  cases k with
  | resumeCall c off len charged =>
    obtain ⟨hlen, hoff⟩ := h.range c off len charged rfl
    by_cases hzero : len = 0
    · -- an empty range is nowhere
      show i < base + off ∨ base + off + min len outputLen ≤ i
      rw [hzero, Nat.zero_min]
      omega
    · obtain rfl := hoff hzero
      obtain rfl := hlen
      exact hi
  | resumeCreate c address charged => trivial

/-- `e` is the frame of `b` behind the call that has asked `r` and got
`output`: its operands are gone and there is one word more, and of its memory
only the range it has named may have changed. -/
structure ComesBack (b : Activation) (r : Request) (output : OutputSlice) (e : Activation) :
    Prop where
  frame : e.frame = { b.frame with returndata := e.frame.returndata }
  status : e.status = .running
  pc : e.state.pc = b.state.pc + 1
  row : e.state.row = b.state.row
  sp : e.state.sp = b.state.sp - r.inputs + 1
  operands : ∀ row i, row ≤ b.state.row → (row = b.state.row → i ≠ b.state.sp - r.inputs) →
    e.state.operands row i = b.state.operands row i
  height : e.state.memoryHeight = max b.state.memoryHeight (operandsHeight r.args r.ret)
  memory : ∀ i, i < b.frame.memoryBase + b.state.memoryHeight →
    r.Outside b.frame.memoryBase output.len i → e.state.memory i = b.state.memory i
  fresh : ∀ i, b.frame.memoryBase + b.state.memoryHeight ≤ i →
    i < b.frame.memoryBase + e.state.memoryHeight →
    r.Outside b.frame.memoryBase output.len i → e.state.memory i = 0

theorem Restored.comesBack {b c e : Activation} {k : FrameContinuation} {s₁ : MachineState}
    {r : Request} {output : OutputSlice} (h : Restored b s₁ k output e)
    (henter : Enters ctx b k c)
    (hentered : Entered ctx b.frame (b.fetched ctx) s₁ k c.frame c.state)
    (hasked : Asked r (b.fetched ctx) k c.state) : ComesBack b r output e := by
  have hsp : s₁.sp = b.state.sp - r.inputs := by
    have hpopped := hasked.popped
    rw [hentered.checkpoint] at hpopped
    exact hpopped
  have hheight : s₁.memoryHeight = max b.state.memoryHeight (operandsHeight r.args r.ret) := by
    have hgrown := hasked.height
    rw [hentered.checkpoint] at hgrown
    exact hgrown
  refine ⟨h.frame, h.status, ?_, h.row, hsp ▸ h.sp, hsp ▸ h.operands, hheight ▸ h.height, ?_, ?_⟩
  · rw [h.pc, hentered.pc]
    exact henter.next
  · intro i hi houtside
    rw [h.memory i (by omega) (hasked.outside houtside)]
    exact hentered.memory i hi
  · intro i hge hlt houtside
    rw [h.height] at hlt
    rw [h.memory i hlt (hasked.outside houtside)]
    exact hentered.fresh i hge hlt

/-- In every run, a frame that goes on behind a call is the frame that made it:
the same message, code and input, the next instruction, its own stack with
the operands of the request gone and one word more, its own memory but for
the range that was asked for, grown to what has been asked and paid for; what
it has grown by reads as zero.  The rows and the memory of the frames below
are as they were. -/
theorem call_restores {a₀ b c d e : Activation} {k : FrameContinuation}
    {ks : List FrameContinuation} (h₀ : Orderly a₀) (hrun : (calls ctx).Steps (a₀, []) (b, ks))
    (henter : Enters ctx b k c) (hchild : (calls ctx).Spans c d) (hresume : Resumes ctx d k e) :
    ∃ r, requested (b.instruction ctx) (b.fetched ctx) = some r ∧
      Asked r (b.fetched ctx) k c.state ∧ ComesBack b r (frameOutput d.status) e ∧
      SameFrame b e := by
  have hb := spine_orderly h₀ (Nesting.steps_iff_spine.mp hrun)
  have hkeeps := spans_keeps hchild
  obtain ⟨-, -, s₁, hentered⟩ := henter.entered
  obtain ⟨r, hrequested, hasked⟩ := henter.asked
  have hrestored := call_restored hb hentered hkeeps hresume
  exact ⟨r, hrequested, hasked, hrestored.comesBack henter hentered hasked,
    (call_keeps henter hkeeps hresume hb).1⟩

/-! ## A call to look at -/

/-- The account that calls. -/
def payer : Address := 0xaa

/-- The account that is called. -/
def callee : Address := 0xcc

/-- An account that nothing runs at. -/
def bystander : Address := 0xbb

def calleeHash : Hash := hashFromBits 0xcccc

def settledAccount (balance : Word) (codeHash : Hash) : Account :=
  accountFromInfo
    { nonce := 1, balance := balance, codeHash := codeHash, storageRoot := emptyTrieRoot }

def settledAccounts : Nat → Account
  | 0xaa => settledAccount 1000 keccakEmpty
  | 0xbb => settledAccount 3 keccakEmpty
  | 0xcc => settledAccount 10 calleeHash
  | _ => emptyAccount

/-- Amsterdam over a parent state with these three accounts, in which every
account has a 5 in its slot 1. -/
def settledAmsterdam : Context :=
  { emptyAmsterdam with
    kernel :=
      { emptyAmsterdam.kernel with
        keccak256 := fun bytes => hashFromBits (natOfBytes bytes)
        statelessAccountByKey := fun _ key => .ok (settledAccounts (natOfBytes key.toList))
        statelessStorageByKey := fun _ key => .ok (if natOfBytes key.toList = 1 then 5 else 0) } }

/-- The callee jumps over an immediate that looks like a `JUMPDEST`, clears slot
1, sets slot 2, and writes a byte to its memory. -/
def calleeBytes (ending : List Byte) : List Byte :=
  [0x60, 0x05, 0x56, 0x60, 0x5b, 0x5b, 0x60, 0x00, 0x60, 0x01, 0x55, 0x60, 0x07, 0x60, 0x02, 0x55,
    0x60, 0x09, 0x60, 0x00, 0x53] ++ ending

/-- It destroys itself in favour of the bystander. -/
def destroys : List Byte := [0x60, 0xbb, 0xff]

/-- It fails. -/
def fails : List Byte := [0xfe]

def calleeHost (ending : List Byte) : Host :=
  { emptyHost with
    state :=
      { emptyHost.state with
        codes := fun hash =>
          if hash = calleeHash then some ⟨calleeBytes ending, [5]⟩ else none } }

/-- The caller writes a byte to its memory, which is the first of the input, and
calls; the words are those of its stack, the top one first. -/
def caller (opcode : Byte) (words : List Word) (ending : List Byte) : Activation :=
  { frame :=
      { plainFrame
          { bytes := [0x60, 0x07, 0x60, 0x00, 0x53, opcode, 0x60, 0x5b, 0x00]
            jumpdests := [] } with
        message := { plainMessage with address := payer, codeAddress := payer } }
    status := .running
    state :=
      { plainState 1000000 words.length with
        operands := fun _ i => words.getD (words.length - 1 - i) 0
        kernel := calleeHost ending } }

/-- A CALL with 500000 gas and 7 wei, from and to the first word of memory. -/
def paying (ending : List Byte) : Activation :=
  caller 0xf1 [500000, 0xcc, 7, 0, 32, 0, 32] ending

/-- The call that it makes behind three instructions, with those of the callee. -/
def payingCall (inside : Nat) (ending : List Byte) : Result (Option Call) :=
  anyCallAt settledAmsterdam 3 inside (paying ending)

theorem orderly_caller {opcode : Byte} {words : List Word} {ending : List Byte}
    (h : words.length ≤ stackLimit) : Orderly (caller opcode words ending) :=
  ⟨Nat.zero_le _, Nat.le_refl 0, h, trivial⟩

theorem orderly_paying (ending : List Byte) : Orderly (paying ending) :=
  orderly_caller (by decide)

/-- The callee has written to its memory, and the caller is left with one word. -/
theorem call_restores_paying : ∃ (r : Call) (q : Request),
    Enters settledAmsterdam r.before r.waits r.child ∧
      Resumes settledAmsterdam r.ended r.waits r.back ∧
      r.ended.state.memory r.child.frame.memoryBase = 9 ∧ r.back.state.memory 0 = 7 ∧
      Asked q (r.before.fetched settledAmsterdam) r.waits r.child.state ∧
      ComesBack r.before q (frameOutput r.ended.status) r.back ∧ SameFrame r.before r.back := by
  have hfound : found (payingCall 14 destroys) (fun r =>
      r.ended.state.memory r.child.frame.memoryBase = 9 ∧ r.back.state.memory 0 = 7) = true := by
    decide +kernel
  obtain ⟨r, hrun, henter, hchild, hresume, hfacts⟩ := Call.of_any hfound
  obtain ⟨hwritten, hkept⟩ := of_decide_eq_true hfacts
  obtain ⟨q, -, hasked, hback, hsame⟩ :=
    call_restores (orderly_paying destroys) hrun henter hchild hresume
  exact ⟨r, q, henter, hresume, hwritten, hkept, hasked, hback, hsame⟩

/-- The bytes of an input are what they were when the frame began, whatever
the frame and those it calls have done. -/
theorem calldata_unchanged {a₀ a : Activation} {ks : List FrameContinuation} (h₀ : Orderly a₀)
    (hrun : (calls ctx).Steps (a₀, []) (a, ks)) {b : Activation}
    (hlater : (calls ctx).Spans a b) :
    b.frame.calldata.bytes b.state = a.frame.calldata.bytes a.state := by
  have ha := spine_orderly h₀ (Nesting.steps_iff_spine.mp hrun)
  have hsame := (spans_keeps hlater ha).1
  have hbelow := ha.calldata
  rw [hsame.calldata]
  cases hcalldata : a.frame.calldata with
  | inputCalldata bytes => rfl
  | memoryCalldata range =>
    rw [hcalldata] at hbelow
    have hrange : range.off + range.len ≤ a.frame.memoryBase := hbelow
    refine List.map_congr_left fun i hi => ?_
    have hlt := List.mem_range.mp hi
    exact hsame.memory _ (by omega)

/-- The first byte of the input is the 7 that the caller has written there, and
stays so when the callee writes a 9 to its own memory. -/
theorem calldata_unchanged_paying : ∃ r : Call,
    Enters settledAmsterdam r.before r.waits r.child ∧
      (calls settledAmsterdam).Spans r.child r.ended ∧
      r.child.frame.calldata.bytes r.child.state = 7 :: List.replicate 31 0 ∧
      r.ended.state.memory r.child.frame.memoryBase = 9 ∧
      r.ended.frame.calldata.bytes r.ended.state =
        r.child.frame.calldata.bytes r.child.state := by
  have hfound : found (payingCall 14 destroys) (fun r =>
      r.child.frame.calldata.bytes r.child.state = 7 :: List.replicate 31 0 ∧
        r.ended.state.memory r.child.frame.memoryBase = 9) = true := by
    decide +kernel
  obtain ⟨r, hrun, henter, hchild, -, hfacts⟩ := Call.of_any hfound
  obtain ⟨hinput, hwritten⟩ := of_decide_eq_true hfacts
  exact ⟨r, henter, hchild, hinput, hwritten,
    calldata_unchanged (orderly_paying destroys) (hrun.tail (.enters henter)) hchild⟩

/-- The heights of the suspended frames. -/
def suspendedHeight (ks : List FrameContinuation) : Nat :=
  (ks.map fun k => k.checkpoint.memoryHeight).sum

theorem spine_counted {a₀ a : Activation} {ks : List FrameContinuation} (h₀ : Orderly a₀)
    (h : (calls ctx).Spine a₀ ks a) :
    a.frame.message.depth = a₀.frame.message.depth + ks.length ∧
      a.state.row = a₀.state.row + ks.length ∧
      a.frame.memoryBase = a₀.frame.memoryBase + suspendedHeight ks := by
  induction h with
  | bottom h =>
    have hsame := (spans_keeps h h₀).1
    exact ⟨congrArg Message.depth hsame.message, hsame.row, hsame.memoryBase⟩
  | @above ks b c a k hbelow henter h ih =>
    obtain ⟨hdepth, hrow, hbase⟩ := ih
    obtain ⟨-, -, s₁, hentered⟩ := henter.entered
    obtain ⟨hc, hcRow⟩ := enters_orderly henter (spine_orderly h₀ hbelow)
    have hsame := (spans_keeps h hc).1
    have hchildDepth := hentered.opens.depth
    have hchildBase := hentered.opens.memoryBase
    refine ⟨?_, ?_, ?_⟩
    · rw [hsame.message, hchildDepth, hdepth, List.length_cons]
      omega
    · rw [hsame.row, hcRow, hrow, List.length_cons]
      omega
    · rw [hsame.memoryBase, hchildBase, hbase, suspendedHeight, suspendedHeight, List.map_cons,
        List.sum_cons, hentered.checkpoint]
      show _ = _ + (s₁.memoryHeight + _)
      omega

/-- In every run of a first frame, the depth of a frame, its row on the host's
stacks and the number of suspended frames are the same, at most 1024, and its
memory starts where that of the frames below it ends; no stack is higher
than 1024 words.  A frame that is to be entered always finds a place on the
frame stack, and a row of its own. -/
theorem frames_counted {a₀ a : Activation} {ks : List FrameContinuation} (h₀ : Orderly a₀)
    (hdepth : a₀.frame.message.depth = 0) (hrow : a₀.state.row = 0)
    (hrun : (calls ctx).Steps (a₀, []) (a, ks)) :
    a.frame.message.depth = ks.length ∧ a.state.row = ks.length ∧
      ks.length ≤ callDepthLimit ∧ a.state.row + 1 < operandRows ∧ a.state.sp ≤ stackLimit ∧
      a.frame.memoryBase = a₀.frame.memoryBase + suspendedHeight ks ∧
      ∀ entry k child s', frameEntry ctx a.frame
          (fetch a.frame.code.bytes a.state.pc ctx.kernel.profile.fork).2 = some entry →
        entry (a.fetched ctx) = .ok (.enters k child, s') →
        ks.length < frameStackCapacity ∧ s'.row = a.state.row + 1 := by
  have hspine := Nesting.steps_iff_spine.mp hrun
  have ha := spine_orderly h₀ hspine
  obtain ⟨hdepth', hrow', hbase⟩ := spine_counted h₀ hspine
  rw [hdepth, Nat.zero_add] at hdepth'
  rw [hrow, Nat.zero_add] at hrow'
  have hlimit : ks.length ≤ callDepthLimit := hdepth' ▸ ha.depth
  have hrows : a.state.row + 1 < operandRows := by
    rw [callDepthLimit] at hlimit
    rw [operandRows]
    omega
  refine ⟨hdepth', hrow', hlimit, hrows, ha.sp, hbase, fun entry k child s' hentry hentered => ?_⟩
  obtain ⟨s₁, h₁⟩ := (frameEntry_entry hentry).entered hentered
  refine ⟨?_, ?_⟩
  · have hne := h₁.opens.limit
    rw [hdepth'] at hne
    exact lt_of_le_of_ne hlimit hne
  · obtain ⟨gas, kernel, rfl, -, -⟩ := h₁.begins
    show (if s₁.row + 1 < operandRows then s₁.row + 1 else s₁.row) = _
    have hsame : s₁.row = a.state.row := h₁.row
    rw [hsame, if_pos hrows]

theorem frames_counted_paying : ∃ r : Call,
    Enters settledAmsterdam r.before r.waits r.child ∧ r.child.frame.message.depth = 1 ∧
      r.child.state.row = 1 ∧ r.child.frame.memoryBase = 32 ∧
      r.child.frame.memoryBase = suspendedHeight [r.waits] := by
  have hfound : found (payingCall 14 destroys) (fun r => r.child.frame.memoryBase = 32) =
      true := by
    decide +kernel
  obtain ⟨r, hrun, henter, -, -, hfacts⟩ := Call.of_any hfound
  obtain ⟨hdepth, hrow, -, -, -, hbase, -⟩ :=
    frames_counted (orderly_paying destroys) rfl rfl (hrun.tail (.enters henter))
  exact ⟨r, henter, hdepth, hrow, of_decide_eq_true hfacts, hbase.trans (Nat.zero_add _)⟩

end

end EvmSail.Vm
