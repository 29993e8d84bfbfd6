/-
# `EvmSail.Evm.StateGasLedger` — the account of a frame's state gas

A frame is given some execution gas and a reservoir of state gas.  Its
history (`FrameHistory`) is what it does to its pools: execution gas that is
spent and partly given back, charges and credits of state gas, children
that are lent gas and return, and at last a revert or an exceptional halt.
Two numbers are kept along the way, the signed sum of the charges and
credits that stand, and the execution gas that went into execution.

They account for the pools exactly (`FrameHistory.used`,
`FrameHistory.regular`), and every frame of every run of the machine has
such a history (`run_ledger`).
-/
import EvmSail.Evm.ArenaBound
import EvmSail.Evm.Pools

namespace EvmSail

open Fallible

/-! ## One operation -/

/-- A charge is paid exactly when the two pools cover it. -/
theorem chargeStateGas_halts {p p' : GasPools} {amount : Nat} {halt : Bool}
    (h : chargeStateGas p amount = .ok (halt, p')) : halt = true ↔ p.gas + p.stateGas < amount := by
  simp only [chargeStateGas] at h
  split at h
  · cases h
    simp only [Bool.false_eq_true, false_iff]
    omega
  · split at h
    · cases h
      simp only [Bool.false_eq_true, false_iff]
      omega
    · split at h
      · obtain ⟨spilled, -, h⟩ := bind_eq_ok.mp h
        cases h
        simp only [Bool.false_eq_true, false_iff]
        omega
      · cases h
        simp only [true_iff]
        omega

/-- What is charged leaves the reservoir and the execution gas together, and
the spill counts what leaves the latter. -/
theorem GasPools.Charged.exact {amount : Nat} {p p' : GasPools} (h : Charged amount p p')
    (reservoir : Nat) :
    p'.gas + p'.stateGas + amount = p.gas + p.stateGas ∧
      p'.gas + p'.stateSpill = p.gas + p.stateSpill ∧
      frameStateGasUsed reservoir p'.stateGas p'.stateSpill =
        frameStateGasUsed reservoir p.stateGas p.stateSpill + amount := by
  obtain ⟨hregular, hstate⟩ := h
  simp only [GasPools.regular] at hregular
  simp only [frameStateGasUsed]
  omega

theorem chargeStateGas_paid {p p' : GasPools} {amount : Nat}
    (h : chargeStateGas p amount = .ok (false, p')) : p.Charged amount p' := by
  rcases chargeStateGas_eq_ok h with ⟨htrue, -⟩ | ⟨-, hcharged⟩
  · cases htrue
  · exact hcharged

theorem chargeStateGas_unpaid {p p' : GasPools} {amount : Nat}
    (h : chargeStateGas p amount = .ok (true, p')) : p' = p := by
  rcases chargeStateGas_eq_ok h with ⟨-, hsame⟩ | ⟨hfalse, -⟩
  · exact hsame
  · cases hfalse

/-- A child that was lent all state gas adds what it used. -/
theorem returnChildStateGas_used {p child : GasPools} {r : Nat × Nat}
    (h : returnChildStateGas 0 p.stateSpill child.stateGas child.stateSpill = .ok r)
    (reservoir : Nat) :
    frameStateGasUsed reservoir r.1 r.2 = frameStateGasUsed reservoir p.stateGas p.stateSpill +
      frameStateGasUsed p.stateGas child.stateGas child.stateSpill := by
  rw [returnChildStateGas_eq_ok h]
  simp only [frameStateGasUsed]
  omega

/-! ## Histories -/

section

variable (amsterdam : Bool)

/-- `FrameHistory amsterdam reservoir given net spent p`: a frame that was
entered with `given` gas and `reservoir` state gas has the pools `p`. -/
inductive FrameHistory : Nat → Nat → Int → Nat → GasPools → Prop
  | entered (reservoir given : Nat) :
      FrameHistory reservoir given 0 0 { gas := given, stateGas := reservoir, stateSpill := 0 }
  | execution {reservoir given spent : Nat} {net : Int} {p : GasPools} (cost : Nat) :
      FrameHistory reservoir given net spent p → cost ≤ p.gas →
      FrameHistory reservoir given net (spent + cost) { p with gas := p.gas - cost }
  | regained {reservoir given spent : Nat} {net : Int} {p : GasPools} (amount : Nat) :
      FrameHistory reservoir given net spent p → amount ≤ spent →
      FrameHistory reservoir given net (spent - amount) { p with gas := p.gas + amount }
  | charged {reservoir given spent : Nat} {net : Int} {p p' : GasPools} (amount : Nat) :
      FrameHistory reservoir given net spent p → chargeStateGas p amount = .ok (false, p') →
      FrameHistory reservoir given (net + amount) spent p'
  | unpaid {reservoir given spent : Nat} {net : Int} {p p' : GasPools} (amount : Nat) :
      FrameHistory reservoir given net spent p → chargeStateGas p amount = .ok (true, p') →
      FrameHistory reservoir given net spent p'
  | credited {reservoir given spent : Nat} {net : Int} {p p' : GasPools} (amount : Nat) :
      FrameHistory reservoir given net spent p → creditStateGasRefund p amount = .ok p' →
      FrameHistory reservoir given (net - amount) spent p'
  /-- A child is lent `lent` gas and all state gas, and returns. -/
  | returned {reservoir given spent kept lent childSpent gas : Nat} {net childNet : Int}
      {p child : GasPools} {returned : Nat × Nat} :
      FrameHistory reservoir given net spent { p with gas := kept + lent } →
      FrameHistory p.stateGas lent childNet childSpent child →
      refundGas kept child.gas = .ok gas →
      returnChildStateGas 0 p.stateSpill child.stateGas child.stateSpill = .ok returned →
      FrameHistory reservoir given (net + childNet) (spent + childSpent)
        { gas := gas, stateGas := returned.1, stateSpill := returned.2 }
  /-- An exceptional halt: from Amsterdam on the state gas is what it was. -/
  | failed {reservoir given spent : Nat} {net : Int} {p : GasPools} {f : Frame} :
      FrameHistory reservoir given net spent p → f.stateGasReservoir = reservoir →
      FrameHistory reservoir given (if amsterdam then 0 else net)
        (spent + p.gas + if amsterdam then p.stateSpill else 0)
        (exceptionalState amsterdam f p).pools
  /-- A revert from Amsterdam on: the spill is execution gas again. -/
  | reverted {reservoir given spent gas : Nat} {net : Int} {p : GasPools} :
      FrameHistory reservoir given net spent p → conservedGasAdd p.gas p.stateSpill = .ok gas →
      FrameHistory reservoir given 0 spent
        { gas := gas, stateGas := reservoir, stateSpill := 0 }

variable {amsterdam} {reservoir given spent : Nat} {net : Int} {p : GasPools}

/-- The account of a history: the state gas used is the signed sum, and the
gas the frame was given is there, spilled or spent. -/
theorem FrameHistory.account (h : FrameHistory amsterdam reservoir given net spent p) :
    frameStateGasUsed reservoir p.stateGas p.stateSpill = net ∧
      p.gas + p.stateSpill + spent = given := by
  induction h with
  | entered reservoir given => exact ⟨by simp [frameStateGasUsed], by simp⟩
  | execution cost h hcost ih =>
    obtain ⟨hused, hregular⟩ := ih
    exact ⟨hused, by simp only; omega⟩
  | regained amount h hamount ih =>
    obtain ⟨hused, hregular⟩ := ih
    exact ⟨hused, by simp only; omega⟩
  | charged amount h hcharge ih =>
    obtain ⟨hused, hregular⟩ := ih
    obtain ⟨-, hspill, hnet⟩ := (chargeStateGas_paid hcharge).exact _
    exact ⟨hnet.trans (congrArg (· + (amount : Int)) hused), by omega⟩
  | unpaid amount h hcharge ih =>
    rw [chargeStateGas_unpaid hcharge]
    exact ih
  | credited amount h hcredit ih =>
    obtain ⟨hused, hregular⟩ := ih
    obtain ⟨-, hspill, hnet⟩ := (creditStateGasRefund_eq_ok hcredit).exact _
    exact ⟨eq_sub_of_add_eq (hnet.symm.trans hused), by omega⟩
  | returned hparent hchild hgas hstate ihparent ihchild =>
    obtain ⟨hused, hregular⟩ := ihparent
    obtain ⟨hchildUsed, hchildRegular⟩ := ihchild
    constructor
    · rw [returnChildStateGas_used hstate, hused, hchildUsed]
    · rw [returnChildStateGas_eq_ok hstate, conservedGasAdd_eq_ok hgas]
      simp only at hregular ⊢
      omega
  | failed h hreservoir ih =>
    obtain ⟨hused, hregular⟩ := ih
    cases amsterdam with
    | false =>
      simp only [exceptionalState, Bool.false_eq_true, if_false]
      exact ⟨hused, by omega⟩
    | true =>
      simp only [exceptionalState, if_true, hreservoir, frameStateGasUsed]
      omega
  | reverted h hgas ih =>
    obtain ⟨hused, hregular⟩ := ih
    rw [conservedGasAdd_eq_ok hgas]
    simp only [frameStateGasUsed]
    omega

/-! ## The machine's frames -/

variable (amsterdam reservoir given)

/-- Some history of the frame ends in `p`, with `least` gas spent on
execution at least. -/
def Spending (least : Nat) (p : GasPools) : Prop :=
  ∃ net spent, least ≤ spent ∧ FrameHistory amsterdam reservoir given net spent p

variable {amsterdam reservoir given}

namespace Spending

variable {least : Nat} {q : GasPools}

theorem mono {less : Nat} (h : Spending amsterdam reservoir given least p) (hless : less ≤ least) :
    Spending amsterdam reservoir given less p := by
  obtain ⟨net, spent, hleast, hp⟩ := h
  exact ⟨net, spent, hless.trans hleast, hp⟩

theorem execution (cost : Nat) (h : Spending amsterdam reservoir given least p)
    (hcost : cost ≤ p.gas) :
    Spending amsterdam reservoir given (least + cost) { p with gas := gasSub p.gas cost } := by
  obtain ⟨net, spent, hleast, hp⟩ := h
  rw [gasSub_eq]
  exact ⟨net, spent + cost, Nat.add_le_add_right hleast cost, hp.execution cost hcost⟩

theorem regained {amount : Nat} (h : Spending amsterdam reservoir given least p)
    (hamount : amount ≤ least) :
    Spending amsterdam reservoir given (least - amount) { p with gas := p.gas + amount } := by
  obtain ⟨net, spent, hleast, hp⟩ := h
  exact ⟨net, spent - amount, by omega, hp.regained amount (hamount.trans hleast)⟩

theorem spend {cost : Nat} (h : Spending amsterdam reservoir given least p)
    (hspend : EvmSail.spend p cost = some q) :
    Spending amsterdam reservoir given (least + cost) q := by
  rw [EvmSail.spend] at hspend
  split at hspend
  · cases hspend
  · next hcost =>
    cases hspend
    exact h.execution cost (Nat.not_lt.mp hcost)

theorem spendExpansion {height requestedHeight : Nat}
    (h : Spending amsterdam reservoir given least p)
    (hspend : EvmSail.spendExpansion p height requestedHeight = some q) :
    Spending amsterdam reservoir given least q := by
  simp only [EvmSail.spendExpansion] at hspend
  split at hspend
  · next haffordable =>
    cases hspend
    obtain ⟨-, hcost, -⟩ := memoryExpansionGasCost_affordable haffordable
    exact (h.execution _ hcost).mono (Nat.le_add_right _ _)
  · cases hspend

theorem spendState {amount : Nat} (h : Spending amsterdam reservoir given least p)
    (hspend : EvmSail.spendState p amount = .ok (some q)) :
    Spending amsterdam reservoir given least q := by
  obtain ⟨net, spent, hleast, hp⟩ := h
  obtain ⟨⟨halt, p'⟩, hcharge, hspend⟩ := bind_eq_ok.mp hspend
  cases halt with
  | true => cases hspend
  | false =>
    cases hspend
    exact ⟨net + amount, spent, hleast, hp.charged amount hcharge⟩

theorem credit {amount : Nat} (h : Spending amsterdam reservoir given least p)
    (hcredit : creditStateGasRefund p amount = .ok q) :
    Spending amsterdam reservoir given least q := by
  obtain ⟨net, spent, hleast, hp⟩ := h
  exact ⟨net - amount, spent, hleast, hp.credited amount hcredit⟩

theorem chargeNewAccount {charged : Bool} (h : Spending amsterdam reservoir given least p)
    (hcharge : EvmSail.chargeNewAccount p charged = .ok (some q)) :
    Spending amsterdam reservoir given least q := by
  rw [EvmSail.chargeNewAccount] at hcharge
  split at hcharge
  · exact h.spendState hcharge
  · cases hcharge
    exact h

theorem creditNewAccount {charged : Bool} (h : Spending amsterdam reservoir given least p)
    (hcredit : EvmSail.creditNewAccount p charged = .ok q) :
    Spending amsterdam reservoir given least q := by
  rw [EvmSail.creditNewAccount] at hcredit
  split at hcredit
  · exact h.credit hcredit
  · cases hcredit
    exact h

theorem failed {f : Frame} (h : Spending amsterdam reservoir given least p)
    (hreservoir : f.stateGasReservoir = reservoir) :
    Spending amsterdam reservoir given least (exceptionalState amsterdam f p).pools := by
  obtain ⟨net, spent, hleast, hp⟩ := h
  exact ⟨_, _, by omega, hp.failed hreservoir⟩

end Spending

/-- `f` goes on where `f₀` was. -/
structure Continues (amsterdam : Bool) (f₀ f : Frame) : Prop where
  reservoir : f.stateGasReservoir = f₀.stateGasReservoir
  spending : ∀ given, Spending amsterdam f₀.stateGasReservoir given 0 f₀.pools →
    Spending amsterdam f₀.stateGasReservoir given 0 f.pools

theorem Continues.refl (f : Frame) : Continues amsterdam f f := ⟨rfl, fun _ h => h⟩

theorem exceptionalState_continues {f₀ f : Frame} (hf : Continues amsterdam f₀ f) :
    Continues amsterdam f₀ (exceptionalState amsterdam f f.pools) :=
  ⟨hf.reservoir, fun given h => (hf.spending given h).failed hf.reservoir⟩

theorem chargeGas_continues (f : Frame) (cost : Nat) :
    Continues amsterdam f (chargeGas amsterdam f cost) := by
  rw [chargeGas]
  split
  · exact exceptionalState_continues (.refl f)
  · next p hp => exact ⟨rfl, fun given h => (h.spend hp).mono (Nat.zero_le _)⟩

section

variable {capacity : Nat}

theorem accessMemory_continues {f f' : Frame} {a b : Operand}
    (h : accessMemory amsterdam capacity f a b = .ok f') : Continues amsterdam f f' := by
  rw [accessMemory] at h
  split at h
  · cases h
    exact exceptionalState_continues (.refl f)
  · next p hp =>
    obtain ⟨⟨height, first, second⟩, -, h⟩ := bind_eq_ok.mp h
    obtain ⟨_, -, h⟩ := bind_eq_ok.mp h
    obtain ⟨_, -, h⟩ := bind_eq_ok.mp h
    cases h
    exact ⟨rfl, fun given hf => hf.spendExpansion hp⟩

theorem chargeState_continues {f f' : Frame} {amount : Nat}
    (h : chargeState amsterdam f amount = .ok f') : Continues amsterdam f f' := by
  obtain ⟨r, hr, h⟩ := bind_eq_ok.mp h
  cases r with
  | none =>
    cases h
    exact exceptionalState_continues (.refl f)
  | some p =>
    cases h
    exact ⟨rfl, fun given hf => hf.spendState hr⟩

theorem creditState_continues {f f' : Frame} {amount : Nat}
    (h : creditState f amount = .ok f') : Continues amsterdam f f' := by
  obtain ⟨p, hp, h⟩ := bind_eq_ok.mp h
  cases h
  exact ⟨rfl, fun given hf => hf.credit hp⟩

theorem executeReturn_continues {f f' : Frame} {output : Operand}
    (h : executeReturn amsterdam capacity f output = .ok f') : Continues amsterdam f f' := by
  obtain ⟨g, hg, h⟩ := bind_eq_ok.mp h
  have hcontinues := accessMemory_continues hg
  split at h
  · cases h
    exact hcontinues
  · cases h
    exact ⟨hcontinues.reservoir, hcontinues.spending⟩

theorem executeRevert_continues {f f' : Frame} {output : Operand}
    (h : executeRevert amsterdam capacity f output = .ok f') : Continues amsterdam f f' := by
  obtain ⟨g, hg, h⟩ := bind_eq_ok.mp h
  have hcontinues := accessMemory_continues hg
  split at h
  · cases h
    exact hcontinues
  · split at h
    · next hamsterdam =>
      obtain ⟨gas, hgas, h⟩ := bind_eq_ok.mp h
      cases h
      refine ⟨hcontinues.reservoir, fun given hf => ?_⟩
      obtain ⟨net, spent, hleast, hp⟩ := hcontinues.spending given hf
      rw [hcontinues.reservoir]
      exact ⟨0, spent, hleast, hp.reverted hgas⟩
    · cases h
      exact ⟨hcontinues.reservoir, hcontinues.spending⟩

/-! ## Frames under frames -/

/-- `Enclosed amsterdam reservoir₀ given₀ suspended reservoir given`: under an
outermost frame that was given `given₀` and `reservoir₀`, the active frame
was given `given` and `reservoir`, lent by the suspended frame above it. -/
inductive Enclosed (amsterdam : Bool) (reservoir₀ given₀ : Nat) :
    List FrameCheckpoint → Nat → Nat → Prop
  | outermost : Enclosed amsterdam reservoir₀ given₀ [] reservoir₀ given₀
  | nested {suspended : List FrameCheckpoint} {given lent : Nat} {checkpoint : FrameCheckpoint}
      {p : GasPools} :
      Enclosed amsterdam reservoir₀ given₀ suspended checkpoint.stateGasReservoir given →
      Spending amsterdam checkpoint.stateGasReservoir given 0 { p with gas := p.gas + lent } →
      checkpoint.pools = { p with stateGas := 0 } →
      Enclosed amsterdam reservoir₀ given₀ (checkpoint :: suspended) p.stateGas lent

/-- Every frame of the machine has a history. -/
def Ledger (amsterdam : Bool) (reservoir₀ given₀ : Nat) (m : Machine) : Prop :=
  ∃ given, Enclosed amsterdam reservoir₀ given₀ m.suspended m.frame.stateGasReservoir given ∧
    Spending amsterdam m.frame.stateGasReservoir given 0 m.frame.pools

variable {reservoir₀ given₀ : Nat} {m m' : Machine}

theorem Ledger.with_frame (h : Ledger amsterdam reservoir₀ given₀ m) {f : Frame}
    (hf : Continues amsterdam m.frame f) :
    Ledger amsterdam reservoir₀ given₀ { m with frame := f } := by
  obtain ⟨given, henclosed, hspending⟩ := h
  refine ⟨given, ?_, ?_⟩
  · simp only [hf.reservoir]
    exact henclosed
  · simp only [hf.reservoir]
    exact hf.spending given hspending

/-- A parent whose gas would be whole again with what it lends. -/
theorem enterFrame_ledger {parent : Frame} {suspended : List FrameCheckpoint} {awaits : Awaits}
    {newAccountCharged : Bool} {childGas : Nat}
    (h : enterFrame parent suspended awaits newAccountCharged childGas = .ok m')
    (henclosed : Enclosed amsterdam reservoir₀ given₀ suspended parent.stateGasReservoir given)
    (hspending : Spending amsterdam parent.stateGasReservoir given 0
      { parent.pools with gas := parent.pools.gas + childGas }) :
    Ledger amsterdam reservoir₀ given₀ m' := by
  obtain ⟨childMemoryBase, -, h⟩ := bind_eq_ok.mp h
  cases h
  exact ⟨childGas, .nested henclosed hspending rfl, 0, 0, Nat.le_refl 0, .entered _ _⟩

/-! ## Calls -/

theorem callStipend_le (amsterdam : Bool) (valueNonzero : Bool) (target : Nat) :
    (if valueNonzero then callStipend else 0) ≤
      target + if valueNonzero then callValueCost amsterdam else 0 := by
  cases valueNonzero
  · exact Nat.zero_le _
  · refine le_trans ?_ (Nat.le_add_left _ _)
    cases amsterdam <;> decide

/-- The charges of a call include the stipend. -/
theorem callCharges_spending {f : Frame} {c : CallOperands} {q : GasPools}
    (hf : Spending amsterdam reservoir given 0 f.pools)
    (h : callCharges amsterdam f c = .ok (some q)) :
    Spending amsterdam reservoir given (if c.valueNonzero then callStipend else 0) q := by
  simp only [callCharges] at h
  cases hexpansion : spendExpansion f.pools f.memoryHeight (operandsHeight c.args c.ret) with
  | none =>
    simp only [hexpansion] at h
    cases h
  | some p₁ =>
    simp only [hexpansion] at h
    have h₁ := hf.spendExpansion hexpansion
    cases hfee : spend p₁ (accountCost amsterdam c.warm +
        (if c.valueNonzero then callValueCost amsterdam else 0)) with
    | none =>
      simp only [hfee] at h
      cases h
    | some p₂ =>
      simp only [hfee] at h
      have h₂ := (h₁.spend hfee).mono
        ((callStipend_le amsterdam c.valueNonzero _).trans (Nat.le_add_left _ 0))
      split at h
      · cases h
      · next p₃ hadditional =>
        exact ((h₂.spend hadditional).mono (Nat.le_add_right _ _)).chargeNewAccount h

theorem runCall_ledger {c : CallOperands} (hm : Ledger amsterdam reservoir₀ given₀ m)
    (h : runCall amsterdam capacity m c = .ok m') : Ledger amsterdam reservoir₀ given₀ m' := by
  obtain ⟨r, hcharges, h⟩ := bind_eq_ok.mp h
  cases r with
  | none =>
    cases h
    exact hm.with_frame (exceptionalState_continues (.refl m.frame))
  | some p =>
    dsimp only at h
    have hp : ∀ given, Spending amsterdam m.frame.stateGasReservoir given 0 m.frame.pools →
        Spending amsterdam m.frame.stateGasReservoir given
          (if c.valueNonzero then callStipend else 0) p :=
      fun given hf => callCharges_spending hf hcharges
    generalize (if c.valueNonzero then callStipend else 0) = stipend at h hp
    split at h
    · cases h
      exact hm.with_frame ⟨rfl, fun given hf => ((hp given hf).mono (Nat.zero_le _)).failed rfl⟩
    · next q hq =>
      -- what is lent can be given back, the stipend included
      have hlent : ∀ given, Spending amsterdam m.frame.stateGasReservoir given 0 m.frame.pools →
          Spending amsterdam m.frame.stateGasReservoir given
            (stipend + callGasCapWord p.gas c.gasRequest) q :=
        fun given hf => (hp given hf).spend hq
      obtain ⟨⟨height, args, ret⟩, -, h⟩ := bind_eq_ok.mp h
      obtain ⟨childGas, hchild, h⟩ := bind_eq_ok.mp h
      have hchildGas := conservedGasAdd_eq_ok hchild
      have hback : ∀ given amount, amount ≤ childGas →
          Spending amsterdam m.frame.stateGasReservoir given 0 m.frame.pools →
          Spending amsterdam m.frame.stateGasReservoir given 0
            { q with gas := q.gas + amount } := fun given amount hamount hf =>
        ((hlent given hf).regained (by omega)).mono (Nat.zero_le _)
      dsimp only at h
      split at h
      · obtain ⟨gas, hgas, h⟩ := bind_eq_ok.mp h
        obtain ⟨p', hcredit, h⟩ := bind_eq_ok.mp h
        cases h
        refine hm.with_frame ⟨rfl, fun given hf => ?_⟩
        rw [conservedGasAdd_eq_ok hgas] at hcredit
        exact (hback given childGas (Nat.le_refl _) hf).creditNewAccount hcredit
      · cases hcallee : c.callee with
        | precompile cost succeeds outputLen =>
          simp only [hcallee] at h
          obtain ⟨_, -, h⟩ := bind_eq_ok.mp h
          split at h
          · obtain ⟨destination, -, h⟩ := bind_eq_ok.mp h
            obtain ⟨_, -, h⟩ := bind_eq_ok.mp h
            obtain ⟨gas, hgas, h⟩ := bind_eq_ok.mp h
            cases h
            refine hm.with_frame ⟨rfl, fun given hf => ?_⟩
            rw [conservedGasAdd_eq_ok hgas, gasSub_eq]
            exact hback given (childGas - cost) (Nat.sub_le _ _) hf
          · obtain ⟨p', hcredit, h⟩ := bind_eq_ok.mp h
            cases h
            refine hm.with_frame ⟨rfl, fun given hf => ?_⟩
            exact ((hlent given hf).mono (Nat.zero_le _)).creditNewAccount hcredit
        | code =>
          simp only [hcallee] at h
          obtain ⟨_, -, h⟩ := bind_eq_ok.mp h
          obtain ⟨given, henclosed, hspending⟩ := hm
          exact enterFrame_ledger h henclosed (hback given childGas (Nat.le_refl _) hspending)

/-! ## Creations -/

theorem createCharges_spending {c : CreateOperands} {q : GasPools}
    (hp : Spending amsterdam reservoir given 0 p) (h : createCharges amsterdam p c = some q) :
    Spending amsterdam reservoir given 0 q := by
  simp only [createCharges, Option.bind_eq_bind, Option.bind_eq_some_iff] at h
  obtain ⟨p₁, h₁, p₂, h₂, p₃, h₃, h⟩ := h
  split at h
  · cases h
    exact (((hp.spend h₁).spend h₂).spend h₃).mono (Nat.zero_le _)
  · cases h

/-- What is kept and what is lent make up the gas. -/
theorem lendCreateGas_eq (p : GasPools) :
    (lendCreateGas p).1 = { p with gas := gasSub p.gas (lendCreateGas p).2 } ∧
      (lendCreateGas p).2 ≤ p.gas ∧ (lendCreateGas p).1.gas + (lendCreateGas p).2 = p.gas := by
  have hle : p.gas / 64 ≤ p.gas := Nat.div_le_self p.gas 64
  simp only [lendCreateGas, gasSub_eq, Nat.sub_sub_self hle]
  exact ⟨trivial, Nat.sub_le _ _, by omega⟩

theorem runCreate_ledger {c : CreateOperands} (hm : Ledger amsterdam reservoir₀ given₀ m)
    (h : runCreate amsterdam capacity m c = .ok m') : Ledger amsterdam reservoir₀ given₀ m' := by
  simp only [runCreate] at h
  split at h
  · cases h
    exact hm.with_frame (exceptionalState_continues (.refl m.frame))
  · next p hp =>
    obtain ⟨⟨height, initcode, unused⟩, -, h⟩ := bind_eq_ok.mp h
    dsimp only at h
    split at h
    · cases h
      exact hm.with_frame ⟨rfl, fun given hf => (hf.spendExpansion hp).failed rfl⟩
    · next p₁ hp₁ =>
      have hcharged : ∀ given,
          Spending amsterdam m.frame.stateGasReservoir given 0 m.frame.pools →
          Spending amsterdam m.frame.stateGasReservoir given 0 p₁ := fun given hf =>
        createCharges_spending (hf.spendExpansion hp) hp₁
      obtain ⟨_, -, h⟩ := bind_eq_ok.mp h
      split at h
      · split at h
        · cases h
          exact hm.with_frame ⟨rfl, hcharged⟩
        · obtain ⟨gas, hgas, h⟩ := bind_eq_ok.mp h
          cases h
          refine hm.with_frame ⟨rfl, fun given hf => ?_⟩
          obtain ⟨hkept, -, hwhole⟩ := lendCreateGas_eq p₁
          rw [conservedGasAdd_eq_ok hgas, hwhole, hkept]
          exact hcharged given hf
      · obtain ⟨r, hr, h⟩ := bind_eq_ok.mp h
        cases r with
        | none =>
          cases h
          exact hm.with_frame ⟨rfl, fun given hf => (hcharged given hf).failed rfl⟩
        | some p₂ =>
          have hpaid : ∀ given,
              Spending amsterdam m.frame.stateGasReservoir given 0 m.frame.pools →
              Spending amsterdam m.frame.stateGasReservoir given 0 p₂ := fun given hf =>
            (hcharged given hf).chargeNewAccount hr
          obtain ⟨hkept, hle, hwhole⟩ := lendCreateGas_eq p₂
          dsimp only at h
          split at h
          · obtain ⟨p₃, hcredit, h⟩ := bind_eq_ok.mp h
            cases h
            refine hm.with_frame ⟨rfl, fun given hf => ?_⟩
            rw [hkept] at hcredit
            exact (((hpaid given hf).execution _ hle).mono (Nat.zero_le _)).creditNewAccount hcredit
          · obtain ⟨given, henclosed, hspending⟩ := hm
            refine enterFrame_ledger h henclosed ?_
            dsimp only
            rw [hwhole, hkept]
            exact hpaid given hspending

/-! ## Returns -/

theorem settleCreate_continues {child child' : Frame} {d : Deployment}
    (h : settleCreate amsterdam child d = .ok child') : Continues amsterdam child child' := by
  rw [settleCreate] at h
  split at h
  · split at h
    · cases h
      exact exceptionalState_continues (.refl child)
    · split at h
      · next p hp =>
        obtain ⟨r, hr, h⟩ := bind_eq_ok.mp h
        have hspent : ∀ given, Spending amsterdam child.stateGasReservoir given 0 child.pools →
            Spending amsterdam child.stateGasReservoir given 0 p := fun given hf =>
          (hf.spend hp).mono (Nat.zero_le _)
        cases r with
        | none =>
          cases h
          exact ⟨rfl, fun given hf => (hspent given hf).failed rfl⟩
        | some q =>
          cases h
          exact ⟨rfl, fun given hf => (hspent given hf).spendState hr⟩
      · split at h
        · cases h
          exact exceptionalState_continues (.refl child)
        · cases h
          refine ⟨rfl, fun given hf => ?_⟩
          have hall := (hf.execution child.pools.gas (Nat.le_refl _)).mono (Nat.zero_le _)
          rw [gasSub_eq, Nat.sub_self] at hall
          exact hall
  · cases h
    exact .refl child

theorem settleChild_continues {child child' : Frame} {awaits : Awaits} {d : Deployment}
    (h : settleChild amsterdam child awaits d = .ok child') : Continues amsterdam child child' := by
  cases awaits with
  | call returnOffset returnLength =>
    cases h
    exact .refl child
  | create => exact settleCreate_continues h

theorem resumeFrame_ledger {d : Deployment} (hm : Ledger amsterdam reservoir₀ given₀ m)
    (h : resumeFrame amsterdam capacity m d = .ok m') : Ledger amsterdam reservoir₀ given₀ m' := by
  obtain ⟨given, henclosed, hspending⟩ := hm
  rw [resumeFrame] at h
  cases hsuspended : m.suspended with
  | nil =>
    simp only [hsuspended] at h
    cases h
    exact ⟨given, henclosed, hspending⟩
  | cons checkpoint suspended =>
    simp only [hsuspended] at h
    rw [hsuspended] at henclosed
    obtain ⟨child, hchild, h⟩ := bind_eq_ok.mp h
    obtain ⟨parentMemoryBase, -, h⟩ := bind_eq_ok.mp h
    obtain ⟨gas, hgas, h⟩ := bind_eq_ok.mp h
    obtain ⟨returned, hreturned, h⟩ := bind_eq_ok.mp h
    obtain ⟨_, -, h⟩ := bind_eq_ok.mp h
    obtain ⟨pools, hcredit, h⟩ := bind_eq_ok.mp h
    cases h
    have hsettled := (settleChild_continues hchild).spending given hspending
    generalize m.frame.stateGasReservoir = reservoir at henclosed hsettled
    cases henclosed with
    | @nested _ parentGiven lent _ p hparents hparent hpools =>
      obtain ⟨net, spent, -, hhistory⟩ := hparent
      obtain ⟨childNet, childSpent, -, hchildHistory⟩ := hsettled
      rw [hpools] at hgas hreturned
      refine ⟨parentGiven, hparents, ?_⟩
      have hback : Spending amsterdam checkpoint.stateGasReservoir parentGiven 0
          { gas := gas, stateGas := returned.1, stateSpill := returned.2 } :=
        ⟨net + childNet, spent + childSpent, Nat.zero_le _,
          .returned hhistory hchildHistory hgas hreturned⟩
      exact hback.creditNewAccount hcredit

/-! ## Runs -/

theorem step_ledger {e : Effect} (hm : Ledger amsterdam reservoir₀ given₀ m)
    (h : step amsterdam capacity m e = .ok m') : Ledger amsterdam reservoir₀ given₀ m' := by
  simp only [step] at h
  split at h
  · cases e with
    | charge cost =>
      cases h
      exact hm.with_frame (chargeGas_continues m.frame cost)
    | memory a b =>
      obtain ⟨f, hf, h⟩ := bind_eq_ok.mp h
      cases h
      exact hm.with_frame (accessMemory_continues hf)
    | stateCharge amount =>
      obtain ⟨f, hf, h⟩ := bind_eq_ok.mp h
      cases h
      exact hm.with_frame (chargeState_continues hf)
    | stateCredit amount =>
      obtain ⟨f, hf, h⟩ := bind_eq_ok.mp h
      cases h
      exact hm.with_frame (creditState_continues hf)
    | call c => exact runCall_ledger hm h
    | create c => exact runCreate_ledger hm h
    | fail =>
      cases h
      exact hm.with_frame (exceptionalState_continues (.refl m.frame))
    | stop output =>
      obtain ⟨f, hf, h⟩ := bind_eq_ok.mp h
      cases h
      exact hm.with_frame (executeReturn_continues hf)
    | revert output =>
      obtain ⟨f, hf, h⟩ := bind_eq_ok.mp h
      cases h
      exact hm.with_frame (executeRevert_continues hf)
    | resume d =>
      cases h
      exact hm
  · cases e with
    | resume d => exact resumeFrame_ledger hm h
    | charge | memory | stateCharge | stateCredit | call | create | fail | stop | revert =>
      cases h
      exact hm

theorem run_ledger {es : List Effect} (hm : Ledger amsterdam reservoir₀ given₀ m)
    (h : run amsterdam capacity m es = .ok m') : Ledger amsterdam reservoir₀ given₀ m' := by
  induction es generalizing m with
  | nil =>
    cases h
    exact hm
  | cons e es ih =>
    obtain ⟨m₁, hstep, h⟩ := bind_eq_ok.mp h
    exact ih (step_ledger hm hstep) h

end

/-- A transaction's outermost frame starts with nothing spilled. -/
theorem startMachine_ledger (hspill : p.stateSpill = 0) :
    Ledger amsterdam p.stateGas p.gas (startMachine p) := by
  refine ⟨p.gas, .outermost, 0, 0, Nat.le_refl 0, ?_⟩
  have hentered : p = { gas := p.gas, stateGas := p.stateGas, stateSpill := 0 } := by
    rw [← hspill]
  show FrameHistory amsterdam p.stateGas p.gas 0 0 p
  rw [hentered]
  exact .entered _ _

end

/-- State gas is accounted for.  A charge that is paid and a credit change
the two pools, the spill and the state gas used by exactly their amount; a
charge that is not paid is more than the pools hold and changes nothing; a
child adds what it used.  So in every history of a frame the state gas used
is the signed sum, and the spill is gas the frame was given and no longer
has; every frame of every run has such a history. -/
theorem stateGas_additive (amsterdam : Bool) (capacity : Nat) :
    (∀ p p' amount reservoir, chargeStateGas p amount = .ok (false, p') →
      p'.gas + p'.stateGas + amount = p.gas + p.stateGas ∧
      p'.gas + p'.stateSpill = p.gas + p.stateSpill ∧
      frameStateGasUsed reservoir p'.stateGas p'.stateSpill =
        frameStateGasUsed reservoir p.stateGas p.stateSpill + amount) ∧
    (∀ p p' amount, chargeStateGas p amount = .ok (true, p') →
      p.gas + p.stateGas < amount ∧ p' = p) ∧
    (∀ p p' amount reservoir, creditStateGasRefund p amount = .ok p' →
      p'.gas + p'.stateGas = p.gas + p.stateGas + amount ∧
      p'.gas + p'.stateSpill = p.gas + p.stateSpill ∧
      frameStateGasUsed reservoir p'.stateGas p'.stateSpill =
        frameStateGasUsed reservoir p.stateGas p.stateSpill - amount) ∧
    (∀ (p child : GasPools) returned reservoir,
      returnChildStateGas 0 p.stateSpill child.stateGas child.stateSpill = .ok returned →
      frameStateGasUsed reservoir returned.1 returned.2 =
        frameStateGasUsed reservoir p.stateGas p.stateSpill +
          frameStateGasUsed p.stateGas child.stateGas child.stateSpill) ∧
    (∀ reservoir given net spent p, FrameHistory amsterdam reservoir given net spent p →
      frameStateGasUsed reservoir p.stateGas p.stateSpill = net ∧
      p.gas + p.stateSpill + spent = given ∧ p.stateSpill ≤ given - p.gas) ∧
    (∀ p es m, p.stateSpill = 0 → run amsterdam capacity (startMachine p) es = .ok m →
      Ledger amsterdam p.stateGas p.gas m) := by
  refine ⟨?_, ?_, ?_, ?_, ?_, ?_⟩
  · intro p p' amount reservoir h
    exact (chargeStateGas_paid h).exact reservoir
  · intro p p' amount h
    exact ⟨(chargeStateGas_halts h).mp rfl, chargeStateGas_unpaid h⟩
  · intro p p' amount reservoir h
    obtain ⟨hsum, hspill, hused⟩ := (creditStateGasRefund_eq_ok h).exact reservoir
    exact ⟨hsum.symm, hspill.symm, eq_sub_of_add_eq hused.symm⟩
  · intro p child returned reservoir h
    exact returnChildStateGas_used h reservoir
  · intro reservoir given net spent p h
    obtain ⟨hused, hregular⟩ := h.account
    exact ⟨hused, hregular, by omega⟩
  · intro p es m hspill h
    exact run_ledger (startMachine_ledger hspill) h

/-- A charge that spills and a credit of part of it. -/
theorem stateGas_additive_spilled :
    frameStateGasUsed 100 0 50 = frameStateGasUsed 100 100 0 + 150 ∧
    ∃ m, run true 4096 (startMachine ⟨1000, 100, 0⟩) [.stateCharge 150, .stateCredit 60] = .ok m ∧
      m.frame.pools.stateGas = 10 ∧ Ledger true 100 1000 m := by
  obtain ⟨hcharge, -, -, -, -, hrun⟩ := stateGas_additive true 4096
  obtain ⟨m, hm, hpool⟩ : ∃ m,
      run true 4096 (startMachine ⟨1000, 100, 0⟩) [.stateCharge 150, .stateCredit 60] = .ok m ∧
        m.frame.pools.stateGas = 10 := ⟨_, rfl, rfl⟩
  exact ⟨(hcharge ⟨1000, 100, 0⟩ ⟨950, 0, 50⟩ 150 100 rfl).2.2, m, hm, hpool,
    hrun ⟨1000, 100, 0⟩ _ m rfl hm⟩

end EvmSail
