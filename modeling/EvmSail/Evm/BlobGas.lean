/-
# `EvmSail.Evm.BlobGas` — the excess blob gas of a chain of blocks

The header field `excess_blob_gas` and the price that it sets: the integer
exponential at a word boundary, the price under a fork's schedule, the
field that a child of a header must carry, and the part of a block's
execution that reads them, which is what each transaction is charged for
its blobs and how much blob gas the block uses.

Every sum and product here is exact; a value that leaves its range is
rejected, not truncated.
-/
import EvmSail.Primitives.Profile

namespace EvmSail

open Fallible

def wordModulus : Nat := 2 ^ 256

/-! ## The price of blob gas -/

/-- The variables of the loop of `fake_exponential_word`. -/
structure FakeExponentialState where
  termIndex : Nat
  output : Nat
  numeratorAccum : Nat

/-- One round: the current accumulator is added and the next one computed. -/
def fakeExponentialRound (scaledLimit denominator numerator : Nat) (s : FakeExponentialState) :
    Result FakeExponentialState :=
  if scaledLimit ≤ s.numeratorAccum then fatalError .numericOverflow
  else
    let nextOutput := s.output + s.numeratorAccum
    if scaledLimit ≤ nextOutput then fatalError .numericOverflow
    else if s.termIndex < scaledLimit then
      .ok
        { termIndex := s.termIndex + 1
          output := nextOutput
          numeratorAccum := s.numeratorAccum * numerator / (denominator * s.termIndex) }
    else fatalError .numericOverflow

/-- A round that returns has added an accumulator below the limit. -/
theorem fakeExponentialRound_ok {limit d n : Nat} {s s' : FakeExponentialState}
    (h : fakeExponentialRound limit d n s = .ok s') :
    s.output + s.numeratorAccum < limit ∧ s.termIndex < limit ∧
      s' = ⟨s.termIndex + 1, s.output + s.numeratorAccum,
        s.numeratorAccum * n / (d * s.termIndex)⟩ := by
  unfold fakeExponentialRound at h
  rcases Nat.lt_or_ge s.numeratorAccum limit with haccum | haccum
  · rw [if_neg (Nat.not_le_of_lt haccum)] at h
    rcases Nat.lt_or_ge (s.output + s.numeratorAccum) limit with hsum | hsum
    · rw [if_neg (Nat.not_le_of_lt hsum)] at h
      split at h
      · rename_i hindex
        exact ⟨hsum, hindex, (Except.ok.inj h).symm⟩
      · cases h
    · rw [if_pos hsum] at h
      cases h
  · rw [if_pos haccum] at h
    cases h

/-- `while numerator_accum > 0`, measured by how far the sum is from the
limit. -/
def fakeExponentialLoop (scaledLimit denominator numerator : Nat) :
    FakeExponentialState → Result FakeExponentialState :=
  loop (fun s => decide (0 < s.numeratorAccum))
    (fakeExponentialRound scaledLimit denominator numerator)
    (fun s => scaledLimit - s.output)
    (by
      intro s s' hpos hround
      obtain ⟨hlt, -, rfl⟩ := fakeExponentialRound_ok hround
      have hterm : 0 < s.numeratorAccum := of_decide_eq_true hpos
      show scaledLimit - (s.output + s.numeratorAccum) < scaledLimit - s.output
      omega)

/-- The exponential, if it fits a word. -/
def fakeExponentialWord (schedule : BlobSchedule) (numerator : Nat) : Result Nat := do
  let denominator := schedule.baseFeeUpdateFraction
  let scaledLimit := denominator * wordModulus
  let s ← fakeExponentialLoop scaledLimit denominator numerator ⟨1, 0, denominator⟩
  let price := s.output / denominator
  if price < wordModulus then .ok price else fatalError .numericOverflow

def blobBaseFee (fork : Fork) (schedule : BlobSchedule) (limit excessBlobGas : Nat) :
    Result Nat :=
  if .cancun ≤ fork ∧ excessBlobGas ≤ limit then fakeExponentialWord schedule excessBlobGas
  else fatalError .invalidConfig

/-- The price under a profile. -/
def ProtocolProfile.blobPrice (profile : ProtocolProfile) (excessBlobGas : Nat) : Result Nat :=
  blobBaseFee profile.fork profile.blobSchedule profile.excessBlobGasLimit excessBlobGas

/-! ## The excess of the next header -/

def nextExcessBlobGas (profile : ProtocolProfile)
    (parentExcessBlobGas parentBlobGasUsed parentBaseFeePerGas : Nat) : Result Nat :=
  let parentBlobGas := parentExcessBlobGas + parentBlobGasUsed
  let targetBlobGas := gasPerBlob * profile.blobSchedule.target
  if parentBlobGas < targetBlobGas then .ok 0
  else do
    let parentBlobBaseFee ← profile.blobPrice parentExcessBlobGas
    if .osaka ≤ profile.fork ∧ 16 * parentBlobBaseFee < parentBaseFeePerGas then
      let maximum := profile.blobSchedule.max
      if maximum = 0 then fatalError .invalidConfig
      else
        let share := parentBlobGasUsed * (maximum - profile.blobSchedule.target) / maximum
        let next := parentExcessBlobGas + share
        if next ≤ profile.excessBlobGasLimit then .ok next else fatalError .invalidConfig
    else
      let next := parentBlobGas - targetBlobGas
      if next ≤ profile.excessBlobGasLimit then .ok next else fatalError .invalidConfig

/-! ## The blobs of a block -/

/-- What the charge for a transaction reads of it. -/
structure BlobTransaction where
  blobCount : Nat
  maxFee : Nat
  gasLimit : Nat
  value : Nat
  maxBlobFee : Nat

def transactionUpfrontCost (maxFee gasLimit value maxBlobFee blobGas : Nat) : Nat :=
  maxFee * gasLimit + value + maxBlobFee * blobGas

/-- The blob fee and the upfront debit of `transaction_costs`. -/
def transactionCosts (profile : ProtocolProfile) (excessBlobGas : Nat) (tx : BlobTransaction) :
    Result (Nat × Nat) := do
  let blobGas := gasPerBlob * tx.blobCount
  let blobFee ←
    (if blobGas = 0 then .ok 0
     else do
       let blobPrice ← profile.blobPrice excessBlobGas
       if blobPrice ≤ tx.maxBlobFee then .ok (blobPrice * blobGas)
       else fatalError .executionInvalid : Result Nat)
  let upfront := transactionUpfrontCost tx.maxFee tx.gasLimit tx.value tx.maxBlobFee blobGas
  if blobFee < wordModulus ∧ upfront < wordModulus then .ok (blobFee, upfront)
  else fatalError .executionInvalid

/-- The blob gas of one more transaction, under the schedule's maximum. -/
def blockBlobGasAdd (maximumCount accumulated transaction : Nat) : Result Nat :=
  let maximum := gasPerBlob * maximumCount
  if accumulated ≤ maximum ∧ transaction ≤ maximum - accumulated then
    .ok (accumulated + transaction)
  else fatalError .blobGasLimitExceeded

/-- One round of the block's transaction loop. -/
def blobGasRound (profile : ProtocolProfile) (excessBlobGas acc : Nat) (tx : BlobTransaction) :
    Result Nat := do
  let next ←
    (if profile.fork < .cancun then .ok acc
     else blockBlobGasAdd profile.blobSchedule.max acc (gasPerBlob * tx.blobCount) : Result Nat)
  let _ ← transactionCosts profile excessBlobGas tx
  .ok next

/-- The blob gas that a block's transactions use. -/
def blockBlobGasUsed (profile : ProtocolProfile) (excessBlobGas : Nat)
    (transactions : List BlobTransaction) : Result Nat :=
  transactions.foldlM (blobGasRound profile excessBlobGas) 0

end EvmSail
