/-
# `EvmSail.Optimised.TransactionCosts` — prices in words and over the integers

The canonical `transaction_costs` forms the blob fee and the upfront debit
as naturals and narrows them at the end.  The optimised one works on words:
a product is admitted when the first factor is at most the largest word
divided by the second, a sum when one summand is at most what the other
leaves of the largest word.  Each of these tests says that the value over
the integers fits a word (`validatedWordProduct_eq`, `wordSum_eq`), and
with that the two functions are one, down to the error they stop with.
-/
import EvmSail.Evm.AluSound
import EvmSail.Tx.Validity

namespace EvmSail

open Fallible

/-- The intrinsic, blob and upfront costs of a transaction. -/
structure TransactionCosts where
  intrinsicExecution : Nat
  intrinsicState : Nat
  calldataFloor : Nat
  blobGas : Nat
  blobFee : Word
  upfront : Word
  deriving DecidableEq, Repr

/-- `prague_blob_max_count`, the most blobs of any schedule. -/
def pragueBlobMaxCount : Nat := 9

/-- `protocol_word`. -/
def protocolWord (value : Nat) : Word := BitVec.ofNat 256 value

/-! ## The canonical costs -/

namespace Exact

def validatedWordProduct (value factor : Word) : Result Word :=
  let product := value.toNat * factor.toNat
  if product < wordModulus then .ok (protocolWord product) else fatalError .executionInvalid

def transactionBlobFee (blobPrice blobGas : Nat) : Nat := blobPrice * blobGas

/-- `executing` is the profile of the kernel, which the intrinsic charges read. -/
def transactionCosts (executing profile : ProtocolProfile) (tx : TransactionFields)
    (gasLimit excessBlobGas : Nat) : Result TransactionCosts := do
  let intrinsic ← intrinsicGas executing tx
  let blobGas := gasPerBlob * tx.blobHashes.count
  let blobFeeValue ←
    (if blobGas = 0 then .ok 0
     else do
       let blobPrice ← profile.blobPrice excessBlobGas
       if blobPrice ≤ tx.maxBlobFee.toNat then .ok (transactionBlobFee blobPrice blobGas)
       else fatalError .executionInvalid : Result Nat)
  let upfrontValue :=
    transactionUpfrontCost tx.maxFee.toNat gasLimit tx.value.toNat tx.maxBlobFee.toNat blobGas
  if blobFeeValue < wordModulus ∧ upfrontValue < wordModulus then
    .ok
      { intrinsicExecution := intrinsic.execution
        intrinsicState := intrinsic.state
        calldataFloor := intrinsic.calldataFloor
        blobGas := blobGas
        blobFee := protocolWord blobFeeValue
        upfront := protocolWord upfrontValue }
  else fatalError .executionInvalid

end Exact

/-! ## The costs in words -/

def wordAllOnes : Word := BitVec.allOnes 256

namespace Optimised

def validatedWordProduct (value factor : Word) : Result Word :=
  if value = 0 ∨ factor = 0 then .ok 0
  else
    let maximumValue := wordDiv wordAllOnes factor
    if value ≤ maximumValue then .ok (value * factor) else fatalError .executionInvalid

/-- A sum of two words, if the second is at most what the first leaves. -/
def validatedWordSum (value summand : Word) : Result Word :=
  let maximumValue := wordAllOnes - value
  if summand ≤ maximumValue then .ok (value + summand) else fatalError .executionInvalid

def transactionCosts (executing profile : ProtocolProfile) (tx : TransactionFields)
    (gasLimit excessBlobGas : Nat) : Result TransactionCosts := do
  let intrinsic ← intrinsicGas executing tx
  let blobGas := gasPerBlob * tx.blobHashes.count
  let blobFee ←
    (if blobGas = 0 then .ok 0
     else do
       let blobPrice ← profile.blobPrice excessBlobGas
       if protocolWord blobPrice ≤ tx.maxBlobFee then
         validatedWordProduct (protocolWord blobPrice) (protocolWord blobGas)
       else fatalError .executionInvalid : Result Word)
  let executionCap ← validatedWordProduct tx.maxFee (protocolWord gasLimit)
  let blobCap ← validatedWordProduct tx.maxBlobFee (protocolWord blobGas)
  let executionAndValue ← validatedWordSum executionCap tx.value
  let upfront ← validatedWordSum executionAndValue blobCap
  .ok
    { intrinsicExecution := intrinsic.execution
      intrinsicState := intrinsic.state
      calldataFloor := intrinsic.calldataFloor
      blobGas := blobGas
      blobFee := blobFee
      upfront := upfront }

/-! ## Products and sums of words -/

theorem toNat_wordAllOnes : wordAllOnes.toNat = wordModulus - 1 := by
  rw [wordAllOnes, BitVec.toNat_allOnes, wordModulus]

theorem toNat_protocolWord {value : Nat} (h : value < wordModulus) :
    (protocolWord value).toNat = value := by
  rw [protocolWord, BitVec.toNat_ofNat]
  exact Nat.mod_eq_of_lt h

/-- A value, if it fits a word. -/
def narrowed (value : Nat) : Result Word :=
  if value < wordModulus then .ok (protocolWord value) else fatalError .executionInvalid

theorem narrowed_eq_ok {value : Nat} {w : Word} :
    narrowed value = .ok w ↔ value < wordModulus ∧ w.toNat = value := by
  rw [narrowed]
  constructor
  · intro h
    split at h
    · rename_i hlt
      cases h
      exact ⟨hlt, toNat_protocolWord hlt⟩
    · cases h
  · rintro ⟨hlt, rfl⟩
    rw [if_pos hlt, protocolWord, BitVec.ofNat_toNat, BitVec.setWidth_eq]

/-- The test by division says that the product fits. -/
theorem validatedWordProduct_eq (value factor : Word) :
    validatedWordProduct value factor = narrowed (value.toNat * factor.toNat) := by
  have hmodulus : 0 < wordModulus := by decide +kernel
  rw [validatedWordProduct, narrowed]
  split
  · rename_i hzero
    have hproduct : value.toNat * factor.toNat = 0 := by
      rcases hzero with rfl | rfl
      · exact Nat.zero_mul _
      · exact Nat.mul_zero _
    rw [hproduct, if_pos hmodulus]
    rfl
  · rename_i hzero
    have hfactor : 0 < factor.toNat := by
      refine Nat.pos_of_ne_zero fun h => hzero (.inr ?_)
      exact BitVec.eq_of_toNat_eq h
    have hfits : value ≤ wordDiv wordAllOnes factor ↔
        value.toNat * factor.toNat < wordModulus := by
      rw [wordDiv_eq, BitVec.le_def, BitVec.toNat_udiv, toNat_wordAllOnes,
        Nat.le_div_iff_mul_le hfactor]
      omega
    simp only [hfits]
    split
    · refine congrArg Except.ok (BitVec.eq_of_toNat_eq ?_)
      rw [BitVec.toNat_mul, protocolWord, BitVec.toNat_ofNat]
    · rfl

/-- The test by subtraction says that the sum fits. -/
theorem validatedWordSum_eq (value summand : Word) :
    validatedWordSum value summand = narrowed (value.toNat + summand.toNat) := by
  have hvalue : value.toNat < wordModulus := value.isLt
  have hle : value ≤ wordAllOnes := by
    rw [BitVec.le_def, toNat_wordAllOnes]
    omega
  have hfits : summand ≤ wordAllOnes - value ↔ value.toNat + summand.toNat < wordModulus := by
    rw [BitVec.le_def, BitVec.toNat_sub_of_le hle, toNat_wordAllOnes]
    omega
  rw [validatedWordSum, narrowed]
  simp only [hfits]
  split
  · refine congrArg Except.ok (BitVec.eq_of_toNat_eq ?_)
    rw [BitVec.toNat_add, protocolWord, BitVec.toNat_ofNat]
  · rfl

/-- Narrowing on the way is narrowing at the end. -/
theorem narrowed_sum (execution value blob : Nat) :
    (do let executionCap ← narrowed execution
        let blobCap ← narrowed blob
        let executionAndValue ← narrowed (executionCap.toNat + value)
        narrowed (executionAndValue.toNat + blobCap.toNat)) =
      narrowed (execution + value + blob) := by
  have hover : wordModulus ≤ execution + value + blob →
      narrowed (execution + value + blob) = fatalError .executionInvalid := fun h =>
    if_neg (Nat.not_lt.mpr h)
  by_cases hexecution : execution < wordModulus
  · have h₁ : narrowed execution = .ok (protocolWord execution) := if_pos hexecution
    rw [h₁, ok_bind, toNat_protocolWord hexecution]
    by_cases hblob : blob < wordModulus
    · have h₂ : narrowed blob = .ok (protocolWord blob) := if_pos hblob
      rw [h₂, ok_bind]
      by_cases hsum : execution + value < wordModulus
      · have h₃ : narrowed (execution + value) = .ok (protocolWord (execution + value)) :=
          if_pos hsum
        rw [h₃, ok_bind, toNat_protocolWord hsum, toNat_protocolWord hblob]
      · have h₃ : narrowed (execution + value) = fatalError .executionInvalid := if_neg hsum
        rw [h₃, hover (by omega)]
        rfl
    · have h₂ : narrowed blob = fatalError .executionInvalid := if_neg hblob
      rw [h₂, hover (by omega)]
      rfl
  · have h₁ : narrowed execution = fatalError .executionInvalid := if_neg hexecution
    rw [h₁, hover (by omega)]
    rfl

/-! ## The two costs -/

/-- The price of blob gas is a word. -/
theorem blobPrice_lt {profile : ProtocolProfile} {excessBlobGas price : Nat}
    (h : profile.blobPrice excessBlobGas = .ok price) : price < wordModulus := by
  rw [ProtocolProfile.blobPrice, blobBaseFee] at h
  split at h
  · rw [fakeExponentialWord] at h
    obtain ⟨s, _, h⟩ := bind_eq_ok.mp h
    dsimp only at h
    split at h
    · rename_i hlt
      cases h
      exact hlt
    · cases h
  · cases h

/-- The fee of the blobs over the integers. -/
def blobFeeValue (profile : ProtocolProfile) (maxBlobFee : Word) (excessBlobGas blobGas : Nat) :
    Result Nat :=
  if blobGas = 0 then .ok 0
  else do
    let blobPrice ← profile.blobPrice excessBlobGas
    if blobPrice ≤ maxBlobFee.toNat then .ok (Exact.transactionBlobFee blobPrice blobGas)
    else fatalError .executionInvalid

/-- The fee of the blobs in words is the one over the integers, narrowed. -/
theorem blobFee_eq (profile : ProtocolProfile) (maxBlobFee : Word) (excessBlobGas : Nat)
    {blobGas : Nat} (hblob : blobGas < wordModulus) :
    (if blobGas = 0 then .ok 0
     else do
       let blobPrice ← profile.blobPrice excessBlobGas
       if protocolWord blobPrice ≤ maxBlobFee then
         validatedWordProduct (protocolWord blobPrice) (protocolWord blobGas)
       else fatalError .executionInvalid : Result Word) =
      blobFeeValue profile maxBlobFee excessBlobGas blobGas >>= narrowed := by
  have hmodulus : 0 < wordModulus := by decide +kernel
  rw [blobFeeValue]
  split
  · have hzero : narrowed 0 = .ok (protocolWord 0) := if_pos hmodulus
    exact hzero.symm
  · cases hprice : profile.blobPrice excessBlobGas with
    | error e => rfl
    | ok blobPrice =>
      have hlt := blobPrice_lt hprice
      have hle : protocolWord blobPrice ≤ maxBlobFee ↔ blobPrice ≤ maxBlobFee.toNat := by
        rw [BitVec.le_def, toNat_protocolWord hlt]
      simp only [ok_bind, hle]
      split
      · rw [validatedWordProduct_eq, toNat_protocolWord hlt, toNat_protocolWord hblob]
        rfl
      · rfl

/-- Two values are narrowed one after the other, or tested together. -/
theorem narrowed_pair {α : Type} (fee upfront : Nat) (f : Word → Word → α) :
    (if fee < wordModulus ∧ upfront < wordModulus then
      .ok (f (protocolWord fee) (protocolWord upfront))
     else fatalError .executionInvalid : Result α) =
      (do let blobFee ← narrowed fee
          let upfrontWord ← narrowed upfront
          .ok (f blobFee upfrontWord)) := by
  simp only [narrowed]
  by_cases hfee : fee < wordModulus
  · rw [if_pos hfee, ok_bind]
    by_cases hupfront : upfront < wordModulus
    · rw [if_pos hupfront, if_pos ⟨hfee, hupfront⟩, ok_bind]
    · rw [if_neg hupfront, if_neg fun h => hupfront h.2]
      rfl
  · rw [if_neg hfee, if_neg fun h => hfee h.1]
    rfl

variable {executing profile : ProtocolProfile} {tx : TransactionFields}
  {gasLimit excessBlobGas : Nat}

/-- Both functions narrow the blob fee and the upfront debit. -/
theorem exact_transactionCosts_eq :
    Exact.transactionCosts executing profile tx gasLimit excessBlobGas = (do
      let intrinsic ← intrinsicGas executing tx
      let blobGas := gasPerBlob * tx.blobHashes.count
      let fee ← blobFeeValue profile tx.maxBlobFee excessBlobGas blobGas
      let blobFee ← narrowed fee
      let upfront ← narrowed (transactionUpfrontCost tx.maxFee.toNat gasLimit tx.value.toNat
        tx.maxBlobFee.toNat blobGas)
      .ok ⟨intrinsic.execution, intrinsic.state, intrinsic.calldataFloor, blobGas, blobFee,
        upfront⟩) := by
  rw [Exact.transactionCosts]
  refine bind_congr fun intrinsic => ?_
  refine bind_congr fun fee => ?_
  exact narrowed_pair fee _ fun blobFee upfront =>
    (⟨intrinsic.execution, intrinsic.state, intrinsic.calldataFloor, _, blobFee, upfront⟩ :
      TransactionCosts)

theorem transactionCosts_eq (hgas : gasLimit < wordModulus)
    (hblobs : gasPerBlob * tx.blobHashes.count < wordModulus) :
    transactionCosts executing profile tx gasLimit excessBlobGas =
      Exact.transactionCosts executing profile tx gasLimit excessBlobGas := by
  rw [exact_transactionCosts_eq, transactionCosts]
  refine bind_congr fun intrinsic => ?_
  simp only [blobFee_eq profile tx.maxBlobFee excessBlobGas hblobs, bind_assoc_except]
  refine bind_congr fun fee => ?_
  refine bind_congr fun blobFee => ?_
  have hsum := narrowed_sum (tx.maxFee.toNat * gasLimit) tx.value.toNat
    (tx.maxBlobFee.toNat * (gasPerBlob * tx.blobHashes.count))
  rw [transactionUpfrontCost, ← hsum]
  simp only [validatedWordProduct_eq, validatedWordSum_eq, toNat_protocolWord hgas,
    toNat_protocolWord hblobs, bind_assoc_except]

/-- When the costs are admitted. -/
theorem exact_transactionCosts_ok :
    (∃ costs, Exact.transactionCosts executing profile tx gasLimit excessBlobGas = .ok costs) ↔
      (∃ intrinsic, intrinsicGas executing tx = .ok intrinsic) ∧
        (gasPerBlob * tx.blobHashes.count = 0 ∨ ∃ price,
          profile.blobPrice excessBlobGas = .ok price ∧ price ≤ tx.maxBlobFee.toNat ∧
            price * (gasPerBlob * tx.blobHashes.count) < 2 ^ 256) ∧
        tx.maxFee.toNat * gasLimit + tx.value.toNat +
          tx.maxBlobFee.toNat * (gasPerBlob * tx.blobHashes.count) < 2 ^ 256 := by
  have hnarrowed : ∀ value, value < 2 ^ 256 → narrowed value = .ok (protocolWord value) :=
    fun _ h => if_pos h
  rw [exact_transactionCosts_eq]
  constructor
  · rintro ⟨costs, h⟩
    obtain ⟨intrinsic, hintrinsic, h⟩ := bind_eq_ok.mp h
    obtain ⟨fee, hfee, h⟩ := bind_eq_ok.mp h
    obtain ⟨blobFee, hblobFee, h⟩ := bind_eq_ok.mp h
    obtain ⟨upfront, hupfront, _⟩ := bind_eq_ok.mp h
    refine ⟨⟨intrinsic, hintrinsic⟩, ?_, (narrowed_eq_ok.mp hupfront).1⟩
    rw [blobFeeValue] at hfee
    split at hfee
    · rename_i hnone
      exact .inl hnone
    · obtain ⟨price, hprice, hfee⟩ := bind_eq_ok.mp hfee
      split at hfee
      · rename_i hle
        cases hfee
        exact .inr ⟨price, hprice, hle, (narrowed_eq_ok.mp hblobFee).1⟩
      · cases hfee
  · rintro ⟨⟨intrinsic, hintrinsic⟩, hblob, hupfront⟩
    have hfee : ∃ fee, blobFeeValue profile tx.maxBlobFee excessBlobGas
        (gasPerBlob * tx.blobHashes.count) = .ok fee ∧ fee < 2 ^ 256 := by
      rw [blobFeeValue]
      split
      · exact ⟨0, rfl, Nat.two_pow_pos 256⟩
      · rename_i hsome
        rcases hblob with hnone | ⟨price, hprice, hle, hlt⟩
        · exact absurd hnone hsome
        · refine ⟨price * (gasPerBlob * tx.blobHashes.count), ?_, hlt⟩
          rw [hprice, ok_bind, if_pos hle]
          rfl
    obtain ⟨fee, hfee, hlt⟩ := hfee
    dsimp only
    rw [hintrinsic, ok_bind, hfee, ok_bind, hnarrowed fee hlt, ok_bind, transactionUpfrontCost,
      hnarrowed _ hupfront]
    exact ⟨_, rfl⟩

/-- The optimised costs are the canonical ones, error included; they are admitted
when the fee and the debit fit 256 bits, and each product and sum of words when
its value over the integers does. -/
theorem transactionCosts_optimised (executing profile : ProtocolProfile) (tx : TransactionFields)
    {gasLimit : Nat} (hgas : gasLimit ≤ blockGasLimitBound)
    (hblobs : tx.blobHashes.count ≤ pragueBlobMaxCount) (excessBlobGas : Nat) :
    transactionCosts executing profile tx gasLimit excessBlobGas =
        Exact.transactionCosts executing profile tx gasLimit excessBlobGas ∧
      ((∃ costs, Exact.transactionCosts executing profile tx gasLimit excessBlobGas = .ok costs) ↔
        (∃ intrinsic, intrinsicGas executing tx = .ok intrinsic) ∧
          (gasPerBlob * tx.blobHashes.count = 0 ∨ ∃ price,
            profile.blobPrice excessBlobGas = .ok price ∧ price ≤ tx.maxBlobFee.toNat ∧
              price * (gasPerBlob * tx.blobHashes.count) < 2 ^ 256) ∧
          tx.maxFee.toNat * gasLimit + tx.value.toNat +
            tx.maxBlobFee.toNat * (gasPerBlob * tx.blobHashes.count) < 2 ^ 256) ∧
      (∀ value factor : Word,
        validatedWordProduct value factor = Exact.validatedWordProduct value factor ∧
          ∀ w, Exact.validatedWordProduct value factor = .ok w ↔
            value.toNat * factor.toNat < 2 ^ 256 ∧ w.toNat = value.toNat * factor.toNat) ∧
      ∀ value summand w : Word, validatedWordSum value summand = .ok w ↔
        value.toNat + summand.toNat < 2 ^ 256 ∧ w.toNat = value.toNat + summand.toNat := by
  have hword : gasLimit < wordModulus := by
    have hbound : blockGasLimitBound < wordModulus := by decide +kernel
    omega
  have hblobGas : gasPerBlob * tx.blobHashes.count < wordModulus := by
    have hle := Nat.mul_le_mul_left gasPerBlob hblobs
    have hbound : gasPerBlob * pragueBlobMaxCount < wordModulus := by decide +kernel
    omega
  refine ⟨transactionCosts_eq hword hblobGas, exact_transactionCosts_ok, ?_, ?_⟩
  · intro value factor
    exact ⟨validatedWordProduct_eq value factor, fun w => narrowed_eq_ok⟩
  · intro value summand w
    rw [validatedWordSum_eq]
    exact narrowed_eq_ok

/-- A price of 2^255 for each of two units of gas is one bit too long. -/
theorem transactionCosts_optimised_dear :
    ¬ ∃ costs, transactionCosts pragueProfile pragueProfile
      { overfullTransaction with maxFee := 2 ^ 255 } 2 0 = .ok costs := by
  rintro ⟨costs, hcosts⟩
  obtain ⟨heq, hadmitted, _⟩ := transactionCosts_optimised pragueProfile pragueProfile
    { overfullTransaction with maxFee := 2 ^ 255 }
    (show 2 ≤ blockGasLimitBound by decide +kernel) (by decide +kernel) 0
  obtain ⟨_, _, hupfront⟩ := hadmitted.mp ⟨costs, heq ▸ hcosts⟩
  exact absurd hupfront (by decide +kernel)

end Optimised

end EvmSail
