/-
# `EvmSail.Evm.PrecompileGas` — what the precompiled contracts cost

The catalogue of `precompile_gas`: fixed prices, prices by length, and the
two curves that read the input.  The prices of EIP-2537 for sums of many
products are discounted by a table of 128 entries.  The source numbers the
entries of a vector literal from its last one (`default Order dec`), and
`bls_msm_gas` counts back; that it meets the table of the EIP in the right
place, for every number of pairs, is `blsMsmGas_exact`.
-/
import EvmSail.Evm.ModexpGas
import EvmSail.Primitives.Precompile

namespace EvmSail

/-! ## Prices -/

/-- A vector literal of the source, whose last entry has index 0. -/
def decLiteral {n : Nat} (entries : Vector Nat n) : Vector Nat n := entries.reverse

def blsG1Discount : Vector Nat 128 := decLiteral #v[
  1000, 949, 848, 797, 764, 750, 738, 728, 719, 712, 705, 698, 692, 687, 682, 677, 673, 669, 665,
  661, 658, 654, 651, 648, 645, 642, 640, 637, 635, 632, 630, 627, 625, 623, 621, 619, 617, 615,
  613, 611, 609, 608, 606, 604, 603, 601, 599, 598, 596, 595, 593, 592, 591, 589, 588, 586, 585,
  584, 582, 581, 580, 579, 577, 576, 575, 574, 573, 572, 570, 569, 568, 567, 566, 565, 564, 563,
  562, 561, 560, 559, 558, 557, 556, 555, 554, 553, 552, 551, 550, 549, 548, 547, 547, 546, 545,
  544, 543, 542, 541, 540, 540, 539, 538, 537, 536, 536, 535, 534, 533, 532, 532, 531, 530, 529,
  528, 528, 527, 526, 525, 525, 524, 523, 522, 522, 521, 520, 520, 519]

def blsG2Discount : Vector Nat 128 := decLiteral #v[
  1000, 1000, 923, 884, 855, 832, 812, 796, 782, 770, 759, 749, 740, 732, 724, 717, 711, 704, 699,
  693, 688, 683, 679, 674, 670, 666, 663, 659, 655, 652, 649, 646, 643, 640, 637, 634, 632, 629,
  627, 624, 622, 620, 618, 615, 613, 611, 609, 607, 606, 604, 602, 600, 598, 597, 595, 593, 592,
  590, 589, 587, 586, 584, 583, 582, 580, 579, 578, 576, 575, 574, 573, 571, 570, 569, 568, 567,
  566, 565, 563, 562, 561, 560, 559, 558, 557, 556, 555, 554, 553, 552, 552, 551, 550, 549, 548,
  547, 546, 545, 545, 544, 543, 542, 541, 541, 540, 539, 538, 537, 537, 536, 535, 535, 534, 533,
  532, 532, 531, 530, 530, 529, 528, 528, 527, 526, 526, 525, 524, 524]

/-- The price of `k` pairs.  The entry of a full table comes as `maxd`. -/
def blsMsmGas (table : Vector Nat 128) (base maxd k available : Nat) : GasCharge :=
  if _hk : k = 0 then gasCharge 0
  else
    let discount := if _h : k < 128 then table[128 - k] else maxd
    let coefficient := base * discount
    let whole := k / 1000
    let remainder := k % 1000
    let wholeProduct := coefficient * whole
    if wholeProduct > available then gasChargeUnaffordable
    else
      let tail := coefficient * remainder / 1000
      let total := wholeProduct + tail
      if total ≤ available then gasCharge total else gasChargeUnaffordable

/-- A price by length. -/
def linearGas (base perUnit units available : Nat) : GasCharge :=
  let exactCost := perUnit * units + base
  if exactCost > available then gasChargeUnaffordable else gasCharge exactCost

def fixedPrecompileGas (cost available : Nat) : GasCharge :=
  if cost ≤ available then gasCharge cost else gasChargeUnaffordable

/-- The rounds that the first four bytes announce. -/
def pcBlake2Rounds (input : List Byte) : Nat := (pcWord input 0 4).toNat % 2 ^ 32

def precompileGas (fork : Fork) (id : PrecompileId) (input : List Byte) (available : Nat) :
    GasCharge :=
  let inputLength := input.length
  let words := memoryWordCount inputLength
  match id with
  | .notPrecompile => gasChargeUnaffordable
  | .ecrecover => fixedPrecompileGas 3000 available
  | .sha256 => linearGas 60 12 words available
  | .ripemd160 => linearGas 600 120 words available
  | .identity => linearGas 15 3 words available
  | .modexp => modexpGas fork input available
  | .bn254Add => fixedPrecompileGas 150 available
  | .bn254Mul => fixedPrecompileGas 6000 available
  | .bn254Pairing => linearGas 45000 34000 (inputLength / 192) available
  | .blake2f => fixedPrecompileGas (pcBlake2Rounds input) available
  | .kzgPointEvaluation => fixedPrecompileGas 50000 available
  | .blsG1Add => fixedPrecompileGas 375 available
  | .blsG1Msm => blsMsmGas blsG1Discount 12000 519 (inputLength / 160) available
  | .blsG2Add => fixedPrecompileGas 600 available
  | .blsG2Msm => blsMsmGas blsG2Discount 22500 524 (inputLength / 288) available
  | .blsPairing => linearGas 37700 32600 (inputLength / 384) available
  | .blsMapFpToG1 => fixedPrecompileGas 5500 available
  | .blsMapFp2ToG2 => fixedPrecompileGas 23800 available
  | .p256Verify => fixedPrecompileGas 6900 available

/-! ## Charges are covered -/

theorem linearGas_covered (base perUnit units available : Nat) :
    (linearGas base perUnit units available).Covered available := by
  intro h
  simp only [linearGas] at h ⊢
  split
  · exact Nat.zero_le _
  · rename_i hle
    exact Nat.le_of_not_lt hle

theorem fixedPrecompileGas_covered (cost available : Nat) :
    (fixedPrecompileGas cost available).Covered available := by
  intro h
  rw [fixedPrecompileGas]
  split
  · assumption
  · exact Nat.zero_le _

theorem blsMsmGas_covered (table : Vector Nat 128) (base maxd k available : Nat) :
    (blsMsmGas table base maxd k available).Covered available := by
  intro h
  rw [blsMsmGas]
  split
  · exact Nat.zero_le _
  · generalize (if _h : k < 128 then table[128 - k] else maxd) = discount
    dsimp only
    split
    · exact Nat.zero_le _
    · split
      · assumption
      · exact Nat.zero_le _

theorem modexpGas_covered (fork : Fork) (input : List Byte) (available : Nat) :
    (modexpGas fork input available).Covered available := by
  intro h
  by_cases hover : decide (Fork.osaka ≤ fork) = true ∧ (ModexpInput.read input).Oversized
  · rw [modexpGas_of_oversized hover]
    exact Nat.zero_le _
  · rw [modexpGas_of_sized hover]
    split
    · assumption
    · exact Nat.zero_le _

/-- Every charge of the catalogue is covered by the gas it was asked for. -/
theorem precompileGas_covered (fork : Fork) (id : PrecompileId) (input : List Byte)
    (available : Nat) : (precompileGas fork id input available).Covered available := by
  cases id with
  | notPrecompile => exact fun _ => Nat.zero_le _
  | modexp => exact modexpGas_covered fork input available
  | blsG1Msm => exact blsMsmGas_covered _ _ _ _ _
  | blsG2Msm => exact blsMsmGas_covered _ _ _ _ _
  | sha256 => exact linearGas_covered _ _ _ _
  | ripemd160 => exact linearGas_covered _ _ _ _
  | identity => exact linearGas_covered _ _ _ _
  | bn254Pairing => exact linearGas_covered _ _ _ _
  | blsPairing => exact linearGas_covered _ _ _ _
  | _ => exact fixedPrecompileGas_covered _ _

/-! ## The price of EIP-2537 -/

/-- The two groups in which EIP-2537 sums products. -/
inductive MsmGroup where
  | g1
  | g2
  deriving DecidableEq, Repr

namespace MsmGroup

/-- The discounts of the first group, in thousandths, from one pair on. -/
def g1Discounts : List Nat := [
  1000, 949, 848, 797, 764, 750, 738, 728, 719, 712, 705, 698, 692, 687, 682, 677, 673, 669, 665,
  661, 658, 654, 651, 648, 645, 642, 640, 637, 635, 632, 630, 627, 625, 623, 621, 619, 617, 615,
  613, 611, 609, 608, 606, 604, 603, 601, 599, 598, 596, 595, 593, 592, 591, 589, 588, 586, 585,
  584, 582, 581, 580, 579, 577, 576, 575, 574, 573, 572, 570, 569, 568, 567, 566, 565, 564, 563,
  562, 561, 560, 559, 558, 557, 556, 555, 554, 553, 552, 551, 550, 549, 548, 547, 547, 546, 545,
  544, 543, 542, 541, 540, 540, 539, 538, 537, 536, 536, 535, 534, 533, 532, 532, 531, 530, 529,
  528, 528, 527, 526, 525, 525, 524, 523, 522, 522, 521, 520, 520, 519]

/-- The discounts of the second group. -/
def g2Discounts : List Nat := [
  1000, 1000, 923, 884, 855, 832, 812, 796, 782, 770, 759, 749, 740, 732, 724, 717, 711, 704, 699,
  693, 688, 683, 679, 674, 670, 666, 663, 659, 655, 652, 649, 646, 643, 640, 637, 634, 632, 629,
  627, 624, 622, 620, 618, 615, 613, 611, 609, 607, 606, 604, 602, 600, 598, 597, 595, 593, 592,
  590, 589, 587, 586, 584, 583, 582, 580, 579, 578, 576, 575, 574, 573, 571, 570, 569, 568, 567,
  566, 565, 563, 562, 561, 560, 559, 558, 557, 556, 555, 554, 553, 552, 552, 551, 550, 549, 548,
  547, 546, 545, 545, 544, 543, 542, 541, 541, 540, 539, 538, 537, 537, 536, 535, 535, 534, 533,
  532, 532, 531, 530, 530, 529, 528, 528, 527, 526, 526, 525, 524, 524]

def precompile : MsmGroup → PrecompileId
  | g1 => .blsG1Msm
  | g2 => .blsG2Msm

/-- The bytes of a point and its scalar. -/
def pairLength : MsmGroup → Nat
  | g1 => 160
  | g2 => 288

/-- The price of one multiplication. -/
def base : MsmGroup → Nat
  | g1 => 12000
  | g2 => 22500

def discounts : MsmGroup → List Nat
  | g1 => g1Discounts
  | g2 => g2Discounts

/-- The entry for `k` pairs, the last one behind the end of the table. -/
def discount (group : MsmGroup) (k : Nat) : Nat :=
  group.discounts.getD (min k group.discounts.length - 1) 0

/-- The price of `k` pairs. -/
def cost (group : MsmGroup) (k : Nat) : Nat := k * group.base * group.discount k / 1000

end MsmGroup

namespace MsmGroup

/-- The table of the source, and what it passes for a full one. -/
def table : MsmGroup → Vector Nat 128
  | g1 => blsG1Discount
  | g2 => blsG2Discount

def maxDiscount : MsmGroup → Nat
  | g1 => 519
  | g2 => 524

theorem discount_of_ge (group : MsmGroup) {k : Nat} (h : 128 ≤ k) :
    group.discount k = group.maxDiscount := by
  cases group with
  | g1 =>
    have hmin : min k g1Discounts.length = 128 := Nat.min_eq_right h
    rw [discount, discounts, hmin]
    rfl
  | g2 =>
    have hmin : min k g2Discounts.length = 128 := Nat.min_eq_right h
    rw [discount, discounts, hmin]
    rfl

/-- Counted back from its end the table has the entry of the EIP. -/
theorem table_getElem (group : MsmGroup) {k : Nat} (hpos : k ≠ 0) (h : k < 128) :
    group.table[128 - k] = group.discount k := by
  have hentry : ∀ entries : Vector Nat 128,
      (decLiteral entries)[128 - k] = entries.toList.getD (min k entries.toList.length - 1) 0 := by
    intro entries
    have hindex : 128 - 1 - (128 - k) = k - 1 := by omega
    have hmin : min k entries.toList.length = k := by
      rw [Vector.length_toList]
      omega
    have hlt : k - 1 < entries.toList.length := by
      rw [Vector.length_toList]
      omega
    rw [decLiteral, Vector.getElem_reverse, hmin, List.getD_eq_getElem _ _ hlt,
      Vector.getElem_toList]
    simp only [hindex]
  cases group with
  | g1 => exact hentry _
  | g2 => exact hentry _

end MsmGroup

/-- A product is divided by a thousand in two parts. -/
theorem div_thousand_split (coefficient k : Nat) :
    coefficient * (k / 1000) + coefficient * (k % 1000) / 1000 = k * coefficient / 1000 := by
  have hk : k * coefficient = coefficient * (k % 1000) + 1000 * (coefficient * (k / 1000)) := by
    conv_lhs => rw [← Nat.mod_add_div k 1000]
    ring
  rw [hk, Nat.add_mul_div_left _ _ (by decide)]
  omega

theorem blsMsmGas_eq (group : MsmGroup) (k available : Nat) :
    blsMsmGas group.table group.base group.maxDiscount k available =
      if group.cost k ≤ available then gasCharge (group.cost k) else gasChargeUnaffordable := by
  by_cases hzero : k = 0
  · have hcost : group.cost k = 0 := by
      rw [MsmGroup.cost, hzero, Nat.zero_mul, Nat.zero_mul, Nat.zero_div]
    rw [blsMsmGas, dif_pos hzero, hcost, if_pos (Nat.zero_le _)]
  · have hdiscount : (if _h : k < 128 then group.table[128 - k] else group.maxDiscount) =
        group.discount k := by
      split
      · rename_i hlt
        exact group.table_getElem hzero hlt
      · rename_i hge
        exact (group.discount_of_ge (Nat.le_of_not_lt hge)).symm
    have hcost : group.base * group.discount k * (k / 1000) +
        group.base * group.discount k * (k % 1000) / 1000 = group.cost k := by
      rw [div_thousand_split, ← Nat.mul_assoc]
      rfl
    rw [blsMsmGas, dif_neg hzero, hdiscount]
    simp only [hcost]
    split
    · -- the first part of the product alone is over the gas
      rename_i hwhole
      rw [if_neg]
      omega
    · rfl

/-- The price of a sum of products is exact: for every number of pairs, and for
every input by the whole pairs in it, the charge is the rounded price of the EIP
if that is available. -/
theorem blsMsmGas_exact (group : MsmGroup) (available : Nat) :
    (∀ k, blsMsmGas group.table group.base group.maxDiscount k available =
      if group.cost k ≤ available then gasCharge (group.cost k) else gasChargeUnaffordable) ∧
    ∀ (fork : Fork) (input : List Byte),
      let k := input.length / group.pairLength
      precompileGas fork group.precompile input available =
        if group.cost k ≤ available then gasCharge (group.cost k) else gasChargeUnaffordable := by
  refine ⟨fun k => blsMsmGas_eq group k available, fun fork input => ?_⟩
  cases group with
  | g1 => exact blsMsmGas_eq .g1 _ _
  | g2 => exact blsMsmGas_eq .g2 _ _

/-- Two pairs, and two hundred. -/
example : MsmGroup.g1.cost 2 = 22776 ∧ MsmGroup.g2.cost 200 = 2358000 := by
  decide +kernel

end EvmSail
