/-
# `EvmSail.Evm.ModexpGas` — the price of modular exponentiation

`MODEXP` is priced by three lengths of up to 2^256 - 1 and by the head of
the exponent (EIP-2565, EIP-7883).  The price over the integers is
`modexpPrice`; `modexp_gas` never forms it, but gives up at the first
factor that already shows it to be more than the available gas.  Each of
these cut-offs is one lemma about products (`lt_mul_of_factor`), and
`modexpGas_exact` says that none of them changes the answer.
-/
import EvmSail.Evm.Schedule

namespace EvmSail

/-! ## Reading the input -/

/-- The byte at `offset` from `start`; zero behind the input. -/
def pcByte (input : List Byte) (start offset : Nat) : Byte :=
  if start < input.length then
    let remaining := input.length - start
    if offset < remaining then input.getD (start + offset) 0 else 0
  else 0

/-- Up to 32 big-endian bytes. -/
def pcWord (input : List Byte) (start byteCount : Nat) : Word :=
  (List.range 32).foldl
    (fun value offset =>
      if offset < byteCount then (value <<< 8) + (pcByte input start offset).setWidth 256
      else value)
    0

/-- The bytes behind a header and a field of declared length. -/
def pcWordAfterDeclaredField (input : List Byte) (header declaredLength byteCount : Nat) : Word :=
  if header < input.length then
    let suffixLength := input.length - header
    if declaredLength < suffixLength then pcWord input (header + declaredLength) byteCount else 0
  else 0

/-! ## The charge

Where the source clamps a factor before it returns, the clamped value is
the factor itself on the path that goes on, and is not named here. -/

section

variable (osaka : Bool) (available : Nat)

/-- What the two factors of the price may multiply to. -/
def modexpProductLimit : Nat := if osaka then available else 3 * available + 2

/-- The multiplication complexity, or nothing where it cannot be paid. -/
def modexpMultiplication (maxlen wordsSquared : Nat) : Option Nat :=
  if osaka ∧ maxlen ≤ 32 then some 16
  else if osaka then
    let doubledLimit := available / 2
    if wordsSquared > doubledLimit then none else some (2 * wordsSquared)
  else some wordsSquared

/-- The iteration count, or nothing where it cannot be paid. -/
def modexpIterations (input : List Byte) (bl el : Nat) : Option Nat :=
  if el ≤ 32 then
    let exponentBits := wordBitLength (pcWordAfterDeclaredField input 96 bl el)
    if exponentBits = 0 then some 1
    else
      let count := exponentBits - 1
      if count = 0 then some 1 else some count
  else
    let headBits := wordBitLength (pcWordAfterDeclaredField input 96 bl 32)
    let highBits := if headBits ≠ 0 then headBits - 1 else 0
    let extra := el - 32
    let counted : Option Nat :=
      if osaka then
        let extraLimit := available / 16
        let osakaExtra := if extra > 992 then 992 else extra
        if osakaExtra > extraLimit then none else some (16 * osakaExtra + highBits)
      else
        let extraLimit := (3 * available + 2) / 8
        if extra > extraLimit then none else some (8 * extra + highBits)
    counted.map fun count => if count = 0 then 1 else count

/-- The product of the factors against the limit, and the minimum. -/
def modexpTotal (minimum mult iterations : Nat) : GasCharge :=
  if iterations = 0 then gasChargeUnaffordable
  else
    let product := mult * iterations
    if modexpProductLimit osaka available < product then gasChargeUnaffordable
    else
      let calculated := if osaka then product else product / 3
      let cost := if calculated < minimum then minimum else calculated
      if cost ≤ available then gasCharge cost else gasChargeUnaffordable

end

def modexpGas (fork : Fork) (input : List Byte) (available : Nat) : GasCharge :=
  let bl := (pcWord input 0 32).toNat
  let el := (pcWord input 32 32).toNat
  let ml := (pcWord input 64 32).toNat
  let osaka := decide (.osaka ≤ fork)
  if osaka ∧ (bl > 1024 ∨ el > 1024 ∨ ml > 1024) then gasChargeUnaffordable
  else
    let minimum := if osaka then 500 else 200
    if available < minimum then gasChargeUnaffordable
    else if ¬ osaka ∧ bl = 0 ∧ ml = 0 then gasCharge 200
    else
      let maxlen := if ml < bl then bl else ml
      let words := maxlen / 8 + if maxlen % 8 = 0 then 0 else 1
      let productLimit := modexpProductLimit osaka available
      if productLimit < words then gasChargeUnaffordable
      else if productLimit < words * words then gasChargeUnaffordable
      else
        match modexpMultiplication osaka available maxlen (words * words) with
        | none => gasChargeUnaffordable
        | some mult =>
          if productLimit < mult then gasChargeUnaffordable
          else
            match modexpIterations osaka available input bl el with
            | none => gasChargeUnaffordable
            | some iterations => modexpTotal osaka available minimum mult iterations

/-! ## The price -/

/-- `count` bytes from `start` on, with zeros behind the input. -/
def paddedBytes (input : List Byte) (start count : Nat) : List Byte :=
  (List.range count).map fun i => input.getD (start + i) 0

/-- The multiplication complexity of EIP-2565, and of EIP-7883. -/
def multiplicationComplexity (osaka : Bool) (baseLength modulusLength : Nat) : Nat :=
  let maxLength := max baseLength modulusLength
  let words := (maxLength + 7) / 8
  if osaka then if maxLength ≤ 32 then 16 else 2 * words ^ 2 else words ^ 2

/-- The iteration count, from the length and the first 32 bytes of the
exponent. -/
def iterationCount (osaka : Bool) (exponentLength exponentHead : Nat) : Nat :=
  let perByte := if osaka then 16 else 8
  max 1 (perByte * (exponentLength - 32) + (exponentHead.size - 1))

/-- The price over the integers. -/
def modexpPrice (osaka : Bool) (baseLength exponentLength modulusLength exponentHead : Nat) : Nat :=
  let product := multiplicationComplexity osaka baseLength modulusLength *
    iterationCount osaka exponentLength exponentHead
  if osaka then max 500 product else max 200 (product / 3)

/-! ## What is read -/

theorem paddedBytes_succ (input : List Byte) (start count : Nat) :
    paddedBytes input start (count + 1) =
      paddedBytes input start count ++ [input.getD (start + count) 0] := by
  rw [paddedBytes, List.range_succ, List.map_append]
  rfl

@[simp] theorem length_paddedBytes (input : List Byte) (start count : Nat) :
    (paddedBytes input start count).length = count := by
  rw [paddedBytes, List.length_map, List.length_range]

theorem pcByte_eq (input : List Byte) (start offset : Nat) :
    pcByte input start offset = input.getD (start + offset) 0 := by
  have hbehind : ¬ start + offset < input.length → input.getD (start + offset) 0 = 0 := fun h =>
    List.getD_eq_default _ _ (Nat.le_of_not_lt h)
  simp only [pcByte]
  split
  · split
    · rfl
    · exact (hbehind (by omega)).symm
  · exact (hbehind (by omega)).symm

/-- One more byte fits while the word has at most 32. -/
theorem toNat_shift_byte {value : Word} {k : Nat} (b : Byte) (hvalue : value.toNat < 256 ^ k)
    (hk : k < 32) : ((value <<< 8) + b.setWidth 256).toNat = value.toNat * 256 + b.toNat := by
  have hbyte := b.isLt
  have hle : 256 ^ (k + 1) ≤ 256 ^ 32 := Nat.pow_le_pow_right (by decide) hk
  rw [Nat.pow_succ] at hle
  have hpow : (256 : Nat) ^ 32 = 2 ^ 256 := by decide
  have hwidth : (b.setWidth 256).toNat = b.toNat := by
    rw [BitVec.toNat_setWidth]
    exact Nat.mod_eq_of_lt (hbyte.trans (by decide))
  have hshift : (value <<< 8).toNat = value.toNat * 256 := by
    rw [BitVec.toNat_shiftLeft, Nat.shiftLeft_eq]
    exact Nat.mod_eq_of_lt (by omega)
  rw [BitVec.toNat_add, hshift, hwidth]
  exact Nat.mod_eq_of_lt (by omega)

theorem pcWord_toNat (input : List Byte) (start : Nat) {byteCount : Nat} (hcount : byteCount ≤ 32) :
    (pcWord input start byteCount).toNat = natOfBytes (paddedBytes input start byteCount) := by
  have hfold : ∀ n, ((List.range n).foldl
      (fun (value : Word) offset =>
        if offset < byteCount then (value <<< 8) + (pcByte input start offset).setWidth 256
        else value)
      (0 : Word)).toNat = natOfBytes (paddedBytes input start (min n byteCount)) := by
    intro n
    induction n with
    | zero =>
      rw [Nat.zero_min]
      rfl
    | succ n ih =>
      rw [List.range_succ, List.foldl_append, List.foldl_cons, List.foldl_nil]
      split
      · next hlt =>
        have hmin : min n byteCount = n := by omega
        have hmin' : min (n + 1) byteCount = n + 1 := by omega
        rw [hmin] at ih
        have hbound := natOfBytes_lt (paddedBytes input start n)
        rw [length_paddedBytes, ← ih] at hbound
        rw [toNat_shift_byte _ hbound (by omega), ih, hmin', paddedBytes_succ,
          natOfBytes_append_singleton, pcByte_eq]
      · next hge =>
        have hmin : min (n + 1) byteCount = min n byteCount := by omega
        rw [ih, hmin]
  have hall := hfold 32
  rwa [Nat.min_eq_right hcount] at hall

/-- Behind the input there are only zeros. -/
theorem natOfBytes_paddedBytes_behind {input : List Byte} {start : Nat}
    (h : input.length ≤ start) (count : Nat) : natOfBytes (paddedBytes input start count) = 0 := by
  induction count with
  | zero => rfl
  | succ count ih =>
    have hzero : input.getD (start + count) 0 = 0 := List.getD_eq_default _ _ (by omega)
    rw [paddedBytes_succ, natOfBytes_append_singleton, ih, hzero]
    rfl

theorem pcWordAfterDeclaredField_toNat (input : List Byte) (header declaredLength : Nat)
    {byteCount : Nat} (hcount : byteCount ≤ 32) :
    (pcWordAfterDeclaredField input header declaredLength byteCount).toNat =
      natOfBytes (paddedBytes input (header + declaredLength) byteCount) := by
  have hbehind : input.length ≤ header + declaredLength →
      (0 : Word).toNat = natOfBytes (paddedBytes input (header + declaredLength) byteCount) :=
    fun h => (natOfBytes_paddedBytes_behind h byteCount).symm
  simp only [pcWordAfterDeclaredField]
  split
  · split
    · exact pcWord_toNat input _ hcount
    · exact hbehind (by omega)
  · exact hbehind (by omega)

/-! ## Factors and cut-offs -/

/-- A factor above the limit, and another that is not zero. -/
theorem lt_mul_of_factor {limit a b : Nat} (ha : limit < a) (hb : 1 ≤ b) : limit < a * b :=
  ha.trans_le (Nat.le_mul_of_pos_right a hb)

/-- The product limit says exactly what can be paid. -/
theorem productLimit_lt_iff (osaka : Bool) (available product : Nat) :
    modexpProductLimit osaka available < product ↔
      available < if osaka then product else product / 3 := by
  cases osaka with
  | true => exact Iff.rfl
  | false =>
    simp only [modexpProductLimit, Bool.false_eq_true, if_false]
    omega

theorem maxlen_eq (bl ml : Nat) : (if ml < bl then bl else ml) = max bl ml := by
  split
  · omega
  · omega

theorem words_eq (maxlen : Nat) :
    maxlen / 8 + (if maxlen % 8 = 0 then 0 else 1) = (maxlen + 7) / 8 := by
  split
  · omega
  · omega

theorem iterationCount_pos (osaka : Bool) (el head : Nat) : 1 ≤ iterationCount osaka el head :=
  Nat.le_max_left _ _

section

variable {osaka : Bool} {available : Nat}

/-- From two words on a square is more than its root; below, the least charge
pays for it. -/
theorem lt_complexity_of_lt_square {bl ml words : Nat} (hwords : words = (max bl ml + 7) / 8)
    (hsize : osaka = true → 500 ≤ available)
    (hlimit : modexpProductLimit osaka available < words * words) :
    modexpProductLimit osaka available < multiplicationComplexity osaka bl ml := by
  simp only [multiplicationComplexity, ← hwords, pow_two]
  cases osaka with
  | false => exact hlimit
  | true =>
    have hleast := hsize rfl
    simp only [modexpProductLimit, if_true] at hlimit ⊢
    split
    · next hsmall =>
      have hfour : words ≤ 4 := by omega
      have hsquare : words * words ≤ 4 * 4 := Nat.mul_le_mul hfour hfour
      omega
    · omega

theorem modexpMultiplication_cases (bl ml : Nat) :
    let words := (max bl ml + 7) / 8
    let found := modexpMultiplication osaka available (max bl ml) (words * words)
    found = some (multiplicationComplexity osaka bl ml) ∨
      found = none ∧ modexpProductLimit osaka available < multiplicationComplexity osaka bl ml := by
  intro words
  simp only [modexpMultiplication, multiplicationComplexity, modexpProductLimit, pow_two]
  cases osaka with
  | false => exact .inl rfl
  | true =>
    simp only [true_and, if_true]
    by_cases hsmall : max bl ml ≤ 32
    · rw [if_pos hsmall, if_pos hsmall]
      exact .inl rfl
    · rw [if_neg hsmall, if_neg hsmall]
      by_cases hdoubled : words * words > available / 2
      · rw [if_pos hdoubled]
        have hover : available < 2 * (words * words) := by omega
        exact .inr ⟨rfl, hover⟩
      · rw [if_neg hdoubled]
        exact .inl rfl

theorem atLeast_eq (minimum calculated : Nat) :
    (if calculated < minimum then minimum else calculated) = max minimum calculated := by
  split
  · omega
  · omega

theorem atLeastOne_eq (count : Nat) : (if count = 0 then 1 else count) = max 1 count := by
  split
  · omega
  · omega

/-- An exponent of at most 32 bytes is counted by its bits. -/
theorem modexpIterations_short (input : List Byte) {bl el : Nat} (hshort : el ≤ 32) :
    modexpIterations osaka available input bl el =
      some (iterationCount osaka el (natOfBytes (paddedBytes input (96 + bl) (min el 32)))) := by
  have hextra : el - 32 = 0 := by omega
  simp only [modexpIterations, iterationCount, wordBitLength_eq_size, if_pos hshort,
    pcWordAfterDeclaredField_toNat input 96 bl hshort, Nat.min_eq_left hshort, hextra,
    Nat.mul_zero, Nat.zero_add]
  generalize (natOfBytes (paddedBytes input (96 + bl) el)).size = bits
  split
  · next hzero =>
    rw [hzero]
    rfl
  · split
    · next hcount =>
      rw [hcount]
      rfl
    · next hcount => rw [Nat.max_eq_right (Nat.one_le_iff_ne_zero.mpr hcount)]

/-- A longer one also by its bytes behind the head. -/
theorem modexpIterations_cases (input : List Byte) (bl el : Nat)
    (hlength : osaka = true → el ≤ 1024) :
    let count := iterationCount osaka el (natOfBytes (paddedBytes input (96 + bl) (min el 32)))
    modexpIterations osaka available input bl el = some count ∨
      modexpIterations osaka available input bl el = none ∧
        modexpProductLimit osaka available < count := by
  intro count
  by_cases hshort : el ≤ 32
  · exact .inl (modexpIterations_short input hshort)
  · have hmin : min el 32 = 32 := by omega
    have hcount : count = max 1 ((if osaka then 16 else 8) * (el - 32) +
        ((natOfBytes (paddedBytes input (96 + bl) 32)).size - 1)) := by
      simp only [count, iterationCount, hmin]
    rw [hcount]
    simp only [modexpIterations, wordBitLength_eq_size, if_neg hshort,
      pcWordAfterDeclaredField_toNat input 96 bl (Nat.le_refl 32)]
    generalize (natOfBytes (paddedBytes input (96 + bl) 32)).size = bits
    have hhigh : (if bits ≠ 0 then bits - 1 else 0) = bits - 1 := by
      split
      · rfl
      · omega
    rw [hhigh]
    cases osaka with
    | false =>
      simp only [Bool.false_eq_true, if_false, modexpProductLimit]
      by_cases hover : el - 32 > (3 * available + 2) / 8
      · rw [if_pos hover]
        exact .inr ⟨rfl, by omega⟩
      · rw [if_neg hover, Option.map_some, atLeastOne_eq]
        exact .inl rfl
    | true =>
      have hcapped : (if el - 32 > 992 then 992 else el - 32) = el - 32 := by
        have := hlength rfl
        exact if_neg (by omega)
      simp only [if_true, modexpProductLimit, hcapped]
      by_cases hover : el - 32 > available / 16
      · rw [if_pos hover]
        exact .inr ⟨rfl, by omega⟩
      · rw [if_neg hover, Option.map_some, atLeastOne_eq]
        exact .inl rfl

/-- The last step: the whole product, under the limit or not. -/
theorem modexpTotal_eq {minimum mult iterations : Nat} (hpos : 1 ≤ iterations) :
    let price := max minimum (if osaka then mult * iterations else mult * iterations / 3)
    modexpTotal osaka available minimum mult iterations =
      if price ≤ available then gasCharge price else gasChargeUnaffordable := by
  intro price
  have hcost : (if (if osaka then mult * iterations else mult * iterations / 3) < minimum
      then minimum else (if osaka then mult * iterations else mult * iterations / 3)) = price :=
    atLeast_eq _ _
  simp only [modexpTotal, if_neg (Nat.ne_of_gt hpos), hcost]
  split
  · next hover =>
    rw [productLimit_lt_iff] at hover
    rw [if_neg]
    exact Nat.not_le_of_lt (hover.trans_le (Nat.le_max_right _ _))
  · rfl

end

/-- A price of which one factor alone is over the limit. -/
theorem not_modexpPrice_le {osaka : Bool} {available a b minimum : Nat}
    (hlimit : modexpProductLimit osaka available < a * b) :
    ¬ max minimum (if osaka then a * b else a * b / 3) ≤ available := by
  rw [productLimit_lt_iff] at hlimit
  exact Nat.not_le_of_lt (hlimit.trans_le (Nat.le_max_right _ _))

/-- The lengths and the exponent head that an input declares. -/
structure ModexpInput where
  baseLength : Nat
  exponentLength : Nat
  modulusLength : Nat
  exponentHead : Nat

def ModexpInput.read (input : List Byte) : ModexpInput :=
  let baseLength := natOfBytes (paddedBytes input 0 32)
  let exponentLength := natOfBytes (paddedBytes input 32 32)
  { baseLength := baseLength
    exponentLength := exponentLength
    modulusLength := natOfBytes (paddedBytes input 64 32)
    exponentHead := natOfBytes (paddedBytes input (96 + baseLength) (min exponentLength 32)) }

/-- A length that EIP-7823 rejects. -/
def ModexpInput.Oversized (i : ModexpInput) : Prop :=
  1024 < i.baseLength ∨ 1024 < i.exponentLength ∨ 1024 < i.modulusLength

instance (i : ModexpInput) : Decidable i.Oversized := inferInstanceAs (Decidable (_ ∨ _))

def ModexpInput.price (osaka : Bool) (i : ModexpInput) : Nat :=
  modexpPrice osaka i.baseLength i.exponentLength i.modulusLength i.exponentHead

theorem ModexpInput.price_eq (osaka : Bool) (i : ModexpInput) :
    let product := multiplicationComplexity osaka i.baseLength i.modulusLength *
      iterationCount osaka i.exponentLength i.exponentHead
    i.price osaka =
      max (if osaka then 500 else 200) (if osaka then product else product / 3) := by
  cases osaka with
  | true => rfl
  | false => rfl

/-- Without a base and a modulus there is nothing to multiply before Osaka. -/
theorem ModexpInput.price_of_empty {i : ModexpInput} (hbase : i.baseLength = 0)
    (hmodulus : i.modulusLength = 0) : i.price false = 200 := by
  rw [ModexpInput.price_eq, hbase, hmodulus]
  simp [multiplicationComplexity]

/-- The price over the limit by one of its factors. -/
theorem ModexpInput.not_price_le {osaka : Bool} {available : Nat} {i : ModexpInput}
    (hlimit : modexpProductLimit osaka available <
      multiplicationComplexity osaka i.baseLength i.modulusLength *
        iterationCount osaka i.exponentLength i.exponentHead) :
    ¬ i.price osaka ≤ available := by
  rw [ModexpInput.price_eq]
  exact not_modexpPrice_le hlimit

theorem words_le_square (words : Nat) : words ≤ words * words := by
  cases words with
  | zero => exact Nat.le_refl 0
  | succ n => exact Nat.le_mul_of_pos_right _ (Nat.succ_pos n)

/-- Any other complexity is not zero. -/
theorem complexity_pos {osaka : Bool} {bl ml : Nat} (h : ¬ (¬ osaka = true ∧ bl = 0 ∧ ml = 0)) :
    1 ≤ multiplicationComplexity osaka bl ml := by
  have hsquare : 1 ≤ max bl ml → 1 ≤ ((max bl ml + 7) / 8) ^ 2 := fun hpos =>
    Nat.one_le_pow _ _ (by omega)
  simp only [multiplicationComplexity]
  cases osaka with
  | false =>
    have hpos : 1 ≤ max bl ml := by
      rcases Nat.eq_zero_or_pos (max bl ml) with hzero | hpos
      · exact absurd ⟨Bool.false_ne_true, by omega, by omega⟩ h
      · exact hpos
    exact hsquare hpos
  | true =>
    simp only [if_true]
    split
    · omega
    · next hlong =>
      have := hsquare (by omega)
      omega

theorem modexpGas_of_oversized {fork : Fork} {input : List Byte}
    (hover : decide (.osaka ≤ fork) = true ∧ (ModexpInput.read input).Oversized)
    (available : Nat) : modexpGas fork input available = gasChargeUnaffordable := by
  have hbl := pcWord_toNat input 0 (Nat.le_refl 32)
  have hel := pcWord_toNat input 32 (Nat.le_refl 32)
  have hml := pcWord_toNat input 64 (Nat.le_refl 32)
  simp only [modexpGas, hbl, hel, hml]
  exact if_pos hover

/-- Every input is charged its price, if that is available; from Osaka on with
the exception of an oversized one. -/
theorem modexpGas_of_sized {fork : Fork} {input : List Byte}
    (hsized : ¬ (decide (.osaka ≤ fork) = true ∧ (ModexpInput.read input).Oversized))
    (available : Nat) :
    let osaka := decide (.osaka ≤ fork)
    let i := ModexpInput.read input
    modexpGas fork input available =
      if i.price osaka ≤ available then gasCharge (i.price osaka) else gasChargeUnaffordable := by
  intro osaka i
  have hbl : (pcWord input 0 32).toNat = i.baseLength := pcWord_toNat input 0 (Nat.le_refl 32)
  have hel : (pcWord input 32 32).toNat = i.exponentLength := pcWord_toNat input 32 (Nat.le_refl 32)
  have hml : (pcWord input 64 32).toNat = i.modulusLength := pcWord_toNat input 64 (Nat.le_refl 32)
  have hiterations := @modexpIterations_cases osaka available input
    i.baseLength i.exponentLength
  have hhead : natOfBytes (paddedBytes input (96 + i.baseLength) (min i.exponentLength 32)) =
      i.exponentHead := rfl
  simp only [hhead] at hiterations
  have hosaka : decide (.osaka ≤ fork) = osaka := rfl
  simp only [modexpGas, hosaka, hbl, hel, hml, maxlen_eq, words_eq]
  change (if osaka = true ∧ i.Oversized then _ else _) = _
  replace hsized : ¬ (osaka = true ∧ i.Oversized) := hsized
  rw [if_neg hsized]
  have hlength : osaka = true → i.exponentLength ≤ 1024 := fun ho =>
    Nat.le_of_not_lt fun hlong => hsized ⟨ho, .inr (.inl hlong)⟩
  have hcount : 1 ≤ iterationCount osaka i.exponentLength i.exponentHead := iterationCount_pos _ _ _
  replace hiterations := hiterations hlength
  have hbound := ModexpInput.price_eq osaka i
  simp only at hbound
  have hleast : (if osaka = true then 500 else 200) ≤ i.price osaka := by
    rw [hbound]
    exact Nat.le_max_left _ _
  clear_value osaka i
  rcases Nat.lt_or_ge available (if osaka = true then 500 else 200) with hpoor | hminimum
  · rw [if_pos hpoor, if_neg (Nat.not_le_of_lt (hpoor.trans_le hleast))]
  rw [if_neg (Nat.not_lt_of_ge hminimum)]
  split
  · next hempty =>
    rw [Bool.not_eq_true] at hempty
    obtain ⟨rfl, hbase, hmodulus⟩ := hempty
    have hprice := ModexpInput.price_of_empty hbase hmodulus
    rw [hprice]
    exact (if_pos hminimum).symm
  next hnonempty =>
  have hcomplexity := complexity_pos hnonempty
  have hsize : osaka = true → 500 ≤ available := by
    rintro rfl
    exact hminimum
  have hsquare : modexpProductLimit osaka available <
      (max i.baseLength i.modulusLength + 7) / 8 * ((max i.baseLength i.modulusLength + 7) / 8) →
      ¬ i.price osaka ≤ available := fun h =>
    ModexpInput.not_price_le (lt_mul_of_factor (lt_complexity_of_lt_square rfl hsize h) hcount)
  split
  · next hwords => rw [if_neg (hsquare (hwords.trans_le (words_le_square _)))]
  split
  · next hwords => rw [if_neg (hsquare hwords)]
  rcases @modexpMultiplication_cases osaka available i.baseLength
    i.modulusLength with hmult | ⟨hmult, hlimit⟩
  · rw [hmult]
    dsimp only
    split
    · next hlimit => rw [if_neg (ModexpInput.not_price_le (lt_mul_of_factor hlimit hcount))]
    · rcases hiterations with hiter | ⟨hiter, hlimit⟩
      · rw [hiter, hbound]
        exact modexpTotal_eq hcount
      · have hproduct := lt_mul_of_factor hlimit hcomplexity
        rw [Nat.mul_comm] at hproduct
        rw [hiter, if_neg (ModexpInput.not_price_le hproduct)]
  · rw [hmult, if_neg (ModexpInput.not_price_le (lt_mul_of_factor hlimit hcount))]

/-- From Osaka on an oversized input is rejected; every other input is charged
its price, if that is available. -/
theorem modexpGas_exact (fork : Fork) (input : List Byte) (available : Nat) :
    let osaka := decide (.osaka ≤ fork)
    let i := ModexpInput.read input
    (osaka = true ∧ i.Oversized → modexpGas fork input available = gasChargeUnaffordable) ∧
    (¬ (osaka = true ∧ i.Oversized) → modexpGas fork input available =
      if i.price osaka ≤ available then gasCharge (i.price osaka) else gasChargeUnaffordable) := by
  intro osaka i
  exact ⟨fun hover => modexpGas_of_oversized hover available,
    fun hsized => modexpGas_of_sized hsized available⟩

/-- At Osaka: a base of 2^248 bytes, and no lengths at all. -/
theorem modexpGas_exact_osaka : modexpGas .osaka [1] 1000000 = gasChargeUnaffordable ∧
    modexpGas .osaka [] 500 = gasCharge 500 := by
  have hlong := (modexpGas_exact .osaka [1] 1000000).1 (by decide +kernel)
  have hempty := (modexpGas_exact .osaka [] 500).2 (by decide +kernel)
  have hprice : (ModexpInput.read []).price true = 500 := by decide +kernel
  exact ⟨hlong, hempty.trans (if_pos (Nat.le_of_eq hprice) |>.trans (congrArg gasCharge hprice))⟩

end EvmSail
