/-
# `EvmSail.Evm.Modexp` — modular exponentiation and what it refuses

`run_modexp` computes what has been paid for, on fields that it hands to
the accelerator.  The accelerator pads the input to its declared fields,
and works in buffers of a fixed size.  Before Osaka no price keeps an
input inside these buffers: an exponent of many zero bytes costs little.
What is paid for is therefore computed exactly when it also fits
(`ModexpInput.Fits`), and refused otherwise.

The exponentiation of the accelerator library is the parameter `modexp`.
The bytes of the output buffer are the parameter `outputBytes`: the guest
has `GUEST_OUTPUT_BYTES`, the reference host what it can allocate.
-/
import EvmSail.Evm.ModexpGas

namespace EvmSail

/-! ## The accelerator -/

/-- `ACCELERATOR_INPUT_MAX`. -/
def acceleratorInputMax : Nat := 2097152

/-- `GUEST_ACCELERATOR_INPUT_BYTES`. -/
def guestAcceleratorInputBytes : Nat := 2 * 1024 * 1024

/-- The input, cut or padded with zeros to a length that the scratch holds. -/
def materializeInput (input : List Byte) (paddedLen : Nat) : Option (List Byte) :=
  if paddedLen > guestAcceleratorInputBytes then none
  else
    let copied := min input.length paddedLen
    some (input.take copied ++ List.replicate (paddedLen - copied) 0)

/-- A precompile's outcome: success, and the output bytes. -/
structure PrecompileResult where
  success : Bool
  output : List Byte
  deriving DecidableEq, Repr

def precompileSuccess (output : List Byte) : PrecompileResult := ⟨true, output⟩

def precompileFailure : PrecompileResult := ⟨false, []⟩

section

variable (outputBytes : Nat) (modexp : List Byte → List Byte → List Byte → List Byte)

/-- The result of the library, padded on the left to the modulus. -/
def zkvmModexp (base exponent modulus : List Byte) : Option (List Byte) :=
  let r := modexp base exponent modulus
  if r.length > modulus.length then none
  else some (List.replicate (modulus.length - r.length) 0 ++ r)

/-- The three fields behind the header, and a reserved output. -/
def acceleratorModexp (input : List Byte) (baseLen exponentLen modulusLen : Nat) :
    Option (List Byte) :=
  match materializeInput input (96 + baseLen + exponentLen + modulusLen) with
  | none => none
  | some materialized =>
    if modulusLen > outputBytes then none
    else
      zkvmModexp modexp (subSlice materialized 96 baseLen)
        (subSlice materialized (96 + baseLen) exponentLen)
        (subSlice materialized (96 + baseLen + exponentLen) modulusLen)

def acceleratorResult : Option (List Byte) → PrecompileResult
  | some output => precompileSuccess output
  | none => precompileFailure

/-- `MODEXP`. -/
def runModexp (input : List Byte) : PrecompileResult :=
  let baseLen := (pcWord input 0 32).toNat
  let exponentLen := (pcWord input 32 32).toNat
  let modulusLen := (pcWord input 64 32).toNat
  if modulusLen = 0 then precompileSuccess []
  else if acceleratorInputMax < baseLen ∨ acceleratorInputMax < exponentLen ∨
      acceleratorInputMax < modulusLen then precompileFailure
  else
    let exponentEnd := 96 + baseLen + exponentLen
    let inputEnd := exponentEnd + modulusLen
    if acceleratorInputMax < inputEnd then precompileFailure
    else
      acceleratorResult
        (acceleratorModexp outputBytes modexp input baseLen exponentLen modulusLen)

end

/-! ## What is to be computed -/

/-- The power modulo the modulus; nothing is left modulo zero. -/
def modexpValue (base exponent modulus : Nat) : Nat :=
  if modulus = 0 then 0 else base ^ exponent % modulus

/-- The fields of an input are taken from it with zeros behind its end. -/
def ModexpInput.value (i : ModexpInput) (input : List Byte) : Nat :=
  modexpValue (natOfBytes (paddedBytes input 96 i.baseLength))
    (natOfBytes (paddedBytes input (96 + i.baseLength) i.exponentLength))
    (natOfBytes (paddedBytes input (96 + i.baseLength + i.exponentLength) i.modulusLength))

/-- The header and the fields fit the accelerator, and the result its output. -/
def ModexpInput.Fits (outputBytes : Nat) (i : ModexpInput) : Prop :=
  96 + i.baseLength + i.exponentLength + i.modulusLength ≤ 2 ^ 21 ∧
    i.modulusLength ≤ outputBytes

instance (outputBytes : Nat) (i : ModexpInput) : Decidable (i.Fits outputBytes) :=
  inferInstanceAs (Decidable (_ ∧ _))

/-- The library returns the number in at most the bytes of the modulus. -/
def ComputesModexp (modexp : List Byte → List Byte → List Byte → List Byte) : Prop :=
  ∀ base exponent modulus : List Byte,
    (modexp base exponent modulus).length ≤ modulus.length ∧
      natOfBytes (modexp base exponent modulus) =
        modexpValue (natOfBytes base) (natOfBytes exponent) (natOfBytes modulus)

/-! ## The fields -/

/-- The materialized input has zeros where the input has ended. -/
theorem materializeInput_eq {input : List Byte} {paddedLen : Nat}
    (h : paddedLen ≤ guestAcceleratorInputBytes) :
    materializeInput input paddedLen = some (paddedBytes input 0 paddedLen) := by
  rw [materializeInput, if_neg (Nat.not_lt.mpr h)]
  refine congrArg some (List.ext_getElem? fun i => ?_)
  rcases Nat.lt_or_ge i paddedLen with hi | hi
  · have hpadded : (paddedBytes input 0 paddedLen)[i]? = some (input.getD i 0) := by
      rw [paddedBytes, List.getElem?_map, List.getElem?_range hi, Option.map_some, Nat.zero_add]
    rw [hpadded]
    rcases Nat.lt_or_ge i input.length with hin | hout
    · rw [List.getElem?_append_left (by rw [List.length_take]; omega),
        List.getElem?_take_of_lt (by omega), List.getD_eq_getElem?_getD,
        List.getElem?_eq_getElem hin, Option.getD_some]
    · rw [List.getElem?_append_right (by rw [List.length_take]; omega),
        List.getElem?_replicate, if_pos (by rw [List.length_take]; omega),
        List.getD_eq_getElem?_getD, List.getElem?_eq_none hout, Option.getD_none]
  · rw [List.getElem?_eq_none, List.getElem?_eq_none]
    · rw [length_paddedBytes]
      exact hi
    · rw [List.length_append, List.length_take, List.length_replicate]
      omega

theorem subSlice_paddedBytes (input : List Byte) {off len total : Nat} (h : off + len ≤ total) :
    subSlice (paddedBytes input 0 total) off len = paddedBytes input off len := by
  refine List.ext_getElem? fun i => ?_
  rw [subSlice, List.getElem?_take]
  split
  · rename_i hi
    rw [List.getElem?_drop, paddedBytes, paddedBytes, List.getElem?_map, List.getElem?_map,
      List.getElem?_range (by omega), List.getElem?_range hi, Option.map_some, Option.map_some,
      Nat.zero_add]
  · rename_i hi
    rw [List.getElem?_eq_none]
    rw [length_paddedBytes]
    omega

section

variable {outputBytes : Nat} {modexp : List Byte → List Byte → List Byte → List Byte}

theorem zkvmModexp_eq (hmodexp : ComputesModexp modexp) (base exponent modulus : List Byte) :
    zkvmModexp modexp base exponent modulus =
      some (bytesOfNat modulus.length
        (modexpValue (natOfBytes base) (natOfBytes exponent) (natOfBytes modulus))) := by
  obtain ⟨hlen, hvalue⟩ := hmodexp base exponent modulus
  have hback := bytesOfNat_natOfBytes (List.replicate
    (modulus.length - (modexp base exponent modulus).length) 0 ++ modexp base exponent modulus)
  rw [natOfBytes_zeros_append, hvalue, List.length_append, List.length_replicate,
    Nat.sub_add_cancel hlen] at hback
  rw [zkvmModexp, if_neg (Nat.not_lt.mpr hlen), ← hback]

/-- The accelerator computes exactly what fits its buffers. -/
theorem acceleratorModexp_eq (hmodexp : ComputesModexp modexp) (input : List Byte)
    (i : ModexpInput) :
    acceleratorModexp outputBytes modexp input i.baseLength i.exponentLength i.modulusLength =
      if i.Fits outputBytes then some (bytesOfNat i.modulusLength (i.value input)) else none := by
  have hfield : ∀ off len, off + len ≤ 96 + i.baseLength + i.exponentLength + i.modulusLength →
      subSlice (paddedBytes input 0 (96 + i.baseLength + i.exponentLength + i.modulusLength))
        off len = paddedBytes input off len := fun _ _ h => subSlice_paddedBytes input h
  by_cases hsize : 96 + i.baseLength + i.exponentLength + i.modulusLength ≤ 2 ^ 21
  · rw [acceleratorModexp, materializeInput_eq hsize]
    dsimp only
    by_cases hout : i.modulusLength ≤ outputBytes
    · rw [if_neg (Nat.not_lt.mpr hout), if_pos ⟨hsize, hout⟩, zkvmModexp_eq hmodexp,
        hfield 96 i.baseLength (by omega), hfield _ i.exponentLength (by omega),
        hfield _ i.modulusLength (by omega), length_paddedBytes]
      rfl
    · rw [if_pos (Nat.lt_of_not_le hout), if_neg fun h => hout h.2]
  · have hover : 96 + i.baseLength + i.exponentLength + i.modulusLength >
        guestAcceleratorInputBytes := Nat.lt_of_not_le hsize
    rw [acceleratorModexp, materializeInput, if_pos hover, if_neg fun h => hsize h.1]

/-- What the precompile returns, for every input. -/
theorem runModexp_eq (hmodexp : ComputesModexp modexp) (input : List Byte) :
    let i := ModexpInput.read input
    runModexp outputBytes modexp input =
      if i.modulusLength = 0 then precompileSuccess []
      else if i.Fits outputBytes then precompileSuccess (bytesOfNat i.modulusLength (i.value input))
      else precompileFailure := by
  intro i
  have hbl : (pcWord input 0 32).toNat = i.baseLength := pcWord_toNat input 0 (Nat.le_refl 32)
  have hel : (pcWord input 32 32).toNat = i.exponentLength :=
    pcWord_toNat input 32 (Nat.le_refl 32)
  have hml : (pcWord input 64 32).toNat = i.modulusLength := pcWord_toNat input 64 (Nat.le_refl 32)
  simp only [runModexp, hbl, hel, hml]
  clear_value i
  split
  · rfl
  · have hover : acceleratorInputMax < 96 + i.baseLength + i.exponentLength + i.modulusLength →
        ¬ i.Fits outputBytes := fun hlt hfits => absurd hfits.1 (Nat.not_le_of_lt hlt)
    split
    · rename_i hfield
      rw [if_neg (hover (by omega))]
    · split
      · rename_i hend
        rw [if_neg (hover hend)]
      · rw [acceleratorModexp_eq hmodexp]
        split
        · rfl
        · rfl

end

/-- A library that returns the number without leading zeros. -/
def minimalModexp (base exponent modulus : List Byte) : List Byte :=
  bigEndian (modexpValue (natOfBytes base) (natOfBytes exponent) (natOfBytes modulus))

theorem minimalModexp_computes : ComputesModexp minimalModexp := by
  intro base exponent modulus
  refine ⟨?_, natOfBytes_bigEndian _⟩
  rw [minimalModexp, length_bigEndian, byteLength_le_iff, modexpValue]
  have hlt := natOfBytes_lt modulus
  split
  · exact Nat.pow_pos (by decide)
  · rename_i hne
    exact (Nat.mod_lt _ (Nat.pos_of_ne_zero hne)).trans hlt

/-- Before Osaka an input whose price is available is charged its price.  It
succeeds with the power in as many bytes as the modulus has, if the modulus has no
bytes or the input fits the accelerator; any other one fails. -/
theorem runModexp_affordable {outputBytes : Nat}
    {modexp : List Byte → List Byte → List Byte → List Byte}
    (hmodexp : ComputesModexp modexp) {fork : Fork} (hfork : fork < .osaka) (input : List Byte)
    {available : Nat} (hprice : (ModexpInput.read input).price false ≤ available) :
    let i := ModexpInput.read input
    modexpGas fork input available = gasCharge (i.price false) ∧
      (i.modulusLength = 0 → runModexp outputBytes modexp input = precompileSuccess []) ∧
      (i.modulusLength ≠ 0 → i.Fits outputBytes →
        runModexp outputBytes modexp input =
          precompileSuccess (bytesOfNat i.modulusLength (i.value input))) ∧
      (i.modulusLength ≠ 0 → ¬ i.Fits outputBytes →
        runModexp outputBytes modexp input = precompileFailure) := by
  intro i
  have hosaka : decide (Fork.osaka ≤ fork) = false := by
    rw [decide_eq_false_iff_not, Fork.le_iff]
    exact Nat.not_le_of_lt (Fork.lt_iff.mp hfork)
  have hsized : ¬ (decide (.osaka ≤ fork) = true ∧ (ModexpInput.read input).Oversized) :=
    fun h => Bool.false_ne_true (hosaka.symm.trans h.1)
  have hgas := modexpGas_of_sized hsized available
  rw [hosaka] at hgas
  have hrun := @runModexp_eq outputBytes modexp hmodexp input
  refine ⟨hgas.trans (if_pos hprice), fun hzero => ?_, fun hne hfits => ?_, fun hne hfits => ?_⟩
  · exact hrun.trans (if_pos hzero)
  · exact hrun.trans ((if_neg hne).trans (if_pos hfits))
  · exact hrun.trans ((if_neg hne).trans (if_neg hfits))

/-- Three to the second power, modulo five. -/
def squareInput : List Byte :=
  bytesOfNat 32 1 ++ bytesOfNat 32 1 ++ bytesOfNat 32 1 ++ [3, 2, 5]

/-- Three squared modulo five, with the price and the room there is. -/
theorem runModexp_affordable_square :
    modexpGas .prague squareInput 200 = gasCharge 200 ∧
      runModexp 1 minimalModexp squareInput = precompileSuccess [4] := by
  have hprice : (ModexpInput.read squareInput).price false = 200 := by decide +kernel
  have hfork : Fork.prague < .osaka := by decide
  have h := @runModexp_affordable 1 minimalModexp minimalModexp_computes .prague hfork squareInput
    200 (Nat.le_of_eq hprice)
  dsimp only at h
  rw [hprice] at h
  refine ⟨h.1, (h.2.2.1 (by decide +kernel) (by decide +kernel)).trans ?_⟩
  decide +kernel

/-- A header alone: two million bytes of exponent, and one of modulus. -/
def longExponentInput : List Byte :=
  List.replicate 32 0 ++ bytesOfNat 32 (2 ^ 21) ++ bytesOfNat 32 1

/-- What is affordable does not always succeed. -/
theorem not_runModexp_total : ¬ ∀ (outputBytes : Nat)
    (modexp : List Byte → List Byte → List Byte → List Byte), ComputesModexp modexp →
    ∀ (fork : Fork) (input : List Byte) (available : Nat), fork < .osaka →
      (ModexpInput.read input).price false ≤ available →
      runModexp outputBytes modexp input = precompileSuccess
        (bytesOfNat (ModexpInput.read input).modulusLength
          ((ModexpInput.read input).value input)) := by
  intro htotal
  have hsuccess := htotal 1048576 minimalModexp minimalModexp_computes .prague longExponentInput
    5592320 (by decide) (by decide +kernel)
  have hfailure := @runModexp_eq 1048576 minimalModexp minimalModexp_computes longExponentInput
  have hmodulus : (ModexpInput.read longExponentInput).modulusLength ≠ 0 := by decide +kernel
  have hfits : ¬ (ModexpInput.read longExponentInput).Fits 1048576 := by decide +kernel
  rw [hsuccess] at hfailure
  have hboth := hfailure.trans ((if_neg hmodulus).trans (if_neg hfits))
  exact Bool.false_ne_true (congrArg PrecompileResult.success hboth).symm

end EvmSail
