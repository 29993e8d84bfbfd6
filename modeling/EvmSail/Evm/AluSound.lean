/-
# `EvmSail.Evm.AluSound` — the word operations against two's complement

A word stands for a natural number and, read in two's complement, for an
integer.  Every signed, shift and bit operation of `EvmSail.Evm.Alu` is
determined here by the number or the integer it denotes: the quotient and
the remainder towards zero, the order of the integers, the floor of a
division by a power of two, the balanced residue of the low bytes, and the
unreduced sum and product.  The exponentiation loop is the power modulo
`2^256`.
-/
import EvmSail.Evm.Alu

namespace EvmSail

/-! ## Signs and magnitudes -/

@[simp] theorem wordBit_255 (value : Word) : wordBit value 255 = value.msb := by
  rw [wordBit, BitVec.msb_eq_getLsbD_last]

@[simp] theorem wordNegate_eq (value : Word) : wordNegate value = -value := BitVec.zero_sub value

@[simp] theorem wordDiv_eq (dividend divisor : Word) :
    wordDiv dividend divisor = dividend / divisor := by
  apply BitVec.eq_of_toNat_eq
  rw [wordDiv, BitVec.toNat_udiv]
  split
  · rename_i hzero
    rw [hzero]
    exact (Nat.div_zero _).symm
  · rw [BitVec.toNat_ofNat]
    exact Nat.mod_eq_of_lt ((Nat.div_le_self _ _).trans_lt dividend.isLt)

theorem wordMod_eq {dividend divisor : Word} (hdivisor : divisor ≠ 0) :
    wordMod dividend divisor = dividend % divisor := by
  apply BitVec.eq_of_toNat_eq
  rw [wordMod, if_neg hdivisor, BitVec.toNat_umod, BitVec.toNat_ofNat]
  exact Nat.mod_eq_of_lt ((Nat.mod_le _ _).trans_lt dividend.isLt)

theorem wordAbs_eq (value : Word) : wordAbs value = if value.msb then -value else value := by
  rw [wordAbs, wordBit_255, wordNegate_eq]

/-! ## Signed arithmetic -/

theorem aluSdiv_eq {a b : Word} (hb : b ≠ 0) : aluSdiv a b = a.sdiv b := by
  simp only [aluSdiv, if_neg hb, wordAbs_eq, wordDiv_eq, wordBit_255, wordNegate_eq]
  rw [BitVec.sdiv_eq]
  cases a.msb <;> cases b.msb <;> simp

/-- The quotient towards zero; the one quotient that is no word wraps around. -/
theorem toInt_aluSdiv (a b : Word) :
    (aluSdiv a b).toInt = (a.toInt.tdiv b.toInt).bmod (2 ^ 256) := by
  by_cases hb : b = 0
  · subst hb
    simp [aluSdiv]
  · rw [aluSdiv_eq hb, BitVec.toInt_sdiv]

theorem aluSmod_eq {a b : Word} (hb : b ≠ 0) : aluSmod a b = a.srem b := by
  have habs : (if b.msb then -b else b) ≠ 0 := by
    split
    · exact fun h => hb (BitVec.neg_eq_zero_iff.mp h)
    · exact hb
  simp only [aluSmod, if_neg hb, wordAbs_eq, wordMod_eq habs, wordBit_255, wordNegate_eq]
  rw [BitVec.srem_eq]
  cases a.msb <;> cases b.msb <;> simp

/-- The remainder of that quotient, which has the sign of the dividend. -/
theorem toInt_aluSmod (a b : Word) :
    (aluSmod a b).toInt = if b = 0 then 0 else a.toInt.tmod b.toInt := by
  split
  · rename_i hb
    simp [aluSmod, hb]
  · rename_i hb
    rw [aluSmod_eq hb, BitVec.toInt_srem]

theorem wordSlt_eq (a b : Word) : wordSlt a b = decide (a.toInt < b.toInt) := by
  rw [← BitVec.slt_eq_decide]
  simp only [wordSlt, wordBit_255]
  cases ha : a.msb <;> cases hb : b.msb
  case false.false =>
    exact (BitVec.slt_eq_ult_of_msb_eq (ha.trans hb.symm)).symm
  case true.true =>
    exact (BitVec.slt_eq_ult_of_msb_eq (ha.trans hb.symm)).symm
  case false.true =>
    rw [BitVec.slt_eq_not_ult_of_msb_neq (by simp [ha, hb]), BitVec.ult_eq_msb_of_msb_neq
      (by simp [ha, hb]), hb]
    rfl
  case true.false =>
    rw [BitVec.slt_eq_not_ult_of_msb_neq (by simp [ha, hb]), BitVec.ult_eq_msb_of_msb_neq
      (by simp [ha, hb]), hb]
    rfl

theorem aluSlt_eq (a b : Word) : aluSlt a b = if a.toInt < b.toInt then 1 else 0 := by
  rw [aluSlt, wordSlt_eq, wordOfBool]
  simp only [decide_eq_true_eq]

theorem aluSgt_eq (a b : Word) : aluSgt a b = if b.toInt < a.toInt then 1 else 0 := by
  rw [aluSgt, wordSlt_eq, wordOfBool]
  simp only [decide_eq_true_eq]

/-! ## Shifts -/

/-- An amount of 256 or more shifts every bit out. -/
theorem toNat_div_of_le (v : Word) {n : Nat} (hn : 256 ≤ n) : v.toNat / 2 ^ n = 0 :=
  Nat.div_eq_of_lt (v.isLt.trans_le (Nat.pow_le_pow_right (by decide) hn))

theorem toNat_aluShl (s v : Word) : (aluShl s v).toNat = v.toNat * 2 ^ s.toNat % 2 ^ 256 := by
  rw [aluShl]
  split
  · rw [BitVec.toNat_shiftLeft, Nat.shiftLeft_eq]
  · rename_i hlarge
    have hs : 256 ≤ s.toNat := BitVec.le_def.mp (BitVec.not_lt.mp hlarge)
    have hdvd : 2 ^ 256 ∣ v.toNat * 2 ^ s.toNat := (Nat.pow_dvd_pow 2 hs).mul_left _
    exact (Nat.mod_eq_zero_of_dvd hdvd).symm

theorem toNat_aluShr (s v : Word) : (aluShr s v).toNat = v.toNat / 2 ^ s.toNat := by
  rw [aluShr]
  split
  · rw [BitVec.toNat_ushiftRight, Nat.shiftRight_eq_div_pow]
  · rename_i hlarge
    exact (toNat_div_of_le v (BitVec.le_def.mp (BitVec.not_lt.mp hlarge))).symm

theorem wordArithmeticShiftRight_eq (v : Word) {n : Nat} (hn : n ≤ 256) :
    wordArithmeticShiftRight v n = v.sshiftRight n := by
  simp only [wordArithmeticShiftRight, wordBit_255]
  cases hv : v.msb with
  | false => exact (BitVec.sshiftRight_eq_of_msb_false hv).symm
  | true =>
    rw [BitVec.sshiftRight_eq_of_msb_true hv, if_pos rfl]
    ext i hi
    simp only [BitVec.getElem_or, BitVec.getElem_ushiftRight, BitVec.getElem_shiftLeft,
      BitVec.getElem_not, BitVec.getLsbD_not, BitVec.getElem_allOnes]
    by_cases hfill : i < 256 - n
    · have hin : n + i < 256 := by omega
      simp [hfill, hin]
    · have hout : 256 ≤ n + i := by omega
      simp [hfill, hout]

/-- The floor of the quotient by a power of two, for every amount. -/
theorem toInt_aluSar (s v : Word) : (aluSar s v).toInt = v.toInt / 2 ^ s.toNat := by
  rw [aluSar]
  split
  · rename_i hsmall
    have hs : s.toNat ≤ 256 := (BitVec.lt_def.mp hsmall).le
    rw [wordArithmeticShiftRight_eq v hs, BitVec.toInt_sshiftRight, Int.shiftRight_eq_div_pow]
    norm_cast
  · rename_i hlarge
    have hs : 256 ≤ s.toNat := BitVec.le_def.mp (BitVec.not_lt.mp hlarge)
    have hpow : (2 : Int) ^ (256 - 1) ≤ 2 ^ s.toNat :=
      pow_le_pow_right₀ (by decide) (Nat.le_trans (by decide) hs)
    have hlow := BitVec.le_toInt v
    have hhigh := BitVec.toInt_lt (x := v)
    rw [wordBit_255]
    split
    · rename_i hneg
      have hlt : v.toInt < 0 := BitVec.toInt_neg_of_msb_true hneg
      rw [BitVec.toInt_allOnes, if_pos (by decide)]
      refine le_antisymm ?_ ?_
      · rw [Int.le_ediv_iff_mul_le (by positivity)]
        linarith
      · exact Int.lt_add_one_iff.mp ((Int.ediv_lt_iff_lt_mul (by positivity)).mpr (by linarith))
    · rename_i hpos
      have hge : 0 ≤ v.toInt := BitVec.toInt_nonneg_of_msb_false (Bool.eq_false_iff.mpr hpos)
      exact (Int.ediv_eq_zero_of_lt hge (by linarith)).symm

/-! ## Sign extension and bytes -/

theorem getElem_lowMask {width i : Nat} (hwidth : width ≤ 256) (hi : i < 256) :
    (((1 : Word) <<< width) - 1)[i] = decide (i < width) := by
  have hpos : 1 ≤ 2 ^ width := Nat.one_le_two_pow
  have hle : 2 ^ width ≤ 2 ^ 256 := Nat.pow_le_pow_right (by decide) hwidth
  have hmask : ((1 : Word) <<< width) - 1 = BitVec.ofNat 256 (2 ^ width - 1) := by
    apply BitVec.eq_of_toNat_eq
    rw [BitVec.toNat_sub, BitVec.toNat_shiftLeft, BitVec.toNat_ofNat, Nat.shiftLeft_eq,
      show (1 : Word).toNat = 1 from rfl, Nat.one_mul]
    generalize 2 ^ width = p at hpos hle
    omega
  rw [hmask, ← BitVec.getLsbD_eq_getElem, BitVec.getLsbD_ofNat, Nat.testBit_two_pow_sub_one,
    decide_eq_true hi, Bool.true_and]

theorem isolatedSign_eq_one (value : Word) (n : Nat) :
    (value >>> n) &&& 1 = 1 ↔ value.getLsbD n = true := by
  have hbit : (value >>> n) &&& 1 = (BitVec.ofBool (value.getLsbD n)).setWidth 256 := by
    refine BitVec.and_one_eq_setWidth_ofBool_getLsbD.trans ?_
    rw [BitVec.getLsbD_ushiftRight, Nat.add_zero]
  rw [hbit]
  cases value.getLsbD n with
  | false => decide
  | true => decide

/-- The low bytes up to the index, read as a signed number of their width. -/
theorem aluSignextend_eq {k v : Word} (hk : k.toNat < 32) :
    aluSignextend k v = (v.setWidth (k.toNat * 8 + 8)).signExtend 256 := by
  have hwidth : k.toNat * 8 + 8 ≤ 256 := by omega
  have hmsb : (v.setWidth (k.toNat * 8 + 8)).msb = v.getLsbD (k.toNat * 8 + 7) := by
    rw [BitVec.msb_setWidth]
    simp
  simp only [aluSignextend, if_pos (BitVec.lt_def.mpr hk : k < 32), isolatedSign_eq_one]
  ext i hi
  rw [BitVec.getElem_signExtend, hmsb]
  split
  · rename_i hsign
    simp only [BitVec.getElem_or, BitVec.getElem_and, BitVec.getElem_not,
      getElem_lowMask hwidth hi, hsign]
    by_cases hlow : i < k.toNat * 8 + 8
    · simp [hlow, BitVec.getLsbD_eq_getElem hi]
    · simp [hlow]
  · rename_i hsign
    simp only [BitVec.getElem_and, getElem_lowMask hwidth hi, hsign]
    by_cases hlow : i < k.toNat * 8 + 8
    · simp [hlow, BitVec.getLsbD_eq_getElem hi]
    · simp [hlow]

/-- From index 31 on the word is its own extension. -/
theorem toInt_aluSignextend (k v : Word) :
    (aluSignextend k v).toInt = Int.bmod v.toNat (2 ^ (8 * (min k.toNat 31 + 1))) := by
  by_cases hk : k.toNat < 32
  · have hwidth : k.toNat * 8 + 8 = 8 * (min k.toNat 31 + 1) := by omega
    rw [aluSignextend_eq hk, BitVec.toInt_signExtend_of_le (by omega), BitVec.toInt_setWidth,
      hwidth]
  · have hwidth : 8 * (min k.toNat 31 + 1) = 256 := by omega
    rw [aluSignextend, if_neg (mt BitVec.lt_def.mp hk), hwidth, BitVec.toInt_eq_toNat_bmod]

theorem toNat_aluByte (i x : Word) :
    (aluByte i x).toNat = if i.toNat < 32 then x.toNat / 256 ^ (31 - i.toNat) % 256 else 0 := by
  rw [aluByte]
  have hlt : i < 32 ↔ i.toNat < 32 := BitVec.lt_def
  by_cases hi : i.toNat < 32
  · rw [if_pos (hlt.mpr hi), if_pos hi, BitVec.toNat_setWidth, BitVec.toNat_setWidth,
      BitVec.toNat_ushiftRight, Nat.shiftRight_eq_div_pow]
    have hpow : (2 : Nat) ^ ((31 - i.toNat) * 8) = 256 ^ (31 - i.toNat) := by
      rw [Nat.mul_comm, pow_mul]
      norm_num
    rw [hpow]
    exact Nat.mod_eq_of_lt ((Nat.mod_lt _ (by decide)).trans (by decide))
  · rw [if_neg (mt hlt.mp hi), if_neg hi]
    rfl

theorem toNat_aluClz (x : Word) : (aluClz x).toNat = 256 - x.toNat.size := by
  rw [aluClz, wordBitLength_eq_size, BitVec.toNat_ofNat]
  exact Nat.mod_eq_of_lt ((Nat.sub_le _ _).trans_lt (by decide))

/-! ## Modular arithmetic -/

theorem toNat_pos {n : Word} (hn : n ≠ 0) : 0 < n.toNat :=
  Nat.pos_of_ne_zero fun h => hn (BitVec.eq_of_toNat_eq h)

theorem toNat_aluAddmod (a b n : Word) :
    (aluAddmod a b n).toNat = if n = 0 then 0 else (a.toNat + b.toNat) % n.toNat := by
  rw [aluAddmod]
  split
  · rfl
  · rename_i hn
    rw [BitVec.toNat_ofNat]
    exact Nat.mod_eq_of_lt ((Nat.mod_lt _ (toNat_pos hn)).trans n.isLt)

theorem toNat_aluMulmod (a b n : Word) :
    (aluMulmod a b n).toNat = if n = 0 then 0 else a.toNat * b.toNat % n.toNat := by
  rw [aluMulmod]
  split
  · rfl
  · rename_i hn
    rw [BitVec.toNat_ofNat]
    exact Nat.mod_eq_of_lt ((Nat.mod_lt _ (toNat_pos hn)).trans n.isLt)

/-- The signed, shift and bit operations on every pair and triple of words: signed operations on the
integers in two's complement, the others on the numbers; a zero divisor gives zero. -/
theorem alu_twosComplement (a b n : Word) :
    (aluSdiv a b).toInt = (if b = 0 then 0 else (a.toInt.tdiv b.toInt).bmod (2 ^ 256)) ∧
    (aluSmod a b).toInt = (if b = 0 then 0 else a.toInt.tmod b.toInt) ∧
    aluSlt a b = (if a.toInt < b.toInt then 1 else 0) ∧
    aluSgt a b = (if b.toInt < a.toInt then 1 else 0) ∧
    (aluSar a b).toInt = b.toInt / 2 ^ a.toNat ∧
    (aluShl a b).toNat = b.toNat * 2 ^ a.toNat % 2 ^ 256 ∧
    (aluShr a b).toNat = b.toNat / 2 ^ a.toNat ∧
    (aluSignextend a b).toInt = Int.bmod b.toNat (2 ^ (8 * (min a.toNat 31 + 1))) ∧
    (aluByte a b).toNat = (if a.toNat < 32 then b.toNat / 256 ^ (31 - a.toNat) % 256 else 0) ∧
    (aluClz a).toNat = 256 - a.toNat.size ∧
    (aluAddmod a b n).toNat = (if n = 0 then 0 else (a.toNat + b.toNat) % n.toNat) ∧
    (aluMulmod a b n).toNat = (if n = 0 then 0 else a.toNat * b.toNat % n.toNat) := by
  have hsdiv : (aluSdiv a b).toInt =
      if b = 0 then 0 else (a.toInt.tdiv b.toInt).bmod (2 ^ 256) := by
    rw [toInt_aluSdiv]
    split
    · rename_i hb
      simp [hb]
    · rfl
  exact ⟨hsdiv, toInt_aluSmod a b, aluSlt_eq a b, aluSgt_eq a b, toInt_aluSar a b,
    toNat_aluShl a b, toNat_aluShr a b, toInt_aluSignextend a b, toNat_aluByte a b, toNat_aluClz a,
    toNat_aluAddmod a b n, toNat_aluMulmod a b n⟩

/-! ## Exponentiation -/

/-- The lowest bit of the exponent and the rest of it. -/
theorem pow_split (b e : Word) :
    (if wordBit e 0 then b else 1) * (b * b) ^ (e.toNat / 2) = b ^ e.toNat := by
  have hbit : wordBit e 0 = decide (e.toNat % 2 = 1) := Nat.testBit_zero e.toNat
  have hsquare : (b * b) ^ (e.toNat / 2) = b ^ (2 * (e.toNat / 2)) := by
    rw [pow_mul, pow_two]
  rw [hsquare, hbit]
  rcases Nat.mod_two_eq_zero_or_one e.toNat with heven | hodd
  · rw [if_neg (by simp [heven]), one_mul]
    congr 1
    omega
  · rw [if_pos (by simp [hodd]), ← pow_succ']
    congr 1
    omega

/-- What the remaining rounds still owe: the power by the bits that are left. -/
theorem expRounds_eq {remaining : Nat} {result b e : Word} (hlength : e.toNat < 2 ^ remaining) :
    expRounds remaining result b e = result * b ^ e.toNat := by
  induction remaining generalizing result b e with
  | zero =>
    have hzero : e.toNat = 0 := Nat.lt_one_iff.mp hlength
    rw [expRounds, hzero, pow_zero, mul_one]
  | succ remaining ih =>
    have hhalf : (e >>> 1).toNat = e.toNat / 2 := by
      rw [BitVec.toNat_ushiftRight, Nat.shiftRight_eq_div_pow, pow_one]
    have hrest : (e >>> 1).toNat < 2 ^ remaining := by
      rw [hhalf]
      omega
    have hround : (if wordBit e 0 then result * b else result) =
        result * (if wordBit e 0 then b else 1) := by
      rw [mul_ite, mul_one]
    -- the squaring that the last round skips would only be raised to the power zero
    have hsquare : (if remaining + 1 > 1 then b * b else b) ^ (e >>> 1).toNat =
        (b * b) ^ (e >>> 1).toNat := by
      split
      · rfl
      · have hlast : (e >>> 1).toNat = 0 := by
          have hremaining : remaining = 0 := by omega
          rw [hremaining, pow_zero] at hrest
          exact Nat.lt_one_iff.mp hrest
        rw [hlast, pow_zero, pow_zero]
    simp only [expRounds]
    rw [ih hrest, hsquare, hhalf, hround, mul_assoc, pow_split]

theorem aluExp_eq (b e : Word) : aluExp b e = b ^ e.toNat := by
  have hlength : e.toNat < 2 ^ wordBitLength e := by
    rw [wordBitLength_eq_size]
    exact Nat.lt_size_self e.toNat
  rw [aluExp, expRounds_eq hlength]
  exact one_mul _

theorem wordByteLength_le_iff (e : Word) (n : Nat) : wordByteLength e ≤ n ↔ e.toNat < 256 ^ n := by
  have hpow : (256 : Nat) ^ n = 2 ^ (8 * n) := by
    rw [pow_mul]
    norm_num
  rw [hpow, ← Nat.size_le, ← wordBitLength_eq_size]
  simp only [wordByteLength]
  split
  · omega
  · omega

/-- The power modulo `2^256`, and the least number of bytes that hold the exponent. -/
theorem aluExp_pow (b e : Word) :
    (aluExp b e).toNat = b.toNat ^ e.toNat % 2 ^ 256 ∧
    ∀ n, wordByteLength e ≤ n ↔ e.toNat < 256 ^ n := by
  refine ⟨?_, wordByteLength_le_iff e⟩
  rw [aluExp_eq, BitVec.toNat_pow]

end EvmSail
