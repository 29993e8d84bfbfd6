/-
# `EvmSail.Evm.BlobGasChain` — the excess blob gas never leaves its range

The loop of `fake_exponential_word` computes the integer exponential or
finds that it does not fit a word (`fakeExponentialWord_eq`), and a header
field that `next_excess_blob_gas` computes is the one of the formula
(`nextExcessBlobGas_eq`).

Over a chain of blocks the exponential is held down by what a block's
senders can pay.  With `d` the update fraction, an exponential at `178 d`
no longer fits a word, one at `177 d` still does, and one at `166 d`
makes a single blob dearer than any balance: a block behind such a header
has no blobs, so its child's excess is not larger than its own.
-/
import EvmSail.Evm.BlobGas
import EvmSail.Lib.FakeExponential

namespace EvmSail

open Fallible FakeExponential

/-! ## The loop and the exponential -/

/-- A loop behind `termIndex` accumulators, each of them at least one, ends
with the whole sum if that is below the limit, and rejects otherwise. -/
theorem fakeExponentialLoop_eq {limit d n : Nat} (s : FakeExponentialState)
    (hindex : s.termIndex ≤ s.output + 1) (houtput : s.output < limit) :
    let total := s.output + sumFrom n d s.termIndex s.numeratorAccum
    (total < limit → ∃ s', fakeExponentialLoop limit d n s = .ok s' ∧ s'.output = total) ∧
      (limit ≤ total → fakeExponentialLoop limit d n s = fatalError .numericOverflow) := by
  intro total
  induction hk : limit - s.output using Nat.strongRecOn generalizing s with
  | _ k ih =>
    rcases Nat.eq_zero_or_pos s.numeratorAccum with hzero | hpos
    · -- no accumulator is left
      have htotal : total = s.output := by
        show s.output + _ = s.output
        rw [hzero, sumFrom_zero, Nat.add_zero]
      rw [htotal]
      constructor
      · intro _
        exact ⟨s, loop_done (decide_eq_false (by omega)), rfl⟩
      · intro hge
        exact absurd houtput (Nat.not_lt_of_le hge)
    · let next : FakeExponentialState :=
        ⟨s.termIndex + 1, s.output + s.numeratorAccum, s.numeratorAccum * n / (d * s.termIndex)⟩
      have hsplit : total =
          next.output + sumFrom n d next.termIndex next.numeratorAccum := by
        show s.output + _ = s.output + s.numeratorAccum + _
        rw [sumFrom_pos (Nat.ne_of_gt hpos), Nat.add_assoc]
      have hloop : fakeExponentialLoop limit d n s =
          fakeExponentialRound limit d n s >>= fakeExponentialLoop limit d n :=
        loop_step (decide_eq_true hpos)
      rcases Nat.lt_or_ge next.output limit with hnext | hnext
      · have haccum : ¬ limit ≤ s.numeratorAccum := by
          intro hge
          exact absurd hnext (Nat.not_lt_of_le (Nat.le_trans hge (Nat.le_add_left _ _)))
        -- the index is behind the sum, so its guard does not apply
        have hbound : s.termIndex < limit := by
          refine Nat.lt_of_le_of_lt (Nat.le_trans hindex ?_) hnext
          exact Nat.add_le_add_left hpos _
        have hround : fakeExponentialRound limit d n s = .ok next := by
          unfold fakeExponentialRound
          rw [if_neg haccum, if_neg (Nat.not_le_of_lt hnext), if_pos hbound]
        have hdecreases : limit - next.output < k := by
          rw [← hk]
          show limit - (s.output + s.numeratorAccum) < limit - s.output
          omega
        have hindex' : next.termIndex ≤ next.output + 1 := by
          show s.termIndex + 1 ≤ s.output + s.numeratorAccum + 1
          omega
        rw [hloop, hround, ok_bind, hsplit]
        exact ih _ hdecreases next hindex' hnext rfl
      · have hround : fakeExponentialRound limit d n s = fatalError .numericOverflow := by
          unfold fakeExponentialRound
          rw [if_pos hnext, ite_self]
        have htotal : limit ≤ total := by
          rw [hsplit]
          exact Nat.le_trans hnext (Nat.le_add_right _ _)
        constructor
        · intro hlt
          exact absurd hlt (Nat.not_lt_of_le htotal)
        · intro _
          rw [hloop, hround]
          rfl

/-- The price of blob gas is the exponential, if that fits a word. -/
theorem fakeExponentialWord_eq {schedule : BlobSchedule} {n : Nat}
    (hd : 0 < schedule.baseFeeUpdateFraction) :
    fakeExponentialWord schedule n =
      if fakeExponential n schedule.baseFeeUpdateFraction < wordModulus then
        .ok (fakeExponential n schedule.baseFeeUpdateFraction)
      else fatalError .numericOverflow := by
  have hlimit : 0 < schedule.baseFeeUpdateFraction * wordModulus :=
    Nat.mul_pos hd (by decide)
  obtain ⟨hfits, hexceeds⟩ :=
    fakeExponentialLoop_eq (d := schedule.baseFeeUpdateFraction) (n := n)
      ⟨1, 0, schedule.baseFeeUpdateFraction⟩ (Nat.le_refl 1) hlimit
  have hword : fakeExponential n schedule.baseFeeUpdateFraction < wordModulus ↔
      0 + sumFrom n schedule.baseFeeUpdateFraction 1 schedule.baseFeeUpdateFraction <
        schedule.baseFeeUpdateFraction * wordModulus := by
    rw [fakeExponential, Nat.div_lt_iff_lt_mul hd, Nat.zero_add, Nat.mul_comm wordModulus]
  split
  · rename_i hlt
    obtain ⟨s', hloop, houtput⟩ := hfits (hword.mp hlt)
    have hprice : s'.output / schedule.baseFeeUpdateFraction =
        fakeExponential n schedule.baseFeeUpdateFraction := by
      rw [houtput, Nat.zero_add, fakeExponential]
    simp only [fakeExponentialWord, hloop, ok_bind, hprice, if_pos hlt]
  · rename_i hge
    have hloop := hexceeds (Nat.le_of_not_lt fun hlt => hge (hword.mpr hlt))
    simp only [fakeExponentialWord, hloop]
    rfl

/-- The schedules that are schedules of some fork. -/
def blobScheduleParameters : List BlobSchedule :=
  [inactiveBlobSchedule, cancunBlobSchedule, pragueBlobSchedule, bpo1BlobSchedule,
    bpo2BlobSchedule]

theorem fraction_pos_of_parameters {s : BlobSchedule} (hs : s ∈ blobScheduleParameters) :
    0 < s.baseFeeUpdateFraction := by
  have hall : ∀ s ∈ blobScheduleParameters, 0 < s.baseFeeUpdateFraction := by decide
  exact hall s hs

/-- The ranges of the loop's variables. -/
structure FakeExponentialState.InRange (limit n : Nat) (s : FakeExponentialState) : Prop where
  termIndex : 1 ≤ s.termIndex ∧ s.termIndex ≤ limit
  output : s.output < limit
  numeratorAccum : s.numeratorAccum ≤ limit * (n + 1)

/-- No round leaves the ranges. -/
theorem fakeExponentialRound_inRange {limit d n : Nat} {s s' : FakeExponentialState}
    (h : fakeExponentialRound limit d n s = .ok s') : s'.InRange limit n := by
  obtain ⟨hsum, hindex, rfl⟩ := fakeExponentialRound_ok h
  refine ⟨⟨Nat.le_add_left 1 _, hindex⟩, hsum, ?_⟩
  have haccum : s.numeratorAccum ≤ limit := by omega
  calc s.numeratorAccum * n / (d * s.termIndex)
      ≤ s.numeratorAccum * n := Nat.div_le_self _ _
    _ ≤ limit * (n + 1) := Nat.mul_le_mul haccum (Nat.le_succ n)

/-- For every schedule and numerator the loop stays in its ranges and ends
with the exponential if that fits a word, and with an overflow if not. -/
theorem fakeExponentialWord_exact (s : BlobSchedule) (n : Nat) (hs : s ∈ blobScheduleParameters) :
    let d := s.baseFeeUpdateFraction
    (∀ price, fakeExponentialWord s n = .ok price ↔
      price = fakeExponential n d ∧ fakeExponential n d < wordModulus) ∧
    (fakeExponentialWord s n = fatalError .numericOverflow ↔
      wordModulus ≤ fakeExponential n d) ∧
    ∀ r, Relation.ReflTransGen
        (fun a b => fakeExponentialRound (d * wordModulus) d n a = .ok b) ⟨1, 0, d⟩ r →
      r.InRange (d * wordModulus) n := by
  intro d
  have hd : 0 < d := fraction_pos_of_parameters hs
  have hword := fakeExponentialWord_eq (n := n) hd
  refine ⟨fun price => ?_, ?_, fun r hr => ?_⟩
  · rw [hword]
    split
    · next hlt =>
      constructor
      · intro h
        exact ⟨(Except.ok.inj h).symm, hlt⟩
      · rintro ⟨rfl, -⟩
        rfl
    · next hge =>
      constructor
      · intro h
        cases h
      · rintro ⟨-, hlt⟩
        exact absurd hlt hge
  · rw [hword]
    split
    · next hlt =>
      constructor
      · intro h
        cases h
      · intro hge
        exact absurd hlt (Nat.not_lt_of_le hge)
    · next hge =>
      constructor
      · intro _
        exact Nat.le_of_not_lt hge
      · intro _
        rfl
  · cases hr with
    | refl =>
      have hlimit : d ≤ d * wordModulus := Nat.le_mul_of_pos_right d (by decide)
      exact ⟨⟨Nat.le_refl 1, hd.trans_le hlimit⟩, hd.trans_le hlimit,
        hlimit.trans (Nat.le_mul_of_pos_right _ (Nat.succ_pos n))⟩
    | tail _ hround => exact fakeExponentialRound_inRange hround

/-- At twice the update fraction the series has fourteen terms; `e^2` is a
little more than seven. -/
theorem fakeExponentialWord_exact_square :
    fakeExponentialWord cancunBlobSchedule 6676954 = .ok 7 :=
  ((fakeExponentialWord_exact cancunBlobSchedule 6676954 (by decide)).1 7).mpr
    (fakeExponential_of_bounded (P := fun price => 7 = price ∧ price < wordModulus) 20 (by decide))

/-! ## The supported schedules -/

/-- The forks with blobs and their schedules. -/
def blobForks : List (Fork × BlobSchedule) :=
  [(.cancun, cancunBlobSchedule), (.prague, pragueBlobSchedule), (.osaka, pragueBlobSchedule),
    (.bpo1, bpo1BlobSchedule), (.bpo2, bpo2BlobSchedule), (.amsterdam, bpo2BlobSchedule)]

/-- What the bound on a chain needs of a schedule: that a block adds little
compared with the update fraction, and the three exponentials. -/
structure SafeSchedule (s : BlobSchedule) : Prop where
  fraction_pos : 0 < s.baseFeeUpdateFraction
  max_pos : 0 < s.max
  growth_le : (s.max - s.target) * gasPerBlob ≤ 11 * s.baseFeeUpdateFraction
  word_exceeded :
    wordModulus ≤ fakeExponential (178 * s.baseFeeUpdateFraction) s.baseFeeUpdateFraction
  word_fits :
    fakeExponential (177 * s.baseFeeUpdateFraction) s.baseFeeUpdateFraction < wordModulus
  blob_exceeded :
    wordModulus ≤
      fakeExponential (166 * s.baseFeeUpdateFraction) s.baseFeeUpdateFraction * gasPerBlob

/-- The same facts, evaluated; none of the three series has more than 500
accumulators. -/
def safeScheduleCheck (s : BlobSchedule) : Bool :=
  let d := s.baseFeeUpdateFraction
  let exponential (n : Nat) := sumBounded n d 500 1 d
  decide (0 < d ∧ 0 < s.max ∧ (s.max - s.target) * gasPerBlob ≤ 11 * d) &&
    (exponential (178 * d)).any (fun f => decide (wordModulus ≤ f / d)) &&
    (exponential (177 * d)).any (fun f => decide (f / d < wordModulus)) &&
    (exponential (166 * d)).any (fun f => decide (wordModulus ≤ f / d * gasPerBlob))

theorem safeSchedule_of_check {s : BlobSchedule} (h : safeScheduleCheck s = true) :
    SafeSchedule s := by
  simp only [safeScheduleCheck, Bool.and_eq_true, decide_eq_true_eq] at h
  obtain ⟨⟨⟨⟨hpos, hmax, hgrowth⟩, hexceeded⟩, hfits⟩, hblob⟩ := h
  exact
    { fraction_pos := hpos
      max_pos := hmax
      growth_le := hgrowth
      word_exceeded := fakeExponential_of_bounded 500 hexceeded
      word_fits := fakeExponential_of_bounded (P := fun f => f < wordModulus) 500 hfits
      blob_exceeded :=
        fakeExponential_of_bounded (P := fun f => wordModulus ≤ f * gasPerBlob) 500 hblob }

theorem blobForks_safe : ∀ p ∈ blobForks, safeScheduleCheck p.2 = true := by
  decide +kernel

/-- A later fork has the larger maximum and the larger fraction. -/
theorem blobForks_mono :
    ∀ p ∈ blobForks, ∀ q ∈ blobForks, p.1 ≤ q.1 →
      p.2.max ≤ q.2.max ∧ p.2.baseFeeUpdateFraction ≤ q.2.baseFeeUpdateFraction := by
  decide

/-- The schema table's profiles from Cancun on. -/
structure BlobProfile (q : ProtocolProfile) : Prop where
  listed : (q.fork, q.blobSchedule) ∈ blobForks
  cancun_le : .cancun ≤ q.fork
  limit_eq : q.excessBlobGasLimit =
    256 * q.blobSchedule.baseFeeUpdateFraction +
      (q.blobSchedule.max - q.blobSchedule.target) * gasPerBlob

theorem blobProfile_of_schema {b : Byte} {q : ProtocolProfile}
    (h : schemaProtocolProfile b = .ok q) (hc : .cancun ≤ q.fork) : BlobProfile q := by
  unfold schemaProtocolProfile at h
  split at h <;> first
    | exact absurd hc (by cases h; decide)
    | (cases h; exact ⟨by decide, hc, rfl⟩)
    | cases h

theorem BlobProfile.safe {q : ProtocolProfile} (hq : BlobProfile q) : SafeSchedule q.blobSchedule :=
  safeSchedule_of_check (blobForks_safe _ hq.listed)

/-- The price under a profile, for an excess within its limit. -/
theorem BlobProfile.blobPrice_eq {q : ProtocolProfile} (hq : BlobProfile q) {excess : Nat}
    (hlimit : excess ≤ q.excessBlobGasLimit) :
    q.blobPrice excess =
      if fakeExponential excess q.blobSchedule.baseFeeUpdateFraction < wordModulus then
        .ok (fakeExponential excess q.blobSchedule.baseFeeUpdateFraction)
      else fatalError .numericOverflow := by
  rw [ProtocolProfile.blobPrice, blobBaseFee, if_pos ⟨hq.cancun_le, hlimit⟩,
    fakeExponentialWord_eq hq.safe.fraction_pos]

/-- A price is the exponential, which fits a word, of an excess within the
limit. -/
theorem BlobProfile.of_blobPrice_ok {q : ProtocolProfile} (hq : BlobProfile q) {excess fee : Nat}
    (h : q.blobPrice excess = .ok fee) :
    excess ≤ q.excessBlobGasLimit ∧ fee < wordModulus ∧
      fee = fakeExponential excess q.blobSchedule.baseFeeUpdateFraction := by
  have hlimit : excess ≤ q.excessBlobGasLimit := by
    by_contra hgt
    rw [ProtocolProfile.blobPrice, blobBaseFee, if_neg fun hboth => hgt hboth.2] at h
    cases h
  rw [hq.blobPrice_eq hlimit] at h
  split at h
  · rename_i hfits
    cases h
    exact ⟨hlimit, hfits, rfl⟩
  · cases h

theorem BlobProfile.blobPrice_ok {q : ProtocolProfile} (hq : BlobProfile q) {excess : Nat}
    (hbound : excess ≤ 177 * q.blobSchedule.baseFeeUpdateFraction) :
    q.blobPrice excess =
      .ok (fakeExponential excess q.blobSchedule.baseFeeUpdateFraction) := by
  have hlimit : excess ≤ q.excessBlobGasLimit := by
    rw [hq.limit_eq]
    omega
  rw [hq.blobPrice_eq hlimit,
    if_pos (Nat.lt_of_le_of_lt (fakeExponential_mono hbound) hq.safe.word_fits)]

/-- A price that fits a word keeps the excess below `178 d`. -/
theorem SafeSchedule.excess_lt_of_word {s : BlobSchedule} (hs : SafeSchedule s) {excess : Nat}
    (h : fakeExponential excess s.baseFeeUpdateFraction < wordModulus) :
    excess < 178 * s.baseFeeUpdateFraction := by
  refine Nat.lt_of_not_le fun hge => ?_
  exact absurd (Nat.lt_of_le_of_lt (fakeExponential_mono hge) h)
    (Nat.not_lt_of_le hs.word_exceeded)

/-- A price at which a blob can be paid keeps the excess below `166 d`. -/
theorem SafeSchedule.excess_lt_of_blob {s : BlobSchedule} (hs : SafeSchedule s) {excess : Nat}
    (h : fakeExponential excess s.baseFeeUpdateFraction * gasPerBlob < wordModulus) :
    excess < 166 * s.baseFeeUpdateFraction := by
  refine Nat.lt_of_not_le fun hge => ?_
  have hmono := Nat.mul_le_mul_right gasPerBlob
    (fakeExponential_mono (d := s.baseFeeUpdateFraction) hge)
  exact absurd (Nat.lt_of_le_of_lt hmono h) (Nat.not_lt_of_le hs.blob_exceeded)

/-! ## The formula -/

/-- `BLOB_BASE_COST` of EIP-7918. -/
def blobBaseCost : Nat := 2 ^ 13

/-- The excess that EIP-4844 gives a child of a header, with the reserve
price of EIP-7918 where it is active. -/
def calcExcessBlobGas (reservePrice : Bool) (s : BlobSchedule) (excess used baseFee : Nat) : Nat :=
  if excess + used < s.target * gasPerBlob then 0
  else if reservePrice = true ∧ blobBaseCost * baseFee >
      gasPerBlob * fakeExponential excess s.baseFeeUpdateFraction then
    excess + used * (s.max - s.target) / s.max
  else excess + used - s.target * gasPerBlob

/-- A child's excess is at most its parent's plus what one block adds. -/
theorem calcExcessBlobGas_le {reservePrice : Bool} {s : BlobSchedule} {excess used baseFee : Nat}
    (hused : used ≤ s.max * gasPerBlob) :
    calcExcessBlobGas reservePrice s excess used baseFee ≤
      excess + (s.max - s.target) * gasPerBlob := by
  unfold calcExcessBlobGas
  split
  · exact Nat.zero_le _
  · split
    · refine Nat.add_le_add_left (Nat.div_le_of_le_mul ?_) _
      calc used * (s.max - s.target)
          ≤ s.max * gasPerBlob * (s.max - s.target) := Nat.mul_le_mul_right _ hused
        _ = s.max * ((s.max - s.target) * gasPerBlob) := by
          rw [Nat.mul_assoc, Nat.mul_comm gasPerBlob]
    · rw [Nat.sub_mul]
      omega

/-- A block without blobs does not raise the excess. -/
theorem calcExcessBlobGas_unused {reservePrice : Bool} {s : BlobSchedule} {excess baseFee : Nat} :
    calcExcessBlobGas reservePrice s excess 0 baseFee ≤ excess := by
  unfold calcExcessBlobGas
  split
  · exact Nat.zero_le _
  · split
    · rw [Nat.zero_mul, Nat.zero_div]
      exact Nat.le_refl _
    · exact Nat.sub_le _ _

/-- The reserve price compares in units of `BLOB_BASE_COST`. -/
theorem reservePrice_iff (fee baseFee : Nat) :
    16 * fee < baseFee ↔ blobBaseCost * baseFee > gasPerBlob * fee := by
  have hratio : gasPerBlob * fee = blobBaseCost * (16 * fee) := by
    rw [← Nat.mul_assoc]
    rfl
  rw [hratio]
  exact (Nat.mul_lt_mul_left (by decide)).symm

/-- The field that `next_excess_blob_gas` computes is the formula's, and
within the limit. -/
theorem BlobProfile.nextExcessBlobGas_eq {q : ProtocolProfile} (hq : BlobProfile q)
    {excess used fee : Nat} (baseFee : Nat) (hprice : q.blobPrice excess = .ok fee)
    (hused : used ≤ q.blobSchedule.max * gasPerBlob) :
    let next := calcExcessBlobGas (decide (.osaka ≤ q.fork)) q.blobSchedule excess used baseFee
    nextExcessBlobGas q excess used baseFee = .ok next ∧ next ≤ q.excessBlobGasLimit := by
  intro next
  obtain ⟨hlimit, hword, hfee⟩ := hq.of_blobPrice_ok hprice
  have hs := hq.safe
  have hnext : next ≤ q.excessBlobGasLimit := by
    have hgrows : next ≤ _ := calcExcessBlobGas_le hused
    have hexcess := hs.excess_lt_of_word (hfee ▸ hword)
    have hd := hs.growth_le
    rw [hq.limit_eq]
    omega
  refine ⟨?_, hnext⟩
  revert hnext
  show calcExcessBlobGas _ _ _ _ _ ≤ _ → _ = Except.ok (calcExcessBlobGas _ _ _ _ _)
  simp only [nextExcessBlobGas, calcExcessBlobGas, hprice, ok_bind, decide_eq_true_eq, ← hfee,
    reservePrice_iff, Nat.mul_comm gasPerBlob q.blobSchedule.target,
    if_neg (Nat.ne_of_gt hs.max_pos)]
  intro hnext
  split
  · rfl
  · rename_i hge
    rw [if_neg hge] at hnext
    split
    · rename_i hreserve
      rw [if_pos hreserve] at hnext
      exact if_pos hnext
    · rename_i hreserve
      rw [if_neg hreserve] at hnext
      exact if_pos hnext

/-! ## The blobs a block can pay for -/

/-- A charged transaction without blobs, or one whose price times the blob
gas fits a word. -/
theorem transactionCosts_ok {q : ProtocolProfile} {excess : Nat} {tx : BlobTransaction}
    {costs : Nat × Nat} (h : transactionCosts q excess tx = .ok costs) :
    tx.blobCount = 0 ∨
      ∃ fee, q.blobPrice excess = .ok fee ∧ fee * gasPerBlob < wordModulus := by
  rcases Nat.eq_zero_or_pos tx.blobCount with hzero | hpos
  · exact .inl hzero
  · refine .inr ?_
    have hblobs : gasPerBlob * tx.blobCount ≠ 0 :=
      Nat.ne_of_gt (Nat.mul_pos (by decide) hpos)
    simp only [transactionCosts, if_neg hblobs] at h
    obtain ⟨blobFee, hfee, hcharged⟩ := bind_eq_ok.mp h
    obtain ⟨fee, hprice, hcap⟩ := bind_eq_ok.mp hfee
    refine ⟨fee, hprice, ?_⟩
    split at hcap
    · cases hcap
      split at hcharged
      · rename_i hfits
        refine Nat.lt_of_le_of_lt (Nat.mul_le_mul_left fee ?_) hfits.1
        exact Nat.le_mul_of_pos_right _ hpos
      · cases hcharged
    · cases hcap

/-- An executed block stays below the schedule's maximum, and uses no blob
gas unless its price leaves one blob payable. -/
theorem BlobProfile.blockBlobGasUsed_ok {q : ProtocolProfile} (hq : BlobProfile q)
    {excess used : Nat} {txs : List BlobTransaction}
    (h : blockBlobGasUsed q excess txs = .ok used) :
    used ≤ q.blobSchedule.max * gasPerBlob ∧
      (used = 0 ∨ ∃ fee, q.blobPrice excess = .ok fee ∧ fee * gasPerBlob < wordModulus) := by
  have hfork : ¬ q.fork < .cancun := Nat.not_lt_of_le hq.cancun_le
  let I (acc : Nat) : Prop := acc ≤ q.blobSchedule.max * gasPerBlob ∧
    (acc = 0 ∨ ∃ fee, q.blobPrice excess = .ok fee ∧ fee * gasPerBlob < wordModulus)
  suffices hround : ∀ acc, ∀ tx ∈ txs, I acc → Ends I (fun _ => True)
      (blobGasRound q excess acc tx) from
    (Ends.foldlM hround (show I 0 from ⟨Nat.zero_le _, .inl rfl⟩)).of_ok h
  intro acc tx _ hacc
  refine Ends.of_forall_ok fun next hround => ?_
  simp only [blobGasRound, if_neg hfork] at hround
  obtain ⟨sum, hsum, hcharge⟩ := bind_eq_ok.mp hround
  obtain ⟨costs, hcosts, hnext⟩ := bind_eq_ok.mp hcharge
  cases hnext
  simp only [blockBlobGasAdd] at hsum
  split at hsum
  · rename_i hroom
    cases hsum
    rw [Nat.mul_comm gasPerBlob q.blobSchedule.max] at hroom
    obtain ⟨hfull, hroom⟩ := hroom
    constructor
    · exact (Nat.le_sub_iff_add_le' hfull).mp hroom
    · rcases transactionCosts_ok hcosts with hnone | hpayable
      · rw [hnone, Nat.mul_zero, Nat.add_zero]
        exact hacc.2
      · exact .inr hpayable
  · cases hsum

/-! ## Chains of blocks -/

/-- What a header says of blob gas, and its base fee. -/
structure BlobHeader where
  excessBlobGas : Nat
  blobGasUsed : Nat
  baseFee : Nat

/-- The headers of chains of valid blocks under forks that activate in
order, from a header without blob gas on: a child carries the excess that
its parent gives it and the blob gas that its transactions use. -/
inductive BlobChain : Fork → BlobHeader → Prop
  | start (fork : Fork) (baseFee : Nat) : BlobChain fork ⟨0, 0, baseFee⟩
  | block {fork : Fork} {parent : BlobHeader} {b : Byte} {q : ProtocolProfile}
      {excess used : Nat} (txs : List BlobTransaction) (baseFee : Nat) :
      BlobChain fork parent → schemaProtocolProfile b = .ok q → .cancun ≤ q.fork →
      fork ≤ q.fork →
      nextExcessBlobGas q parent.excessBlobGas parent.blobGasUsed parent.baseFee = .ok excess →
      blockBlobGasUsed q excess txs = .ok used →
      BlobChain q.fork ⟨excess, used, baseFee⟩

/-- The invariant of chains, towards a schedule: the excess is at most
`177 d`, and below `166 d` under a block with blobs. -/
structure HeldDown (s : BlobSchedule) (header : BlobHeader) : Prop where
  excess_le : header.excessBlobGas ≤ 177 * s.baseFeeUpdateFraction
  used_le : header.blobGasUsed ≤ s.max * gasPerBlob
  unused_or : header.blobGasUsed = 0 ∨ header.excessBlobGas < 166 * s.baseFeeUpdateFraction

/-- What holds towards one schedule holds towards a larger one. -/
theorem HeldDown.mono {s t : BlobSchedule} {header : BlobHeader} (h : HeldDown s header)
    (hmax : s.max ≤ t.max) (hd : s.baseFeeUpdateFraction ≤ t.baseFeeUpdateFraction) :
    HeldDown t header where
  excess_le := Nat.le_trans h.excess_le (Nat.mul_le_mul_left _ hd)
  used_le := Nat.le_trans h.used_le (Nat.mul_le_mul_right _ hmax)
  unused_or := h.unused_or.imp_right fun hlt =>
    Nat.lt_of_lt_of_le hlt (Nat.mul_le_mul_left _ hd)

/-- The child of a header that is held down has an excess of at most
`177 d`. -/
theorem HeldDown.next_le {s : BlobSchedule} (hs : SafeSchedule s) {header : BlobHeader}
    (h : HeldDown s header) (reservePrice : Bool) :
    calcExcessBlobGas reservePrice s header.excessBlobGas header.blobGasUsed header.baseFee ≤
      177 * s.baseFeeUpdateFraction := by
  rcases h.unused_or with hunused | hexcess
  · rw [hunused]
    exact Nat.le_trans calcExcessBlobGas_unused h.excess_le
  · have hgrows : calcExcessBlobGas reservePrice s header.excessBlobGas header.blobGasUsed
        header.baseFee ≤ _ := calcExcessBlobGas_le h.used_le
    have hgrowth := hs.growth_le
    omega

/-- One block under a profile, on a header that is held down. -/
theorem BlobProfile.next_of_heldDown {q : ProtocolProfile} (hq : BlobProfile q)
    {parent : BlobHeader} (h : HeldDown q.blobSchedule parent) :
    let next := calcExcessBlobGas (decide (.osaka ≤ q.fork)) q.blobSchedule
      parent.excessBlobGas parent.blobGasUsed parent.baseFee
    nextExcessBlobGas q parent.excessBlobGas parent.blobGasUsed parent.baseFee = .ok next ∧
      next ≤ q.excessBlobGasLimit ∧ next ≤ 177 * q.blobSchedule.baseFeeUpdateFraction := by
  intro next
  obtain ⟨hnext, hlimit⟩ :=
    hq.nextExcessBlobGas_eq parent.baseFee (hq.blobPrice_ok h.excess_le) h.used_le
  exact ⟨hnext, hlimit, h.next_le hq.safe _⟩

/-- Every header of a chain is held down, towards its own fork and the
later ones. -/
theorem BlobChain.heldDown {fork : Fork} {header : BlobHeader} (h : BlobChain fork header)
    {q : ProtocolProfile} (hq : BlobProfile q) (hf : fork ≤ q.fork) :
    HeldDown q.blobSchedule header := by
  induction h generalizing q with
  | start fork baseFee => exact ⟨Nat.zero_le _, Nat.zero_le _, .inl rfl⟩
  | @block fork parent b p excess used txs baseFee _ hschema hcancun hfork hexcess hused ih =>
    have hp := blobProfile_of_schema hschema hcancun
    obtain ⟨hmax, hd⟩ := blobForks_mono _ hp.listed _ hq.listed hf
    obtain ⟨hnext, -, hbound⟩ := hp.next_of_heldDown (ih hp hfork)
    obtain ⟨hmaximum, hpayable⟩ := hp.blockBlobGasUsed_ok hused
    rw [hexcess] at hnext
    have heq := Except.ok.inj hnext
    refine HeldDown.mono ⟨heq ▸ hbound, hmaximum, ?_⟩ hmax hd
    rcases hpayable with hnone | ⟨fee, hprice, hpaid⟩
    · exact .inl hnone
    · obtain ⟨-, -, hfee⟩ := hp.of_blobPrice_ok hprice
      exact .inr (hp.safe.excess_lt_of_blob (hfee ▸ hpaid))

/-- Under Cancun and later, a parent whose excess has a price gives its
child the excess of the formula, within the limit, and with a price of its
own when the parent has no blobs or leaves one payable; along a chain both
hold throughout. -/
theorem nextExcessBlobGas_bounded {b : Byte} {q : ProtocolProfile}
    (hschema : schemaProtocolProfile b = .ok q) (hcancun : .cancun ≤ q.fork) :
    let formula := calcExcessBlobGas (decide (.osaka ≤ q.fork)) q.blobSchedule
    let price (excess : Nat) := fakeExponential excess q.blobSchedule.baseFeeUpdateFraction
    (∀ excess used baseFee fee, q.blobPrice excess = .ok fee →
      used ≤ q.blobSchedule.max * gasPerBlob →
      let next := formula excess used baseFee
      nextExcessBlobGas q excess used baseFee = .ok next ∧ next ≤ q.excessBlobGasLimit ∧
        (used = 0 ∨ fee * gasPerBlob < wordModulus → q.blobPrice next = .ok (price next))) ∧
    ∀ fork parent, BlobChain fork parent → fork ≤ q.fork →
      let next := formula parent.excessBlobGas parent.blobGasUsed parent.baseFee
      nextExcessBlobGas q parent.excessBlobGas parent.blobGasUsed parent.baseFee = .ok next ∧
        next ≤ q.excessBlobGasLimit ∧ q.blobPrice next = .ok (price next) := by
  intro formula price
  have hq := blobProfile_of_schema hschema hcancun
  constructor
  · intro excess used baseFee fee hprice hused next
    obtain ⟨hnext, hlimit⟩ := hq.nextExcessBlobGas_eq baseFee hprice hused
    refine ⟨hnext, hlimit, ?_⟩
    obtain ⟨-, hword, hfee⟩ := hq.of_blobPrice_ok hprice
    rintro (rfl | hpayable)
    · -- without blobs the price does not rise
      have hmono : price next ≤ price excess := fakeExponential_mono calcExcessBlobGas_unused
      rw [hq.blobPrice_eq hlimit]
      rw [hfee] at hword
      exact if_pos (Nat.lt_of_le_of_lt hmono hword)
    · have hexcess := hq.safe.excess_lt_of_blob (hfee ▸ hpayable)
      have hd := hq.safe.fraction_pos
      have hheld : HeldDown q.blobSchedule ⟨excess, used, baseFee⟩ :=
        ⟨Nat.le_trans (Nat.le_of_lt hexcess) (Nat.mul_le_mul_right _ (by decide)), hused,
          .inr hexcess⟩
      exact hq.blobPrice_ok (hheld.next_le hq.safe _)
  · intro fork parent hchain hfork next
    obtain ⟨hnext, hlimit, hbound⟩ := hq.next_of_heldDown (hchain.heldDown hq hfork)
    exact ⟨hnext, hlimit, hq.blobPrice_ok hbound⟩

/-- The first block with blobs, and a child of a full block. -/
theorem nextExcessBlobGas_bounded_cancun :
    ∃ q fee, schemaProtocolProfile 0x10 = .ok q ∧
      nextExcessBlobGas q 0 0 7 = .ok 0 ∧ q.blobPrice 0 = .ok fee ∧
      ∃ next, nextExcessBlobGas q 0 (6 * gasPerBlob) 7 = .ok next ∧
        next ≤ q.excessBlobGasLimit := by
  have hcancun : Fork.cancun ≤ Fork.cancun := Nat.le_refl _
  obtain ⟨hnext, hchain⟩ := nextExcessBlobGas_bounded (b := 0x10) rfl hcancun
  obtain ⟨hfirst, -, hprice⟩ := hchain .shanghai ⟨0, 0, 7⟩ (.start _ _) (by decide)
  dsimp only at hfirst hprice
  rw [Nat.le_zero.mp calcExcessBlobGas_unused] at hfirst hprice
  obtain ⟨hsecond, hlimit, -⟩ := hnext 0 (6 * gasPerBlob) 7 _ hprice (by decide)
  exact ⟨_, _, rfl, hfirst, hprice, _, hsecond, hlimit⟩

/-- Under Cancun: a header whose excess has a price, and which gives its
child an excess that is within the limit and has none. -/
theorem nextExcessBlobGas_dearest :
    ∃ q, schemaProtocolProfile 0x10 = .ok q ∧
      (∃ fee, q.blobPrice 592245819 = .ok fee) ∧
      6 * gasPerBlob ≤ q.blobSchedule.max * gasPerBlob ∧
      nextExcessBlobGas q 592245819 (6 * gasPerBlob) 7 = .ok 592639035 ∧
      592639035 ≤ q.excessBlobGasLimit ∧
      q.blobPrice 592639035 = .error (.fatal .numericOverflow) := by
  refine ⟨_, rfl, ?_⟩
  generalize hq : packProtocolProfile .cancun cancunBlobSchedule 24576 49152 sszUintBound
    sszUintBound 6 5 = q
  have hprofile : BlobProfile q :=
    blobProfile_of_schema (b := 0x10) (by rw [← hq]; rfl) (by rw [← hq]; decide)
  have hschedule : q.blobSchedule = cancunBlobSchedule := by rw [← hq]; rfl
  have hfork : q.fork = .cancun := by rw [← hq]; rfl
  have hlimit : q.excessBlobGasLimit = 855043328 := by rw [← hq]; decide
  have hprice : q.blobPrice 592245819 =
      .ok (fakeExponential 592245819 q.blobSchedule.baseFeeUpdateFraction) := by
    rw [hprofile.blobPrice_eq (by rw [hlimit]; decide), hschedule]
    exact if_pos (fakeExponential_of_bounded (P := fun f => f < wordModulus) 500
      (by decide +kernel))
  obtain ⟨hnext, -⟩ := hprofile.nextExcessBlobGas_eq 7 hprice
    (show 6 * gasPerBlob ≤ _ by rw [hschedule]; decide)
  refine ⟨⟨_, hprice⟩, by rw [hschedule]; decide, ?_, by rw [hlimit]; decide, ?_⟩
  · -- the reserve price is not active yet
    rw [hnext, hschedule, hfork, calcExcessBlobGas, if_neg (by decide),
      if_neg fun hboth => absurd hboth.1 (by decide)]
    rfl
  · rw [hprofile.blobPrice_eq (by rw [hlimit]; decide), hschedule]
    exact if_neg (Nat.not_lt_of_le
      (fakeExponential_of_bounded (P := fun f => wordModulus ≤ f) 500 (by decide +kernel)))

end EvmSail
