/-
# `EvmSail.Primitives.Profile` — forks and protocol profiles

The schema prefix of the input selects a fork, and with it one protocol
profile: the blob schedule and the limits that execution under the fork
uses.  The schema table (`schemaProtocolProfile`) is the sole source of
profiles.
-/
import EvmSail.Prelude

namespace EvmSail

/-! ## Forks -/

/-- The supported forks in activation order. -/
inductive Fork where
  | frontier
  | homestead
  | byzantium
  | constantinople
  | istanbul
  | berlin
  | london
  | arrowGlacier
  | grayGlacier
  | paris
  | shanghai
  | cancun
  | prague
  | osaka
  | bpo1
  | bpo2
  | amsterdam
  deriving DecidableEq, Repr

/-- The position of a fork in the activation order. -/
def Fork.value : Fork → Nat
  | .frontier => 0
  | .homestead => 1
  | .byzantium => 2
  | .constantinople => 3
  | .istanbul => 4
  | .berlin => 5
  | .london => 6
  | .arrowGlacier => 7
  | .grayGlacier => 8
  | .paris => 9
  | .shanghai => 10
  | .cancun => 11
  | .prague => 12
  | .osaka => 13
  | .bpo1 => 14
  | .bpo2 => 15
  | .amsterdam => 16

/-- Forks are compared by their activation order. -/
instance : LE Fork := ⟨fun f g => f.value ≤ g.value⟩

instance : LT Fork := ⟨fun f g => f.value < g.value⟩

instance (f g : Fork) : Decidable (f ≤ g) := inferInstanceAs (Decidable (f.value ≤ g.value))

instance (f g : Fork) : Decidable (f < g) := inferInstanceAs (Decidable (f.value < g.value))

theorem Fork.le_iff {f g : Fork} : f ≤ g ↔ f.value ≤ g.value := Iff.rfl

theorem Fork.lt_iff {f g : Fork} : f < g ↔ f.value < g.value := Iff.rfl

/-! ## Profiles -/

def sszUintBound : Nat := 2 ^ 64 - 1

def gasPerBlob : Nat := 2 ^ 17

/-- The exponent at which a blob base fee no longer fits a word. -/
def blobFeeWordExponentLimit : Nat := 256

def eip7825TransactionGasLimit : Nat := 2 ^ 24

/-- Target and maximum blob counts of a block, and the base-fee update
fraction. -/
structure BlobSchedule where
  target : Nat
  max : Nat
  baseFeeUpdateFraction : Nat
  deriving DecidableEq, Repr

def inactiveBlobSchedule : BlobSchedule := ⟨0, 0, 1⟩

def cancunBlobSchedule : BlobSchedule := ⟨3, 6, 3338477⟩

def pragueBlobSchedule : BlobSchedule := ⟨6, 9, 5007716⟩

def bpo1BlobSchedule : BlobSchedule := ⟨10, 15, 8346193⟩

def bpo2BlobSchedule : BlobSchedule := ⟨14, 21, 11684671⟩

/-- The execution rules and bounds that one schema fork selects. -/
structure ProtocolProfile where
  fork : Fork
  blobSchedule : BlobSchedule
  excessBlobGasLimit : Nat
  deployedCodeSizeLimit : Nat
  initcodeSizeLimit : Nat
  transactionTotalGasLimit : Nat
  transactionRegularGasLimit : Nat
  transactionBlobLimit : Nat
  refundDivisor : Nat
  deriving DecidableEq, Repr

/-- The ceiling of the excess blob gas under a fork and its schedule. -/
def computeProfileExcessBlobGasLimit (fork : Fork) (schedule : BlobSchedule) : Nat :=
  if fork < .cancun then 0
  else
    blobFeeWordExponentLimit * schedule.baseFeeUpdateFraction +
      (schedule.max - schedule.target) * gasPerBlob

/-- A profile whose excess limit is the one computed from its schedule. -/
def packProtocolProfile (fork : Fork) (schedule : BlobSchedule)
    (codeLimit initcodeLimit totalGas regularGas blobLimit refundDivisor : Nat) :
    ProtocolProfile :=
  ⟨fork, schedule, computeProfileExcessBlobGasLimit fork schedule, codeLimit, initcodeLimit,
    totalGas, regularGas, blobLimit, refundDivisor⟩

/-- The profile that the schema's fork byte selects; the match has no other
branches. -/
def schemaProtocolProfile (schemaFork : Byte) : Result ProtocolProfile :=
  match schemaFork.toNat with
  | 0x0a =>
    .ok (packProtocolProfile .berlin inactiveBlobSchedule 24576 0 sszUintBound sszUintBound
      0 2)
  | 0x0b =>
    .ok (packProtocolProfile .london inactiveBlobSchedule 24576 0 sszUintBound sszUintBound
      0 5)
  | 0x0c =>
    .ok (packProtocolProfile .arrowGlacier inactiveBlobSchedule 24576 0 sszUintBound sszUintBound
      0 5)
  | 0x0d =>
    .ok (packProtocolProfile .grayGlacier inactiveBlobSchedule 24576 0 sszUintBound sszUintBound
      0 5)
  | 0x0e =>
    .ok (packProtocolProfile .paris inactiveBlobSchedule 24576 0 sszUintBound sszUintBound
      0 5)
  | 0x0f =>
    .ok (packProtocolProfile .shanghai inactiveBlobSchedule 24576 49152 sszUintBound sszUintBound
      0 5)
  | 0x10 =>
    .ok (packProtocolProfile .cancun cancunBlobSchedule 24576 49152 sszUintBound sszUintBound
      6 5)
  | 0x11 =>
    .ok (packProtocolProfile .prague pragueBlobSchedule 24576 49152 sszUintBound sszUintBound
      9 5)
  | 0x12 =>
    .ok (packProtocolProfile .osaka pragueBlobSchedule 24576 49152 eip7825TransactionGasLimit
      eip7825TransactionGasLimit 6 5)
  | 0x13 =>
    .ok (packProtocolProfile .bpo1 bpo1BlobSchedule 24576 49152 eip7825TransactionGasLimit
      eip7825TransactionGasLimit 6 5)
  | 0x14 =>
    .ok (packProtocolProfile .bpo2 bpo2BlobSchedule 24576 49152 eip7825TransactionGasLimit
      eip7825TransactionGasLimit 6 5)
  | 0x15 =>
    .ok (packProtocolProfile .amsterdam bpo2BlobSchedule 65536 131072 sszUintBound
      eip7825TransactionGasLimit 6 5)
  | _ => .error .assertFailed

/-- Whether the schema's fork byte has a branch. -/
def schemaProtocolProfileForwardsMatches (schemaFork : Byte) : Bool :=
  schemaFork == 0x0a || schemaFork == 0x0b || schemaFork == 0x0c || schemaFork == 0x0d ||
    schemaFork == 0x0e || schemaFork == 0x0f || schemaFork == 0x10 || schemaFork == 0x11 ||
    schemaFork == 0x12 || schemaFork == 0x13 || schemaFork == 0x14 || schemaFork == 0x15

/-- A byte with a branch selects a profile, and the profile's fork tells the
byte. -/
theorem schemaProtocolProfile_ok {b : Byte} (h : schemaProtocolProfileForwardsMatches b = true) :
    ∃ p, schemaProtocolProfile b = .ok p ∧ b = BitVec.ofNat 8 (p.fork.value + 5) := by
  simp only [schemaProtocolProfileForwardsMatches, Bool.or_eq_true, beq_iff_eq] at h
  rcases h with (((((((((((rfl | rfl) | rfl) | rfl) | rfl) | rfl) | rfl) | rfl) | rfl) | rfl) |
    rfl) | rfl) <;> exact ⟨_, rfl, rfl⟩

end EvmSail
