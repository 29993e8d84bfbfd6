/-
# `EvmSail.Kernel.Storage` — persistent and transient storage, warm reads

`k_sload` resolves a slot: the transaction's row, a storage generation the
transaction has cleared, the block's row, the witness.  What it answers
for a slot that the transaction has not written is what the slot held
before it (`kSload_eq_ok`), and the rows it caches on the way are not
seen.
-/
import EvmSail.Kernel.Code

namespace EvmSail.Kernel

open Fallible Journal Kept

/-- A slot that holds, and held, the same value. -/
def StorageValue.unchanged (value : Word) : StorageValue := { curr := value, orig := value }

section

variable (env : Env)

/-! ## Warmth -/

def kAccountIsWarm (a : Address) : Kept (Reads env) Halt Bool :=
  if precompileIdForAddress env.profile.fork a ≠ .notPrecompile then pure true
  else ask fun h => h.state.warm.accounts a

/-- Active precompiles need no entry. -/
def kAccountMarkWarm (a : Address) : Kept (Marks env) Halt Unit :=
  if precompileIdForAddress env.profile.fork a ≠ .notPrecompile then pure ()
  else change (accountMarkWarm a) fun h => accountMarkWarm_marks a h

def kSlotIsWarm (a : Address) (slot : Word) : Kept (Reads env) Halt Bool :=
  ask fun h => h.state.warm.slots { addr := a, slot := slot }

def kSlotMarkWarm (a : Address) (slot : Word) : Kept (Marks env) Halt Unit :=
  change (storageMarkWarm { addr := a, slot := slot }) fun h => storageMarkWarm_marks _ h

/-- Warms a slot of the access list, before any frame runs. -/
def kPrewarmSlot (a : Address) (slot : Word) : Kept (Marks env) Halt Unit :=
  change (storageMarkWarm { addr := a, slot := slot }) fun h => storageMarkWarm_marks _ h

/-! ## Loading a slot -/

/-- What the witness says of a slot. -/
def slotOfAccount (acc : Account) (slot : Word) : Result Word :=
  if acc.storageCleared then .ok 0
  else env.statelessStorageByKey acc.info.storageRoot (env.keccak256Word slot)

/-- A slot that only the parent state knows. -/
def loadAnchoredSlot (key : StorageKey) (h : Host) : Result (StorageValue × Host) := do
  let r ← (kAload env key.addr).run h
  let value ← slotOfAccount env r.1 key.slot
  .ok (.unchanged value, storageBlockCache key value r.2)

def loadSlot (key : StorageKey) (h : Host) : Result (StorageValue × Host) :=
  match storageTxGet h.state key with
  | .hit value => .ok (value, h)
  | .cleared => .ok (.unchanged 0, balNote (.storageRead key.addr key.slot) h)
  | .miss =>
    let h := balNote (.storageRead key.addr key.slot) h
    match h.state.block.storage key with
    | some v => .ok (.unchanged v.curr, h)
    | none => loadAnchoredSlot env key h

variable {env}

/-- A miss leaves the account's storage as it was before the transaction. -/
theorem storageTxGet_miss {s : State} {key : StorageKey} (h : storageTxGet s key = .miss) :
    s.effects.generation key.addr = initialGeneration := by
  by_contra hne
  have hne' : storageActiveGeneration s key.addr ≠ initialGeneration := hne
  simp only [storageTxGet, if_pos hne'] at h
  split at h
  · split at h
    · cases h
    · cases h
  · cases h

/-- What the transaction's row says of the account's storage is what the
block's says, while the storage has not been cleared. -/
theorem readAccount_anchored {v : View} (hs : Sound v) {a : Address} {acc : Account}
    (hgen : v.effects.generation a = initialGeneration) (hacc : v.readAccount a = .ok acc) :
    ∃ orig, v.account a = .ok orig ∧ acc.info.storageRoot = orig.info.storageRoot ∧
      acc.storageCleared = orig.storageCleared := by
  rw [View.readAccount] at hacc
  cases hrow : v.effects.accounts a with
  | none =>
    rw [hrow] at hacc
    exact ⟨acc, hacc, rfl, rfl⟩
  | some r =>
    rw [hrow] at hacc
    cases hacc
    obtain ⟨horig, hroot, hcleared⟩ := hs a r hrow
    exact ⟨r.orig, horig, hroot, hcleared hgen⟩

theorem loadAnchoredSlot_reads {key : StorageKey} {value : StorageValue} {h h' : Host}
    (hgen : h.state.effects.generation key.addr = initialGeneration)
    (hblock : h.state.block.storage key = none)
    (hh : loadAnchoredSlot env key h = .ok (value, h')) : Reads env h h' := by
  intro hs
  obtain ⟨r, hload, hh⟩ := bind_eq_ok.mp hh
  obtain ⟨w, hvalue, hh⟩ := bind_eq_ok.mp hh
  cases hh
  have hreads := (kAload env key.addr).keeps _ _ _ hload
  refine IsTrans.trans (r := Reads env) _ _ _ hreads ?_ hs
  have hview := (hreads hs).view
  obtain ⟨orig, horig, hroot, hcleared⟩ := readAccount_anchored hs hgen (kAload_eq_ok env hload)
  have hslot : (view env h.state).slot key = .ok w := by
    have horig' : blockAccount env h.state key.addr = .ok orig := horig
    show blockSlot env h.state key = .ok w
    rw [blockSlot, hblock, horig']
    simp only [ok_bind]
    rw [slotOfAccount, hroot, hcleared] at hvalue
    exact hvalue
  refine storageBlockCache_reads ?_
  show (view env r.2.state).slot key = .ok w
  rw [hview, hslot]

theorem loadSlot_reads {key : StorageKey} {value : StorageValue} {h h' : Host}
    (hh : loadSlot env key h = .ok (value, h')) : Reads env h h' := by
  have hnote := @balNote_reads env (.storageRead key.addr key.slot) h
  rw [loadSlot] at hh
  cases hget : storageTxGet h.state key with
  | hit v =>
    simp only [hget] at hh
    cases hh
    exact Std.Refl.refl (r := Reads env) h
  | cleared =>
    simp only [hget] at hh
    cases hh
    exact hnote
  | miss =>
    simp only [hget] at hh
    refine IsTrans.trans (r := Reads env) _ _ _ hnote ?_
    cases hblock : (balNote (.storageRead key.addr key.slot) h).state.block.storage key with
    | some v =>
      simp only [hblock] at hh
      cases hh
      exact Std.Refl.refl (r := Reads env) _
    | none =>
      simp only [hblock] at hh
      exact loadAnchoredSlot_reads (storageTxGet_miss hget) hblock hh

variable (env)

/-- The current and the transaction-start value of a slot. -/
def kSload (a : Address) (slot : Word) : Kept (Reads env) Halt StorageValue where
  run h := loadSlot env { addr := a, slot := slot } h
  keeps _ _ _ hh := loadSlot_reads hh

/-! ## Storing -/

def kSstore (a : Address) (slot : Word) (value : StorageValue) :
    Kept (Changes env) Halt Unit :=
  change (storageTxUpdate { addr := a, slot := slot } value) fun h =>
    storageTxUpdate_changes _ value h

def kTload (a : Address) (slot : Word) : Kept (Reads env) Halt Word :=
  ask fun h => h.state.effects.transient a slot

def kTstore (a : Address) (slot value : Word) : Kept (Changes env) Halt Unit :=
  change (transientStore a slot value) fun h => transientStore_changes a slot value h

/-! ## More of accounts -/

def kIsSelfdestructed (a : Address) : Kept (Reads env) Halt Bool := do
  let acc ← kAload env a
  pure acc.selfdestructed

/-- Whether the account exists, as EIP-161 has it. -/
def kAccountExists (a : Address) : Kept (Reads env) Halt Bool := do
  let acc ← kAload env a
  pure acc.present

def kGetCodeSize (a : Address) : Kept (Reads env) Halt Nat := do
  let code ← kCode env a
  pure code.bytes.length

end

end EvmSail.Kernel
