/-
# `EvmSail.Kernel.Code` — the code store and the code of accounts

Code is stored under its hash, with its jump-destination analysis, and is
never removed or replaced; an account names its code by the hash.  An
EIP-7702 delegation is code of a fixed form.
-/
import EvmSail.Kernel.Accounts
import EvmSail.Primitives.JumpAnalysis

namespace EvmSail.Kernel

open Fallible Journal Kept

/-! ## The store -/

def codeRegionBound : Nat := 2 ^ 32 - 1

/-- `validated_code_slice`: executable code leaves headroom for a cursor. -/
def validatedCodeSlice (bytes : List Byte) : Result (List Byte) :=
  if bytes.length ≤ codeRegionBound - 32 then .ok bytes else .error .assertFailed

/-- The state with `code` stored under `hash`. -/
def State.storeCode (s : State) (hash : Hash) (code : Code) : State :=
  { s with codes := Function.update s.codes hash (some code) }

/-- `code_db_store`, for code that hashes to `hash`.  Empty code is not
stored, and stored code is not replaced. -/
def codeDbStore (hash : Hash) (code : Code) (h : Host) : Hash × Host :=
  if code.bytes = [] then (hash, h)
  else
    match h.state.codes hash with
    | some existing => if existing = code then (hash, h) else (zeroHash, h)
    | none => (hash, h.put (h.state.storeCode hash code))

/-- `code_db_lookup`, with `None` for its empty result. -/
def codeDbLookup (s : State) (hash : Hash) : Option Code := s.codes hash

def codeDbResolve (s : State) (hash : Hash) : Result Code :=
  if hash = keccakEmpty then .ok emptyCode
  else
    match codeDbLookup s hash with
    | none => fatalError .witnessDeficient
    | some code => if code.bytes.length = 0 then fatalError .witnessDeficient else .ok code

/-- `code_region_from_delegation`. -/
def delegationCode (target : Address) : List Byte := [0xef, 0x01, 0x00] ++ addressBytes target

/-- `code_db_read_delegation`: the target of a designator. -/
def codeDbReadDelegation (s : State) (hash : Hash) : Option Address :=
  match codeDbLookup s hash with
  | none => none
  | some code =>
    if code.bytes.length = 23 ∧ code.bytes.take 3 = [0xef, 0x01, 0x00] then
      some (BitVec.ofNat 160 (natOfBytes (code.bytes.drop 3)))
    else none

section

variable (env : Env)

/-- Analyzes and stores code. -/
def codeDbInsert (code : List Byte) (h : Host) : Result (Hash × Host) := do
  let jumpdests ← analyzeCode (env.atLeast .amsterdam) code
  .ok (codeDbStore (env.keccak256 code) { bytes := code, jumpdests := jumpdests } h)

variable {env}

theorem codeDbStore_view (hash : Hash) (code : Code) (h : Host) :
    view env (codeDbStore hash code h).2.state = view env h.state ∧
      (codeDbStore hash code h).2.journal = h.journal := by
  rw [codeDbStore]
  split
  · exact ⟨rfl, rfl⟩
  · split
    · split
      · exact ⟨rfl, rfl⟩
      · exact ⟨rfl, rfl⟩
    · exact ⟨rfl, rfl⟩

/-- What is stored stays stored. -/
theorem codeDbStore_codes (hash : Hash) (code : Code) (h : Host) (key : Hash) (c : Code)
    (hc : h.state.codes key = some c) :
    (codeDbStore hash code h).2.state.codes key = some c := by
  rw [codeDbStore]
  split
  · exact hc
  · split
    · split
      · exact hc
      · exact hc
    · next hnone =>
      show Function.update h.state.codes hash (some code) key = some c
      have hne : key ≠ hash := by
        rintro rfl
        rw [hnone] at hc
        cases hc
      rw [Function.update_of_ne hne, hc]

theorem codeDbInsert_ok {code : List Byte} {h h' : Host} {hash : Hash}
    (hh : codeDbInsert env code h = .ok (hash, h')) :
    view env h'.state = view env h.state ∧ h'.journal = h.journal ∧
      ∀ key c, h.state.codes key = some c → h'.state.codes key = some c := by
  rw [codeDbInsert] at hh
  obtain ⟨jumpdests, -, hh⟩ := bind_eq_ok.mp hh
  have hstore : (codeDbStore (env.keccak256 code) { bytes := code, jumpdests := jumpdests } h).2 =
      h' := congrArg Prod.snd (Except.ok.inj hh)
  have hview := @codeDbStore_view env (env.keccak256 code)
    { bytes := code, jumpdests := jumpdests } h
  have hcodes := codeDbStore_codes (env.keccak256 code)
    { bytes := code, jumpdests := jumpdests } h
  rw [hstore] at hview hcodes
  exact ⟨hview.1, hview.2, hcodes⟩

theorem codeDbInsert_changes {code : List Byte} {h h' : Host} {hash : Hash}
    (hh : codeDbInsert env code h = .ok (hash, h')) : Changes env h h' := by
  obtain ⟨hview, hjournal, hcodes⟩ := codeDbInsert_ok hh
  exact fun hs => ⟨hview.symm ▸ hs, .of_view_eq hjournal hview fun _ _ => trivial, hcodes⟩

end

/-! ## The code of accounts -/

section

variable (env : Env)

def kCodeKey (a : Address) : Kept (Reads env) Halt Hash := do
  let acc ← kAload env a
  pure acc.info.codeHash

/-- `EXTCODEHASH`: a non-existent account reads as zero. -/
def kGetCodehash (a : Address) : Kept (Reads env) Halt Hash := do
  let acc ← kAload env a
  pure (if acc.present then acc.info.codeHash else zeroHash)

/-- The target of an account's delegation. -/
def kDelegTarget (a : Address) : Kept (Reads env) Halt (Option Address) := do
  let hash ← kCodeKey env a
  ask fun h => codeDbReadDelegation h.state hash

/-- The code of an account. -/
def kCode (a : Address) : Kept (Reads env) Halt Code := do
  let hash ← kCodeKey env a
  query fun h => codeDbResolve h.state hash

/-- Interns code, as initcode is before it runs. -/
def kInternCode (code : List Byte) : Kept (Changes env) Halt Hash where
  run h := codeDbInsert env code h
  keeps _ _ _ hh := codeDbInsert_changes hh

/-- Stores code and binds an account to it. -/
def bindCode (a : Address) (code : List Byte) : Kept (Changes env) Halt Unit :=
  onAccount env a
    (fun acc h => do
      let r ← codeDbInsert env code h
      storeAccountInfo a acc { acc.info with codeHash := r.1 } r.2)
    (by
      intro acc h h' hacc hh
      obtain ⟨r, hinsert, hh⟩ := bind_eq_ok.mp hh
      have hacc' : (view env r.2.state).readAccount a = .ok acc := by
        rw [(codeDbInsert_ok hinsert).1]
        exact hacc
      exact IsTrans.trans (r := Changes env) _ _ _ (codeDbInsert_changes hinsert)
        (storeAccountInfo_changes hacc' hh rfl))

def kDeployCode (a : Address) (code : List Byte) : Kept (Changes env) Halt Unit :=
  bindCode env a code

/-- Installs a delegation designator. -/
def kSetDelegation (a target : Address) : Kept (Changes env) Halt Unit := do
  let code ← (query fun _ => validatedCodeSlice (delegationCode target) :
    Kept (Changes env) Halt (List Byte))
  bindCode env a code

/-- Resets an account's code to empty. -/
def kClearCode (a : Address) : Kept (Changes env) Halt Unit :=
  updateInfo env a fun info => .ok (some { info with codeHash := keccakEmpty })

end

end EvmSail.Kernel
