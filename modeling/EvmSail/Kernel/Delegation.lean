/-
# `EvmSail.Kernel.Delegation` — a delegation is read as it was set

A delegation is code of a fixed form under the account's code hash, so setting
it goes through the code store, and reading it back rests on what the store
keeps: code is never replaced, and what is there is analysed
(`kSetDelegation_read`).  Clearing it leaves the hash of empty code, which is
never stored (`kClearCode_read`).
-/
import EvmSail.Kernel.Writes

namespace EvmSail.Kernel

open Fallible Kept

section

variable {env : Env} {a : Address}

/-! ## Code that is stored -/

/-- No other code is stored under the hash of this one. -/
def NoCollision (env : Env) (s : State) (code : List Byte) : Prop :=
  ∀ c, s.codes (env.keccak256 code) = some c → c.bytes = code

theorem codeDbInsert_stored {code : List Byte} {h h' : Host} {hash : Hash}
    (hanalyzed : ∀ hash c, h.state.codes hash = some c → Analyzed env c)
    (hfree : NoCollision env h.state code) (hne : code ≠ [])
    (hh : codeDbInsert env code h = .ok (hash, h')) :
    ∃ c, h'.state.codes hash = some c ∧ c.bytes = code := by
  obtain ⟨jumpdests, hanalysis, hh⟩ := bind_eq_ok.mp hh
  rw [codeDbStore, if_neg hne] at hh
  cases hstored : h.state.codes (env.keccak256 code) with
  | some existing =>
    -- what is there is the same code with the same analysis
    have hbytes := hfree existing hstored
    have hdests := hanalyzed _ _ hstored
    rw [Analyzed, hbytes, hanalysis] at hdests
    have hsame : existing = { bytes := code, jumpdests := jumpdests } := by
      cases existing
      cases hbytes
      cases hdests
      rfl
    rw [hstored] at hh
    simp only [if_pos hsame] at hh
    cases hh
    exact ⟨existing, hstored, hbytes⟩
  | none =>
    rw [hstored] at hh
    cases hh
    exact ⟨_, Function.update_self .., rfl⟩

theorem accountSetInfo_codeHash (acc : Account) (hash : Hash) :
    (accountSetInfo acc { acc.info with codeHash := hash }).info.codeHash = hash := by
  rw [accountSetInfo]
  split
  · next hempty =>
    simp only [accountInfoEmpty, Bool.and_eq_true, beq_iff_eq] at hempty
    exact hempty.1.1.symm
  · rfl

/-- Code that is bound to an account is stored under the account's hash. -/
theorem bindCode_stored {code : List Byte} {h h' : Host} (hc : Coherent env h.state)
    (hfree : NoCollision env h.state code) (hne : code ≠ [])
    (hh : (bindCode env a code).run h = .ok ((), h')) :
    ∃ acc c, (view env h'.state).readAccount a = .ok acc ∧
      h'.state.codes acc.info.codeHash = some c ∧ c.bytes = code := by
  obtain ⟨⟨acc, h₁⟩, hload, hh⟩ := bind_eq_ok.mp hh
  obtain ⟨h₂, hstore, hh⟩ := bind_eq_ok.mp hh
  cases hh
  obtain ⟨⟨hash, h₃⟩, hinsert, hstore⟩ := bind_eq_ok.mp hstore
  obtain ⟨hreading, hsame, r, hr, hcurr⟩ := kAload_loaded hload
  have hloaded := (kAload env a).keeps _ _ _ hload hc.sound
  have hfree₁ : NoCollision env h₁.state code := by
    rw [NoCollision, hloaded.codes]
    exact hfree
  obtain ⟨c, hstored, hbytes⟩ :=
    codeDbInsert_stored (by rw [hloaded.codes]; exact hc.analyzed) hfree₁ hne hinsert
  have hview : view env h₃.state = view env h.state :=
    (codeDbInsert_ok hinsert).1.trans hloaded.view
  have hacc : (view env h₃.state).readAccount a = .ok acc := by
    rw [hview]
    exact hreading
  obtain ⟨heffects, hblock⟩ := codeDbInsert_state hinsert
  have hr₃ : acctTxRow h₃.state a = some r := by
    rw [acctTxRow, heffects, hblock]
    exact hr
  have hchanged := storeAccountInfo_changes hacc hstore rfl (hview ▸ hc.sound)
  refine ⟨_, c, storeAccountInfo_readAccount hr₃ hcurr hstore, ?_, hbytes⟩
  rw [accountSetInfo_codeHash]
  exact hchanged.codes _ _ hstored

/-! ## Delegations -/

/-- A query at the account's code hash. -/
theorem kCodeKey_eq {acc : Account} {h : Host} (hs : Sound (view env h.state))
    (hread : (view env h.state).readAccount a = .ok acc) :
    ∃ h', (kCodeKey env a).run h = .ok (acc.info.codeHash, h') ∧
      h'.state.codes = h.state.codes := by
  have hreading := @kAload_reading env a h
  rw [hread] at hreading
  cases hload : (kAload env a).run h with
  | error halt =>
    rw [hload] at hreading
    cases hreading
  | ok r =>
    rw [hload] at hreading
    cases hreading
    refine ⟨r.2, ?_, ((kAload env a).keeps _ _ _ hload hs).codes⟩
    rw [kCodeKey, run_bind, hload]
    rfl

/-- The bytes of a designator name its target. -/
theorem codeDbReadDelegation_of_stored {s : State} {hash : Hash} {c : Code} {target : Address}
    (hstored : s.codes hash = some c) (hbytes : c.bytes = delegationCode target) :
    codeDbReadDelegation s hash = some target := by
  have hlen : (delegationCode target).length = 23 := by
    rw [delegationCode, List.length_append, addressBytes, length_bytesOfNat]
    rfl
  have htake : (delegationCode target).take 3 = [0xef, 0x01, 0x00] := by
    simp [delegationCode]
  have hdrop : (delegationCode target).drop 3 = addressBytes target := by
    simp [delegationCode]
  rw [codeDbReadDelegation, codeDbLookup, hstored]
  simp only
  rw [hbytes, if_pos ⟨hlen, htake⟩, hdrop, natOfBytes_addressBytes, BitVec.ofNat_toNat,
    BitVec.setWidth_eq]

/-- What an account delegates to is what was set. -/
theorem kSetDelegation_read {target : Address} {h h' : Host} (hc : Coherent env h.state)
    (hfree : NoCollision env h.state (delegationCode target))
    (hh : (kSetDelegation env a target).run h = .ok ((), h')) :
    ∃ h'', (kDelegTarget env a).run h' = .ok (some target, h'') := by
  obtain ⟨code, hcode, hh⟩ := run_query_bind_eq_ok.mp hh
  have hsame : code = delegationCode target := by
    rw [validatedCodeSlice] at hcode
    split at hcode
    · exact (Except.ok.inj hcode).symm
    · cases hcode
  subst hsame
  have hs' := ((bindCode env a (delegationCode target)).keeps _ _ _ hh hc.sound).sound
  obtain ⟨acc, c, hacc, hstored, hbytes⟩ := bindCode_stored hc hfree (by simp [delegationCode]) hh
  obtain ⟨h'', hkey, hcodes⟩ := kCodeKey_eq hs' hacc
  refine ⟨h'', ?_⟩
  rw [kDelegTarget, run_bind, hkey]
  show Except.ok (codeDbReadDelegation h''.state acc.info.codeHash, h'') = _
  rw [codeDbReadDelegation_of_stored (by rw [hcodes]; exact hstored) hbytes]

/-- A cleared account has no code, and so delegates to nothing. -/
theorem kClearCode_read {h h' : Host} (hs : Sound (view env h.state))
    (hh : (kClearCode env a).run h = .ok ((), h')) :
    ∃ h'', (kCode env a).run h' = .ok (emptyCode, h'') := by
  have hs' := ((kClearCode env a).keeps _ _ _ hh hs).sound
  obtain ⟨⟨acc, h₁⟩, hload, hh⟩ := bind_eq_ok.mp hh
  obtain ⟨h₂, hstore, hh⟩ := bind_eq_ok.mp hh
  cases hh
  obtain ⟨-, -, r, hr, hcurr⟩ := kAload_loaded hload
  have hacc := @storeAccountInfo_readAccount env _ _ _ _ _ _ hr hcurr hstore
  obtain ⟨h'', hkey, -⟩ := kCodeKey_eq hs' hacc
  refine ⟨h'', ?_⟩
  have hhash : (accountSetInfo acc { acc.info with codeHash := keccakEmpty }).info.codeHash =
      keccakEmpty := accountSetInfo_codeHash acc keccakEmpty
  rw [hhash] at hkey
  rw [kCode, run_bind, hkey]
  rfl

end

end EvmSail.Kernel
