/-
# `EvmSail.Kernel.Ether` — all the ether there is

There are finitely many addresses, so the balances of all accounts have a sum
(`ether`).  An operation that leaves every balance leaves the sum; a debit, a
credit and a sweep change it by what they move, and a transfer does not
change it.  An account that has no row yet reads as the witness has it, so
that loading it changes nothing.
-/
import EvmSail.Kernel.Writes
import Mathlib.Data.FinEnum

namespace EvmSail.Kernel

open Fallible

section

variable (env : Env)

/-- The sum of all balances. -/
def ether (s : State) : Nat := ∑ a : Address, balanceReading env s a

variable {env}

/-! ## Balances and their sum -/

theorem SameBalances.ether {h h' : Host} (hsame : SameBalances env h h') :
    ether env h'.state = ether env h.state := Finset.sum_congr rfl fun a _ => hsame a

theorem ether_of_view {s s' : State} (hview : view env s' = view env s) :
    ether env s' = ether env s :=
  Finset.sum_congr rfl fun _ _ => balanceReading_congr (by rw [hview])

/-- The balance of one account changes. -/
theorem ether_change {s s' : State} {a : Address}
    (hothers : ∀ b, b ≠ a → balanceReading env s' b = balanceReading env s b) :
    ether env s' + balanceReading env s a = ether env s + balanceReading env s' a := by
  have hsum : ∀ t : State, ether env t =
      balanceReading env t a + ∑ b ∈ Finset.univ.erase a, balanceReading env t b :=
    fun t => (Finset.add_sum_erase _ _ (Finset.mem_univ a)).symm
  have hrest : ∑ b ∈ Finset.univ.erase a, balanceReading env s' b =
      ∑ b ∈ Finset.univ.erase a, balanceReading env s b :=
    Finset.sum_congr rfl fun b hb => hothers b (Finset.ne_of_mem_erase hb)
  rw [hsum s', hsum s, hrest]
  omega

/-- The sum bounds any part of it. -/
theorem supply_ether (s : State) : Supply env s (ether env s) := by
  intro S
  have hpart : ∑ a ∈ S, balanceReading env s a ≤ ether env s :=
    Finset.sum_le_sum_of_subset (Finset.subset_univ S)
  exact (Nat.cast_sum S _).symm.le.trans (Int.ofNat_le.mpr hpart)

theorem Supply.ether_le {s : State} {n : Int} (hsupply : Supply env s n) :
    (ether env s : Int) ≤ n :=
  (Nat.cast_sum Finset.univ _).le.trans (hsupply Finset.univ)

theorem balanceReading_le_ether (s : State) (a : Address) :
    balanceReading env s a ≤ ether env s :=
  Finset.single_le_sum (fun _ _ => Nat.zero_le _) (Finset.mem_univ a)

/-- A balance is a word. -/
theorem balanceReading_lt (s : State) (a : Address) : balanceReading env s a < 2 ^ 256 := by
  rw [balanceReading]
  split
  · next acc _ => exact acc.info.balance.isLt
  · exact Nat.two_pow_pos 256

/-! ## Changes of one balance -/

/-- The account has `v` less, and no other balance has changed. -/
structure Debited (env : Env) (a : Address) (v : Nat) (h h' : Host) : Prop where
  account : balanceReading env h'.state a + v = balanceReading env h.state a
  others : ∀ b, b ≠ a → balanceReading env h'.state b = balanceReading env h.state b

theorem Debited.ether {a : Address} {v : Nat} {h h' : Host} (hd : Debited env a v h h') :
    ether env h'.state + v = ether env h.state := by
  have hchange := ether_change hd.others
  have haccount := hd.account
  omega

/-- A change of the tuple: nothing, or the tuple that was asked for. -/
theorem updateInfo_cases {a : Address} {f : AccountInfo → Result (Option AccountInfo)}
    {h h' : Host} {u : Unit} (hh : (updateInfo env a f).run h = .ok (u, h')) :
    ∃ acc, (view env h.state).readAccount a = .ok acc ∧
      (f acc.info = .ok none ∧ SameReadings env h h' ∨
        ∃ info, f acc.info = .ok (some info) ∧
          Rewrites env a (accountSetInfo acc { info with storageRoot := acc.info.storageRoot })
            h h') := by
  obtain ⟨⟨acc, h₁⟩, hload, hh⟩ := bind_eq_ok.mp hh
  obtain ⟨h₂, hstore, hh⟩ := bind_eq_ok.mp hh
  cases hh
  obtain ⟨hreading, hsame, r, hr, hcurr⟩ := kAload_loaded hload
  obtain ⟨info, hinfo, hstore⟩ := bind_eq_ok.mp hstore
  refine ⟨acc, hreading, ?_⟩
  cases info with
  | none =>
    cases hstore
    exact .inl ⟨hinfo, hsame⟩
  | some info =>
    exact .inr ⟨info, hinfo, hsame.rewrites (storeAccountInfo_rewrites hr hcurr hstore rfl).1⟩

/-- The balances after a change of one of them. -/
theorem Rewrites.balances {a : Address} {acc acc' : Account} {h h' : Host}
    (hrewrites : Rewrites env a acc' h h') (hacc : (view env h.state).readAccount a = .ok acc) :
    balanceReading env h.state a = acc.info.balance.toNat ∧
      balanceReading env h'.state a = acc'.info.balance.toNat ∧
        ∀ b, b ≠ a → balanceReading env h'.state b = balanceReading env h.state b :=
  ⟨balanceReading_ok hacc, balanceReading_ok hrewrites.account,
    fun b hb => balanceReading_congr (hrewrites.others b hb)⟩

theorem kSubBalance_debited {a : Address} {v : Word} {h h' : Host} {u : Unit}
    (hh : (kSubBalance env a v).run h = .ok (u, h'))
    (hcovered : v.toNat ≤ balanceReading env h.state a) : Debited env a v.toNat h h' := by
  obtain ⟨acc, hacc, ⟨hnone, hsame⟩ | ⟨info, hinfo, hrewrites⟩⟩ := updateInfo_cases hh
  · split at hnone
    · next hzero =>
      rw [hzero]
      exact ⟨hsame.sameBalances a, fun b _ => hsame.sameBalances b⟩
    · cases hnone
  · split at hinfo
    · cases hinfo
    · cases hinfo
      obtain ⟨hbefore, hafter, hothers⟩ := hrewrites.balances hacc
      refine ⟨?_, hothers⟩
      rw [hbefore] at hcovered ⊢
      rw [hafter, accountSetInfo_balance]
      have hsub : (acc.info.balance - v).toNat = acc.info.balance.toNat - v.toNat :=
        BitVec.toNat_sub_of_le (BitVec.le_def.mpr hcovered)
      rw [hsub]
      omega

/-- A credit is a debit read backwards. -/
theorem kAddBalance_credited {a : Address} {v : Word} {h h' : Host} {u : Unit}
    (hh : (kAddBalance env a v).run h = .ok (u, h'))
    (hfits : balanceReading env h.state a + v.toNat < 2 ^ 256) : Debited env a v.toNat h' h := by
  obtain ⟨acc, hacc, ⟨hnone, hsame⟩ | ⟨info, hinfo, hrewrites⟩⟩ := updateInfo_cases hh
  · split at hnone
    · next hzero =>
      rw [hzero]
      exact ⟨(hsame.sameBalances a).symm, fun b _ => (hsame.sameBalances b).symm⟩
    · cases hnone
  · split at hinfo
    · cases hinfo
    · cases hinfo
      obtain ⟨hbefore, hafter, hothers⟩ := hrewrites.balances hacc
      refine ⟨?_, fun b hb => (hothers b hb).symm⟩
      rw [hbefore] at hfits ⊢
      rw [hafter, accountSetInfo_balance]
      show _ = (acc.info.balance + v).toNat
      rw [BitVec.toNat_add, Nat.mod_eq_of_lt hfits]

/-- A sweep burns what the account has. -/
theorem kZeroBalance_debited {a : Address} {h h' : Host} {u : Unit}
    (hh : (kZeroBalance env a).run h = .ok (u, h')) :
    Debited env a (balanceReading env h.state a) h h' := by
  obtain ⟨acc, hacc, ⟨hnone, hsame⟩ | ⟨info, hinfo, hrewrites⟩⟩ := updateInfo_cases hh
  · split at hnone
    · next hzero =>
      have hnothing : balanceReading env h.state a = 0 := by
        rw [balanceReading_ok hacc, hzero]
        rfl
      rw [hnothing]
      exact ⟨hsame.sameBalances a, fun b _ => hsame.sameBalances b⟩
    · cases hnone
  · split at hinfo
    · cases hinfo
    · cases hinfo
      obtain ⟨-, hafter, hothers⟩ := hrewrites.balances hacc
      refine ⟨?_, hothers⟩
      rw [hafter, accountSetInfo_balance]
      exact Nat.zero_add _

/-- A transfer that is covered moves ether. -/
theorem kTransfer_ether {src dst : Address} {v : Word} {h h' : Host} {u : Unit}
    (hh : (kTransfer env src dst v).run h = .ok (u, h'))
    (hcovered : v.toNat ≤ balanceReading env h.state src) (hbound : ether env h.state < 2 ^ 256) :
    ether env h'.state = ether env h.state := by
  rcases kTransfer_cases hh with hsame | ⟨srcAcc, dstAcc, h₁, h₂, ht⟩
  · exact hsame.sameBalances.ether
  · rw [balanceReading_ok ht.source] at hcovered
    obtain ⟨hsource, -, hdestination⟩ :=
      ht.balances (supply_ether h.state) (by exact_mod_cast hbound) hcovered
    obtain ⟨hsrc, -, hothers⟩ := ht.debited.balances ht.source
    have hdebit : Debited env src v.toNat h h₁ := by
      refine ⟨?_, hothers⟩
      rw [ht.debited.balances ht.source |>.2.1, accountSetInfo_balance, hsrc]
      show (srcAcc.info.balance - v).toNat + v.toNat = _
      rw [BitVec.toNat_sub_of_le (BitVec.le_def.mpr hcovered)]
      omega
    have hcredit : Debited env dst v.toNat h' h₁ := by
      refine ⟨?_, fun b hb => ?_⟩
      · rw [hdestination]
        exact congrArg (· + v.toNat) (balanceReading_congr (ht.debited.others dst ht.distinct.symm))
      · exact (balanceReading_congr ((ht.logged.account b).trans (ht.credited.others b hb))).symm
    have hdebited := hdebit.ether
    have hcredited := hcredit.ether
    omega

end

end EvmSail.Kernel
