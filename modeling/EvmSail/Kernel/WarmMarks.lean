/-
# `EvmSail.Kernel.WarmMarks` — what becomes warm

Addresses and slots become warm through their own marks.  Reads leave the
warm sets as they are, and so do the mutations of accounts: `Tepid` says so
of a kernel program, and is inferred along with it.  From one host to
another, `Warms` bounds the addresses that have become warm.
-/
import EvmSail.Kernel.Storage

namespace EvmSail.Kernel

open Fallible Kept

/-- Of the addresses none but those of `A` have become warm, and no slot. -/
structure Warms (A : List Address) (h h' : Host) : Prop where
  slots : h'.state.warm.slots = h.state.warm.slots
  others : ∀ a, a ∉ A → h'.state.warm.accounts a = h.state.warm.accounts a
  stays : ∀ a, h.state.warm.accounts a = true → h'.state.warm.accounts a = true

section

variable {A : List Address} {h h' h'' : Host}

theorem Warms.of_eq (hwarm : h'.state.warm = h.state.warm) : Warms A h h' := by
  refine ⟨?_, fun a _ => ?_, fun a ha => ?_⟩
  · rw [hwarm]
  · rw [hwarm]
  · rwa [hwarm]

instance : IsPreorder Host (Warms A) where
  refl _ := .of_eq rfl
  trans _ _ _ h₁ h₂ :=
    ⟨h₂.slots.trans h₁.slots, fun a ha => (h₂.others a ha).trans (h₁.others a ha),
      fun a ha => h₂.stays a (h₁.stays a ha)⟩

theorem Warms.mono {B : List Address} (hwarms : Warms A h h') (hsubset : A ⊆ B) : Warms B h h' :=
  ⟨hwarms.slots, fun a ha => hwarms.others a fun hin => ha (hsubset hin), hwarms.stays⟩

theorem Warms.congr (hwarms : Warms A h h') (hwarm : h''.state.warm = h'.state.warm) :
    Warms A h h'' :=
  IsTrans.trans _ _ _ hwarms (.of_eq hwarm)

end

theorem accountMarkWarm_warms {A : List Address} {a : Address} (ha : a ∈ A) (h : Host) :
    Warms A h (accountMarkWarm a h) := by
  simp only [accountMarkWarm]
  split
  · exact .of_eq rfl
  · refine ⟨rfl, fun b hb => ?_, fun b hb => ?_⟩
    · have hne : b ≠ a := by
        rintro rfl
        exact hb ha
      exact Function.update_of_ne hne _ _
    · show Function.update h.state.warm.accounts a true b = true
      by_cases heq : b = a
      · rw [heq, Function.update_self]
      · rw [Function.update_of_ne heq, hb]

theorem kAccountMarkWarm_warms {env : Env} {A : List Address} {a : Address} (ha : a ∈ A)
    {h h' : Host} {u : Unit} (hrun : (kAccountMarkWarm env a).run h = .ok (u, h')) :
    Warms A h h' := by
  simp only [kAccountMarkWarm] at hrun
  split at hrun
  · cases hrun
    exact .of_eq rfl
  · cases hrun
    exact accountMarkWarm_warms ha h

/-! ## Programs that mark nothing -/

class Tepid {R : Host → Host → Prop} {α : Type} (x : Kept R Halt α) : Prop where
  warm : ∀ h a h', x.run h = .ok (a, h') → h'.state.warm = h.state.warm

section

variable {R : Host → Host → Prop} [IsPreorder Host R] {α β : Type}

instance (a : α) : Tepid (pure a : Kept R Halt α) where
  warm h b h' hx := by
    cases hx
    rfl

instance (f : Host → α) : Tepid (ask f : Kept R Halt α) where
  warm h b h' hx := by
    cases hx
    rfl

instance (f : Host → Except Halt α) : Tepid (query f : Kept R Halt α) where
  warm h b h' hx := by
    obtain ⟨b', -, hx⟩ := bind_eq_ok.mp hx
    cases hx
    rfl

instance tepidBind (x : Kept R Halt α) (f : α → Kept R Halt β) [Tepid x] [∀ a, Tepid (f a)] :
    Tepid (x >>= f) where
  warm h b h' hx := by
    obtain ⟨a, h₁, hx, hf⟩ := run_bind_eq_ok.mp hx
    exact (Tepid.warm h₁ b h' hf).trans (Tepid.warm h a h₁ hx)

omit [IsPreorder Host R] in
theorem tepid_ite {c : Prop} [Decidable c] {x y : Kept R Halt α} (hx : Tepid x) (hy : Tepid y) :
    Tepid (if c then x else y) := by
  split
  · exact hx
  · exact hy

end

section

variable {env : Env}

instance (a : Address) : Tepid (kAload env a) where
  warm h acc h' hrun := by
    simp only [kAload] at hrun
    split at hrun
    · cases hrun
      rfl
    · split at hrun
      · cases hrun
        rfl
      · obtain ⟨acc', -, hrun⟩ := bind_eq_ok.mp hrun
        cases hrun
        rw [acctBlockCache]
        split
        · rfl
        · rfl

instance (a : Address) : Tepid (kGetBalance env a) := by
  unfold kGetBalance
  infer_instance

instance (a : Address) : Tepid (kGetNonce env a) := by
  unfold kGetNonce
  infer_instance

instance (a : Address) : Tepid (kAccountIsEmpty env a) := by
  unfold kAccountIsEmpty
  infer_instance

instance (a : Address) : Tepid (kAccountOccupied env a) := by
  unfold kAccountOccupied
  exact @tepidBind _ _ _ _ _ _ inferInstance fun _ => tepid_ite inferInstance inferInstance

instance (a : Address) : Tepid (kCodeKey env a) := by
  unfold kCodeKey
  infer_instance

instance (a : Address) : Tepid (kDelegTarget env a) := by
  unfold kDelegTarget
  infer_instance

instance (a : Address) : Tepid (kCode env a) := by
  unfold kCode
  infer_instance

instance (a : Address) : Tepid (kAccountIsWarm env a) := by
  unfold kAccountIsWarm
  exact tepid_ite inferInstance inferInstance

/-! ### Mutations -/

theorem onAccount_tepid {a : Address} {f : Account → Host → Result Host}
    {hf : ∀ acc h h', (view env h.state).readAccount a = .ok acc → f acc h = .ok h' →
      Changes env h h'}
    (hstores : ∀ acc h h', f acc h = .ok h' → h'.state.warm = h.state.warm) :
    Tepid (onAccount env a f hf) where
  warm h u h' hrun := by
    obtain ⟨r, hload, hrun⟩ := bind_eq_ok.mp hrun
    obtain ⟨h₂, hstore, hrun⟩ := bind_eq_ok.mp hrun
    cases hrun
    exact (hstores _ _ _ hstore).trans (Tepid.warm _ _ _ hload)

instance (a : Address) (f : AccountInfo → Result (Option AccountInfo)) :
    Tepid (updateInfo env a f) :=
  onAccount_tepid fun acc h h' hstore => by
    obtain ⟨info, -, hstore⟩ := bind_eq_ok.mp hstore
    cases info with
    | none =>
      cases hstore
      rfl
    | some info => exact (storeAccountInfo_storesOnly hstore).warm

instance (a : Address) : Tepid (kBumpNonce env a) := by
  unfold kBumpNonce
  infer_instance

theorem storeAccount_warm (a : Address) (v : Account) (h : Host) :
    (storeAccount a v h).state.warm = h.state.warm :=
  (acctTxWrite_storesOnly a (fun _ => v) h).warm

instance (a : Address) : Tepid (kClearStorage env a) :=
  onAccount_tepid fun acc h h' hstore => by
    obtain ⟨h₁, hclear, hstore⟩ := bind_eq_ok.mp hstore
    cases hstore
    exact (storeAccount_warm _ _ _).trans (storageTxClear_storesOnly hclear).warm

instance (a : Address) : Tepid (kMarkCreated env a) := by
  unfold kMarkCreated updateFlags
  refine onAccount_tepid fun acc h h' hstore => ?_
  cases hstore
  exact storeAccount_warm _ _ _

instance (code : List Byte) : Tepid (kInternCode env code) where
  warm _ _ _ hrun := congrArg View.warm (codeDbInsert_ok hrun).1

theorem kEmitTransferLog_warm {src dst : Address} {v : Word} {h h' : Host} {u : Unit}
    (hrun : (kEmitTransferLog env src dst v).run h = .ok (u, h')) :
    h'.state.warm = h.state.warm := by
  simp only [kEmitTransferLog] at hrun
  split at hrun
  · cases hrun
    rfl
  · cases hrun
    rfl

instance (src dst : Address) (v : Word) : Tepid (kTransfer env src dst v) where
  warm h u h' hrun := by
    obtain ⟨srcAcc, hsrc, hrun⟩ := bind_eq_ok.mp hrun
    obtain ⟨dstAcc, hdst, hrun⟩ := bind_eq_ok.mp hrun
    have hloaded : dstAcc.2.state.warm = h.state.warm :=
      (Tepid.warm _ _ _ hdst).trans (Tepid.warm _ _ _ hsrc)
    split at hrun
    · cases hrun
      exact hloaded
    · obtain ⟨h₁, hstore₁, hrun⟩ := bind_eq_ok.mp hrun
      obtain ⟨h₂, hstore₂, hrun⟩ := bind_eq_ok.mp hrun
      rw [kEmitTransferLog_warm hrun, (storeAccountInfo_storesOnly hstore₂).warm,
        (storeAccountInfo_storesOnly hstore₁).warm, hloaded]

end

end EvmSail.Kernel
