/-
# `EvmSail.Transition.Payments` — ether that a transaction moves itself

Outside the interpreter a transaction moves ether five times at most: it is
charged for its gas and its blobs, sends its value, and in the end the sender
is given back what is left and the coinbase is paid.  The operations that
move it do not look whether the ether is there.

So what a transaction does is written over the operation it pays with.  The
kernel's is `kPay`; `guarded` is the same, but halts where it would take more
than there is, or give more than fits.  That the two agree on every
transaction that is accepted says that nothing ever wraps.
-/
import EvmSail.Kernel.Ether
import EvmSail.Vm.Machine

namespace EvmSail.Vm

open Fallible Kernel

inductive Payment where
  | debit (a : Address) (v : Word)
  | credit (a : Address) (v : Word)
  | transfer (src dst : Address) (v : Word)

section

variable (env : Env)

/-- `k_sub_balance`, `k_add_balance` and `k_transfer`. -/
def kPay : Payment → Exec Unit
  | .debit a v => syscall (kSubBalance env a v)
  | .credit a v => syscall (kAddBalance env a v)
  | .transfer src dst v => syscall (kTransfer env src dst v)

/-- What is taken from an account is there. -/
def Payment.Covered (h : Host) : Payment → Prop
  | .debit a v => v.toNat ≤ balanceReading env h.state a
  | .credit _ _ => True
  | .transfer src _ v => v.toNat ≤ balanceReading env h.state src

/-- What is given to an account fits on top of what it has. -/
def Payment.Fits (h : Host) : Payment → Prop
  | .debit _ _ => True
  | .credit a v => balanceReading env h.state a + v.toNat < 2 ^ 256
  | .transfer src dst v =>
    src = dst ∨ balanceReading env h.state dst + v.toNat < 2 ^ 256

instance (h : Host) : (p : Payment) → Decidable (p.Covered env h)
  | .debit a v => inferInstanceAs (Decidable (v.toNat ≤ balanceReading env h.state a))
  | .credit _ _ => inferInstanceAs (Decidable True)
  | .transfer src _ v => inferInstanceAs (Decidable (v.toNat ≤ balanceReading env h.state src))

instance (h : Host) : (p : Payment) → Decidable (p.Fits env h)
  | .debit _ _ => inferInstanceAs (Decidable True)
  | .credit a v =>
    inferInstanceAs (Decidable (balanceReading env h.state a + v.toNat < 2 ^ 256))
  | .transfer src dst v =>
    inferInstanceAs (Decidable (src = dst ∨ balanceReading env h.state dst + v.toNat < 2 ^ 256))

/-- Pays where `P` allows it, and halts where it does not. -/
def guarded (P : Host → Payment → Prop) [∀ h p, Decidable (P h p)] (halt : Halt) (p : Payment) :
    Exec Unit := fun s =>
  if P s.kernel p then kPay env p s else .error halt

end

end EvmSail.Vm
