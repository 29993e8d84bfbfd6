/-
# `EvmSail.Transition.Authorizing` — the authorizations of a transaction

Each tuple of an authorization list (EIP-7702) may set or clear the
delegation of its authority.  Before Amsterdam this is paid for in advance
and refunded for authorities that exist.  From Amsterdam on it is paid for
as it happens, and how often an authority has been named before decides
what is charged: the host keeps a tracker for it.
-/
import EvmSail.Tx.AccessListWarming
import EvmSail.Vm.Frames

namespace EvmSail.Vm

open Fallible Kernel

/-! ## One tuple -/

def perAuthBase : Nat := 12500

def perEmptyAccount : Nat := 25000

/-- `G_amsterdam_state_auth_base`. -/
def stateAuthBase : Nat := 35190

section

variable (ctx : Context)

/-- What the tuple alone has to say: it is signed, and for this chain or for
any. -/
def authorizationAdmitted (au : Authorization) : Bool :=
  au.validSig && (au.chainId == 0 || au.chainId == wordOfUint64 ctx.chainId)

/-- Sets or clears the delegation of the authority, and counts its nonce up. -/
def installDelegation (au : Authorization) : Exec Unit := do
  (if au.address = zeroAddress then syscall (kClearCode ctx.kernel au.authority)
    else syscall (kSetDelegation ctx.kernel au.authority au.address) : Exec Unit)
  syscall (kBumpNonce ctx.kernel au.authority)

/-- The authority is warmed, then looked at: its delegation, and whether the
tuple applies to it. -/
def readAuthority (au : Authorization) : Exec (Option Address × Bool) := do
  syscall (kAccountMarkWarm ctx.kernel au.authority)
  let delegation ← syscall (kDelegTarget ctx.kernel au.authority)
  let codeKey ← syscall (kCodeKey ctx.kernel au.authority)
  let nonce ← syscall (kGetNonce ctx.kernel au.authority)
  pure (delegation, decide ((codeKey = keccakEmpty ∨ delegation.isSome) ∧ nonce = au.nonce))

/-! ## Before Amsterdam -/

/-- Applies one authorization; the result is what it refunds. -/
def processAuth (au : Authorization) : Exec Nat :=
  if authorizationAdmitted ctx au then do
    let (_, applies) ← readAuthority ctx au
    if applies then do
      let existed ← syscall (kAccountExists ctx.kernel au.authority)
      installDelegation ctx au
      pure (if existed then perEmptyAccount - perAuthBase else 0)
    else pure 0
  else pure 0

def authorizationRefundAdd (item accumulated : Nat) : Result Nat :=
  if accumulated ≤ perAuthBase * transactionLengthBound - item then .ok (item + accumulated)
  else fatalError .executionInvalid

/-- Applies the authorizations in their order. -/
def processAuthCursor : List Authorization → Nat → Exec Nat
  | _, 0 => pure 0
  | [], _ + 1 => liftM (fatalError .executionInvalid : Result Nat)
  | au :: rest, count + 1 => do
    let itemRefund ← processAuth ctx au
    let remainingRefund ← processAuthCursor rest count
    liftM (authorizationRefundAdd itemRefund remainingRefund)

def processAuthList (authorizations : PreparedAuthorizationList) : Exec Nat :=
  processAuthCursor ctx authorizations.entries authorizations.count

/-! ## The tracker -/

/-- What is remembered of an authority that a tuple was applied to. -/
structure AuthorityRecord where
  originallyDelegated : Bool
  delegationSet : Bool

abbrev AuthorizationTracker := Address → Option AuthorityRecord

/-- `authorization_tracker_reset`. -/
def emptyTracker : AuthorizationTracker := fun _ => none

def AuthorizationTracker.seen (t : AuthorizationTracker) (a : Address) : Bool := (t a).isSome

def AuthorizationTracker.originallyDelegated (t : AuthorizationTracker) (a : Address) : Bool :=
  match t a with
  | some r => r.originallyDelegated
  | none => false

def AuthorizationTracker.delegationSet (t : AuthorizationTracker) (a : Address) : Bool :=
  match t a with
  | some r => r.delegationSet
  | none => false

/-- A delegation that was set once counts as set. -/
def AuthorizationTracker.commit (t : AuthorizationTracker) (a : Address)
    (originallyDelegated setsDelegation : Bool) : AuthorizationTracker :=
  Function.update t a (some
    { originallyDelegated := t.originallyDelegated a || originallyDelegated
      delegationSet := t.delegationSet a || setsDelegation })

/-! ## From Amsterdam on -/

/-- What cannot be paid for ends the preparation without a result. -/
instance {α : Type} : Outcome (Option α) := ⟨fun _ => none⟩

/-- What follows a charge of state gas that is due under a condition. -/
def chargeStateWhen {S : Type} [Outcome S] (due : Bool) (amount : Nat) (k : Exec S) : Exec S :=
  if due then chargeState amount k else k

/-- What follows a charge that is due under a condition. -/
def chargeWhen {S : Type} [Outcome S] (due : Bool) (cost : Nat) (k : Exec S) : Exec S :=
  if due then charge cost k else k

/-- Applies one authorization and pays for it; none when it cannot be paid
for. -/
def processAmsterdamAuth (sender currentTarget : Address) (transfersValue : Bool)
    (tracker : AuthorizationTracker) (au : Authorization) : Exec (Option AuthorizationTracker) :=
  if authorizationAdmitted ctx au then do
    let (delegation, applies) ← readAuthority ctx au
    if applies then do
      let authority := au.authority
      let seen := tracker.seen authority
      let delegatedBeforeTx :=
        if seen then tracker.originallyDelegated authority else delegation.isSome
      let alreadyWritten :=
        seen || authority == sender || (transfersValue && authority == currentTarget)
      let accountExists ← syscall (kAccountExists ctx.kernel authority)
      let createsDelegation := au.address != zeroAddress
      chargeStateWhen (!accountExists) stateNewAccount <|
        chargeWhen (!alreadyWritten) gAmsterdamAccountWrite <|
          chargeStateWhen
              (createsDelegation && !delegatedBeforeTx && !tracker.delegationSet authority)
              stateAuthBase do
            installDelegation ctx au
            pure (some (tracker.commit authority (!seen && delegation.isSome) createsDelegation))
    else pure (some tracker)
  else pure (some tracker)

/-- Applies the authorizations in their order, up to the first that cannot be
paid for. -/
def processAmsterdamAuthCursor (sender currentTarget : Address) (transfersValue : Bool) :
    List Authorization → Nat → AuthorizationTracker → Exec Bool
  | _, 0, _ => pure true
  | [], _ + 1, _ => liftM (fatalError .executionInvalid : Result Bool)
  | au :: rest, count + 1, tracker => do
    match ← processAmsterdamAuth ctx sender currentTarget transfersValue tracker au with
    | some tracker =>
      processAmsterdamAuthCursor sender currentTarget transfersValue rest count tracker
    | none => pure false

end

end EvmSail.Vm
