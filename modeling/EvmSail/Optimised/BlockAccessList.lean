/-
# `EvmSail.Optimised.BlockAccessList` — the block access list of the host

The optimised host records the accesses of a block in rows of its account
and slot tables.  A change is a row of a history that all accounts or all
slots share: the changes of one account or slot are chained through it.  A
second change of the same transaction overwrites the first.  A row is reset
when it is first activated in a block, and then its id is entered in an
order.

Before the accesses are iterated the two orders are sorted by a heap sort.
The iteration is a `for` loop over phases with a cursor into each order and
a position in a history; it either returns an entry or goes on in another
state.
-/
import EvmSail.Lib.HeapSort
import EvmSail.Prelude

namespace EvmSail.Optimised

/-! ## The tables -/

/-- The accounts and slots that the rows stand for.  A slot row belongs to
one account; no two rows stand for the same address or slot. -/
structure BalSchema (A S : Type) where
  address : A → Address
  owner : S → A
  slot : S → Word
  address_injective : Function.Injective address
  slot_injective : ∀ s s', owner s = owner s' → slot s = slot s' → s = s'

/-- `BalHistoryRow`, at one type of its union. -/
structure BalHistoryRow (α : Type) where
  index : Nat
  next : Option Nat
  value : α
  deriving DecidableEq

/-- A head and a tail into a history; `none` is `BAL_NO_HISTORY`. -/
structure BalChain where
  head : Option Nat
  tail : Option Nat
  deriving DecidableEq

def BalChain.none : BalChain := ⟨.none, .none⟩

structure BalAccountState where
  blockEpoch : Nat
  balance : BalChain
  nonce : BalChain
  code : BalChain
  touched : Bool
  deriving DecidableEq

structure BalStorageState (A : Type) where
  blockEpoch : Nat
  accountId : A
  change : BalChain
  read : Bool
  deriving DecidableEq

/-- The state of the block access list but for its iteration. -/
structure BalTable (A S : Type) where
  storageHistory : List (BalHistoryRow Word)
  balanceHistory : List (BalHistoryRow Word)
  nonceHistories : List (BalHistoryRow Nat)
  codeHistories : List (BalHistoryRow Hash)
  accounts : A → BalAccountState
  storage : S → BalStorageState A
  blockEpoch : Nat
  accountOrder : List A
  storageOrder : List S

def guestBalStorageChanges : Nat := 65536
def guestBalBalanceChanges : Nat := 32768
def guestBalNonceChanges : Nat := 32768
def guestBalCodeChanges : Nat := 32768

/-! ## Recording -/

section

variable {A S : Type} [DecidableEq A] [DecidableEq S]

def balAccountActivate (t : BalTable A S) (id : A) : BalTable A S :=
  let account := t.accounts id
  if account.blockEpoch ≠ t.blockEpoch then
    { t with
      accounts := Function.update t.accounts id ⟨t.blockEpoch, .none, .none, .none, true⟩
      accountOrder := t.accountOrder ++ [id] }
  else { t with accounts := Function.update t.accounts id { account with touched := true } }

def balStorageActivate (t : BalTable A S) (accountId : A) (storageId : S) : BalTable A S :=
  if (t.storage storageId).blockEpoch ≠ t.blockEpoch then
    { t with
      storage := Function.update t.storage storageId ⟨t.blockEpoch, accountId, .none, false⟩
      storageOrder := t.storageOrder ++ [storageId] }
  else t

/-- `bal_append_history` and the store into the row it returns. -/
def balAppendHistory {α : Type} (rows : List (BalHistoryRow α)) (capacity : Nat) (chain : BalChain)
    (transactionEpoch : Nat) (value : α) : Option (List (BalHistoryRow α) × BalChain) :=
  let fresh (linked : List (BalHistoryRow α)) (head : Nat → Option Nat) :=
    if capacity ≤ rows.length then none
    else
      let position := rows.length
      some (linked ++ [⟨transactionEpoch, none, value⟩], ⟨head position, some position⟩)
  match chain.tail with
  | none => fresh rows some
  | some tail =>
    if (rows[tail]?).map (·.index) = some transactionEpoch then
      some (rows.modify tail fun last => { last with value }, chain)
    else
      fresh (rows.modify tail fun last => { last with next := some rows.length })
        fun _ => chain.head

def balNoteAccountTouch (t : BalTable A S) (accountId : A) : BalTable A S :=
  balAccountActivate t accountId

def balNoteStorageChange (t : BalTable A S) (transactionEpoch : Nat) (accountId : A)
    (storageId : S) (value : Word) : Option (BalTable A S) := do
  let t := balAccountActivate t accountId
  let t := balStorageActivate t accountId storageId
  let bal := t.storage storageId
  let (rows, chain) ←
    balAppendHistory t.storageHistory guestBalStorageChanges bal.change
      (transactionEpoch % 2 ^ 32) value
  some
    { t with
      storageHistory := rows
      storage := Function.update t.storage storageId { bal with change := chain } }

def balNoteStorageTouch (t : BalTable A S) (accountId : A) (storageId : S) : BalTable A S :=
  let t := balAccountActivate t accountId
  let t := balStorageActivate t accountId storageId
  { t with
    storage := Function.update t.storage storageId { t.storage storageId with read := true } }

def balNoteBalanceChange (t : BalTable A S) (transactionEpoch : Nat) (accountId : A)
    (value : Word) : Option (BalTable A S) := do
  let t := balAccountActivate t accountId
  let account := t.accounts accountId
  let (rows, chain) ←
    balAppendHistory t.balanceHistory guestBalBalanceChanges account.balance
      (transactionEpoch % 2 ^ 32) value
  some
    { t with
      balanceHistory := rows
      accounts := Function.update t.accounts accountId { account with balance := chain } }

def balNoteNonceChange (t : BalTable A S) (transactionEpoch : Nat) (accountId : A)
    (nonce : Nat) : Option (BalTable A S) := do
  let t := balAccountActivate t accountId
  let account := t.accounts accountId
  let (rows, chain) ←
    balAppendHistory t.nonceHistories guestBalNonceChanges account.nonce
      (transactionEpoch % 2 ^ 32) nonce
  some
    { t with
      nonceHistories := rows
      accounts := Function.update t.accounts accountId { account with nonce := chain } }

def balNoteCodeChange (t : BalTable A S) (transactionEpoch : Nat) (accountId : A)
    (codeHash : Hash) : Option (BalTable A S) := do
  let t := balAccountActivate t accountId
  let account := t.accounts accountId
  let (rows, chain) ←
    balAppendHistory t.codeHistories guestBalCodeChanges account.code
      (transactionEpoch % 2 ^ 32) codeHash
  some
    { t with
      codeHistories := rows
      accounts := Function.update t.accounts accountId { account with code := chain } }

/-- `bal_reset`, but for the cursors. -/
def balReset (t : BalTable A S) : Option (BalTable A S) :=
  if t.blockEpoch = 2 ^ 64 - 1 then none
  else
    some
      { t with
        blockEpoch := t.blockEpoch + 1
        storageHistory := []
        balanceHistory := []
        nonceHistories := []
        codeHistories := []
        accountOrder := []
        storageOrder := [] }

/-! ## Notes -/

/-- What the rest of the host tells the block access list.  A slot is always
given with the account whose slots it was looked up in. -/
inductive BalNote (A S : Type) where
  | accountTouch (a : A)
  | storageTouch (s : S)
  | storageChange (epoch : Nat) (s : S) (value : Word)
  | balanceChange (epoch : Nat) (a : A) (value : Word)
  | nonceChange (epoch : Nat) (a : A) (nonce : Nat)
  | codeChange (epoch : Nat) (a : A) (codeHash : Hash)

def balNote (schema : BalSchema A S) (t : BalTable A S) : BalNote A S → Option (BalTable A S)
  | .accountTouch a => some (balNoteAccountTouch t a)
  | .storageTouch s => some (balNoteStorageTouch t (schema.owner s) s)
  | .storageChange epoch s value => balNoteStorageChange t epoch (schema.owner s) s value
  | .balanceChange epoch a value => balNoteBalanceChange t epoch a value
  | .nonceChange epoch a nonce => balNoteNonceChange t epoch a nonce
  | .codeChange epoch a codeHash => balNoteCodeChange t epoch a codeHash

namespace BalNote

/-- The account of a note. -/
def account (schema : BalSchema A S) : BalNote A S → A
  | .accountTouch a => a
  | .storageTouch s => schema.owner s
  | .storageChange _ s _ => schema.owner s
  | .balanceChange _ a _ => a
  | .nonceChange _ a _ => a
  | .codeChange _ a _ => a

/-- The slot of a note, if it is about one. -/
def storage : BalNote A S → Option S
  | .storageTouch s => some s
  | .storageChange _ s _ => some s
  | _ => none

/-- The transaction of a change. -/
def epoch : BalNote A S → Option Nat
  | .storageChange e _ _ => some e
  | .balanceChange e _ _ => some e
  | .nonceChange e _ _ => some e
  | .codeChange e _ _ => some e
  | _ => none

def storageChangeOf (s : S) : BalNote A S → Option (Nat × Word)
  | .storageChange e s' value => if s' = s then some (e, value) else none
  | _ => none

def balanceChangeOf (a : A) : BalNote A S → Option (Nat × Word)
  | .balanceChange e a' value => if a' = a then some (e, value) else none
  | _ => none

def nonceChangeOf (a : A) : BalNote A S → Option (Nat × Nat)
  | .nonceChange e a' nonce => if a' = a then some (e, nonce) else none
  | _ => none

def codeChangeOf (a : A) : BalNote A S → Option (Nat × Hash)
  | .codeChange e a' codeHash => if a' = a then some (e, codeHash) else none
  | _ => none

end BalNote

/-! ## Changes -/

/-- One more change; it replaces the last one if that is of the same
transaction. -/
def recordChange {α : Type} (log : List (Nat × α)) (change : Nat × α) : List (Nat × α) :=
  if log.getLast?.map Prod.fst = some change.1 then log.dropLast ++ [change] else log ++ [change]

/-- The changes that are left of some. -/
def lastChanges {α : Type} (changes : List (Nat × α)) : List (Nat × α) :=
  changes.foldl recordChange []

def storageChanges (notes : List (BalNote A S)) (s : S) : List (Nat × Word) :=
  lastChanges (notes.filterMap (·.storageChangeOf s))

def balanceChanges (notes : List (BalNote A S)) (a : A) : List (Nat × Word) :=
  lastChanges (notes.filterMap (·.balanceChangeOf a))

def nonceChanges (notes : List (BalNote A S)) (a : A) : List (Nat × Nat) :=
  lastChanges (notes.filterMap (·.nonceChangeOf a))

def codeChanges (notes : List (BalNote A S)) (a : A) : List (Nat × Hash) :=
  lastChanges (notes.filterMap (·.codeChangeOf a))

/-- The notes are in the order of the transactions. -/
def EpochsAscend (notes : List (BalNote A S)) : Prop :=
  (notes.filterMap BalNote.epoch).Pairwise (· ≤ ·)

end

/-! ## Orders -/

/-- `memcmp` of byte strings of one length. -/
def memcmp : List Byte → List Byte → Ordering
  | x :: xs, y :: ys => if x < y then .lt else if y < x then .gt else memcmp xs ys
  | _, _ => .eq

def addressCompare (left right : Address) : Ordering :=
  memcmp (addressBytes left) (addressBytes right)

def wordLimb (w : Word) (limb : Nat) : Nat := w.toNat / (2 ^ 64) ^ limb % 2 ^ 64

/-- The `for` loop of `word_compare`, from the highest limb down. -/
def compareLimbs (left right : Word) : Nat → Ordering
  | 0 => .eq
  | limb + 1 =>
    if wordLimb left limb < wordLimb right limb then .lt
    else if wordLimb right limb < wordLimb left limb then .gt
    else compareLimbs left right limb

def wordCompare (left right : Word) : Ordering := compareLimbs left right 4

/-- The first eight bytes of an address as a number. -/
def addressSortKey (address : Address) : Nat := natOfBytes ((addressBytes address).take 8)

section

variable {α : Type}

/-- `bal_order_less`, of ids that travel with their keys. -/
def balOrderLess (compare : α → α → Ordering) (left right : Nat × α) : Bool :=
  if left.1 ≠ right.1 then decide (left.1 < right.1) else compare left.2 right.2 == .lt

def sortIndexOrder (compare : α → α → Ordering) (sortKey : α → Nat) (order : List α) : List α :=
  (HeapSort.sortList (balOrderLess compare) (order.map fun id => (sortKey id, id))).map Prod.snd

end

section

variable {A S : Type}

def balAccountOrderCompare (schema : BalSchema A S) (a b : A) : Ordering :=
  addressCompare (schema.address a) (schema.address b)

def balStorageOrderCompare (schema : BalSchema A S) (t : BalTable A S) (a b : S) : Ordering :=
  match addressCompare (schema.address (t.storage a).accountId)
      (schema.address (t.storage b).accountId) with
  | .eq => wordCompare (schema.slot a) (schema.slot b)
  | comparison => comparison

/-! ## Iteration -/

inductive BalStreamPhase where
  | account
  | storageChange
  | storageRead
  | balance
  | nonce
  | code
  | accountEnd
  | empty
  deriving DecidableEq, Repr

/-- The cursors of the iteration. -/
structure BalCursors (A : Type) where
  accountCursor : Nat
  storageCursor : Nat
  activeAccount : Option A
  activeStorageHistory : Option Nat
  activeFieldHistory : Option Nat
  phase : BalStreamPhase
  deriving DecidableEq

/-- `bal_reset_cursors`. -/
def balResetCursors : BalCursors A := ⟨0, 0, none, none, none, .account⟩

def balPrepareIter (schema : BalSchema A S) (t : BalTable A S) : BalTable A S × BalCursors A :=
  ({ t with
      accountOrder :=
        sortIndexOrder (balAccountOrderCompare schema)
          (fun id => addressSortKey (schema.address id)) t.accountOrder
      storageOrder :=
        sortIndexOrder (balStorageOrderCompare schema t)
          (fun id => addressSortKey (schema.address (t.storage id).accountId)) t.storageOrder },
    balResetCursors)

/-- What `bal_iter_next_probe` returns, with the outputs it sets. -/
inductive BalIterEntry (A S : Type) where
  | account (a : A)
  | storageChange (a : A) (s : S) (index : Nat) (value : Word)
  | storageRead (a : A) (s : S)
  | balanceChange (a : A) (index : Nat) (value : Word)
  | nonceChange (a : A) (index nonce : Nat)
  | codeChange (a : A) (index : Nat) (codeHash : Hash)
  | accountEnd (a : A)
  | empty
  deriving DecidableEq

/-- A round of the `for` loop goes on or returns. -/
inductive BalRound (A S : Type) where
  | continues (c : BalCursors A)
  | returns (entry : BalIterEntry A S) (c : BalCursors A)

/-- `bal_storage_belongs_to_active`. -/
def balStorageBelongsToActive [DecidableEq A] (t : BalTable A S) (active : Option A) (s : S) :
    Bool :=
  active == some (t.storage s).accountId

/-! The inner `while` loops, over what the storage order has from the cursor
on. -/

/-- Skips the slots of smaller addresses. -/
def skipSmaller (schema : BalSchema A S) (t : BalTable A S) (a : A) : Nat → List S → Nat
  | cursor, [] => cursor
  | cursor, candidate :: rest =>
    if addressCompare (schema.address (t.storage candidate).accountId) (schema.address a) ≠ .lt then
      cursor
    else skipSmaller schema t a (cursor + 1) rest

/-- Looks for a slot of the active account that has changes. -/
def seekChange [DecidableEq A] (t : BalTable A S) (active : Option A) :
    Nat → List S → Nat × Option Nat
  | cursor, [] => (cursor, none)
  | cursor, candidate :: rest =>
    if ¬ balStorageBelongsToActive t active candidate then (cursor, none)
    else if (t.storage candidate).change.head ≠ none then
      (cursor, (t.storage candidate).change.head)
    else seekChange t active (cursor + 1) rest

/-- Goes back to the first slot of the active account. -/
def rewind [DecidableEq A] (t : BalTable A S) (active : Option A) : Nat → Nat
  | 0 => 0
  | cursor + 1 =>
    if (t.storageOrder[cursor]?).any (balStorageBelongsToActive t active) then
      rewind t active cursor
    else cursor + 1

/-- Looks for a slot of the active account that is read and has no changes. -/
def seekRead [DecidableEq A] (t : BalTable A S) (active : Option A) :
    Nat → List S → Nat × Option S
  | cursor, [] => (cursor, none)
  | cursor, current :: rest =>
    if ¬ balStorageBelongsToActive t active current then (cursor, none)
    else if (t.storage current).read = false ∨ (t.storage current).change.head ≠ none then
      seekRead t active (cursor + 1) rest
    else (cursor + 1, some current)

/-- The phases of the three fields of an account: the rows of one history,
and then the head of the next. -/
def balFieldPhase {α : Type} (rows : List (BalHistoryRow α))
    (entry : A → Nat → α → BalIterEntry A S)
    (nextHead : A → Option Nat) (nextPhase : BalStreamPhase) (c : BalCursors A) :
    Option (BalRound A S) := do
  let a ← c.activeAccount
  match c.activeFieldHistory with
  | some position =>
    let history ← rows[position]?
    some (.returns (entry a history.index history.value)
      { c with activeFieldHistory := history.next })
  | none => some (.continues { c with activeFieldHistory := nextHead a, phase := nextPhase })

/-- A round of the `for` loop; nothing where it would read outside of a
table. -/
def balIterRound [DecidableEq A] (schema : BalSchema A S) (t : BalTable A S) (c : BalCursors A) :
    Option (BalRound A S) :=
  match c.phase with
  | .account =>
    match t.accountOrder[c.accountCursor]? with
    | none => some (.returns .empty { c with phase := .empty })
    | some a =>
      some (.returns (.account a)
        { accountCursor := c.accountCursor + 1
          storageCursor :=
            skipSmaller schema t a c.storageCursor (t.storageOrder.drop c.storageCursor)
          activeAccount := some a
          activeStorageHistory := none
          activeFieldHistory := none
          phase := .storageChange })
  | .storageChange =>
    match c.activeStorageHistory with
    | some position => do
      let history ← t.storageHistory[position]?
      let s ← t.storageOrder[c.storageCursor]?
      let a ← c.activeAccount
      some (.returns (.storageChange a s history.index history.value)
        { c with
          activeStorageHistory := history.next
          storageCursor := if history.next = none then c.storageCursor + 1 else c.storageCursor })
    | none =>
      let (cursor, head) :=
        seekChange t c.activeAccount c.storageCursor (t.storageOrder.drop c.storageCursor)
      if head ≠ none then
        some (.continues { c with storageCursor := cursor, activeStorageHistory := head })
      else
        some (.continues
          { c with
            storageCursor := rewind t c.activeAccount cursor
            phase := .storageRead })
  | .storageRead => do
    let a ← c.activeAccount
    let (cursor, found) :=
      seekRead t c.activeAccount c.storageCursor (t.storageOrder.drop c.storageCursor)
    match found with
    | some s => some (.returns (.storageRead a s) { c with storageCursor := cursor })
    | none =>
      some (.continues
        { c with
          storageCursor := cursor
          activeFieldHistory := (t.accounts a).balance.head
          phase := .balance })
  | .balance =>
    balFieldPhase t.balanceHistory .balanceChange (fun a => (t.accounts a).nonce.head) .nonce c
  | .nonce =>
    balFieldPhase t.nonceHistories .nonceChange (fun a => (t.accounts a).code.head) .code c
  | .code => balFieldPhase t.codeHistories .codeChange (fun _ => none) .accountEnd c
  | .accountEnd => do
    let a ← c.activeAccount
    some (.returns (.accountEnd a) { c with activeAccount := none, phase := .account })
  | .empty => some (.returns .empty c)

/-- How many more rounds can go on. -/
def BalCursors.remaining (c : BalCursors A) : Nat :=
  match c.phase with
  | .storageChange => if c.activeStorageHistory = none then 6 else 5
  | .storageRead => 4
  | .balance => 3
  | .nonce => 2
  | .code => 1
  | _ => 0

theorem balFieldPhase_remaining {α : Type} {rows : List (BalHistoryRow α)}
    {entry : A → Nat → α → BalIterEntry A S} {nextHead : A → Option Nat}
    {nextPhase : BalStreamPhase} {c c' : BalCursors A}
    (h : balFieldPhase rows entry nextHead nextPhase c = some (.continues c')) :
    c'.phase = nextPhase := by
  rw [balFieldPhase] at h
  obtain ⟨a, _, h⟩ := Option.bind_eq_some_iff.mp h
  split at h
  · obtain ⟨history, _, h⟩ := Option.bind_eq_some_iff.mp h
    cases h
  · cases h
    rfl

theorem balIterRound_remaining [DecidableEq A] {schema : BalSchema A S} {t : BalTable A S}
    {c c' : BalCursors A} (h : balIterRound schema t c = some (.continues c')) :
    c'.remaining < c.remaining := by
  rw [balIterRound] at h
  split at h
  · split at h <;> cases h
  · rename_i hphase
    split at h
    · obtain ⟨history, _, h⟩ := Option.bind_eq_some_iff.mp h
      obtain ⟨s, _, h⟩ := Option.bind_eq_some_iff.mp h
      obtain ⟨a, _, h⟩ := Option.bind_eq_some_iff.mp h
      cases h
    · rename_i hnone
      dsimp only at h
      split at h
      · rename_i hhead
        cases h
        simp [BalCursors.remaining, hphase, hnone, hhead]
      · cases h
        simp [BalCursors.remaining, hphase, hnone]
  · rename_i hphase
    obtain ⟨a, _, h⟩ := Option.bind_eq_some_iff.mp h
    dsimp only at h
    split at h
    · cases h
    · cases h
      simp [BalCursors.remaining, hphase]
  · rename_i hphase
    have hnext := balFieldPhase_remaining h
    simp [BalCursors.remaining, hphase, hnext]
  · rename_i hphase
    have hnext := balFieldPhase_remaining h
    simp [BalCursors.remaining, hphase, hnext]
  · rename_i hphase
    have hnext := balFieldPhase_remaining h
    simp [BalCursors.remaining, hphase, hnext]
  · obtain ⟨a, _, h⟩ := Option.bind_eq_some_iff.mp h
    cases h
  · cases h

/-- The next entry. -/
def balIterNextProbe [DecidableEq A] (schema : BalSchema A S) (t : BalTable A S)
    (c : BalCursors A) : Option (BalIterEntry A S × BalCursors A) :=
  match _h : balIterRound schema t c with
  | none => none
  | some (.returns entry c') => some (entry, c')
  | some (.continues c') => balIterNextProbe schema t c'
termination_by c.remaining
decreasing_by exact balIterRound_remaining _h

/-- The entries that are returned until the iteration is at its end. -/
inductive BalEmits [DecidableEq A] (schema : BalSchema A S) (t : BalTable A S) :
    BalCursors A → List (BalIterEntry A S) → Prop where
  | done {c c' : BalCursors A} :
      balIterNextProbe schema t c = some (.empty, c') → BalEmits schema t c []
  | next {c c' : BalCursors A} {entry : BalIterEntry A S} {out : List (BalIterEntry A S)} :
      balIterNextProbe schema t c = some (entry, c') → entry ≠ .empty → BalEmits schema t c' out →
      BalEmits schema t c (entry :: out)

end

end EvmSail.Optimised
