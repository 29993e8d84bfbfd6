/-
# `EvmSail.Tx.AccessListWarming` — the second pass over an access list

Decoding an access list walks its bytes for the counts that the intrinsic
gas is computed from, and keeps the bytes.  Before the transaction runs
they are walked once more, with other helpers, and each entry is warmed.
`warmAccessList` is that second pass, over the two operations of the
kernel that it calls (`WarmSets`).

Both passes are read against the same list of entries.  The second one is
the sequence of its marks, one for each address and each key
(`warmAccessList_eq_ok`), whichever operations stand behind the marks: the
kernel's, or a recorder that only writes down that it was called.  What a
sequence of marks leaves warm is `run_marks`.
-/
import EvmSail.Kernel.Storage
import EvmSail.Tx.CanonicalSound
import EvmSail.Tx.Validity

namespace EvmSail

open Fallible Kept Kernel

/-! ## The warm pass -/

/-- What one call of the warm pass marks. -/
inductive AccessMark where
  | account (a : Address)
  | slot (a : Address) (key : Word)
  deriving DecidableEq

/-- The two operations that the warm pass calls. -/
structure WarmSets {σ : Type} (R : σ → σ → Prop) where
  accountMarkWarm : Address → Kept R Halt Unit
  prewarmSlot : Address → Word → Kept R Halt Unit

section

variable {σ : Type} {R : σ → σ → Prop}

/-- One call. -/
def WarmSets.mark (w : WarmSets R) : AccessMark → Kept R Halt Unit
  | .account a => w.accountMarkWarm a
  | .slot a key => w.prewarmSlot a key

variable [IsPreorder σ R] (w : WarmSets R)

/-- Warms the storage keys of one entry. -/
def warmAccessListKeys (cursor : List Byte) (addr : Address) : Kept R Halt Unit :=
  if cursor.length = 0 then pure ()
  else do
    let (key, ⟨next, _⟩) ← query fun _ => rlpTakeItem cursor
    let slot ← query fun _ => rlpDecodeWord key
    w.prewarmSlot addr slot
    warmAccessListKeys next addr
termination_by cursor.length

/-- Warms every account and storage key, from the first entry to the last. -/
def warmAccessList (cursor : List Byte) : Kept R Halt Unit :=
  if cursor.length = 0 then pure ()
  else do
    let (entry, ⟨next, _⟩) ← query fun _ => rlpTakeItem cursor
    let entryFields ← query fun _ => rlpDecodeList entry
    let fields ← query fun _ => rlpTakeFields 2 entryFields
    let addrWord ← query fun _ => rlpDecodeWord (entryAddress fields)
    let addr := wordToAddress addrWord
    w.accountMarkWarm addr
    let keys ← query fun _ => rlpDecodeList (entryKeys fields)
    warmAccessListKeys w keys addr
    warmAccessList next
termination_by cursor.length

end

/-- The kernel's warm sets. -/
def kernelWarmSets (env : Env) : WarmSets (Marks env) :=
  { accountMarkWarm := kAccountMarkWarm env
    prewarmSlot := kPrewarmSlot env }

/-- Writes down each call. -/
def markRecorder : WarmSets fun _ _ : List AccessMark => True :=
  { accountMarkWarm := fun a => change (fun marks => marks ++ [.account a]) fun _ => trivial
    prewarmSlot := fun a key => change (fun marks => marks ++ [.slot a key]) fun _ => trivial }

instance : IsPreorder (List AccessMark) fun _ _ => True where
  refl _ := trivial
  trans _ _ _ _ _ := trivial

/-! ## The pass is the sequence of its marks -/

def keyMarks (a : Address) (keys : List Word) : List AccessMark := keys.map (.slot a)

def entryMarks (e : AccessEntry) : List AccessMark :=
  .account e.address :: keyMarks e.address e.keys

/-- One mark for each address and each key, as often as it is listed. -/
def accessMarks (es : List AccessEntry) : List AccessMark := es.flatMap entryMarks

section

variable {σ : Type} {R : σ → σ → Prop} [IsPreorder σ R] {w : WarmSets R}

theorem forM_keyMarks_cons (a : Address) (key : Word) (keys : List Word) :
    forM (keyMarks a (key :: keys)) w.mark =
      w.prewarmSlot a key >>= fun _ => forM (keyMarks a keys) w.mark := rfl

theorem forM_accessMarks_cons (e : AccessEntry) (es : List AccessEntry) :
    forM (accessMarks (e :: es)) w.mark =
      w.accountMarkWarm e.address >>= fun _ => forM (keyMarks e.address e.keys) w.mark >>=
        fun _ => forM (accessMarks es) w.mark := by
  rw [accessMarks, List.flatMap_cons, List.forM_append, entryMarks, List.forM_cons, bind_assoc]
  rfl

theorem warmAccessListKeys_eq_ok {c : List Byte} {addr : Address} {s : σ} {r : Unit × σ} :
    (warmAccessListKeys w c addr).run s = .ok r ↔ ∃ ws, readSpan rlpDecodeWord c = .ok ws ∧
      (forM (keyMarks addr ws) w.mark).run s = .ok r := by
  refine walk_readSpan_iff (W := fun c s => (warmAccessListKeys w c addr).run s)
    (Q := fun ws s r => (forM (keyMarks addr ws) w.mark).run s = .ok r) ?_ ?_ ?_
  · intro s r
    rw [warmAccessListKeys, if_pos List.length_nil]
    rfl
  · intro c s r hc h
    rw [warmAccessListKeys, if_neg (by simpa using hc)] at h
    obtain ⟨⟨f, next⟩, htake, h₁⟩ := run_query_bind_eq_ok.mp h
    obtain ⟨slot, _, h₂⟩ := run_query_bind_eq_ok.mp h₁
    obtain ⟨_, s₁, _, hnext⟩ := run_bind_eq_ok.mp h₂
    obtain ⟨hf, hcat⟩ := rlpTakeItem_eq_ok htake
    exact ⟨f, next.val, hf, hcat, s₁, r, hnext⟩
  · intro f rest P hf ih s r
    obtain ⟨hlt, htake⟩ := rlpTakeItem_append hf rest
    rw [warmAccessListKeys, if_neg (by simp [hf.source_ne_nil])]
    constructor
    · intro h
      obtain ⟨_, htake', h₁⟩ := run_query_bind_eq_ok.mp h
      rw [htake] at htake'
      cases htake'
      obtain ⟨slot, hslot, h₂⟩ := run_query_bind_eq_ok.mp h₁
      obtain ⟨u, s₁, hmark, hnext⟩ := run_bind_eq_ok.mp h₂
      obtain ⟨ws, hws, hmarks⟩ := (ih s₁ r).mp hnext
      refine ⟨slot, ws, hslot, hws, ?_⟩
      rw [forM_keyMarks_cons]
      exact run_bind_eq_ok.mpr ⟨u, s₁, hmark, hmarks⟩
    · rintro ⟨slot, ws, hslot, hws, h⟩
      rw [forM_keyMarks_cons] at h
      obtain ⟨u, s₁, hmark, hmarks⟩ := run_bind_eq_ok.mp h
      refine run_query_bind_eq_ok.mpr ⟨_, htake, ?_⟩
      refine run_query_bind_eq_ok.mpr ⟨_, hslot, ?_⟩
      exact run_bind_eq_ok.mpr ⟨u, s₁, hmark, (ih s₁ r).mpr ⟨_, hws, hmarks⟩⟩

theorem warmAccessList_eq_ok {c : List Byte} {s : σ} {r : Unit × σ} :
    (warmAccessList w c).run s = .ok r ↔ ∃ es, readSpan readAccessEntry c = .ok es ∧
      (forM (accessMarks es) w.mark).run s = .ok r := by
  refine walk_readSpan_iff (W := fun c s => (warmAccessList w c).run s)
    (Q := fun es s r => (forM (accessMarks es) w.mark).run s = .ok r) ?_ ?_ ?_
  · intro s r
    rw [warmAccessList, if_pos List.length_nil]
    rfl
  · intro c s r hc h
    rw [warmAccessList, if_neg (by simpa using hc)] at h
    obtain ⟨⟨f, next⟩, htake, h₁⟩ := run_query_bind_eq_ok.mp h
    obtain ⟨_, _, h₂⟩ := run_query_bind_eq_ok.mp h₁
    obtain ⟨_, _, h₃⟩ := run_query_bind_eq_ok.mp h₂
    obtain ⟨_, _, h₄⟩ := run_query_bind_eq_ok.mp h₃
    obtain ⟨_, _, _, h₅⟩ := run_bind_eq_ok.mp h₄
    obtain ⟨_, _, h₆⟩ := run_query_bind_eq_ok.mp h₅
    obtain ⟨_, s₂, _, hnext⟩ := run_bind_eq_ok.mp h₆
    obtain ⟨hf, hcat⟩ := rlpTakeItem_eq_ok htake
    exact ⟨f, next.val, hf, hcat, s₂, r, hnext⟩
  · intro f rest P hf ih s r
    obtain ⟨hlt, htake⟩ := rlpTakeItem_append hf rest
    rw [warmAccessList, if_neg (by simp [hf.source_ne_nil])]
    constructor
    · intro h
      obtain ⟨_, htake', h₁⟩ := run_query_bind_eq_ok.mp h
      rw [htake] at htake'
      cases htake'
      obtain ⟨c', hc', h₂⟩ := run_query_bind_eq_ok.mp h₁
      obtain ⟨v, hv, h₃⟩ := run_query_bind_eq_ok.mp h₂
      obtain ⟨word, hword, h₄⟩ := run_query_bind_eq_ok.mp h₃
      obtain ⟨u, s₁, hmark, h₅⟩ := run_bind_eq_ok.mp h₄
      obtain ⟨ks, hks, h₆⟩ := run_query_bind_eq_ok.mp h₅
      obtain ⟨u', s₂, hkeys, hnext⟩ := run_bind_eq_ok.mp h₆
      obtain ⟨hkind, rfl⟩ := rlpDecodeList_eq_ok.mp hc'
      obtain ⟨hkind', rfl⟩ := rlpDecodeList_eq_ok.mp hks
      obtain ⟨ws, hws, hkeyMarks⟩ := warmAccessListKeys_eq_ok.mp hkeys
      obtain ⟨es, hes, hmarks⟩ := (ih s₂ r).mp hnext
      refine ⟨⟨wordToAddress word, ws⟩, es, ?_, hes, ?_⟩
      · exact readAccessEntry_eq_ok.mpr
          ⟨hkind, v, rlpTakeFields_eq_ok.mp hv, ⟨word, hword, rfl⟩, hkind', hws⟩
      · rw [forM_accessMarks_cons]
        refine run_bind_eq_ok.mpr ⟨u, s₁, hmark, ?_⟩
        exact run_bind_eq_ok.mpr ⟨u', s₂, hkeyMarks, hmarks⟩
    · rintro ⟨e, es, hentry, hes, h⟩
      rw [forM_accessMarks_cons] at h
      obtain ⟨u, s₁, hmark, h₁⟩ := run_bind_eq_ok.mp h
      obtain ⟨u', s₂, hkeyMarks, hmarks⟩ := run_bind_eq_ok.mp h₁
      obtain ⟨hkind, v, hv, ⟨word, hword, haddr⟩, hkind', hkeys⟩ :=
        readAccessEntry_eq_ok.mp hentry
      rw [haddr] at hmark hkeyMarks
      refine run_query_bind_eq_ok.mpr ⟨_, htake, ?_⟩
      refine run_query_bind_eq_ok.mpr ⟨_, rlpDecodeList_eq_ok.mpr ⟨hkind, rfl⟩, ?_⟩
      refine run_query_bind_eq_ok.mpr ⟨v, rlpTakeFields_eq_ok.mpr hv, ?_⟩
      refine run_query_bind_eq_ok.mpr ⟨word, hword, ?_⟩
      refine run_bind_eq_ok.mpr ⟨u, s₁, hmark, ?_⟩
      refine run_query_bind_eq_ok.mpr ⟨_, rlpDecodeList_eq_ok.mpr ⟨hkind', rfl⟩, ?_⟩
      refine run_bind_eq_ok.mpr ⟨u', s₂, warmAccessListKeys_eq_ok.mpr ⟨_, hkeys, hkeyMarks⟩, ?_⟩
      exact (ih s₂ r).mpr ⟨_, hes, hmarks⟩

end

/-! ## What a sequence of marks leaves behind -/

/-- The recorder writes down the calls in their order. -/
theorem run_recordedMarks (marks written : List AccessMark) :
    (forM marks markRecorder.mark).run written = .ok ((), written ++ marks) := by
  induction marks generalizing written with
  | nil =>
    rw [List.append_nil]
    rfl
  | cons m marks ih =>
    have hmark : (markRecorder.mark m).run written = .ok ((), written ++ [m]) := by
      cases m with
      | account a => rfl
      | slot a key => rfl
    rw [List.forM_cons]
    refine run_bind_eq_ok.mpr ⟨(), _, hmark, ?_⟩
    rw [ih, List.append_assoc]
    rfl

section

variable {env : Env}

/-- What the kernel answers about the mark. -/
def AccessMark.isWarm (env : Env) : AccessMark → Kept (Reads env) Halt Bool
  | .account a => kAccountIsWarm env a
  | .slot a key => kSlotIsWarm env a key

/-- The mark is warm. -/
def AccessMark.Warm (m : AccessMark) (env : Env) (h : Host) : Prop :=
  (m.isWarm env).run h = .ok (true, h)

theorem warm_account_iff {h : Host} {a : Address} :
    (AccessMark.account a).Warm env h ↔
      precompileIdForAddress env.profile.fork a ≠ .notPrecompile ∨
        h.state.warm.accounts a = true := by
  simp only [AccessMark.Warm, AccessMark.isWarm, kAccountIsWarm]
  split
  · next hpre => exact ⟨fun _ => .inl hpre, fun _ => rfl⟩
  · next hpre => simp [run_ask, hpre]

theorem warm_slot_iff {h : Host} {a : Address} {key : Word} :
    (AccessMark.slot a key).Warm env h ↔ h.state.warm.slots ⟨a, key⟩ = true := by
  simp [AccessMark.Warm, AccessMark.isWarm, kSlotIsWarm, run_ask]

theorem accounts_accountMarkWarm (a b : Address) (h : Host) :
    (accountMarkWarm a h).state.warm.accounts b = true ↔
      h.state.warm.accounts b = true ∨ b = a := by
  rw [accountMarkWarm]
  split
  · next hwarm =>
    constructor
    · exact .inl
    · rintro (hb | rfl)
      · exact hb
      · exact hwarm
  · simp only [Host.push, Function.update_apply]
    split
    · next hb => simp [hb]
    · next hb => simp [hb]

theorem slots_accountMarkWarm (a : Address) (key : StorageKey) (h : Host) :
    (accountMarkWarm a h).state.warm.slots key = h.state.warm.slots key := by
  rw [accountMarkWarm]
  split
  · rfl
  · rfl

theorem slots_storageMarkWarm (key key' : StorageKey) (h : Host) :
    (storageMarkWarm key h).state.warm.slots key' = true ↔
      h.state.warm.slots key' = true ∨ key' = key := by
  rw [storageMarkWarm]
  split
  · next hwarm =>
    constructor
    · exact .inl
    · rintro (hk | rfl)
      · exact hk
      · exact hwarm
  · simp only [Host.push, Function.update_apply]
    split
    · next hk => simp [hk]
    · next hk => simp [hk]

theorem accounts_storageMarkWarm (key : StorageKey) (a : Address) (h : Host) :
    (storageMarkWarm key h).state.warm.accounts a = h.state.warm.accounts a := by
  rw [storageMarkWarm]
  split
  · rfl
  · rfl

/-- One mark warms what it names and nothing else.  A precompile is warm
already, and is not marked. -/
theorem run_mark (m : AccessMark) (h : Host) :
    ∃ h', ((kernelWarmSets env).mark m).run h = .ok ((), h') ∧
      ∀ m' : AccessMark, m'.Warm env h' ↔ m'.Warm env h ∨ m' = m := by
  cases m with
  | account a =>
    by_cases hpre : precompileIdForAddress env.profile.fork a ≠ .notPrecompile
    · refine ⟨h, ?_, fun m' => ?_⟩
      · show (kAccountMarkWarm env a).run h = .ok ((), h)
        rw [kAccountMarkWarm, if_pos hpre]
        rfl
      · constructor
        · exact .inl
        · rintro (hwarm | rfl)
          · exact hwarm
          · exact warm_account_iff.mpr (.inl hpre)
    · refine ⟨accountMarkWarm a h, ?_, fun m' => ?_⟩
      · show (kAccountMarkWarm env a).run h = .ok ((), accountMarkWarm a h)
        rw [kAccountMarkWarm, if_neg hpre]
        rfl
      · cases m' with
        | account b => simp [warm_account_iff, accounts_accountMarkWarm, or_assoc]
        | slot b key => simp [warm_slot_iff, slots_accountMarkWarm]
  | slot a key =>
    refine ⟨storageMarkWarm ⟨a, key⟩ h, rfl, fun m' => ?_⟩
    cases m' with
    | account b => simp [warm_account_iff, accounts_storageMarkWarm]
    | slot b key' => simp [warm_slot_iff, slots_storageMarkWarm]

/-- A sequence of marks warms what it names and nothing else. -/
theorem run_marks (marks : List AccessMark) (h : Host) :
    ∃ h', (forM marks (kernelWarmSets env).mark).run h = .ok ((), h') ∧
      ∀ m : AccessMark, m.Warm env h' ↔ m.Warm env h ∨ m ∈ marks := by
  induction marks generalizing h with
  | nil =>
    refine ⟨h, rfl, fun m => ?_⟩
    simp
  | cons m marks ih =>
    obtain ⟨h₁, hmark, hwarm₁⟩ := @run_mark env m h
    obtain ⟨h', hrun, hwarm'⟩ := ih h₁
    refine ⟨h', ?_, fun m' => ?_⟩
    · rw [List.forM_cons]
      exact run_bind_eq_ok.mpr ⟨(), h₁, hmark, hrun⟩
    · rw [hwarm', hwarm₁, List.mem_cons, or_assoc]

end

/-! ## Both passes against one list of entries -/

/-- The marks on accounts. -/
def AccessMark.isAccount : AccessMark → Bool
  | .account _ => true
  | .slot _ _ => false

theorem account_mem_accessMarks {a : Address} {es : List AccessEntry} :
    AccessMark.account a ∈ accessMarks es ↔ ∃ e ∈ es, e.address = a := by
  simp [accessMarks, entryMarks, keyMarks, eq_comm]

theorem slot_mem_accessMarks {a : Address} {key : Word} {es : List AccessEntry} :
    AccessMark.slot a key ∈ accessMarks es ↔ ∃ e ∈ es, e.address = a ∧ key ∈ e.keys := by
  simp [accessMarks, entryMarks, keyMarks, and_comm]

theorem countP_keyMarks (a : Address) (keys : List Word) :
    (keyMarks a keys).countP AccessMark.isAccount = 0 ∧
      (keyMarks a keys).countP (fun m => !m.isAccount) = keys.length := by
  simp [keyMarks, AccessMark.isAccount]

theorem accessMarks_cons (e : AccessEntry) (es : List AccessEntry) :
    accessMarks (e :: es) = .account e.address :: (keyMarks e.address e.keys ++ accessMarks es) :=
  rfl

/-- The counts of the first pass are the numbers of marks. -/
theorem countsOf_eq (es : List AccessEntry) :
    countsOf es = ⟨(accessMarks es).countP AccessMark.isAccount,
      (accessMarks es).countP fun m => !m.isAccount⟩ := by
  induction es with
  | nil => rfl
  | cons e es ih =>
    obtain ⟨haccounts, hslots⟩ := countP_keyMarks e.address e.keys
    simp only [countsOf, AccessListDecode.mk.injEq] at ih ⊢
    rw [accessMarks_cons, List.countP_cons, List.countP_cons, List.countP_append,
      List.countP_append, haccounts, hslots, ← ih.1, ← ih.2]
    simp [AccessMark.isAccount]

/-- The two passes agree on every access list that the first one accepts.
The second pass calls the kernel once for each address and each key that
was counted, in any state it never fails, and what is warm behind it is
what was warm before it and what the list names. -/
theorem warmAccessList_exact (env : Env) {f : RlpFieldRef} {accepted : AccessListRef}
    (hdec : decodeAccessList f = .ok accepted) :
    ∃ es, readSpan readAccessEntry accepted.encoded = .ok es ∧
      (∃ marks, (warmAccessList markRecorder accepted.encoded).run [] = .ok ((), marks) ∧
        accepted.addressCount = marks.countP AccessMark.isAccount ∧
        accepted.slotCount = marks.countP fun m => !m.isAccount) ∧
      ∀ h, ∃ h', (warmAccessList (kernelWarmSets env) accepted.encoded).run h = .ok ((), h') ∧
        (∀ a, (AccessMark.account a).Warm env h' ↔
          (AccessMark.account a).Warm env h ∨ ∃ e ∈ es, e.address = a) ∧
        ∀ a key, (AccessMark.slot a key).Warm env h' ↔
          (AccessMark.slot a key).Warm env h ∨ ∃ e ∈ es, e.address = a ∧ key ∈ e.keys := by
  have hlen : f.source.length ≤ transactionLengthBound := by
    by_contra hlen
    rw [decodeAccessList, if_neg hlen] at hdec
    cases hdec
  obtain ⟨_, es, hes, rfl⟩ := (decodeAccessList_eq_ok hlen).mp hdec
  refine ⟨es, hes, ⟨accessMarks es, ?_, ?_, ?_⟩, fun h => ?_⟩
  · exact warmAccessList_eq_ok.mpr ⟨es, hes, run_recordedMarks (accessMarks es) []⟩
  · rw [countsOf_eq]
  · rw [countsOf_eq]
  · obtain ⟨h', hrun, hwarm⟩ := @run_marks env (accessMarks es) h
    refine ⟨h', warmAccessList_eq_ok.mpr ⟨es, hes, hrun⟩, fun a => ?_, fun a key => ?_⟩
    · rw [hwarm, account_mem_accessMarks]
    · rw [hwarm, slot_mem_accessMarks]

/-- One address listed twice, with one of its keys twice. -/
def repeatedEntries : List AccessEntry := [⟨0x77, [2, 2, 3]⟩, ⟨0x77, []⟩]

theorem warmAccessList_exact_repeated :
    ∃ es, readSpan readAccessEntry (sourcesOf (repeatedEntries.map AccessEntry.field)) = .ok es ∧
      (∃ marks, (warmAccessList markRecorder
          (sourcesOf (repeatedEntries.map AccessEntry.field))).run [] = .ok ((), marks) ∧
        2 = marks.countP AccessMark.isAccount ∧ 3 = marks.countP fun m => !m.isAccount) ∧
      ∃ h', (warmAccessList (kernelWarmSets fundedEnv.kernel)
          (sourcesOf (repeatedEntries.map AccessEntry.field))).run freshHost = .ok ((), h') := by
  obtain ⟨es, hes, hcounts, hkernel⟩ := warmAccessList_exact fundedEnv.kernel
    (@decodeAccessList_listOf repeatedEntries (by decide +kernel))
  obtain ⟨h', hrun, _⟩ := hkernel freshHost
  dsimp only at hes hcounts hrun
  exact ⟨es, hes, hcounts, h', hrun⟩

end EvmSail
