import GoBinacoin.State.Reachable

/-! Reverting to a snapshot restores what can be observed of the state. -/

namespace GoBinacoin.State

variable {B : Backend}

/-- The storage overrides of a live account, as `SetStorage` left them. -/
def StateDB.overrides (s : StateDB B) (addr : Address) : Option Storage :=
  (s.live addr).bind Object.fakeStorage

/-- Every observable of `s` has its value in `s'`. Slots are compared for accounts without
storage overrides; the precompile 0x03 may stay dirty.
-/
structure Restored (s s' : StateDB B) : Prop where
  exist : ∀ addr, (s'.exist addr).1 = (s.exist addr).1
  empty : ∀ addr, (s'.empty addr).1 = (s.empty addr).1
  balance : ∀ addr, (s'.getBalance addr).1 = (s.getBalance addr).1
  nonce : ∀ addr, (s'.getNonce addr).1 = (s.getNonce addr).1
  code : ∀ addr, (s'.getCode addr).1 = (s.getCode addr).1
  codeHash : ∀ addr, (s'.getCodeHash addr).1 = (s.getCodeHash addr).1
  suicided : ∀ addr, (s'.hasSuicided addr).1 = (s.hasSuicided addr).1
  state
    : ∀ addr key,
        s.overrides addr = none → (s'.getState addr key).1 = (s.getState addr key).1
  committed
    : ∀ addr key,
        s.overrides addr = none
        → (s'.getCommittedState addr key).1 = (s.getCommittedState addr key).1
  refund : s'.getRefund = s.getRefund
  logs : s'.logs = s.logs
  logSize : s'.logSize = s.logSize
  preimages : s'.preimages = s.preimages
  snapDestructs : s'.snapDestructs = s.snapDestructs
  accessAddress : ∀ addr, s'.addressInAccessList addr = s.addressInAccessList addr
  accessSlot : ∀ addr slot, s'.slotInAccessList addr slot = s.slotInAccessList addr slot
  dirties : ∀ addr, addr ≠ ripemd → s'.journal.dirties addr = s.journal.dirties addr
  touched : dirtyCount s.journal.dirties ripemd ≤ dirtyCount s'.journal.dirties ripemd

/-- A getter agrees on states that read the same as soon as it agrees on their objects. -/
theorem StateDB.Same.readObject {α : Type} {s s' : StateDB B} (same : Same s s')
    {addr : Address} {absent : α} {read read' : Object B → α × Object B}
    (keeps : ∀ o, Object.Same s.reads o (read o).2)
    (keeps' : ∀ o, Object.Same s'.reads o (read' o).2)
    (agree : ∀ o o', s.live addr = some o → Object.Same s.reads o o' → (read' o').1 = (read o).1)
    : (s'.readObject addr absent read').1 = (s.readObject addr absent read).1 := by
  rw [(s.readObject_eq addr absent keeps).1, (s'.readObject_eq addr absent keeps').1]
  have related := same.live addr
  generalize live : s.live addr = found at related agree ⊢
  generalize s'.live addr = found' at related ⊢
  cases related with
  | none => rfl
  | some sameObject => exact agree _ _ rfl sameObject

/-- States that cannot be told apart answer every query alike. -/
theorem StateDB.Same.restored {s s' : StateDB B} (same : Same s s') : Restored s s' where
  exist addr := same.readObject (fun o => .refl _ o) (fun o => .refl _ o) fun _ _ _ _ => rfl
  empty addr := same.readObject (fun o => .refl _ o) (fun o => .refl _ o)
    fun o o' _ sameObject => by simp only [Object.empty, sameObject.data]
  balance addr := same.readObject (fun o => .refl _ o) (fun o => .refl _ o)
    fun o o' _ sameObject => by simp only [sameObject.data]
  nonce addr := same.readObject (fun o => .refl _ o) (fun o => .refl _ o)
    fun o o' _ sameObject => by simp only [sameObject.data]
  code addr := by
    refine same.readObject (fun o => (o.getCode_eq s.reads).2.same)
      (fun o => (o.getCode_eq s'.reads).2.same) fun o o' _ sameObject => ?_
    have db : s'.db = s.db := congrArg Reads.db same.reads
    rw [db]
    exact (o'.getCode_eq s.reads).1.trans (sameObject.code.trans (o.getCode_eq s.reads).1.symm)
  codeHash addr := same.readObject (fun o => .refl _ o) (fun o => .refl _ o)
    fun o o' _ sameObject => by simp only [sameObject.data]
  suicided addr := same.readObject (fun o => .refl _ o) (fun o => .refl _ o)
    fun o o' _ sameObject => sameObject.suicided
  state addr key plain := by
    refine same.readObject (fun o => o.getState_same s.reads key)
      (fun o => o.getState_same s'.reads key) fun o o' live sameObject => ?_
    have noFake : o.fakeStorage = none := by simpa [StateDB.overrides, live] using plain
    rw [same.reads, (o.getState_eq s.reads noFake key).1,
      (o'.getState_eq s.reads (sameObject.fake.mpr noFake) key).1, sameObject.state noFake key]
  committed addr key plain := by
    refine same.readObject (fun o => o.getCommittedState_same s.reads key)
      (fun o => o.getCommittedState_same s'.reads key) fun o o' live sameObject => ?_
    have noFake : o.fakeStorage = none := by simpa [StateDB.overrides, live] using plain
    rw [same.reads, (o.getCommittedState_eq s.reads noFake key).1,
      (o'.getCommittedState_eq s.reads (sameObject.fake.mpr noFake) key).1,
      sameObject.committed noFake key]
  refund := same.refund
  logs := same.logs
  logSize := same.logSize
  preimages := same.preimages
  snapDestructs := congrArg Reads.snapDestructs same.reads
  accessAddress addr := by simp only [StateDB.addressInAccessList, same.accessList]
  accessSlot addr slot := by simp only [StateDB.slotInAccessList, same.accessList]
  dirties := same.dirties.others
  touched := same.dirties.surplus

/-- Whatever ran since a snapshot, reverting to it succeeds and restores the state. -/
theorem revertToSnapshot_restores (injective : Function.Injective B.hashAddress)
    {s next : StateDB B} (reachable : Reachable s) {ops : List Op}
    (nested : NestedIn s.snapshot.1 ops) (run : runOps s.snapshot.2 ops = some next)
    : ∃ back, next.revertToSnapshot s.snapshot.1 = some back ∧ Restored s back := by
  have since := (Since.snapshot injective (reachable.ok injective)).run injective nested run
  obtain ⟨back, reverted, same⟩ := since.revert injective
  exact ⟨back, reverted, same.restored⟩

/-- Tries as plain functions, without snapshots, and a hash that keeps short inputs apart. -/
def plainBackend : Backend where
  Db := Unit
  Trie := Bytes → Bytes
  Snap := Empty
  Error := Empty
  keccak b := BitVec.ofNat 256 (BigEndian.ofBE b)
  openStorageTrie _ _ _ := .ok fun _ => []
  emptyTrie _ := []
  contractCode _ _ _ := (none, none)
  contractCodeSize _ _ _ := (0, none)
  tryGet _ trie key := .ok (trie key)
  tryUpdate _ trie key value := (none, fun other => if other = key then value else trie other)
  tryDelete _ trie key := (none, fun other => if other = key then [] else trie other)
  hash trie := (0, trie)
  commit _ trie := (.ok 0, trie, ())
  writeCode _ _ _ := ()
  snapAccount snap := nomatch snap
  snapStorage snap := nomatch snap

theorem plainBackend_hashAddress_injective : Function.Injective plainBackend.hashAddress := by
  intro left right same
  have low (addr : Address) : addr.toNat % 256 ^ 20 = addr.toNat :=
    Nat.mod_eq_of_lt (by simpa using addr.isLt)
  have high (addr : Address) : addr.toNat % 2 ^ 256 = addr.toNat :=
    Nat.mod_eq_of_lt (addr.isLt.trans (by decide))
  have numbers := congrArg BitVec.toNat same
  simp only [Backend.hashAddress, plainBackend, addressBytes, BigEndian.ofBE_toBE, low,
    BitVec.toNat_ofNat, high] at numbers
  exact BitVec.eq_of_toNat_eq numbers

/-- An empty state over the plain backend. -/
def plainState : StateDB plainBackend := StateDB.new () 0 (fun _ => []) none

theorem plainState_reachable : Reachable plainState := .new _ _ _ _

/-- A transfer that touches the precompile 0x03, a nested snapshot with a storage write that is
reverted, and a self-destruct.
-/
def transferOps : List Op :=
  [.addBalance 1 5, .addBalance ripemd 0, .snapshot, .setState 1 0 7, .revertToSnapshot 1,
    .addRefund 9, .suicide 1]

theorem revertToSnapshot_restores_transfer
    : ∃ next back,
        runOps plainState.snapshot.2 transferOps = some next
        ∧ next.revertToSnapshot plainState.snapshot.1 = some back
        ∧ Restored plainState back := by
  have runs : (runOps plainState.snapshot.2 transferOps).isSome = true := by decide +kernel
  obtain ⟨next, run⟩ := Option.isSome_iff_exists.mp runs
  have nested : NestedIn plainState.snapshot.1 transferOps := by
    intro revid member
    simp only [transferOps, List.mem_cons, reduceCtorEq, Op.revertToSnapshot.injEq,
      List.not_mem_nil, or_false, false_or] at member
    rw [member]
    decide
  obtain ⟨back, reverted, restored⟩ := revertToSnapshot_restores
    plainBackend_hashAddress_injective plainState_reachable nested run
  exact ⟨next, back, run, reverted, restored⟩

/-- An override for slot 0 of account 1. -/
def overriddenState : StateDB plainBackend := plainState.setStorage 1 [(0, 1)]

/-- A slot write to an account with overrides is not journaled and stays. -/
theorem revertToSnapshot_keeps_override
    : Reachable overriddenState
      ∧ (overriddenState.getState 1 0).1 = 1
      ∧ ((runOps overriddenState.snapshot.2 [.setState 1 0 2]).bind fun next =>
            next.revertToSnapshot overriddenState.snapshot.1).map
          (fun back => (back.getState 1 0).1)
        = some 2 := by
  refine ⟨.setStorage 1 _ plainState_reachable, ?_, ?_⟩
  · decide +kernel
  · decide +kernel

end GoBinacoin.State
