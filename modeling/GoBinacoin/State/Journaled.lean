import GoBinacoin.State.Ledger

/-! Every journaled operation can be taken back: reverting its entries leads to a state that
reads like the one before.
-/

namespace GoBinacoin.State

open UndoLog StateDB JournalEntry

variable {B : Backend}

/-- The bookkeeping is well-formed, now and after any number of reverted entries. -/
abbrev StateDB.Sane (s : StateDB B) : Prop := s.ledger.Sane

/-- `next` was reached by changes the journal can take back, with the same revisions. -/
structure Recorded (s next : StateDB B) : Prop where
  undoable : Undoable (journalLog B) Same s next
  sane : next.Sane
  revisions : next.validRevisions = s.validRevisions
  nextId : next.nextRevisionId = s.nextRevisionId

variable {s middle next : StateDB B} {entry : JournalEntry B} {addr : Address} {o o' : Object B}

theorem Recorded.trans (injective : B.Injective) (first : Recorded s middle)
    (second : Recorded middle next)
    : Recorded s next where
  undoable := first.undoable.trans (journalLog_respects injective) second.undoable
  sane := second.sane
  revisions := second.revisions.trans first.revisions
  nextId := second.nextId.trans first.nextId

theorem Recorded.of_same (injective : B.Injective) (sane : s.Sane) (same : Same s next)
    (revisions : next.validRevisions = s.validRevisions)
    (nextId : next.nextRevisionId = s.nextRevisionId)
    : Recorded s next where
  undoable := .of_related (journalLog_respects injective) same
  sane := Persistent.of_related ledgerLog_respects Ledger.WellFormed.transport sane same.ledger
  revisions := revisions
  nextId := nextId

/-- Loading an object needs no entry. -/
theorem Recorded.of_loaded (injective : B.Injective) (sane : s.Sane) (loaded : Loaded s next)
    : Recorded s next := by
  refine .of_same injective sane loaded.same ?_ ?_
  · obtain ⟨_, _, rfl⟩ := loaded.state
    rfl
  · obtain ⟨_, _, rfl⟩ := loaded.state
    rfl

variable {s next body : StateDB B} {slot : Hash}

/-- A change with an entry that reverts it is recorded. -/
theorem Recorded.of_entry (sane : s.Sane)
    (wf : next.ledger.WellFormed) (entries : next.journal.entries = entry :: s.journal.entries)
    (reverted : entry.revert next = some body)
    (same : Same s { body with
      journal := {
        entries := s.journal.entries
        dirties := entry.dirtied.elim next.journal.dirties (decDirty next.journal.dirties)
      } })
    (revisions : next.validRevisions = s.validRevisions)
    (nextId : next.nextRevisionId = s.nextRevisionId)
    : Recorded s next := by
  have undone : (journalLog B).undo entry next = some { body with
      journal := {
        entries := s.journal.entries
        dirties := entry.dirtied.elim next.journal.dirties (decDirty next.journal.dirties)
      } } := by
    show undoEntry entry next = _
    simp [undoEntry, reverted, entries]
  exact {
    undoable := .of_entry entries undone same
    sane := Persistent.of_entry ledgerLog_respects Ledger.WellFormed.transport sane wf entries
      (undoEntry_ledger undone) same.ledger
    revisions := revisions
    nextId := nextId
  }

/-- Counters of dirty accounts stay positive. -/
theorem incDirty_pos {d : GoMap Address Int}
    (positive : ∀ addr count, d addr = some count → 0 < count) (target : Address)
    : ∀ addr count, incDirty d target addr = some count → 0 < count := by
  intro addr count present
  rw [incDirty, GoMap.set_apply] at present
  split at present
  · have nonneg : 0 ≤ dirtyCount d target := by
      unfold dirtyCount
      cases found : d target with
      | none => exact le_rfl
      | some n => exact (positive target n found).le
    rw [← Option.some.inj present]
    omega
  · exact positive addr count present

/-- Appending an entry and dropping it again leaves the counts alone. -/
theorem Ledger.WellFormed.append (wf : s.ledger.WellFormed) (entry : JournalEntry B)
    : (∀ addr count, (s.journal.append entry).dirties addr = some count → 0 < count)
      ∧ entry.dirtied.elim (s.journal.append entry).dirties
          (decDirty (s.journal.append entry).dirties)
        = s.journal.dirties := by
  unfold Journal.append
  rcases entry.dirtied with _ | addr
  · exact ⟨wf.dirties, rfl⟩
  · refine ⟨incDirty_pos wf.dirties addr, decDirty_incDirty fun zero => ?_⟩
    exact absurd (wf.dirties addr 0 zero) (lt_irrefl 0)

/-- One appended entry: it is enough that reverting it takes back the rest of the state. -/
theorem Recorded.of_append (sane : s.Sane) (journal : next.journal = s.journal.append entry)
    (accessList : next.accessList.WellFormed) (logs : ∀ hash, next.logs hash ≠ some [])
    (reverted : entry.revert next = some body) (same : Same s { body with journal := s.journal })
    (revisions : next.validRevisions = s.validRevisions)
    (nextId : next.nextRevisionId = s.nextRevisionId)
    : Recorded s next := by
  obtain ⟨positive, restored⟩ := sane.now.append entry
  refine .of_entry sane ⟨accessList, ?_, logs⟩ ?_ reverted ?_ revisions nextId
  · show ∀ addr count, next.journal.dirties addr = some count → 0 < count
    rw [journal]
    exact positive
  · rw [journal]
    rfl
  · rw [journal, restored]
    exact same

variable (found : s.stateObjects.get addr = some o) (alive : o.deleted = false)
include found alive

theorem StateDB.getStateObject_of_get : s.getStateObject addr = (some o, s) := by
  simp [getStateObject, getDeletedStateObject, found, alive]

theorem StateDB.changeObject_of_get (change : Object B → Object B)
    : s.changeObject addr change = some (s.setStateObject (change o)) := by
  simp [changeObject, getStateObject_of_get found alive]

omit found alive

theorem StateDB.get_setStateObject (s : StateDB B) (o : Object B)
    : (s.setStateObject o).stateObjects.get o.address = some o :=
  GoMap.set_self _ _ _

/-- Replacing a live object by one that reads the same is not seen. -/
theorem StateDB.Same.replace (found : s.peek addr = some o) (same : Object.Same s.reads o o')
    : Same s (s.setStateObject o') := by
  have keyed := peek_keyed found
  refine { refl s with objects := fun other => ?_ }
  rw [peek_setStateObject, same.address, keyed]
  split
  · rename_i here
    rw [here, found]
    exact .some same
  · exact objectRel_refl _ _

theorem Objects.set_set (m : Objects B) (address : o'.address = o.address)
    : (m.set o).set o' = m.set o' := by
  simp only [set, mk.injEq, GoMap.set, address]
  exact Function.update_idem _ _ _

theorem StateDB.setStateObject_twice (s : StateDB B) (address : o'.address = o.address)
    : (s.setStateObject o).setStateObject o' = s.setStateObject o' := by
  simp only [setStateObject, Objects.set_set _ address]

/-- A journaled change of a live object, given what reverting makes of the object. -/
theorem Recorded.of_change {o changed back : Object B}
    (sane : s.Sane) (found : s.stateObjects.get addr = some o) (address : changed.address = addr)
    (reverted : entry.revert ((s.append entry).setStateObject changed)
      = some (((s.append entry).setStateObject changed).setStateObject back))
    (same : Object.Same s.reads o back)
    : Recorded s ((s.append entry).setStateObject changed) := by
  have peeked : s.peek addr = some o := by simp [peek, found]
  have keyed := s.stateObjects.keyed addr o found
  refine .of_append sane rfl sane.now.accessList sane.now.logs reverted ?_ rfl rfl
  rw [setStateObject_twice _ (by rw [same.address, keyed, address])]
  exact Same.replace peeked same

/-! Creating objects. -/

/-- A created object goes when its entry is reverted, whatever was done to it unrecorded. -/
theorem Recorded.of_create (sane : s.Sane)
    (absent : s.peek addr = none) (fresh : Object B) (address : fresh.address = addr)
    : Recorded s ((s.append (.createObject addr)).setStateObject fresh) := by
  have stored : s.stored addr = none := by
    rw [peek, Option.or_eq_none_iff] at absent
    exact absent.2
  refine .of_append sane rfl sane.now.accessList sane.now.logs rfl ?_ rfl rfl
  refine { Same.refl s with objects := fun other => ?_ }
  have peeked := ((s.append (.createObject addr)).setStateObject fresh).peek_deleteObject addr
    other (s.stateObjectsDirty.delete addr)
  have restored : s.peek other
      = if other = addr then ((s.append (.createObject addr)).setStateObject fresh).stored other
        else ((s.append (.createObject addr)).setStateObject fresh).peek other := by
    split
    · rename_i here
      rw [here, absent]
      exact (stored.symm.trans (stored_congr rfl rfl addr).symm)
    · rename_i elsewhere
      rw [peek_setStateObject, address, if_neg elsewhere]
      rfl
  exact (peeked.trans restored.symm) ▸ objectRel_refl _ _

/-- The state after `createObject` has overwritten an object, up to the object put there. -/
def StateDB.overwrite (s : StateDB B) (prev : Object B) (fresh : Object B) : StateDB B :=
  let prevdestruct := s.snap.isSome && (s.snapDestructs prev.addrHash).isSome
  let s :=
    if s.snap.isSome && !prevdestruct then
      { s with snapDestructs := s.snapDestructs.set prev.addrHash () }
    else s
  (s.append (.resetObject prev prevdestruct)).setStateObject fresh

/-- Overwriting an object is recorded with the object before. -/
theorem Recorded.of_overwrite {prev : Object B}
    (sane : s.Sane) (found : s.peek addr = some prev) (fresh : Object B)
    (address : fresh.address = addr)
    : Recorded s (s.overwrite prev fresh) := by
  have keyed : prev.address = fresh.address := (peek_keyed found).trans address.symm
  have restored : Same s (s.setStateObject prev) := .replace found (.refl _ prev)
  unfold overwrite
  generalize marked : (s.snap.isSome && (s.snapDestructs prev.addrHash).isSome) = prevdestruct
  simp only
  split
  · rename_i marks
    obtain ⟨snap, rfl⟩ : s.snap.isSome = true ∧ prevdestruct = false := by simpa using marks
    have absent : s.snapDestructs prev.addrHash = none := by simpa [snap] using marked
    have undone := GoMap.delete_set s.snapDestructs prev.addrHash () absent
    have reverted : (resetObject prev false).revert
          (({ s with snapDestructs := s.snapDestructs.set prev.addrHash () }.append
            (.resetObject prev false)).setStateObject fresh)
        = some { s.setStateObject prev with
            journal := s.journal.append (.resetObject prev false) } := by
      simp [revert, setStateObject, append, snap, undone, Objects.set_set _ keyed]
    exact .of_append sane rfl sane.now.accessList sane.now.logs reverted restored rfl rfl
  · rename_i kept
    have reverted : (resetObject prev prevdestruct).revert
          ((s.append (.resetObject prev prevdestruct)).setStateObject fresh)
        = some { s.setStateObject prev with
            journal := s.journal.append (.resetObject prev prevdestruct) } := by
      have unmarked : (!prevdestruct && s.snap.isSome) = false := by
        rw [Bool.and_comm]
        simpa using kept
      simp [revert, setStateObject, append, unmarked, Objects.set_set _ keyed]
    exact .of_append sane rfl sane.now.accessList sane.now.logs reverted restored rfl rfl

/-- A new object is recorded, with the one it replaces if there was one. -/
theorem StateDB.createObject_recorded (injective : B.Injective) (sane : s.Sane) (addr : Address)
    : Recorded s (s.createObject addr).2.2
      ∧ (s.createObject addr).2.2.stateObjects.get addr = some (s.createObject addr).1
      ∧ (s.createObject addr).1 = newObject B addr B.blankAccount := by
  obtain ⟨value, loaded, -⟩ := s.getDeletedStateObject_eq addr
  have first := Recorded.of_loaded injective sane loaded
  have peeked := loaded.peek addr
  unfold createObject
  rw [← value] at peeked
  generalize s.getDeletedStateObject addr = result at first peeked ⊢
  obtain ⟨found, middle⟩ := result
  rcases found with _ | prev
  · refine ⟨first.trans injective (.of_create first.sane peeked _ rfl), ?_, rfl⟩
    exact get_setStateObject _ _
  · refine ⟨first.trans injective (.of_overwrite first.sane peeked _ rfl), ?_, rfl⟩
    exact get_setStateObject _ _

/-- A new account is recorded, with the balance it takes over. -/
theorem StateDB.createAccount_recorded (injective : B.Injective) (sane : s.Sane) (addr : Address)
    : Recorded s (s.createAccount addr) := by
  obtain ⟨value, loaded, -⟩ := s.getDeletedStateObject_eq addr
  have first := Recorded.of_loaded injective sane loaded
  have peeked := loaded.peek addr
  unfold createAccount createObject
  rw [← value] at peeked
  generalize s.getDeletedStateObject addr = result at first peeked ⊢
  obtain ⟨found, middle⟩ := result
  rcases found with _ | prev
  · exact first.trans injective (.of_create first.sane peeked _ rfl)
  simp only
  split
  · rename_i newobj carried next created
    simp only [Prod.mk.injEq] at created
    obtain ⟨rfl, -, rfl⟩ := created
    have address : ((newObject B addr B.blankAccount).setBalance carried.data.balance).address
        = (newObject B addr B.blankAccount).address := rfl
    rw [setStateObject_twice _ address]
    exact first.trans injective (.of_overwrite first.sane peeked _ rfl)
  · rename_i newobj next created
    simp only [Prod.mk.injEq] at created
    obtain ⟨rfl, -, rfl⟩ := created
    exact first.trans injective (.of_overwrite first.sane peeked _ rfl)

/-- An operation has got hold of a live object. -/
structure Acquired (s : StateDB B) (addr : Address) (o : Object B) (next : StateDB B)
    : Prop where
  recorded : Recorded s next
  found : next.stateObjects.get addr = some o
  alive : o.deleted = false
  address : o.address = addr

theorem Acquired.peek (acquired : Acquired s addr o next) : next.peek addr = some o := by
  rw [StateDB.peek, acquired.found]
  rfl

section

variable (injective : B.Injective)

include injective

/-- An object is found, or a new one is recorded. -/
theorem StateDB.getOrNewStateObject_acquired (sane : s.Sane) (addr : Address)
    : Acquired s addr (s.getOrNewStateObject addr).1 (s.getOrNewStateObject addr).2 := by
  obtain ⟨value, loaded, stored⟩ := s.getStateObject_eq addr
  have first := Recorded.of_loaded injective sane loaded
  unfold getOrNewStateObject
  generalize s.getStateObject addr = result at value first stored ⊢
  obtain ⟨found, middle⟩ := result
  rcases found with _ | o
  · obtain ⟨created, found, fresh⟩ := middle.createObject_recorded injective first.sane addr
    refine ⟨first.trans injective created, found, ?_, ?_⟩
    · simp only [fresh]
      rfl
    · simp only [fresh]
      rfl
  · obtain ⟨peeked, alive⟩ : s.peek addr = some o ∧ o.deleted = false := by
      simpa [live, Option.filter_eq_some_iff] using value.symm
    exact ⟨first, stored.trans peeked, alive, peek_keyed peeked⟩

/-- A journaled change of the acquired object, possibly after caching reads. -/
theorem Acquired.change {o read : Object B}
    (acquired : Acquired s addr o middle) (entry : JournalEntry B)
    (write back : Object B → Object B) (recached : Object.Recached middle.reads o read)
    (address : (write read).address = read.address) (alive : (write read).deleted = read.deleted)
    (reverts : ∀ t : StateDB B, entry.revert t = t.changeObject addr back)
    (same : Object.Same middle.reads read (back (write read)))
    : Recorded s ((middle.append entry).setStateObject (write read)) := by
  have sameRead := recached.same
  have readAddress : (write read).address = addr := by
    rw [address, sameRead.address, acquired.address]
  have readAlive : (write read).deleted = false := by
    rw [alive, sameRead.deleted, acquired.alive]
  refine acquired.recorded.trans injective (.of_change acquired.recorded.sane
    acquired.found readAddress ?_ (sameRead.trans same))
  rw [reverts]
  refine changeObject_of_get ?_ readAlive back
  rw [← readAddress]
  exact get_setStateObject _ _

/-! Operations. -/

theorem Acquired.setObjectBalance (acquired : Acquired s addr o middle) (amount : Int)
    : Recorded s (middle.setObjectBalance o amount) :=
  acquired.change injective (.balance o.address o.data.balance) (fun b => b.setBalance amount)
    (fun b => b.setBalance o.data.balance) (.refl _ o) rfl rfl
    (fun t => by rw [acquired.address]; rfl) (o.same_setBalance_back _ amount)

omit injective in
/-- A surplus count at the precompile 0x03 makes no difference. -/
theorem DirtySame.incDirty (d : GoMap Address Int)
    (positive : ∀ addr count, d addr = some count → 0 < count)
    : DirtySame d (State.incDirty d ripemd) where
  others addr other := GoMap.set_of_ne _ _ other
  surplus := by
    simp only [dirtyCount, State.incDirty, GoMap.set_self, Option.getD_some]
    omega
  nonzero _ zero := absurd (incDirty_pos positive ripemd ripemd 0 zero) (lt_irrefl 0)

omit injective in
/-- The touch of the precompile 0x03 is counted twice and taken back once. -/
theorem StateDB.touch_recorded (sane : s.Sane) (o : Object B) : Recorded s (s.touch o) := by
  have wf := sane.now
  have positive := incDirty_pos wf.dirties o.address
  unfold touch
  simp only
  split
  · rename_i special
    have counted : decDirty (incDirty (incDirty s.journal.dirties o.address) o.address) o.address
        = incDirty s.journal.dirties o.address :=
      decDirty_incDirty fun zero => absurd (positive o.address 0 zero) (lt_irrefl 0)
    refine .of_entry sane
      ⟨wf.accessList, incDirty_pos positive o.address, wf.logs⟩ rfl rfl ?_ rfl rfl
    refine { Same.refl s with dirties := ?_ }
    show DirtySame s.journal.dirties (decDirty (incDirty (incDirty _ _) _) _)
    rw [counted, special]
    exact .incDirty _ wf.dirties
  · exact .of_append sane rfl wf.accessList wf.logs rfl (.refl s) rfl rfl

variable (sane : s.Sane) (addr : Address)
include sane

variable (amount : Int)

/-- Adding an amount is recorded, and so is touching an empty account. -/
theorem StateDB.addBalance_recorded : Recorded s (s.addBalance addr amount) := by
  have acquired := s.getOrNewStateObject_acquired injective sane addr
  unfold addBalance
  simp only
  split
  · split
    · exact acquired.recorded.trans injective (touch_recorded acquired.recorded.sane _)
    · exact acquired.recorded
  · exact acquired.setObjectBalance injective _

theorem StateDB.subBalance_recorded : Recorded s (s.subBalance addr amount) := by
  have acquired := s.getOrNewStateObject_acquired injective sane addr
  unfold subBalance
  simp only
  split
  · exact acquired.recorded
  · exact acquired.setObjectBalance injective _

theorem StateDB.setBalance_recorded : Recorded s (s.setBalance addr amount) :=
  (s.getOrNewStateObject_acquired injective sane addr).setObjectBalance injective amount

theorem StateDB.setNonce_recorded (nonce : UInt64) : Recorded s (s.setNonce addr nonce) := by
  have acquired := s.getOrNewStateObject_acquired injective sane addr
  unfold setNonce
  generalize s.getOrNewStateObject addr = result at acquired ⊢
  obtain ⟨o, middle⟩ := result
  exact acquired.change injective (.nonce o.address o.data.nonce) (fun b => b.setNonce nonce)
    (fun b => b.setNonce o.data.nonce) (.refl _ o) rfl rfl
    (fun t => by rw [acquired.address]; rfl) (o.same_setNonce_back _ nonce)

/-- The code before is recorded. -/
theorem StateDB.setCode_recorded (code : Option Bytes) : Recorded s (s.setCode addr code) := by
  have acquired := s.getOrNewStateObject_acquired injective sane addr
  unfold setCode
  generalize s.getOrNewStateObject addr = result at acquired ⊢
  obtain ⟨o, middle⟩ := result
  obtain ⟨value, recached⟩ := o.getCode_eq middle.reads
  show Recorded s ((middle.append (.code (o.getCode middle.reads.db).2.address
    (o.getCode middle.reads.db).1 (o.getCode middle.reads.db).2.data.codeHash)).setStateObject
      ((o.getCode middle.reads.db).2.setCode (B.keccak (code.getD [])) code))
  generalize o.getCode middle.reads.db = cached at value recached ⊢
  obtain ⟨prevcode, read⟩ := cached
  have address : read.address = addr := recached.same.address.trans acquired.address
  have back := read.same_setCode_back middle.reads (B.keccak (code.getD [])) code
  rw [recached.code, ← value] at back
  exact acquired.change injective (.code read.address prevcode read.data.codeHash)
    (fun b => b.setCode (B.keccak (code.getD [])) code)
    (fun b => b.setCode read.data.codeHash prevcode) recached rfl rfl
    (fun t => by rw [address]; rfl) back

/-- The value before is recorded, unless it is the same. -/
theorem StateDB.setState_recorded (key value : Hash) : Recorded s (s.setState addr key value) := by
  have acquired := s.getOrNewStateObject_acquired injective sane addr
  unfold setState
  generalize s.getOrNewStateObject addr = result at acquired ⊢
  obtain ⟨o, middle⟩ := result
  have peeked := acquired.peek
  simp only
  split
  · -- The unrecorded write into fake storage is not compared.
    rename_i fake isFake
    refine acquired.recorded.trans injective (.of_same injective acquired.recorded.sane
      (Same.replace peeked ?_) rfl rfl)
    have notNone : o.fakeStorage ≠ none := by simp [isFake]
    exact { Object.Same.refl middle.reads o with
      fake := by simp [isFake]
      state := fun noFake => absurd noFake notNone
      committed := fun noFake => absurd noFake notNone }
  · rename_i noFake
    obtain ⟨prev, recached⟩ := o.getState_eq middle.reads noFake key
    split
    · exact acquired.recorded.trans injective (.of_same injective acquired.recorded.sane
        (Same.replace peeked recached.same) rfl rfl)
    · have sameValue := recached.same.state noFake key
      generalize o.getState middle.reads key = cached at prev recached sameValue ⊢
      obtain ⟨prevalue, read⟩ := cached
      have address : read.address = addr := recached.same.address.trans acquired.address
      have back := read.same_setState_back middle.reads key value
      rw [sameValue, ← prev] at back
      exact acquired.change injective (.storage read.address key prevalue)
        (fun b => b.setState key value) (fun b => b.setState key prevalue) recached rfl rfl
        (fun t => by rw [address]; rfl) back

/-- The balance before is recorded. -/
theorem StateDB.suicide_recorded : Recorded s (s.suicide addr).2 := by
  obtain ⟨value, loaded, stored⟩ := s.getStateObject_eq addr
  have first := Recorded.of_loaded injective sane loaded
  unfold suicide
  generalize s.getStateObject addr = result at value first stored ⊢
  obtain ⟨found, middle⟩ := result
  rcases found with _ | o
  · exact first
  obtain ⟨peeked, alive⟩ : s.peek addr = some o ∧ o.deleted = false := by
    simpa [live, Option.filter_eq_some_iff] using value.symm
  have address := peek_keyed peeked
  have liveNext : ((middle.append (.suicide addr o.suicided o.data.balance)).setStateObject
        { o.setBalance 0 with suicided := true }).stateObjects.get addr
      = some { o.setBalance 0 with suicided := true } := by
    rw [← address]
    exact get_setStateObject _ _
  refine first.trans injective (.of_change first.sane (stored.trans peeked) address ?_ (.refl _ o))
  rw [revert, getStateObject_of_get liveNext alive]
  rfl

omit sane

omit injective in
/-- A log is recorded by its transaction. -/
theorem StateDB.addLog_recorded (sane : s.Sane) (log : Log) : Recorded s (s.addLog log) := by
  have wf := sane.now
  unfold addLog
  simp only
  generalize { log with txHash := s.thash, txIndex := s.txIndex, index := s.logSize } = entry
  have logsNext (hash : Hash) : s.logs.set s.thash ((s.logs s.thash).getD [] ++ [entry]) hash
      ≠ some [] := by
    rw [GoMap.set_apply]
    split
    · simp
    · exact wf.logs hash
  have size : s.logSize + 1 - 1 = s.logSize := UInt64.add_sub_cancel _ _
  have reverted : (JournalEntry.addLog s.thash).revert { s.append (.addLog s.thash) with
      logs := s.logs.set s.thash ((s.logs s.thash).getD [] ++ [entry])
      logSize := s.logSize + 1 } = some (s.append (.addLog s.thash)) := by
    rcases found : s.logs s.thash with _ | logs
    · have restored := GoMap.delete_set s.logs s.thash [entry] found
      simp [JournalEntry.revert, append, restored, size]
    · have restored := GoMap.set_set_self s.logs s.thash (logs ++ [entry]) logs found
      rcases logs with _ | ⟨first, _ | ⟨second, rest⟩⟩
      · exact absurd found (wf.logs s.thash)
      · simpa [JournalEntry.revert, append, size] using restored
      · have front : (second :: (rest ++ [entry])).dropLast = second :: rest := by
          rw [← List.cons_append, List.dropLast_concat]
        simpa [JournalEntry.revert, append, size, front] using restored
  exact .of_append sane rfl wf.accessList logsNext reverted (.refl s) rfl rfl

theorem StateDB.addPreimage_recorded (sane : s.Sane) (hash : Hash) (preimage : Bytes)
    : Recorded s (s.addPreimage hash preimage) := by
  unfold addPreimage
  split
  · exact .of_same injective sane (.refl s) rfl rfl
  · rename_i absent
    refine .of_append sane rfl sane.now.accessList sane.now.logs rfl ?_ rfl rfl
    exact { Same.refl s with
      preimages := GoMap.delete_set s.preimages hash preimage absent }

end

theorem StateDB.addRefund_recorded (sane : s.Sane) (gas : UInt64) : Recorded s (s.addRefund gas) :=
  .of_append sane rfl sane.now.accessList sane.now.logs rfl (.refl s) rfl rfl

theorem StateDB.subRefund_recorded (sane : s.Sane) {gas : UInt64}
    (run : s.subRefund gas = some next)
    : Recorded s next := by
  unfold subRefund at run
  split at run
  · cases run
  · rw [← Option.some.inj run]
    exact .of_append sane rfl sane.now.accessList sane.now.logs rfl (.refl s) rfl rfl

/-- An address is recorded if it is new. -/
theorem StateDB.addAddressToAccessList_recorded (injective : B.Injective) (sane : s.Sane)
    (addr : Address)
    : Recorded s (s.addAddressToAccessList addr) := by
  have wf := s.accessList.addAddress_wellFormed sane.now.accessList addr
  unfold addAddressToAccessList
  split
  · rename_i al added
    rw [added] at wf
    refine .of_append sane rfl wf sane.now.logs rfl ?_ rfl rfl
    exact { Same.refl s with accessList := AccessList.deleteAddress_addAddress added }
  · exact .of_same injective sane (.refl s) rfl rfl

/-- A slot of a known address is recorded. -/
theorem StateDB.addSlot_recorded (sane : s.Sane)
    {idx : Int} {al : AccessList} (present : s.accessList.addresses addr = some idx)
    (added : s.accessList.addSlot addr slot = some (false, true, al))
    : Recorded s ({ s with accessList := al }.append (.accessListAddSlot addr slot)) := by
  have wf := AccessList.addSlot_wellFormed sane.now.accessList added
  have restored : al.deleteSlot addr slot = some s.accessList :=
    AccessList.deleteSlot_addSlot sane.now.accessList present added
  have reverted : (accessListAddSlot addr slot).revert
      ({ s with accessList := al }.append (.accessListAddSlot addr slot))
      = some (s.append (.accessListAddSlot addr slot)) := by
    simp [revert, append, restored]
  exact .of_append sane rfl wf sane.now.logs reverted (.refl s) rfl rfl

/-- The address and the slot are recorded, each if it is new. -/
theorem StateDB.addSlotToAccessList_recorded (injective : B.Injective) (sane : s.Sane)
    (run : s.addSlotToAccessList addr slot = some next)
    : Recorded s next := by
  unfold addSlotToAccessList at run
  split at run
  · cases run
  · rename_i addrMod slotMod al added
    rw [← Option.some.inj run]
    rcases present : s.accessList.addresses addr with _ | idx
    · -- The two entries are those of adding the address first and then the slot.
      have first := s.addAddressToAccessList_recorded injective sane addr
      have listed : s.addAddressToAccessList addr
          = { s with accessList :=
              { s.accessList with addresses := s.accessList.addresses.set addr (-1) } }.append
            (.accessListAddAccount addr) := by
        simp [addAddressToAccessList, AccessList.addAddress, present]
      have reopened : AccessList.openSlots
            { s.accessList with addresses := s.accessList.addresses.set addr (-1) } addr slot
          = s.accessList.openSlots addr slot := by
        simp [AccessList.openSlots, GoMap.set]
      rw [listed] at first
      have second := addSlot_recorded first.sane
        (show _ = some (-1) from GoMap.set_self _ addr _)
        (show AccessList.addSlot _ addr slot
            = some (false, true, s.accessList.openSlots addr slot) by
          simp only [AccessList.addSlot, append, GoMap.set_self, if_true, reopened])
      simp only [AccessList.addSlot, present, Option.some.injEq, Prod.mk.injEq] at added
      obtain ⟨rfl, rfl, rfl⟩ := added
      exact first.trans injective second
    · have sameAddress : addrMod = false ∧ (slotMod = false → al = s.accessList) := by
        simp only [AccessList.addSlot, present] at added
        split at added
        · simp only [Option.some.injEq, Prod.mk.injEq] at added
          exact ⟨added.1.symm, fun none => by simp [none] at added⟩
        · obtain ⟨slotmap, -, result⟩ := Option.map_eq_some_iff.mp added
          split at result
          · simp only [Prod.mk.injEq] at result
            exact ⟨result.1.symm, fun _ => result.2.2.symm⟩
          · simp only [Prod.mk.injEq] at result
            exact ⟨result.1.symm, fun none => by simp [none] at result⟩
      obtain ⟨rfl, unchanged⟩ := sameAddress
      rcases slotMod with _ | _
      · rw [unchanged rfl]
        exact .of_same injective sane (.refl s) rfl rfl
      · exact addSlot_recorded sane present added

end GoBinacoin.State
