import GoBinacoin.State.Observe

/-! States that read the same, and that reverting a journal entry keeps them so. -/

namespace GoBinacoin.State

open StateDB

variable {B : Backend}

/-- The object below the live ones. -/
def StateDB.stored (s : StateDB B) (addr : Address) : Option (Object B) :=
  match s.loadAccount addr with
  | .ok (some data) => some (newObject B addr data)
  | _ => none

/-- What `getDeletedStateObject` finds. -/
def StateDB.peek (s : StateDB B) (addr : Address) : Option (Object B) :=
  (s.stateObjects.get addr).or (s.stored addr)

/-- What `getStateObject` finds. -/
def StateDB.live (s : StateDB B) (addr : Address) : Option (Object B) :=
  (s.peek addr).filter fun o => !o.deleted

variable {s s' : StateDB B} {addr : Address} {o o' : Object B} {reads reads' : Reads B}

/-- An object is found under its own address. -/
theorem StateDB.peek_keyed (found : s.peek addr = some o) : o.address = addr := by
  unfold peek at found
  rcases loaded : s.stateObjects.get addr with _ | live
  · rw [loaded, Option.none_or] at found
    unfold stored at found
    split at found
    · exact (Option.some.inj found) ▸ rfl
    · cases found
  · rw [loaded, Option.some_or] at found
    exact s.stateObjects.keyed addr o (loaded.trans found)

theorem StateDB.stored_congr (reads : s'.reads = s.reads) (trie : s'.trie = s.trie) (addr : Address)
    : s'.stored addr = s.stored addr := by
  have db : s'.db = s.db := congrArg Reads.db reads
  have snap : s'.snap = s.snap := congrArg Reads.snap reads
  simp only [stored, loadAccount, db, snap, trie]

variable (s)

/-- An object that is set is the one found. -/
theorem StateDB.peek_setStateObject (o : Object B) (addr : Address)
    : (s.setStateObject o).peek addr = if addr = o.address then some o else s.peek addr := by
  have stored : (s.setStateObject o).stored addr = s.stored addr := stored_congr rfl rfl addr
  have found : (s.setStateObject o).stateObjects.get addr
      = if addr = o.address then some o else s.stateObjects.get addr :=
    GoMap.set_apply _ _ _ _
  rw [peek, stored, found]
  split
  · rfl
  · rfl

/-- `next` is `s` after objects were loaded. -/
structure StateDB.Loaded (s next : StateDB B) : Prop where
  state
    : ∃ stateObjects dbErr, next = { s with stateObjects := stateObjects, dbErr := dbErr }
  peek : ∀ addr, next.peek addr = s.peek addr

theorem StateDB.Loaded.refl : Loaded s s := ⟨⟨s.stateObjects, s.dbErr, rfl⟩, fun _ => rfl⟩

/-- Looking an object up loads it and changes nothing else. -/
theorem StateDB.getDeletedStateObject_eq (addr : Address)
    : (s.getDeletedStateObject addr).1 = s.peek addr
      ∧ Loaded s (s.getDeletedStateObject addr).2
      ∧ (s.getDeletedStateObject addr).2.stateObjects.get addr = s.peek addr := by
  unfold getDeletedStateObject
  rcases found : s.stateObjects.get addr with _ | o
  · have peeked : s.peek addr = s.stored addr := by simp [peek, found]
    rcases account : s.loadAccount addr with err | _ | data
    · have absent : s.stored addr = none := by simp [stored, account]
      rw [peeked, absent]
      exact ⟨rfl, ⟨⟨s.stateObjects, _, rfl⟩, fun _ => rfl⟩, found⟩
    · have absent : s.stored addr = none := by simp [stored, account]
      rw [peeked, absent]
      exact ⟨rfl, .refl s, found⟩
    · have present : s.stored addr = some (newObject B addr data) := by simp [stored, account]
      rw [peeked, present]
      refine ⟨rfl, ⟨⟨_, s.dbErr, rfl⟩, fun other => ?_⟩, ?_⟩
      · rw [peek_setStateObject]
        split
        · rename_i same
          rw [same]
          exact (peeked.trans present).symm
        · rfl
      · exact GoMap.set_self _ addr _
  · have peeked : s.peek addr = some o := by simp [peek, found]
    exact ⟨peeked.symm, .refl s, found.trans peeked.symm⟩

/-- So does looking up an object that is not deleted. -/
theorem StateDB.getStateObject_eq (addr : Address)
    : (s.getStateObject addr).1 = s.live addr
      ∧ Loaded s (s.getStateObject addr).2
      ∧ (s.getStateObject addr).2.stateObjects.get addr = s.peek addr := by
  obtain ⟨value, loaded, stored⟩ := s.getDeletedStateObject_eq addr
  unfold getStateObject live
  rw [← value]
  generalize s.getDeletedStateObject addr = result at value loaded stored ⊢
  obtain ⟨found, next⟩ := result
  rcases found with _ | o
  · exact ⟨rfl, loaded, stored.trans value.symm⟩
  · refine ⟨?_, loaded, stored.trans value.symm⟩
    cases deleted : o.deleted <;> simp [Option.filter, deleted]

variable {s}

/-- Equal counts, up to a surplus at the precompile 0x03. -/
structure DirtySame (d d' : GoMap Address Int) : Prop where
  others : ∀ addr, addr ≠ ripemd → d' addr = d addr
  surplus : dirtyCount d ripemd ≤ dirtyCount d' ripemd
  nonzero : d ripemd ≠ some 0 → d' ripemd ≠ some 0

variable (d : GoMap Address Int)

theorem DirtySame.refl : DirtySame d d := ⟨fun _ _ => rfl, le_rfl, id⟩

theorem DirtySame.trans {d middle d' : GoMap Address Int} (first : DirtySame d middle)
    (second : DirtySame middle d')
    : DirtySame d d' where
  others addr other := (second.others addr other).trans (first.others addr other)
  surplus := first.surplus.trans second.surplus
  nonzero start := second.nonzero (first.nonzero start)

theorem dirtyCount_decDirty (addr : Address)
    : dirtyCount (decDirty d addr) addr = dirtyCount d addr - 1 := by
  unfold decDirty
  split
  · rename_i zero
    rw [zero]
    simp [dirtyCount]
  · simp [dirtyCount]

theorem decDirty_of_ne {addr other : Address} (ne : other ≠ addr)
    : decDirty d addr other = d other := by
  unfold decDirty
  split
  · exact GoMap.delete_of_ne _ ne
  · exact GoMap.set_of_ne _ _ ne

theorem decDirty_ne_zero (addr : Address) : decDirty d addr addr ≠ some 0 := by
  unfold decDirty
  split
  · simp
  · rename_i nonzero
    simpa using nonzero

/-- Counting a dirty account and taking it back. -/
theorem decDirty_incDirty {d : GoMap Address Int} (nonzero : d addr ≠ some 0)
    : decDirty (incDirty d addr) addr = d := by
  have count : dirtyCount (incDirty d addr) addr - 1 = dirtyCount d addr := by
    simp [dirtyCount, incDirty]
  unfold decDirty
  rw [count]
  split
  · rename_i zero
    have absent : d addr = none := by
      rcases found : d addr with _ | n
      · rfl
      · simp only [dirtyCount, found, Option.getD_some] at zero
        exact absurd (found.trans (congrArg some zero)) nonzero
    exact GoMap.delete_set d addr _ absent
  · rename_i present
    rcases found : d addr with _ | n
    · simp [dirtyCount, found] at present
    · have value : dirtyCount d addr = n := by simp [dirtyCount, found]
      rw [value]
      exact GoMap.set_set_self d addr _ n found

/-- Taking a count back on both sides keeps the counters the same. -/
theorem DirtySame.decDirty {d d' : GoMap Address Int} (same : DirtySame d d') (addr : Address)
    : DirtySame (decDirty d addr) (State.decDirty d' addr) := by
  rcases eq_or_ne addr ripemd with special | ordinary
  · subst special
    refine ⟨fun other ne => ?_, ?_, fun _ => decDirty_ne_zero d' ripemd⟩
    · rw [decDirty_of_ne d' ne, decDirty_of_ne d ne, same.others other ne]
    · rw [dirtyCount_decDirty, dirtyCount_decDirty]
      have := same.surplus
      omega
  · have sameCount : dirtyCount d' addr = dirtyCount d addr := by
      simp [dirtyCount, same.others addr ordinary]
    refine ⟨fun other ne => ?_, ?_, fun start => ?_⟩
    · rcases eq_or_ne other addr with here | elsewhere
      · subst here
        unfold State.decDirty
        rw [sameCount]
        split <;> simp
      · rw [decDirty_of_ne d' elsewhere, decDirty_of_ne d elsewhere, same.others other ne]
    · simp only [dirtyCount, decDirty_of_ne _ ordinary.symm]
      exact same.surplus
    · rw [decDirty_of_ne _ ordinary.symm] at start ⊢
      exact same.nonzero start

/-- Every getter agrees on the two states, and so does the journal. Revisions are not
compared.
-/
structure StateDB.Same (s s' : StateDB B) : Prop where
  reads : s'.reads = s.reads
  trie : s'.trie = s.trie
  objects : ∀ addr, Option.Rel (Object.Same s.reads) (s.peek addr) (s'.peek addr)
  refund : s'.refund = s.refund
  logs : s'.logs = s.logs
  logSize : s'.logSize = s.logSize
  preimages : s'.preimages = s.preimages
  accessList : s'.accessList = s.accessList
  entries : s'.journal.entries = s.journal.entries
  dirties : DirtySame s.journal.dirties s'.journal.dirties

theorem objectRel_refl (reads : Reads B) (o : Option (Object B))
    : Option.Rel (Object.Same reads) o o := by
  cases o with
  | none => exact .none
  | some o => exact .some (.refl reads o)

theorem objectRel_trans {o middle next : Option (Object B)}
    (first : Option.Rel (Object.Same reads) o middle)
    (second : Option.Rel (Object.Same reads) middle next)
    : Option.Rel (Object.Same reads) o next := by
  cases first with
  | none =>
    cases second with
    | none => exact .none
  | some one =>
    cases second with
    | some two => exact .some (one.trans two)

theorem StateDB.Same.refl (s : StateDB B) : Same s s :=
  ⟨rfl, rfl, fun _ => objectRel_refl _ _, rfl, rfl, rfl, rfl, rfl, rfl, .refl _⟩

/-- States that cannot be told apart, in two steps. -/
theorem StateDB.Same.trans {s middle next : StateDB B} (first : Same s middle)
    (second : Same middle next)
    : Same s next where
  reads := second.reads.trans first.reads
  trie := second.trie.trans first.trie
  objects addr := objectRel_trans (first.objects addr) (first.reads ▸ second.objects addr)
  refund := second.refund.trans first.refund
  logs := second.logs.trans first.logs
  logSize := second.logSize.trans first.logSize
  preimages := second.preimages.trans first.preimages
  accessList := second.accessList.trans first.accessList
  entries := second.entries.trans first.entries
  dirties := first.dirties.trans second.dirties

theorem StateDB.Same.loaded {s s' next next' : StateDB B} (same : Same s s')
    (loaded : Loaded s next) (loaded' : Loaded s' next')
    : Same next next' := by
  have peek := loaded.peek
  have peek' := loaded'.peek
  obtain ⟨_, _, rfl⟩ := loaded.state
  obtain ⟨_, _, rfl⟩ := loaded'.state
  exact { same with objects := fun addr => by rw [peek, peek']; exact same.objects addr }

theorem StateDB.Loaded.same {s next : StateDB B} (loaded : Loaded s next) : Same s next :=
  (Same.refl s).loaded (.refl s) loaded

/-- They have the same accounts. -/
theorem StateDB.Same.live (same : Same s s') (addr : Address)
    : Option.Rel (Object.Same s.reads) (s.live addr) (s'.live addr) := by
  unfold StateDB.live
  generalize s.peek addr = found, s'.peek addr = found', same.objects addr = related
  cases related with
  | none => exact .none
  | some one =>
    simp only [Option.filter, one.deleted]
    split
    · exact .some one
    · exact .none

/-- Objects that are the same may be put into states that are the same. -/
theorem StateDB.Same.setStateObject (same : Same s s') (sameObject : Object.Same s.reads o o')
    : Same (s.setStateObject o) (s'.setStateObject o') where
  reads := same.reads
  trie := same.trie
  objects addr := by
    rw [peek_setStateObject, peek_setStateObject, sameObject.address]
    split
    · exact .some sameObject
    · exact same.objects addr
  refund := same.refund
  logs := same.logs
  logSize := same.logSize
  preimages := same.preimages
  accessList := same.accessList
  entries := same.entries
  dirties := same.dirties

/-- Values of an account depend on destructions of this account only. -/
theorem Object.committedValue_destructs (o : Object B)
    (db : reads'.db = reads.db) (snap : reads'.snap = reads.snap)
    (destructs : reads'.snapDestructs (B.hashAddress o.address)
      = reads.snapDestructs (B.hashAddress o.address)) (key : Hash)
    : o.committedValue reads' key = o.committedValue reads key := by
  simp only [committedValue, fetched, db, snap, destructs]

/-- Only the database, the snapshot and the destructed mark of the account matter. -/
theorem Object.Same.destructs
    (same : Same reads o o') (db : reads'.db = reads.db) (snap : reads'.snap = reads.snap)
    (destructs : reads'.snapDestructs (B.hashAddress o.address)
      = reads.snapDestructs (B.hashAddress o.address))
    : Same reads' o o' := by
  have committed (key : Hash) := o.committedValue_destructs db snap destructs key
  have committed' (key : Hash) :=
    o'.committedValue_destructs db snap (same.address.symm ▸ destructs) key
  refine { same with code := ?_, state := ?_, committed := ?_ }
  · rw [db]
    exact same.code
  · intro noFake key
    have values := same.state noFake key
    simp only [Object.stateValue] at values ⊢
    rw [committed, committed']
    exact values
  · intro noFake key
    rw [committed, committed']
    exact same.committed noFake key

/-- Changing an account acts alike on them. -/
theorem StateDB.Same.changeObject (same : Same s s') (addr : Address) {change : Object B → Object B}
    (keeps : ∀ {o o'}, Object.Same s.reads o o' → Object.Same s.reads (change o) (change o'))
    : Option.Rel Same (s.changeObject addr change) (s'.changeObject addr change) := by
  obtain ⟨value, loaded, -⟩ := s.getStateObject_eq addr
  obtain ⟨value', loaded', -⟩ := s'.getStateObject_eq addr
  have live := same.live addr
  have sameLoaded := same.loaded loaded loaded'
  have sameReads : (s.getStateObject addr).2.reads = s.reads := loaded.same.reads
  rw [← value, ← value'] at live
  unfold StateDB.changeObject
  generalize s.getStateObject addr = result at live sameLoaded sameReads ⊢
  generalize s'.getStateObject addr = result' at live sameLoaded ⊢
  obtain ⟨found, next⟩ := result
  obtain ⟨found', next'⟩ := result'
  cases live with
  | none => exact .none
  | some sameObject => exact .some (sameLoaded.setStateObject (sameReads ▸ keeps sameObject))

/-- Undoing a destruction concerns the address of the restored object only, as long as no two
addresses share a hash.
-/
theorem StateDB.Same.undoDestruct (same : Same s s') (injective : B.Injective) (prev : Object B)
    : Same
        { s.setStateObject prev with snapDestructs := s.snapDestructs.delete prev.addrHash }
        { s'.setStateObject prev with snapDestructs := s'.snapDestructs.delete prev.addrHash } := by
  have sameSet := same.setStateObject (.refl s.reads prev)
  have destructs : s'.snapDestructs = s.snapDestructs := congrArg Reads.snapDestructs same.reads
  refine { sameSet with reads := ?_, objects := fun addr => ?_ }
  · have db : s'.db = s.db := congrArg Reads.db same.reads
    have snap : s'.snap = s.snap := congrArg Reads.snap same.reads
    simp [StateDB.reads, StateDB.setStateObject, db, snap, destructs]
  · have related := sameSet.objects addr
    have keyed {o : Object B} (found : (s.setStateObject prev).peek addr = some o)
        : o.address = addr :=
      StateDB.peek_keyed found
    show Option.Rel _ ((s.setStateObject prev).peek addr) ((s'.setStateObject prev).peek addr)
    rcases eq_or_ne addr prev.address with here | elsewhere
    · rw [StateDB.peek_setStateObject, StateDB.peek_setStateObject, if_pos here, if_pos here]
      exact .some (.refl _ prev)
    · generalize (s.setStateObject prev).peek addr = found at related keyed ⊢
      generalize (s'.setStateObject prev).peek addr = found' at related ⊢
      cases related with
      | none => exact .none
      | @some o o' one =>
        have address : o.address = addr := keyed rfl
        have otherHash : B.hashAddress o.address ≠ prev.addrHash := fun sameHash =>
          elsewhere (address ▸ injective sameHash)
        have destructs := GoMap.delete_of_ne s.snapDestructs otherHash
        exact .some (one.destructs rfl rfl destructs)

/-- A deleted object is looked up in the snapshot or the trie again. -/
theorem StateDB.peek_deleteObject (s : StateDB B) (account addr : Address)
    (marks : GoMap Address Unit)
    : { s with
          stateObjects := s.stateObjects.delete account,
          stateObjectsDirty := marks }.peek addr
      = if addr = account then s.stored addr else s.peek addr := by
  have found : (s.stateObjects.delete account).get addr
      = if addr = account then none else s.stateObjects.get addr :=
    GoMap.delete_apply _ _ _
  simp only [peek, found]
  split
  · exact stored_congr rfl rfl addr
  · exact congrArg _ (stored_congr rfl rfl addr)

/-- Deleting an account acts alike on them. -/
theorem StateDB.Same.deleteObject (same : Same s s') (account : Address)
    (marks marks' : GoMap Address Unit)
    : Same
        { s with stateObjects := s.stateObjects.delete account, stateObjectsDirty := marks }
        { s' with
          stateObjects := s'.stateObjects.delete account, stateObjectsDirty := marks' } := by
  refine { same with objects := fun addr => ?_ }
  rw [peek_deleteObject, peek_deleteObject]
  split
  · rw [stored_congr same.reads same.trie]
    exact objectRel_refl _ _
  · exact same.objects addr

/-- Reverting an entry acts alike on them. -/
theorem JournalEntry.revert_same (same : Same s s')
    (injective : B.Injective) (entry : JournalEntry B)
    : Option.Rel Same (entry.revert s) (entry.revert s') := by
  have snap : s'.snap = s.snap := congrArg Reads.snap same.reads
  cases entry with
  | createObject account => exact .some (same.deleteObject account _ _)
  | resetObject prev prevdestruct =>
    simp only [revert]
    have sameSnap : (s'.setStateObject prev).snap.isSome = (s.setStateObject prev).snap.isSome := by
      simp [setStateObject, snap]
    rw [sameSnap]
    split
    · exact .some (same.undoDestruct injective prev)
    · exact .some (same.setStateObject (.refl s.reads prev))
  | suicide account prev prevbalance =>
    obtain ⟨value, loaded, -⟩ := s.getStateObject_eq account
    obtain ⟨value', loaded', -⟩ := s'.getStateObject_eq account
    have live := same.live account
    have sameLoaded := same.loaded loaded loaded'
    have sameReads : (s.getStateObject account).2.reads = s.reads := loaded.same.reads
    rw [← value, ← value'] at live
    simp only [revert]
    generalize s.getStateObject account = result at live sameLoaded sameReads ⊢
    generalize s'.getStateObject account = result' at live sameLoaded ⊢
    obtain ⟨found, next⟩ := result
    obtain ⟨found', next'⟩ := result'
    cases live with
    | none => exact .some sameLoaded
    | some one =>
      refine .some (sameLoaded.setStateObject ?_)
      exact sameReads ▸ (one.setBalance prevbalance).setSuicided prev
  | balance account prev => exact same.changeObject account fun one => one.setBalance prev
  | nonce account prev => exact same.changeObject account fun one => one.setNonce prev
  | storage account key prevalue =>
    exact same.changeObject account fun one => one.setState key prevalue
  | code account prevcode prevhash =>
    exact same.changeObject account fun one => one.setCode prevhash prevcode
  | refund prev => exact .some { same with refund := rfl }
  | addLog txhash =>
    simp only [revert, same.logs, same.logSize]
    split
    · exact .none
    · exact .some { same with logs := rfl, logSize := rfl }
    · exact .some { same with logs := rfl, logSize := rfl }
  | addPreimage hash => exact .some { same with preimages := by simp [same.preimages] }
  | touch account => exact .some same
  | accessListAddAccount address =>
    exact .some { same with accessList := by simp [same.accessList] }
  | accessListAddSlot address slot =>
    simp only [revert, same.accessList]
    cases s.accessList.deleteSlot address slot with
    | none => exact .none
    | some al => exact .some { same with accessList := rfl }

/-- So does a whole rewind. -/
theorem journalLog_respects (injective : B.Injective)
    : UndoLog.Respects (journalLog B) Same where
  refl := Same.refl
  trans := Same.trans
  entries same := same.entries.symm
  undo {entry rest s s'} same _ := by
    have reverted := entry.revert_same same injective
    show Option.Rel _ (undoEntry entry s) (undoEntry entry s')
    unfold undoEntry
    generalize entry.revert s = next at reverted ⊢
    generalize entry.revert s' = next' at reverted ⊢
    cases reverted with
    | none => exact .none
    | some sameNext =>
      refine .some { sameNext with entries := ?_, dirties := ?_ }
      · rw [same.entries]
      · cases entry.dirtied with
        | none => exact same.dirties
        | some addr => exact same.dirties.decDirty addr

end GoBinacoin.State
