import GoBinacoin.State.Finalise
import GoBinacoin.State.Revert

/-! The states a client can get to, and that their bookkeeping is in order. -/

namespace GoBinacoin.State

open UndoLog StateDB

variable {B : Backend}

/-- Writing a slot to a trie leaves the ledger alone. -/
theorem updateSlot_ledger (acc : Object B × B.Trie × StateDB B) (key : Hash)
    : (updateSlot acc key).2.2.ledger = acc.2.2.ledger := by
  obtain ⟨o, tr, s⟩ := acc
  simp only [updateSlot]
  split
  · rfl
  · split
    · rfl
    · simp only
      split
      · rfl
      · rfl

theorem foldl_updateSlot_ledger (order : List Hash) (acc : Object B × B.Trie × StateDB B)
    : (order.foldl updateSlot acc).2.2.ledger = acc.2.2.ledger := by
  induction order generalizing acc with
  | nil => rfl
  | cons key order ih => exact (ih _).trans (updateSlot_ledger acc key)

variable (s : StateDB B) (order : SlotOrder) (o : Object B)

theorem StateDB.updateTrie_ledger : (s.updateTrie order o).2.2.ledger = s.ledger := by
  unfold updateTrie
  simp only
  split
  · rfl
  · exact foldl_updateSlot_ledger _ _

theorem StateDB.updateRoot_ledger : (s.updateRoot order o).ledger = s.ledger := by
  have kept := s.updateTrie_ledger order o
  unfold updateRoot
  generalize s.updateTrie order o = result at kept ⊢
  obtain ⟨trie, object, next⟩ := result
  cases trie with
  | none => exact kept
  | some trie => exact kept

/-- So does committing a trie. -/
theorem StateDB.commitTrie_ledger : (s.commitTrie order o).2.ledger = s.ledger := by
  have kept := s.updateTrie_ledger order o
  unfold commitTrie
  generalize s.updateTrie order o = result at kept ⊢
  obtain ⟨trie, object, next⟩ := result
  rcases trie with _ | trie
  · exact kept
  simp only
  split
  · exact kept
  · split
    · exact kept
    · exact kept

variable (deleteEmptyObjects : Bool) (slots : Address → List Hash)

/-- So does finalising one object. -/
theorem StateDB.finaliseObject_ledger (s : StateDB B) (addr : Address)
    : (s.finaliseObject deleteEmptyObjects slots addr).ledger = s.ledger := by
  unfold finaliseObject
  split
  · rfl
  · simp only
    split
    · split
      · rfl
      · rfl
    · rfl

theorem StateDB.foldl_finaliseObject_ledger (order : List Address) (s : StateDB B)
    : (order.foldl (finaliseObject deleteEmptyObjects slots) s).ledger = s.ledger := by
  induction order generalizing s with
  | nil => rfl
  | cons addr order ih => exact (ih _).trans (s.finaliseObject_ledger deleteEmptyObjects slots addr)

theorem StateDB.setError_ledger {ε : Type} (s : StateDB B) (err : Option ε)
    (wrap : ε → StateError B)
    : (err.elim s fun e => s.setError (wrap e)).ledger = s.ledger := by
  cases err with
  | none => rfl
  | some e => rfl

variable {s next : StateDB B} {order : List Address}

theorem StateDB.updateStateObject_ledger {o : Object B} (run : s.updateStateObject o = some next)
    : next.ledger = s.ledger := by
  obtain ⟨data, -, rfl⟩ := Option.map_eq_some_iff.mp run
  simp only
  split
  · exact setError_ledger _ _ _
  · exact setError_ledger _ _ _

/-- So does updating the roots, by induction on the accounts. -/
theorem StateDB.updateRoots_ledger {slots : Address → SlotOrder}
    (run : s.updateRoots slots order = some next)
    : next.ledger = s.ledger := by
  induction order generalizing s with
  | nil => exact Option.some.inj run ▸ rfl
  | cons addr order ih =>
    unfold updateRoots at run
    split at run
    · cases run
    · rw [ih run]
      split
      · rfl
      · exact s.updateRoot_ledger _ _

/-- So does writing the accounts. -/
theorem StateDB.writeObjects_ledger (run : s.writeObjects order = some next)
    : next.ledger = s.ledger := by
  induction order generalizing s with
  | nil => exact Option.some.inj run ▸ rfl
  | cons addr order ih =>
    unfold writeObjects at run
    split at run
    · cases run
    · obtain ⟨middle, first, rest⟩ := Option.bind_eq_some_iff.mp run
      rw [ih rest]
      split at first
      · rw [← Option.some.inj first]
        exact setError_ledger _ _ _
      · exact updateStateObject_ledger first

/-- So does committing the accounts. -/
theorem StateDB.commitObjects_ledger {slots : Address → SlotOrder}
    {writes written : List (Hash × Bytes)} {err : Option (CommitError B)}
    (run : s.commitObjects slots writes order = some (err, written, next))
    : next.ledger = s.ledger := by
  induction order generalizing s writes with
  | nil => cases run; rfl
  | cons addr order ih =>
    unfold commitObjects at run
    split at run
    · cases run
    · split at run
      · exact ih run
      · simp only at run
        split at run
        · rename_i result
          have kept := congrArg (fun pair => pair.2.ledger) result
          rw [commitTrie_ledger] at kept
          cases run
          exact kept.symm
        · rename_i result
          have kept := congrArg (fun pair => pair.2.ledger) result
          rw [commitTrie_ledger] at kept
          exact (ih run).trans kept.symm

theorem StateDB.intermediateRoot_ledger {order : StateOrder}
    {deleteEmptyObjects : Bool} {root : Hash}
    (run : s.intermediateRoot order deleteEmptyObjects = some (root, next))
    : next.ledger = (s.finalise order deleteEmptyObjects).ledger := by
  obtain ⟨middle, roots, rest⟩ := Option.bind_eq_some_iff.mp run
  obtain ⟨written, writes, result⟩ := Option.map_eq_some_iff.mp rest
  cases result
  exact (writeObjects_ledger writes).trans (updateRoots_ledger roots)

/-- A commit finalises, unless an earlier error stops it at once. -/
theorem StateDB.commit_ledger {order : StateOrder}
    {deleteEmptyObjects : Bool} {result : Except (CommitError B) Hash}
    (run : s.commit order deleteEmptyObjects = some (result, next))
    : next.ledger = s.ledger ∨ next.ledger = (s.finalise order deleteEmptyObjects).ledger := by
  unfold commit at run
  split at run
  · cases run
    exact .inl rfl
  · obtain ⟨⟨root, middle⟩, roots, rest⟩ := Option.bind_eq_some_iff.mp run
    obtain ⟨⟨err, writes, written⟩, objects, final⟩ := Option.map_eq_some_iff.mp rest
    have kept := (commitObjects_ledger objects).trans (intermediateRoot_ledger roots)
    refine .inr ?_
    rcases err with _ | err
    · simp only [Prod.mk.injEq] at final
      rw [← final.2, ← kept]
      split
      · rfl
      · rfl
    · cases final
      exact kept

/-- What a client can get: a new state, changed by any of the operations, with the maps visited
in any order.
-/
inductive Reachable : StateDB B → Prop where
  | new (db : B.Db) (root : Hash) (trie : B.Trie) (snap : Option B.Snap)
    : Reachable (new db root trie snap)
  | op {s next : StateDB B} (op : Op) : Reachable s → op.run s = some next → Reachable next
  | setStorage {s : StateDB B} (addr : Address) (storage : List (Hash × Hash))
    : Reachable s → Reachable (s.setStorage addr storage)
  | prepare {s : StateDB B} (thash : Hash) (ti : UInt64)
    : Reachable s → Reachable (s.prepare thash ti)
  | finalise {s : StateDB B} (order : StateOrder) (deleteEmptyObjects : Bool)
    : Reachable s → Reachable (s.finalise order deleteEmptyObjects)
  | intermediateRoot {s next : StateDB B} (order : StateOrder) (deleteEmptyObjects : Bool)
    (root : Hash)
    : Reachable s → s.intermediateRoot order deleteEmptyObjects = some (root, next)
      → Reachable next
  | commit {s next : StateDB B} (order : StateOrder) (deleteEmptyObjects : Bool)
    (result : Except (CommitError B) Hash)
    : Reachable s → s.commit order deleteEmptyObjects = some (result, next) → Reachable next
  | copy {s : StateDB B} : Reachable s → Reachable s.copy

theorem newJournal_dirties (addr : Address) (count : Int)
    (present : (newJournal : Journal B).dirties addr = some count)
    : 0 < count := by
  cases present

/-- The bookkeeping is in order as soon as nothing can be reverted. -/
theorem StateDB.Ok.of_empty (entries : s.journal.entries = [])
    (revisions : s.validRevisions = []) (wf : s.ledger.WellFormed)
    : s.Ok where
  sane := .of_empty entries wf
  revisions := by
    have none : s.ledger.validRevisions = [] := revisions
    refine ⟨?_, ?_, ?_⟩
    · rw [none]
      exact .nil
    · simp [none]
    · simp [none]

theorem StateDB.Ok.of_ledger (ok : s.Ok) (ledger : next.ledger = s.ledger)
    : next.Ok where
  sane := by
    show Ledger.Sane next.ledger
    rw [ledger]
    exact ok.sane
  revisions := ledger ▸ ok.revisions

/-- Finalising clears the journal and the revisions. -/
theorem StateDB.finalise_ok (ok : s.Ok) (order : StateOrder) (deleteEmptyObjects : Bool)
    : (s.finalise order deleteEmptyObjects).Ok := by
  have kept := s.foldl_finaliseObject_ledger deleteEmptyObjects order.finaliseSlots
    order.journalDirties
  have wf := kept.symm ▸ ok.sane.now
  unfold finalise
  generalize order.journalDirties.foldl _ s = visited at wf ⊢
  unfold clearJournalAndRefund
  simp only
  split
  · rename_i empty
    exact .of_empty (List.isEmpty_iff.mp empty) rfl ⟨wf.accessList, wf.dirties, wf.logs⟩
  · exact .of_empty rfl rfl ⟨wf.accessList, newJournal_dirties, wf.logs⟩

theorem StateDB.prepare_ok (ok : s.Ok) (thash : Hash) (ti : UInt64)
    : (s.prepare thash ti).Ok where
  sane := Ledger.Sane.newAccessList ok.sane
  revisions := ⟨ok.revisions.ascending, ok.revisions.fresh, ok.revisions.bounded⟩

theorem StateDB.copy_ok (ok : s.Ok) : s.copy.Ok := by
  have wf := ok.sane.now
  exact .of_empty rfl rfl ⟨wf.accessList, newJournal_dirties, wf.logs⟩

/-- Every operation keeps the state sound. -/
theorem Op.run_ok (injective : B.Injective) (ok : s.Ok) {op : Op} (run : op.run s = some next)
    : next.Ok := by
  rcases kind : op.isRevision with _ | _
  · exact (op.run_recorded injective ok.sane kind run).ok ok
  · cases op with
    | snapshot => exact Option.some.inj run ▸ snapshot_ok ok
    | revertToSnapshot revid => exact revertToSnapshot_keepsOk ok run
    | _ => cases kind

/-- Every reachable state is sound, by induction on how it is reached. -/
theorem Reachable.ok (injective : B.Injective) (reachable : Reachable s) : s.Ok := by
  induction reachable with
  | new db root trie snap =>
    refine .of_empty rfl rfl ⟨newAccessList_wellFormed, newJournal_dirties, ?_⟩
    intro hash present
    cases present
  | op op _ run ih => exact op.run_ok injective ih run
  | @setStorage s addr storage _ ih =>
    have acquired := s.getOrNewStateObject_acquired injective ih.sane addr
    exact (acquired.recorded.ok ih).of_ledger rfl
  | prepare thash ti _ ih => exact prepare_ok ih thash ti
  | finalise order deleteEmptyObjects _ ih => exact finalise_ok ih order _
  | intermediateRoot order deleteEmptyObjects root _ run ih =>
    exact (finalise_ok ih order _).of_ledger (intermediateRoot_ledger run)
  | commit order deleteEmptyObjects result _ run ih =>
    rcases commit_ledger run with kept | finalised
    · exact ih.of_ledger kept
    · exact (finalise_ok ih order _).of_ledger finalised
  | copy _ ih => exact copy_ok ih

end GoBinacoin.State
