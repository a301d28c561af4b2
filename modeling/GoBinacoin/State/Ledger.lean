import GoBinacoin.State.Same

/-! The bookkeeping of a state: the parts on which reverting relies whatever the objects hold.
It has an undo log of its own, which the journal follows step by step.
-/

namespace GoBinacoin.State

open UndoLog

variable {B : Backend}

structure Ledger (B : Backend) where
  accessList : AccessList
  logs : GoMap Hash (List Log)
  journal : Journal B
  validRevisions : List Revision
  nextRevisionId : Nat

def StateDB.ledger (s : StateDB B) : Ledger B :=
  {
    accessList := s.accessList
    logs := s.logs
    journal := s.journal
    validRevisions := s.validRevisions
    nextRevisionId := s.nextRevisionId
  }

/-- What reverting an entry does to access list and logs. -/
def JournalEntry.revertLedger (l : Ledger B) : JournalEntry B → Option (Ledger B)
  | .addLog txhash =>
      match (l.logs txhash).getD [] with
      | [] => none
      | [_] => some { l with logs := l.logs.delete txhash }
      | logs => some { l with logs := l.logs.set txhash logs.dropLast }
  | .accessListAddAccount address =>
      some { l with accessList := l.accessList.deleteAddress address }
  | .accessListAddSlot address slot =>
      (l.accessList.deleteSlot address slot).map fun al => { l with accessList := al }
  | _ => some l

def Ledger.undoEntry (entry : JournalEntry B) (l : Ledger B) : Option (Ledger B) :=
  (entry.revertLedger l).map fun next =>
    { next with
      journal := {
        entries := l.journal.entries.tail
        dirties := entry.dirtied.elim l.journal.dirties (decDirty l.journal.dirties)
      } }

def ledgerLog (B : Backend) : System (Ledger B) (JournalEntry B) where
  entries l := l.journal.entries
  undo := Ledger.undoEntry
  undo_entries := by
    intro entry rest ledger next head run
    obtain ⟨middle, _, rfl⟩ := Option.map_eq_some_iff.mp run
    simp [head]

variable {s next : StateDB B} {entry : JournalEntry B}

theorem StateDB.Loaded.ledger (loaded : Loaded s next) : next.ledger = s.ledger := by
  obtain ⟨_, _, rfl⟩ := loaded.state
  rfl

theorem StateDB.changeObject_ledger {addr : Address}
    {change : Object B → Object B} (run : s.changeObject addr change = some next)
    : next.ledger = s.ledger := by
  have loaded := (s.getStateObject_eq addr).2.1.ledger
  unfold changeObject at run
  generalize s.getStateObject addr = result at loaded run
  obtain ⟨found, middle⟩ := result
  cases found with
  | none => cases run
  | some o => exact (Option.some.inj run) ▸ loaded

/-- An entry acts on the ledger alone as it does on the state. -/
theorem JournalEntry.revert_ledger (run : entry.revert s = some next)
    : entry.revertLedger s.ledger = some next.ledger := by
  cases entry with
  | createObject account => exact (Option.some.inj run) ▸ rfl
  | resetObject prev prevdestruct =>
    rw [← Option.some.inj run]
    show some s.ledger = _
    split <;> rfl
  | suicide account prev prevbalance =>
    have loaded := (s.getStateObject_eq account).2.1.ledger
    simp only [revert] at run
    generalize s.getStateObject account = result at loaded run
    obtain ⟨found, middle⟩ := result
    cases found with
    | none => exact congrArg some ((Option.some.inj run) ▸ loaded.symm)
    | some o => exact congrArg some ((Option.some.inj run) ▸ loaded.symm)
  | balance account prev => exact congrArg some (StateDB.changeObject_ledger run).symm
  | nonce account prev => exact congrArg some (StateDB.changeObject_ledger run).symm
  | storage account key prevalue => exact congrArg some (StateDB.changeObject_ledger run).symm
  | code account prevcode prevhash => exact congrArg some (StateDB.changeObject_ledger run).symm
  | refund prev => exact (Option.some.inj run) ▸ rfl
  | addLog txhash =>
    simp only [revert] at run
    show (match (s.logs txhash).getD [] with
      | [] => none
      | [_] => some { s.ledger with logs := s.logs.delete txhash }
      | logs => some { s.ledger with logs := s.logs.set txhash logs.dropLast }) = _
    generalize (s.logs txhash).getD [] = logs at run ⊢
    rcases logs with _ | ⟨_, _ | _⟩
    · cases run
    · exact (Option.some.inj run) ▸ rfl
    · exact (Option.some.inj run) ▸ rfl
  | addPreimage hash => exact (Option.some.inj run) ▸ rfl
  | touch account => exact (Option.some.inj run) ▸ rfl
  | accessListAddAccount address => exact (Option.some.inj run) ▸ rfl
  | accessListAddSlot address slot =>
    obtain ⟨al, deleted, rfl⟩ := Option.map_eq_some_iff.mp run
    have sameList : s.ledger.accessList = s.accessList := rfl
    simp only [revertLedger, sameList, deleted, Option.map_some]
    rfl

theorem StateDB.undoEntry_ledger (run : s.undoEntry entry = some next)
    : s.ledger.undoEntry entry = some next.ledger := by
  obtain ⟨middle, reverted, rfl⟩ := Option.map_eq_some_iff.mp run
  simp only [Ledger.undoEntry, JournalEntry.revert_ledger reverted, Option.map_some]
  rfl

variable {l : Ledger B} {count : Nat}

/-- So do all entries of a rewind. -/
theorem journalLog_rewind_ledger (run : (journalLog B).rewind count s = some next)
    : (ledgerLog B).rewind count s.ledger = some next.ledger := by
  induction count generalizing s with
  | zero => exact (Option.some.inj run) ▸ rfl
  | succ count ih =>
    rcases head : s.journal.entries with _ | ⟨entry, rest⟩
    · have : (journalLog B).entries s = [] := head
      simp [System.rewind, this] at run
    rw [System.rewind_succ count (show (journalLog B).entries s = _ from head)] at run
    obtain ⟨middle, undone, later⟩ := Option.bind_eq_some_iff.mp run
    rw [System.rewind_succ count (show (ledgerLog B).entries s.ledger = _ from head)]
    have ledgerUndone : (ledgerLog B).undo entry s.ledger = some middle.ledger :=
      StateDB.undoEntry_ledger undone
    rw [ledgerUndone, Option.bind_some, ih later]

/-- Reverting an entry leaves the revisions alone. -/
theorem JournalEntry.revertLedger_revisions {next : Ledger B}
    (run : entry.revertLedger l = some next)
    : next.validRevisions = l.validRevisions ∧ next.nextRevisionId = l.nextRevisionId := by
  cases entry with
  | addLog txhash =>
    simp only [revertLedger] at run
    split at run
    · cases run
    · exact (Option.some.inj run) ▸ ⟨rfl, rfl⟩
    · exact (Option.some.inj run) ▸ ⟨rfl, rfl⟩
  | accessListAddSlot address slot =>
    obtain ⟨al, -, rfl⟩ := Option.map_eq_some_iff.mp run
    exact ⟨rfl, rfl⟩
  | _ => exact (Option.some.inj run) ▸ ⟨rfl, rfl⟩

/-- So does a rewind. -/
theorem ledgerLog_rewind_revisions {next : Ledger B}
    (run : (ledgerLog B).rewind count l = some next)
    : next.validRevisions = l.validRevisions ∧ next.nextRevisionId = l.nextRevisionId := by
  induction count generalizing l with
  | zero => exact (Option.some.inj run) ▸ ⟨rfl, rfl⟩
  | succ count ih =>
    rcases head : (ledgerLog B).entries l with _ | ⟨entry, rest⟩
    · simp [System.rewind, head] at run
    rw [System.rewind_succ count head] at run
    obtain ⟨middle, undone, later⟩ := Option.bind_eq_some_iff.mp run
    obtain ⟨reverted, revert, rfl⟩ := Option.map_eq_some_iff.mp undone
    obtain ⟨revisions, nextId⟩ := JournalEntry.revertLedger_revisions revert
    obtain ⟨laterRevisions, laterId⟩ := ih later
    exact ⟨laterRevisions.trans revisions, laterId.trans nextId⟩

/-- What the entries rely on: slot sets in use are not empty, counts are positive, and there
are no empty lists of logs.
-/
structure Ledger.WellFormed (l : Ledger B) : Prop where
  accessList : l.accessList.WellFormed
  dirties : ∀ addr count, l.journal.dirties addr = some count → 0 < count
  logs : ∀ hash, l.logs hash ≠ some []

/-- Equal bookkeeping, up to revisions and a surplus at the precompile 0x03. -/
structure Ledger.Same (l l' : Ledger B) : Prop where
  accessList : l'.accessList = l.accessList
  logs : l'.logs = l.logs
  entries : l'.journal.entries = l.journal.entries
  dirties : DirtySame l.journal.dirties l'.journal.dirties

theorem StateDB.Same.ledger {s' : StateDB B} (same : Same s s') : Ledger.Same s.ledger s'.ledger :=
  ⟨same.accessList, same.logs, same.entries, same.dirties⟩

/-- Entries act alike on equal ledgers. -/
theorem ledgerLog_respects : Respects (ledgerLog B) Ledger.Same where
  refl l := ⟨rfl, rfl, rfl, .refl _⟩
  trans first second :=
    ⟨second.accessList.trans first.accessList, second.logs.trans first.logs,
      second.entries.trans first.entries, first.dirties.trans second.dirties⟩
  entries same := same.entries.symm
  undo {entry rest l l'} same _ := by
    show Option.Rel _ (Ledger.undoEntry entry l) (Ledger.undoEntry entry l')
    have dirties : DirtySame (entry.dirtied.elim l.journal.dirties (decDirty l.journal.dirties))
        (entry.dirtied.elim l'.journal.dirties (decDirty l'.journal.dirties)) := by
      cases entry.dirtied with
      | none => exact same.dirties
      | some addr => exact same.dirties.decDirty addr
    have reverted : Option.Rel (fun next next' =>
          next'.accessList = next.accessList ∧ next'.logs = next.logs)
        (entry.revertLedger l) (entry.revertLedger l') := by
      unfold JournalEntry.revertLedger
      cases entry with
      | addLog txhash =>
        simp only [same.logs]
        split
        · exact .none
        · exact .some ⟨same.accessList, rfl⟩
        · exact .some ⟨same.accessList, rfl⟩
      | accessListAddAccount address => exact .some ⟨by simp [same.accessList], same.logs⟩
      | accessListAddSlot address slot =>
        simp only [same.accessList]
        cases l.accessList.deleteSlot address slot with
        | none => exact .none
        | some al => exact .some ⟨rfl, same.logs⟩
      | _ => exact .some ⟨same.accessList, same.logs⟩
    unfold Ledger.undoEntry
    generalize entry.revertLedger l = next at reverted ⊢
    generalize entry.revertLedger l' = next' at reverted ⊢
    cases reverted with
    | none => exact .none
    | some equal => exact .some ⟨equal.1, equal.2, by rw [same.entries], dirties⟩

/-- An equal ledger is well formed too. -/
theorem Ledger.WellFormed.transport {l' : Ledger B} (same : Ledger.Same l l') (wf : l.WellFormed)
    : l'.WellFormed where
  accessList := same.accessList ▸ wf.accessList
  dirties addr count present := by
    rcases eq_or_ne addr ripemd with special | ordinary
    · subst special
      have start : l.journal.dirties ripemd ≠ some 0 := fun zero =>
        absurd (wf.dirties ripemd 0 zero) (lt_irrefl 0)
      have nonzero := same.dirties.nonzero start
      have nonneg : 0 ≤ dirtyCount l.journal.dirties ripemd := by
        unfold dirtyCount
        cases found : l.journal.dirties ripemd with
        | none => exact le_rfl
        | some n => exact (wf.dirties ripemd n found).le
      have surplus := same.dirties.surplus
      rw [dirtyCount, dirtyCount, present, Option.getD_some] at surplus
      rw [dirtyCount] at nonneg
      refine lt_of_le_of_ne (nonneg.trans surplus) fun zero => nonzero ?_
      rw [present, ← zero]
    · rw [same.dirties.others addr ordinary] at present
      exact wf.dirties addr count present
  logs hash := same.logs ▸ wf.logs hash

/-- Well-formed now and after any number of reverted entries. -/
abbrev Ledger.Sane (l : Ledger B) : Prop := Persistent (ledgerLog B) WellFormed l

/-- Where an entry can be reverted over an empty access list, it can be reverted over any, and
the empty list stays empty.
-/
theorem Ledger.undoEntry_newAccessList {next : Ledger B}
    (run : undoEntry entry { l with accessList := newAccessList } = some next)
    : ∃ old, l.undoEntry entry = some old ∧ next = { old with accessList := newAccessList } := by
  obtain ⟨reverted, revert, rfl⟩ := Option.map_eq_some_iff.mp run
  unfold undoEntry
  cases entry with
  | addLog txhash =>
    simp only [JournalEntry.revertLedger] at revert ⊢
    generalize (l.logs txhash).getD [] = logs at revert ⊢
    rcases logs with _ | ⟨_, _ | _⟩
    · cases revert
    · rw [← Option.some.inj revert]
      exact ⟨_, rfl, rfl⟩
    · rw [← Option.some.inj revert]
      exact ⟨_, rfl, rfl⟩
  | accessListAddAccount address =>
    rw [← Option.some.inj revert]
    refine ⟨_, rfl, ?_⟩
    have stays : (newAccessList.addresses.delete address) = newAccessList.addresses := by
      funext other
      simp [newAccessList, GoMap.delete_apply]
    simp [AccessList.deleteAddress, stays]
  | accessListAddSlot address slot =>
    simp [JournalEntry.revertLedger, AccessList.deleteSlot, newAccessList] at revert
  | _ =>
    rw [← Option.some.inj revert]
    exact ⟨_, rfl, rfl⟩

/-- A new access list stays empty while older entries are reverted: adding a slot cannot be
reverted there at all. Induction on the number of reverted entries.
-/
theorem Ledger.Sane.newAccessList (sane : l.Sane)
    : Ledger.Sane { l with accessList := newAccessList } := by
  intro count next run
  induction count generalizing l with
  | zero =>
    rw [← Option.some.inj run]
    exact ⟨newAccessList_wellFormed, sane.now.dirties, sane.now.logs⟩
  | succ count ih =>
    rcases head : l.journal.entries with _ | ⟨entry, rest⟩
    · have empty : (ledgerLog B).entries { l with accessList := State.newAccessList } = [] :=
        head
      simp [System.rewind, empty] at run
    · rw [System.rewind_succ count
        (show (ledgerLog B).entries { l with accessList := State.newAccessList } = _ from head)]
        at run
      obtain ⟨middle, undone, later⟩ := Option.bind_eq_some_iff.mp run
      obtain ⟨old, oldUndone, rfl⟩ := Ledger.undoEntry_newAccessList undone
      have oldRun : (ledgerLog B).rewind 1 l = some old := by
        rw [System.rewind_succ 0 (show (ledgerLog B).entries l = _ from head)]
        show (Ledger.undoEntry entry l).bind _ = _
        rw [oldUndone]
        rfl
      exact ih (sane.rewind oldRun) later

/-- Revisions ascend, in id and in journal index, and lie within the journal. -/
structure Ledger.RevisionsOk (l : Ledger B) : Prop where
  ascending
    : l.validRevisions.Pairwise fun a b => a.id < b.id ∧ a.journalIndex ≤ b.journalIndex
  fresh : ∀ revision ∈ l.validRevisions, revision.id < l.nextRevisionId
  bounded : ∀ revision ∈ l.validRevisions, revision.journalIndex ≤ l.journal.size

end GoBinacoin.State
