import GoBinacoin.State.Journaled

/-! Runs of operations between a snapshot and its revert. -/

namespace GoBinacoin.State

open UndoLog StateDB

variable {B : Backend}

variable {α : Type} {read : Object B → α × Object B}

/-- A getter that keeps objects the same reads the live object and records nothing. -/
theorem StateDB.readObject_eq (s : StateDB B) (addr : Address) (absent : α)
    (keeps : ∀ o, Object.Same s.reads o (read o).2)
    : (s.readObject addr absent read).1 = (s.live addr).elim absent (fun o => (read o).1)
      ∧ Same s (s.readObject addr absent read).2
      ∧ (s.readObject addr absent read).2.ledger = s.ledger := by
  obtain ⟨value, loaded, stored⟩ := s.getStateObject_eq addr
  unfold readObject
  rw [← value]
  generalize s.getStateObject addr = result at value loaded stored ⊢
  obtain ⟨found, middle⟩ := result
  rcases found with _ | o
  · exact ⟨rfl, loaded.same, loaded.ledger⟩
  have peeked : middle.peek addr = some o := by
    have live : s.live addr = some o := value.symm
    rw [loaded.peek]
    exact (Option.filter_eq_some_iff.mp live).1
  have sameReads : middle.reads = s.reads := loaded.same.reads
  exact ⟨rfl, loaded.same.trans (Same.replace peeked (sameReads ▸ keeps o)), loaded.ledger⟩

variable (reads : Reads B) (o : Object B)
include reads

theorem Object.getState_same (key : Hash) : Same reads o (o.getState reads key).2 := by
  rcases fake : o.fakeStorage with _ | storage
  · exact (o.getState_eq reads fake key).2.same
  · simp only [getState, fake]
    exact .refl reads o

theorem Object.getCommittedState_same (key : Hash)
    : Same reads o (o.getCommittedState reads key).2 := by
  rcases fake : o.fakeStorage with _ | storage
  · exact (o.getCommittedState_eq reads fake key).2.same
  · simp only [getCommittedState, fake]
    exact .refl reads o

theorem Object.getCodeSize_same : Same reads o (o.getCodeSize reads.db).2 := by
  unfold getCodeSize
  rcases o.code with _ | code
  · simp only
    split
    · exact .refl reads o
    · exact (o.elim_setError_recached reads _ _).same
  · exact .refl reads o

omit reads

/-- `Snapshot` and `RevertToSnapshot`. -/
def Op.isRevision : Op → Bool
  | .snapshot => true
  | .revertToSnapshot _ => true
  | _ => false

variable {s next start : StateDB B} {id : Nat}

theorem StateDB.readObject_recorded (injective : B.Injective)
    (sane : s.Sane) (addr : Address) (absent : α) (keeps : ∀ o, Object.Same s.reads o (read o).2)
    : Recorded s (s.readObject addr absent read).2 := by
  obtain ⟨-, same, ledger⟩ := s.readObject_eq addr absent keeps
  exact .of_same injective sane same (congrArg Ledger.validRevisions ledger)
    (congrArg Ledger.nextRevisionId ledger)

variable {op : Op} {revid : Nat} {revision : Revision}

/-- Every operation but the two on revisions is recorded. -/
theorem Op.run_recorded (injective : B.Injective)
    (sane : s.Sane) (plain : op.isRevision = false) (run : op.run s = some next)
    : Recorded s next := by
  have made {made : StateDB B} (recorded : Recorded s made) (run : some made = some next)
      : Recorded s next :=
    Option.some.inj run ▸ recorded
  have read {α : Type} {addr : Address} {absent : α} {read : Object B → α × Object B}
      (keeps : ∀ o, Object.Same s.reads o (read o).2)
      : some (s.readObject addr absent read).2 = some next → Recorded s next :=
    made (readObject_recorded injective sane addr absent keeps)
  cases op with
  | addBalance addr amount => exact made (s.addBalance_recorded injective sane addr amount) run
  | subBalance addr amount => exact made (s.subBalance_recorded injective sane addr amount) run
  | setBalance addr amount => exact made (s.setBalance_recorded injective sane addr amount) run
  | setNonce addr nonce => exact made (s.setNonce_recorded injective sane addr nonce) run
  | setCode addr code => exact made (s.setCode_recorded injective sane addr code) run
  | setState addr key value => exact made (s.setState_recorded injective sane addr key value) run
  | suicide addr => exact made (s.suicide_recorded injective sane addr) run
  | createAccount addr => exact made (s.createAccount_recorded injective sane addr) run
  | addLog log => exact made (s.addLog_recorded sane log) run
  | addPreimage hash image => exact made (s.addPreimage_recorded injective sane hash image) run
  | addRefund gas => exact made (s.addRefund_recorded sane gas) run
  | subRefund gas => exact subRefund_recorded sane run
  | addAddressToAccessList addr =>
    exact made (s.addAddressToAccessList_recorded injective sane addr) run
  | addSlotToAccessList addr slot => exact addSlotToAccessList_recorded injective sane run
  | snapshot | revertToSnapshot => cases plain
  | exist | empty | getBalance | getNonce | getCodeHash | hasSuicided =>
    exact read (fun o => .refl _ o) run
  | getCode addr => exact read (fun o => (o.getCode_eq s.reads).2.same) run
  | getCodeSize addr => exact read (fun o => o.getCodeSize_same s.reads) run
  | getState addr key => exact read (fun o => o.getState_same s.reads key) run
  | getCommittedState addr key => exact read (fun o => o.getCommittedState_same s.reads key) run

theorem journalLog_rewindTo_revisions {mark : Nat}
    (run : (journalLog B).rewindTo mark s = some next)
    : next.validRevisions = s.validRevisions ∧ next.nextRevisionId = s.nextRevisionId :=
  ledgerLog_rewind_revisions (journalLog_rewind_ledger run)

theorem StateDB.same_setRevisions (s : StateDB B) (revisions : List Revision) (nextId : Nat)
    : Same s { s with validRevisions := revisions, nextRevisionId := nextId } :=
  { Same.refl s with objects := fun _ => objectRel_refl _ _ }

/-- Reverting finds the first revision that is not older, and it is the one asked for. -/
theorem StateDB.revertToSnapshot_ok (run : s.revertToSnapshot revid = some next)
    : ∃ idx revision middle,
        s.validRevisions[idx]? = some revision
        ∧ (∀ earlier, ∀ found ∈ s.validRevisions[earlier]?, earlier < idx → found.id < revid)
        ∧ revision.id = revid
        ∧ (journalLog B).rewindTo revision.journalIndex s = some middle
        ∧ next = { middle with validRevisions := s.validRevisions.take idx } := by
  unfold revertToSnapshot at run
  simp only at run
  split at run
  · cases run
  · rename_i revision found
    split at run
    · cases run
    · rename_i sameId
      obtain ⟨middle, rewound, rfl⟩ := Option.map_eq_some_iff.mp run
      refine ⟨_, revision, middle, found, ?_, not_not.mp sameId, rewound, ?_⟩
      · intro earlier other present before
        obtain ⟨bound, value⟩ := List.getElem?_eq_some_iff.mp present
        have notYet := List.not_of_lt_findIdx before
        simp only [value] at notYet
        simpa using notYet
      · rw [(journalLog_rewindTo_revisions rewound).1]

/-- A revision whose id is the smallest that is not below `revid` is found. -/
theorem StateDB.revertToSnapshot_eq {middle : StateDB B} {before after : List Revision}
    (revisions : s.validRevisions = before ++ revision :: after)
    (earlier : ∀ other ∈ before, other.id < revision.id)
    (rewound : (journalLog B).rewindTo revision.journalIndex s = some middle)
    : s.revertToSnapshot revision.id = some { middle with validRevisions := before } := by
  have idx : (s.validRevisions.findIdx fun other => other.id ≥ revision.id) = before.length := by
    have none : ¬ ∃ other, other ∈ before ∧ decide (other.id ≥ revision.id) = true := by
      rintro ⟨other, member, above⟩
      have below := earlier other member
      simp only [decide_eq_true_eq] at above
      omega
    rw [revisions, List.findIdx_append, if_neg (List.findIdx_lt_length.not.mpr none),
      List.findIdx_cons]
    simp
  have found : s.validRevisions[before.length]? = some revision := by simp [revisions]
  unfold revertToSnapshot
  simp only [idx, found, rewound]
  rw [if_neg (not_not.mpr rfl), Option.map_some, (journalLog_rewindTo_revisions rewound).1,
    revisions, List.take_left]

/-- Bookkeeping of a reachable state. -/
structure StateDB.Ok (s : StateDB B) : Prop where
  sane : s.Sane
  revisions : s.ledger.RevisionsOk

/-- What is recorded keeps the state sound. -/
theorem Recorded.ok (recorded : Recorded s next) (ok : s.Ok)
    : next.Ok where
  sane := recorded.sane
  revisions := by
    have longer : s.journal.size ≤ next.journal.size := recorded.undoable.1
    obtain ⟨ascending, fresh, bounded⟩ := ok.revisions
    refine ⟨?_, ?_, ?_⟩
    · show next.validRevisions.Pairwise _
      rw [recorded.revisions]
      exact ascending
    · show ∀ revision ∈ next.validRevisions, revision.id < next.nextRevisionId
      rw [recorded.revisions, recorded.nextId]
      exact fresh
    · show ∀ revision ∈ next.validRevisions, revision.journalIndex ≤ next.journal.size
      rw [recorded.revisions]
      exact fun revision member => (bounded revision member).trans longer

/-- A snapshot keeps the state sound. -/
theorem StateDB.snapshot_ok (ok : s.Ok) : s.snapshot.2.Ok where
  sane := Persistent.of_related ledgerLog_respects Ledger.WellFormed.transport ok.sane
    (s.same_setRevisions _ _).ledger
  revisions := by
    obtain ⟨ascending, fresh, bounded⟩ := ok.revisions
    refine ⟨?_, ?_, ?_⟩
    · refine List.pairwise_append.mpr ⟨ascending, List.pairwise_singleton _ _, ?_⟩
      intro older member newer isNewest
      rw [List.mem_singleton.mp isNewest]
      exact ⟨fresh older member, bounded older member⟩
    · intro revision member
      rcases List.mem_append.mp member with older | newest
      · exact Nat.lt_succ_of_lt (fresh revision older)
      · rw [List.mem_singleton.mp newest]
        exact Nat.lt_succ_self _
    · intro revision member
      rcases List.mem_append.mp member with older | newest
      · exact bounded revision older
      · rw [List.mem_singleton.mp newest]
        exact le_rfl

/-- So does reverting to one. -/
theorem StateDB.revertToSnapshot_keepsOk (ok : s.Ok) (run : s.revertToSnapshot revid = some next)
    : next.Ok := by
  obtain ⟨idx, revision, middle, found, -, -, rewound, rfl⟩ := revertToSnapshot_ok run
  obtain ⟨ascending, fresh, bounded⟩ := ok.revisions
  have member := List.mem_of_getElem? found
  have depth : middle.journal.size = revision.journalIndex :=
    System.rewindTo_depth (bounded revision member) rewound
  have nextId := (journalLog_rewindTo_revisions rewound).2
  refine ⟨?_, ?_, ?_, ?_⟩
  · have middleSane : middle.Sane := ok.sane.rewind (journalLog_rewind_ledger rewound)
    exact Persistent.of_related ledgerLog_respects Ledger.WellFormed.transport middleSane
      (middle.same_setRevisions _ middle.nextRevisionId).ledger
  · exact ascending.sublist (List.take_sublist _ _)
  · intro other otherMember
    show other.id < middle.nextRevisionId
    rw [nextId]
    exact fresh other (List.mem_of_mem_take otherMember)
  · intro other otherMember
    show other.journalIndex ≤ middle.journal.size
    obtain ⟨bound, value⟩ := List.getElem?_eq_some_iff.mp found
    obtain ⟨earlier, earlierBound, rfl⟩ := List.mem_take_iff_getElem.mp otherMember
    rw [depth, ← value]
    exact (List.pairwise_iff_getElem.mp ascending earlier idx _ bound (by omega)).2

/-- `s` was reached from `start`, whose snapshot `id` is still valid. -/
structure Since (start : StateDB B) (id : Nat) (s : StateDB B) : Prop where
  undoable : Undoable (journalLog B) Same start s
  ok : s.Ok
  revisions
    : ∃ later,
        s.validRevisions
          = start.validRevisions ++ { id := id, journalIndex := start.journal.size } :: later

theorem Since.snapshot (injective : B.Injective) (ok : s.Ok)
    : Since s s.snapshot.1 s.snapshot.2 where
  undoable := .of_related (journalLog_respects injective) (s.same_setRevisions _ _)
  ok := snapshot_ok ok
  revisions := ⟨[], rfl⟩

/-- A revision with a larger id lies behind the snapshot, in the list and in the journal. -/
theorem Since.newer {idx : Nat}
    (since : Since start id s) (found : s.validRevisions[idx]? = some revision)
    (larger : id < revision.id)
    : start.validRevisions.length < idx ∧ start.journal.size ≤ revision.journalIndex := by
  obtain ⟨later, revisions⟩ := since.revisions
  have ascending : s.validRevisions.Pairwise _ := since.ok.revisions.ascending
  rw [revisions] at ascending found
  have bounds := List.pairwise_append.mp ascending
  rcases Nat.lt_trichotomy idx start.validRevisions.length with before | rfl | after
  · rw [List.getElem?_append_left before] at found
    have smaller := (bounds.2.2 revision (List.mem_of_getElem? found) _ List.mem_cons_self).1
    exact absurd smaller (by simp; omega)
  · simp only [List.getElem?_append_right le_rfl, Nat.sub_self, List.getElem?_cons_zero,
      Option.some.injEq] at found
    subst found
    exact absurd larger (lt_irrefl _)
  · refine ⟨after, ?_⟩
    obtain ⟨more, rfl⟩ := Nat.exists_eq_add_of_lt after
    rw [List.getElem?_append_right (by omega)] at found
    have member : revision ∈ later := by
      apply List.mem_of_getElem? (i := more)
      simpa [Nat.add_assoc] using found
    exact ((List.pairwise_cons.mp bounds.2.1).1 revision member).2

/-- An operation keeps an older snapshot valid, unless it reverts to it or to an older one. -/
theorem Since.step (injective : B.Injective) (since : Since start id s) (run : op.run s = some next)
    (nested : ∀ revid, op = .revertToSnapshot revid → id < revid)
    : Since start id next := by
  have respects := journalLog_respects injective
  obtain ⟨later, revisions⟩ := since.revisions
  rcases kind : op.isRevision with _ | _
  · have recorded := op.run_recorded injective since.ok.sane kind run
    refine ⟨since.undoable.trans respects recorded.undoable, recorded.ok since.ok, later, ?_⟩
    rw [recorded.revisions, revisions]
  · cases op with
    | snapshot =>
      rw [← Option.some.inj run]
      refine ⟨since.undoable.trans respects (.of_related respects (s.same_setRevisions _ _)),
        snapshot_ok since.ok,
        later ++ [{ id := s.nextRevisionId, journalIndex := s.journal.size }], ?_⟩
      show s.validRevisions ++ [_] = _
      rw [revisions, List.append_assoc, List.cons_append]
    | revertToSnapshot revid =>
      have newer := nested revid rfl
      have run : s.revertToSnapshot revid = some next := run
      have ok := revertToSnapshot_keepsOk since.ok run
      obtain ⟨idx, revision, middle, found, -, rfl, rewound, rfl⟩ := revertToSnapshot_ok run
      obtain ⟨deeper, order⟩ := since.newer found newer
      have below := since.ok.revisions.bounded revision (List.mem_of_getElem? found)
      have partway := since.undoable.partway order below rewound
      refine ⟨partway.trans respects
        (.of_related respects (middle.same_setRevisions _ middle.nextRevisionId)), ok, ?_⟩
      obtain ⟨more, rfl⟩ := Nat.exists_eq_add_of_lt deeper
      refine ⟨later.take more, ?_⟩
      show s.validRevisions.take _ = _
      rw [revisions, Nat.add_assoc, List.take_length_add_append, List.take_succ_cons]
    | _ => cases kind

/-- Reverts in `ops` lead to snapshots newer than `id`. -/
def NestedIn (id : Nat) (ops : List Op) : Prop :=
  ∀ revid, Op.revertToSnapshot revid ∈ ops → id < revid

/-- A snapshot stays valid over nested operations, by induction on them. -/
theorem Since.run (injective : B.Injective)
    {ops : List Op} (since : Since start id s) (nested : NestedIn id ops)
    (run : runOps s ops = some next)
    : Since start id next := by
  induction ops generalizing s with
  | nil => exact Option.some.inj run ▸ since
  | cons op ops ih =>
    obtain ⟨middle, first, rest⟩ := Option.bind_eq_some_iff.mp run
    have step := since.step injective first fun revid isRevert =>
      nested revid (isRevert ▸ List.mem_cons_self)
    exact ih step (fun revid member => nested revid (.tail _ member)) rest

/-- As long as a snapshot is valid, reverting to it succeeds and leads back. -/
theorem Since.revert (since : Since start id s) (injective : B.Injective)
    : ∃ back, s.revertToSnapshot id = some back ∧ Same start back := by
  obtain ⟨⟨-, middle, rewound, same⟩, ok, later, revisions⟩ := since
  have ascending : s.validRevisions.Pairwise _ := ok.revisions.ascending
  rw [revisions] at ascending
  have older := (List.pairwise_append.mp ascending).2.2
  refine ⟨_, revertToSnapshot_eq revisions ?_ rewound, ?_⟩
  · exact fun other member => (older other member _ List.mem_cons_self).1
  · exact (journalLog_respects injective).trans same
      (middle.same_setRevisions _ middle.nextRevisionId)

end GoBinacoin.State
