import GoBinacoin.Vm.ConductRun

/-! What contracts do keeps earlier snapshots valid, and what is reverted leaves no trace in the
database.
-/

namespace GoBinacoin.Vm

open Program State

variable {B : Backend}

/-- The database after operations none of which is a revert. -/
def Forward : StateDB B → StateDB B → Prop :=
  Relation.ReflTransGen fun s s' =>
    ∃ op : Op, (∀ revid, op ≠ .revertToSnapshot revid) ∧ op.run s = some s'

theorem Forward.trans {s s' s'' : StateDB B} (first : Forward s s') (second : Forward s' s'')
    : Forward s s'' :=
  Relation.ReflTransGen.trans first second

section Forward

variable {m m' : Machine B}

/-- All operations but reverting go forward. -/
theorem Performs.forward {op : Op} (performs : Performs m op m')
    (forward : ∀ revid, op ≠ .revertToSnapshot revid)
    : Forward m.db m'.db := by
  obtain ⟨db, run, rfl⟩ := performs
  exact .single ⟨op, forward, run⟩

theorem steps_forward : Steps fun m m' : Machine B => Forward m.db m'.db where
  refl _ := .refl
  trans first second := first.trans second
  performs performs notRevert := performs.forward notRevert
  scratch scratch := scratch.db ▸ .refl
  burned _ _ := .refl

theorem Hushed.forward (hushed : Hushed m m') : Forward m.db m'.db := steps_forward.hushed hushed

end Forward

variable {s s' : StateDB B}

/-- Going forward keeps the state sound. -/
theorem Forward.ok (injective : B.Injective) (forward : Forward s s') (ok : s.Ok) : s'.Ok := by
  induction forward with
  | refl => exact ok
  | tail _ last ih =>
    obtain ⟨op, -, run⟩ := last
    exact op.run_ok injective ih run

variable {start : StateDB B} {id : Nat}

/-- A snapshot stays valid going forward. -/
theorem Forward.since (injective : B.Injective) (forward : Forward s s') (since : Since start id s)
    : Since start id s' := by
  induction forward with
  | refl => exact since
  | tail _ last ih =>
    obtain ⟨op, notRevert, run⟩ := last
    exact ih.step injective run fun revid isRevert => absurd isRevert (notRevert revid)

theorem Since.lt_next (since : Since start id s) : id < s.snapshot.1 := by
  obtain ⟨later, revisions⟩ := since.revisions
  refine since.ok.revisions.fresh { id := id, journalIndex := start.journal.size } ?_
  show _ ∈ s.validRevisions
  rw [revisions]
  exact List.mem_append_right _ List.mem_cons_self

/-- A snapshot stays valid under a newer one. -/
theorem Since.marked (injective : B.Injective) (since : Since start id s)
    : Since start id s.snapshot.2 :=
  since.step injective (show Op.snapshot.run s = some s.snapshot.2 from rfl) nofun

section Does

variable {env : Env} {listing strict : Prop} {self : Address} {m m' : Machine B}

/-- Whatever a contract does, the state stays in order and the snapshots of its callers valid. -/
theorem Does.valid (injective : B.Injective) (does : Does env listing strict self m m')
    : (m.db.Ok → m'.db.Ok) ∧ ∀ start id, Since start id m.db → Since start id m'.db := by
  have ahead {m m' : Machine B} (forward : Forward m.db m'.db)
      : (m.db.Ok → m'.db.Ok) ∧ ∀ start id, Since start id m.db → Since start id m'.db :=
    ⟨forward.ok injective, fun _ _ => forward.since injective⟩
  induction does with
  | seq _ _ first second =>
    exact ⟨fun ok => second.1 (first.1 ok), fun start id since =>
      second.2 start id (first.2 start id since)⟩
  | hush hushed => exact ahead hushed.forward
  | addRefund _ _ run | subRefund _ _ _ run | store _ _ _ _ run | log _ _ run | touch _ run
  | createAbsent _ _ run | createFresh _ _ run | setNonce _ _ _ run | setCode _ _ _ run =>
    exact ahead (run.forward nofun)
  | meteredStore p key value _ _ hushed charge run =>
    exact ahead (hushed.forward.trans ((steps_forward.charge charge).trans (run.forward nofun)))
  | suicide _ _ run => exact ahead (steps_forward.suicideTo run)
  | transfer _ _ _ run => exact ahead (steps_forward.transfer run)
  | canary _ hushed => exact ahead hushed.forward
  | snapshot => exact ⟨StateDB.snapshot_ok, fun _ _ => Since.marked injective⟩
  | @reverted _ _ m m' db _ back inside =>
    refine ⟨fun ok => StateDB.revertToSnapshot_keepsOk (inside.1 (StateDB.snapshot_ok ok)) back,
      fun start id since => ?_⟩
    have run : (Op.revertToSnapshot m.db.snapshot.1).run m'.db = some db := back
    refine (inside.2 start id (Since.marked injective since)).step injective run ?_
    rintro revid ⟨⟩
    exact Since.lt_next since
  | run _ _ _ _ inside => exact inside

/-- Whatever was done since a snapshot can be reverted. -/
theorem Does.reverts (injective : B.Injective) (ok : m.db.Ok)
    (inside : Does env listing strict self m.marked m') {db : StateDB B}
    (back : m'.db.revertToSnapshot m.db.snapshot.1 = some db)
    : StateDB.Same m.db db := by
  obtain ⟨other, reverted, same⟩ :=
    ((inside.valid injective).2 _ _ (Since.snapshot injective ok)).revert injective
  rw [back] at reverted
  exact Option.some.inj reverted ▸ same

end Does

end GoBinacoin.Vm
