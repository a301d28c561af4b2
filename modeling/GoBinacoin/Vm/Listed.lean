import GoBinacoin.Vm.Execution

/-! Under Berlin, every contract on the call stack is in the access list. -/

namespace GoBinacoin.Vm

open Program State

variable {B : Backend}

/-- The addresses are in the access list. -/
def Listed (s : StateDB B) (addrs : List Address) : Prop :=
  ∀ addr ∈ addrs, s.addressInAccessList addr = true

/-- An event in which the contracts on the call stack are in the access list. -/
def Event.listed : Event B → Prop
  | .state frames db => Listed db frames
  | .gasSum _ _ => True
  | .canary _ _ => False

/-- What was noted since shows no contract outside of the access list. -/
def NotesListed (m m' : Machine B) : Prop :=
  ∃ new, m'.events = new ++ m.events ∧ ∀ e ∈ new, e.listed

theorem NotesListed.refl (m : Machine B) : NotesListed m m :=
  ⟨[], rfl, fun _ member => (List.not_mem_nil member).elim⟩

theorem NotesListed.trans {m m' m'' : Machine B} (first : NotesListed m m')
    (second : NotesListed m' m'')
    : NotesListed m m'' := by
  obtain ⟨new, events, holds⟩ := first
  obtain ⟨new', events', holds'⟩ := second
  refine ⟨new' ++ new, by rw [events', events, List.append_assoc], fun e member => ?_⟩
  exact (List.mem_append.mp member).elim (holds' e) (holds e)

variable {m m' : Machine B}

theorem NotesListed.of_moved {db : StateDB B} (listed : Listed db m.frames)
    : NotesListed m (m.moved db) :=
  ⟨[.state m.frames db], rfl, fun _ member => List.mem_singleton.mp member ▸ listed⟩

/-- Going forward takes no address from the list. -/
theorem Forward.listed {s s' : StateDB B} (forward : Forward s s') {addrs : List Address}
    (listed : Listed s addrs)
    : Listed s' addrs := by
  induction forward with
  | refl => exact listed
  | tail _ last ih =>
    obtain ⟨op, notRevert, run⟩ := last
    exact fun addr member => Op.run_listed notRevert run (ih addr member)

/-- A part of a run that reverts nothing. -/
structure Ahead (m m' : Machine B) : Prop where
  forward : Forward m.db m'.db
  frames : m'.frames = m.frames
  notes : Listed m.db m.frames → NotesListed m m'

section Ahead

variable {m m' m'' : Machine B}

theorem Ahead.refl (m : Machine B) : Ahead m m := ⟨.refl, rfl, fun _ => .refl m⟩

theorem Ahead.trans (first : Ahead m m') (second : Ahead m' m'') : Ahead m m'' where
  forward := first.forward.trans second.forward
  frames := second.frames.trans first.frames
  notes listed :=
    (first.notes listed).trans (second.notes (first.frames ▸ first.forward.listed listed))

/-- All operations but reverting go ahead. -/
theorem Performs.ahead {op : Op} (performs : Performs m op m')
    (notRevert : ∀ revid, op ≠ .revertToSnapshot revid)
    : Ahead m m' := by
  have forward := performs.forward notRevert
  obtain ⟨db, -, rfl⟩ := performs
  exact ⟨forward, rfl, fun listed => .of_moved (forward.listed listed)⟩

theorem Scratch.ahead (scratch : Scratch m m') : Ahead m m' := by
  refine ⟨scratch.db ▸ .refl, scratch.frames, fun _ => ?_⟩
  obtain ⟨new, sums, events⟩ := scratch.events
  refine ⟨new, events, fun e member => ?_⟩
  have isSum := sums e member
  cases e with
  | gasSum => trivial
  | _ => cases isSum

theorem steps_ahead : Steps (Ahead : Machine B → Machine B → Prop) where
  refl := .refl
  trans := .trans
  performs := Performs.ahead
  scratch := Scratch.ahead
  burned m _ := ⟨.refl, rfl, fun _ => .refl m⟩

theorem Hushed.ahead (hushed : Hushed m m') : Ahead m m' := steps_ahead.hushed hushed

end Ahead

/-- No address leaves the access list, and what was noted shows nothing outside of it. -/
structure StaysListed (m m' : Machine B) : Prop where
  kept : ∀ addrs, Listed m.db addrs → Listed m'.db addrs
  notes : NotesListed m m'

/-- Going ahead keeps all frames listed. -/
theorem Ahead.staysListed {self : Address} (ahead : Ahead m m')
    (listed : Listed m.db (self :: m.frames))
    : StaysListed m m' :=
  ⟨fun _ => ahead.forward.listed, ahead.notes (List.forall_mem_cons.mp listed).2⟩

/-- While a contract and its callers are in the access list, no contract starts outside of it. -/
theorem Does.staysListed (injective : B.Injective) {env : Env}
    (berlin : env.rules.isBerlin = true) {strict : Prop} {self : Address}
    (does : Does env True strict self m m') (ok : m.db.Ok) (listed : Listed m.db (self :: m.frames))
    : StaysListed m m' := by
  induction does with
  | seq before _ first second =>
    have start := first ok listed
    have rest := second ((before.valid injective).1 ok)
      (before.context.frames ▸ start.kept _ listed)
    exact ⟨fun addrs here => rest.kept addrs (start.kept addrs here), start.notes.trans rest.notes⟩
  | hush hushed => exact hushed.ahead.staysListed listed
  | addRefund _ _ run | subRefund _ _ _ run | store _ _ _ _ run | log _ _ run | touch _ run
  | createAbsent _ _ run | createFresh _ _ run | setNonce _ _ _ run | setCode _ _ _ run =>
    exact (run.ahead nofun).staysListed listed
  | meteredStore p key value _ _ hushed charge run =>
    exact (hushed.ahead.trans ((steps_ahead.charge charge).trans (run.ahead nofun))).staysListed
      listed
  | suicide _ _ run => exact (steps_ahead.suicideTo run).staysListed listed
  | transfer _ _ _ run => exact (steps_ahead.transfer run).staysListed listed
  | canary unlisted =>
    rw [(List.forall_mem_cons.mp listed).1] at unlisted
    cases unlisted
  | snapshot => exact ⟨fun _ => id, .of_moved (List.forall_mem_cons.mp listed).2⟩
  | @reverted _ self m m' db inside back rest =>
    have same : db.accessList = m.db.accessList := (inside.reverts injective ok back).accessList
    have kept (addrs : List Address) (here : Listed m.db addrs) : Listed db addrs := by
      intro addr member
      unfold StateDB.addressInAccessList
      rw [same]
      exact here addr member
    have inner := rest (StateDB.snapshot_ok ok) listed
    have marked : NotesListed m m.marked := .of_moved (List.forall_mem_cons.mp listed).2
    have frames : m'.frames = m.frames := inside.context.frames
    have last : NotesListed m' (m'.moved db) :=
      .of_moved (frames ▸ kept _ (List.forall_mem_cons.mp listed).2)
    exact ⟨kept, marked.trans (inner.notes.trans last)⟩
  | @run _ self m m' addr readOnly admits inside rest =>
    have here : m.db.addressInAccessList addr = true :=
      (admits trivial berlin).elim id fun same => same ▸ (List.forall_mem_cons.mp listed).1
    have frames : Listed m.db (addr :: m.frames) :=
      List.forall_mem_cons.mpr ⟨here, (List.forall_mem_cons.mp listed).2⟩
    have inner := rest ok (List.forall_mem_cons.mpr ⟨here, frames⟩)
    have entered : NotesListed m (m.enter addr readOnly) :=
      ⟨[.state (addr :: m.frames) m.db], rfl,
        fun _ member => List.mem_singleton.mp member ▸ frames⟩
    exact ⟨inner.kept, entered.trans inner.notes⟩

end GoBinacoin.Vm
