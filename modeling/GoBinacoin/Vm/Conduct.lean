import GoBinacoin.State.Writes
import GoBinacoin.Vm.Effects
import GoBinacoin.Vm.SafeRun

/-! Every run of the interpreter stays within the account of effects. -/

namespace GoBinacoin.Vm

open Program State StateDB

variable {B : Backend}

/-- The call stack and the flag that forbids writes are the same. -/
structure Context (m m' : Machine B) : Prop where
  depth : m'.depth = m.depth
  readOnly : m'.readOnly = m.readOnly
  frames : m'.frames = m.frames

theorem Context.refl (m : Machine B) : Context m m := ⟨rfl, rfl, rfl⟩

/-- The context stays, in two steps. -/
theorem Context.trans {m m' m'' : Machine B} (first : Context m m') (second : Context m' m'')
    : Context m m'' :=
  ⟨second.depth.trans first.depth, second.readOnly.trans first.readOnly,
    second.frames.trans first.frames⟩

variable {env : Env} {m m' : Machine B} {op : Op} {R : Machine B → Machine B → Prop}
  {addr : Address}

/-- What may be written may still be written in the same context. -/
theorem Context.writable (context : Context m m') (writable : Writable env m)
    : Writable env m' := by
  unfold Writable
  rw [context.readOnly]
  exact writable

theorem Performs.context (performs : Performs m op m') : Context m m' := by
  obtain ⟨db, -, rfl⟩ := performs
  exact ⟨rfl, rfl, rfl⟩

/-- An operation on the state that is defined is performed. -/
theorem perform_total {db : StateDB B} (run : op.run m.db = some db)
    : perform op m = (.ok (), m.moved db) := by
  simp only [perform, run]

/-- A transfer is two operations on balances. -/
theorem transfer_run (sender recipient : Address) (amount : Int) (m : Machine B)
    : ∃ middle m',
        Performs m (.subBalance sender amount) middle
        ∧ Performs middle (.addBalance recipient amount) m'
        ∧ transfer sender recipient amount m = (.ok (), m') :=
  ⟨_, _, ⟨_, rfl, rfl⟩, ⟨_, rfl, rfl⟩, rfl⟩

/-- What a self-destruct does: a read, a credit and the destruction; none can fail. -/
theorem suicideTo_run (self beneficiary : Address) (m : Machine B)
    : ∃ read credited destroyed,
        Performs m (.getBalance self) read
        ∧ Performs read (.addBalance beneficiary (m.db.getBalance self).1) credited
        ∧ Performs credited (.suicide self) destroyed
        ∧ suicideTo self beneficiary m
          = (.ok (), if beneficiary = self then
              { destroyed with burned := (self, (m.db.getBalance self).1) :: destroyed.burned }
            else destroyed) := by
  refine ⟨_, _, _, ⟨_, rfl, rfl⟩, ⟨_, rfl, rfl⟩, ⟨_, rfl, rfl⟩, ?_⟩
  unfold suicideTo
  split <;> rfl

section Keeps

variable [IsPreorder (Machine B) R]

theorem keeps_perform (step : ∀ {m m'}, Performs m op m' → R m m')
    : Keeps R (perform op : Evm B Unit) := by
  intro m
  unfold perform
  split
  · rename_i db run
    exact step ⟨db, run, rfl⟩
  · exact refl m

theorem keeps_query {α : Type} {value : StateDB B → α} (step : ∀ {m m'}, Performs m op m' → R m m')
    : Keeps R (query op value) := by
  intro m
  unfold query
  split
  · rename_i db run
    exact step ⟨db, run, rfl⟩
  · exact refl m

variable {key current value : Hash}

/-- Charging for a store reads, and adds to the refund or takes from it. -/
theorem keeps_charge (p : NetMetering)
    (read : ∀ {m m'}, Performs m (.getCommittedState addr key) m' → R m m')
    (add : ∀ {gas m m'}, Performs m (.addRefund gas) m' → R m m')
    (sub : ∀ {gas m m'}, Performs m (.subRefund gas) m' → R m m')
    : Keeps R (p.charge addr key current value) := by
  have adds {gas : UInt64} {f : Unit → Evm B UInt64} (rest : ∀ r, Keeps R (f r))
      : Keeps R (perform (.addRefund gas) >>= f) :=
    .bind (keeps_perform add) rest
  unfold NetMetering.charge addRefund subRefund
  refine .ite (.pure _) (.bind (keeps_query read) fun original => .ite (.ite (.pure _) ?_) ?_)
  · split
    · exact adds fun _ => .pure _
    · exact .pure _
  · extract_lets last rest
    have tail (r : Unit) : Keeps R (rest r) :=
      .ite (.ite (adds fun _ => .pure _) (adds fun _ => .pure _)) (.pure _)
    exact .ite (.ite (.bind (keeps_perform sub) tail) (.ite (adds tail) (tail ()))) (tail ())

end Keeps

variable {self : Address} {s s' : StateDB B}

/-- Quiet operations never revert. -/
theorem quiet_forward (isQuiet : quiet op = true) (revid : Nat) : op ≠ .revertToSnapshot revid := by
  rintro rfl
  cases isQuiet

/-- A relation that the operations of the database keep, reverting apart. -/
structure Steps (R : Machine B → Machine B → Prop) : Prop where
  refl : ∀ m, R m m
  trans : ∀ {a b c}, R a b → R b c → R a c
  performs
    : ∀ {op m m'}, Performs m op m' → (∀ revid, op ≠ .revertToSnapshot revid) → R m m'
  scratch : ∀ {m m'}, Scratch m m' → R m m'
  burned : ∀ m burned, R m { m with burned := burned }

section Steps

variable (steps : Steps R)

include steps

/-- Hushed steps are steps of the relation. -/
theorem Steps.hushed (hushed : Hushed m m') : R m m' := by
  induction hushed with
  | refl => exact steps.refl m
  | tail _ hush ih =>
    rcases hush with ⟨op, isQuiet, performs⟩ | scratch
    · exact steps.trans ih (steps.performs performs (quiet_forward isQuiet))
    · exact steps.trans ih (steps.scratch scratch)

/-- Metering a store takes steps of the relation only. -/
theorem Steps.charge {p : NetMetering} {key current value : Hash} {r : Except Stop UInt64}
    (run : p.charge addr key current value m = (r, m'))
    : R m m' := by
  have : IsPreorder (Machine B) R := { refl := steps.refl, trans := fun _ _ _ => steps.trans }
  have keeps : Keeps R (p.charge addr key current value) :=
    keeps_charge p (fun performs => steps.performs performs nofun)
      (fun performs => steps.performs performs nofun)
      fun performs => steps.performs performs nofun
  have kept := keeps m
  rw [run] at kept
  exact kept

theorem Steps.transfer {sender recipient : Address} {amount : Int}
    (run : transfer sender recipient amount m = (.ok (), m'))
    : R m m' := by
  obtain ⟨middle, last, first, second, value⟩ := transfer_run sender recipient amount m
  rw [value] at run
  exact (Prod.mk.inj run).2 ▸ steps.trans (steps.performs first nofun) (steps.performs second nofun)

/-- So does a destruction. -/
theorem Steps.suicideTo {beneficiary : Address} (run : suicideTo self beneficiary m = (.ok (), m'))
    : R m m' := by
  obtain ⟨read, credited, destroyed, first, second, third, value⟩ :=
    suicideTo_run self beneficiary m
  have kept := steps.trans (steps.performs first nofun)
    (steps.trans (steps.performs second nofun) (steps.performs third nofun))
  rw [value] at run
  rw [← (Prod.mk.inj run).2]
  split
  · exact steps.trans kept (steps.burned _ _)
  · exact kept

end Steps

theorem steps_context : Steps (Context : Machine B → Machine B → Prop) where
  refl := .refl
  trans := .trans
  performs performs _ := performs.context
  scratch scratch := ⟨scratch.depth, scratch.readOnly, scratch.frames⟩
  burned _ _ := ⟨rfl, rfl, rfl⟩

theorem Hushed.context (hushed : Hushed m m') : Context m m' := steps_context.hushed hushed

theorem Hushed.writable (hushed : Hushed m m') (writable : Writable env m) : Writable env m' :=
  hushed.context.writable writable

/-- Leaving a frame restores the context. -/
theorem enter_leave_context {readOnly : Bool} (context : Context (m.enter self readOnly) m')
    : Context m (m'.leave m.readOnly readOnly) := by
  refine ⟨?_, ?_, ?_⟩
  · show m'.depth - 1 = m.depth
    rw [context.depth]
    rfl
  · show (if readOnly && !m.readOnly then false else m'.readOnly) = m.readOnly
    rw [context.readOnly]
    show (if readOnly && !m.readOnly then false else m.readOnly || readOnly) = m.readOnly
    cases m.readOnly <;> cases readOnly <;> rfl
  · show m'.frames.tail = m.frames
    rw [context.frames]
    rfl

/-- Whatever a contract does, the call stack is the same afterwards. -/
theorem Does.context {listing strict : Prop} (does : Does env listing strict self m m')
    : Context m m' := by
  induction does with
  | seq _ _ first second => exact first.trans second
  | hush hushed => exact hushed.context
  | addRefund _ _ run | subRefund _ _ _ run | store _ _ _ _ run | log _ _ run | touch _ run
  | createAbsent _ _ run | createFresh _ _ run | setNonce _ _ _ run | setCode _ _ _ run =>
    exact run.context
  | meteredStore p key value _ _ hushed charge run =>
    exact hushed.context.trans ((steps_context.charge charge).trans run.context)
  | suicide _ _ run => exact steps_context.suicideTo run
  | transfer _ _ _ run => exact steps_context.transfer run
  | canary _ hushed =>
    have context := hushed.context
    exact ⟨context.depth, context.readOnly, context.frames⟩
  | snapshot => exact ⟨rfl, rfl, rfl⟩
  | reverted _ _ inside => exact ⟨inside.depth, inside.readOnly, inside.frames⟩
  | run _ _ _ _ inside => exact enter_leave_context inside

theorem StateDB.Alike.of_lists (s : StateDB B) (journal : Journal B)
    (preimages : GoMap Hash Bytes) (accessList : AccessList)
    : Alike s { s with
        journal := journal, preimages := preimages, accessList := accessList } :=
  .of_peek rfl rfl (fun _ => rfl) rfl rfl rfl

/-- Entries that change no object when they are reverted, other than dropping a new one. -/
def mild : JournalEntry B → Bool
  | .createObject _ => true
  | .resetObject prev _ => prev.deleted
  | .addPreimage _ => true
  | .touch _ => true
  | .accessListAddAccount _ => true
  | .accessListAddSlot _ _ => true
  | _ => false

/-- The journal has grown by mild entries. -/
def Grown (s s' : StateDB B) : Prop :=
  ∃ new, s'.journal.entries = new ++ s.journal.entries ∧ ∀ entry ∈ new, mild entry = true

theorem Grown.of_eq (same : s'.journal.entries = s.journal.entries) : Grown s s' :=
  ⟨[], same, by simp⟩

theorem Grown.trans {s'' : StateDB B} (first : Grown s s') (second : Grown s' s'')
    : Grown s s'' := by
  obtain ⟨new, entries, isMild⟩ := first
  obtain ⟨newer, later, laterMild⟩ := second
  refine ⟨newer ++ new, by rw [later, entries, List.append_assoc], fun entry member => ?_⟩
  rcases List.mem_append.mp member with recent | older
  · exact laterMild entry recent
  · exact isMild entry older

theorem Grown.append (grown : Grown s s') (entry : JournalEntry B) (isMild : mild entry = true)
    : Grown s (s'.append entry) :=
  grown.trans ⟨[entry], rfl, by simpa using isMild⟩

/-- A quiet operation keeps the values of all accounts, the refund and the logs. -/
theorem quiet_keeps {next : StateDB B} (isQuiet : quiet op = true) (run : op.run s = some next)
    : StateDB.Alike s next ∧ Grown s next := by
  have read {α : Type} {addr : Address} {absent : α} {read : Object B → α × Object B}
      (keeps : ∀ o, Object.Same s.reads o (read o).2)
      (fake : ∀ o, (read o).2.fakeStorage = o.fakeStorage)
      (run : some (s.readObject addr absent read).2 = some next)
      : StateDB.Alike s next ∧ Grown s next := by
    obtain ⟨-, -, ledger⟩ := s.readObject_eq addr absent keeps
    rw [← Option.some.inj run]
    exact ⟨s.readObject_alike addr absent keeps fake,
      .of_eq (congrArg (fun ledger => ledger.journal.entries) ledger)⟩
  have same : Grown s s := .of_eq rfl
  cases op with
  | addPreimage hash preimage =>
    rw [← Option.some.inj run]
    unfold StateDB.addPreimage
    split
    · exact ⟨.refl s, same⟩
    · exact ⟨StateDB.Alike.of_lists s _ _ s.accessList, same.append (.addPreimage hash) rfl⟩
  | addAddressToAccessList addr =>
    rw [← Option.some.inj run]
    unfold StateDB.addAddressToAccessList
    split
    · exact ⟨StateDB.Alike.of_lists s _ s.preimages _, same.append (.accessListAddAccount addr) rfl⟩
    · exact ⟨.refl s, same⟩
  | addSlotToAccessList addr slot =>
    have run : s.addSlotToAccessList addr slot = some next := run
    unfold StateDB.addSlotToAccessList at run
    split at run
    · cases run
    · rename_i addrMod slotMod al added
      have listed : Grown s { s with accessList := al } := same
      have account := listed.append (.accessListAddAccount addr) rfl
      rw [← Option.some.inj run]
      cases addrMod <;> cases slotMod <;> refine ⟨StateDB.Alike.of_lists s _ s.preimages _, ?_⟩
      · exact listed
      · exact listed.append _ rfl
      · exact account
      · exact account.append _ rfl
  | exist | empty | getBalance | getNonce | getCodeHash | hasSuicided =>
    exact read (fun o => .refl _ o) (fun _ => rfl) run
  | getCode addr =>
    exact read (fun o => (o.getCode_eq s.reads).2.same) (fun o => (o.getCode_eq s.reads).2.fake) run
  | getCodeSize addr =>
    exact read (fun o => o.getCodeSize_same s.reads) (fun o => o.getCodeSize_fake s.db) run
  | getState addr key =>
    exact read (fun o => o.getState_same s.reads key) (fun o => o.getState_fake s.reads key) run
  | getCommittedState addr key =>
    exact read (fun o => o.getCommittedState_same s.reads key)
      (fun o => o.getCommittedState_fake s.reads key) run
  | _ => cases isQuiet

theorem Hush.alike (hush : Hush m m') : Alike m.db m'.db := by
  rcases hush with ⟨op, isQuiet, db, run, rfl⟩ | scratch
  · exact (quiet_keeps isQuiet run).1
  · rw [scratch.db]
    exact .refl m.db

/-- Hushed steps leave alike states. -/
theorem Hushed.alike (hushed : Hushed m m') : Alike m.db m'.db := by
  induction hushed with
  | refl => exact .refl m.db
  | tail _ last ih => exact ih.trans last.alike

theorem Performs.listed
    (performs : Performs m op m') (forward : ∀ revid, op ≠ .revertToSnapshot revid)
    (listed : m.db.addressInAccessList addr = true)
    : m'.db.addressInAccessList addr = true := by
  obtain ⟨db, run, rfl⟩ := performs
  exact Op.run_listed forward run listed

/-- Hushed steps take no address from the list. -/
theorem Hushed.listed (hushed : Hushed m m') (listed : m.db.addressInAccessList addr = true)
    : m'.db.addressInAccessList addr = true := by
  induction hushed with
  | refl => exact listed
  | tail _ last ih =>
    rcases last with ⟨op, isQuiet, performs⟩ | scratch
    · refine performs.listed (fun revid same => ?_) ih
      rw [same] at isQuiet
      cases isQuiet
    · rw [scratch.db]
      exact ih

/-- Runs of the contract at `self`: strict if they return. -/
def conduct (env : Env) (listing : Prop) (self : Address) : Tracking (Machine B) where
  done := Does env listing True self
  any := Does env listing False self
  refl _ := .rest
  trans := .seq
  weaken := .loose
  follow first second := first.loose.seq second

/-- Code that runs as the contract at `self`. -/
abbrev conductCode (env : Env) (listing : Prop) (self : Address) : Tracking (Scope B) :=
  (conduct env listing self).of Scope.machine

/-- A program that stays within what the contract at `self` may do; the same for code below. -/
abbrev Abides (env : Env) (listing : Prop) (self : Address) {α : Type} (p : Evm B α) (m : Machine B)
    : Prop :=
  Tracks (conduct env listing self) p m fun _ _ => True

abbrev Conducted (env : Env) (listing : Prop) (self : Address) {α : Type} (p : Code B α)
    (s : Scope B)
    : Prop :=
  Tracks (conductCode env listing self) p s fun _ _ => True

section Tracks

variable {listing : Prop} {α : Type} {s : Scope B} {p : Evm B α} {Q : α → Machine B → Prop}

theorem Quiet.tracks (quiet : Quiet p)
    (holds : ∀ a, (p m).1 = .ok a → Hushed m (p m).2 → Q a (p m).2)
    : Tracks (conduct env listing self) p m Q :=
  .of_outcome (fun a run => ⟨.hush (quiet m), holds a run (quiet m)⟩) fun _ _ => .hush (quiet m)

theorem Quiet.andThen {β : Type} {f : α → Evm B β} (quiet : Quiet p)
    (rest : ∀ a m', Hushed m m' → Abides env listing self (f a) m')
    : Abides env listing self (p >>= f) m := by
  have first : Tracks (conduct env listing self) p m fun _ m' => Hushed m m' :=
    quiet.tracks fun _ _ => id
  exact first.bind fun a m' _ hushed => rest a m' hushed

theorem QuietCode.tracks {p : Code B α} (quiet : QuietCode p) : Conducted env listing self p s :=
  .of_outcome (fun _ _ => ⟨.hush (quiet s).machine, trivial⟩) fun _ _ => .hush (quiet s).machine

theorem tracks_perform {Q : Unit → Machine B → Prop}
    (step : ∀ {m'}, Performs m op m' → Does env listing True self m m' ∧ Q () m')
    : Tracks (conduct env listing self) (perform op) m Q := by
  unfold Tracks After perform
  split
  · rename_i db run
    exact step ⟨db, run, rfl⟩
  · exact .rest

theorem tracks_onMachine {Q' : α → Scope B → Prop}
    (tracks : Tracks (conduct env listing self) p s.machine Q)
    (weaker : ∀ a m', Q a m' → Q' a { s with machine := m' })
    : Tracks (conductCode env listing self) (onMachine p) s Q' :=
  .within (fun _ => rfl) tracks weaker

end Tracks

end GoBinacoin.Vm
