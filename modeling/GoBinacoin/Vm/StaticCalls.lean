import GoBinacoin.Vm.Failure

/-! Static calls write nothing, and neither does anything that runs inside them. -/

namespace GoBinacoin.Vm

open Program State StateDB

variable {B : Backend}

/-- Every account, the refund and the logs are as before. -/
structure Unwritten (s s' : StateDB B) : Prop extends SameAccounts s s' where
  slot : ∀ addr key, s'.slotOf addr key = s.slotOf addr key
  refund : s'.refund = s.refund
  logs : s'.logs = s.logs

/-- Nothing was written. Overrides and the journal are what a later revert relies on. -/
structure Spared (s s' : StateDB B) : Prop extends Unwritten s s' where
  overrides : ∀ addr, s'.overrides addr = s.overrides addr
  db : s'.db = s.db
  trie : s'.trie = s.trie
  snap : s'.snap = s.snap
  journal : Grown s s'

/-- States that are spared, in two steps. -/
theorem Spared.trans {s s' s'' : StateDB B} (first : Spared s s') (second : Spared s' s'')
    : Spared s s'' where
  balance addr := (second.balance addr).trans (first.balance addr)
  nonce addr := (second.nonce addr).trans (first.nonce addr)
  code addr := (second.code addr).trans (first.code addr)
  suicided addr := (second.suicided addr).trans (first.suicided addr)
  slot addr key := (second.slot addr key).trans (first.slot addr key)
  refund := second.refund.trans first.refund
  logs := second.logs.trans first.logs
  overrides addr := (second.overrides addr).trans (first.overrides addr)
  db := second.db.trans first.db
  trie := second.trie.trans first.trie
  snap := second.snap.trans first.snap
  journal := first.journal.trans second.journal

variable {s s' next : StateDB B}

/-- Alike states are spared. -/
theorem Spared.of_alike (alike : Alike s s') (journal : Grown s s')
    : Spared s s' where
  toSameAccounts := alike.accounts
  slot := alike.slotOf
  refund := alike.refund
  logs := alike.logs
  overrides := Alike.overrides alike
  db := congrArg Reads.db alike.reads
  trie := alike.trie
  snap := congrArg Reads.snap alike.reads
  journal := journal

theorem Spared.refl (s : StateDB B) : Spared s s := .of_alike (.refl s) (.of_eq rfl)

theorem Spared.tidy (spared : Spared s s') (tidy : s.Tidy) : s'.Tidy := by
  refine ⟨?_, fun addr layer key enc absent present => ?_⟩
  · rw [spared.db]
    exact tidy.emptyTrie
  · simp only [stored, loadAccount, spared.db, spared.trie, spared.snap] at absent
    exact tidy.strays addr layer key enc absent (spared.snap ▸ present)

section Operations

variable (injective : B.Injective) {s : StateDB B} (tidy : s.Tidy)
  (addr : Address)

include injective tidy in
theorem Obtained.spared {s' : StateDB B} {o : Object B} {addr : Address}
    (obtained : Obtained s addr o s') (journal : Grown s s')
    : Spared s s' := by
  have slots := obtained.slotOf injective tidy
  have overrides := obtained.overrides
  have accounts := obtained.accounts
  obtain ⟨_, _, _, _, rfl⟩ := obtained.rest
  exact { accounts with
    slot := slots, refund := rfl, logs := rfl, overrides := overrides, db := rfl, trie := rfl,
    snap := rfl, journal := journal }

/-- An account that is created where there is none comes with a mild entry. -/
theorem createObject_grown {addr : Address} (absent : s.live addr = none)
    : Grown s (s.createObject addr).2.2 := by
  obtain ⟨value, loaded, -⟩ := s.getDeletedStateObject_eq addr
  have entries := congrArg (fun ledger => ledger.journal.entries) loaded.ledger
  unfold createObject
  generalize s.getDeletedStateObject addr = result at value loaded entries ⊢
  obtain ⟨found, middle⟩ := result
  rcases found with _ | prev
  · exact (Grown.of_eq entries).append _ rfl
  have deleted : prev.deleted = true := by
    have peek : s.peek addr = some prev := value.symm
    simpa [live, peek, Option.filter] using absent
  have grown : Grown s (middle.append (.resetObject prev
      (middle.snap.isSome && (middle.snapDestructs prev.addrHash).isSome))) :=
    (Grown.of_eq entries).append _ deleted
  simp only
  split
  · exact grown
  · exact grown

/-- A new object is recorded by mild entries. -/
theorem getOrNewStateObject_grown : Grown s (s.getOrNewStateObject addr).2 := by
  obtain ⟨value, loaded, -⟩ := s.getStateObject_eq addr
  have entries := congrArg (fun ledger => ledger.journal.entries) loaded.ledger
  unfold getOrNewStateObject
  generalize s.getStateObject addr = result at value loaded entries ⊢
  obtain ⟨found, middle⟩ := result
  rcases found with _ | o
  · have absent : middle.live addr = none :=
      (live_congr (loaded.peek addr)).trans value.symm
    exact (Grown.of_eq entries).trans (createObject_grown absent)
  · exact .of_eq entries

theorem touch_grown (o : Object B) : Grown s (s.touch o) := by
  have grown : Grown s (s.append (.touch o.address)) := (Grown.of_eq rfl).append _ rfl
  unfold touch
  simp only
  split
  · exact grown
  · exact grown

include injective tidy

theorem spared_getOrNewStateObject : Spared s (s.getOrNewStateObject addr).2 :=
  Obtained.spared injective tidy (s.getOrNewStateObject_obtained addr)
    (getOrNewStateObject_grown addr)

/-- Adding nothing changes nothing that can be seen. -/
theorem spared_addBalance : Spared s (s.addBalance addr 0) := by
  have spared := spared_getOrNewStateObject injective tidy addr
  unfold addBalance
  simp only [↓reduceIte]
  split
  · refine spared.trans (.of_alike ?_ (touch_grown _))
    unfold touch
    simp only
    split
    · exact Alike.of_lists _ _ _ _
    · exact Alike.of_lists _ _ _ _
  · exact spared

theorem spared_subBalance : Spared s (s.subBalance addr 0) := by
  unfold subBalance
  simp only [↓reduceIte]
  exact spared_getOrNewStateObject injective tidy addr

/-- A new account is empty like an absent one. -/
theorem spared_createAccount {addr : Address} (absent : (s.exist addr).1 = false)
    : Spared s (s.createAccount addr) := by
  have none : s.live addr = none := by
    rw [exist_value] at absent
    simpa using absent
  have grown := createObject_grown none
  obtain ⟨fresh, before, created⟩ := s.createObject_created addr
  unfold createAccount
  generalize s.createObject addr = result at grown fresh before created ⊢
  obtain ⟨newobj, found, next⟩ := result
  obtain rfl : found = .none := before.trans none
  exact Obtained.spared injective tidy
    ⟨created.rest, created.elsewhere, created.here, rfl, rfl, .inr ⟨none, rfl, created⟩⟩ grown

end Operations

/-- Hushed steps spare the state. -/
theorem Hushed.spared {m m' : Machine B} (hushed : Hushed m m') : Spared m.db m'.db := by
  refine .of_alike hushed.alike ?_
  induction hushed with
  | refl => exact .of_eq rfl
  | tail _ last ih =>
    rcases last with ⟨op, isQuiet, db, run, rfl⟩ | scratch
    · exact ih.trans (quiet_keeps isQuiet run).2
    · rw [scratch.db]
      exact ih

/-- Overrides are kept or dropped. -/
def Fades (s s' : StateDB B) : Prop :=
  ∀ addr, s'.overrides addr = none ∨ s'.overrides addr = s.overrides addr

/-- Reverting a mild entry changes nothing that can be seen. -/
theorem revert_fades {entry : JournalEntry B} (isMild : mild entry = true)
    (run : entry.revert s = some next)
    : Fades s next := by
  intro addr
  cases entry with
  | createObject account =>
    rw [← Option.some.inj run]
    by_cases here : addr = account
    · -- what is left is what the trie stores
      refine .inl ?_
      simp only [overrides, live, peek, Objects.delete,
        GoMap.delete_apply, if_pos here, Option.none_or, stored]
      split
      · rfl
      · rfl
    · refine .inr ?_
      simp only [overrides, live, peek, Objects.delete, GoMap.delete_apply, if_neg here]
      rfl
  | resetObject prev prevdestruct =>
    have put : (s.setStateObject prev).overrides addr = none
        ∨ (s.setStateObject prev).overrides addr = s.overrides addr := by
      simp only [overrides, live, peek_setStateObject]
      split
      · exact .inl (by simp [Option.filter, show prev.deleted = true from isMild])
      · exact .inr rfl
    rw [← Option.some.inj run]
    split
    · exact put
    · exact put
  | accessListAddSlot address slot =>
    obtain ⟨al, -, rfl⟩ := Option.map_eq_some_iff.mp run
    exact .inr rfl
  | addPreimage | touch | accessListAddAccount => exact Option.some.inj run ▸ .inr rfl
  | _ => cases isMild

/-- Induction on the number of reverted entries. -/
theorem rewind_fades {count : Nat}
    (isMild : ∀ entry ∈ s.journal.entries.take count, mild entry = true)
    (run : (journalLog B).rewind count s = some next)
    : Fades s next := by
  induction count generalizing s with
  | zero => exact Option.some.inj run ▸ fun _ => .inr rfl
  | succ count ih =>
    rcases head : s.journal.entries with _ | ⟨entry, rest⟩
    · simp [UndoLog.System.rewind, show (journalLog B).entries s = [] from head] at run
    rw [UndoLog.System.rewind_succ count (show (journalLog B).entries s = _ from head)] at run
    obtain ⟨middle, undone, later⟩ := Option.bind_eq_some_iff.mp run
    have entries : middle.journal.entries = rest := (journalLog B).undo_entries head undone
    obtain ⟨reverted, revert, rfl⟩ := Option.map_eq_some_iff.mp undone
    rw [head, List.take_succ_cons] at isMild
    have first := revert_fades (isMild entry List.mem_cons_self) revert
    have second := ih (entries ▸ fun e member => isMild e (.tail _ member)) later
    exact fun addr => (second addr).elim .inl fun kept => (first addr).imp kept.trans kept.trans

theorem slotOf_overridden {addr : Address} {fake : Storage}
    (overridden : s.overrides addr = some fake) (key : Hash)
    : s.slotOf addr key = (fake key).getD 0 := by
  obtain ⟨o, live, isFake⟩ := Option.bind_eq_some_iff.mp overridden
  simp [slotOf, live, Object.slotValue, isFake]

/-- What wrote nothing since a snapshot has written nothing after a revert to it. -/
theorem Spared.revert {s s' back : StateDB B} (inside : Spared s.snapshot.2 s')
    (same : Same s back) (run : s'.revertToSnapshot s.snapshot.1 = some back)
    : Spared s back := by
  obtain ⟨idx, revision, middle, -, -, -, rewound, rfl⟩ := revertToSnapshot_ok run
  obtain ⟨new, entries, isMild⟩ := inside.journal
  have entries : s'.journal.entries = new ++ s.journal.entries := entries
  have bounded : (journalLog B).depth s' - revision.journalIndex ≤ s'.journal.entries.length :=
    Nat.sub_le _ _
  unfold UndoLog.System.rewindTo at rewound
  generalize (journalLog B).depth s' - revision.journalIndex = count at rewound bounded
  have undone : count = new.length := by
    have dropped : middle.journal.entries = s'.journal.entries.drop count :=
      UndoLog.System.rewind_entries rewound
    have lengths := congrArg List.length (dropped.symm.trans same.entries)
    simp only [List.length_drop, entries, List.length_append] at lengths bounded
    omega
  have fades : Fades s' middle := by
    refine rewind_fades (fun entry member => isMild entry ?_) rewound
    rwa [entries, undone, List.take_left] at member
  have overrides (addr : Address) : middle.overrides addr = s.overrides addr := by
    rcases fades addr with gone | kept
    · exact gone.trans ((Same.overrides same).mp gone).symm
    · exact kept.trans (inside.overrides addr)
  exact { same.accounts with
    slot := fun addr key => by
      rcases plain : s.overrides addr with _ | fake
      · exact Same.slotOf same plain key
      · rw [slotOf_overridden plain]
        exact slotOf_overridden ((overrides addr).trans plain) key
    refund := same.refund
    logs := same.logs
    overrides := overrides
    db := congrArg Reads.db same.reads
    trie := same.trie
    snap := congrArg Reads.snap same.reads
    journal := .of_eq same.entries }

theorem Spared.snapshot (s : StateDB B) : Spared s s.snapshot.2 :=
  .of_alike (.of_peek rfl rfl (fun _ => rfl) rfl rfl rfl) (.of_eq rfl)

section Frames

variable (injective : B.Injective) {env : Env} {m m' : Machine B}

include injective in
/-- In a read-only frame every account of effects is one of writing nothing. -/
theorem Does.spared {listing strict : Prop} {self : Address}
    (does : Does env listing strict self m m') (ok : m.db.Ok) (tidy : m.db.Tidy)
    (barred : m.readOnly = true ∧ env.rules.isByzantium = true)
    : Spared m.db m'.db := by
  induction does with
  | seq first _ ih1 ih2 =>
    have spared := ih1 ok tidy barred
    exact spared.trans (ih2 ((first.valid injective).1 ok) (spared.tidy tidy)
      (barred.imp_left first.context.readOnly.trans))
  | hush hushed => exact hushed.spared
  | canary _ hushed => exact hushed.spared
  | addRefund _ writable | subRefund _ _ writable | store _ _ _ writable
  | meteredStore _ _ _ _ writable | log _ writable | suicide _ writable
  | createFresh _ writable | setNonce _ _ writable | setCode _ _ writable =>
    exact absurd barred writable
  | touch addr performs =>
    obtain ⟨db, run, rfl⟩ := performs
    exact Option.some.inj run ▸ spared_addBalance injective tidy addr
  | createAbsent addr absent performs =>
    obtain ⟨db, run, rfl⟩ := performs
    exact Option.some.inj run ▸ spared_createAccount injective tidy absent
  | @transfer _ self m m' addr value guard run =>
    rcases guard with rfl | ⟨writable, -⟩
    · have debited := spared_subBalance injective tidy self
      have credited := spared_addBalance injective (debited.tidy tidy) addr
      rw [← (Prod.mk.inj run).2]
      exact debited.trans credited
    · exact absurd barred writable
  | snapshot => exact .snapshot _
  | reverted inside back ih =>
    have spared := ih (snapshot_ok ok) ⟨tidy.emptyTrie, tidy.strays⟩ barred
    exact spared.revert (inside.reverts injective ok back) back
  | @run _ _ m _ addr readOnly _ _ ih =>
    refine ih ok tidy (barred.imp_left fun isReadOnly => ?_)
    show (m.readOnly || readOnly) = true
    rw [isReadOnly, Bool.true_or]

/-- From a sound state a machine writes nothing and stays sound. -/
def Sparing (m m' : Machine B) : Prop :=
  m.db.Ok → m.db.Tidy → m'.db.Ok ∧ Spared m.db m'.db

instance : IsPreorder (Machine B) Sparing where
  refl m ok _ := ⟨ok, .refl m.db⟩
  trans _ _ _ first second ok tidy := by
    obtain ⟨ok, spared⟩ := first ok tidy
    exact (second ok (spared.tidy tidy)).imp_right spared.trans

include injective

theorem sparing_quiet {op : Op} (isQuiet : quiet op = true) (performs : Performs m op m')
    : Sparing m m' := by
  have hushed : Hushed m m' := .single (.inl ⟨op, isQuiet, performs⟩)
  exact fun ok _ => ⟨hushed.forward.ok injective ok, hushed.spared⟩

/-- A frame that may write nothing spares the state. -/
theorem sparing_runAt (byzantium : env.rules.isByzantium = true) (n : Nat) (contract : Contract)
    (gas : UInt64) (input : Bytes)
    : Keeps Sparing (runAt env n contract gas input true : Evm B RunResult) := by
  intro m ok tidy
  have admits : Admits env False contract.self contract.self m := fun impossible => impossible.elim
  refine ⟨(((conducts_runAt env False n).any admits).valid injective).1 ok, ?_⟩
  cases n with
  | zero => exact .refl m.db
  | succ n =>
    have does : Does env False False contract.self (m.enter contract.self true)
        (runFrame env (runAt env n) contract gas input true m).2.machine :=
      (tracks_loop (calm_runAt env n) (conducts_runAt env False n) { contract with input := input }
        (gas.toNat + 1) { gas := gas, machine := m.enter contract.self true }).always
    show Spared m.db (interpret env (runAt env n) contract gas input true m).2.db
    unfold interpret
    split
    · exact .refl m.db
    · exact does.spared injective ok ⟨tidy.emptyTrie, tidy.strays⟩ ⟨Bool.or_true _, byzantium⟩

/-- So does a body inside a snapshot. -/
theorem sparing_snapshot {p : Evm B CallResult} (steady : Steadies p) (keeps : Keeps Sparing p)
    : Keeps Sparing (takeSnapshot >>= fun snapshot => p >>= settle snapshot) := by
  intro m ok tidy
  have since := steady m.marked m.db m.db.snapshot.1 (.snapshot injective ok)
  obtain ⟨still, spared⟩ := keeps m.marked (snapshot_ok ok) ⟨tidy.emptyTrie, tidy.strays⟩
  have same (m' : Machine B) (spared : Spared m.marked.db m'.db) : Spared m.db m'.db :=
    (Spared.snapshot m.db).trans spared
  show (Prog.bind p (settle (m.db.snapshot.1, m.burned)) m.marked).2.db.Ok
    ∧ Spared m.db (Prog.bind p (settle (m.db.snapshot.1, m.burned)) m.marked).2.db
  unfold Prog.bind
  generalize p m.marked = ran at since still spared
  obtain ⟨stopped | result, m'⟩ := ran
  · exact ⟨still, same m' spared⟩
  · dsimp only
    unfold settle
    split
    · exact ⟨still, same m' spared⟩
    · obtain ⟨back, reverted, same, run⟩ := revertTo_run injective m.burned since
      have restored := revertToSnapshot_keepsOk still reverted
      simp only [Bind.bind, Prog.bind, run]
      exact ⟨restored, spared.revert same reverted⟩

/-- So does a static call. -/
theorem sparing_staticCall (byzantium : env.rules.isByzantium = true) (n : Nat)
    (caller addr : Address) (input : Bytes) (gas : UInt64)
    : Keeps Sparing (staticCall env (runAt env n) caller addr input gas : Evm B CallResult) := by
  have reads {α β : Type} {op : Op} {value : StateDB B → α} {f : α → Evm B β}
      (isQuiet : quiet op = true) (rest : ∀ a, Keeps Sparing (f a))
      : Keeps Sparing (query op value >>= f) :=
    .bind (keeps_query (sparing_quiet injective isQuiet)) rest
  have touches : Keeps Sparing (perform (.addBalance addr 0) : Evm B Unit) := by
    refine keeps_perform fun performs ok tidy => ⟨(performs.forward nofun).ok injective ok, ?_⟩
    obtain ⟨db, run, rfl⟩ := performs
    exact Option.some.inj run ▸ spared_addBalance injective tidy addr
  have body {callee : Bytes → Contract} : Keeps Sparing (precompileOr env addr input gas
      (runAccount (runAt env n) addr callee gas input true) : Evm B CallResult) := by
    unfold precompileOr
    split
    · exact .pure _
    · exact reads rfl fun _ => reads rfl fun code =>
        .bind (sparing_runAt injective byzantium n _ gas input) fun _ => .pure _
  have steady {callee : Bytes → Contract} : Steadies (perform (.addBalance addr 0) >>= fun _ =>
      precompileOr env addr input gas (runAccount (runAt env n) addr callee gas input true)
      : Evm B CallResult) :=
    .bind (steady_perform injective nofun) fun _ =>
      steady_precompileOr _ _ _ (steady_runAccount injective _ _ _ _ _)
  refine .bind .get fun m => .ite (.pure _) (.ite (.pure _) ?_)
  exact sparing_snapshot injective steady (.bind touches fun _ => body)

end Frames

/-- Since Byzantium a static call writes nothing, however it ends, and restores the flag; and
neither does any step of a read-only frame, the calls it makes included.
-/
theorem staticCall_unwritten (injective : Function.Injective B.hashAddress) (env : Env)
    (byzantium : env.rules.isByzantium = true) {m : Machine B} (reachable : Reachable m.db)
    (tidy : m.db.Tidy)
    : (∀ caller addr input gas,
        let m' := (staticCall env (interpreter env) caller addr input gas m).2
        Unwritten m.db m'.db ∧ m'.readOnly = m.readOnly)
      ∧ ∀ (n : Nat) (contract : Contract) (s : Scope B), s.machine = m → m.readOnly = true
          → let s' := (step env (instructionSet env (runAt env n)) contract s).2
            Unwritten m.db s'.machine.db ∧ s'.machine.readOnly = true := by
  have ok := reachable.ok injective
  refine ⟨fun caller addr input gas => ⟨?_, ?_⟩, ?_⟩
  · exact (sparing_staticCall injective byzantium _ caller addr input gas m ok tidy).2.toUnwritten
  · have admits : Admits env False caller addr m := fun impossible => impossible.elim
    exact (tracks_staticCall (conducts_runAt env False _) admits).always.context.readOnly
  · rintro n contract s rfl isReadOnly
    have does : Does env False False contract.self s.machine
        (step env (instructionSet env (runAt env n)) contract s).2.machine :=
      (tracks_step (calm_runAt env n) (conducts_runAt env False n) contract s).always
    exact ⟨(does.spared injective ok tidy ⟨isReadOnly, byzantium⟩).toUnwritten,
      does.context.readOnly.trans isReadOnly⟩

/-- A static call of code that stores a word, and a store in a read-only frame. -/
theorem staticCall_unwritten_store
    : let m : Machine plainBackend := { db := failingState, readOnly := true }
      Unwritten m.db (staticCall londonEnv (interpreter londonEnv) 1 16 [] 100000 m).2.db
      ∧ Unwritten m.db (step londonEnv (instructionSet londonEnv (runAt londonEnv 0))
          { callerAddress := 1, self := 16, code := [0x55], value := 0 }
          { stack := [0, 1], gas := 100000, machine := m }).2.machine.db := by
  have tidy : failingState.Tidy := ⟨fun _ _ => rfl, nofun⟩
  obtain ⟨calls, steps⟩ := staticCall_unwritten plainBackend_hashAddress_injective londonEnv rfl
    (m := { db := failingState, readOnly := true }) failingState_reachable tidy
  exact ⟨(calls 1 16 [] 100000).1, (steps 0 _ _ rfl rfl).1⟩

end GoBinacoin.Vm
