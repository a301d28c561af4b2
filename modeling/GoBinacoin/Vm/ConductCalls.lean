import GoBinacoin.Vm.Conduct

/-! Calls and creations stay within the account of effects, if the interpreter below does. -/

namespace GoBinacoin.Vm

open Program State

variable {B : Backend}

/-! Parts of calls. -/

/-- Under Berlin, a contract that starts is in the access list, or runs as its caller. -/
def Admits (env : Env) (listing : Prop) (self addr : Address) (m : Machine B) : Prop :=
  listing → env.rules.isBerlin = true → m.db.addressInAccessList addr = true ∨ addr = self

/-- The interpreter's part: a run that did not fail is strict. -/
structure Conducts (env : Env) (listing : Prop) (run : Runner B) : Prop where
  any
    : ∀ {contract gas input readOnly m self}, Admits env listing self contract.self m
      → Does env listing False self m (run contract gas input readOnly m).2
  strict
    : ∀ {contract gas input readOnly m self result}, Admits env listing self contract.self m
      → (run contract gas input readOnly m).1 = .ok result
      → result.err = none ∨ result.err = some .executionReverted
      → Does env listing True self m (run contract gas input readOnly m).2
  creation
    : ∀ {contract gas input readOnly m result}, (run contract gas input readOnly m).1 = .ok result
      → result.err ≠ some .codeStoreOutOfGas

/-- What happens between a snapshot and its settlement; a result without an error is strict. -/
structure Body {α : Type} (env : Env) (listing : Prop) (actor : Address) (err : α → Option VMError)
    (p : Evm B α)
    (m : Machine B)
    : Prop where
  any : Does env listing False actor m (p m).2
  clean : ∀ result, (p m).1 = .ok result → err result = none → Does env listing True actor m (p m).2

/-- A program that starts in `m1` completes or breaks off what was begun in `m`. -/
structure Accounts {α : Type} (env : Env) (listing : Prop) (actor : Address) (m : Machine B)
    (p : Evm B α)
    (m1 : Machine B)
    : Prop where
  any : Does env listing False actor m (p m1).2
  done : ∀ a, (p m1).1 = .ok a → Does env listing True actor m (p m1).2

variable {env : Env} {listing : Prop} {run : Runner B} {self addr : Address} {m m1 : Machine B}

section Parts

variable {α β : Type}

theorem Admits.mono (admits : Admits env listing self addr m)
    (keeps : m.db.addressInAccessList addr = true → m1.db.addressInAccessList addr = true)
    : Admits env listing self addr m1 :=
  fun isListing berlin => (admits isListing berlin).imp_left keeps

variable {p : Evm B α} {f : α → Evm B β} {err : α → Option VMError}

theorem Accounts.tracks (accounts : Accounts env listing self m p m)
    : Abides env listing self p m :=
  .of_outcome (fun a run => ⟨accounts.done a run, trivial⟩) fun _ _ => accounts.any

/-- The machine after a snapshot. -/
def Machine.marked (m : Machine B) : Machine B := m.moved m.db.snapshot.2

section

variable (inside : Does env listing True self m.marked m1)

include inside

theorem Accounts.pure (a : α) : Accounts env listing self m (Pure.pure a) m1 :=
  ⟨(Does.snapshot.seq inside).loose, fun _ _ => Does.snapshot.seq inside⟩

/-- A part that tracks, and then the rest. -/
theorem Accounts.bind {R : α → Machine B → Prop} (first : Tracks (conduct env listing self) p m1 R)
    (second : ∀ a m2, Does env listing True self m.marked m2 → R a m2
      → Accounts env listing self m (f a) m2)
    : Accounts env listing self m (p >>= f) m1 := by
  have follows : After (p >>= f) m1 fun r m2 =>
      Does env listing False self m m2 ∧ ∀ b, r = .ok b → Does env listing True self m m2 := by
    refine Prog.After.bind (Prog.After.mono first fun r m2 holds => ?_)
    rcases r with e | a
    · exact ⟨Does.snapshot.seq (inside.loose.seq holds), nofun⟩
    · have rest := second a m2 (inside.seq holds.1) holds.2
      exact ⟨rest.any, rest.done⟩
  exact ⟨follows.1, follows.2⟩

omit inside in
/-- Reverting breaks off whatever was begun. -/
theorem revertTo_accounts (inside : Does env listing False self m.marked m1)
    : Accounts env listing self m (revertTo (m.db.snapshot.1, m.burned)) m1 := by
  have begun : Does env listing False self m m1 := Does.snapshot.seq inside
  rcases run : m1.db.revertToSnapshot m.db.snapshot.1 with _ | db
  · have value : revertTo (m.db.snapshot.1, m.burned) m1
        = (.error (.panic .stateAccess), m1) := by
      simp only [revertTo, Bind.bind, Prog.bind, perform, Op.run, run]
      rfl
    constructor
    · rw [value]
      exact begun
    · rw [value]
      rintro _ ⟨⟩
  · have value : revertTo (m.db.snapshot.1, m.burned) m1
        = (.ok (), { m1.moved db with burned := m.burned }) := by
      simp only [revertTo, Bind.bind, Prog.bind, perform, Op.run, run]
      rfl
    constructor
    · rw [value]
      exact .reverted inside run
    · rw [value]
      exact fun _ _ => .reverted inside run

omit inside in
/-- The value returned does not matter. -/
theorem Accounts.map (accounts : Accounts env listing self m p m1) (f : α → β)
    : Accounts env listing self m (p >>= fun a => Pure.pure (f a)) m1 := by
  have state : ((p >>= fun a => Pure.pure (f a)) m1).2 = (p m1).2 := by
    simp only [Bind.bind, Prog.bind]
    split
    · rename_i run
      rw [run]
      rfl
    · rename_i run
      rw [run]
  refine ⟨state ▸ accounts.any, fun b run => ?_⟩
  rw [state]
  simp only [Bind.bind, Prog.bind] at run
  split at run
  · rename_i a _ returned
    exact accounts.done a (congrArg Prod.fst returned)
  · cases run

/-- A body, and then what completes or breaks it off. -/
theorem Body.settled {settle : α → Evm B β} (body : Body env listing self err p m1)
    (settles : ∀ a m2, Does env listing False self m.marked m2
      → (err a = none → Does env listing True self m.marked m2)
      → Accounts env listing self m (settle a) m2)
    : Accounts env listing self m (p >>= settle) m1 := by
  have any := inside.loose.seq body.any
  have follows : After (p >>= settle) m1 fun r m2 =>
      Does env listing False self m m2 ∧ ∀ b, r = .ok b → Does env listing True self m m2 := by
    refine Prog.After.bind ?_
    unfold After
    rcases outcome : (p m1).1 with e | result
    · exact ⟨Does.snapshot.seq any, nofun⟩
    · have accounts := settles result _ any fun fine =>
        inside.seq (body.clean result outcome fine)
      exact ⟨accounts.any, accounts.done⟩
  exact ⟨follows.1, follows.2⟩

/-- A call is completed, or reverted if it failed. -/
theorem Body.settle {p : Evm B CallResult} (body : Body env listing self CallResult.err p m1)
    : Accounts env listing self m (p >>= Vm.settle (m.db.snapshot.1, m.burned)) m1 := by
  refine body.settled inside fun result m2 any clean => ?_
  unfold Vm.settle
  split
  · rename_i fine
    exact .pure (clean fine) result
  · exact (revertTo_accounts any).map _

end

theorem Body.pure (a : α) : Body env listing self err (Pure.pure a) m := ⟨.rest, fun _ _ _ => .rest⟩

variable {err' : β → Option VMError}

/-- Two bodies, of which the second fails if the first did. -/
theorem Body.bind (first : Body env listing self err p m)
    (second : ∀ a m', p m = (.ok a, m') → Body env listing self err' (f a) m'
      ∧ ∀ b, (f a m').1 = .ok b → err' b = none → err a = none)
    : Body env listing self err' (p >>= f) m := by
  have follows : After (p >>= f) m fun r m2 =>
      Does env listing False self m m2 ∧ ∀ b, r = .ok b → err' b = none
        → Does env listing True self m m2 := by
    refine Prog.After.bind ?_
    unfold After
    rcases outcome : (p m).1 with e | a
    · exact ⟨first.any, nofun⟩
    · obtain ⟨body, fine⟩ := second a _ (Prod.ext outcome rfl)
      exact ⟨first.any.seq body.any, fun b run clean =>
        (first.clean a outcome (fine b run clean)).seq (body.clean b run clean)⟩
  exact ⟨follows.1, follows.2⟩

theorem Body.after_quiet {err : β → Option VMError}
    (quiet : Quiet p) (rest : ∀ a m', Hushed m m' → Body env listing self err (f a) m')
    : Body env listing self err (p >>= f) m := by
  have first : Body env listing self (fun _ => none) p m :=
    ⟨.hush (quiet m), fun _ _ _ => .hush (quiet m)⟩
  refine first.bind fun a m' run => ⟨rest a m' ?_, fun _ _ _ => rfl⟩
  have hushed := quiet m
  rw [run] at hushed
  exact hushed

theorem Conducts.body (conducts : Conducts env listing run) (contract : Contract)
    (admits : Admits env listing self contract.self m) (gas : UInt64) (input : Bytes)
    (readOnly : Bool)
    : Body env listing self RunResult.err (run contract gas input readOnly) m :=
  ⟨conducts.any admits, fun _ returned fine => conducts.strict admits returned (.inl fine)⟩

theorem Body.map
    (body : Body env listing self err p m) {f : α → β}
    (same : ∀ a, err' (f a) = none → err a = none)
    : Body env listing self err' (p >>= fun a => Pure.pure (f a)) m := by
  refine body.bind fun a m' _ => ⟨.pure (f a), fun b run fine => same a ?_⟩
  rw [Except.ok.inj run]
  exact fine

theorem body_precompileOr {input : Bytes} {gas : UInt64} {go : Evm B CallResult}
    (body : Body env listing self CallResult.err go m)
    : Body env listing self CallResult.err (precompileOr env addr input gas go) m := by
  unfold precompileOr
  split
  · exact .pure _
  · exact body

theorem body_runAccount (conducts : Conducts env listing run) {callee : Bytes → Contract}
    (admits : ∀ code, Admits env listing self (callee code).self m) (gas : UInt64) (input : Bytes)
    (readOnly : Bool)
    : Body env listing self CallResult.err (runAccount run addr callee gas input readOnly) m := by
  refine .after_quiet (quiet_query rfl _) fun _ m1 first =>
    .after_quiet (quiet_query rfl _) fun code m2 second => ?_
  have admits := (admits code).mono (Hushed.listed (first.trans second))
  exact (conducts.body _ admits gas input readOnly).map fun _ => id

theorem body_callBody (conducts : Conducts env listing run) (caller : Address)
    (admits : Admits env listing self addr m) (input : Bytes) (gas : UInt64) (value : Int)
    : Body env listing self CallResult.err (callBody env run caller addr input gas value) m := by
  refine body_precompileOr (.after_quiet (quiet_query rfl _) fun code m1 first => ?_)
  split
  · exact .pure _
  · refine .after_quiet (quiet_query rfl _) fun _ m2 second => ?_
    have admits := admits.mono (Hushed.listed (first.trans second))
    exact (conducts.body _ (by exact admits) gas input false).map fun _ => id

end Parts

/-! Calls. -/

theorem query_value {α : Type} {op : Op} {value : StateDB B → α} {a : α}
    (run : (query op value m).1 = .ok a)
    : a = value m.db := by
  unfold query at run
  split at run
  · exact (Except.ok.inj run).symm
  · cases run

variable {gas : UInt64} {value : Int}

section Calls

variable {input : Bytes}

theorem tracks_refused {go : Evm B CallResult} (tracks : Abides env listing self go m)
    : Abides env listing self (refused env gas go) m := by
  refine .get ?_
  exact .ite (fun _ => .pure trivial) fun _ => .ite (fun _ => .pure trivial) fun _ => tracks

/-- The balance is compared before a transfer. -/
theorem tracks_canTransfer
    : Tracks (conduct env listing self) (canTransfer self value) m fun affordable m' =>
        Hushed m m' ∧ (affordable = true → value ≤ m.db.balanceOf self) := by
  refine (simple_canTransfer self value).quiet.tracks fun affordable run hushed =>
    ⟨hushed, fun yes => ?_⟩
  have value := m.db.getBalance_value self
  simp only [canTransfer, getBalance, query, Op.run, Bind.bind, Prog.bind] at run
  have same := Except.ok.inj run
  rw [yes] at same
  exact value ▸ of_decide_eq_true same

theorem tracks_affords
    : Tracks (conduct env listing self) (affords self value) m fun affordable m' =>
        Hushed m m' ∧ (affordable = true → value = 0 ∨ value ≤ m.db.balanceOf self) := by
  refine .ite (fun _ => tracks_canTransfer.mono fun _ _ _ holds => ?_) fun zero => ?_
  · exact ⟨holds.1, fun yes => .inr (holds.2 yes)⟩
  · exact .pure ⟨.refl, fun _ => .inl (not_not.mp zero)⟩

/-- A transfer of what the caller has. -/
theorem tracks_transfer
    (guard : value = 0 ∨ Writable env m ∧ 0 ≤ value ∧ value ≤ m.db.balanceOf self)
    : Tracks (conduct env listing self) (transfer self addr value) m fun _ m' =>
        ∀ other, m.db.addressInAccessList other = true
          → m'.db.addressInAccessList other = true := by
  obtain ⟨middle, m', first, second, run⟩ := transfer_run self addr value m
  rw [← m.db.getBalance_value] at guard
  refine .of_outcome (fun _ _ => ?_) fun e stopped => ?_
  · rw [run]
    exact ⟨.transfer addr value guard run, fun other listed =>
      second.listed nofun (first.listed nofun listed)⟩
  · rw [run] at stopped
    cases stopped

theorem tracks_takeSnapshot {α : Type} {f : Nat × List (Address × Int) → Evm B α}
    (rest : Accounts env listing self m (f (m.db.snapshot.1, m.burned)) m.marked)
    : Abides env listing self (takeSnapshot >>= f) m :=
  Accounts.tracks ⟨rest.any, rest.done⟩

/-- An account that does not exist is created; balances and the access list stay. -/
theorem tracks_createAbsent {found : Bool} (isFound : found = (m.db.exist addr).1)
    : Tracks (conduct env listing self) (performIf (!found) (.createAccount addr)) m fun _ m' =>
        (∀ other, m'.db.balanceOf other = m.db.balanceOf other)
        ∧ ∀ other, m.db.addressInAccessList other = true
          → m'.db.addressInAccessList other = true := by
  refine .ite (fun absent => tracks_perform fun {m'} performs => ⟨?_, ?_, ?_⟩) fun _ => ?_
  · have absent : (m.db.exist addr).1 = false := by simpa [isFound] using absent
    exact .createAbsent addr absent performs
  · obtain ⟨db, run, rfl⟩ := performs
    rw [← Option.some.inj run]
    exact m.db.balanceOf_createAccount addr
  · exact fun other => performs.listed nofun
  · exact .pure ⟨fun _ => rfl, fun _ => id⟩

section

variable (conducts : Conducts env listing run)

include conducts

/-- A call, inside its snapshot. -/
theorem tracks_callAccount (admits : Admits env listing self addr m)
    (guard : value = 0 ∨ Writable env m ∧ 0 ≤ value ∧ value ≤ m.db.balanceOf self)
    : Abides env listing self (callAccount env run self addr input gas value) m := by
  refine tracks_takeSnapshot (.bind .rest (R := fun found m2 =>
    found = (m.marked.db.exist addr).1 ∧ Hushed m.marked m2) ((quiet_query rfl _).tracks
      fun found run hushed => ⟨query_value run, hushed⟩) fun found m2 inside facts => ?_)
  obtain ⟨isFound, hushed⟩ := facts
  have alike := hushed.alike
  rw [← alike.exist] at isFound
  split
  · exact .pure inside _
  · refine .bind inside (tracks_createAbsent isFound) fun _ m3 inside facts => ?_
    obtain ⟨balances, listed⟩ := facts
    have guard : value = 0 ∨ Writable env m3 ∧ 0 ≤ value ∧ value ≤ m3.db.balanceOf self := by
      rw [balances, alike.accounts.balance]
      exact guard.imp_right fun ⟨writable, rest⟩ => ⟨inside.context.writable writable, rest⟩
    refine .bind inside (tracks_transfer guard) fun _ m4 inside listed' => ?_
    have admits : Admits env listing self addr m4 :=
      admits.mono fun first => listed' addr (listed addr (hushed.listed first))
    exact (body_callBody conducts self admits input gas value).settle inside

/-- A call, with the checks before it. -/
theorem tracks_call (admits : Admits env listing self addr m)
    (guard : value = 0 ∨ Writable env m ∧ 0 ≤ value)
    : Abides env listing self (call env run self addr input gas value) m := by
  refine tracks_refused (tracks_affords.bind fun affordable m1 _ facts => ?_)
  obtain ⟨hushed, fits⟩ := facts
  refine .ite (fun yes => tracks_callAccount conducts (admits.mono hushed.listed) ?_)
    fun _ => .pure trivial
  rw [hushed.alike.accounts.balance]
  rcases guard with zero | ⟨writable, positive⟩
  · exact .inl zero
  · exact (fits yes).imp_right fun enough => ⟨hushed.context.writable writable, positive, enough⟩

omit conducts in
theorem tracks_asCaller {p : Evm B CallResult}
    (body : Body env listing self CallResult.err p m.marked)
    : Abides env listing self (takeSnapshot >>= fun snapshot => p >>= settle snapshot) m :=
  tracks_takeSnapshot (body.settle .rest)

theorem tracks_callCode
    : Abides env listing self (callCode env run self addr input gas value) m := by
  refine tracks_refused (tracks_canTransfer.bind fun affordable m1 _ _ => .ite (fun _ => ?_)
    fun _ => .pure trivial)
  exact tracks_asCaller (body_precompileOr
    (body_runAccount conducts (by exact fun _ _ _ => .inr rfl) gas input false))

theorem tracks_delegateCall (parent : Contract)
    : Abides env listing parent.self (delegateCall env run parent addr input gas) m :=
  tracks_refused (tracks_asCaller (body_precompileOr
    (body_runAccount conducts (by exact fun _ _ _ => .inr rfl) gas input false)))

/-- A call that may write nothing. -/
theorem tracks_staticCall (admits : Admits env listing self addr m)
    : Abides env listing self (staticCall env run self addr input gas) m := by
  refine tracks_refused (tracks_takeSnapshot (.bind .rest
    (R := fun _ m2 => Performs m.marked (.addBalance addr 0) m2)
    (tracks_perform fun performs => ⟨.touch addr performs, performs⟩)
    fun _ m2 inside performs => ?_))
  have admits : Admits env listing self addr m2 :=
    admits.mono fun first => performs.listed nofun first
  exact (body_precompileOr (body_runAccount conducts (fun _ => admits) gas input true)).settle
    inside

end

end Calls

/-! Creations. -/

section Creations

/-- A creation whose code could not be paid for may stay. -/
def RunResult.fault (result : RunResult) : Option VMError :=
  if result.err = some .codeStoreOutOfGas then none else result.err

variable {result : RunResult}

theorem RunResult.fault_none (fine : result.fault = none)
    : result.err = none ∨ result.err = some .codeStoreOutOfGas := by
  unfold fault at fine
  split at fine
  · rename_i unpaid
    exact .inr unpaid
  · exact .inl fine

/-- Code that may be stored comes from a creation without error. -/
theorem checkCode_fault (paid : result.err ≠ some .codeStoreOutOfGas)
    (fine : (checkCode env result).fault = none)
    : result.err = none := by
  unfold checkCode at fine
  split at fine
  · rename_i large
    exact large.1
  · split at fine
    · rename_i invalid
      exact invalid.1
    · exact (RunResult.fault_none fine).resolve_right paid

/-- The code is stored at the new address. -/
theorem body_storeCode (writable : Writable env m) (result : RunResult)
    : Body env listing self RunResult.fault (storeCode addr result) m := by
  unfold storeCode
  split
  · extract_lets dataGas
    by_cases short : result.gas < dataGas
    · rw [if_pos short]
      exact .pure _
    · rw [if_neg short]
      exact ⟨.setCode addr _ writable ⟨_, rfl, rfl⟩, fun _ _ _ =>
        .setCode addr _ writable ⟨_, rfl, rfl⟩⟩
  · exact .pure _

/-- Code is stored only after a creation without error. -/
theorem storeCode_fault {stored : RunResult}
    (run : (storeCode addr result m).1 = .ok stored) (fine : stored.fault = none)
    : result.fault = none := by
  unfold storeCode at run
  split at run
  · rename_i clean
    simp [RunResult.fault, clean]
  · rw [Except.ok.inj run]
    exact fine

/-- A creation is completed, or reverted if it failed. -/
theorem Body.settleCreate {p : Evm B RunResult} (inside : Does env listing True self m.marked m1)
    (body : Body env listing self RunResult.fault p m1)
    : Accounts env listing self m (p >>= Vm.settleCreate env (m.db.snapshot.1, m.burned)) m1 := by
  refine body.settled inside fun result m2 any clean => ?_
  unfold Vm.settleCreate
  split
  · exact (revertTo_accounts any).map _
  · rename_i kept
    refine .pure (clean ?_) result
    unfold RunResult.fault
    split
    · rfl
    · rename_i paid
      exact not_not.mp fun failed => kept ⟨failed, .inr paid⟩

/-- A deployment runs the code and stores what it returns. -/
theorem body_deployed (conducts : Conducts env listing run) (contract : Contract) (addr : Address)
    (gas : UInt64) (admits : Admits env listing self contract.self m) (writable : Writable env m)
    : Body env listing self RunResult.fault
        (run contract gas [] false >>= fun result => storeCode addr (checkCode env result)) m := by
  refine (conducts.body contract admits gas [] false).bind fun result m' returned => ?_
  have any : Does env listing False self m (run contract gas [] false m).2 := conducts.any admits
  rw [returned] at any
  refine ⟨body_storeCode (any.context.writable writable) _, fun stored run fine => ?_⟩
  have paid := conducts.creation (congrArg Prod.fst returned)
  exact checkCode_fault paid (storeCode_fault run fine)

/-- What a creation relies on between its checks and the transfer. -/
structure Funded (env : Env) (listing : Prop) (caller addr : Address) (value : Int) (m : Machine B)
    : Prop where
  admits : Admits env listing caller addr m
  writable : Writable env m
  positive : 0 ≤ value
  enough : value ≤ m.db.balanceOf caller

section

variable (funded : Funded env listing self addr value m)

include funded

theorem Funded.performs {op : Op}
    (performs : Performs m op m1) (forward : ∀ revid, op ≠ .revertToSnapshot revid)
    (balance : m1.db.balanceOf self = m.db.balanceOf self)
    : Funded env listing self addr value m1 where
  admits := funded.admits.mono (performs.listed forward)
  writable := performs.context.writable funded.writable
  positive := funded.positive
  enough := balance ▸ funded.enough

theorem Funded.hushed (hushed : Hushed m m1)
    : Funded env listing self addr value m1 where
  admits := funded.admits.mono hushed.listed
  writable := hushed.context.writable funded.writable
  positive := funded.positive
  enough := hushed.alike.accounts.balance self ▸ funded.enough

theorem tracks_setNonce (condition : Bool) (holder : Address) (nonce : UInt64)
    : Tracks (conduct env listing self) (performIf condition (.setNonce holder nonce)) m
        fun _ => Funded env listing self addr value := by
  refine .ite (fun _ => tracks_perform fun performs => ?_) fun _ => .pure funded
  refine ⟨.setNonce holder nonce funded.writable performs, funded.performs performs nofun ?_⟩
  obtain ⟨db, run, rfl⟩ := performs
  rw [← Option.some.inj run]
  exact m.db.balanceOf_setNonce holder nonce self

theorem tracks_createFresh
    : Tracks (conduct env listing self) (perform (.createAccount addr)) m
        fun _ => Funded env listing self addr value := by
  refine tracks_perform fun performs => ?_
  refine ⟨.createFresh addr funded.writable performs, funded.performs performs nofun ?_⟩
  obtain ⟨db, run, rfl⟩ := performs
  rw [← Option.some.inj run]
  exact m.db.balanceOf_createAccount addr self

end

/-- The new account runs its code and stores what it returns. -/
theorem tracks_deploy (conducts : Conducts env listing run)
    (funded : Funded env listing self addr value m) (code : Bytes)
    : Abides env listing self (deploy env run self code gas value addr) m := by
  refine tracks_takeSnapshot ?_
  have begun : Writable env m.marked := funded.writable
  have funded : Funded env listing self addr value m.marked :=
    ⟨funded.admits, funded.writable, funded.positive, funded.enough⟩
  refine .bind .rest (tracks_createFresh funded) fun _ m2 inside funded => ?_
  refine .bind inside (tracks_setNonce funded _ addr 1) fun _ m3 inside funded => ?_
  refine .bind inside (tracks_transfer (.inr ⟨funded.writable, funded.positive, funded.enough⟩))
    fun _ m4 inside' listed => ?_
  have admits : Admits env listing self addr m4 := funded.admits.mono (listed addr)
  have writable : Writable env m4 := inside'.context.writable begun
  refine .bind inside' (R := fun _ m5 => m5 = m4) ⟨.rest, rfl⟩ fun m5 m6 inside same => ?_
  subst same
  split
  · exact .pure inside' _
  · let contract : Contract :=
      {
        callerAddress := self
        self := addr
        code := code
        value := value
      }
    have settled := ((body_deployed conducts contract addr gas admits writable).settleCreate
      inside').map fun result : RunResult => (⟨result.ret, addr, result.gas, result.err⟩
        : CreateResult)
    simp only [bind_assoc] at settled
    exact settled

/-- The address of a new contract is warmed up before anything else. -/
theorem tracks_warmAddress (writable : Writable env m) (positive : 0 ≤ value)
    (enough : value ≤ m.db.balanceOf self)
    : Tracks (conduct env listing self)
        (performIf env.rules.isBerlin (.addAddressToAccessList addr))
        m fun _ => Funded env listing self addr value := by
  refine .ite (fun _ => tracks_perform fun performs => ?_) fun early => ?_
  · have hushed : Hushed m _ := .single (.inl ⟨_, rfl, performs⟩)
    refine ⟨.hush hushed, ?_, hushed.context.writable writable, positive, ?_⟩
    · obtain ⟨db, run, rfl⟩ := performs
      rw [← Option.some.inj run]
      exact fun _ _ => .inl (m.db.addAddressToAccessList_listed addr).1
    · exact hushed.alike.accounts.balance self ▸ enough
  · exact .pure ⟨fun _ berlin => absurd berlin early, writable, positive, enough⟩

variable (conducts : Conducts env listing run) (writable : Writable env m) (positive : 0 ≤ value)
  (code : Bytes)
include conducts writable positive

/-- A creation, with the checks before it. -/
theorem tracks_createAt
    : Abides env listing self (createAt env run self code gas value addr) m := by
  refine .get ?_
  refine .ite (fun _ => .pure trivial) fun _ => tracks_canTransfer.bind fun able m2 _ facts => ?_
  obtain ⟨hushed, enough⟩ := facts
  refine .ite (fun yes => ?_) fun _ => .pure trivial
  have writable := hushed.context.writable writable
  rw [← hushed.alike.accounts.balance] at enough
  refine (quiet_query rfl _).andThen fun nonce m3 hushed => ?_
  have writable := hushed.context.writable writable
  rw [← hushed.alike.accounts.balance] at enough
  refine Prog.Tracks.bind (R := fun _ m4 => Writable env m4 ∧ value ≤ m4.db.balanceOf self)
    (tracks_perform fun performs => ⟨.setNonce self _ writable performs,
      performs.context.writable writable, ?_⟩) fun _ m4 _ facts => ?_
  · obtain ⟨db, run, rfl⟩ := performs
    rw [← Option.some.inj run]
    exact (m3.db.balanceOf_setNonce self (nonce + 1) self).symm ▸ enough yes
  refine Prog.Tracks.bind (tracks_warmAddress facts.1 positive facts.2) fun _ m5 _ funded => ?_
  refine (quiet_query rfl _).andThen fun _ m6 first =>
    (quiet_query rfl _).andThen fun _ m7 second => ?_
  have funded := funded.hushed (first.trans second)
  exact .ite (fun _ => .pure trivial) fun _ => tracks_deploy conducts funded code

theorem tracks_create : Abides env listing self (create env run self code gas value) m :=
  (quiet_query rfl _).andThen fun _ _ hushed =>
    tracks_createAt conducts (hushed.context.writable writable) positive code

end Creations

end GoBinacoin.Vm
