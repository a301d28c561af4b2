import GoBinacoin.Vm.ConductCalls

/-! Operations stay within the account of effects: what the checks before an operation guarantee,
and what each family of operations does with it.
-/

namespace GoBinacoin.Vm

open Program State

variable {B : Backend}

/-- A program that changes neither the machine nor the stack. -/
def Still (s s' : Scope B) : Prop := s'.machine = s.machine ∧ s'.stack = s.stack

variable {T : Tracking (Machine B)} {α : Type} {s : Scope B}

section Scopes

/-- Runs of code, by what they do to the machine. -/
abbrev byMachine (T : Tracking (Machine B)) : Tracking (Scope B) := T.of Scope.machine

theorem tracks_still {p : Code B α} {Q : α → Scope B → Prop} (still : Still s (p s).2)
    (holds : ∀ a, (p s).1 = .ok a → Q a (p s).2)
    : Tracks (byMachine T) p s Q := by
  have rest : T.done s.machine (p s).2.machine := still.1 ▸ T.refl _
  exact .of_outcome (fun a run => ⟨rest, holds a run⟩) fun _ _ => T.weaken rest

theorem tracks_pop
    : Tracks (byMachine T) pop s fun x s' => s.stack = x :: s'.stack ∧ s'.machine = s.machine := by
  unfold Tracks After pop
  cases stack : s.stack with
  | nil => exact T.weaken (T.refl _)
  | cons x rest => exact ⟨T.refl _, rfl, rfl⟩

theorem tracks_back (n : Nat)
    : Tracks (byMachine T) (back n) s fun x s' => s' = s ∧ s.stack[n]? = some x := by
  refine .get ?_
  split
  · rename_i x found
    exact .pure ⟨rfl, found⟩
  · exact .stop

theorem tracks_useGas (amount : UInt64)
    : Tracks (byMachine T) (useGas amount) s fun _ => Still s := by
  unfold Tracks After useGas
  split
  · exact ⟨T.refl _, rfl, rfl⟩
  · exact ⟨T.refl _, rfl, rfl⟩

theorem tracks_chargeGas (amount : UInt64)
    : Tracks (byMachine T) (chargeGas amount) s fun _ => Still s :=
  (tracks_useGas amount).bind fun _ _ _ still => .ite (fun _ => .pure still) fun _ => .stop

end Scopes

variable {env : Env} {listing : Prop} {self : Address}

section Parts

theorem tracks_returnGas (amount : UInt64) : Conducted env listing self (returnGas amount) s :=
  ⟨.hush (.of_scratch (.of_note rfl)), trivial⟩

/-- Code that only reads, warms up or keeps notes, and may use gas. -/
abbrev SilentCode (p : Code B α) : Prop :=
  Keeps (fun s s' : Scope B => Hushed s.machine s'.machine) p

instance : IsPreorder (Scope B) fun s s' => Hushed s.machine s'.machine where
  refl _ := .refl
  trans _ _ _ := .trans

variable {p : Code B α}

theorem QuietCode.silent (quiet : QuietCode p) : SilentCode p := fun s => (quiet s).machine

theorem SilentCode.tracks (silent : SilentCode p)
    : Tracks (conductCode env listing self) p s fun _ s' => Hushed s.machine s'.machine :=
  .of_outcome (fun _ _ => ⟨.hush (silent s), silent s⟩) fun _ _ => .hush (silent s)

theorem silent_useGas (amount : UInt64) : SilentCode (useGas amount : Code B Bool) := by
  intro s
  unfold useGas
  split
  · exact .refl
  · exact .refl

theorem silent_returnGas (amount : UInt64) : SilentCode (returnGas amount : Code B Unit) :=
  fun _ => .of_scratch (.of_note rfl)

variable {β : Type} {f : α → Code B β}

theorem tracks_quietThen {m : Machine B} (before : Hushed m s.machine) (quiet : QuietCode p)
    (rest : ∀ a s', Hushed m s'.machine
      → Conducted env listing self (f a) s')
    : Conducted env listing self (p >>= f) s :=
  quiet.silent.tracks.bind fun a s' _ hushed => rest a s' (before.trans hushed)

theorem tracks_machineThen {p : Evm B α} (tracks : Abides env listing self p s.machine)
    (rest : ∀ a s', Conducted env listing self (f a) s')
    : Conducted env listing self (onMachine p >>= f) s := by
  have first : Conducted env listing self (onMachine p) s := tracks_onMachine tracks fun _ _ h => h
  exact first.bind fun a s' _ _ => rest a s'

end Parts

/-! Checks. -/

/-- What the checks before an operation leave: writes are allowed where they are made. -/
structure Cleared (env : Env) (op : OpCode) (operation : Operation B) (s : Scope B) : Prop where
  deep : operation.minStack ≤ s.stack.length
  writes : operation.writes = true → Writable env s.machine
  call : op = .call → Writable env s.machine ∨ s.stack[2]? = some 0

theorem Cleared.still {op : OpCode} {operation : Operation B} {s' : Scope B}
    (cleared : Cleared env op operation s) (still : Still s s')
    : Cleared env op operation s' := by
  obtain ⟨machine, stack⟩ := still
  exact ⟨stack ▸ cleared.deep, machine ▸ cleared.writes, by rw [machine, stack]; exact cleared.call⟩

variable {contract : Contract} {op : OpCode} {operation : Operation B}

section Checks

theorem tracks_checkStack
    : Tracks (byMachine T) (checkStack operation) s fun _ s' =>
        s' = s ∧ operation.minStack ≤ s.stack.length := by
  refine .get ?_
  exact .ite (fun _ => .stop) fun deep => .ite (fun _ => .stop) fun _ =>
    .pure ⟨rfl, Nat.not_lt.mp deep⟩

/-- What may be written is known before the operation. -/
theorem tracks_checkWrites (deep : operation.minStack ≤ s.stack.length)
    : Tracks (byMachine T) (checkWrites env op operation) s fun _ s' =>
        s' = s ∧ Cleared env op operation s := by
  refine .get ?_
  refine .ite (fun _ => .ite (fun _ => .stop) fun noWrite => ?_) fun free => .pure ⟨rfl, ?_⟩
  · refine .ite (fun _ => (tracks_back 2).bind fun value s' _ found => ?_) fun other =>
      .pure ⟨rfl, deep, fun writes => absurd writes noWrite, fun isCall => absurd isCall other⟩
    obtain ⟨rfl, found⟩ := found
    refine .ite (fun _ => .stop) fun zero => .pure ⟨rfl, deep, fun writes => absurd writes noWrite,
      fun _ => .inr ?_⟩
    rw [found, not_not.mp zero]
  · have writable : Writable env s.machine := fun ⟨readOnly, byzantium⟩ =>
      free (by rw [readOnly, byzantium]; rfl)
    exact ⟨deep, fun _ => writable, fun _ => .inl writable⟩

/-- The size of the memory is only read from the stack. -/
theorem tracks_requestedMemory (hush : ∀ {m m'}, Hushed m m' → T.done m m')
    (sound : Sound operation) (quiet : ∀ size, operation.memorySize = some size → QuietCode size)
    (deep : operation.minStack ≤ s.stack.length)
    : Tracks (byMachine T) (requestedMemory operation) s fun _ s' => s' = s := by
  have silent : QuietCode (requestedMemory operation) := by
    unfold requestedMemory
    split
    · exact .pure _
    · rename_i size asks
      exact .bind (quiet size asks) fun _ => .bind (quiet_checked _) fun _ => quiet_checked _
  have done : T.done s.machine (requestedMemory operation s).2.machine := hush (silent s).machine
  have tracks : Tracks (byMachine T) (requestedMemory operation) s fun _ _ => True :=
    .of_outcome (fun _ _ => ⟨done, trivial⟩) fun _ _ => T.weaken done
  exact (tracks.also (ensures_requestedMemory sound deep)).mono fun _ _ _ holds => holds.2.1

/-- The cost is tracked if its function is. -/
theorem tracks_dynamicCost {R : Scope B → Prop} {memorySize : UInt64}
    (none : operation.dynamicGas = none → R s)
    (gas : ∀ gas, operation.dynamicGas = some gas
      → Tracks (byMachine T) (gas contract memorySize) s fun _ => R)
    : Tracks (byMachine T) (dynamicCost operation contract memorySize) s fun _ => R := by
  unfold dynamicCost
  split
  · rename_i unmetered
    exact .pure (none unmetered)
  · rename_i gasFunc metered
    have tracks := gas gasFunc metered
    refine Prog.After.bind (Prog.after_attempt.mpr (Prog.After.mono tracks fun r s' holds => ?_))
    rcases r with e | cost
    · cases e with
      | err e => exact holds
      | panic f => exact holds
    · exact holds

/-- Once the checks are passed, an operation is tracked from its gas function on. -/
theorem tracks_prepare (hush : ∀ {m m'}, Hushed m m' → T.done m m')
    {R : List Word → Machine B → Prop} (sound : Sound operation)
    (quiet : ∀ size, operation.memorySize = some size → QuietCode size)
    (cost : ∀ s' memorySize, Still s s' → Cleared env op operation s'
      → Tracks (byMachine T) (dynamicCost operation contract memorySize) s'
          fun _ s'' => R s''.stack s''.machine)
    : Tracks (byMachine T) (prepare env contract op operation) s fun _ s' =>
        Cleared env op operation s ∧ R s'.stack s'.machine := by
  refine tracks_checkStack.bind fun _ s1 _ facts => ?_
  obtain ⟨rfl, deep⟩ := facts
  refine (tracks_checkWrites deep).bind fun _ s2 _ facts => ?_
  obtain ⟨rfl, cleared⟩ := facts
  refine (tracks_chargeGas _).bind fun _ s3 _ still => ?_
  have ready := cleared.still still
  refine (tracks_requestedMemory hush sound quiet ready.deep).bind fun memorySize s4 _ same => ?_
  obtain rfl := same
  refine (cost s4 memorySize still ready).bind fun _ s5 _ holds => ?_
  refine (tracks_chargeGas _).bind fun _ s6 _ same => ?_
  have resized : Still s5 (resizeMemory memorySize s6).2 := by
    show Still s5 (if memorySize > 0 then { s6 with mem := s6.mem.resize memorySize } else s6)
    split
    · exact same
    · exact same
  have last : Still s6 (resizeMemory memorySize s6).2 :=
    ⟨resized.1.trans same.1.symm, resized.2.trans same.2.symm⟩
  refine tracks_still last fun _ _ => ⟨cleared, ?_⟩
  rw [resized.1, resized.2]
  exact holds

end Checks

section Steps

/-- What follows the execution of an operation concerns the scope only. -/
theorem tracks_conclude (env : Env) (listing : Prop) (self : Address) (res : Bytes)
    : Conducted env listing self (do
        keepReturnData operation res
        conclude operation res) s := by
  refine Prog.Tracks.bind (R := fun _ _ => True) ?_ fun _ s' _ _ => ?_
  · refine .ite (fun _ => ?_) fun _ => .pure trivial
    exact ⟨.hush (.of_scratch (.of_fields s.machine.callGasTemp res)), trivial⟩
  · refine .ite (fun _ => .pure trivial) fun _ => .ite (fun _ => .pure trivial) fun _ =>
      .ite (fun _ => .pure trivial) fun _ => ?_
    exact ⟨.rest, trivial⟩

theorem tracks_stepOperation {R : List Word → Machine B → Prop} (sound : Sound operation)
    (quiet : ∀ size, operation.memorySize = some size → QuietCode size)
    (cost : ∀ s' memorySize, Still s s' → Cleared env op operation s'
      → Tracks (conductCode env listing contract.self)
        (dynamicCost operation contract memorySize) s'
          fun _ s'' => R s''.stack s''.machine)
    (execute : ∀ s', Cleared env op operation s → R s'.stack s'.machine
      → Does env listing True contract.self s.machine s'.machine
      → Conducted env listing contract.self (operation.execute contract) s')
    : Conducted env listing contract.self (stepOperation env contract op operation) s :=
  (tracks_prepare Does.hush sound quiet cost).bind fun _ s' before facts =>
    (execute s' facts.1 facts.2 before).bind fun res _ _ _ => tracks_conclude _ _ _ res

theorem tracks_quietOperation (sound : Sound operation)
    (quiet : ∀ size, operation.memorySize = some size → QuietCode size)
    (gas : ∀ gas memorySize, operation.dynamicGas = some gas → QuietCode (gas contract memorySize))
    (execute : QuietCode (operation.execute contract))
    : Conducted env listing contract.self (stepOperation env contract op operation) s :=
  tracks_stepOperation (R := fun _ _ => True) sound quiet
    (fun _ _ _ _ => tracks_dynamicCost (fun _ => trivial) fun gasFunc metered =>
      (gas gasFunc _ metered).tracks)
    fun _ _ _ _ => execute.tracks

theorem tracks_writeOperation (sound : Sound operation) (writes : operation.writes = true)
    (quiet : ∀ size, operation.memorySize = some size → QuietCode size)
    (gas : ∀ gas memorySize s', operation.dynamicGas = some gas → Writable env s'.machine
      → Conducted env listing contract.self (gas contract memorySize) s')
    (execute : ∀ s', Writable env s'.machine
      → Conducted env listing contract.self (operation.execute contract) s')
    : Conducted env listing contract.self (stepOperation env contract op operation) s :=
  tracks_stepOperation (R := fun _ _ => True) sound quiet
    (fun _ _ _ cleared => tracks_dynamicCost (fun _ => trivial) fun gasFunc metered =>
      gas gasFunc _ _ metered (cleared.writes writes))
    fun _ cleared _ before => execute _ (before.context.writable (cleared.writes writes))

end Steps

variable {run : Runner B}

section Writes

theorem tracks_makeLog (n : Nat) (writable : Writable env s.machine)
    : Conducted env listing contract.self (makeLog env n contract) s := by
  refine tracks_quietThen .refl quiet_pop fun _ _ before => tracks_quietThen before quiet_pop
    fun _ _ before => tracks_quietThen before (simpleCode_popTopics n).quiet fun topics _ before =>
      tracks_quietThen before (quiet_readMemory _ _) fun d _ before => ?_
  have writable := Hushed.writable before writable
  exact tracks_machineThen (tracks_perform fun performs => ⟨.log _ writable performs, trivial⟩)
    fun _ _ => .pure trivial

/-- The balance goes to the beneficiary. -/
theorem tracks_opSuicide (writable : Writable env s.machine)
    : Conducted env listing contract.self (opSuicide contract) s := by
  refine tracks_pop.bind fun beneficiary s1 _ first => ?_
  have writable : Writable env s1.machine := first.2 ▸ writable
  obtain ⟨_, _, _, -, -, -, run⟩ := suicideTo_run contract.self (wordAddress beneficiary) s1.machine
  refine tracks_machineThen (.of_outcome (fun _ _ => ?_) fun e stopped => ?_)
    fun _ _ => .pure trivial
  · rw [run]
    exact ⟨.suicide (wordAddress beneficiary) writable run, trivial⟩
  · rw [run] at stopped
    cases stopped

theorem tracks_refundSelfdestruct {m : Machine B} (writable : Writable env m)
    : Abides env listing self (refundSelfdestruct self) m := by
  refine (quiet_query rfl _).andThen fun _ m' hushed =>
    .ite (fun _ => .pure trivial) fun _ => tracks_perform fun performs => ?_
  exact ⟨.addRefund _ (hushed.context.writable writable) performs, trivial⟩

theorem quiet_selfdestructPrice (env : Env) (self : Address)
    : QuietCode (selfdestructPrice env self : Code B UInt64) := by
  refine .ite
    (.bind (quiet_back 0) fun address => .bind (quiet_onMachine (.ite ?_ ?_)) fun _ => .pure _)
    (.pure _)
  · exact (simple_selfdestructNewAccount _ _).quiet
  · exact .bind (quiet_query rfl _) fun _ => .pure _

/-- The cost of a destruction may add to the refund. -/
theorem tracks_selfdestructGas {price : UInt64} {gas : GasFunc B}
    (scheme : SelfdestructGas env price gas) (writable : Writable env s.machine)
    (memorySize : UInt64)
    : Conducted env listing contract.self (gas contract memorySize) s := by
  have refund {s' : Scope B} (hushed : Hushed s.machine s'.machine) {f : Unit → Code B UInt64}
      (rest : ∀ u s'', Conducted env listing contract.self (f u) s'')
      : Conducted env listing contract.self
          (onMachine (refundSelfdestruct contract.self) >>= f) s' :=
    tracks_machineThen (tracks_refundSelfdestruct (hushed.context.writable writable)) rest
  have eip2929 (refundsEnabled : Bool)
      : Conducted env listing contract.self
          (makeSelfdestructGasFn refundsEnabled contract memorySize) s := by
    refine tracks_quietThen .refl (quiet_back 0) fun address _ before =>
      tracks_quietThen before (quiet_onMachine (simple_warmAddress _).quiet) fun warm _ before =>
        tracks_quietThen before (quiet_onMachine (simple_selfdestructNewAccount _ _).quiet)
          fun created _ before => ?_
    cases refundsEnabled with
    | true => exact refund before fun _ _ => .pure trivial
    | false => exact .pure trivial
  cases scheme with
  | legacy =>
    exact tracks_quietThen .refl (quiet_selfdestructPrice env contract.self) fun gas _ before =>
      refund before fun _ _ => .pure trivial
  | eip2929 => exact eip2929 true
  | eip3529 => exact eip2929 false

theorem tracks_finishCreate (success : Bool) (result : CreateResult)
    : Conducted env listing self (finishCreate success result) s :=
  tracks_quietThen .refl (quiet_push _) fun _ _ _ =>
    (tracks_returnGas _).bind fun _ _ _ _ => .pure trivial

theorem tracks_createGas (reserve : Bool)
    : Tracks (conductCode env listing self) (createGas reserve) s fun _ s' =>
        s'.machine = s.machine := by
  refine .get ?_
  exact (tracks_useGas _).bind fun _ _ _ still => .pure still.1

variable (conducts : Conducts env listing run) (writable : Writable env s.machine)
include conducts writable

theorem tracks_opCreate : Conducted env listing contract.self (opCreate env run contract) s := by
  refine tracks_quietThen .refl quiet_pop fun value _ before => tracks_quietThen before quiet_pop
    fun offset _ before => tracks_quietThen before quiet_pop fun size _ before =>
      tracks_quietThen before (quiet_readMemory _ _) fun input _ before =>
        (tracks_createGas _).bind fun gas s' _ same => ?_
  have writable : Writable env s'.machine := same ▸ Hushed.writable before writable
  exact tracks_machineThen (tracks_create conducts writable (Int.natCast_nonneg _) input)
    fun result _ => tracks_finishCreate _ _

/-- A creation at an address that the salt gives. -/
theorem tracks_opCreate2 : Conducted env listing contract.self (opCreate2 env run contract) s := by
  refine tracks_quietThen .refl quiet_pop fun value _ before => tracks_quietThen before quiet_pop
    fun offset _ before => tracks_quietThen before quiet_pop fun size _ before =>
      tracks_quietThen before quiet_pop fun salt _ before =>
        tracks_quietThen before (quiet_readMemory _ _) fun input _ before =>
          (tracks_createGas _).bind fun gas s' _ same => ?_
  have writable : Writable env s'.machine := same ▸ Hushed.writable before writable
  exact tracks_machineThen (tracks_createAt conducts writable (Int.natCast_nonneg _) input)
    fun result _ => tracks_finishCreate _ _

end Writes

/-! Operations that call. -/

variable {warm : Bool}

section CallOperations

/-- Where calls warm up addresses, the address that is called is in the access list. -/
theorem warmAddress_listed (addr : Address) (m : Machine B)
    : ∃ warm m', warmAddress addr m = (.ok warm, m') ∧ m'.db.addressInAccessList addr = true := by
  rcases listed : m.db.addressInAccessList addr with _ | _
  · refine ⟨false, m.moved (m.db.addAddressToAccessList addr), ?_,
      (m.db.addAddressToAccessList_listed addr).1⟩
    simp only [warmAddress, addressInAccessList, Bind.bind, Prog.bind, Prog.get, Pure.pure,
      Prog.pure, listed, Bool.false_eq_true, if_false]
    rfl
  · refine ⟨true, m, ?_, listed⟩
    simp [warmAddress, addressInAccessList, Bind.bind, Prog.bind, Prog.get, Pure.pure, Prog.pure,
      listed]

variable {old gas : GasFunc B} {withValue : Bool}
  {enter : Contract → Address → Bytes → UInt64 → Int → Evm B CallResult}

/-- An address is listed once it was warmed. -/
theorem tracks_warmAddress_listed (addr : Address)
    : Tracks (conductCode env listing self) (onMachine (warmAddress addr)) s fun _ s' =>
        Hushed s.machine s'.machine ∧ s'.machine.db.addressInAccessList addr = true := by
  obtain ⟨warm, m', run, listed⟩ := warmAddress_listed addr s.machine
  have hushed := (simple_warmAddress addr).quiet s.machine
  rw [run] at hushed
  refine tracks_onMachine (Q := fun _ m'' => m'' = m') ?_ fun _ m'' same => ?_
  · refine .of_outcome (fun _ _ => ?_) fun e stopped => ?_
    · rw [run]
      exact ⟨.hush hushed, rfl⟩
    · rw [run] at stopped
      cases stopped
  · subst same
    exact ⟨hushed, listed⟩

/-- The gas function of a call reads and warms up, and what is called may start. -/
theorem tracks_callGas (callGas : CallGas warm old gas)
    (quiet : ∀ memorySize, QuietCode (old contract memorySize))
    (warms : env.rules.isBerlin = true → warm = true) (memorySize : UInt64)
    : Tracks (conductCode env listing contract.self) (gas contract memorySize) s fun _ s' =>
        Hushed s.machine s'.machine
        ∧ ∀ x, s.stack[1]? = some x
          → Admits env listing contract.self (wordAddress x) s'.machine := by
  subst callGas
  rcases warm with _ | _
  · refine .of_outcome (fun _ _ => ?_) fun _ _ => .hush (quiet memorySize s).machine
    exact ⟨.hush (quiet memorySize s).machine, (quiet memorySize s).machine,
      fun _ _ _ berlin => absurd (warms berlin) Bool.false_ne_true⟩
  · refine (tracks_back 1).bind fun x s1 _ found => ?_
    obtain ⟨rfl, found⟩ := found
    refine (tracks_warmAddress_listed (wordAddress x)).bind fun present s2 _ facts => ?_
    obtain ⟨hushed, listed⟩ := facts
    have rest : SilentCode (if present then old contract memorySize
        else do
          let paid ← useGas coldCost
          if paid then
            let gas ← old contract memorySize
            returnGas coldCost
            onMachine (gasSum gas coldCost)
          else Prog.stop (.err .outOfGas)) := by
      split
      · exact (quiet memorySize).silent
      · refine .bind (silent_useGas _) fun paid => ?_
        split
        · exact .bind (quiet memorySize).silent fun _ =>
            .bind (silent_returnGas _) fun _ => (quiet_onMachine (quiet_gasSum _ _)).silent
        · exact fun _ => .refl
    refine rest.tracks.mono fun _ s3 _ later => ⟨hushed.trans later, fun y isY _ _ => .inl ?_⟩
    rw [found] at isY
    rw [← Option.some.inj isY]
    exact later.listed listed

theorem quiet_addStipend (temp : UInt64) (value : Word)
    : Quiet (addStipend temp value : Evm B UInt64) :=
  .ite (quiet_gasSum _ _) (.pure _)

theorem quiet_storeOutput (retOffset retSize : Word) (args : Bytes) (result : CallResult)
    : QuietCode (storeOutput retOffset retSize args result : Code B Unit) :=
  .ite (quiet_changeMemory _) (.pure _)

theorem tracks_finishCall {inOffset inSize retOffset retSize : Word}
    {args : Bytes} {result : CallResult}
    : Conducted env listing self
        (finishCall inOffset inSize retOffset retSize args result) s := by
  refine tracks_quietThen .refl (quiet_push _) fun _ _ before =>
    tracks_quietThen before (quiet_storeOutput _ _ _ _) fun _ _ _ =>
      (tracks_returnGas _).bind fun _ _ _ _ => ?_
  split
  · exact .pure trivial
  · exact (quiet_readMemory _ _).tracks

/-- All operations that call, by the call they make. -/
theorem tracks_callOp
    (enters : ∀ addr value args gas m, s.stack[1]? = some addr
      → (withValue = true → s.stack[2]? = some value) → Hushed s.machine m
      → Abides env listing contract.self
          (enter contract (wordAddress addr) args gas value.toNat) m)
    : Conducted env listing contract.self (callOp withValue enter contract) s := by
  refine tracks_pop.bind fun _ s1 _ first => ?_
  refine .get ?_
  refine tracks_pop.bind fun addr s3 _ second => ?_
  have popped : s3.machine = s.machine := second.2.trans first.2
  have third : Tracks (conductCode env listing contract.self) (popValue withValue) s3
      fun value s4 =>
      (withValue = true → s.stack[2]? = some value) ∧ Hushed s.machine s4.machine := by
    refine .ite (fun _ => tracks_pop.mono fun value s4 _ third => ?_) fun without =>
      .pure ⟨fun yes => absurd yes without, popped ▸ .refl⟩
    rw [first.1, second.1, third.1, third.2, popped]
    exact ⟨fun _ => rfl, .refl⟩
  refine third.bind fun value s4 _ facts => ?_
  refine tracks_quietThen facts.2 quiet_pop fun inOffset _ before =>
    tracks_quietThen before quiet_pop fun inSize _ before =>
      tracks_quietThen before quiet_pop fun retOffset _ before =>
        tracks_quietThen before quiet_pop fun retSize _ before =>
          tracks_quietThen before (quiet_readMemory _ _) fun args _ before =>
            tracks_quietThen before (quiet_onMachine (quiet_addStipend _ _)) fun gas s' before => ?_
  refine tracks_machineThen (enters addr value args gas s'.machine ?_ facts.1 before)
    fun result s'' => tracks_finishCall
  rw [first.1, second.1]
  rfl

/-- An operation that calls: the address is warm by then, and the value was checked. -/
theorem tracks_callOperation
    (sound : Sound operation) (executes : operation.execute = callOp withValue enter)
    (metered : operation.dynamicGas = some gas) (callGas : CallGas warm old gas)
    (quietGas : ∀ memorySize, QuietCode (old contract memorySize))
    (warms : env.rules.isBerlin = true → warm = true)
    (quiet : ∀ size, operation.memorySize = some size → QuietCode size)
    (enters : ∀ addr (value : Word) args gas m,
      Admits env listing contract.self (wordAddress addr) m
      → (op = .call → withValue = true → Writable env m ∨ value = 0)
      → Abides env listing contract.self
          (enter contract (wordAddress addr) args gas value.toNat) m)
    : Conducted env listing contract.self (stepOperation env contract op operation) s := by
  refine tracks_stepOperation (R := fun stack m => stack = s.stack ∧ Hushed s.machine m
    ∧ ∀ x, s.stack[1]? = some x → Admits env listing contract.self (wordAddress x) m) sound quiet
    (fun s' memorySize still cleared => tracks_dynamicCost (fun unmetered => ?_)
      fun gasFunc isGas => ?_) fun s' cleared facts _ => ?_
  · rw [metered] at unmetered
    cases unmetered
  · obtain rfl : gas = gasFunc := Option.some.inj (metered.symm.trans isGas)
    have held := sound.gas gas metered contract memorySize s' cleared.deep
    refine (tracks_callGas callGas quietGas warms memorySize).also held |>.mono
      fun _ s'' _ facts => ?_
    rw [still.1, still.2] at facts
    exact ⟨facts.2.1.stack.trans still.2, facts.1⟩
  · obtain ⟨stack, hushed, admits⟩ := facts
    rw [executes]
    refine tracks_callOp fun addr value args gas m isAddr isValue later => ?_
    rw [stack] at isAddr isValue
    refine enters addr value args gas m ((admits addr isAddr).mono later.listed)
      fun isCall withValue => ?_
    refine (cleared.call isCall).imp (Hushed.writable (hushed.trans later)) fun zero => ?_
    exact Option.some.inj ((isValue withValue).symm.trans zero)

end CallOperations

/-! Storage. -/

section Storage

/-- A store to the slot completes what was begun. -/
def Charged (env : Env) (listing : Prop) (self : Address) (m : Machine B) (key value : Hash)
    (m' : Machine B)
    : Prop :=
  ∀ {last}, Performs m' (.setState self key value) last → Does env listing True self m last

variable {m : Machine B} {store : GasFunc B}

variable {current x y : Hash}

/-- Metering a store at most changes the refund. -/
theorem charge_loose (p : NetMetering) {key value : Hash} (writable : Writable env m)
    : Does env listing False self m (p.charge self key current value m).2 := by
  let R (m m' : Machine B) := Context m m' ∧ (Writable env m → Does env listing False self m m')
  have : IsPreorder (Machine B) R :=
    { refl := fun m => ⟨.refl m, fun _ => .rest⟩
      trans := fun _ _ _ first second => ⟨first.1.trans second.1, fun writable =>
        (first.2 writable).seq (second.2 (first.1.writable writable))⟩ }
  have keeps : Keeps R (p.charge self key current value) := by
    refine keeps_charge p (fun performs => ?_) (fun performs => ?_) (fun performs => ?_)
    · exact ⟨performs.context, fun _ => .hush (.single (.inl ⟨_, rfl, performs⟩))⟩
    · exact ⟨performs.context, fun writable => .addRefund _ writable performs⟩
    · exact ⟨performs.context, fun writable => .subRefund _ id writable performs⟩
  exact (keeps m).2 writable

/-- What a gas function of SSTORE leaves behind when it started in `m`. -/
def ChargedFor (env : Env) (listing : Prop) (self : Address) (m : Machine B) (key value : Hash)
    (r : Except Stop UInt64) (s' : Scope B)
    : Prop :=
  Does env listing False self m s'.machine
  ∧ ∀ cost, r = .ok cost → Charged env listing self m key value s'.machine

/-- The slot and the value of a store, which wait on the stack. -/
def SlotCharged (env : Env) (listing : Prop) (self : Address) (s : Scope B) (m' : Machine B)
    : Prop :=
  ∀ x y, s.stack[0]? = some x → s.stack[1]? = some y
    → Charged env listing self s.machine x y m'

/-- What a gas function of SSTORE leaves behind. -/
abbrev Charges (env : Env) (listing : Prop) (self : Address) (p : Code B UInt64) (s : Scope B)
    : Prop :=
  After p s fun r s' =>
    Does env listing False self s.machine s'.machine
    ∧ ∀ cost, r = .ok cost → SlotCharged env listing self s s'.machine

theorem after_back {n : Nat} {Q : Except Stop Word → Scope B → Prop}
    (present : ∀ x, s.stack[n]? = some x → Q (.ok x) s)
    (missing : s.stack[n]? = none → Q (.error (.panic .stackIndex)) s)
    : After (back n) s Q := by
  refine Prog.After.bind (after_get.mpr ?_)
  dsimp only
  cases found : s.stack[n]? with
  | some x => exact present x found
  | none => exact missing found

/-- The slot is read before it is charged for. -/
theorem charges_readSlot {f : Hash → Hash → Hash → Code B UInt64}
    (rest : ∀ x y s', s.stack[0]? = some x → s.stack[1]? = some y → Hushed s.machine s'.machine
      → After (f x y (s.machine.db.getState contract.self x).1) s'
          (ChargedFor env listing contract.self s.machine x y))
    : Charges env listing contract.self (do
        let y ← back 1
        let x ← back 0
        let current ← onMachine (getState contract.self x)
        f x y current) s := by
  refine Prog.After.bind (after_back (fun y isY => ?_) fun _ => ⟨.rest, nofun⟩)
  refine Prog.After.bind (after_back (fun x isX => ?_) fun _ => ⟨.rest, nofun⟩)
  have quiet : Quiet (getState contract.self x : Evm B Hash) := quiet_query rfl _
  have charged := rest x y { s with machine := (getState contract.self x s.machine).2 } isX isY
    (quiet s.machine)
  refine Prog.After.bind ?_
  exact ⟨charged.1, fun cost done x' y' isX' isY' => by
    obtain rfl := Option.some.inj (isX.symm.trans isX')
    obtain rfl := Option.some.inj (isY.symm.trans isY')
    exact charged.2 cost done⟩

theorem charges_netMetering (p : NetMetering) (scheme : p.clearRefund = env.clearRefund)
    (writable : Writable env m) (hushed : Hushed m s.machine)
    : After (onMachine (p.charge self x (m.db.getState self x).1 y)) s
        (ChargedFor env listing self m x y) := by
  refine Prog.after_within.mpr ⟨?_, fun cost run last performs => ?_⟩
  · exact Does.seq (.hush hushed) (charge_loose p (hushed.writable writable))
  · exact .meteredStore p x y scheme writable hushed (Prod.ext run rfl) performs

/-- The first rules: only clearing a slot is refunded. -/
theorem charges_legacy (clear : env.clearRefund = 0) (writable : Writable env m)
    (hushed : Hushed m s.machine)
    : After (if current = 0 ∧ y ≠ 0 then return sstoreSetGas
        else if current ≠ 0 ∧ y = 0 then do
          onMachine (addRefund sstoreRefundGas)
          return sstoreClearGas
        else return sstoreResetGas) s (ChargedFor env listing self m x y) := by
  have store {m' last : Machine B} (before : Does env listing True self m m')
      (performs : Performs m' (.setState self x y) last)
      : Does env listing True self m last :=
    before.seq (.store x y (fun _ => clear) (before.context.writable writable) performs)
  have plain (price : UInt64) : ChargedFor env listing self m x y (.ok price) s :=
    ⟨.hush hushed, fun _ _ _ performs => store (.hush hushed) performs⟩
  split
  · exact plain _
  · split
    · have refunded : Does env listing True self m (addRefund sstoreRefundGas s.machine).2 :=
        Does.seq (.hush hushed) (.addRefund _ (hushed.writable writable) ⟨_, rfl, rfl⟩)
      exact ⟨refunded.loose, fun _ _ _ performs => store refunded performs⟩
    · exact plain _

/-- The gas functions since EIP-2200 refuse to run on the stipend of a call. -/
theorem charges_sentry {p : Code B UInt64} {Q : Except Stop UInt64 → Scope B → Prop}
    (stopped : Q (.error (.err .reentrancySentry)) s) (after : After p s Q)
    : After (do
        let s ← Prog.get
        if s.gas ≤ sstoreSentryGasEIP2200 then Prog.stop (.err .reentrancySentry) else p) s Q := by
  refine Prog.After.bind (after_get.mpr ?_)
  show After (if s.gas ≤ sstoreSentryGasEIP2200 then Prog.stop (.err .reentrancySentry)
    else p) s Q
  split
  · exact stopped
  · exact after

/-- A slot is warmed, and the rest is hushed. -/
theorem after_coldSlotCost (env : Env) (listing : Prop) (self : Address) (slot : Hash)
    (m : Machine B)
    : After (coldSlotCost self slot) m fun r m' =>
        match r with
        | .ok _ => Hushed m m'
        | .error _ => Does env listing False self m m' := by
  refine Prog.After.bind (after_get.mpr ?_)
  rcases lookup : m.db.slotInAccessList self slot with _ | present
  · have run : slotInAccessList self slot m = (.error (.panic .stateAccess), m) := by
      simp only [slotInAccessList, Bind.bind, Prog.bind, Prog.get, lookup]
      rfl
    exact Prog.After.bind (.of_run run .rest)
  · have run : slotInAccessList self slot m = (.ok present, m) := by
      simp only [slotInAccessList, Bind.bind, Prog.bind, Prog.get, lookup]
      rfl
    refine Prog.After.bind (.of_run run ?_)
    have isListed := StateDB.slotInAccessList_address lookup
    obtain ⟨addrPresent, slotPresent⟩ := present
    rcases slotPresent with _ | _
    · have quiet : Quiet (perform (.addSlotToAccessList self slot) : Evm B Unit) :=
        quiet_perform rfl
      have hushed := quiet m
      refine Prog.After.bind ?_
      unfold After
      rcases (perform (.addSlotToAccessList self slot) m).1 with e | _
      · exact .hush hushed
      · cases addrPresent with
        | true => exact hushed
        | false => exact .canary isListed.symm hushed
    · exact .refl

/-- The rules since the access lists. -/
theorem charges_makeGasSStoreFunc {clearingRefund : UInt64}
    (scheme : clearingRefund = env.clearRefund) (writable : Writable env s.machine)
    (memorySize : UInt64)
    : Charges env listing contract.self
        (makeGasSStoreFunc clearingRefund contract memorySize) s := by
  refine charges_sentry ⟨.rest, nofun⟩ (charges_readSlot fun x y s1 _ _ hushed => ?_)
  refine Prog.After.bind (Prog.after_within.mpr ?_)
  refine Prog.After.mono (after_coldSlotCost env listing contract.self x s1.machine)
    fun r m' after => ?_
  rcases r with e | cost
  · exact ⟨Does.seq (.hush hushed) after, nofun⟩
  · exact charges_netMetering (s := { s1 with machine := m' }) (eip2929 cost clearingRefund)
      scheme writable (hushed.trans after)

/-- Every rule in force charges for the slot that is stored. -/
theorem charges_metering (listing : Prop) (metering : Metering env store warm)
    (writable : Writable env s.machine) (memorySize : UInt64)
    : Charges env listing contract.self (store contract memorySize) s := by
  cases metering with
  | legacy london berlin istanbul =>
    refine charges_readSlot fun x y s1 _ _ hushed => ?_
    split
    · rename_i early
      refine charges_legacy ?_ writable hushed
      cases petersburg : env.rules.isPetersburg <;>
        simp_all [Env.clearRefund]
    · rename_i netted
      refine charges_netMetering eip1283 ?_ writable hushed
      simp_all [Env.clearRefund, eip1283]
  | istanbul london berlin istanbul =>
    refine charges_sentry ⟨.rest, nofun⟩ (charges_readSlot fun x y s1 _ _ hushed => ?_)
    exact charges_netMetering eip2200 (by simp [Env.clearRefund, eip2200, *]) writable hushed
  | berlin london berlin =>
    exact charges_makeGasSStoreFunc (by simp [Env.clearRefund, *]) writable memorySize
  | london london =>
    exact charges_makeGasSStoreFunc (by simp [Env.clearRefund, *]) writable memorySize

/-- Runs that need not have been completed. -/
def looseConduct (env : Env) (listing : Prop) (self : Address) : Tracking (Machine B) where
  done := Does env listing False self
  any := Does env listing False self
  refl _ := .rest
  trans := .seq
  weaken := id
  follow := .seq

/-- A store, charged for before. -/
theorem tracks_sstore (metering : Metering env store warm) (sound : Sound operation)
    (isSstore : operation
      = { plain opSstore 0 2 0 with dynamicGas := some store, writes := true })
    : Conducted env listing contract.self (stepOperation env contract .sstore operation) s := by
  have prepared : Tracks (byMachine (looseConduct env listing contract.self))
      (prepare env contract .sstore operation) s fun _ s' =>
        Cleared env .sstore operation s ∧ s'.stack = s.stack
          ∧ SlotCharged env listing contract.self s s'.machine := by
    subst isSstore
    refine tracks_prepare (R := fun stack m => stack = s.stack
      ∧ SlotCharged env listing contract.self s m) Does.hush sound nofun fun s' memorySize still
      cleared => tracks_dynamicCost nofun fun gas isGas => ?_
    obtain rfl := Option.some.inj isGas
    have held := sound.gas store rfl contract memorySize s' cleared.deep
    have tracks : Tracks (byMachine (looseConduct env listing contract.self))
        (store contract memorySize) s' fun _ s'' =>
          SlotCharged env listing contract.self s' s''.machine := by
      refine Prog.After.mono (charges_metering listing metering (cleared.writes rfl) memorySize)
        fun r s'' facts => ?_
      cases r with
      | ok cost => exact ⟨facts.1, facts.2 cost rfl⟩
      | error e => exact facts.1
    refine (tracks.also held).mono fun _ s'' _ facts => ⟨facts.2.1.stack.trans still.2, ?_⟩
    have charged := facts.1
    unfold SlotCharged at charged
    rw [still.1, still.2] at charged
    exact charged
  refine Prog.After.bind (Prog.After.mono prepared fun r s' facts => ?_)
  rcases r with e | _
  · exact facts
  obtain ⟨-, cleared, stack, charged⟩ := facts
  obtain ⟨x, y, rest, deep⟩ : ∃ x y rest, s.stack = x :: y :: rest := by
    have deep := cleared.deep
    rw [isSstore] at deep
    match whole : s.stack, deep with
    | x :: y :: rest, _ => exact ⟨x, y, rest, rfl⟩
  have performs : Performs s'.machine (.setState contract.self x y) _ := ⟨_, rfl, rfl⟩
  have stored := charged x y (by rw [deep]; rfl) (by rw [deep]; rfl) performs
  have executed : operation.execute contract s' = (.ok [], { s' with
      stack := rest
      machine := s'.machine.moved (s'.machine.db.setState contract.self x y) }) := by
    rw [isSstore]
    show opSstore contract s' = _
    simp only [opSstore, Bind.bind, Prog.bind, pop, stack, deep]
    rfl
  refine Prog.After.bind (.of_run executed
    (Prog.After.mono (tracks_conclude env listing contract.self []) fun r s'' ends => ?_))
  cases r with
  | ok next => exact ⟨stored.seq ends.1, trivial⟩
  | error e => exact stored.loose.seq ends

end Storage

end GoBinacoin.Vm
