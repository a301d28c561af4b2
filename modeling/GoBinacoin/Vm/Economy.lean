import GoBinacoin.Vm.SafeRun

/-! The economy of calls: operations are paid for, and a call returns at most the gas it got. -/

namespace GoBinacoin.Vm

open Program State

variable {B : Backend}

/-- Sums of gas are exact. Frames nest as deep as calls are let through, or as they did before. -/
def Event.Fair (depth : Nat) : Event B → Prop
  | .gasSum x y => x.toNat + y.toNat < 2 ^ 64
  | .state frames _ => frames.length ≤ max depth (callCreateDepth + 1)
  | .canary _ _ => True

/-- At most `n` operations were dispatched, and the events are fair. -/
structure Spent (n : Nat) (m m' : Machine B) : Prop where
  steps : m'.steps ≤ m.steps + n
  events : ∃ new, m'.events = new ++ m.events ∧ ∀ e ∈ new, e.Fair m.frames.length

/-- The call stack is as it was, too. -/
structure Returned (n : Nat) (m m' : Machine B) : Prop extends Spent n m m' where
  depth : m'.depth = m.depth
  frames : m'.frames = m.frames

variable {n : Nat} {m : Machine B}

section Records

variable {n' : Nat} {m' m'' : Machine B}

theorem Spent.mono (spent : Spent n m m') (more : n ≤ n') : Spent n' m m' :=
  ⟨spent.steps.trans (Nat.add_le_add_left more _), spent.events⟩

theorem Returned.mono (returned : Returned n m m') (more : n ≤ n') : Returned n' m m' :=
  ⟨returned.toSpent.mono more, returned.depth, returned.frames⟩

theorem Returned.refl (m : Machine B) : Returned 0 m m := ⟨⟨le_rfl, [], rfl, nofun⟩, rfl, rfl⟩

theorem Returned.spend (returned : Returned n m m') (spent : Spent n' m' m'')
    : Spent (n + n') m m'' := by
  obtain ⟨steps, new, events, fair⟩ := returned.toSpent
  obtain ⟨steps', new', events', fair'⟩ := spent
  refine ⟨by omega, new' ++ new, by rw [events', events, List.append_assoc], fun e member => ?_⟩
  rcases List.mem_append.mp member with later | earlier
  · exact returned.frames ▸ fair' e later
  · exact fair e earlier

theorem Returned.trans (first : Returned n m m') (second : Returned n' m' m'')
    : Returned (n + n') m m'' :=
  ⟨first.spend second.toSpent, second.depth.trans first.depth, second.frames.trans first.frames⟩

/-- Notes that are fair, and changes that concern neither the record nor the call stack. -/
theorem Returned.of_note {e : Event B} (fair : e.Fair m.frames.length) : Returned 0 m (m.note e) :=
  ⟨⟨le_rfl, [e], rfl, fun _ member => List.mem_singleton.mp member ▸ fair⟩, rfl, rfl⟩

theorem Returned.of_moved (m : Machine B) (db : StateDB B) : Returned 0 m (m.moved db) :=
  ⟨⟨le_rfl, [.state m.frames db], rfl,
    fun _ member => List.mem_singleton.mp member ▸ le_max_left _ _⟩, rfl, rfl⟩

/-- A program that stopped: an error leaves the call stack as it was. -/
def Ended (n : Nat) (m : Machine B) : Stop → Machine B → Prop
  | .err _, m' => Returned n m m'
  | .panic f, m' => f ≠ .outOfFuel ∧ Spent n m m'

variable {e : Stop}

theorem Ended.spent (ended : Ended n m e m') : Spent n m m' := by
  cases e with
  | err e => exact ended.toSpent
  | panic f => exact ended.2

theorem Returned.ended (returned : Returned n m m') (ended : Ended n' m' e m'')
    : Ended (n + n') m e m'' := by
  cases e with
  | err e => exact returned.trans ended
  | panic f => exact ⟨ended.1, returned.spend ended.2⟩

theorem Ended.mono (ended : Ended n m e m') (more : n ≤ n') : Ended n' m e m' := by
  cases e with
  | err e => exact Returned.mono ended more
  | panic f => exact ⟨ended.1, ended.2.mono more⟩

theorem Returned.stopped (returned : Returned n m m') (fueled : e ≠ .panic .outOfFuel)
    : Ended n m e m' := by
  cases e with
  | err e => exact returned
  | panic f => exact ⟨fun isFuel => fueled (congrArg _ isFuel), returned.toSpent⟩

end Records

/-- A program that dispatches no operation. -/
def Idle {α : Type} (p : Evm B α) : Prop :=
  ∀ m, Ensures (Ended 0 m) p m fun _ m' => Returned 0 m m'

variable {α β : Type}

section Idle

theorem Idle.pure (a : α) : Idle (Pure.pure a : Evm B α) := .refl

theorem Idle.bind {p : Evm B α} {f : α → Evm B β} (first : Idle p) (second : ∀ a, Idle (f a))
    : Idle (p >>= f) := by
  refine fun m => Prog.Ensures.bind (first m) fun a m' before => ?_
  refine .of_outcome (fun b run => ?_) fun e run => ?_
  · exact before.trans ((second a m').returned (Prod.ext run rfl))
  · exact before.ended ((second a m').stopped (Prod.ext run rfl))

theorem Idle.ite {c : Prop} [Decidable c] {p q : Evm B α} (yes : Idle p) (no : Idle q)
    : Idle (if c then p else q) :=
  fun m => .ite (fun _ => yes m) fun _ => no m

theorem opFault_fueled (op : Op) : opFault op ≠ .outOfFuel := by
  cases op <;> nofun

theorem idle_perform (op : Op) : Idle (perform op : Evm B Unit) := by
  intro m
  unfold Ensures After perform
  split
  · exact .of_moved m _
  · exact ⟨opFault_fueled op, (Returned.refl m).toSpent⟩

theorem idle_query (op : Op) (value : StateDB B → α) : Idle (query op value) := by
  intro m
  unfold Ensures After query
  split
  · exact .of_moved m _
  · exact ⟨opFault_fueled op, (Returned.refl m).toSpent⟩

/-- Simple programs take no steps. -/
theorem Simple.idle {p : Evm B α} (simple : Simple False p) : Idle p := by
  induction simple with
  | pure a => exact .pure a
  | get => exact fun m => .refl m
  | bind _ _ first second => exact .bind first second
  | perform _ => exact idle_perform _
  | query _ => exact idle_query _ _
  | fault => exact fun m => ⟨by nofun, (Returned.refl m).toSpent⟩
  | canary addr db _ =>
    exact fun m => ⟨by nofun, (Returned.of_note (e := .canary addr db) trivial).toSpent⟩
  | burn self balance _ => exact fun m => ⟨⟨le_rfl, [], rfl, nofun⟩, rfl, rfl⟩

theorem idle_takeSnapshot : Idle (takeSnapshot : Evm B (Nat × List (Address × Int))) :=
  fun m => .of_moved m _

theorem idle_revertTo (snapshot : Nat × List (Address × Int))
    : Idle (revertTo snapshot : Evm B Unit) :=
  .bind (idle_perform _) fun _ _ => ⟨⟨le_rfl, [], rfl, nofun⟩, rfl, rfl⟩

theorem ensures_gasSum {x y : UInt64} (exact : x.toNat + y.toNat < 2 ^ 64) (m : Machine B)
    : Ensures (Ended 0 m) (gasSum x y) m fun sum m' =>
        sum.toNat = x.toNat + y.toNat ∧ Returned 0 m m' := by
  refine ⟨?_, .of_note exact⟩
  rw [UInt64.toNat_add]
  exact Nat.mod_eq_of_lt exact

end Idle

/-- What remains of the gas is at most what was given, and what was used pays for twice as many
operations and one more.
-/
def Thrifty {α : Type} (gas : UInt64) (left : α → UInt64) (p : Evm B α) (m : Machine B) : Prop :=
  Ensures (Ended (2 * gas.toNat + 1) m) p m fun result m' =>
    (left result).toNat ≤ gas.toNat
    ∧ Returned (2 * (gas.toNat - (left result).toNat) + 1) m m'

/-- What comes after a call may lose gas, and dispatches nothing. -/
def Loses {α : Type} (gas : UInt64) (left : α → UInt64) (p : Evm B α) (m : Machine B) : Prop :=
  Ensures (Ended 0 m) p m fun result m' =>
    (left result).toNat ≤ gas.toNat ∧ Returned 0 m m'

/-- The interpreter below has `n` frames to give, as many as calls are let through. -/
structure Room (n : Nat) (m : Machine B) : Prop where
  frames : m.frames.length ≤ m.depth
  depth : callCreateDepth < m.depth + n

/-- There is still room for the frames below. -/
theorem Room.after {n k : Nat} {m m' : Machine B} (room : Room n m) (returned : Returned k m m')
    : Room n m' := by
  obtain ⟨frames, depth⟩ := room
  refine ⟨?_, ?_⟩
  · rw [returned.frames, returned.depth]
    exact frames
  · rw [returned.depth]
    exact depth

/-- The frames of the interpreter are thrifty, where calls are let through. -/
def ThriftyRunner (n : Nat) (run : Runner B) : Prop :=
  ∀ contract gas input readOnly m, Room n m → m.depth ≤ callCreateDepth
    → Thrifty gas RunResult.gas (run contract gas input readOnly) m

variable {gas : UInt64}

section Thrifty

variable {left : α → UInt64} {a : α} {p : Evm B β} {f : β → Evm B α} {leftBefore : β → UInt64}

theorem thrifty_pure (less : (left a).toNat ≤ gas.toNat)
    : Thrifty gas left (Pure.pure a : Evm B α) m :=
  ⟨less, (Returned.refl m).mono (Nat.zero_le _)⟩

/-- An idle part, and then the rest. -/
theorem Idle.andThen (idle : Idle p) (rest : ∀ b m', Returned 0 m m' → Thrifty gas left (f b) m')
    : Thrifty gas left (p >>= f) m := by
  refine .seq (.of_outcome (fun b run => ?_) fun e run => ?_)
  · have before := (idle m).returned (Prod.ext run rfl)
    have after := rest b _ before
    refine .of_outcome (fun a run => ?_) fun e run => ?_
    · obtain ⟨less, returned⟩ := after.returned (Prod.ext run rfl)
      exact ⟨less, (before.trans returned).mono (by omega)⟩
    · exact (before.ended (after.stopped (Prod.ext run rfl))).mono (by omega)
  · exact ((idle m).stopped (Prod.ext run rfl)).mono (Nat.zero_le _)

theorem Loses.pure (less : (left a).toNat ≤ gas.toNat) : Loses gas left (Pure.pure a : Evm B α) m :=
  ⟨less, .refl m⟩

theorem Loses.mono {p : Evm B α} {gas' : UInt64} (loses : Loses gas left p m)
    (more : gas.toNat ≤ gas'.toNat)
    : Loses gas' left p m :=
  Prog.Ensures.mono loses fun _ _ after => ⟨after.1.trans more, after.2⟩

/-- Losing gas in two parts. -/
theorem Loses.bind (first : Loses gas leftBefore p m)
    (second : ∀ b m', (leftBefore b).toNat ≤ gas.toNat → Loses gas left (f b) m')
    : Loses gas left (p >>= f) m := by
  refine Prog.Ensures.bind first fun b m' before => ?_
  obtain ⟨less, returned⟩ := before
  have rest := second b m' less
  refine .of_outcome (fun a run => ?_) fun e run => ?_
  · obtain ⟨lost, after⟩ := rest.returned (Prod.ext run rfl)
    exact ⟨lost, returned.trans after⟩
  · exact returned.ended (rest.stopped (Prod.ext run rfl))

/-- A thrifty part, and then one that takes no steps. -/
theorem Thrifty.andThen (thrifty : Thrifty gas leftBefore p m)
    (rest : ∀ b m', Loses (leftBefore b) left (f b) m')
    : Thrifty gas left (p >>= f) m := by
  refine Prog.Ensures.bind thrifty fun b m' before => ?_
  obtain ⟨less, returned⟩ := before
  refine .of_outcome (fun a run => ?_) fun e run => ?_
  · obtain ⟨lost, after⟩ := (rest b m').returned (Prod.ext run rfl)
    exact ⟨lost.trans less, (returned.trans after).mono (by omega)⟩
  · exact (returned.ended ((rest b m').stopped (Prod.ext run rfl))).mono (by omega)

theorem Thrifty.ite {c : Prop} [Decidable c] {p q : Evm B α} (yes : c → Thrifty gas left p m)
    (no : ¬ c → Thrifty gas left q m)
    : Thrifty gas left (if c then p else q) m :=
  Prog.Ensures.ite yes no

/-- Settling a call takes no steps and adds no gas. -/
theorem loses_settle (snapshot : Nat × List (Address × Int)) (result : CallResult) (m : Machine B)
    : Loses result.gas CallResult.gas (settle snapshot result) m := by
  refine .ite (fun _ => ⟨le_rfl, .refl m⟩) fun _ => ?_
  refine (idle_revertTo snapshot m).bind fun _ m' returned => ⟨?_, returned⟩
  split
  · exact le_rfl
  · exact Nat.zero_le _

end Thrifty

variable {env : Env} {run : Runner B}

section Calls

variable (thrifty : ThriftyRunner n run)

/-- A precompiled contract returns no more gas than it got. -/
theorem runPrecompiledContract_gas (env : Env) (p : Precompile) (input : Bytes) (gas : UInt64)
    : (runPrecompiledContract env p input gas).gas.toNat ≤ gas.toNat := by
  unfold runPrecompiledContract
  extract_lets gasCost
  split
  · exact Nat.zero_le _
  · rename_i enough
    show (gas - gasCost).toNat ≤ gas.toNat
    rw [UInt64.toNat_sub_of_le _ _ (UInt64.not_lt.mp enough)]
    exact Nat.sub_le _ _

theorem thrifty_precompileOr (addr : Address) (input : Bytes) {go : Evm B CallResult}
    (thrifty : Thrifty gas CallResult.gas go m)
    : Thrifty gas CallResult.gas (precompileOr env addr input gas go) m := by
  unfold precompileOr
  split
  · exact thrifty_pure (runPrecompiledContract_gas _ _ _ _)
  · exact thrifty

theorem thrifty_refused {go : Evm B CallResult}
    (thrifty : m.depth ≤ callCreateDepth → Thrifty gas CallResult.gas go m)
    : Thrifty gas CallResult.gas (refused env gas go) m :=
  .get (.ite (fun _ => thrifty_pure le_rfl) fun _ =>
    .ite (fun _ => thrifty_pure le_rfl) fun shallow => thrifty (Nat.not_lt.mp shallow))

include thrifty

theorem thrifty_runResult (contract : Contract) (input : Bytes) (readOnly : Bool)
    (room : Room n m) (shallow : m.depth ≤ callCreateDepth)
    : Thrifty gas CallResult.gas (do
        let result ← run contract gas input readOnly
        return {
          ret := .bytes result.ret
          gas := result.gas
          err := result.err
        }) m :=
  (thrifty contract gas input readOnly m room shallow).andThen fun _ m' => ⟨le_rfl, .refl m'⟩

variable (addr : Address) (callee : Bytes → Contract) (input : Bytes) (readOnly : Bool)

theorem thrifty_runAccount (room : Room n m) (shallow : m.depth ≤ callCreateDepth)
    : Thrifty gas CallResult.gas (runAccount run addr callee gas input readOnly) m := by
  refine (idle_query _ _).andThen fun _ m1 first =>
    (idle_query _ _).andThen fun code m2 second => ?_
  have both := first.trans second
  exact thrifty_runResult thrifty _ _ _ (room.after both) (both.depth ▸ shallow)

theorem thrifty_snapshot (room : Room n m) (shallow : m.depth ≤ callCreateDepth)
    : Thrifty gas CallResult.gas (do
        let snapshot ← takeSnapshot
        let result ← precompileOr env addr input gas
          (runAccount run addr callee gas input readOnly)
        settle snapshot result) m := by
  refine idle_takeSnapshot.andThen fun snapshot m1 returned => ?_
  refine (thrifty_precompileOr addr input ?_).andThen (loses_settle snapshot)
  exact thrifty_runAccount thrifty addr callee input readOnly (room.after returned)
    (returned.depth ▸ shallow)

variable (caller addr : Address) (input : Bytes)

theorem thrifty_callBody (value : Int) (room : Room n m) (shallow : m.depth ≤ callCreateDepth)
    : Thrifty gas CallResult.gas (callBody env run caller addr input gas value) m := by
  refine thrifty_precompileOr addr input ((idle_query _ _).andThen fun code m1 first => ?_)
  refine .ite (fun _ => thrifty_pure le_rfl) fun _ => (idle_query _ _).andThen fun _ m2 second => ?_
  have both := first.trans second
  exact thrifty_runResult thrifty _ _ _ (room.after both) (both.depth ▸ shallow)

/-- A call, inside its snapshot. -/
theorem thrifty_callAccount (value : Int) (room : Room n m) (shallow : m.depth ≤ callCreateDepth)
    : Thrifty gas CallResult.gas (callAccount env run caller addr input gas value) m := by
  refine idle_takeSnapshot.andThen fun snapshot m1 first => ?_
  refine (idle_query _ _).andThen fun found m2 second => ?_
  refine .ite (fun _ => thrifty_pure le_rfl) fun _ => ?_
  refine (simple_performIf _ _).idle.andThen fun _ m3 third => ?_
  refine (simple_transfer _ _ _).idle.andThen fun _ m4 fourth => ?_
  have all := ((first.trans second).trans third).trans fourth
  exact (thrifty_callBody thrifty caller addr input value (room.after all)
    (all.depth ▸ shallow)).andThen (loses_settle snapshot)

/-- A call, with the checks before it. -/
theorem thrifty_call (gas : UInt64) (value : Int) (room : Room n m)
    : Thrifty gas CallResult.gas (call env run caller addr input gas value) m := by
  refine thrifty_refused fun shallow => ?_
  refine (simple_affords caller value).idle.andThen fun able m1 returned => ?_
  refine .ite (fun _ => ?_) fun _ => thrifty_pure le_rfl
  exact thrifty_callAccount thrifty caller addr input value (room.after returned)
    (returned.depth ▸ shallow)

theorem thrifty_callCode (gas : UInt64) (value : Int) (room : Room n m)
    : Thrifty gas CallResult.gas (callCode env run caller addr input gas value) m := by
  refine thrifty_refused fun shallow => ?_
  refine (simple_canTransfer caller value).idle.andThen fun able m1 returned => ?_
  refine .ite (fun _ => ?_) fun _ => thrifty_pure le_rfl
  exact thrifty_snapshot thrifty addr _ input false (room.after returned) (returned.depth ▸ shallow)

theorem thrifty_delegateCall (parent : Contract) (addr : Address) (input : Bytes) (gas : UInt64)
    (room : Room n m)
    : Thrifty gas CallResult.gas (delegateCall env run parent addr input gas) m :=
  thrifty_refused fun shallow => thrifty_snapshot thrifty addr _ input false room shallow

theorem thrifty_staticCall (gas : UInt64) (room : Room n m)
    : Thrifty gas CallResult.gas (staticCall env run caller addr input gas) m := by
  refine thrifty_refused fun shallow => ?_
  refine idle_takeSnapshot.andThen fun snapshot m1 first => ?_
  refine (idle_perform _).andThen fun _ m2 second => ?_
  have both := first.trans second
  refine (thrifty_precompileOr addr input ?_).andThen (loses_settle snapshot)
  exact thrifty_runAccount thrifty addr _ input true (room.after both) (both.depth ▸ shallow)

end Calls

section Creations

variable (thrifty : ThriftyRunner n run)

theorem checkCode_gas (env : Env) (result : RunResult)
    : (checkCode env result).gas = result.gas := by
  unfold checkCode
  split
  · rfl
  split
  · rfl
  · rfl

theorem loses_storeCode (address : Address) (result : RunResult) (m : Machine B)
    : Loses result.gas RunResult.gas (storeCode address result) m := by
  refine .ite (fun _ => .ite (fun _ => ⟨le_rfl, .refl m⟩) fun enough => ?_)
    fun _ => ⟨le_rfl, .refl m⟩
  refine (idle_perform _ m).bind fun _ m' returned => ⟨?_, returned⟩
  show (result.gas - _).toNat ≤ result.gas.toNat
  rw [UInt64.toNat_sub_of_le _ _ (UInt64.not_lt.mp enough)]
  exact Nat.sub_le _ _

theorem loses_settleCreate (snapshot : Nat × List (Address × Int)) (result : RunResult)
    (m : Machine B)
    : Loses result.gas RunResult.gas (settleCreate env snapshot result) m := by
  refine .ite (fun _ => ?_) fun _ => ⟨le_rfl, .refl m⟩
  refine (idle_revertTo snapshot m).bind fun _ m' returned => ⟨?_, returned⟩
  split
  · exact le_rfl
  · exact Nat.zero_le _

include thrifty

variable (caller : Address) (code : Bytes) (gas : UInt64) (value : Int)

/-- A deployment, inside its snapshot. -/
theorem thrifty_deploy (address : Address) (room : Room n m) (shallow : m.depth ≤ callCreateDepth)
    : Thrifty gas CreateResult.gas (deploy env run caller code gas value address) m := by
  refine idle_takeSnapshot.andThen fun snapshot m1 first => ?_
  refine (idle_perform _).andThen fun _ m2 second => ?_
  refine (simple_performIf _ _).idle.andThen fun _ m3 third => ?_
  refine (simple_transfer _ _ _).idle.andThen fun _ m4 fourth => ?_
  have all := ((first.trans second).trans third).trans fourth
  refine .get (.ite (fun _ => thrifty_pure le_rfl) fun _ => ?_)
  -- What follows the run loses the gas for the code, or all of it.
  refine (thrifty _ gas [] false m4 (room.after all) (all.depth ▸ shallow)).andThen
    fun result m5 => ?_
  have stored := loses_storeCode address (checkCode env result) m5
  rw [checkCode_gas] at stored
  refine stored.bind fun stored m6 less => ?_
  exact ((loses_settleCreate snapshot stored m6).mono less).bind fun _ _ => .pure

/-- A creation, with the checks before it. -/
theorem thrifty_createAt (address : Address) (room : Room n m)
    : Thrifty gas CreateResult.gas (createAt env run caller code gas value address) m := by
  refine .get (.ite (fun _ => thrifty_pure le_rfl) fun shallow => ?_)
  refine (simple_canTransfer _ _).idle.andThen fun able m1 first => ?_
  refine .ite (fun _ => ?_) fun _ => thrifty_pure le_rfl
  refine (idle_query _ _).andThen fun nonce m2 second => ?_
  refine (idle_perform _).andThen fun _ m3 third => ?_
  refine (simple_performIf _ _).idle.andThen fun _ m4 fourth => ?_
  refine (idle_query _ _).andThen fun hash m5 fifth => ?_
  refine (idle_query _ _).andThen fun nonce m6 sixth => ?_
  have all := ((((first.trans second).trans third).trans fourth).trans fifth).trans sixth
  refine .ite (fun _ => thrifty_pure (Nat.zero_le _)) fun _ => ?_
  exact thrifty_deploy thrifty caller code gas value address (room.after all)
    (all.depth ▸ Nat.not_lt.mp shallow)

theorem thrifty_create (room : Room n m)
    : Thrifty gas CreateResult.gas (create env run caller code gas value) m :=
  (idle_query _ _).andThen fun _ _ returned =>
    thrifty_createAt thrifty caller code gas value _ (room.after returned)

end Creations

end GoBinacoin.Vm
