import GoBinacoin.State.Restore
import GoBinacoin.Vm.SafeOperations

/-! Steps and runs of the interpreter touch the stack and the memory within their bounds. -/

namespace GoBinacoin.Vm

open Program State

variable {B : Backend}

section Step

variable {env : Env} {operation : Operation B} {s : Scope B} {contract : Contract}

theorem ensures_checkStack
    : Ensures SafeCode (checkStack operation) s fun _ s' =>
        s' = s ∧ operation.minStack ≤ s.stack.length ∧ s.stack.length ≤ operation.maxStack :=
  then_get (.ite (fun _ => trivial) fun deep => .ite (fun _ => trivial) fun low =>
    ⟨rfl, Nat.not_lt.mp deep, Nat.not_lt.mp low⟩)

variable {op : OpCode}

theorem ensures_checkWrites (deep : op = .call → 2 < s.stack.length)
    : Ensures SafeCode (checkWrites env op operation) s fun _ s' => s' = s := by
  refine then_get
    (.ite (fun _ => .ite (fun _ => trivial) fun _ => .ite (fun isCall => ?_) fun _ => rfl)
    fun _ => rfl)
  exact then_back (deep isCall) fun _ _ => .ite (fun _ => trivial) fun _ => rfl

theorem ensures_chargeGas {amount : UInt64}
    : Ensures SafeCode (chargeGas amount) s fun _ s' => s'.stack = s.stack ∧ s'.mem = s.mem :=
  .seq (ensures_useGas fun _ _ => .ite (fun _ => ⟨rfl, rfl⟩) fun _ => trivial)

variable (sound : Sound operation) (deep : operation.minStack ≤ s.stack.length)
include sound deep

/-- The memory asked for covers what the operation needs. -/
theorem ensures_requestedMemory
    : Ensures SafeCode (requestedMemory operation) s fun memorySize s' =>
        s' = s
        ∧ (operation.memorySize = none → memorySize = 0)
        ∧ ∀ size ∈ operation.memorySize,
            ∃ f x, Sizes operation.minStack size f ∧ f s.stack = some x
              ∧ x.toNat ≤ memorySize.toNat := by
  unfold requestedMemory
  rcases asks : operation.memorySize with _ | size
  · exact ⟨rfl, fun _ => rfl, nofun⟩
  obtain ⟨f, sizes⟩ := sound.memory size asks
  refine .seq (.of_returned (sizes.run s deep) ?_)
  refine then_checked fun x value => ensures_checked fun words product => ?_
  refine ⟨rfl, nofun, fun other isSize => ?_⟩
  obtain rfl := Option.some.inj isSize
  exact ⟨f, x, sizes, value, le_of_words product⟩

/-- Memory beyond the maximum is not paid for. -/
theorem ensures_dynamicCost (memorySize : UInt64)
    : Ensures SafeCode (dynamicCost operation contract memorySize) s fun _ s' =>
        Held s s' ∧ (operation.memorySize.isSome = true → memorySize ≤ maxMemory) := by
  unfold dynamicCost
  rcases charges : operation.dynamicGas with _ | gas
  · refine ⟨.refl s, fun asks => ?_⟩
    have metered := sound.metered asks
    rw [charges] at metered
    cases metered
  · have safe := sound.gas gas charges contract memorySize s deep
    refine .seq ?_
    unfold Ensures After Prog.attempt at *
    generalize gas contract memorySize s = result at safe ⊢
    obtain ⟨outcome, next⟩ := result
    rcases outcome with e | cost
    · cases e with
      | err e => trivial
      | panic f => exact safe
    · exact safe

omit sound deep

/-- The memory covers the operation once it is resized. -/
theorem resize_covers {memorySize : UInt64} (bounded : Bounded s.mem)
    (deep : operation.minStack ≤ s.stack.length)
    (none : operation.memorySize = none → memorySize = 0)
    (small : operation.memorySize.isSome = true → memorySize ≤ maxMemory)
    (asks : ∀ size ∈ operation.memorySize,
      ∃ f x, Sizes operation.minStack size f ∧ f s.stack = some x ∧ x.toNat ≤ memorySize.toNat)
    : Bounded (s.mem.resize memorySize)
      ∧ Covered operation { s with mem := s.mem.resize memorySize } := by
  have small : memorySize ≤ maxMemory := by
    rcases asked : operation.memorySize with _ | size
    · rw [none asked]
      exact UInt64.zero_le
    · exact small (asked ▸ rfl)
  obtain ⟨length, bounded⟩ := Memory.resize_length bounded small
  refine ⟨bounded, fun size isSize => ?_⟩
  obtain ⟨f, x, sizes, value, words⟩ := asks size isSize
  refine ⟨x, (sizes.run { s with mem := s.mem.resize memorySize } deep).trans
    (congrArg (fun r => (Except.ok r, _)) value), ?_⟩
  simp only [length]
  omega

variable (sound : Sound operation) (bounded : Bounded s.mem)
  (isCall : op = .call → 3 ≤ operation.minStack)
include sound bounded isCall

/-- Before an operation runs, its stack and its memory suffice. -/
theorem ensures_prepare
    : Ensures SafeCode (prepare env contract op operation) s fun _ s' =>
        operation.minStack ≤ s'.stack.length
        ∧ s'.stack.length ≤ operation.maxStack
        ∧ Bounded s'.mem
        ∧ Covered operation s' := by
  refine ensures_checkStack.bind fun _ s1 checked => ?_
  obtain ⟨rfl, deep, low⟩ := checked
  refine (ensures_checkWrites fun call => (isCall call).trans deep).bind fun _ s2 same => ?_
  subst same
  refine ensures_chargeGas.bind fun _ s3 paid => ?_
  rw [← paid.1] at deep low
  rw [← paid.2] at bounded
  refine (ensures_requestedMemory sound deep).bind fun memorySize s4 asked => ?_
  obtain ⟨rfl, none, asks⟩ := asked
  refine (ensures_dynamicCost sound deep memorySize).bind fun cost s5 charged => ?_
  obtain ⟨held, small⟩ := charged
  refine ensures_chargeGas.bind fun _ s6 paid => ensures_modify.mpr ?_
  have stack : s6.stack = s4.stack := paid.1.trans held.stack
  have store : s6.mem.store = s4.mem.store := (congrArg Memory.store paid.2).trans held.store
  have bounded : Bounded s6.mem := by
    unfold Bounded
    rw [store]
    exact bounded
  rw [← stack] at deep low asks
  obtain ⟨resized, covered⟩ := resize_covers bounded deep none small asks
  split
  · exact ⟨deep, low, resized, covered⟩
  · rename_i zero
    have zero : memorySize = 0 := by simpa using zero
    have kept : s6.mem.resize memorySize = s6.mem := by
      rw [zero]
      exact if_neg (by simp)
    rw [kept] at covered
    exact ⟨deep, low, bounded, covered⟩

/-- An operation that is sound never reaches outside, and leaves a stack of at most 1024. -/
theorem ensures_stepOperation
    : Ensures SafeCode (stepOperation env contract op operation) s fun _ s' =>
        s'.stack.length ≤ stackLimit ∧ Bounded s'.mem := by
  refine (ensures_prepare sound bounded isCall).bind fun _ s1 ready => ?_
  obtain ⟨deep, low, bounded, covered⟩ := ready
  refine (sound.execute contract s1 deep low bounded covered).bind fun res s2 after => ?_
  refine Prog.Ensures.bind (R := fun _ s' => s'.stack.length ≤ stackLimit ∧ Bounded s'.mem) ?_
    fun _ s3 after => ?_
  · exact .ite (fun _ => after) fun _ => after
  · exact .ite (fun _ => after) fun _ => .ite (fun _ => after) fun _ => .ite (fun _ => after)
      fun _ => then_modify after

end Step

/-- The tables, from Frontier to London. -/
def instructionSets (env : Env) (run : Runner B) : List (JumpTable B) :=
  [newFrontierInstructionSet env run, newHomesteadInstructionSet env run,
    newTangerineWhistleInstructionSet env run, newSpuriousDragonInstructionSet env run,
    newByzantiumInstructionSet env run, newConstantinopleInstructionSet env run,
    newIstanbulInstructionSet env run, newBerlinInstructionSet env run,
    newLondonInstructionSet env run]

theorem instructionSet_mem (env : Env) (run : Runner B)
    : instructionSet env run ∈ instructionSets env run := by
  unfold instructionSet instructionSets
  repeat' split
  all_goals simp

/-- The operations of a table are sound, and CALL has a third word on the stack. -/
structure SoundTable (table : JumpTable B) : Prop where
  sound : ∀ op, ∀ operation ∈ table op, Sound operation
  call : ∀ operation ∈ table .call, 3 ≤ operation.minStack

variable {env : Env} {run : Runner B} {table : JumpTable B} {s : Scope B} {m : Machine B}

/-- A table of sound operations is sound. -/
theorem Entries.soundTable {store : GasFunc B} {warm : Bool}
    (entries : Entries env run store warm table) (calm : CalmRunner run)
    (safe : GasSafe 2 store) (call : (table .call).map (·.minStack) = some 7)
    : SoundTable table where
  sound op operation found := (entries op operation found).sound calm safe
  call operation found := by
    have found : table .call = some operation := found
    rw [found] at call
    have deep : operation.minStack = 7 := Option.some.inj call
    omega

/-- Every instruction set is sound. -/
theorem soundTable_of_mem (calm : CalmRunner run) (member : table ∈ instructionSets env run)
    : SoundTable table := by
  have legacy := gasSafe_gasSStore (B := B) env
  simp only [instructionSets, List.mem_cons, List.not_mem_nil, or_false] at member
  rcases member with rfl | rfl | rfl | rfl | rfl | rfl | rfl | rfl | rfl
  · exact (frontier_entries env run).soundTable calm legacy rfl
  · exact (homestead_entries env run).soundTable calm legacy rfl
  · exact (tangerineWhistle_entries env run).soundTable calm legacy rfl
  · exact (spuriousDragon_entries env run).soundTable calm legacy rfl
  · exact (byzantium_entries env run).soundTable calm legacy rfl
  · exact (constantinople_entries env run).soundTable calm legacy rfl
  · exact (istanbul_entries env run).soundTable calm gasSafe_gasSStoreEIP2200 rfl
  · exact (berlin_entries env run).soundTable calm (gasSafe_makeGasSStoreFunc _) rfl
  · exact (london_entries env run).soundTable calm (gasSafe_makeGasSStoreFunc _) rfl

/-- One round of the interpreter. -/
theorem ensures_step (sound : SoundTable table) {contract : Contract} (bounded : Bounded s.mem)
    : Ensures SafeCode (step env table contract) s fun _ s' =>
        s'.stack.length ≤ stackLimit ∧ Bounded s'.mem := by
  refine (Calm.modify _).andThen fun _ m => then_get ?_
  extract_lets op
  split
  · trivial
  · rename_i operation found
    refine ensures_stepOperation (sound.sound _ operation found) bounded fun isCall => ?_
    rw [isCall] at found
    exact sound.call operation found

/-- The loop, by induction on the fuel. -/
theorem ensures_loop (env : Env) (sound : SoundTable table)
    (contract : Contract) (fuel : Nat) (bounded : Bounded s.mem)
    : Ensures SafeCode (loop env table contract fuel) s fun r _ =>
        r.2 ≠ some .codeStoreOutOfGas := by
  induction fuel generalizing s with
  | zero => trivial
  | succ fuel ih =>
    refine (ensures_step sound bounded).bind fun next s' after => ?_
    cases next with
    | go => exact ih after.2
    | halted ret => exact nofun
    | reverted ret => exact nofun

/-- The result of a frame is safe. -/
theorem runResult_safe (gas : UInt64) {p : Code B (Bytes × Option VMError)}
    (ends : Ensures SafeCode p s fun r _ => r.2 ≠ some .codeStoreOutOfGas)
    : (∀ result, runResult gas (p s).1 = .ok result → result.err ≠ some .codeStoreOutOfGas)
      ∧ ∀ e, runResult gas (p s).1 = .error e → Safe e (p s).2.machine := by
  unfold Ensures After at ends
  rcases outcome : (p s).1 with e | r
  · rw [outcome] at ends
    cases e with
    | panic f => exact ⟨nofun, fun e same => Except.error.inj same ▸ ends⟩
    | err e =>
      refine ⟨fun result same isError => ?_, nofun⟩
      rw [← Except.ok.inj same] at isError
      rw [Option.some.inj isError] at ends
      exact ends
  · rw [outcome] at ends
    exact ⟨fun result same => Except.ok.inj same ▸ ends, nofun⟩

theorem Safe.leave {e : Stop} (safe : Safe e m) (wasReadOnly readOnly : Bool)
    : Safe e (m.leave wasReadOnly readOnly) := by
  cases e with
  | err e => cases e <;> exact safe
  | panic f => cases f <;> exact safe

/-- A frame is calm if the frames it calls are. -/
theorem calm_interpret (env : Env) (calm : CalmRunner run) (contract : Contract)
    (gas : UInt64) (input : Bytes) (readOnly : Bool) (m : Machine B)
    : Ensures Safe (interpret env run contract gas input readOnly) m fun result _ =>
        result.err ≠ some .codeStoreOutOfGas := by
  have sound := soundTable_of_mem calm (instructionSet_mem env run)
  have ends := runResult_safe (runFrame env run contract gas input readOnly m).2.gas
    (ensures_loop env sound { contract with input := input } (gas.toNat + 1)
      (s := { gas := gas, machine := m.enter contract.self readOnly }) (Nat.zero_le _))
  by_cases empty : contract.code.length = 0
  · exact .of_returned (if_pos empty) nofun
  · have run : interpret env run contract gas input readOnly m = _ := if_neg empty
    refine .of_outcome ?_ ?_
    · rw [run]
      exact ends.1
    · rw [run]
      exact fun e stopped => (ends.2 e stopped).leave _ _

/-- Frames are calm, by induction on the depth that is left. -/
theorem calm_runAt (env : Env) (n : Nat) : CalmRunner (runAt env n : Runner B) := by
  induction n with
  | zero => exact fun _ _ _ _ _ => trivial
  | succ n ih =>
    exact fun contract gas input readOnly m =>
      (calm_interpret env ih contract gas input readOnly m).mono fun _ _ _ => trivial

/-- The scopes a frame goes through, step by step. -/
inductive Reached (env : Env) (table : JumpTable B) (contract : Contract) (gas : UInt64)
    (m : Machine B)
    : Scope B → Prop where
  | start : Reached env table contract gas m { gas := gas, machine := m }
  | next {s s' : Scope B}
      : Reached env table contract gas m s → step env table contract s = (.ok .go, s')
      → Reached env table contract gas m s'

theorem Reached.within {contract : Contract} {gas : UInt64} (sound : SoundTable table)
    (reached : Reached env table contract gas m s)
    : s.stack.length ≤ stackLimit ∧ Bounded s.mem := by
  induction reached with
  | start => exact ⟨Nat.zero_le _, Nat.zero_le _⟩
  | next _ run ih => exact (ensures_step sound ih.2).returned run

/-- The faults of the stack, the memory and the return data. -/
def Fault.isAccess : Fault → Bool
  | .stackIndex => true
  | .memoryIndex => true
  | .sliceBounds => true
  | _ => false

theorem Safe.notAccess {f : Fault} (safe : Safe (.panic f) m) : f.isAccess = false := by
  cases f with
  | stackIndex | memoryIndex | sliceBounds => exact safe.elim
  | _ => rfl

/-- For every table, an operation that passes the checks of the interpreter indexes neither the
stack nor the memory nor the return data out of range, whatever the stack and the gas. The stack
of a frame has at most 1024 words at every step, and no frame, with the frames it calls, ends with
such a fault.
-/
theorem operations_access_within_bounds (env : Env) (n : Nat) {table : JumpTable B}
    (member : table ∈ instructionSets env (runAt env n)) (contract : Contract)
    : (∀ s : Scope B, Bounded s.mem → ∀ f s',
        step env table contract s = (.error (.panic f), s') → f.isAccess = false)
      ∧ (∀ gas m s, Reached env table contract gas m s
        → s.stack.length ≤ stackLimit ∧ Bounded s.mem)
      ∧ (∀ gas input readOnly (m : Machine B) f m',
        runAt env n contract gas input readOnly m = (.error (.panic f), m')
          → f.isAccess = false) := by
  have sound := soundTable_of_mem (calm_runAt env n) member
  refine ⟨fun s bounded f s' run => ?_, fun gas m s reached => reached.within sound, ?_⟩
  · exact ((ensures_step sound bounded).stopped run).notAccess
  · intro gas input readOnly m f m' run
    exact ((calm_runAt env n contract gas input readOnly m).stopped run).notAccess

/-- London, on a chain without precompiled contracts of interest. -/
def londonEnv : Env where
  rules :=
    {
      isHomestead := true
      isEIP150 := true
      isEIP158 := true
      isByzantium := true
      isConstantinople := true
      isPetersburg := true
      isIstanbul := true
      isBerlin := true
      isLondon := true
    }
  native _ :=
    {
      requiredGas := fun _ => 0
      run := fun b => (b, none)
    }

/-- PUSH1 32, MLOAD, POP, and MSTORE on the empty stack. -/
def underflowContract : Contract where
  callerAddress := 1
  self := 2
  code := [0x60, 0x20, 0x51, 0x50, 0x52]
  value := 0

def londonTable : JumpTable plainBackend := newLondonInstructionSet londonEnv (runAt londonEnv 0)

/-- The scope of the contract after some steps. -/
def underflowScope : Nat → Scope plainBackend
  | 0 => { gas := 100, machine := { db := plainState } }
  | n + 1 => (step londonEnv londonTable underflowContract (underflowScope n)).2

theorem underflowScope_reached {n : Nat}
    (reached : Reached londonEnv londonTable underflowContract 100 { db := plainState }
      (underflowScope n))
    (goes : (step londonEnv londonTable underflowContract (underflowScope n)).1 = .ok .go)
    : Reached londonEnv londonTable underflowContract 100 { db := plainState }
        (underflowScope (n + 1)) :=
  .next reached (Prod.ext goes rfl)

/-- PUSH1 and MLOAD run with the memory and gas functions of MLOAD, and POP follows. -/
theorem operations_access_within_bounds_mload
    : (underflowScope 2).mem.store.length = 64
      ∧ (underflowScope 2).stack.length ≤ stackLimit
      ∧ ∀ f s', step londonEnv londonTable underflowContract (underflowScope 2)
          = (.error (.panic f), s')
        → f.isAccess = false := by
  have member : londonTable ∈ instructionSets londonEnv (runAt londonEnv 0) := by
    simp [instructionSets, londonTable]
  have run := underflowScope_reached
    (underflowScope_reached (n := 0) .start (by decide +kernel)) (by decide +kernel)
  obtain ⟨steps, reached, -⟩ :=
    operations_access_within_bounds londonEnv 0 member underflowContract
  obtain ⟨deep, bounded⟩ := reached 100 _ _ run
  exact ⟨by decide +kernel, deep, steps _ bounded⟩

end GoBinacoin.Vm
