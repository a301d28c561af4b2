import GoBinacoin.Vm.ConductOperations

/-! Every run of the interpreter stays within the account of effects: over the families of
operations, the rounds of the loop, and the nesting of frames.
-/

namespace GoBinacoin.Vm

open Program State

variable {B : Backend}

variable {env : Env} {listing : Prop} {run : Runner B}

section Entries

variable {store : GasFunc B} {warm : Bool} {op : OpCode} {operation : Operation B}
  {contract : Contract} {s : Scope B}

theorem Metering.gasSafe (metering : Metering env store warm) : GasSafe 2 store := by
  cases metering with
  | legacy => exact gasSafe_gasSStore env
  | istanbul => exact gasSafe_gasSStoreEIP2200
  | berlin => exact gasSafe_makeGasSStoreFunc _
  | london => exact gasSafe_makeGasSStoreFunc _

theorem Metering.warms (metering : Metering env store warm) (berlin : env.rules.isBerlin = true)
    : warm = true := by
  cases metering with
  | legacy _ early | istanbul _ early =>
    rw [berlin] at early
    cases early
  | berlin | london => rfl

theorem ReaderGas.quiet {price : UInt64} {charged : Option (GasFunc B)}
    (gas : ReaderGas price charged) {gasFunc : GasFunc B} (isGas : charged = some gasFunc)
    (memorySize : UInt64)
    : QuietCode (gasFunc contract memorySize) := by
  cases gas with
  | constant => cases isGas
  | account => exact Option.some.inj isGas ▸ quiet_gasEip2929AccountCheck contract memorySize
  | slot => exact Option.some.inj isGas ▸ quiet_gasSLoadEIP2929 contract memorySize

/-- Every operation of the table, one kind of entry after the other. -/
theorem Entry.tracks (entry : Entry env run store warm op operation)
    (metering : Metering env store warm) (calm : CalmRunner run)
    (conducts : Conducts env listing run)
    : Conducted env listing contract.self (stepOperation env contract op operation) s := by
  have sound := entry.sound calm metering.gasSafe
  have region (a b : Nat) : ∀ size, some (memoryRegion a b : MemorySize B) = some size
      → QuietCode size := fun _ asks => Option.some.inj asks ▸ quiet_memoryRegion a b
  have fixed (l : UInt64) : ∀ size, some (memoryFixed l : MemorySize B) = some size
      → QuietCode size := fun _ asks => Option.some.inj asks ▸ quiet_memoryFixed l
  have regions (a b c d : Nat) : ∀ size, some (memoryRegions a b c d : MemorySize B) = some size
      → QuietCode size := fun _ asks => Option.some.inj asks ▸ quiet_memoryRegions a b c d
  have memory : ∀ (gas : GasFunc B) memorySize, some pureMemoryGascost = some gas
      → QuietCode (gas contract memorySize) :=
    fun _ size metered => Option.some.inj metered ▸ quiet_memoryGasCost size
  have words (price : UInt64) (n : Nat) : ∀ (gas : GasFunc B) memorySize,
      some (perWordGas price n) = some gas → QuietCode (gas contract memorySize) :=
    fun _ size metered => Option.some.inj metered ▸ quiet_perWordGas contract size price n
  cases entry with
  | unary f => exact tracks_quietOperation sound nofun nofun (simpleCode_unaryOp contract f).quiet
  | binary f => exact tracks_quietOperation sound nofun nofun (simpleCode_binaryOp contract f).quiet
  | exp price =>
    exact tracks_quietOperation sound nofun (fun _ size metered =>
      Option.some.inj metered ▸ quiet_gasExp contract size price)
      (simpleCode_binaryOp contract _).quiet
  | ternary f =>
    exact tracks_quietOperation sound nofun nofun (simpleCode_ternaryOp contract f).quiet
  | push f => exact tracks_quietOperation sound nofun nofun (simpleCode_pushOp contract f).quiet
  | callDataLoad =>
    exact tracks_quietOperation sound nofun nofun (simpleCode_opCallDataLoad contract).quiet
  | copy data =>
    exact tracks_quietOperation sound (region 0 2) (words _ 2)
      (simpleCode_copyOp contract data).quiet
  | extCodeCopy _ gas =>
    refine tracks_quietOperation sound (region 1 3) (fun _ size metered => ?_)
      (simpleCode_opExtCodeCopy contract).quiet
    obtain rfl := Option.some.inj metered
    rcases gas with rfl | rfl
    · exact quiet_perWordGas contract size _ _
    · exact quiet_gasExtCodeCopyEIP2929 contract size
  | returnDataCopy =>
    exact tracks_quietOperation sound (region 0 2) (words _ 2)
      (simpleCode_opReturnDataCopy contract).quiet
  | sha3 =>
    exact tracks_quietOperation sound (region 0 1) (words _ 1)
      (simpleCode_opSha3 contract env).quiet
  | pop => exact tracks_quietOperation sound nofun nofun (simpleCode_opPop contract).quiet
  | mload => exact tracks_quietOperation sound (fixed 32) memory (simpleCode_opMload contract).quiet
  | mstore =>
    exact tracks_quietOperation sound (fixed 32) memory (simpleCode_opMstore contract).quiet
  | mstore8 =>
    exact tracks_quietOperation sound (fixed 1) memory (simpleCode_opMstore8 contract).quiet
  | jump => exact tracks_quietOperation sound nofun nofun (simpleCode_opJump contract).quiet
  | jumpi => exact tracks_quietOperation sound nofun nofun (simpleCode_opJumpi contract).quiet
  | jumpdest => exact tracks_quietOperation sound nofun nofun (.pure _)
  | push1 => exact tracks_quietOperation sound nofun nofun (simpleCode_opPush1 contract).quiet
  | pushN n => exact tracks_quietOperation sound nofun nofun (simpleCode_makePush contract n).quiet
  | dup n => exact tracks_quietOperation sound nofun nofun (simpleCode_makeDup contract _).quiet
  | swap n => exact tracks_quietOperation sound nofun nofun (simpleCode_makeSwap contract _).quiet
  | stop => exact tracks_quietOperation sound nofun nofun (.pure _)
  | ret =>
    exact tracks_quietOperation sound (region 0 1) memory (simpleCode_opReturn contract).quiet
  | revert =>
    exact tracks_quietOperation sound (region 0 1) memory (simpleCode_opReturn contract).quiet
  | reader read gas =>
    exact tracks_quietOperation sound nofun (fun _ size metered => gas.quiet metered size)
      (simpleCode_readOp contract read).quiet
  | selfBalance =>
    exact tracks_quietOperation sound nofun nofun (simpleCode_opSelfBalance contract).quiet
  | sstore => exact tracks_sstore metering sound rfl
  | log n =>
    refine tracks_writeOperation sound rfl (region 0 1) (fun _ size s' metered _ => ?_)
      fun _ writable => tracks_makeLog n writable
    exact Option.some.inj metered ▸ (quiet_makeGasLog contract size n).tracks
  | selfdestruct gas =>
    refine tracks_writeOperation sound rfl nofun (fun _ size s' metered writable => ?_)
      fun _ writable => tracks_opSuicide writable
    exact Option.some.inj metered ▸ tracks_selfdestructGas gas writable size
  | create =>
    exact tracks_writeOperation sound rfl (region 1 2) (fun gas size s' metered _ =>
      (memory gas size metered).tracks) fun _ writable => tracks_opCreate conducts writable
  | create2 =>
    exact tracks_writeOperation sound rfl (region 1 2) (fun gas size s' metered _ =>
      (words _ 2 gas size metered).tracks) fun _ writable => tracks_opCreate2 conducts writable
  | call _ gas =>
    refine tracks_callOperation sound rfl rfl gas (fun size => quiet_gasCall contract size env)
      metering.warms (regions 5 6 3 4) fun addr value args gas m admits checked => ?_
    refine tracks_call conducts admits ((checked rfl rfl).symm.imp (fun zero => ?_)
      fun writable => ⟨writable, Int.natCast_nonneg _⟩)
    rw [zero]
    rfl
  | callCode _ gas =>
    exact tracks_callOperation sound rfl rfl gas (fun size => quiet_gasCallCode contract size env)
      metering.warms (regions 5 6 3 4) fun addr value args gas m _ _ => tracks_callCode conducts
  | delegateCall _ gas =>
    have executes : opDelegateCall env run
        = callOp false fun contract addr args gas _ =>
            Vm.delegateCall env run contract addr args gas := rfl
    exact tracks_callOperation sound executes rfl gas
      (fun size => quiet_gasDelegateCall contract size env) metering.warms (regions 4 5 2 3)
      fun addr value args gas m _ _ => tracks_delegateCall conducts contract
  | staticCall _ gas =>
    have executes : opStaticCall env run
        = callOp false fun contract addr args gas _ =>
            Vm.staticCall env run contract.self addr args gas := rfl
    exact tracks_callOperation sound executes rfl gas
      (fun size => quiet_gasDelegateCall contract size env) metering.warms (regions 4 5 2 3)
      fun addr value args gas m admits _ => tracks_staticCall conducts admits

end Entries

section Frames

variable (calm : CalmRunner run) (conducts : Conducts env listing run) (contract : Contract)
include calm conducts

/-- One round of the interpreter. -/
theorem tracks_step (s : Scope B)
    : Conducted env listing contract.self
        (step env (instructionSet env run) contract) s := by
  obtain ⟨store, warm, metering, entries⟩ := instructionSet_entries env run
  refine Prog.Tracks.bind (R := fun _ _ => True)
    ⟨.hush (.of_scratch (.of_dispatch s.machine)), trivial⟩ fun _ s _ _ => ?_
  refine .get ?_
  dsimp only
  split
  · exact .stop
  · rename_i operation found
    exact (entries _ operation found).tracks metering calm conducts

/-- The loop, by induction on the fuel. -/
theorem tracks_loop (fuel : Nat) (s : Scope B)
    : Conducted env listing contract.self
        (loop env (instructionSet env run) contract fuel) s := by
  induction fuel generalizing s with
  | zero => exact .stop
  | succ fuel ih =>
    refine (tracks_step calm conducts contract s).bind fun next s' _ _ => ?_
    cases next with
    | go => exact ih s'
    | halted ret => exact .pure trivial
    | reverted ret => exact .pure trivial

omit calm conducts

/-- A result without a failure is the result of a loop that returned. -/
theorem runResult_returned {gas : UInt64} {r : Except Stop (Bytes × Option VMError)}
    {result : RunResult} {m : Machine B} (safe : ∀ e, r = .error e → Safe e m)
    (ends : runResult gas r = .ok result)
    (fine : result.err = none ∨ result.err = some .executionReverted)
    : ∃ ended, r = .ok ended := by
  rcases r with e | ended
  · cases e with
    | panic f => cases ends
    | err e =>
      rw [← Except.ok.inj ends] at fine
      rcases fine with none | reverted
      · cases none
      · obtain rfl := Option.some.inj reverted
        exact (safe _ rfl).elim
  · exact ⟨ended, rfl⟩

/-- A frame over frames that stay within the account does so too. -/
theorem conducts_interpret (calm : CalmRunner run) (conducts : Conducts env listing run)
    : Conducts env listing (interpret env run) where
  any {contract gas input readOnly m self} admits := by
    have tracks := tracks_loop calm conducts { contract with input := input } (gas.toNat + 1)
      { gas := gas, machine := m.enter contract.self readOnly }
    unfold interpret
    split
    · exact .run contract.self readOnly admits .rest
    · exact .run contract.self readOnly admits tracks.always
  strict {contract gas input readOnly m self result} admits ends fine := by
    have tracks := tracks_loop calm conducts { contract with input := input } (gas.toNat + 1)
      { gas := gas, machine := m.enter contract.self readOnly }
    unfold interpret at ends ⊢
    split at ends
    · rename_i empty
      rw [if_pos empty]
      exact .run contract.self readOnly admits .rest
    · rename_i code
      rw [if_neg code]
      have safe (e : Stop) (stopped : (runFrame env run contract gas input readOnly m).1 = .error e)
          : Safe e (runFrame env run contract gas input readOnly m).2.machine :=
        (ensures_loop env (soundTable_of_mem calm (instructionSet_mem env run))
          { contract with input := input } (gas.toNat + 1) (Nat.zero_le _)).stopped
            (Prod.ext stopped rfl)
      obtain ⟨ended, returned⟩ := runResult_returned safe ends fine
      exact .run contract.self readOnly admits (tracks.returned returned).1
  creation ends := (calm_interpret env calm _ _ _ _ _).returned (Prod.ext ends rfl)

theorem conducts_runAt (env : Env) (listing : Prop) (n : Nat)
    : Conducts env listing (runAt env n : Runner B) := by
  induction n with
  | zero => exact ⟨fun _ => .rest, fun _ => nofun, nofun⟩
  | succ n ih => exact conducts_interpret (calm_runAt env n) ih

end Frames

end GoBinacoin.Vm
