import GoBinacoin.Vm.Interpreter

/-! The operations of all tables, by the families they belong to. -/

namespace GoBinacoin.Vm

open Program State

variable {B : Backend}

/-- Readers of the state, which replace the top of the stack. -/
inductive Reader : (Contract → Word → Evm B Word) → Prop where
  | balance
      : Reader fun _ slot => do
          let balance ← getBalance (wordAddress slot)
          return bigWord balance
  | extCodeSize
      : Reader fun _ slot => do
          let size ← getCodeSize (wordAddress slot)
          return uintWord (UInt64.ofNat size)
  | extCodeHash
      : Reader fun _ slot => do
          let empty ← isEmpty (wordAddress slot)
          if empty then return 0 else getCodeHash (wordAddress slot)
  | sload : Reader fun contract loc => getState contract.self loc

/-- The gas of a reader: its constant price, and what EIP-2929 adds. -/
inductive ReaderGas : UInt64 → Option (GasFunc B) → Prop where
  | constant (price : UInt64) : 0 < price → ReaderGas price none
  | account : ReaderGas warmStorageReadCostEIP2929 (some gasEip2929AccountCheck)
  | slot : ReaderGas 0 (some gasSLoadEIP2929)

/-- The gas of a call operation, for a table that warms up addresses or not. -/
def CallGas (warm : Bool) (old gas : GasFunc B) : Prop :=
  gas = if warm then makeCallVariantGasCallEIP2929 old else old

inductive SelfdestructGas (env : Env) : UInt64 → GasFunc B → Prop where
  | legacy : SelfdestructGas env 0 (gasSelfdestruct env)
  | eip2929 : SelfdestructGas env selfdestructGasEIP150 gasSelfdestructEIP2929
  | eip3529 : SelfdestructGas env selfdestructGasEIP150 gasSelfdestructEIP3529

/-- The operations of a table in which SSTORE is charged by `store`. -/
inductive Entry (env : Env) (run : Runner B) (store : GasFunc B) (warm : Bool)
    : OpCode → Operation B → Prop where
  | unary {op price} (f : Word → Word)
      : 0 < price → Entry env run store warm op (plain (unaryOp f) price 1 1)
  | binary {op price} (f : Word → Word → Word)
      : 0 < price → Entry env run store warm op (plain (binaryOp f) price 2 1)
  | exp {op} (price : UInt64)
      : Entry env run store warm op
          { plain (binaryOp wordExp) 0 2 1 with dynamicGas := some (gasExp price) }
  | ternary {op price} (f : Word → Word → Word → Word)
      : 0 < price → Entry env run store warm op (plain (ternaryOp f) price 3 1)
  | push {op price} (f : Contract → Scope B → Word)
      : 0 < price → Entry env run store warm op (plain (pushOp f) price 0 1)
  | callDataLoad {op} : Entry env run store warm op (plain opCallDataLoad gasFastestStep 1 1)
  | copy {op} (data : Contract → Bytes)
      : Entry env run store warm op
          (onMemory (copyOp data) gasFastestStep (memoryCopierGas 2) 3 0 (memoryRegion 0 2))
  | extCodeCopy {op price} {gas : GasFunc B}
      : 0 < price → gas = gasExtCodeCopy ∨ gas = gasExtCodeCopyEIP2929
      → Entry env run store warm op (onMemory opExtCodeCopy price gas 4 0 memoryExtCodeCopy)
  | returnDataCopy {op}
      : Entry env run store warm op
          (onMemory opReturnDataCopy gasFastestStep gasReturnDataCopy 3 0 memoryReturnDataCopy)
  | sha3 {op} : Entry env run store warm op (onMemory (opSha3 env) 30 gasSha3 2 1 memorySha3)
  | pop {op} : Entry env run store warm op (plain opPop gasQuickStep 1 0)
  | mload {op}
      : Entry env run store warm op
          (onMemory opMload gasFastestStep pureMemoryGascost 1 1 memoryMLoad)
  | mstore {op}
      : Entry env run store warm op
          (onMemory opMstore gasFastestStep pureMemoryGascost 2 0 memoryMStore)
  | mstore8 {op}
      : Entry env run store warm op
          (onMemory opMstore8 gasFastestStep pureMemoryGascost 2 0 memoryMStore8)
  | jump {op} : Entry env run store warm op { plain opJump gasMidStep 1 0 with jumps := true }
  | jumpi {op} : Entry env run store warm op { plain opJumpi gasSlowStep 2 0 with jumps := true }
  | jumpdest {op} : Entry env run store warm op (plain opJumpdest 1 0 0)
  | push1 {op} : Entry env run store warm op (plain opPush1 gasFastestStep 0 1)
  | pushN {op} (n : Nat) : Entry env run store warm op (plain (makePush n) gasFastestStep 0 1)
  | dup {op} (n : Nat)
      : Entry env run store warm op (plain (makeDup (n + 1)) gasFastestStep (n + 1) (n + 2))
  | swap {op} (n : Nat)
      : Entry env run store warm op (plain (makeSwap (n + 1)) gasFastestStep (n + 2) (n + 2))
  | stop {op} : Entry env run store warm op { plain opStop 0 0 0 with halts := true }
  | ret {op}
      : Entry env run store warm op
          { onMemory opReturn 0 pureMemoryGascost 2 0 memoryReturn with halts := true }
  | revert {op}
      : Entry env run store warm op
          { onMemory opRevert 0 pureMemoryGascost 2 0 memoryRevert with
            reverts := true, returns := true }
  | reader {op price gas} {read : Contract → Word → Evm B Word}
      : Reader read → ReaderGas price gas
      → Entry env run store warm op { plain (readOp read) price 1 1 with dynamicGas := gas }
  | selfBalance {op} : Entry env run store warm op (plain opSelfBalance gasFastStep 0 1)
  | sstore
      : Entry env run store warm .sstore
          { plain opSstore 0 2 0 with dynamicGas := some store, writes := true }
  | log {op} (n : Nat)
      : Entry env run store warm op
          { onMemory (makeLog env n) 0 (makeGasLog n) (n + 2) 0 memoryLog with writes := true }
  | selfdestruct {op price gas}
      : SelfdestructGas env price gas
      → Entry env run store warm op
          { plain opSuicide price 1 0 with
            dynamicGas := some gas, halts := true, writes := true }
  | create {op}
      : Entry env run store warm op
          { onMemory (opCreate env run) 32000 pureMemoryGascost 3 1 memoryCreate with
            writes := true, returns := true }
  | create2 {op}
      : Entry env run store warm op
          { onMemory (opCreate2 env run) 32000 gasCreate2 4 1 memoryCreate2 with
            writes := true, returns := true }
  | call {price gas}
      : 0 < price → CallGas warm (gasCall env) gas
      → Entry env run store warm .call
          { onMemory (opCall env run) price gas 7 1 memoryCall with returns := true }
  | callCode {price gas}
      : 0 < price → CallGas warm (gasCallCode env) gas
      → Entry env run store warm .callcode
          { onMemory (opCallCode env run) price gas 7 1 memoryCall with returns := true }
  | delegateCall {price gas}
      : 0 < price → CallGas warm (gasDelegateCall env) gas
      → Entry env run store warm .delegatecall
          { onMemory (opDelegateCall env run) price gas 6 1 memoryDelegateCall with
            returns := true }
  | staticCall {price gas}
      : 0 < price → CallGas warm (gasStaticCall env) gas
      → Entry env run store warm .staticcall
          { onMemory (opStaticCall env run) price gas 6 1 memoryStaticCall with
            returns := true }

/-- All operations of a table belong to the families. -/
def Entries (env : Env) (run : Runner B) (store : GasFunc B) (warm : Bool) (table : JumpTable B)
    : Prop :=
  ∀ op operation, table op = some operation → Entry env run store warm op operation

section Tables

variable (env : Env) (run : Runner B)

variable {env run} in
theorem Entry.found {store : GasFunc B} {warm : Bool} {op : OpCode} {operation : Operation B}
    (entry : Entry env run store warm op operation)
    : ∀ listed, some operation = some listed → Entry env run store warm op listed :=
  fun _ same => Option.some.inj same ▸ entry

/-- Each operation of the table is found in the family of its constructor. -/
theorem frontier_entries
    : Entries env run (gasSStore env) false (newFrontierInstructionSet env run) := by
  intro op
  cases op with
  | push n =>
    intro operation found
    simp only [newFrontierInstructionSet] at found
    split at found
    · exact .found .push1 _ found
    · exact .found (.pushN _) _ found
  | dup n => exact .found (.dup n)
  | swap n => exact .found (.swap n)
  | log n => exact .found (.log n)
  | stop => exact .found .stop
  | iszero | not | blockhash => exact .found (.unary _ (by decide))
  | add | mul | sub | div | sdiv | mod | smod | signextend | lt | gt | slt | sgt | eq | and | or
  | xor | byte => exact .found (.binary _ (by decide))
  | addmod | mulmod => exact .found (.ternary _ (by decide))
  | exp => exact .found (.exp _)
  | sha3 => exact .found .sha3
  | address | origin | caller | callvalue | calldatasize | codesize | gasprice | coinbase
  | timestamp | number | difficulty | gaslimit | pc | msize | gas =>
    exact .found (.push _ (by decide))
  | balance => exact .found (.reader .balance (.constant _ (by decide)))
  | extcodesize => exact .found (.reader .extCodeSize (.constant _ (by decide)))
  | sload => exact .found (.reader .sload (.constant _ (by decide)))
  | calldataload => exact .found .callDataLoad
  | calldatacopy | codecopy => exact .found (.copy _)
  | extcodecopy => exact .found (.extCodeCopy (by decide) (.inl rfl))
  | pop => exact .found .pop
  | mload => exact .found .mload
  | mstore => exact .found .mstore
  | mstore8 => exact .found .mstore8
  | sstore => exact .found .sstore
  | jump => exact .found .jump
  | jumpi => exact .found .jumpi
  | jumpdest => exact .found .jumpdest
  | create => exact .found .create
  | call => exact .found (.call (by decide) rfl)
  | callcode => exact .found (.callCode (by decide) rfl)
  | ret => exact .found .ret
  | selfdestruct => exact .found (.selfdestruct .legacy)
  | _ => nofun

theorem homestead_entries
    : Entries env run (gasSStore env) false (newHomesteadInstructionSet env run) := by
  intro op
  cases op with
  | delegatecall => exact .found (.delegateCall (by decide) rfl)
  | _ => exact fun _ found => frontier_entries env run _ _ found

/-- The table with the prices of EIP-150. -/
theorem tangerineWhistle_entries
    : Entries env run (gasSStore env) false (newTangerineWhistleInstructionSet env run) := by
  intro op
  cases op with
  | balance => exact .found (.reader .balance (.constant 400 (by decide)))
  | extcodesize => exact .found (.reader .extCodeSize (.constant 700 (by decide)))
  | sload => exact .found (.reader .sload (.constant 200 (by decide)))
  | extcodecopy => exact .found (.extCodeCopy (by decide) (.inl rfl))
  | call => exact .found (.call (by decide) rfl)
  | callcode => exact .found (.callCode (by decide) rfl)
  | delegatecall => exact .found (.delegateCall (by decide) rfl)
  | _ => exact fun _ found => homestead_entries env run _ _ found

theorem spuriousDragon_entries
    : Entries env run (gasSStore env) false (newSpuriousDragonInstructionSet env run) := by
  intro op
  cases op with
  | exp => exact .found (.exp _)
  | _ => exact fun _ found => tangerineWhistle_entries env run _ _ found

/-- The table with static calls and the data returned. -/
theorem byzantium_entries
    : Entries env run (gasSStore env) false (newByzantiumInstructionSet env run) := by
  intro op
  cases op with
  | staticcall => exact .found (.staticCall (by decide) rfl)
  | returndatasize => exact .found (.push _ (by decide))
  | returndatacopy => exact .found .returnDataCopy
  | revert => exact .found .revert
  | _ => exact fun _ found => spuriousDragon_entries env run _ _ found

/-- The table with shifts and salted creations. -/
theorem constantinople_entries
    : Entries env run (gasSStore env) false (newConstantinopleInstructionSet env run) := by
  intro op
  cases op with
  | shl | shr | sar => exact .found (.binary _ (by decide))
  | extcodehash => exact .found (.reader .extCodeHash (.constant _ (by decide)))
  | create2 => exact .found .create2
  | _ => exact fun _ found => byzantium_entries env run _ _ found

/-- The opcodes whose charge differs between tables in more than a price. -/
def OpCode.recharged : OpCode → Bool
  | .sstore | .call | .callcode | .delegatecall | .staticcall => true
  | _ => false

variable {env run}

/-- A price that changed matters only where it is used. -/
theorem Entry.elsewhere {store store' : GasFunc B} {warm warm' : Bool} {op : OpCode}
    {operation : Operation B} (entry : Entry env run store warm op operation)
    (other : op.recharged = false)
    : Entry env run store' warm' op operation := by
  cases entry with
  | unary f paid => exact .unary f paid
  | binary f paid => exact .binary f paid
  | exp price => exact .exp price
  | ternary f paid => exact .ternary f paid
  | push f paid => exact .push f paid
  | callDataLoad => exact .callDataLoad
  | copy data => exact .copy data
  | extCodeCopy paid gas => exact .extCodeCopy paid gas
  | returnDataCopy => exact .returnDataCopy
  | sha3 => exact .sha3
  | pop => exact .pop
  | mload => exact .mload
  | mstore => exact .mstore
  | mstore8 => exact .mstore8
  | jump => exact .jump
  | jumpi => exact .jumpi
  | jumpdest => exact .jumpdest
  | push1 => exact .push1
  | pushN n => exact .pushN n
  | dup n => exact .dup n
  | swap n => exact .swap n
  | stop => exact .stop
  | ret => exact .ret
  | revert => exact .revert
  | reader read gas => exact .reader read gas
  | selfBalance => exact .selfBalance
  | log n => exact .log n
  | selfdestruct gas => exact .selfdestruct gas
  | create => exact .create
  | create2 => exact .create2
  | sstore | call | callCode | delegateCall | staticCall => cases other

variable (env run)

/-- The table with the prices of EIP-1884 and EIP-2200. -/
theorem istanbul_entries
    : Entries env run gasSStoreEIP2200 false (newIstanbulInstructionSet env run) := by
  intro op
  cases op with
  | chainid => exact .found (.push _ (by decide))
  | sload => exact .found (.reader .sload (.constant sloadGasEIP2200 (by decide)))
  | balance => exact .found (.reader .balance (.constant 700 (by decide)))
  | extcodehash => exact .found (.reader .extCodeHash (.constant 700 (by decide)))
  | selfbalance => exact .found .selfBalance
  | sstore => exact .found .sstore
  | call => exact .found (.call (by decide) rfl)
  | callcode => exact .found (.callCode (by decide) rfl)
  | delegatecall => exact .found (.delegateCall (by decide) rfl)
  | staticcall => exact .found (.staticCall (by decide) rfl)
  | _ => exact fun _ found => .elsewhere (constantinople_entries env run _ _ found) rfl

/-- The table with the prices of EIP-2929. -/
theorem berlin_entries
    : Entries env run gasSStoreEIP2929 true (newBerlinInstructionSet env run) := by
  intro op
  cases op with
  | sstore => exact .found .sstore
  | sload => exact .found (.reader .sload .slot)
  | extcodecopy => exact .found (.extCodeCopy (by decide) (.inr rfl))
  | extcodesize => exact .found (.reader .extCodeSize .account)
  | extcodehash => exact .found (.reader .extCodeHash .account)
  | balance => exact .found (.reader .balance .account)
  | call => exact .found (.call (by decide) rfl)
  | callcode => exact .found (.callCode (by decide) rfl)
  | delegatecall => exact .found (.delegateCall (by decide) rfl)
  | staticcall => exact .found (.staticCall (by decide) rfl)
  | selfdestruct => exact .found (.selfdestruct .eip2929)
  | _ => exact fun _ found => .elsewhere (istanbul_entries env run _ _ found) rfl

/-- The table with the refunds of EIP-3529. -/
theorem london_entries
    : Entries env run gasSStoreEIP3529 true (newLondonInstructionSet env run) := by
  intro op
  cases op with
  | basefee => exact .found (.push _ (by decide))
  | sstore => exact .found .sstore
  | selfdestruct => exact .found (.selfdestruct .eip3529)
  | call => exact .found (.call (by decide) rfl)
  | callcode => exact .found (.callCode (by decide) rfl)
  | delegatecall => exact .found (.delegateCall (by decide) rfl)
  | staticcall => exact .found (.staticCall (by decide) rfl)
  | _ => exact fun _ found => .elsewhere (berlin_entries env run _ _ found) rfl

end Tables

/-- How SSTORE is charged under the rules, and whether calls warm up addresses. -/
inductive Metering (env : Env) : GasFunc B → Bool → Prop where
  | legacy
      : env.rules.isLondon = false → env.rules.isBerlin = false → env.rules.isIstanbul = false
      → Metering env (gasSStore env) false
  | istanbul
      : env.rules.isLondon = false → env.rules.isBerlin = false → env.rules.isIstanbul = true
      → Metering env gasSStoreEIP2200 false
  | berlin
      : env.rules.isLondon = false → env.rules.isBerlin = true
      → Metering env gasSStoreEIP2929 true
  | london : env.rules.isLondon = true → Metering env gasSStoreEIP3529 true

/-- The table of every set of rules. -/
theorem instructionSet_entries (env : Env) (run : Runner B)
    : ∃ store warm,
        Metering env store warm ∧ Entries env run store warm (instructionSet env run) := by
  unfold instructionSet
  rcases london : env.rules.isLondon with _ | _
  · rcases berlin : env.rules.isBerlin with _ | _
    · rcases istanbul : env.rules.isIstanbul with _ | _
      · refine ⟨_, _, .legacy london berlin istanbul, ?_⟩
        simp only [Bool.false_eq_true, if_false]
        split
        · exact constantinople_entries env run
        split
        · exact byzantium_entries env run
        split
        · exact spuriousDragon_entries env run
        split
        · exact tangerineWhistle_entries env run
        split
        · exact homestead_entries env run
        · exact frontier_entries env run
      · exact ⟨_, _, .istanbul london berlin istanbul, istanbul_entries env run⟩
    · exact ⟨_, _, .berlin london berlin, berlin_entries env run⟩
  · exact ⟨_, _, .london london, london_entries env run⟩

end GoBinacoin.Vm
