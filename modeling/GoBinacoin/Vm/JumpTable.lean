import GoBinacoin.Vm.Calls

/-! Opcodes and the tables of operations, fork by fork. -/

namespace GoBinacoin.Vm

open Program State

variable {B : Backend}

/-- `OpCode`. The numbered families count from one, logs from zero; `ret` is RETURN. -/
inductive OpCode where
  | stop | add | mul | sub | div | sdiv | mod | smod | addmod | mulmod | exp | signextend | lt
  | gt | slt | sgt | eq | iszero | and | or | xor | not | byte | shl | shr | sar | sha3
  | address | balance | origin | caller | callvalue | calldataload | calldatasize
  | calldatacopy | codesize | codecopy | gasprice | extcodesize | extcodecopy | returndatasize
  | returndatacopy | extcodehash | blockhash | coinbase | timestamp | number | difficulty
  | gaslimit | chainid | selfbalance | basefee | pop | mload | mstore | mstore8 | sload
  | sstore | jump | jumpi | pc | msize | gas | jumpdest | create | call | callcode | ret
  | delegatecall | create2 | staticcall | revert | selfdestruct
  | push (n : Fin 32)
  | dup (n : Fin 16)
  | swap (n : Fin 16)
  | log (n : Fin 5)
  | undefined (b : UInt8)
  deriving DecidableEq

/-- The opcodes that stand alone, under their bytes. -/
def opCodes : List (Nat × OpCode) :=
  [(0x00, .stop), (0x01, .add), (0x02, .mul), (0x03, .sub), (0x04, .div), (0x05, .sdiv),
    (0x06, .mod), (0x07, .smod), (0x08, .addmod), (0x09, .mulmod), (0x0a, .exp),
    (0x0b, .signextend), (0x10, .lt), (0x11, .gt), (0x12, .slt), (0x13, .sgt), (0x14, .eq),
    (0x15, .iszero), (0x16, .and), (0x17, .or), (0x18, .xor), (0x19, .not), (0x1a, .byte),
    (0x1b, .shl), (0x1c, .shr), (0x1d, .sar), (0x20, .sha3), (0x30, .address),
    (0x31, .balance), (0x32, .origin), (0x33, .caller), (0x34, .callvalue),
    (0x35, .calldataload), (0x36, .calldatasize), (0x37, .calldatacopy), (0x38, .codesize),
    (0x39, .codecopy), (0x3a, .gasprice), (0x3b, .extcodesize), (0x3c, .extcodecopy),
    (0x3d, .returndatasize), (0x3e, .returndatacopy), (0x3f, .extcodehash),
    (0x40, .blockhash), (0x41, .coinbase), (0x42, .timestamp), (0x43, .number),
    (0x44, .difficulty), (0x45, .gaslimit), (0x46, .chainid), (0x47, .selfbalance),
    (0x48, .basefee), (0x50, .pop), (0x51, .mload), (0x52, .mstore), (0x53, .mstore8),
    (0x54, .sload), (0x55, .sstore), (0x56, .jump), (0x57, .jumpi), (0x58, .pc),
    (0x59, .msize), (0x5a, .gas), (0x5b, .jumpdest), (0xf0, .create), (0xf1, .call),
    (0xf2, .callcode), (0xf3, .ret), (0xf4, .delegatecall), (0xf5, .create2),
    (0xfa, .staticcall), (0xfd, .revert), (0xff, .selfdestruct)]

/-- The opcode of a byte. -/
def OpCode.ofByte (b : UInt8) : OpCode :=
  if 0x60 ≤ b ∧ b ≤ 0x7f then .push (Fin.ofNat 32 (b.toNat - 0x60))
  else if 0x80 ≤ b ∧ b ≤ 0x8f then .dup (Fin.ofNat 16 (b.toNat - 0x80))
  else if 0x90 ≤ b ∧ b ≤ 0x9f then .swap (Fin.ofNat 16 (b.toNat - 0x90))
  else if 0xa0 ≤ b ∧ b ≤ 0xa4 then .log (Fin.ofNat 5 (b.toNat - 0xa0))
  else (opCodes.lookup b.toNat).getD (.undefined b)

def stackLimit : Nat := 1024

structure Operation (B : Backend) where
  execute : Execute B
  constantGas : UInt64 := 0
  dynamicGas : Option (GasFunc B) := none
  minStack : Nat
  maxStack : Nat
  memorySize : Option (MemorySize B) := none
  halts : Bool := false
  jumps : Bool := false
  writes : Bool := false
  reverts : Bool := false
  returns : Bool := false

abbrev JumpTable (B : Backend) := OpCode → Option (Operation B)

def minStack (pops _push : Nat) : Nat := pops
def maxStack (pops push : Nat) : Nat := stackLimit + pops - push

def gasQuickStep : UInt64 := 2
def gasFastestStep : UInt64 := 3
def gasFastStep : UInt64 := 5
def gasMidStep : UInt64 := 8
def gasSlowStep : UInt64 := 10
def gasExtStep : UInt64 := 20

/-- An operation with a constant price. -/
def plain (execute : Execute B) (constantGas : UInt64) (pops push : Nat) : Operation B :=
  {
    execute := execute
    constantGas := constantGas
    minStack := minStack pops push
    maxStack := maxStack pops push
  }

/-- An operation that needs memory. -/
def onMemory (execute : Execute B) (constantGas : UInt64) (dynamicGas : GasFunc B)
    (pops push : Nat) (memorySize : MemorySize B)
    : Operation B :=
  { plain execute constantGas pops push with
    dynamicGas := some dynamicGas
    memorySize := some memorySize }

section Tables

variable (env : Env) (run : Runner B)

def newFrontierInstructionSet : JumpTable B
  | .stop => some { plain opStop 0 0 0 with halts := true }
  | .add => some (plain opAdd gasFastestStep 2 1)
  | .mul => some (plain opMul gasFastStep 2 1)
  | .sub => some (plain opSub gasFastestStep 2 1)
  | .div => some (plain opDiv gasFastStep 2 1)
  | .sdiv => some (plain opSdiv gasFastStep 2 1)
  | .mod => some (plain opMod gasFastStep 2 1)
  | .smod => some (plain opSmod gasFastStep 2 1)
  | .addmod => some (plain opAddmod gasMidStep 3 1)
  | .mulmod => some (plain opMulmod gasMidStep 3 1)
  | .exp => some { plain opExp 0 2 1 with dynamicGas := some gasExpFrontier }
  | .signextend => some (plain opSignExtend gasFastStep 2 1)
  | .lt => some (plain opLt gasFastestStep 2 1)
  | .gt => some (plain opGt gasFastestStep 2 1)
  | .slt => some (plain opSlt gasFastestStep 2 1)
  | .sgt => some (plain opSgt gasFastestStep 2 1)
  | .eq => some (plain opEq gasFastestStep 2 1)
  | .iszero => some (plain opIszero gasFastestStep 1 1)
  | .and => some (plain opAnd gasFastestStep 2 1)
  | .xor => some (plain opXor gasFastestStep 2 1)
  | .or => some (plain opOr gasFastestStep 2 1)
  | .not => some (plain opNot gasFastestStep 1 1)
  | .byte => some (plain opByte gasFastestStep 2 1)
  | .sha3 => some (onMemory (opSha3 env) 30 gasSha3 2 1 memorySha3)
  | .address => some (plain opAddress gasQuickStep 0 1)
  | .balance => some (plain opBalance 20 1 1)
  | .origin => some (plain (opOrigin env) gasQuickStep 0 1)
  | .caller => some (plain opCaller gasQuickStep 0 1)
  | .callvalue => some (plain opCallValue gasQuickStep 0 1)
  | .calldataload => some (plain opCallDataLoad gasFastestStep 1 1)
  | .calldatasize => some (plain opCallDataSize gasQuickStep 0 1)
  | .calldatacopy =>
      some (onMemory opCallDataCopy gasFastestStep gasCallDataCopy 3 0 memoryCallDataCopy)
  | .codesize => some (plain opCodeSize gasQuickStep 0 1)
  | .codecopy => some (onMemory opCodeCopy gasFastestStep gasCodeCopy 3 0 memoryCodeCopy)
  | .gasprice => some (plain (opGasprice env) gasQuickStep 0 1)
  | .extcodesize => some (plain opExtCodeSize 20 1 1)
  | .extcodecopy => some (onMemory opExtCodeCopy 20 gasExtCodeCopy 4 0 memoryExtCodeCopy)
  | .blockhash => some (plain (opBlockhash env) gasExtStep 1 1)
  | .coinbase => some (plain (opCoinbase env) gasQuickStep 0 1)
  | .timestamp => some (plain (opTimestamp env) gasQuickStep 0 1)
  | .number => some (plain (opNumber env) gasQuickStep 0 1)
  | .difficulty => some (plain (opDifficulty env) gasQuickStep 0 1)
  | .gaslimit => some (plain (opGasLimit env) gasQuickStep 0 1)
  | .pop => some (plain opPop gasQuickStep 1 0)
  | .mload => some (onMemory opMload gasFastestStep pureMemoryGascost 1 1 memoryMLoad)
  | .mstore => some (onMemory opMstore gasFastestStep pureMemoryGascost 2 0 memoryMStore)
  | .mstore8 => some (onMemory opMstore8 gasFastestStep pureMemoryGascost 2 0 memoryMStore8)
  | .sload => some (plain opSload 50 1 1)
  | .sstore =>
      some { plain opSstore 0 2 0 with
        dynamicGas := some (gasSStore env), writes := true }
  | .jump => some { plain opJump gasMidStep 1 0 with jumps := true }
  | .jumpi => some { plain opJumpi gasSlowStep 2 0 with jumps := true }
  | .pc => some (plain opPc gasQuickStep 0 1)
  | .msize => some (plain opMsize gasQuickStep 0 1)
  | .gas => some (plain opGas gasQuickStep 0 1)
  | .jumpdest => some (plain opJumpdest 1 0 0)
  | .push n =>
      if n = 0 then some (plain opPush1 gasFastestStep 0 1)
      else some (plain (makePush (n + 1)) gasFastestStep 0 1)
  | .dup n => some (plain (makeDup (n + 1)) gasFastestStep (n + 1) (n + 2))
  | .swap n => some (plain (makeSwap (n + 1)) gasFastestStep (n + 2) (n + 2))
  | .log n =>
      some { onMemory (makeLog env n) 0 (makeGasLog n) (n + 2) 0 memoryLog with writes := true }
  | .create =>
      some { onMemory (opCreate env run) 32000 pureMemoryGascost 3 1 memoryCreate with
        writes := true, returns := true }
  | .call =>
      some { onMemory (opCall env run) 40 (gasCall env) 7 1 memoryCall with
        returns := true }
  | .callcode =>
      some { onMemory (opCallCode env run) 40 (gasCallCode env) 7 1 memoryCall with
        returns := true }
  | .ret => some { onMemory opReturn 0 pureMemoryGascost 2 0 memoryReturn with halts := true }
  | .selfdestruct =>
      some { plain opSuicide 0 1 0 with
        dynamicGas := some (gasSelfdestruct env), halts := true, writes := true }
  | _ => none

/-- Change the price of an operation. -/
def Operation.costing (o : Operation B) (constantGas : UInt64) : Operation B :=
  { o with constantGas := constantGas }

/-- Change the dynamic gas of an operation. -/
def Operation.metered (o : Operation B) (dynamicGas : GasFunc B) : Operation B :=
  { o with dynamicGas := some dynamicGas }

def newHomesteadInstructionSet : JumpTable B
  | .delegatecall =>
      some { onMemory (opDelegateCall env run) 40 (gasDelegateCall env) 6 1 memoryDelegateCall with
        returns := true }
  | op => newFrontierInstructionSet env run op

def newTangerineWhistleInstructionSet : JumpTable B := fun op =>
  let operation := newHomesteadInstructionSet env run op
  match op with
  | .balance => operation.map (·.costing 400)
  | .extcodesize => operation.map (·.costing 700)
  | .sload => operation.map (·.costing 200)
  | .extcodecopy => operation.map (·.costing 700)
  | .call => operation.map (·.costing 700)
  | .callcode => operation.map (·.costing 700)
  | .delegatecall => operation.map (·.costing 700)
  | _ => operation

def newSpuriousDragonInstructionSet : JumpTable B := fun op =>
  let operation := newTangerineWhistleInstructionSet env run op
  match op with
  | .exp => operation.map (·.metered gasExpEIP158)
  | _ => operation

def newByzantiumInstructionSet : JumpTable B
  | .staticcall =>
      some { onMemory (opStaticCall env run) 700 (gasStaticCall env) 6 1 memoryStaticCall with
        returns := true }
  | .returndatasize => some (plain opReturnDataSize gasQuickStep 0 1)
  | .returndatacopy =>
      some (onMemory opReturnDataCopy gasFastestStep gasReturnDataCopy 3 0 memoryReturnDataCopy)
  | .revert =>
      some { onMemory opRevert 0 pureMemoryGascost 2 0 memoryRevert with
        reverts := true, returns := true }
  | op => newSpuriousDragonInstructionSet env run op

def newConstantinopleInstructionSet : JumpTable B
  | .shl => some (plain opSHL gasFastestStep 2 1)
  | .shr => some (plain opSHR gasFastestStep 2 1)
  | .sar => some (plain opSAR gasFastestStep 2 1)
  | .extcodehash => some (plain opExtCodeHash 400 1 1)
  | .create2 =>
      some { onMemory (opCreate2 env run) 32000 gasCreate2 4 1 memoryCreate2 with
        writes := true, returns := true }
  | op => newByzantiumInstructionSet env run op

def enable1344 (jt : JumpTable B) : JumpTable B
  | .chainid => some (plain (opChainID env) gasQuickStep 0 1)
  | op => jt op

def enable1884 (jt : JumpTable B) : JumpTable B
  | .sload => (jt .sload).map (·.costing 800)
  | .balance => (jt .balance).map (·.costing 700)
  | .extcodehash => (jt .extcodehash).map (·.costing 700)
  | .selfbalance => some (plain opSelfBalance gasFastStep 0 1)
  | op => jt op

def enable2200 (jt : JumpTable B) : JumpTable B
  | .sload => (jt .sload).map (·.costing sloadGasEIP2200)
  | .sstore => (jt .sstore).map (·.metered gasSStoreEIP2200)
  | op => jt op

def newIstanbulInstructionSet : JumpTable B :=
  enable2200 (enable1884 (enable1344 env (newConstantinopleInstructionSet env run)))

def enable2929 (jt : JumpTable B) : JumpTable B := fun op =>
  let warm (gas : GasFunc B) : Option (Operation B) :=
    (jt op).map fun o => (o.costing warmStorageReadCostEIP2929).metered gas
  match op with
  | .sstore => (jt op).map (·.metered gasSStoreEIP2929)
  | .sload => (jt op).map fun o => (o.costing 0).metered gasSLoadEIP2929
  | .extcodecopy => warm gasExtCodeCopyEIP2929
  | .extcodesize => warm gasEip2929AccountCheck
  | .extcodehash => warm gasEip2929AccountCheck
  | .balance => warm gasEip2929AccountCheck
  | .call => warm (gasCallEIP2929 env)
  | .callcode => warm (gasCallCodeEIP2929 env)
  | .staticcall => warm (gasStaticCallEIP2929 env)
  | .delegatecall => warm (gasDelegateCallEIP2929 env)
  | .selfdestruct =>
      (jt op).map fun o => (o.costing selfdestructGasEIP150).metered gasSelfdestructEIP2929
  | _ => jt op

def newBerlinInstructionSet : JumpTable B := enable2929 env (newIstanbulInstructionSet env run)

def enable3529 (jt : JumpTable B) : JumpTable B
  | .sstore => (jt .sstore).map (·.metered gasSStoreEIP3529)
  | .selfdestruct => (jt .selfdestruct).map (·.metered gasSelfdestructEIP3529)
  | op => jt op

def enable3198 (jt : JumpTable B) : JumpTable B
  | .basefee => some (plain (opBaseFee env) gasQuickStep 0 1)
  | op => jt op

def newLondonInstructionSet : JumpTable B :=
  enable3198 env (enable3529 (newBerlinInstructionSet env run))

/-- The table `NewEVMInterpreter` takes. -/
def instructionSet : JumpTable B :=
  if env.rules.isLondon then newLondonInstructionSet env run
  else if env.rules.isBerlin then newBerlinInstructionSet env run
  else if env.rules.isIstanbul then newIstanbulInstructionSet env run
  else if env.rules.isConstantinople then newConstantinopleInstructionSet env run
  else if env.rules.isByzantium then newByzantiumInstructionSet env run
  else if env.rules.isEIP158 then newSpuriousDragonInstructionSet env run
  else if env.rules.isEIP150 then newTangerineWhistleInstructionSet env run
  else if env.rules.isHomestead then newHomesteadInstructionSet env run
  else newFrontierInstructionSet env run

end Tables

end GoBinacoin.Vm
