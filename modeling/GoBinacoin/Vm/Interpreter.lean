import GoBinacoin.Vm.JumpTable

/-! The interpreter. A frame takes at most one step for each unit of its gas, and calls nest at
most 1025 deep: with these bounds the loop and the recursion are functions, and a run that
reached a bound would stop with `outOfFuel`.
-/

namespace GoBinacoin.Vm

open Program State

variable {B : Backend}

/-- How the loop goes on after a step. -/
inductive Next where
  | go
  | halted (ret : Bytes)
  | reverted (ret : Bytes)
  deriving DecidableEq

def getOp (contract : Contract) (pc : UInt64) : UInt8 := contract.code[pc.toNat]?.getD 0

/-- The height of the stack is within the bounds of an operation. -/
def checkStack (operation : Operation B) : Code B Unit := do
  let s ← Prog.get
  if s.stack.length < operation.minStack then
    Prog.stop (.err (.stackUnderflow s.stack.length operation.minStack))
  else if s.stack.length > operation.maxStack then
    Prog.stop (.err (.stackOverflow s.stack.length operation.maxStack))
  else return ()

/-- Write restrictions; the third item on the stack of CALL is the value. -/
def checkWrites (env : Env) (op : OpCode) (operation : Operation B) : Code B Unit := do
  let s ← Prog.get
  if s.machine.readOnly && env.rules.isByzantium then
    if operation.writes then Prog.stop (.err .writeProtection)
    else if op = .call then
      let value ← back 2
      if value ≠ 0 then Prog.stop (.err .writeProtection) else return ()
    else return ()
  else return ()

def chargeGas (amount : UInt64) : Code B Unit := do
  let paid ← useGas amount
  if paid then return () else Prog.stop (.err .outOfGas)

/-- The size of memory an operation asks for, in bytes of whole words. -/
def requestedMemory (operation : Operation B) : Code B UInt64 := do
  match operation.memorySize with
  | none => return 0
  | some size =>
      let memSize ← size
      let memSize ← checked memSize
      checked (safeMul (toWordSize memSize) 32)

/-- Every error of a gas function is `ErrOutOfGas`. -/
def dynamicCost (operation : Operation B) (contract : Contract) (memorySize : UInt64)
    : Code B UInt64 := do
  match operation.dynamicGas with
  | none => return 0
  | some gasFunc =>
      let cost ← (gasFunc contract memorySize).attempt
      match cost with
      | .ok cost => return cost
      | .error (.err _) => Prog.stop (.err .outOfGas)
      | .error (.panic f) => Prog.stop (.panic f)

def resizeMemory (memorySize : UInt64) : Code B Unit :=
  Prog.modify fun s => if memorySize > 0 then { s with mem := s.mem.resize memorySize } else s

/-- What comes before an operation: the checks, the gas and the memory. -/
def prepare (env : Env) (contract : Contract) (op : OpCode) (operation : Operation B)
    : Code B Unit := do
  checkStack operation
  checkWrites env op operation
  chargeGas operation.constantGas
  let memorySize ← requestedMemory operation
  let cost ← dynamicCost operation contract memorySize
  chargeGas cost
  resizeMemory memorySize

/-- Operations that return data leave it to the next ones. -/
def keepReturnData (operation : Operation B) (res : Bytes) : Code B Unit :=
  if operation.returns then onMachine (Prog.modify fun m => { m with returnData := res })
  else return ()

/-- How the loop goes on after an operation. -/
def conclude (operation : Operation B) (res : Bytes) : Code B Next :=
  if operation.reverts then return .reverted res
  else if operation.halts then return .halted res
  else if operation.jumps then return .go
  else do
    Prog.modify fun s => { s with pc := s.pc + 1 }
    return .go

/-- An operation of the table, from the checks to what follows its execution. -/
def stepOperation (env : Env) (contract : Contract) (op : OpCode) (operation : Operation B)
    : Code B Next := do
  prepare env contract op operation
  let res ← operation.execute contract
  keepReturnData operation res
  conclude operation res

/-- The record counts every round of the loop. -/
def Machine.dispatch (m : Machine B) : Machine B := { m with steps := m.steps + 1 }

/-- One round of the loop. -/
def step (env : Env) (table : JumpTable B) (contract : Contract) : Code B Next := do
  onMachine (Prog.modify Machine.dispatch)
  let s ← Prog.get
  let op := getOp contract s.pc
  match table (.ofByte op) with
  | none => Prog.stop (.err (.invalidOpCode op))
  | some operation => stepOperation env contract (.ofByte op) operation

def loop (env : Env) (table : JumpTable B) (contract : Contract)
    : Nat → Code B (Bytes × Option VMError)
  | 0 => Prog.stop (.panic .outOfFuel)
  | fuel + 1 => do
      let next ← step env table contract
      match next with
      | .go => loop env table contract fuel
      | .halted ret => return (ret, none)
      | .reverted ret => return (ret, some .executionReverted)

/-- The start of `Run`. -/
def Machine.enter (m : Machine B) (self : Address) (readOnly : Bool) : Machine B :=
  { m with
    depth := m.depth + 1
    readOnly := m.readOnly || readOnly
    returnData := []
    frames := self :: m.frames
    events := .state (self :: m.frames) m.db :: m.events }

/-- The deferred functions of `Run`, for the flag before it. -/
def Machine.leave (m : Machine B) (wasReadOnly readOnly : Bool) : Machine B :=
  { m with
    depth := m.depth - 1
    readOnly := if readOnly && !wasReadOnly then false else m.readOnly
    frames := m.frames.tail }

/-- What `Run` returns for the end of the loop; an error leaves the gas to the caller. -/
def runResult (gas : UInt64) : Except Stop (Bytes × Option VMError) → Except Stop RunResult
  | .ok (ret, err) =>
      .ok {
        ret := ret
        gas := gas
        err := err
      }
  | .error (.err e) =>
      .ok {
        ret := []
        gas := gas
        err := some e
      }
  | .error (.panic f) => .error (.panic f)

/-- The loop of a frame, from an empty stack and memory. -/
def runFrame (env : Env) (run : Runner B) (contract : Contract) (gas : UInt64) (input : Bytes)
    (readOnly : Bool) (m : Machine B)
    : Except Stop (Bytes × Option VMError) × Scope B :=
  loop env (instructionSet env run) { contract with input := input } (gas.toNat + 1)
    {
      gas := gas
      machine := m.enter contract.self readOnly
    }

/-- `Run`, over the interpreter of the calls below. -/
def interpret (env : Env) (run : Runner B) : Runner B := fun contract gas input readOnly m =>
  if contract.code.length = 0 then
    (runResult gas (.ok ([], none)), (m.enter contract.self readOnly).leave m.readOnly readOnly)
  else
    let ended := runFrame env run contract gas input readOnly m
    (runResult ended.2.gas ended.1, ended.2.machine.leave m.readOnly readOnly)

/-- The interpreter down to a number of nested frames. -/
def runAt (env : Env) : Nat → Runner B
  | 0 => fun _ _ _ _ => Prog.stop (.panic .outOfFuel)
  | n + 1 => interpret env (runAt env n)

/-- The interpreter: frames nest as deep as calls are let through. -/
def interpreter (env : Env) : Runner B := runAt env (callCreateDepth + 1)

end GoBinacoin.Vm
