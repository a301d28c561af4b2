import GoBinacoin.Vm.Gas

/-! What the operations do that start no other contract. -/

namespace GoBinacoin.Vm

open Program State

variable {B : Backend}

/-- The code of an operation; it returns the bytes the source calls `res`. -/
abbrev Execute (B : Backend) := Contract → Code B Bytes

def boolWord (b : Bool) : Word := if b then 1 else 0

/-- `Exp`, bit by bit from the highest. -/
def wordExp (base exponent : Word) : Word :=
  (List.range 256).foldr
    (fun i acc => if exponent.getLsbD i then acc * acc * base else acc * acc) 1

/-- `ExtendSign`: the sign of the byte number `back` is copied upwards. -/
def extendSign (num back : Word) : Word :=
  if back.toNat < 31 then (num.setWidth (8 * (back.toNat + 1))).signExtend 256 else num

/-- `Byte`, counted from the most significant one. -/
def wordByte (val th : Word) : Word :=
  if th.toNat < 32 then (val >>> (8 * (31 - th.toNat))) &&& 0xff else 0

/-- An operation that replaces the top of the stack. -/
def unaryOp (f : Word → Word) : Execute B := fun _ => do
  let x ← pop
  push (f x)
  return []

/-- An operation that replaces the two topmost words by one. -/
def binaryOp (f : Word → Word → Word) : Execute B := fun _ => do
  let x ← pop
  let y ← pop
  push (f x y)
  return []

def ternaryOp (f : Word → Word → Word → Word) : Execute B := fun _ => do
  let x ← pop
  let y ← pop
  let z ← pop
  push (f x y z)
  return []

def opAdd : Execute B := binaryOp fun x y => x + y
def opSub : Execute B := binaryOp fun x y => x - y
def opMul : Execute B := binaryOp fun x y => x * y
def opDiv : Execute B := binaryOp fun x y => x / y
def opSdiv : Execute B := binaryOp fun x y => x.sdiv y
def opMod : Execute B := binaryOp fun x y => if y = 0 then 0 else x % y
def opSmod : Execute B := binaryOp fun x y => if y = 0 then 0 else x.srem y
def opExp : Execute B := binaryOp wordExp
def opSignExtend : Execute B := binaryOp fun back num => extendSign num back
def opNot : Execute B := unaryOp fun x => ~~~x
def opLt : Execute B := binaryOp fun x y => boolWord (x.ult y)
def opGt : Execute B := binaryOp fun x y => boolWord (y.ult x)
def opSlt : Execute B := binaryOp fun x y => boolWord (x.slt y)
def opSgt : Execute B := binaryOp fun x y => boolWord (y.slt x)
def opEq : Execute B := binaryOp fun x y => boolWord (x = y)
def opIszero : Execute B := unaryOp fun x => boolWord (x = 0)
def opAnd : Execute B := binaryOp fun x y => x &&& y
def opOr : Execute B := binaryOp fun x y => x ||| y
def opXor : Execute B := binaryOp fun x y => x ^^^ y
def opByte : Execute B := binaryOp fun th val => wordByte val th

def opAddmod : Execute B := ternaryOp fun x y z =>
  if z = 0 then 0 else BitVec.ofNat 256 ((x.toNat + y.toNat) % z.toNat)

def opMulmod : Execute B := ternaryOp fun x y z =>
  if z = 0 then 0 else BitVec.ofNat 256 ((x.toNat * y.toNat) % z.toNat)

def opSHL : Execute B := binaryOp fun shift value =>
  if shift.toNat < 256 then value <<< shift.toNat else 0

def opSHR : Execute B := binaryOp fun shift value =>
  if shift.toNat < 256 then value >>> shift.toNat else 0

def opSAR : Execute B := binaryOp fun shift value =>
  if shift.toNat > 256 then (if value.msb then BitVec.allOnes 256 else 0)
  else value.sshiftRight shift.toNat

/-- An operation that pushes a word it reads from the contract and its scope. -/
def pushOp (f : Contract → Scope B → Word) : Execute B := fun contract => do
  let s ← Prog.get
  push (f contract s)
  return []

def opAddress : Execute B := pushOp fun contract _ => addressWord contract.self
def opOrigin (env : Env) : Execute B := pushOp fun _ _ => addressWord env.origin
def opCaller : Execute B := pushOp fun contract _ => addressWord contract.callerAddress
def opCallValue : Execute B := pushOp fun contract _ => bigWord contract.value
def opCallDataSize : Execute B :=
  pushOp fun contract _ => uintWord (UInt64.ofNat contract.input.length)
def opReturnDataSize : Execute B :=
  pushOp fun _ s => uintWord (UInt64.ofNat s.machine.returnData.length)
def opCodeSize : Execute B := pushOp fun contract _ => uintWord (UInt64.ofNat contract.code.length)
def opGasprice (env : Env) : Execute B := pushOp fun _ _ => bigWord env.gasPrice
def opCoinbase (env : Env) : Execute B := pushOp fun _ _ => addressWord env.coinbase
def opTimestamp (env : Env) : Execute B := pushOp fun _ _ => bigWord env.time
def opNumber (env : Env) : Execute B := pushOp fun _ _ => bigWord env.blockNumber
def opDifficulty (env : Env) : Execute B := pushOp fun _ _ => bigWord env.difficulty
def opGasLimit (env : Env) : Execute B := pushOp fun _ _ => uintWord env.gasLimit
def opChainID (env : Env) : Execute B := pushOp fun _ _ => bigWord env.chainID
def opBaseFee (env : Env) : Execute B := pushOp fun _ _ => bigWord env.baseFee
def opPc : Execute B := pushOp fun _ s => uintWord s.pc
def opMsize : Execute B := pushOp fun _ s => uintWord s.mem.len
def opGas : Execute B := pushOp fun _ s => uintWord s.gas

def opBlockhash (env : Env) : Execute B := unaryOp fun num =>
  let upper := UInt64.ofInt env.blockNumber
  let lower := if upper < 257 then 0 else upper - 256
  if isUint64 num && lower ≤ uint64 num && uint64 num < upper then env.getHash (uint64 num) else 0

def rightPadBytes (b : Bytes) (l : Nat) : Bytes := b ++ List.replicate (l - b.length) 0

/-- `getData`. The end of the slice wraps for sizes that no operation asks for. -/
def getData (data : Bytes) (start size : UInt64) : Except Stop Bytes :=
  let length := UInt64.ofNat data.length
  let start := if start > length then length else start
  let stop := if start + size > length then length else start + size
  if stop < start then .error (.panic .dataBounds)
  else .ok (rightPadBytes ((data.drop start.toNat).take (stop - start).toNat) size.toNat)

/-- An offset that is no `uint64` lies behind all data. -/
def clampOffset (x : Word) : UInt64 := (uint64WithOverflow x).getD 0xffffffffffffffff

def readMemory (offset size : Word) : Code B Bytes := do
  let s ← Prog.get
  Prog.ofExcept (s.mem.read (uint64 offset) (uint64 size))

/-- Replace the memory by a changed one. -/
def changeMemory (change : Memory → Except Stop Memory) : Code B Unit := do
  let s ← Prog.get
  let mem ← Prog.ofExcept (change s.mem)
  Prog.modify fun s => { s with mem := mem }

def setMemory (offset size : Word) (value : Bytes) : Code B Unit :=
  changeMemory fun mem => mem.set (uint64 offset) (uint64 size) value

def opCallDataLoad : Execute B := fun contract => do
  let x ← pop
  match uint64WithOverflow x with
  | some offset =>
      let data ← Prog.ofExcept (getData contract.input offset 32)
      push (bytesWord data)
  | none => push 0
  return []

/-- An operation that copies data to memory. -/
def copyOp (data : Contract → Bytes) : Execute B := fun contract => do
  let memOffset ← pop
  let dataOffset ← pop
  let length ← pop
  let data ← Prog.ofExcept (getData (data contract) (clampOffset dataOffset) (uint64 length))
  setMemory memOffset length data
  return []

def opCallDataCopy : Execute B := copyOp (·.input)
def opCodeCopy : Execute B := copyOp (·.code)

def opExtCodeCopy : Execute B := fun _ => do
  let a ← pop
  let memOffset ← pop
  let codeOffset ← pop
  let length ← pop
  let code ← onMachine (getCode (wordAddress a))
  let codeCopy ← Prog.ofExcept (getData code (clampOffset codeOffset) (uint64 length))
  setMemory memOffset length codeCopy
  return []

/-- The sum of offset and length wraps at 256 bits. -/
def opReturnDataCopy : Execute B := fun _ => do
  let memOffset ← pop
  let dataOffset ← pop
  let length ← pop
  let s ← Prog.get
  let returnData := s.machine.returnData
  match uint64WithOverflow dataOffset, uint64WithOverflow (dataOffset + length) with
  | some offset64, some end64 =>
      if UInt64.ofNat returnData.length < end64 then Prog.stop (.err .returnDataOutOfBounds)
      else if end64 < offset64 then Prog.stop (.panic .sliceBounds)
      else
        setMemory memOffset length
          ((returnData.drop offset64.toNat).take (end64 - offset64).toNat)
        return []
  | _, _ => Prog.stop (.err .returnDataOutOfBounds)

def opSha3 (env : Env) : Execute B := fun _ => do
  let offset ← pop
  let size ← pop
  let data ← readMemory offset size
  let hash := B.keccak data
  if env.enablePreimageRecording then onMachine (perform (.addPreimage hash data))
  push hash
  return []

def opPop : Execute B := fun _ => do
  let _ ← pop
  return []

def opMload : Execute B := fun _ => do
  let v ← pop
  let data ← readMemory v 32
  push (bytesWord data)
  return []

def opMstore : Execute B := fun _ => do
  let mStart ← pop
  let val ← pop
  changeMemory fun mem => mem.set32 (uint64 mStart) val
  return []

def opMstore8 : Execute B := fun _ => do
  let off ← pop
  let val ← pop
  changeMemory fun mem => mem.set8 (uint64 off) (UInt8.ofNat val.toNat)
  return []

def jumpdestByte : UInt8 := 0x5b

/-- The number of data bytes behind an opcode. -/
def pushBytes (op : UInt8) : Nat := if 0x60 ≤ op ∧ op ≤ 0x7f then op.toNat - 0x5f else 0

/-- `codeBitmap`: for each byte, whether it is data; `skip` bytes of data come first. -/
def codeBitmap (skip : Nat) : Bytes → List Bool
  | [] => []
  | op :: rest =>
      match skip with
      | 0 => false :: codeBitmap (pushBytes op) rest
      | skip + 1 => true :: codeBitmap skip rest

def validJumpdest (contract : Contract) (dest : Word) : Bool :=
  isUint64 dest && contract.code[dest.toNat]? = some jumpdestByte
    && (codeBitmap 0 contract.code)[dest.toNat]? = some false

def setPc (pc : UInt64) : Code B Unit := Prog.modify fun s => { s with pc := pc }

def opJump : Execute B := fun contract => do
  let pos ← pop
  if validJumpdest contract pos then
    setPc (uint64 pos)
    return []
  else Prog.stop (.err .invalidJump)

def opJumpi : Execute B := fun contract => do
  let pos ← pop
  let cond ← pop
  if cond ≠ 0 then
    if validJumpdest contract pos then
      setPc (uint64 pos)
      return []
    else Prog.stop (.err .invalidJump)
  else
    let s ← Prog.get
    setPc (s.pc + 1)
    return []

def opJumpdest : Execute B := fun _ => return []

def opPush1 : Execute B := fun contract => do
  let s ← Prog.get
  setPc (s.pc + 1)
  push (uintWord ((contract.code[(s.pc + 1).toNat]?.getD 0).toUInt64))
  return []

/-- `makePush`; the two sizes are always the same. -/
def makePush (size : Nat) : Execute B := fun contract => do
  let s ← Prog.get
  push (bytesWord (rightPadBytes ((contract.code.drop (s.pc + 1).toNat).take size) size))
  setPc (s.pc + UInt64.ofNat size)
  return []

def makeDup (size : Nat) : Execute B := fun _ => do
  let x ← back (size - 1)
  push x
  return []

/-- `makeSwap`: the top is exchanged with the word `size` below it. -/
def makeSwap (size : Nat) : Execute B := fun _ => do
  let top ← back 0
  let other ← back size
  Prog.modify fun s => { s with stack := (s.stack.set 0 other).set size top }
  return []

/-- RETURN and REVERT differ in how the interpreter goes on. -/
def opReturn : Execute B := fun _ => do
  let offset ← pop
  let size ← pop
  readMemory offset size

def opRevert : Execute B := fun _ => do
  let offset ← pop
  let size ← pop
  readMemory offset size

def opStop : Execute B := fun _ => return []

/-- An operation that replaces the top of the stack by something read from the state. -/
def readOp (read : Contract → Word → Evm B Word) : Execute B := fun contract => do
  let x ← pop
  let value ← onMachine (read contract x)
  push value
  return []

def opBalance : Execute B := readOp fun _ slot => do
  let balance ← getBalance (wordAddress slot)
  return bigWord balance

def opExtCodeSize : Execute B := readOp fun _ slot => do
  let size ← getCodeSize (wordAddress slot)
  return uintWord (UInt64.ofNat size)

def opExtCodeHash : Execute B := readOp fun _ slot => do
  let empty ← isEmpty (wordAddress slot)
  if empty then return 0 else getCodeHash (wordAddress slot)

def opSload : Execute B := readOp fun contract loc => getState contract.self loc

def opSelfBalance : Execute B := fun contract => do
  let balance ← onMachine (getBalance contract.self)
  push (bigWord balance)
  return []

def opSstore : Execute B := fun contract => do
  let loc ← pop
  let val ← pop
  onMachine (perform (.setState contract.self loc val))
  return []

/-- The topics of a log, from the top of the stack on. -/
def popTopics : Nat → Code B (List Hash)
  | 0 => return []
  | n + 1 => do
      let topic ← pop
      let topics ← popTopics n
      return topic :: topics

def makeLog (env : Env) (size : Nat) : Execute B := fun contract => do
  let mStart ← pop
  let mSize ← pop
  let topics ← popTopics size
  let d ← readMemory mStart mSize
  onMachine (perform (.addLog {
    address := contract.self
    topics := topics
    data := d
    blockNumber := UInt64.ofInt env.blockNumber
    txHash := 0
    txIndex := 0
    blockHash := 0
    index := 0
    removed := false
  }))
  return []

/-- `opSuicide`. What a contract destroys that names itself is recorded. -/
def suicideTo (self beneficiary : Address) : Evm B Unit := do
  let balance ← getBalance self
  perform (.addBalance beneficiary balance)
  perform (.suicide self)
  if beneficiary = self then
    Prog.modify fun m => { m with burned := (self, balance) :: m.burned }

def opSuicide : Execute B := fun contract => do
  let beneficiary ← pop
  onMachine (suicideTo contract.self (wordAddress beneficiary))
  return []

end GoBinacoin.Vm
