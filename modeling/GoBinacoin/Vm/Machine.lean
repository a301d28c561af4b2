import GoBinacoin.Lib.Program
import GoBinacoin.State.Revert

/-! The parts of the virtual machine: words, memory, contracts, the environment, and the state
that calls share. What an observer of a run could note is recorded beside that state: every
state the database was in with the contracts on the call stack, and every addition to an amount
of gas.
-/

namespace GoBinacoin.Vm

open BigEndian Program Rlp State

/-- `uint256.Int`. -/
abbrev Word := BitVec 256

/-- `Uint64`, the low bits. -/
def uint64 (x : Word) : UInt64 := UInt64.ofNat x.toNat

def isUint64 (x : Word) : Bool := x.toNat < 2 ^ 64

/-- `Bytes20`. -/
def wordAddress (x : Word) : Address := x.setWidth 160

def addressWord (a : Address) : Word := a.setWidth 256

def uintWord (n : UInt64) : Word := BitVec.ofNat 256 n.toNat

/-- `SetFromBig`. -/
def bigWord (n : Int) : Word := BitVec.ofInt 256 n

/-- `SetBytes`. -/
def bytesWord (b : Bytes) : Word := bytesToHash b

def bitLen (x : Word) : Nat := if x = 0 then 0 else Nat.log2 x.toNat + 1

/-- Two's complement of 64 bits. -/
def int64 (n : UInt64) : Int := if n.toNat < 2 ^ 63 then n.toNat else n.toNat - 2 ^ 64

/-- `math.SafeAdd`; `none` for an overflow. -/
def safeAdd (x y : UInt64) : Option UInt64 :=
  if x.toNat + y.toNat < 2 ^ 64 then some (x + y) else none

def safeMul (x y : UInt64) : Option UInt64 :=
  if x.toNat * y.toNat < 2 ^ 64 then some (x * y) else none

structure Rules where
  isHomestead : Bool
  isEIP150 : Bool
  isEIP158 : Bool
  isByzantium : Bool
  isConstantinople : Bool
  isPetersburg : Bool
  isIstanbul : Bool
  isBerlin : Bool
  isLondon : Bool
  deriving DecidableEq

/-- The forks that the rules know, from Homestead to London. -/
def Rules.forks (rules : Rules) : List Bool :=
  [rules.isHomestead, rules.isEIP150, rules.isEIP158, rules.isByzantium, rules.isConstantinople,
    rules.isPetersburg, rules.isIstanbul, rules.isBerlin, rules.isLondon]

/-- The rules of a chain whose forks are in order, as `CheckConfigForkOrder` demands. -/
def Rules.Ordered (rules : Rules) : Prop :=
  rules.forks.Pairwise fun earlier later => later = true → earlier = true

inductive VMError where
  | outOfGas
  | codeStoreOutOfGas
  | depth
  | insufficientBalance
  | contractAddressCollision
  | executionReverted
  | maxCodeSizeExceeded
  | invalidJump
  | writeProtection
  | returnDataOutOfBounds
  | gasUintOverflow
  | invalidCode
  | stackUnderflow (stackLen required : Nat)
  | stackOverflow (stackLen limit : Nat)
  | invalidOpCode (opcode : UInt8)
  | reentrancySentry
  /-- An error of a precompiled contract. -/
  | precompile (code : Nat)
  deriving DecidableEq

/-- What the source panics with, and a run that the bound on its steps cut off. -/
inductive Fault where
  | stackIndex
  | memoryIndex
  | sliceBounds
  | dataBounds
  | refundBelowZero
  | accessListCanary
  | stateAccess
  | outOfFuel
  deriving DecidableEq

/-- Why a program stopped. -/
inductive Stop where
  | err (e : VMError)
  | panic (f : Fault)
  deriving DecidableEq

structure Memory where
  store : Bytes := []
  lastGasCost : UInt64 := 0

def Memory.len (m : Memory) : UInt64 := UInt64.ofNat m.store.length

/-- Bytes written over a list from an offset on. -/
def overwrite (store : Bytes) (offset : Nat) (value : Bytes) : Bytes :=
  store.take offset ++ value ++ store.drop (offset + value.length)

def Memory.set (m : Memory) (offset size : UInt64) (value : Bytes) : Except Stop Memory :=
  if size = 0 then .ok m
  else if offset + size > m.len ∨ offset + size < offset then .error (.panic .memoryIndex)
  else .ok { m with store := overwrite m.store offset.toNat (value.take size.toNat) }

def Memory.set32 (m : Memory) (offset : UInt64) (val : Word) : Except Stop Memory :=
  if offset + 32 > m.len ∨ offset + 32 < offset then .error (.panic .memoryIndex)
  else .ok { m with store := overwrite m.store offset.toNat (hashBytes val) }

/-- The single write of `opMstore8`. -/
def Memory.set8 (m : Memory) (offset : UInt64) (val : UInt8) : Except Stop Memory :=
  if offset ≥ m.len then .error (.panic .memoryIndex)
  else .ok { m with store := overwrite m.store offset.toNat [val] }

def Memory.resize (m : Memory) (size : UInt64) : Memory :=
  if m.len < size then
    { m with store := m.store ++ List.replicate (size - m.len).toNat 0 }
  else m

/-- `GetPtr` and `GetCopy`, which read the same bytes. -/
def Memory.read (m : Memory) (offset size : UInt64) : Except Stop Bytes :=
  if int64 size = 0 then .ok []
  else if (m.store.length : Int) > int64 offset then
    if 0 ≤ int64 offset ∧ 0 ≤ int64 size ∧ int64 offset + int64 size ≤ m.store.length then
      .ok ((m.store.drop (int64 offset).toNat).take (int64 size).toNat)
    else .error (.panic .memoryIndex)
  else .ok []

/-- `Contract` without its gas. The cached analysis of jump destinations is left out. -/
structure Contract where
  callerAddress : Address
  self : Address
  code : Bytes
  input : Bytes := []
  value : Int

/-- What a call returned: bytes of its own, or the slice it was given as input. -/
inductive Output where
  | bytes (b : Bytes)
  | input
  deriving DecidableEq

def Output.content (input : Bytes) : Output → Bytes
  | .bytes b => b
  | .input => input

/-- The precompiled contracts that compute something. -/
inductive Native where
  | ecrecover
  | sha256hash
  | ripemd160hash
  | bigModExp (eip2565 : Bool)
  | bn256AddByzantium
  | bn256ScalarMulByzantium
  | bn256PairingByzantium
  | bn256AddIstanbul
  | bn256ScalarMulIstanbul
  | bn256PairingIstanbul
  | blake2F
  deriving DecidableEq

inductive Precompile where
  | native (n : Native)
  | dataCopy
  deriving DecidableEq

structure NativeContract where
  requiredGas : Bytes → UInt64
  run : Bytes → Bytes × Option VMError

/-- Everything an execution reads and does not change. The fields of `BlockContext`,
`TxContext`, `Config` and the chain configuration keep their names.
-/
structure Env where
  rules : Rules
  noRecursion : Bool := false
  enablePreimageRecording : Bool := false
  coinbase : Address := 0
  gasLimit : UInt64 := 0
  blockNumber : Int := 0
  time : Int := 0
  difficulty : Int := 0
  baseFee : Int := 0
  getHash : UInt64 → Hash := fun _ => 0
  origin : Address := 0
  gasPrice : Int := 0
  chainID : Int := 0
  native : Native → NativeContract

def precompilesHomestead : List (Nat × Precompile) :=
  [(1, .native .ecrecover), (2, .native .sha256hash), (3, .native .ripemd160hash), (4, .dataCopy)]

def precompilesByzantium : List (Nat × Precompile) :=
  precompilesHomestead
    ++ [(5, .native (.bigModExp false)), (6, .native .bn256AddByzantium),
      (7, .native .bn256ScalarMulByzantium), (8, .native .bn256PairingByzantium)]

def precompilesIstanbul : List (Nat × Precompile) :=
  precompilesHomestead
    ++ [(5, .native (.bigModExp false)), (6, .native .bn256AddIstanbul),
      (7, .native .bn256ScalarMulIstanbul), (8, .native .bn256PairingIstanbul),
      (9, .native .blake2F)]

def precompilesBerlin : List (Nat × Precompile) :=
  precompilesHomestead
    ++ [(5, .native (.bigModExp true)), (6, .native .bn256AddIstanbul),
      (7, .native .bn256ScalarMulIstanbul), (8, .native .bn256PairingIstanbul),
      (9, .native .blake2F)]

/-- The tables of precompiled contracts by the rules of the block. -/
def Rules.precompiles (rules : Rules) : List (Nat × Precompile) :=
  if rules.isBerlin then precompilesBerlin
  else if rules.isIstanbul then precompilesIstanbul
  else if rules.isByzantium then precompilesByzantium
  else precompilesHomestead

def Env.precompile (env : Env) (addr : Address) : Option Precompile :=
  env.rules.precompiles.lookup addr.toNat

def Rules.activePrecompiles (rules : Rules) : List Address :=
  rules.precompiles.map fun (n, _) => BitVec.ofNat 160 n

/-- What an observer of a run can note. -/
inductive Event (B : Backend) where
  /-- The database, and the contracts on the call stack, innermost first. -/
  | state (frames : List Address) (db : StateDB B)
  /-- An addition to an amount of gas. -/
  | gasSum (x y : UInt64)
  /-- An SSTORE of a contract that is not in the access list of the database. -/
  | canary (addr : Address) (db : StateDB B)

/-- The parts of `EVM` and `EVMInterpreter` that calls change. The last four fields are the
record of the run: the contracts on the call stack, what was destroyed by self-destructs that
named themselves, the events, newest first, and how many operations were dispatched.
-/
structure Machine (B : Backend) where
  db : StateDB B
  depth : Nat := 0
  callGasTemp : UInt64 := 0
  readOnly : Bool := false
  returnData : Bytes := []
  frames : List Address := []
  burned : List (Address × Int) := []
  events : List (Event B) := []
  steps : Nat := 0

variable {B : Backend}

/-- Programs of the machine. -/
abbrev Evm (B : Backend) (α : Type) := Prog (Machine B) Stop α

def Machine.note (m : Machine B) (e : Event B) : Machine B := { m with events := e :: m.events }

/-- The machine after the database moved on. -/
def Machine.moved (m : Machine B) (db : StateDB B) : Machine B :=
  { m with db := db }.note (.state m.frames db)

/-- The panic an operation of the database may end with. -/
def opFault : Op → Fault
  | .subRefund _ => .refundBelowZero
  | _ => .stateAccess

/-- Run an operation of the database. -/
def perform (op : Op) : Evm B Unit := fun m =>
  match op.run m.db with
  | some db => (.ok (), m.moved db)
  | none => (.error (.panic (opFault op)), m)

/-- A getter of the database, which may cache what it read. -/
def query {α : Type} (op : Op) (value : StateDB B → α) : Evm B α := fun m =>
  match op.run m.db with
  | some db => (.ok (value m.db), m.moved db)
  | none => (.error (.panic (opFault op)), m)

def getBalance (addr : Address) : Evm B Int :=
  query (.getBalance addr) fun s => (s.getBalance addr).1

def getNonce (addr : Address) : Evm B UInt64 :=
  query (.getNonce addr) fun s => (s.getNonce addr).1

def getCode (addr : Address) : Evm B Bytes :=
  query (.getCode addr) fun s => (s.getCode addr).1.getD []

def getCodeSize (addr : Address) : Evm B Nat :=
  query (.getCodeSize addr) fun s => (s.getCodeSize addr).1

def getCodeHash (addr : Address) : Evm B Hash :=
  query (.getCodeHash addr) fun s => (s.getCodeHash addr).1

def getState (addr : Address) (key : Hash) : Evm B Hash :=
  query (.getState addr key) fun s => (s.getState addr key).1

def getCommittedState (addr : Address) (key : Hash) : Evm B Hash :=
  query (.getCommittedState addr key) fun s => (s.getCommittedState addr key).1

def exist (addr : Address) : Evm B Bool :=
  query (.exist addr) fun s => (s.exist addr).1

def isEmpty (addr : Address) : Evm B Bool :=
  query (.empty addr) fun s => (s.empty addr).1

def hasSuicided (addr : Address) : Evm B Bool :=
  query (.hasSuicided addr) fun s => (s.hasSuicided addr).1

def addressInAccessList (addr : Address) : Evm B Bool := do
  let m ← Prog.get
  return m.db.addressInAccessList addr

/-- `SlotInAccessList`: whether the address and the slot are there. -/
def slotInAccessList (addr : Address) (slot : Hash) : Evm B (Bool × Bool) := do
  let m ← Prog.get
  match m.db.slotInAccessList addr slot with
  | some present => return present
  | none => Prog.stop (.panic .stateAccess)

/-- An addition to an amount of gas, which wraps. -/
def gasSum (x y : UInt64) : Evm B UInt64 := do
  Prog.modify fun m => m.note (.gasSum x y)
  return x + y

end GoBinacoin.Vm
