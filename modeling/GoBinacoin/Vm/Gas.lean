import GoBinacoin.Vm.Machine

/-! Gas: the scope a running contract works on, the sizes of memory its operations need, and
what they cost beyond their constant price.
-/

namespace GoBinacoin.Vm

open Program State

variable {B : Backend}

/-- What a running contract works on: `ScopeContext`, the program counter, and the machine. The
head of the list is the top of the stack.
-/
structure Scope (B : Backend) where
  gas : UInt64
  stack : List Word := []
  mem : Memory := {}
  pc : UInt64 := 0
  machine : Machine B

/-- Programs of a running contract. -/
abbrev Code (B : Backend) (α : Type) := Prog (Scope B) Stop α

def onMachine {α : Type} (p : Evm B α) : Code B α :=
  Prog.within (·.machine) (fun s m => { s with machine := m }) p

/-- `Back`; `peek` is `back 0`. -/
def back (n : Nat) : Code B Word := do
  let s ← Prog.get
  match s.stack[n]? with
  | some x => return x
  | none => Prog.stop (.panic .stackIndex)

def pop : Code B Word := fun s =>
  match s.stack with
  | x :: rest => (.ok x, { s with stack := rest })
  | [] => (.error (.panic .stackIndex), s)

def push (x : Word) : Code B Unit := Prog.modify fun s => { s with stack := x :: s.stack }

def useGas (amount : UInt64) : Code B Bool := fun s =>
  if s.gas < amount then (.ok false, s) else (.ok true, { s with gas := s.gas - amount })

/-- `Contract.Gas += amount`. -/
def returnGas (amount : UInt64) : Code B Unit := do
  let s ← Prog.get
  let sum ← onMachine (gasSum s.gas amount)
  Prog.modify fun s => { s with gas := sum }

/-- A checked computation; an overflow is `ErrGasUintOverflow`. -/
def checked {σ : Type} : Option UInt64 → Prog σ Stop UInt64
  | some n => return n
  | none => Prog.stop (.err .gasUintOverflow)

def uint64WithOverflow (x : Word) : Option UInt64 := if isUint64 x then some (uint64 x) else none

def toWordSize (size : UInt64) : UInt64 :=
  if size > 0xffffffffffffffff - 31 then 0xffffffffffffffff / 32 + 1 else (size + 31) / 32

/-- `calcMemSize64WithUint`; `none` for an overflow. -/
def calcMemSize64WithUint (off : Word) (length64 : UInt64) : Option UInt64 :=
  if length64 = 0 then some 0
  else (uint64WithOverflow off).bind fun offset64 =>
    if offset64 + length64 < offset64 then none else some (offset64 + length64)

def calcMemSize64 (off l : Word) : Option UInt64 :=
  (uint64WithOverflow l).bind (calcMemSize64WithUint off)

/-- A memory size function of the stack; the inner `none` is an overflow. -/
abbrev MemorySize (B : Backend) := Code B (Option UInt64)

/-- One region, its offset and length at the given stack positions. -/
def memoryRegion (off l : Nat) : MemorySize B := do
  let off ← back off
  let l ← back l
  return calcMemSize64 off l

/-- A region of fixed length at the top of the stack. -/
def memoryFixed (length64 : UInt64) : MemorySize B := do
  let off ← back 0
  return calcMemSize64WithUint off length64

/-- The larger of an output and an input region, as calls have them. -/
def memoryRegions (retOff retLen inOff inLen : Nat) : MemorySize B := do
  let x ← memoryRegion retOff retLen
  match x with
  | none => return none
  | some x =>
      let y ← memoryRegion inOff inLen
      match y with
      | none => return none
      | some y => return some (if x > y then x else y)

def memorySha3 : MemorySize B := memoryRegion 0 1
def memoryCallDataCopy : MemorySize B := memoryRegion 0 2
def memoryReturnDataCopy : MemorySize B := memoryRegion 0 2
def memoryCodeCopy : MemorySize B := memoryRegion 0 2
def memoryExtCodeCopy : MemorySize B := memoryRegion 1 3
def memoryMLoad : MemorySize B := memoryFixed 32
def memoryMStore8 : MemorySize B := memoryFixed 1
def memoryMStore : MemorySize B := memoryFixed 32
def memoryCreate : MemorySize B := memoryRegion 1 2
def memoryCreate2 : MemorySize B := memoryRegion 1 2
def memoryCall : MemorySize B := memoryRegions 5 6 3 4
def memoryDelegateCall : MemorySize B := memoryRegions 4 5 2 3
def memoryStaticCall : MemorySize B := memoryRegions 4 5 2 3
def memoryReturn : MemorySize B := memoryRegion 0 1
def memoryRevert : MemorySize B := memoryRegion 0 1
def memoryLog : MemorySize B := memoryRegion 0 1

/-- The dynamic gas of an operation, for the contract and the requested size of memory. -/
abbrev GasFunc (B : Backend) := Contract → UInt64 → Code B UInt64

def memoryGas : UInt64 := 3
def quadCoeffDiv : UInt64 := 512
def copyGas : UInt64 := 3
def sha3WordGas : UInt64 := 6
def logGas : UInt64 := 375
def logTopicGas : UInt64 := 375
def logDataGas : UInt64 := 8
def expGas : UInt64 := 10

/-- The largest size of memory whose price does not overflow. -/
def maxMemory : UInt64 := 0x1FFFFFFFE0

def memoryGasCost (newMemSize : UInt64) : Code B UInt64 := do
  if newMemSize = 0 then return 0
  else if newMemSize > maxMemory then Prog.stop (.err .gasUintOverflow)
  else
    let s ← Prog.get
    let newMemSizeWords := toWordSize newMemSize
    if newMemSizeWords * 32 > s.mem.len then
      let square := newMemSizeWords * newMemSizeWords
      let newTotalFee := newMemSizeWords * memoryGas + square / quadCoeffDiv
      Prog.modify fun s => { s with mem := { s.mem with lastGasCost := newTotalFee } }
      return newTotalFee - s.mem.lastGasCost
    else return 0

/-- Gas for a size of memory and a price for each word of the length at a stack position. -/
def perWordGas (price : UInt64) (stackpos : Nat) : GasFunc B := fun _ memorySize => do
  let gas ← memoryGasCost memorySize
  let length ← back stackpos
  let length ← checked (uint64WithOverflow length)
  let words ← checked (safeMul (toWordSize length) price)
  checked (safeAdd gas words)

def memoryCopierGas (stackpos : Nat) : GasFunc B := perWordGas copyGas stackpos

def gasCallDataCopy : GasFunc B := memoryCopierGas 2
def gasCodeCopy : GasFunc B := memoryCopierGas 2
def gasExtCodeCopy : GasFunc B := memoryCopierGas 3
def gasReturnDataCopy : GasFunc B := memoryCopierGas 2
def gasSha3 : GasFunc B := perWordGas sha3WordGas 1
def gasCreate2 : GasFunc B := perWordGas sha3WordGas 2

/-- `pureMemoryGascost`, which is also the gas of RETURN, REVERT, MLOAD, MSTORE, MSTORE8 and
CREATE.
-/
def pureMemoryGascost : GasFunc B := fun _ memorySize => memoryGasCost memorySize

def makeGasLog (n : Nat) : GasFunc B := fun _ memorySize => do
  let requestedSize ← back 1
  let requestedSize ← checked (uint64WithOverflow requestedSize)
  let gas ← memoryGasCost memorySize
  let gas ← checked (safeAdd gas logGas)
  let gas ← checked (safeAdd gas (UInt64.ofNat n * logTopicGas))
  let memorySizeGas ← checked (safeMul requestedSize logDataGas)
  checked (safeAdd gas memorySizeGas)

/-- The gas of EXP at a price for each byte of the exponent. -/
def gasExp (expByte : UInt64) : GasFunc B := fun _ _ => do
  let exponent ← back 1
  let expByteLen := UInt64.ofNat ((bitLen exponent + 7) / 8)
  checked (safeAdd (expByteLen * expByte) expGas)

def gasExpFrontier : GasFunc B := gasExp 10
def gasExpEIP158 : GasFunc B := gasExp 50

def sstoreSetGas : UInt64 := 20000
def sstoreResetGas : UInt64 := 5000
def sstoreClearGas : UInt64 := 5000
def sstoreRefundGas : UInt64 := 15000
def netSstoreNoopGas : UInt64 := 200
def netSstoreInitGas : UInt64 := 20000
def netSstoreCleanGas : UInt64 := 5000
def netSstoreDirtyGas : UInt64 := 200
def netSstoreClearRefund : UInt64 := 15000
def netSstoreResetRefund : UInt64 := 4800
def netSstoreResetClearRefund : UInt64 := 19800
def sstoreSentryGasEIP2200 : UInt64 := 2300
def sstoreSetGasEIP2200 : UInt64 := 20000
def sstoreResetGasEIP2200 : UInt64 := 5000
def sstoreClearsScheduleRefundEIP2200 : UInt64 := 15000
def sloadGasEIP2200 : UInt64 := 800
def coldAccountAccessCostEIP2929 : UInt64 := 2600
def coldSloadCostEIP2929 : UInt64 := 2100
def warmStorageReadCostEIP2929 : UInt64 := 100
def txAccessListStorageKeyGas : UInt64 := 1900
def sstoreClearsScheduleRefundEIP3529 : UInt64 :=
  sstoreResetGasEIP2200 - coldSloadCostEIP2929 + txAccessListStorageKeyGas

def addRefund (gas : UInt64) : Evm B Unit := perform (.addRefund gas)

def subRefund (gas : UInt64) : Evm B Unit := perform (.subRefund gas)

/-- The prices of a net metering scheme. -/
structure NetMetering where
  noop : UInt64
  init : UInt64
  clean : UInt64
  dirty : UInt64
  clearRefund : UInt64
  resetClearRefund : UInt64
  resetRefund : UInt64

/-- The part that net metering schemes share, after the current value was read. -/
def NetMetering.charge (p : NetMetering) (addr : Address) (key current value : Hash)
    : Evm B UInt64 := do
  if current = value then return p.noop
  else
    let original ← getCommittedState addr key
    if original = current then
      if original = 0 then return p.init
      else
        if value = 0 then addRefund p.clearRefund
        return p.clean
    else
      if original ≠ 0 then
        if current = 0 then subRefund p.clearRefund
        else if value = 0 then addRefund p.clearRefund
      if original = value then
        if original = 0 then addRefund p.resetClearRefund
        else addRefund p.resetRefund
      return p.dirty

def eip1283 : NetMetering :=
  {
    noop := netSstoreNoopGas
    init := netSstoreInitGas
    clean := netSstoreCleanGas
    dirty := netSstoreDirtyGas
    clearRefund := netSstoreClearRefund
    resetClearRefund := netSstoreResetClearRefund
    resetRefund := netSstoreResetRefund
  }

def eip2200 : NetMetering :=
  {
    noop := sloadGasEIP2200
    init := sstoreSetGasEIP2200
    clean := sstoreResetGasEIP2200
    dirty := sloadGasEIP2200
    clearRefund := sstoreClearsScheduleRefundEIP2200
    resetClearRefund := sstoreSetGasEIP2200 - sloadGasEIP2200
    resetRefund := sstoreResetGasEIP2200 - sloadGasEIP2200
  }

/-- The prices of EIP-2929; each comes on top of the cost of a cold slot. -/
def eip2929 (cost clearingRefund : UInt64) : NetMetering :=
  {
    noop := cost + warmStorageReadCostEIP2929
    init := cost + sstoreSetGasEIP2200
    clean := cost + (sstoreResetGasEIP2200 - coldSloadCostEIP2929)
    dirty := cost + warmStorageReadCostEIP2929
    clearRefund := clearingRefund
    resetClearRefund := sstoreSetGasEIP2200 - warmStorageReadCostEIP2929
    resetRefund :=
      sstoreResetGasEIP2200 - coldSloadCostEIP2929 - warmStorageReadCostEIP2929
  }

/-- `gasSStore`: legacy prices, or EIP-1283 between Constantinople and Petersburg. -/
def gasSStore (env : Env) : GasFunc B := fun contract _ => do
  let y ← back 1
  let x ← back 0
  let current ← onMachine (getState contract.self x)
  if env.rules.isPetersburg || !env.rules.isConstantinople then
    if current = 0 ∧ y ≠ 0 then return sstoreSetGas
    else if current ≠ 0 ∧ y = 0 then
      onMachine (addRefund sstoreRefundGas)
      return sstoreClearGas
    else return sstoreResetGas
  else onMachine (eip1283.charge contract.self x current y)

def gasSStoreEIP2200 : GasFunc B := fun contract _ => do
  let s ← Prog.get
  if s.gas ≤ sstoreSentryGasEIP2200 then Prog.stop (.err .reentrancySentry)
  else
    let y ← back 1
    let x ← back 0
    let current ← onMachine (getState contract.self x)
    onMachine (eip2200.charge contract.self x current y)

/-- The canary of `makeGasSStoreFunc`, for an address that is not in the access list. -/
def singCanary {α : Type} (addr : Address) (db : StateDB B) : Evm B α := do
  Prog.modify fun m => m.note (.canary addr db)
  Prog.stop (.panic .accessListCanary)

/-- The check of a slot in `makeGasSStoreFunc`. -/
def coldSlotCost (addr : Address) (slot : Hash) : Evm B UInt64 := do
  let m ← Prog.get
  let (addrPresent, slotPresent) ← slotInAccessList addr slot
  if slotPresent then return 0
  else
    perform (.addSlotToAccessList addr slot)
    if addrPresent then return coldSloadCostEIP2929 else singCanary addr m.db

def makeGasSStoreFunc (clearingRefund : UInt64) : GasFunc B := fun contract _ => do
  let s ← Prog.get
  if s.gas ≤ sstoreSentryGasEIP2200 then Prog.stop (.err .reentrancySentry)
  else
    let y ← back 1
    let x ← back 0
    let current ← onMachine (getState contract.self x)
    let cost ← onMachine (coldSlotCost contract.self x)
    onMachine ((eip2929 cost clearingRefund).charge contract.self x current y)

def gasSStoreEIP2929 : GasFunc B := makeGasSStoreFunc sstoreClearsScheduleRefundEIP2200
def gasSStoreEIP3529 : GasFunc B := makeGasSStoreFunc sstoreClearsScheduleRefundEIP3529

def gasSLoadEIP2929 : GasFunc B := fun contract _ => do
  let slot ← back 0
  let (_, slotPresent) ← onMachine (slotInAccessList contract.self slot)
  if slotPresent then return warmStorageReadCostEIP2929
  else
    onMachine (perform (.addSlotToAccessList contract.self slot))
    return coldSloadCostEIP2929

/-- An address that is not in the access list yet is added; the result says whether it was. -/
def warmAddress (addr : Address) : Evm B Bool := do
  let warm ← addressInAccessList addr
  if warm then return true
  else
    perform (.addAddressToAccessList addr)
    return false

/-- What a cold account costs on top of the warm price. -/
def coldCost : UInt64 := coldAccountAccessCostEIP2929 - warmStorageReadCostEIP2929

def gasExtCodeCopyEIP2929 : GasFunc B := fun contract memorySize => do
  let gas ← gasExtCodeCopy contract memorySize
  let addr ← back 0
  let warm ← onMachine (warmAddress (wordAddress addr))
  if warm then return gas else checked (safeAdd gas coldCost)

def gasEip2929AccountCheck : GasFunc B := fun _ _ => do
  let addr ← back 0
  let warm ← onMachine (warmAddress (wordAddress addr))
  return if warm then 0 else coldCost

def selfdestructGasEIP150 : UInt64 := 5000
def createBySelfdestructGas : UInt64 := 25000
def selfdestructRefundGas : UInt64 := 24000

/-- The gas for an account that a self-destruct brings to life: if it is empty and receives
something.
-/
def selfdestructNewAccount (self beneficiary : Address) : Evm B UInt64 := do
  let empty ← isEmpty beneficiary
  if empty then
    let balance ← getBalance self
    return if balance ≠ 0 then createBySelfdestructGas else 0
  else return 0

def refundSelfdestruct (self : Address) : Evm B Unit := do
  let suicided ← hasSuicided self
  if suicided then return () else addRefund selfdestructRefundGas

/-- The price of a self-destruct since EIP-150. -/
def selfdestructPrice (env : Env) (self : Address) : Code B UInt64 :=
  if env.rules.isEIP150 then do
    let address ← back 0
    let created ← onMachine (
      if env.rules.isEIP158 then selfdestructNewAccount self (wordAddress address)
      else do
        let found ← exist (wordAddress address)
        return if found then 0 else createBySelfdestructGas)
    return selfdestructGasEIP150 + created
  else return 0

def gasSelfdestruct (env : Env) : GasFunc B := fun contract _ => do
  let gas ← selfdestructPrice env contract.self
  onMachine (refundSelfdestruct contract.self)
  return gas

def makeSelfdestructGasFn (refundsEnabled : Bool) : GasFunc B := fun contract _ => do
  let address ← back 0
  let warm ← onMachine (warmAddress (wordAddress address))
  let created ← onMachine (selfdestructNewAccount contract.self (wordAddress address))
  if refundsEnabled then onMachine (refundSelfdestruct contract.self)
  return (if warm then 0 else coldAccountAccessCostEIP2929) + created

def gasSelfdestructEIP2929 : GasFunc B := makeSelfdestructGasFn true
def gasSelfdestructEIP3529 : GasFunc B := makeSelfdestructGasFn false

def callValueTransferGas : UInt64 := 9000
def callNewAccountGas : UInt64 := 25000

/-- `callGas`; the available gas may be less than the base, and then wraps. -/
def callGas (isEip150 : Bool) (availableGas base : UInt64) (callCost : Word) : Option UInt64 :=
  let availableGas := availableGas - base
  let gas := availableGas - availableGas / 64
  if isEip150 && (!isUint64 callCost || gas < uint64 callCost) then some gas
  else uint64WithOverflow callCost

/-- The end of the gas functions of calls: `callGasTemp` is set, and is part of the cost. -/
def forwardGas (env : Env) (gas : UInt64) : Code B UInt64 := do
  let s ← Prog.get
  let callCost ← back 0
  let temp ← checked (callGas env.rules.isEIP150 s.gas gas callCost)
  onMachine (Prog.modify fun m => { m with callGasTemp := temp })
  checked (safeAdd gas temp)

/-- The price of a new account in `gasCall`. -/
def newAccountGas (env : Env) (transfersValue : Bool) (address : Address) : Evm B UInt64 := do
  if env.rules.isEIP158 then
    if transfersValue then
      let empty ← isEmpty address
      return if empty then callNewAccountGas else 0
    else return 0
  else
    let found ← exist address
    return if found then 0 else callNewAccountGas

def gasCall (env : Env) : GasFunc B := fun _ memorySize => do
  let value ← back 2
  let address ← back 1
  let gas ← onMachine (newAccountGas env (value ≠ 0) (wordAddress address))
  let gas := if value ≠ 0 then gas + callValueTransferGas else gas
  let memoryGas ← memoryGasCost memorySize
  let gas ← checked (safeAdd gas memoryGas)
  forwardGas env gas

def gasCallCode (env : Env) : GasFunc B := fun _ memorySize => do
  let memoryGas ← memoryGasCost memorySize
  let value ← back 2
  let gas ← checked (safeAdd (if value ≠ 0 then callValueTransferGas else 0) memoryGas)
  forwardGas env gas

def gasDelegateCall (env : Env) : GasFunc B := fun _ memorySize => do
  let gas ← memoryGasCost memorySize
  forwardGas env gas

def gasStaticCall (env : Env) : GasFunc B := fun _ memorySize => do
  let gas ← memoryGasCost memorySize
  forwardGas env gas

/-- `makeCallVariantGasCallEIP2929`: the cold price is taken before the 63/64 rule applies, and
given back to be charged with the result.
-/
def makeCallVariantGasCallEIP2929 (oldCalculator : GasFunc B) : GasFunc B :=
  fun contract memorySize => do
    let addr ← back 1
    let warm ← onMachine (warmAddress (wordAddress addr))
    if warm then oldCalculator contract memorySize
    else
      let paid ← useGas coldCost
      if paid then
        let gas ← oldCalculator contract memorySize
        returnGas coldCost
        onMachine (gasSum gas coldCost)
      else Prog.stop (.err .outOfGas)

def gasCallEIP2929 (env : Env) : GasFunc B := makeCallVariantGasCallEIP2929 (gasCall env)
def gasDelegateCallEIP2929 (env : Env) : GasFunc B :=
  makeCallVariantGasCallEIP2929 (gasDelegateCall env)
def gasStaticCallEIP2929 (env : Env) : GasFunc B :=
  makeCallVariantGasCallEIP2929 (gasStaticCall env)
def gasCallCodeEIP2929 (env : Env) : GasFunc B := makeCallVariantGasCallEIP2929 (gasCallCode env)

end GoBinacoin.Vm
