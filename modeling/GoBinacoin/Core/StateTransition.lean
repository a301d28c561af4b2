import GoBinacoin.Vm.Interpreter

/-! The application of a transaction to the state, over an EVM that executes its call. -/

namespace GoBinacoin.Core

open Program State Vm

variable {B : Backend}

structure AccessTuple where
  address : Address
  storageKeys : List Hash

def storageKeys (accessList : List AccessTuple) : Nat :=
  (accessList.map fun tuple => tuple.storageKeys.length).sum

/-- The price of gas, as the kinds of transactions give it. The wire format has no negative
amounts.
-/
inductive Fees where
  | legacy (gasPrice : Nat)
  | dynamicFee (gasTipCap gasFeeCap : Nat)

def Fees.gasPrice : Fees → Nat
  | .legacy gasPrice => gasPrice
  | .dynamicFee _ gasFeeCap => gasFeeCap

def Fees.gasTipCap : Fees → Nat
  | .legacy gasPrice => gasPrice
  | .dynamicFee gasTipCap _ => gasTipCap

def Fees.gasFeeCap : Fees → Nat
  | .legacy gasPrice => gasPrice
  | .dynamicFee _ gasFeeCap => gasFeeCap

/-- A transaction, which is smaller than the address space of the machine that holds it. -/
structure Transaction where
  nonce : UInt64
  gas : UInt64
  fees : Fees
  toAddr : Option Address
  value : Nat
  data : Bytes
  accessList : List AccessTuple
  fits : data.length + 20 * accessList.length + 32 * storageKeys accessList < 2 ^ 48

theorem fits_empty
    : ([] : Bytes).length + 20 * ([] : List AccessTuple).length + 32 * storageKeys [] < 2 ^ 48 := by
  decide

structure Message where
  sender : Address
  toAddr : Option Address
  nonce : UInt64
  amount : Int
  gasLimit : UInt64
  gasPrice : Int
  gasFeeCap : Option Int
  gasTipCap : Int
  data : Bytes
  accessList : List AccessTuple
  checkNonce : Bool

def bigMin (x y : Int) : Int := if x > y then y else x

/-- `AsMessage`, for the sender that the signer found. -/
def Transaction.asMessage (tx : Transaction) (sender : Address) (baseFee : Option Int) : Message :=
  {
    sender := sender
    toAddr := tx.toAddr
    nonce := tx.nonce
    amount := tx.value
    gasLimit := tx.gas
    gasPrice :=
      match baseFee with
      | some baseFee => bigMin (tx.fees.gasTipCap + baseFee) tx.fees.gasFeeCap
      | none => tx.fees.gasPrice
    gasFeeCap := some tx.fees.gasFeeCap
    gasTipCap := tx.fees.gasTipCap
    data := tx.data
    accessList := tx.accessList
    checkNonce := true
  }

/-- What a transition uses of an EVM: its configuration and context, and two entry points. -/
structure EVM (B : Backend) where
  rules : Rules
  coinbase : Address
  baseFee : Option Int
  noBaseFee : Bool
  create : Address → Bytes → UInt64 → Int → Evm B CreateResult
  call : Address → Address → Bytes → UInt64 → Int → Evm B CallResult

/-- `NewEVM` with the interpreter. -/
def newEVM (env : Env) (baseFee : Option Int) (noBaseFee : Bool) : EVM B :=
  {
    rules := env.rules
    coinbase := env.coinbase
    baseFee := baseFee
    noBaseFee := noBaseFee
    create := Vm.create env (interpreter env)
    call := Vm.call env (interpreter env)
  }

/-- A computation with 64 bits. -/
inductive Arith where
  | add (x y : UInt64)
  | sub (x y : UInt64)
  | mul (x y : UInt64)
  deriving DecidableEq

def Arith.value : Arith → UInt64
  | .add x y => x + y
  | .sub x y => x - y
  | .mul x y => x * y

/-- The result is the one of the integers. -/
def Arith.Exact : Arith → Prop
  | .add x y => x.toNat + y.toNat < 2 ^ 64
  | .sub x y => y ≤ x
  | .mul x y => x.toNat * y.toNat < 2 ^ 64

/-- `StateTransition` without the message. The last two fields are the record of the run: the gas
that was refunded, and the computations with 64 bits, newest first.
-/
structure StateTransition (B : Backend) where
  gp : UInt64
  gas : UInt64 := 0
  initialGas : UInt64 := 0
  machine : Machine B
  refunded : UInt64 := 0
  steps : List Arith := []

inductive TxError where
  | nonceTooHigh (addr : Address) (tx state : UInt64)
  | nonceTooLow (addr : Address) (tx state : UInt64)
  | feeCapVeryHigh (addr : Address) (bits : Nat)
  | tipVeryHigh (addr : Address) (bits : Nat)
  | tipAboveFeeCap (addr : Address) (tip feeCap : Int)
  | feeCapTooLow (addr : Address) (feeCap baseFee : Int)
  | insufficientFunds (addr : Address) (balance want : Int)
  | gasLimitReached
  | gasUintOverflow
  | intrinsicGas (gas want : UInt64)
  | insufficientFundsForTransfer (addr : Address)
  deriving DecidableEq

/-- Why a transition stopped: an error, what the EVM stopped with, or a panic of its own. -/
inductive TxStop where
  | err (e : TxError)
  | evm (e : Stop)
  | nilPointer
  | gasPool
  deriving DecidableEq

abbrev Transition (B : Backend) (α : Type) := Prog (StateTransition B) TxStop α

/-- Run a program of the EVM. -/
def onEVM {α : Type} (p : Evm B α) : Transition B α := fun st =>
  match p st.machine with
  | (.ok a, m) => (.ok a, { st with machine := m })
  | (.error e, m) => (.error (.evm e), { st with machine := m })

def compute (step : Arith) : Transition B UInt64 := do
  Prog.modify fun st => { st with steps := step :: st.steps }
  return step.value

structure ExecutionResult where
  usedGas : UInt64
  err : Option VMError
  returnData : Bytes

def txGas : UInt64 := 21000
def txGasContractCreation : UInt64 := 53000
def txDataZeroGas : UInt64 := 4
def txDataNonZeroGasFrontier : UInt64 := 68
def txDataNonZeroGasEIP2028 : UInt64 := 16
def txAccessListAddressGas : UInt64 := 2400
def refundQuotient : UInt64 := 2
def refundQuotientEIP3529 : UInt64 := 5

/-- A number of items at a price, on top of the gas so far. -/
def addPriced (gas count price : UInt64) : Transition B UInt64 := do
  let cost ← compute (.mul count price)
  compute (.add gas cost)

/-- The gas for the bytes of the data. -/
def dataGas (gas : UInt64) (data : Bytes) (isEIP2028 : Bool) : Transition B UInt64 := do
  if data.length > 0 then
    let nz := UInt64.ofNat (data.countP (· ≠ 0))
    let nonZeroGas := if isEIP2028 then txDataNonZeroGasEIP2028 else txDataNonZeroGasFrontier
    if (0xffffffffffffffff - gas) / nonZeroGas < nz then Prog.stop (.err .gasUintOverflow)
    else
      let gas ← addPriced gas nz nonZeroGas
      let z ← compute (.sub (UInt64.ofNat data.length) nz)
      if (0xffffffffffffffff - gas) / txDataZeroGas < z then Prog.stop (.err .gasUintOverflow)
      else addPriced gas z txDataZeroGas
  else return gas

/-- `IntrinsicGas`; a list that is nil has no addresses and no keys. -/
def intrinsicGas (data : Bytes) (accessList : List AccessTuple)
    (isContractCreation isHomestead isEIP2028 : Bool)
    : Transition B UInt64 := do
  let gas := if isContractCreation && isHomestead then txGasContractCreation else txGas
  let gas ← dataGas gas data isEIP2028
  let gas ← addPriced gas (UInt64.ofNat accessList.length) txAccessListAddressGas
  addPriced gas (UInt64.ofNat (storageKeys accessList)) txAccessListStorageKeyGas

def subGas (amount : UInt64) : Transition B Unit := do
  let st ← Prog.get
  if st.gp < amount then Prog.stop (.err .gasLimitReached)
  else
    let gp ← compute (.sub st.gp amount)
    Prog.modify fun st => { st with gp := gp }

def addGas (amount : UInt64) : Transition B Unit := do
  let st ← Prog.get
  if st.gp > 0xffffffffffffffff - amount then Prog.stop .gasPool
  else
    let gp ← compute (.add st.gp amount)
    Prog.modify fun st => { st with gp := gp }

def gasUsed : Transition B UInt64 := do
  let st ← Prog.get
  compute (.sub st.initialGas st.gas)

def buyGas (msg : Message) : Transition B Unit := do
  let mgval := msg.gasLimit.toNat * msg.gasPrice
  let balanceCheck :=
    match msg.gasFeeCap with
    | some gasFeeCap => msg.gasLimit.toNat * gasFeeCap
    | none => mgval
  let balance ← onEVM (getBalance msg.sender)
  if balance < balanceCheck then
    Prog.stop (.err (.insufficientFunds msg.sender balance balanceCheck))
  else
    subGas msg.gasLimit
    let st ← Prog.get
    let gas ← compute (.add st.gas msg.gasLimit)
    Prog.modify fun st => { st with gas := gas, initialGas := msg.gasLimit }
    onEVM (perform (.subBalance msg.sender mgval))

def checkNonces (msg : Message) : Transition B Unit := do
  if msg.checkNonce then
    let stNonce ← onEVM (getNonce msg.sender)
    if stNonce < msg.nonce then Prog.stop (.err (.nonceTooHigh msg.sender msg.nonce stNonce))
    else if stNonce > msg.nonce then Prog.stop (.err (.nonceTooLow msg.sender msg.nonce stNonce))
    else return ()
  else return ()

/-- `BitLen` of a big integer. -/
def bigBitLen (x : Int) : Nat := if x = 0 then 0 else Nat.log2 x.natAbs + 1

/-- The checks of the fees after London. -/
def checkFees (evm : EVM B) (sender : Address) (gasFeeCap gasTipCap : Int) : Transition B Unit := do
  if !evm.noBaseFee || bigBitLen gasFeeCap > 0 || bigBitLen gasTipCap > 0 then
    if bigBitLen gasFeeCap > 256 then
      Prog.stop (.err (.feeCapVeryHigh sender (bigBitLen gasFeeCap)))
    else if bigBitLen gasTipCap > 256 then
      Prog.stop (.err (.tipVeryHigh sender (bigBitLen gasTipCap)))
    else if gasFeeCap < gasTipCap then
      Prog.stop (.err (.tipAboveFeeCap sender gasTipCap gasFeeCap))
    else
      match evm.baseFee with
      | none => Prog.stop .nilPointer
      | some baseFee =>
          if gasFeeCap < baseFee then
            Prog.stop (.err (.feeCapTooLow sender gasFeeCap baseFee))
          else return ()
  else return ()

def checkLondon (evm : EVM B) (msg : Message) : Transition B Unit :=
  if evm.rules.isLondon then
    match msg.gasFeeCap with
    | none => Prog.stop .nilPointer
    | some gasFeeCap => checkFees evm msg.sender gasFeeCap msg.gasTipCap
  else return ()

def preCheck (evm : EVM B) (msg : Message) : Transition B Unit := do
  checkNonces msg
  checkLondon evm msg
  buyGas msg

/-- `PrepareAccessList` for one tuple of the list. -/
def addTuple (tuple : AccessTuple) : Evm B Unit := do
  perform (.addAddressToAccessList tuple.address)
  tuple.storageKeys.forM fun key => perform (.addSlotToAccessList tuple.address key)

def prepareAccessList (sender : Address) (dst : Option Address) (precompiles : List Address)
    (list : List AccessTuple)
    : Evm B Unit := do
  perform (.addAddressToAccessList sender)
  dst.toList.forM fun addr => perform (.addAddressToAccessList addr)
  precompiles.forM fun addr => perform (.addAddressToAccessList addr)
  list.forM addTuple

/-- The intrinsic gas is taken from the gas that was bought. -/
def payIntrinsicGas (evm : EVM B) (msg : Message) : Transition B Unit := do
  let gas ← intrinsicGas msg.data msg.accessList msg.toAddr.isNone evm.rules.isHomestead
    evm.rules.isIstanbul
  let st ← Prog.get
  if st.gas < gas then Prog.stop (.err (.intrinsicGas st.gas gas))
  else
    let rest ← compute (.sub st.gas gas)
    Prog.modify fun st => { st with gas := rest }

/-- Clause 6: the sender can transfer the value. -/
def checkTransfer (msg : Message) : Transition B Unit :=
  if msg.amount > 0 then do
    let able ← onEVM (canTransfer msg.sender msg.amount)
    if able then return () else Prog.stop (.err (.insufficientFundsForTransfer msg.sender))
  else return ()

def setupAccessList (evm : EVM B) (msg : Message) : Transition B Unit :=
  if evm.rules.isBerlin then
    onEVM (prepareAccessList msg.sender msg.toAddr evm.rules.activePrecompiles msg.accessList)
  else return ()

/-- The creation or the call, which leaves what it did not use of the gas. -/
def execute (evm : EVM B) (msg : Message) : Transition B (Bytes × Option VMError) := do
  let st ← Prog.get
  match msg.toAddr with
  | none =>
      let result ← onEVM (evm.create msg.sender msg.data st.gas msg.amount)
      Prog.modify fun st => { st with gas := result.gas }
      return (result.ret, result.err)
  | some addr =>
      let nonce ← onEVM (getNonce msg.sender)
      let next ← compute (.add nonce 1)
      onEVM (perform (.setNonce msg.sender next))
      let result ← onEVM (evm.call msg.sender addr msg.data st.gas msg.amount)
      Prog.modify fun st => { st with gas := result.gas }
      return (result.ret.content msg.data, result.err)

def refundGas (msg : Message) (quotient : UInt64) : Transition B Unit := do
  let used ← gasUsed
  let st ← Prog.get
  let refund := if used / quotient > st.machine.db.refund then st.machine.db.refund
    else used / quotient
  let gas ← compute (.add st.gas refund)
  Prog.modify fun st => { st with gas := gas, refunded := refund }
  onEVM (perform (.addBalance msg.sender (gas.toNat * msg.gasPrice)))
  addGas gas

/-- What the miner gets for a unit of gas. -/
def effectiveTip (evm : EVM B) (msg : Message) : Transition B Int :=
  if evm.rules.isLondon then
    match msg.gasFeeCap, evm.baseFee with
    | some gasFeeCap, some baseFee => return bigMin msg.gasTipCap (gasFeeCap - baseFee)
    | _, _ => Prog.stop .nilPointer
  else return msg.gasPrice

/-- The fee of the miner. -/
def payTip (evm : EVM B) (msg : Message) : Transition B Unit := do
  let tip ← effectiveTip evm msg
  let used ← gasUsed
  onEVM (perform (.addBalance evm.coinbase (used.toNat * tip)))

/-- What `TransitionDb` does before the execution: the consensus rules and the access list. -/
def prepare (evm : EVM B) (msg : Message) : Transition B Unit := do
  preCheck evm msg
  payIntrinsicGas evm msg
  checkTransfer msg
  setupAccessList evm msg

/-- What `TransitionDb` does after the execution: the refund and the fee of the miner. -/
def settle (evm : EVM B) (msg : Message) (outcome : Bytes × Option VMError)
    : Transition B ExecutionResult := do
  refundGas msg (if evm.rules.isLondon then refundQuotientEIP3529 else refundQuotient)
  payTip evm msg
  let used ← gasUsed
  return {
    usedGas := used
    err := outcome.2
    returnData := outcome.1
  }

def transitionDb (evm : EVM B) (msg : Message) : Transition B ExecutionResult := do
  prepare evm msg
  let outcome ← execute evm msg
  settle evm msg outcome

def newStateTransition (s : StateDB B) (gp : UInt64) : StateTransition B :=
  {
    gp := gp
    machine := { db := s }
  }

end GoBinacoin.Core
