import GoBinacoin.Vm.Instructions

/-! Calls and creations, over the interpreter that runs the code they start. -/

namespace GoBinacoin.Vm

open BigEndian Program Rlp State

variable {B : Backend}

def callCreateDepth : Nat := 1024
def createDataGas : UInt64 := 200
def maxCodeSize : Nat := 24576
def callStipend : UInt64 := 2300
def identityBaseGas : UInt64 := 15
def identityPerWordGas : UInt64 := 3

/-- What a run of code returns: bytes, the gas that is left, and an error. -/
structure RunResult where
  ret : Bytes
  gas : UInt64
  err : Option VMError

structure CallResult where
  ret : Output
  gas : UInt64
  err : Option VMError

/-- The interpreter: contract, gas, input, and whether writes are forbidden. -/
abbrev Runner (B : Backend) := Contract → UInt64 → Bytes → Bool → Evm B RunResult

def canTransfer (addr : Address) (amount : Int) : Evm B Bool := do
  let balance ← getBalance addr
  return balance ≥ amount

def transfer (sender recipient : Address) (amount : Int) : Evm B Unit := do
  perform (.subBalance sender amount)
  perform (.addBalance recipient amount)

/-- `Snapshot`; with the revision, what the record of the run had of burned balances. -/
def takeSnapshot : Evm B (Nat × List (Address × Int)) := fun m =>
  (.ok (m.db.snapshot.1, m.burned), m.moved m.db.snapshot.2)

def revertTo (snapshot : Nat × List (Address × Int)) : Evm B Unit := do
  perform (.revertToSnapshot snapshot.1)
  Prog.modify fun m => { m with burned := snapshot.2 }

def requiredGas (env : Env) (p : Precompile) (input : Bytes) : UInt64 :=
  match p with
  | .native n => (env.native n).requiredGas input
  | .dataCopy =>
      UInt64.ofNat (input.length + 31) / 32 * identityPerWordGas + identityBaseGas

/-- `Run` of a precompiled contract; `dataCopy` returns the slice it was given. -/
def runNative (env : Env) (p : Precompile) (input : Bytes) : Output × Option VMError :=
  match p with
  | .native n => (.bytes ((env.native n).run input).1, ((env.native n).run input).2)
  | .dataCopy => (.input, none)

def runPrecompiledContract (env : Env) (p : Precompile) (input : Bytes) (suppliedGas : UInt64)
    : CallResult :=
  let gasCost := requiredGas env p input
  if suppliedGas < gasCost then
    {
      ret := .bytes []
      gas := 0
      err := some .outOfGas
    }
  else
    {
      ret := (runNative env p input).1
      gas := suppliedGas - gasCost
      err := (runNative env p input).2
    }

/-- A call that ended without doing anything. -/
def untouched (gas : UInt64) (err : Option VMError) : CallResult :=
  {
    ret := .bytes []
    gas := gas
    err := err
  }

/-- The code of an account is run as the given contract. -/
def runAccount (run : Runner B) (addr : Address) (contract : Bytes → Contract) (gas : UInt64)
    (input : Bytes) (readOnly : Bool)
    : Evm B CallResult := do
  let _ ← getCodeHash addr
  let code ← getCode addr
  let result ← run (contract code) gas input readOnly
  return {
    ret := .bytes result.ret
    gas := result.gas
    err := result.err
  }

/-- The end of a call: a failed one is reverted, and loses its gas unless it asked for it. -/
def settle (snapshot : Nat × List (Address × Int)) (result : CallResult) : Evm B CallResult := do
  if result.err = none then return result
  else
    revertTo snapshot
    return if result.err = some .executionReverted then result else { result with gas := 0 }

/-- The contract at an address is a precompiled one, or it is run. -/
def precompileOr (env : Env) (addr : Address) (input : Bytes) (gas : UInt64)
    (go : Evm B CallResult)
    : Evm B CallResult :=
  match env.precompile addr with
  | some p => return runPrecompiledContract env p input gas
  | none => go

/-- The code behind `Call`, after the value was transferred. -/
def callBody (env : Env) (run : Runner B) (caller addr : Address) (input : Bytes) (gas : UInt64)
    (value : Int)
    : Evm B CallResult :=
  precompileOr env addr input gas do
    let code ← getCode addr
    if code.length = 0 then return untouched gas none
    else
      let _ ← getCodeHash addr
      let result ← run
        {
          callerAddress := caller
          self := addr
          code := code
          value := value
        } gas input false
      return {
        ret := .bytes result.ret
        gas := result.gas
        err := result.err
      }

/-- A call is refused: recursion is switched off, or the stack of calls is too deep. -/
def refused (env : Env) (gas : UInt64) (go : Evm B CallResult) : Evm B CallResult := do
  let m ← Prog.get
  if env.noRecursion && m.depth > 0 then return untouched gas none
  else if m.depth > callCreateDepth then return untouched gas (some .depth)
  else go

/-- An operation of the database, under a condition. -/
def performIf (condition : Bool) (op : Op) : Evm B Unit :=
  if condition then perform op else return ()

/-- `Call` behind its checks. Nothing is called where there is nothing. -/
def callAccount (env : Env) (run : Runner B) (caller addr : Address) (input : Bytes)
    (gas : UInt64) (value : Int)
    : Evm B CallResult := do
  let snapshot ← takeSnapshot
  let found ← exist addr
  if !found && (env.precompile addr).isNone && env.rules.isEIP158 && value = 0 then
    return untouched gas none
  else
    performIf (!found) (.createAccount addr)
    transfer caller addr value
    let result ← callBody env run caller addr input gas value
    settle snapshot result

/-- A call that transfers nothing needs no balance. -/
def affords (caller : Address) (value : Int) : Evm B Bool :=
  if value ≠ 0 then canTransfer caller value else return true

def call (env : Env) (run : Runner B) (caller addr : Address) (input : Bytes) (gas : UInt64)
    (value : Int)
    : Evm B CallResult :=
  refused env gas do
    let affordable ← affords caller value
    if affordable then callAccount env run caller addr input gas value
    else return untouched gas (some .insufficientBalance)

/-- `CallCode`: the code of the account runs as the caller. -/
def callCode (env : Env) (run : Runner B) (caller addr : Address) (input : Bytes) (gas : UInt64)
    (value : Int)
    : Evm B CallResult :=
  refused env gas do
    let affordable ← canTransfer caller value
    if affordable then
      let snapshot ← takeSnapshot
      let result ← precompileOr env addr input gas
        (runAccount run addr
          (fun code =>
            {
              callerAddress := caller
              self := caller
              code := code
              value := value
            }) gas input false)
      settle snapshot result
    else return untouched gas (some .insufficientBalance)

/-- `DelegateCall`: the code runs as the caller, which must be a contract, with the caller and
the value of that contract.
-/
def delegateCall (env : Env) (run : Runner B) (parent : Contract) (addr : Address)
    (input : Bytes) (gas : UInt64)
    : Evm B CallResult :=
  refused env gas do
    let snapshot ← takeSnapshot
    let result ← precompileOr env addr input gas
      (runAccount run addr
        (fun code =>
          {
            callerAddress := parent.callerAddress
            self := parent.self
            code := code
            value := parent.value
          }) gas input false)
    settle snapshot result

/-- `StaticCall`; adding nothing to the balance touches the account. -/
def staticCall (env : Env) (run : Runner B) (caller addr : Address) (input : Bytes)
    (gas : UInt64)
    : Evm B CallResult :=
  refused env gas do
    let snapshot ← takeSnapshot
    perform (.addBalance addr 0)
    let result ← precompileOr env addr input gas
      (runAccount run addr
        (fun code =>
          {
            callerAddress := caller
            self := addr
            code := code
            value := 0
          }) gas input true)
    settle snapshot result

structure CreateResult where
  ret : Bytes
  addr : Address
  gas : UInt64
  err : Option VMError

def notCreated (gas : UInt64) (err : VMError) : CreateResult :=
  {
    ret := []
    addr := 0
    gas := gas
    err := some err
  }

/-- The checks of the code that a creation returned. -/
def checkCode (env : Env) (result : RunResult) : RunResult :=
  if result.err = none ∧ env.rules.isEIP158 ∧ result.ret.length > maxCodeSize then
    { result with err := some .maxCodeSizeExceeded }
  else if result.err = none ∧ result.ret.head? = some 0xEF ∧ env.rules.isLondon then
    { result with err := some .invalidCode }
  else result

/-- Store the code of a new contract, if its gas is enough. -/
def storeCode (address : Address) (result : RunResult) : Evm B RunResult := do
  if result.err = none then
    let dataGas := UInt64.ofNat result.ret.length * createDataGas
    if result.gas < dataGas then return { result with err := some .codeStoreOutOfGas }
    else
      perform (.setCode address (if result.ret = [] then none else some result.ret))
      return { result with gas := result.gas - dataGas }
  else return result

/-- The end of a creation. In Frontier a contract whose code could not be paid for stays. -/
def settleCreate (env : Env) (snapshot : Nat × List (Address × Int)) (result : RunResult)
    : Evm B RunResult := do
  if result.err ≠ none ∧ (env.rules.isHomestead ∨ result.err ≠ some .codeStoreOutOfGas) then
    revertTo snapshot
    return if result.err = some .executionReverted then result else { result with gas := 0 }
  else return result

/-- `create`, from the creation of the account on. -/
def deploy (env : Env) (run : Runner B) (caller : Address) (code : Bytes) (gas : UInt64)
    (value : Int) (address : Address)
    : Evm B CreateResult := do
  let snapshot ← takeSnapshot
  perform (.createAccount address)
  performIf env.rules.isEIP158 (.setNonce address 1)
  transfer caller address value
  let m ← Prog.get
  if env.noRecursion && m.depth > 0 then
    return {
      ret := []
      addr := address
      gas := gas
      err := none
    }
  else
    let result ← run
      {
        callerAddress := caller
        self := address
        code := code
        value := value
      } gas [] false
    let result ← storeCode address (checkCode env result)
    let result ← settleCreate env snapshot result
    return {
      ret := result.ret
      addr := address
      gas := result.gas
      err := result.err
    }

/-- `create`. -/
def createAt (env : Env) (run : Runner B) (caller : Address) (code : Bytes) (gas : UInt64)
    (value : Int) (address : Address)
    : Evm B CreateResult := do
  let m ← Prog.get
  if m.depth > callCreateDepth then return notCreated gas .depth
  else
    let affordable ← canTransfer caller value
    if affordable then
      let nonce ← getNonce caller
      perform (.setNonce caller (nonce + 1))
      performIf env.rules.isBerlin (.addAddressToAccessList address)
      let contractHash ← getCodeHash address
      let addressNonce ← getNonce address
      if addressNonce ≠ 0 ∨ (contractHash ≠ 0 ∧ contractHash ≠ B.emptyCodeHash) then
        return notCreated 0 .contractAddressCollision
      else deploy env run caller code gas value address
    else return notCreated gas .insufficientBalance

def createAddress (B : Backend) (b : Address) (nonce : UInt64) : Address :=
  bytesToAddress ((hashBytes (B.keccak (encodeToBytes (.list
    [.str (addressBytes b), .str (uintBytes nonce.toNat)])))).drop 12)

def createAddress2 (B : Backend) (b : Address) (salt : Word) (inithash : Hash) : Address :=
  bytesToAddress ((hashBytes (B.keccak
    (0xff :: (addressBytes b ++ hashBytes salt ++ hashBytes inithash)))).drop 12)

def create (env : Env) (run : Runner B) (caller : Address) (code : Bytes) (gas : UInt64)
    (value : Int)
    : Evm B CreateResult := do
  let nonce ← getNonce caller
  createAt env run caller code gas value (createAddress B caller nonce)

def create2 (env : Env) (run : Runner B) (caller : Address) (code : Bytes) (gas : UInt64)
    (endowment : Int) (salt : Word)
    : Evm B CreateResult :=
  createAt env run caller code gas endowment (createAddress2 B caller salt (B.keccak code))

/-- The memory receives the output of a call that did not fail. -/
def storeOutput (retOffset retSize : Word) (args : Bytes) (result : CallResult) : Code B Unit :=
  if result.err = none ∨ result.err = some .executionReverted then
    setMemory retOffset retSize (result.ret.content args)
  else return ()

/-- The end of a call operation: the success flag, the memory that receives the output, the gas
that came back, and the output as it is read afterwards. An output that is the input of the call
is a part of the memory that was just written.
-/
def finishCall (inOffset inSize retOffset retSize : Word) (args : Bytes) (result : CallResult)
    : Code B Bytes := do
  push (if result.err = none then 1 else 0)
  storeOutput retOffset retSize args result
  returnGas result.gas
  match result.ret with
  | .bytes b => return b
  | .input => readMemory inOffset inSize

/-- The value of a call operation, if it has one. -/
def popValue (withValue : Bool) : Code B Word := if withValue then pop else return 0

/-- A value brings a stipend. -/
def addStipend (temp : UInt64) (value : Word) : Evm B UInt64 :=
  if value ≠ 0 then gasSum temp callStipend else return temp

/-- The call operations, with or without a value on the stack. -/
def callOp (withValue : Bool)
    (enter : Contract → Address → Bytes → UInt64 → Int → Evm B CallResult)
    : Execute B := fun contract => do
  let _ ← pop
  let s ← Prog.get
  let addr ← pop
  let value ← popValue withValue
  let inOffset ← pop
  let inSize ← pop
  let retOffset ← pop
  let retSize ← pop
  let args ← readMemory inOffset inSize
  let gas ← onMachine (addStipend s.machine.callGasTemp value)
  let result ← onMachine (enter contract (wordAddress addr) args gas value.toNat)
  finishCall inOffset inSize retOffset retSize args result

def opCall (env : Env) (run : Runner B) : Execute B :=
  callOp true fun contract addr args gas value => call env run contract.self addr args gas value

def opCallCode (env : Env) (run : Runner B) : Execute B :=
  callOp true fun contract addr args gas value =>
    callCode env run contract.self addr args gas value

def opDelegateCall (env : Env) (run : Runner B) : Execute B :=
  callOp false fun contract addr args gas _ => delegateCall env run contract addr args gas

def opStaticCall (env : Env) (run : Runner B) : Execute B :=
  callOp false fun contract addr args gas _ => staticCall env run contract.self addr args gas

/-- The gas a creation gets: all but a 64th of what is left. -/
def createGas (reserve : Bool) : Code B UInt64 := do
  let s ← Prog.get
  let gas := if reserve then s.gas - s.gas / 64 else s.gas
  let _ ← useGas gas
  return gas

/-- The end of a creation: the address or zero, and the gas that came back. -/
def finishCreate (success : Bool) (result : CreateResult) : Code B Bytes := do
  push (if success then addressWord result.addr else 0)
  returnGas result.gas
  return if result.err = some .executionReverted then result.ret else []

/-- In Frontier a contract whose code could not be paid for counts as created. -/
def opCreate (env : Env) (run : Runner B) : Execute B := fun contract => do
  let value ← pop
  let offset ← pop
  let size ← pop
  let input ← readMemory offset size
  let gas ← createGas env.rules.isEIP150
  let result ← onMachine (create env run contract.self input gas value.toNat)
  finishCreate (result.err = none
    ∨ (!env.rules.isHomestead ∧ result.err = some .codeStoreOutOfGas)) result

def opCreate2 (env : Env) (run : Runner B) : Execute B := fun contract => do
  let endowment ← pop
  let offset ← pop
  let size ← pop
  let salt ← pop
  let input ← readMemory offset size
  let gas ← createGas true
  let result ← onMachine (create2 env run contract.self input gas endowment.toNat salt)
  finishCreate (result.err = none) result

end GoBinacoin.Vm
