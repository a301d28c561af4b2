import GoBinacoin.Vm.Table

/-! Programs that start no contract, by the primitives they are made of. What holds of the
primitives and of sequences then holds of all of them.
-/

namespace GoBinacoin.Vm

open Program State

variable {B : Backend}

/-- Operations that read, warm up an address or slot, or record a preimage. -/
def quiet : Op → Bool
  | .addPreimage _ _ => true
  | .addAddressToAccessList _ => true
  | .addSlotToAccessList _ _ => true
  | .exist _ => true
  | .empty _ => true
  | .getBalance _ => true
  | .getNonce _ => true
  | .getCode _ => true
  | .getCodeSize _ => true
  | .getCodeHash _ => true
  | .getState _ _ => true
  | .getCommittedState _ _ => true
  | .hasSuicided _ => true
  | _ => false

/-- Programs made of operations of the database, which may have to be quiet ones. -/
inductive Simple (quietly : Prop) : {α : Type} → Evm B α → Prop where
  | pure {α : Type} (a : α) : Simple quietly (Pure.pure a : Evm B α)
  | get : Simple quietly (Prog.get : Evm B (Machine B))
  | bind {α β : Type} {p : Evm B α} {f : α → Evm B β}
      : Simple quietly p → (∀ a, Simple quietly (f a)) → Simple quietly (p >>= f)
  | perform {op : Op} : (quietly → quiet op = true) → Simple quietly (Vm.perform op : Evm B Unit)
  | query {α : Type} {op : Op} {value : StateDB B → α}
      : (quietly → quiet op = true) → Simple quietly (Vm.query op value)
  | fault {α : Type} : Simple quietly (Prog.stop (.panic .stateAccess) : Evm B α)
  | canary {α : Type} (addr : Address) (db : StateDB B)
      : ¬ quietly → Simple quietly (singCanary addr db : Evm B α)
  | burn (self : Address) (balance : Int)
      : ¬ quietly → Simple quietly
          (Prog.modify fun m => { m with burned := (self, balance) :: m.burned } : Evm B Unit)

variable {quietly : Prop}

theorem Simple.ite {α : Type} {c : Prop} [Decidable c] {p q : Evm B α} (yes : Simple quietly p)
    (no : Simple quietly q)
    : Simple quietly (if c then p else q) := by
  split
  · exact yes
  · exact no

section Simple

theorem simple_performIf (condition : Bool) (op : Op)
    : Simple False (performIf condition op : Evm B Unit) :=
  .ite (.perform nofun) (.pure ())

theorem simple_transfer (sender recipient : Address) (amount : Int)
    : Simple False (transfer sender recipient amount : Evm B Unit) :=
  .bind (.perform nofun) fun _ => .perform nofun

variable (addr : Address)

theorem simple_canTransfer (amount : Int) : Simple quietly (canTransfer addr amount : Evm B Bool) :=
  .bind (.query fun _ => rfl) fun _ => .pure _

theorem simple_affords (caller : Address) (value : Int)
    : Simple quietly (affords caller value : Evm B Bool) :=
  .ite (simple_canTransfer caller value) (.pure true)

theorem simple_storeCode (address : Address) (result : RunResult)
    : Simple False (storeCode address result : Evm B RunResult) :=
  .ite (.ite (.pure _) (.bind (.perform nofun) fun _ => .pure _)) (.pure _)

theorem simple_addressInAccessList : Simple quietly (addressInAccessList addr : Evm B Bool) :=
  .bind .get fun _ => .pure _

theorem simple_slotInAccessList (slot : Hash)
    : Simple quietly (slotInAccessList addr slot : Evm B (Bool × Bool)) := by
  refine .bind .get fun m => ?_
  split
  · exact .pure _
  · exact .fault

theorem simple_warmAddress : Simple quietly (warmAddress addr : Evm B Bool) :=
  .bind (simple_addressInAccessList addr) fun _ =>
    .ite (.pure _) (.bind (.perform fun _ => rfl) fun _ => .pure _)

theorem simple_coldSlotCost (slot : Hash) : Simple False (coldSlotCost addr slot : Evm B UInt64) :=
  .bind .get fun _ => .bind (simple_slotInAccessList addr slot) fun _ =>
    .ite (.pure _) (.bind (.perform nofun) fun _ => .ite (.pure _) (.canary _ _ id))

/-- Metering a store is simple. -/
theorem simple_charge (p : NetMetering) (addr : Address) (key current value : Hash)
    : Simple False (p.charge addr key current value : Evm B UInt64) := by
  unfold NetMetering.charge addRefund subRefund
  refine .ite (.pure _) (.bind (.query nofun) fun original => .ite (.ite (.pure _) ?_) ?_)
  · split
    · exact .bind (.perform nofun) fun _ => .pure _
    · exact .pure _
  · extract_lets last rest
    have tail (r : Unit) : Simple False (rest r : Evm B UInt64) :=
      .ite (.ite (.bind (.perform nofun) fun _ => .pure _)
        (.bind (.perform nofun) fun _ => .pure _)) (.pure _)
    exact .ite (.ite (.bind (.perform nofun) tail)
      (.ite (.bind (.perform nofun) tail) (tail ()))) (tail ())

variable (self beneficiary : Address)

theorem simple_selfdestructNewAccount
    : Simple quietly (selfdestructNewAccount self beneficiary : Evm B UInt64) :=
  .bind (.query fun _ => rfl) fun _ => .ite (.bind (.query fun _ => rfl) fun _ => .pure _) (.pure _)

theorem simple_refundSelfdestruct (self : Address)
    : Simple False (refundSelfdestruct self : Evm B Unit) :=
  .bind (.query nofun) fun _ => .ite (.pure _) (.perform nofun)

theorem simple_newAccountGas (env : Env) (transfersValue : Bool) (address : Address)
    : Simple quietly (newAccountGas env transfersValue address : Evm B UInt64) :=
  .ite (.ite (.bind (.query fun _ => rfl) fun _ => .pure _) (.pure _))
    (.bind (.query fun _ => rfl) fun _ => .pure _)

theorem simple_suicideTo : Simple False (suicideTo self beneficiary : Evm B Unit) :=
  .bind (.query nofun) fun _ => .bind (.perform nofun) fun _ =>
    .bind (.perform nofun) fun _ => .ite (.burn _ _ id) (.pure ())

theorem Reader.simple {read : Contract → Word → Evm B Word} (reader : Reader read)
    (contract : Contract) (x : Word)
    : Simple quietly (read contract x) := by
  cases reader with
  | balance | extCodeSize => exact .bind (.query fun _ => rfl) fun _ => .pure _
  | extCodeHash => exact .bind (.query fun _ => rfl) fun _ => .ite (.pure _) (.query fun _ => rfl)
  | sload => exact .query fun _ => rfl

end Simple

/-- A change of the memory that keeps its price and does not shrink it. -/
def Extends (change : Memory → Except Stop Memory) : Prop :=
  ∀ m,
    (∀ m', change m = .ok m'
      → m.store.length ≤ m'.store.length ∧ m'.lastGasCost = m.lastGasCost)
    ∧ ∀ e, change m = .error e → e ≠ .panic .outOfFuel

/-- Code that uses no gas and starts no contract. -/
inductive SimpleCode (quietly : Prop) : {α : Type} → Code B α → Prop where
  | pure {α : Type} (a : α) : SimpleCode quietly (Pure.pure a : Code B α)
  | get : SimpleCode quietly (Prog.get : Code B (Scope B))
  | bind {α β : Type} {p : Code B α} {f : α → Code B β}
      : SimpleCode quietly p → (∀ a, SimpleCode quietly (f a)) → SimpleCode quietly (p >>= f)
  | stop {α : Type} {e : Stop}
      : e ≠ .panic .outOfFuel → SimpleCode quietly (Prog.stop e : Code B α)
  | pop : SimpleCode quietly (Vm.pop : Code B Word)
  | stack (change : List Word → List Word)
      : SimpleCode quietly (Prog.modify fun s => { s with stack := change s.stack } : Code B Unit)
  | pc (pc : UInt64) : SimpleCode quietly (setPc pc : Code B Unit)
  | memory {change : Memory → Except Stop Memory}
      : Extends change → SimpleCode quietly (changeMemory change : Code B Unit)
  | machine {α : Type} {p : Evm B α} : Simple quietly p → SimpleCode quietly (onMachine p)

namespace SimpleCode

theorem ite {α : Type} {c : Prop} [Decidable c] {p q : Code B α} (yes : SimpleCode quietly p)
    (no : SimpleCode quietly q)
    : SimpleCode quietly (if c then p else q) := by
  split
  · exact yes
  · exact no

theorem push (x : Word) : SimpleCode quietly (Vm.push x : Code B Unit) := .stack (x :: ·)

theorem back (n : Nat) : SimpleCode quietly (Vm.back n : Code B Word) := by
  refine .bind .get fun s => ?_
  split
  · exact .pure _
  · exact .stop (by decide)

theorem ofExcept {α : Type} {r : Except Stop α} (fueled : ∀ e, r = .error e → e ≠ .panic .outOfFuel)
    : SimpleCode quietly (Prog.ofExcept r : Code B α) := by
  cases r with
  | ok a => exact .pure a
  | error e => exact .stop (fueled e rfl)

end SimpleCode

section Memory

theorem overwrite_length_le (store value : Bytes) (offset : Nat)
    : store.length ≤ (overwrite store offset value).length := by
  simp only [overwrite, List.length_append, List.length_take, List.length_drop]
  omega

/-- Reading never runs out of fuel. -/
theorem Memory.read_fueled {m : Memory} {offset size : UInt64} {e : Stop}
    (run : m.read offset size = .error e)
    : e ≠ .panic .outOfFuel := by
  unfold read at run
  split at run
  · cases run
  split at run
  · split at run
    · cases run
    · cases run
      decide
  · cases run

theorem getData_fueled {data : Bytes} {start size : UInt64} {e : Stop}
    (run : getData data start size = .error e)
    : e ≠ .panic .outOfFuel := by
  unfold getData at run
  extract_lets length start stop at run
  split at run
  · cases run
    decide
  · cases run

/-- Overwriting makes the memory no smaller. -/
theorem extends_overwrite {refuse : Memory → Prop} [DecidablePred refuse] {offset : Nat}
    {value : Bytes}
    : Extends fun m =>
        if refuse m then .error (.panic .memoryIndex)
        else .ok { m with store := overwrite m.store offset value } := by
  refine fun m => ⟨fun m' run => ?_, fun e run => ?_⟩
  · dsimp only at run
    split at run
    · cases run
    · cases run
      exact ⟨overwrite_length_le _ _ _, rfl⟩
  · dsimp only at run
    split at run
    · cases run
      decide
    · cases run

theorem extends_set (offset size : UInt64) (value : Bytes)
    : Extends fun m => m.set offset size value := by
  unfold Memory.set
  by_cases zero : size = 0
  · simp only [if_pos zero]
    exact fun m => ⟨fun m' run => Except.ok.inj run ▸ ⟨le_rfl, rfl⟩, nofun⟩
  · simp only [if_neg zero]
    exact extends_overwrite

theorem extends_set32 (offset : UInt64) (val : Word) : Extends fun m => m.set32 offset val :=
  extends_overwrite

theorem extends_set8 (offset : UInt64) (val : UInt8) : Extends fun m => m.set8 offset val :=
  extends_overwrite

end Memory

theorem simpleCode_readMemory (offset size : Word)
    : SimpleCode quietly (readMemory offset size : Code B Bytes) :=
  .bind .get fun _ => .ofExcept fun _ run => Memory.read_fueled run

theorem simpleCode_setMemory (offset size : Word) (value : Bytes)
    : SimpleCode quietly (setMemory offset size value : Code B Unit) :=
  .memory (extends_set _ _ _)

theorem simpleCode_getData {data : Bytes} {start size : UInt64}
    : SimpleCode quietly (Prog.ofExcept (getData data start size) : Code B Bytes) :=
  .ofExcept fun _ run => getData_fueled run

section Executions

variable (contract : Contract)

theorem simpleCode_unaryOp (f : Word → Word)
    : SimpleCode quietly (unaryOp f contract : Code B Bytes) :=
  .bind .pop fun _ => .bind (.push _) fun _ => .pure _

theorem simpleCode_binaryOp (f : Word → Word → Word)
    : SimpleCode quietly (binaryOp f contract : Code B Bytes) :=
  .bind .pop fun _ => .bind .pop fun _ => .bind (.push _) fun _ => .pure _

theorem simpleCode_ternaryOp (f : Word → Word → Word → Word)
    : SimpleCode quietly (ternaryOp f contract : Code B Bytes) :=
  .bind .pop fun _ => .bind .pop fun _ => .bind .pop fun _ => .bind (.push _) fun _ => .pure _

theorem simpleCode_pushOp (f : Contract → Scope B → Word)
    : SimpleCode quietly (pushOp f contract : Code B Bytes) :=
  .bind .get fun _ => .bind (.push _) fun _ => .pure _

theorem simpleCode_opCallDataLoad
    : SimpleCode quietly (opCallDataLoad contract : Code B Bytes) := by
  refine .bind .pop fun x => ?_
  split
  · exact .bind simpleCode_getData fun _ => .bind (.push _) fun _ => .pure _
  · exact .bind (.push _) fun _ => .pure _

theorem simpleCode_copyOp (data : Contract → Bytes)
    : SimpleCode quietly (copyOp data contract : Code B Bytes) :=
  .bind .pop fun _ => .bind .pop fun _ => .bind .pop fun _ => .bind simpleCode_getData fun _ =>
    .bind (simpleCode_setMemory _ _ _) fun _ => .pure _

theorem simpleCode_opExtCodeCopy : SimpleCode quietly (opExtCodeCopy contract : Code B Bytes) :=
  .bind .pop fun _ => .bind .pop fun _ => .bind .pop fun _ => .bind .pop fun _ =>
    .bind (.machine (.query fun _ => rfl)) fun _ => .bind simpleCode_getData fun _ =>
      .bind (simpleCode_setMemory _ _ _) fun _ => .pure _

theorem simpleCode_opReturnDataCopy
    : SimpleCode quietly (opReturnDataCopy contract : Code B Bytes) := by
  refine .bind .pop fun _ => .bind .pop fun _ => .bind .pop fun _ => .bind .get fun _ => ?_
  dsimp only
  split
  · exact .ite (.stop (by decide)) (.ite (.stop (by decide))
      (.bind (simpleCode_setMemory _ _ _) fun _ => .pure _))
  · exact .stop (by decide)

theorem simpleCode_opSha3 (env : Env)
    : SimpleCode quietly (opSha3 env contract : Code B Bytes) := by
  refine .bind .pop fun _ => .bind .pop fun _ => .bind (simpleCode_readMemory _ _) fun _ => ?_
  have tail (r : Unit) (hash : Word)
      : SimpleCode quietly (do push hash; return [] : Code B Bytes) :=
    .bind (.push _) fun _ => .pure _
  exact .ite (.bind (.machine (.perform fun _ => rfl)) fun r => tail r _) (tail () _)

theorem simpleCode_opPop : SimpleCode quietly (opPop contract : Code B Bytes) :=
  .bind .pop fun _ => .pure _

theorem simpleCode_opMload : SimpleCode quietly (opMload contract : Code B Bytes) :=
  .bind .pop fun _ => .bind (simpleCode_readMemory _ _) fun _ => .bind (.push _) fun _ => .pure _

theorem simpleCode_opMstore : SimpleCode quietly (opMstore contract : Code B Bytes) :=
  .bind .pop fun _ => .bind .pop fun _ => .bind (.memory (extends_set32 _ _)) fun _ => .pure _

theorem simpleCode_opMstore8 : SimpleCode quietly (opMstore8 contract : Code B Bytes) :=
  .bind .pop fun _ => .bind .pop fun _ => .bind (.memory (extends_set8 _ _)) fun _ => .pure _

theorem simpleCode_opJump : SimpleCode quietly (opJump contract : Code B Bytes) :=
  .bind .pop fun _ => .ite (.bind (.pc _) fun _ => .pure _) (.stop (by decide))

theorem simpleCode_opJumpi : SimpleCode quietly (opJumpi contract : Code B Bytes) :=
  .bind .pop fun _ => .bind .pop fun _ =>
    .ite (.ite (.bind (.pc _) fun _ => .pure _) (.stop (by decide)))
      (.bind .get fun _ => .bind (.pc _) fun _ => .pure _)

theorem simpleCode_opPush1 : SimpleCode quietly (opPush1 contract : Code B Bytes) :=
  .bind .get fun _ => .bind (.pc _) fun _ => .bind (.push _) fun _ => .pure _

variable (n : Nat)

theorem simpleCode_makePush : SimpleCode quietly (makePush n contract : Code B Bytes) :=
  .bind .get fun _ => .bind (.push _) fun _ => .bind (.pc _) fun _ => .pure _

theorem simpleCode_makeDup : SimpleCode quietly (makeDup n contract : Code B Bytes) :=
  .bind (.back _) fun _ => .bind (.push _) fun _ => .pure _

theorem simpleCode_makeSwap : SimpleCode quietly (makeSwap n contract : Code B Bytes) :=
  .bind (.back _) fun top => .bind (.back _) fun other =>
    .bind (.stack fun stack => (stack.set 0 other).set n top) fun _ => .pure _

theorem simpleCode_opReturn : SimpleCode quietly (opReturn contract : Code B Bytes) :=
  .bind .pop fun _ => .bind .pop fun _ => simpleCode_readMemory _ _

theorem simpleCode_readOp {read : Contract → Word → Evm B Word} (reader : Reader read)
    : SimpleCode quietly (readOp read contract) :=
  .bind .pop fun _ => .bind (.machine (reader.simple contract _)) fun _ =>
    .bind (.push _) fun _ => .pure _

theorem simpleCode_opSelfBalance : SimpleCode quietly (opSelfBalance contract : Code B Bytes) :=
  .bind (.machine (.query fun _ => rfl)) fun _ => .bind (.push _) fun _ => .pure _

theorem simpleCode_opSstore : SimpleCode False (opSstore contract : Code B Bytes) :=
  .bind .pop fun _ => .bind .pop fun _ => .bind (.machine (.perform nofun)) fun _ => .pure _

theorem simpleCode_popTopics : SimpleCode quietly (popTopics n : Code B (List Hash)) := by
  induction n with
  | zero => exact .pure _
  | succ n ih => exact .bind .pop fun _ => .bind ih fun _ => .pure _

theorem simpleCode_makeLog (env : Env) (n : Nat)
    : SimpleCode False (makeLog env n contract : Code B Bytes) :=
  .bind .pop fun _ => .bind .pop fun _ => .bind (simpleCode_popTopics n) fun _ =>
    .bind (simpleCode_readMemory _ _) fun _ => .bind (.machine (.perform nofun)) fun _ => .pure _

theorem simpleCode_opSuicide : SimpleCode False (opSuicide contract : Code B Bytes) :=
  .bind .pop fun _ => .bind (.machine (simple_suicideTo _ _)) fun _ => .pure _

end Executions

end GoBinacoin.Vm
