import GoBinacoin.Vm.Simple
import Mathlib.Logic.Relation

/-! What a running contract can do to the machine: an inductive account of effects, nested
frames included, and that every program of the interpreter stays within it.
-/

namespace GoBinacoin.Vm

open Program State

variable {B : Backend}

/-- The machine after an operation of the database. -/
def Performs (m : Machine B) (op : Op) (m' : Machine B) : Prop :=
  ∃ db, op.run m.db = some db ∧ m' = m.moved db

/-- Writes are allowed. -/
def Writable (env : Env) (m : Machine B) : Prop :=
  ¬ (m.readOnly = true ∧ env.rules.isByzantium = true)

def Event.isSum : Event B → Bool
  | .gasSum _ _ => true
  | _ => false

/-- Changes that concern neither the database nor the call stack. -/
structure Scratch (m m' : Machine B) : Prop where
  db : m'.db = m.db
  depth : m'.depth = m.depth
  readOnly : m'.readOnly = m.readOnly
  frames : m'.frames = m.frames
  burned : m'.burned = m.burned
  events : ∃ new, (∀ e ∈ new, e.isSum = true) ∧ m'.events = new ++ m.events

/-- A step that only reads, warms up or keeps notes. -/
def Hush (m m' : Machine B) : Prop :=
  (∃ op, quiet op = true ∧ Performs m op m') ∨ Scratch m m'

abbrev Hushed : Machine B → Machine B → Prop := Relation.ReflTransGen Hush

/-- The refund for a cleared slot under the rules; none before net metering. -/
def Env.clearRefund (env : Env) : UInt64 :=
  if env.rules.isLondon then sstoreClearsScheduleRefundEIP3529
  else if env.rules.isBerlin then sstoreClearsScheduleRefundEIP2200
  else if env.rules.isIstanbul then sstoreClearsScheduleRefundEIP2200
  else if env.rules.isConstantinople && !env.rules.isPetersburg then netSstoreClearRefund
  else 0

/-- What the contract at `self` can do. A strict account pairs the refund of every SSTORE with
its write; an account that is not strict also covers runs that failed between the two. An
account with `listing` finds every contract that starts in the access list of Berlin.
-/
inductive Does (env : Env) (listing : Prop) : Prop → Address → Machine B → Machine B → Prop where
  | seq {strict self m m' m''}
      : Does env listing strict self m m' → Does env listing strict self m' m''
        → Does env listing strict self m m''
  | hush {strict self m m'} : Hushed m m' → Does env listing strict self m m'
  | addRefund {strict self m m'} (gas : UInt64)
      : Writable env m → Performs m (.addRefund gas) m' → Does env listing strict self m m'
  | subRefund {strict self m m'} (gas : UInt64)
      : ¬ strict → Writable env m → Performs m (.subRefund gas) m'
        → Does env listing strict self m m'
  | store {strict self m m'} (key value : Hash)
      : (strict → env.clearRefund = 0) → Writable env m
      → Performs m (.setState self key value) m' → Does env listing strict self m m'
  | meteredStore {strict self m read charged m'} {cost : UInt64} (p : NetMetering)
      (key value : Hash)
      : p.clearRefund = env.clearRefund → Writable env m → Hushed m read
      → p.charge self key (m.db.getState self key).1 value read = (.ok cost, charged)
      → Performs charged (.setState self key value) m' → Does env listing strict self m m'
  | log {strict self m m'} (entry : Log)
      : Writable env m → Performs m (.addLog entry) m' → Does env listing strict self m m'
  | suicide {strict self m m'} (beneficiary : Address)
      : Writable env m → suicideTo self beneficiary m = (.ok (), m')
        → Does env listing strict self m m'
  | touch {strict self m m'} (addr : Address)
      : Performs m (.addBalance addr 0) m' → Does env listing strict self m m'
  | createAbsent {strict self m m'} (addr : Address)
      : (m.db.exist addr).1 = false → Performs m (.createAccount addr) m'
      → Does env listing strict self m m'
  | createFresh {strict self m m'} (addr : Address)
      : Writable env m → Performs m (.createAccount addr) m' → Does env listing strict self m m'
  | setNonce {strict self m m'} (addr : Address) (nonce : UInt64)
      : Writable env m → Performs m (.setNonce addr nonce) m' → Does env listing strict self m m'
  | setCode {strict self m m'} (addr : Address) (code : Option Bytes)
      : Writable env m → Performs m (.setCode addr code) m' → Does env listing strict self m m'
  | transfer {strict self m m'} (addr : Address) (value : Int)
      : value = 0 ∨ Writable env m ∧ 0 ≤ value ∧ value ≤ (m.db.getBalance self).1
      → Vm.transfer self addr value m = (.ok (), m') → Does env listing strict self m m'
  | canary {strict self m m'}
      : m.db.addressInAccessList self = false → Hushed m m'
      → Does env listing strict self m (m'.note (.canary self m.db))
  | snapshot {strict self m} : Does env listing strict self m (m.moved m.db.snapshot.2)
  | reverted {strict self m m' db}
      : Does env listing False self (m.moved m.db.snapshot.2) m'
      → m'.db.revertToSnapshot m.db.snapshot.1 = some db
      → Does env listing strict self m { m'.moved db with burned := m.burned }
  | run {strict self m m'} (addr : Address) (readOnly : Bool)
      : (listing → env.rules.isBerlin = true
        → m.db.addressInAccessList addr = true ∨ addr = self)
      → Does env listing strict addr (m.enter addr readOnly) m'
      → Does env listing strict self m (m'.leave m.readOnly readOnly)

variable {env : Env} {listing : Prop} {strict : Prop} {self : Address} {m m' m'' : Machine B}

/-- What is done strictly is done. -/
theorem Does.loose (does : Does env listing strict self m m')
    : Does env listing False self m m' := by
  induction does with
  | seq _ _ first second => exact first.seq second
  | hush hushed => exact .hush hushed
  | addRefund gas writable run => exact .addRefund gas writable run
  | subRefund gas _ writable run => exact .subRefund gas id writable run
  | store key value _ writable run => exact .store key value False.elim writable run
  | meteredStore p key value scheme writable hushed charge run =>
    exact .meteredStore p key value scheme writable hushed charge run
  | log entry writable run => exact .log entry writable run
  | suicide beneficiary writable run => exact .suicide beneficiary writable run
  | touch addr run => exact .touch addr run
  | createAbsent addr absent run => exact .createAbsent addr absent run
  | createFresh addr writable run => exact .createFresh addr writable run
  | setNonce addr nonce writable run => exact .setNonce addr nonce writable run
  | setCode addr code writable run => exact .setCode addr code writable run
  | transfer addr value guard run => exact .transfer addr value guard run
  | canary unlisted hushed => exact .canary unlisted hushed
  | snapshot => exact .snapshot
  | reverted inside back => exact .reverted inside back
  | run addr readOnly listed _ inside => exact .run addr readOnly listed inside

theorem Does.rest : Does env listing strict self m m := .hush .refl

theorem Scratch.of_note {e : Event B} (isSum : e.isSum = true) : Scratch m (m.note e) :=
  ⟨rfl, rfl, rfl, rfl, rfl, [e], by simpa using isSum, rfl⟩

theorem Scratch.of_fields (temp : UInt64) (data : Bytes)
    : Scratch m { m with callGasTemp := temp, returnData := data } :=
  ⟨rfl, rfl, rfl, rfl, rfl, [], by simp, rfl⟩

theorem Scratch.of_dispatch (m : Machine B) : Scratch m m.dispatch :=
  ⟨rfl, rfl, rfl, rfl, rfl, [], nofun, rfl⟩

theorem Hushed.of_scratch (scratch : Scratch m m') : Hushed m m' := .single (.inr scratch)

/-- A program of the machine that only reads, warms up or keeps notes. -/
abbrev Quiet {α : Type} (p : Evm B α) : Prop := Keeps Hushed p

variable {α : Type} {op : Op} {p : Evm B α}

theorem quiet_perform (isQuiet : quiet op = true) : Quiet (perform op : Evm B Unit) := by
  intro m
  unfold perform
  split
  · rename_i db run
    exact .single (.inl ⟨op, isQuiet, db, run, rfl⟩)
  · exact .refl

theorem quiet_query (isQuiet : quiet op = true) (value : StateDB B → α)
    : Quiet (query op value) := by
  intro m
  unfold query
  split
  · rename_i db run
    exact .single (.inl ⟨op, isQuiet, db, run, rfl⟩)
  · exact .refl

theorem quiet_gasSum (x y : UInt64) : Quiet (gasSum x y : Evm B UInt64) :=
  .bind (fun _ => .of_scratch (.of_note rfl)) fun _ => .pure _

/-- Simple programs are quiet. -/
theorem Simple.quiet (simple : Simple True p) : Quiet p := by
  induction simple with
  | pure a => exact .pure a
  | get => exact fun _ => .refl
  | bind _ _ first second => exact .bind first second
  | perform isQuiet => exact quiet_perform (isQuiet trivial)
  | query isQuiet => exact quiet_query (isQuiet trivial) _
  | fault => exact .stop _
  | canary _ _ loud | burn _ _ loud => exact (loud trivial).elim

/-- The gas stays, and nothing happens to the machine but reading, warming up and notes. -/
structure Tame (s s' : Scope B) : Prop where
  machine : Hushed s.machine s'.machine
  gas : s'.gas = s.gas

instance : IsPreorder (Scope B) Tame where
  refl _ := ⟨.refl, rfl⟩
  trans _ _ _ first second := ⟨first.machine.trans second.machine, second.gas.trans first.gas⟩

abbrev QuietCode {α : Type} (p : Code B α) : Prop := Keeps Tame p

theorem quiet_onMachine (quiet : Quiet p) : QuietCode (onMachine p) :=
  fun s => ⟨quiet s.machine, rfl⟩

theorem quiet_pop : QuietCode (pop : Code B Word) := by
  intro s
  unfold pop
  split
  · exact ⟨.refl, rfl⟩
  · exact refl s

theorem quiet_changeMemory (change : Memory → Except Stop Memory)
    : QuietCode (changeMemory change : Code B Unit) :=
  .bind .get fun _ => .bind (.ofExcept _) fun _ => fun _ => ⟨.refl, rfl⟩

/-- So is simple code. -/
theorem SimpleCode.quiet {p : Code B α} (simple : SimpleCode True p) : QuietCode p := by
  induction simple with
  | pure a => exact .pure a
  | get => exact .get
  | bind _ _ first second => exact .bind first second
  | stop => exact .stop _
  | pop => exact quiet_pop
  | stack | pc => exact fun _ => ⟨.refl, rfl⟩
  | memory => exact quiet_changeMemory _
  | machine simple => exact quiet_onMachine simple.quiet

theorem quiet_back (n : Nat) : QuietCode (back n : Code B Word) := (SimpleCode.back n).quiet

theorem quiet_push (x : Word) : QuietCode (push x : Code B Unit) := (SimpleCode.push x).quiet

theorem quiet_readMemory (offset size : Word) : QuietCode (readMemory offset size : Code B Bytes) :=
  (simpleCode_readMemory offset size).quiet

theorem quiet_checked (n : Option UInt64) : QuietCode (checked n : Code B UInt64) := by
  cases n with
  | some n => exact .pure n
  | none => exact .stop _

theorem quiet_memoryGasCost (size : UInt64) : QuietCode (memoryGasCost size : Code B UInt64) := by
  refine .ite (.pure _) (.ite (.stop _) (.bind .get fun _ => .ite ?_ (.pure _)))
  exact .bind (fun _ => ⟨.refl, rfl⟩) fun _ => .pure _

theorem quiet_memoryRegion (off l : Nat) : QuietCode (memoryRegion off l : MemorySize B) :=
  .bind (quiet_back _) fun _ => .bind (quiet_back _) fun _ => .pure _

theorem quiet_memoryFixed (length : UInt64) : QuietCode (memoryFixed length : MemorySize B) :=
  .bind (quiet_back _) fun _ => .pure _

theorem quiet_memoryRegions (a b c d : Nat) : QuietCode (memoryRegions a b c d : MemorySize B) := by
  refine .bind (quiet_memoryRegion _ _) fun x => ?_
  split
  · exact .pure _
  · refine .bind (quiet_memoryRegion _ _) fun y => ?_
    split
    · exact .pure _
    · exact .pure _

section Gas

variable (contract : Contract) (memorySize : UInt64)

theorem quiet_perWordGas (price : UInt64) (stackpos : Nat)
    : QuietCode (perWordGas price stackpos contract memorySize : Code B UInt64) :=
  .bind (quiet_memoryGasCost _) fun _ => .bind (quiet_back _) fun _ =>
    .bind (quiet_checked _) fun _ => .bind (quiet_checked _) fun _ => quiet_checked _

theorem quiet_makeGasLog (n : Nat) : QuietCode (makeGasLog n contract memorySize : Code B UInt64) :=
  .bind (quiet_back _) fun _ => .bind (quiet_checked _) fun _ =>
    .bind (quiet_memoryGasCost _) fun _ => .bind (quiet_checked _) fun _ =>
      .bind (quiet_checked _) fun _ => .bind (quiet_checked _) fun _ => quiet_checked _

theorem quiet_gasExp (price : UInt64)
    : QuietCode (gasExp price contract memorySize : Code B UInt64) :=
  .bind (quiet_back _) fun _ => quiet_checked _

theorem quiet_gasSLoadEIP2929 : QuietCode (gasSLoadEIP2929 contract memorySize : Code B UInt64) :=
  .bind (quiet_back _) fun _ => .bind (quiet_onMachine (simple_slotInAccessList _ _).quiet) fun _ =>
    .ite (.pure _) (.bind (quiet_onMachine (quiet_perform rfl)) fun _ => .pure _)

theorem quiet_gasExtCodeCopyEIP2929
    : QuietCode (gasExtCodeCopyEIP2929 contract memorySize : Code B UInt64) :=
  .bind (quiet_perWordGas contract memorySize _ _) fun _ => .bind (quiet_back _) fun _ =>
    .bind (quiet_onMachine (simple_warmAddress _).quiet) fun _ => .ite (.pure _) (quiet_checked _)

theorem quiet_gasEip2929AccountCheck
    : QuietCode (gasEip2929AccountCheck contract memorySize : Code B UInt64) :=
  .bind (quiet_back _) fun _ =>
    .bind (quiet_onMachine (simple_warmAddress _).quiet) fun _ => .pure _

theorem quiet_forwardGas (env : Env) (gas : UInt64)
    : QuietCode (forwardGas env gas : Code B UInt64) := by
  refine .bind .get fun s => .bind (quiet_back _) fun _ => .bind (quiet_checked _) fun temp => ?_
  refine .bind (quiet_onMachine fun m => ?_) fun _ => quiet_checked _
  exact Hushed.of_scratch (.of_fields temp m.returnData)

theorem quiet_gasCall (env : Env) : QuietCode (gasCall env contract memorySize : Code B UInt64) :=
  .bind (quiet_back _) fun _ => .bind (quiet_back _) fun _ =>
    .bind (quiet_onMachine (simple_newAccountGas env _ _).quiet) fun _ =>
      .bind (quiet_memoryGasCost _) fun _ => .bind (quiet_checked _) fun _ => quiet_forwardGas env _

theorem quiet_gasCallCode (env : Env)
    : QuietCode (gasCallCode env contract memorySize : Code B UInt64) :=
  .bind (quiet_memoryGasCost _) fun _ => .bind (quiet_back _) fun _ =>
    .bind (quiet_checked _) fun _ => quiet_forwardGas env _

theorem quiet_gasDelegateCall (env : Env)
    : QuietCode (gasDelegateCall env contract memorySize : Code B UInt64) :=
  .bind (quiet_memoryGasCost _) fun _ => quiet_forwardGas env _

end Gas

end GoBinacoin.Vm
