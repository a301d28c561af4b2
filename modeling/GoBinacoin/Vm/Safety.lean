import GoBinacoin.Vm.Simple

/-! Safety of the stack and the memory: an operation that passed the checks of the interpreter
finds the words and the memory it works on.
-/

namespace GoBinacoin.Vm

open Program State

variable {B : Backend}

/-- A region lies in memory, or is empty. -/
def Fits (m : Memory) (offset size : UInt64) : Prop :=
  size = 0 ∨ offset.toNat + size.toNat ≤ m.store.length

/-- No memory grows beyond the size its price is defined for. -/
def Bounded (m : Memory) : Prop := m.store.length ≤ maxMemory.toNat

theorem maxMemory_toNat : maxMemory.toNat = 0x1FFFFFFFE0 := rfl

variable {m : Memory} {offset size : UInt64}

theorem Bounded.len (bounded : Bounded m) : m.len.toNat = m.store.length := by
  unfold Bounded at bounded
  rw [maxMemory_toNat] at bounded
  unfold Memory.len
  rw [UInt64.toNat_ofNat']
  omega

variable {n : UInt64} {x off : Word}

theorem int64_of_small (small : n.toNat < 2 ^ 63) : int64 n = n.toNat := if_pos small

theorem overwrite_length {store value : Bytes} {offset : Nat}
    (fits : offset + value.length ≤ store.length)
    : (overwrite store offset value).length = store.length := by
  simp only [overwrite, List.length_append, List.length_take, List.length_drop]
  omega

section

variable (bounded : Bounded m)

include bounded

theorem toNat_add_of_fits {x y : UInt64} (fits : x.toNat + y.toNat ≤ m.store.length)
    : (x + y).toNat = x.toNat + y.toNat := by
  unfold Bounded at bounded
  rw [maxMemory_toNat] at bounded
  rw [UInt64.toNat_add]
  omega

/-- A region that fits is read. -/
theorem Memory.read_fits (fits : Fits m offset size) : ∃ bytes, m.read offset size = .ok bytes := by
  unfold read
  rcases fits with rfl | fits
  · exact ⟨[], rfl⟩
  · unfold Bounded at bounded
    rw [maxMemory_toNat] at bounded
    rw [int64_of_small (n := offset) (by omega), int64_of_small (n := size) (by omega)]
    split
    · exact ⟨[], rfl⟩
    split
    · rw [if_pos (by omega)]
      exact ⟨_, rfl⟩
    · exact ⟨[], rfl⟩

/-- A region that fits is written. -/
theorem Memory.set_fits (fits : Fits m offset size) (value : Bytes)
    : ∃ m', m.set offset size value = .ok m' ∧ m'.store.length = m.store.length := by
  unfold set
  split
  · exact ⟨m, rfl, rfl⟩
  · rename_i nonzero
    have inside := fits.resolve_left nonzero
    have sum := toNat_add_of_fits bounded inside
    rw [if_neg]
    · refine ⟨_, rfl, overwrite_length ?_⟩
      rw [List.length_take]
      omega
    · simp only [gt_iff_lt, UInt64.lt_iff_toNat_lt, sum, bounded.len]
      omega

/-- A word that fits is written. -/
theorem Memory.set32_fits (fits : offset.toNat + 32 ≤ m.store.length) (val : Word)
    : ∃ m', m.set32 offset val = .ok m' ∧ m'.store.length = m.store.length := by
  have sum : (offset + 32).toNat = offset.toNat + 32 := toNat_add_of_fits bounded fits
  unfold set32
  rw [if_neg]
  · refine ⟨_, rfl, overwrite_length ?_⟩
    rw [hashBytes_length]
    exact fits
  · simp only [gt_iff_lt, UInt64.lt_iff_toNat_lt, sum, bounded.len]
    omega

theorem Memory.set8_fits (fits : offset.toNat + 1 ≤ m.store.length) (val : UInt8)
    : ∃ m', m.set8 offset val = .ok m' ∧ m'.store.length = m.store.length := by
  unfold set8
  rw [if_neg]
  · exact ⟨_, rfl, overwrite_length fits⟩
  · simp only [ge_iff_le, UInt64.le_iff_toNat_le, bounded.len]
    omega

/-- Memory only grows. -/
theorem Memory.resize_length (small : size ≤ maxMemory)
    : (m.resize size).store.length = max m.store.length size.toNat ∧ Bounded (m.resize size) := by
  have small : size.toNat ≤ maxMemory.toNat := small
  have length : (m.resize size).store.length = max m.store.length size.toNat := by
    unfold resize
    split
    · rename_i grows
      rw [UInt64.lt_iff_toNat_lt, bounded.len] at grows
      have difference : (size - m.len).toNat = size.toNat - m.store.length := by
        rw [UInt64.toNat_sub_of_le _ _ (by rw [UInt64.le_iff_toNat_le, bounded.len]; omega),
          bounded.len]
      simp only [List.length_append, List.length_replicate, difference]
      omega
    · rename_i enough
      rw [UInt64.lt_iff_toNat_lt, bounded.len] at enough
      omega
  refine ⟨length, ?_⟩
  unfold Bounded at bounded ⊢
  omega

end

theorem toNat_uint64 (fits : isUint64 x = true) : (uint64 x).toNat = x.toNat := by
  have fits : x.toNat < 2 ^ 64 := of_decide_eq_true fits
  unfold uint64
  rw [UInt64.toNat_ofNat']
  omega

theorem uint64WithOverflow_some (run : uint64WithOverflow x = some n)
    : isUint64 x = true ∧ n = uint64 x := by
  unfold uint64WithOverflow at run
  split at run
  · rename_i fits
    exact ⟨fits, (Option.some.inj run).symm⟩
  · cases run

/-- The size is the end of the region, unless that is empty. -/
theorem calcMemSize64WithUint_some {length x : UInt64}
    (run : calcMemSize64WithUint off length = some x)
    : length = 0 ∨ x.toNat = (uint64 off).toNat + length.toNat := by
  unfold calcMemSize64WithUint at run
  split at run
  · rename_i zero
    exact .inl zero
  · obtain ⟨offset, converted, sum⟩ := Option.bind_eq_some_iff.mp run
    obtain ⟨-, rfl⟩ := uint64WithOverflow_some converted
    split at sum
    · cases sum
    · rename_i noWrap
      rw [← Option.some.inj sum]
      rw [UInt64.lt_iff_toNat_lt, UInt64.toNat_add] at noWrap
      rw [UInt64.toNat_add]
      have := (uint64 off).toNat_lt
      have := length.toNat_lt
      right
      omega

theorem calcMemSize64_some {l : Word} {x : UInt64} (run : calcMemSize64 off l = some x)
    : isUint64 l = true
      ∧ (uint64 l = 0 ∨ x.toNat = (uint64 off).toNat + (uint64 l).toNat) := by
  obtain ⟨length, converted, sum⟩ := Option.bind_eq_some_iff.mp run
  obtain ⟨fits, rfl⟩ := uint64WithOverflow_some converted
  exact ⟨fits, calcMemSize64WithUint_some sum⟩

/-- Rounding to words makes nothing smaller. -/
theorem le_of_words {words : UInt64} (run : safeMul (toWordSize size) 32 = some words)
    : size.toNat ≤ words.toNat := by
  unfold safeMul at run
  split at run
  · rename_i noWrap
    rw [← Option.some.inj run, UInt64.toNat_mul, Nat.mod_eq_of_lt noWrap]
    unfold toWordSize
    split
    · rename_i large
      exact absurd noWrap (by
        unfold toWordSize
        rw [if_pos large]
        decide)
    · rename_i small
      have bound : size.toNat ≤ 0xffffffffffffffff - 31 := by
        rw [gt_iff_lt, UInt64.lt_iff_toNat_lt, Nat.not_lt] at small
        exact small
      have sum : (size + 31).toNat = size.toNat + 31 := by
        rw [UInt64.toNat_add]
        show (size.toNat + 31) % _ = _
        omega
      rw [UInt64.toNat_div, sum]
      show size.toNat ≤ (size.toNat + 31) / 32 * 32
      omega
  · cases run

/-- The canary of the access list was noted. -/
def SangCanary (m : Machine B) : Prop := ∃ addr db, Event.canary addr db ∈ m.events

/-- What a contract may stop with: no access outside of the stack, the memory or the return
data. The error of a creation whose code is not paid for stays inside the creation, a revert is a
result, and the canary is noted.
-/
def Safe : Stop → Machine B → Prop
  | .panic .stackIndex, _ => False
  | .panic .memoryIndex, _ => False
  | .panic .sliceBounds, _ => False
  | .panic .accessListCanary, m => SangCanary m
  | .err .codeStoreOutOfGas, _ => False
  | .err .executionReverted, _ => False
  | _, _ => True

def SafeCode (e : Stop) (s : Scope B) : Prop := Safe e s.machine

/-- A program of the machine that stops for safe reasons only. -/
def Calm {α : Type} (p : Evm B α) : Prop := ∀ m, Ensures Safe p m fun _ _ => True

variable {α β : Type} {p : Evm B α}

section Calm

theorem Calm.pure (a : α) : Calm (Pure.pure a : Evm B α) := fun _ => trivial

theorem Calm.stop {e : Stop} (safe : ∀ m : Machine B, Safe e m) : Calm (Prog.stop e : Evm B α) :=
  safe

theorem Calm.get : Calm (Prog.get : Evm B (Machine B)) := fun _ => trivial

theorem Calm.modify (change : Machine B → Machine B) : Calm (Prog.modify change : Evm B Unit) :=
  fun _ => trivial

theorem Calm.bind {f : α → Evm B β} (first : Calm p) (second : ∀ a, Calm (f a)) : Calm (p >>= f) :=
  fun m => (first m).bind fun a m' _ => second a m'

theorem Calm.ite {c : Prop} [Decidable c] {q : Evm B α} (yes : Calm p) (no : Calm q)
    : Calm (if c then p else q) :=
  fun m => .ite (fun _ => yes m) fun _ => no m

theorem safe_opFault (op : Op) (m : Machine B) : Safe (.panic (opFault op)) m := by
  cases op <;> trivial

theorem calm_perform (op : Op) : Calm (perform op : Evm B Unit) := by
  intro m
  unfold Ensures After perform
  split
  · trivial
  · exact safe_opFault op m

theorem calm_query (op : Op) (value : StateDB B → α) : Calm (query op value) := by
  intro m
  unfold Ensures After query
  split
  · trivial
  · exact safe_opFault op m

/-- Simple programs are calm. -/
theorem Simple.calm (simple : Simple False p) : Calm p := by
  induction simple with
  | pure a => exact .pure a
  | get => exact .get
  | bind _ _ first second => exact .bind first second
  | perform _ => exact calm_perform _
  | query _ => exact calm_query _ _
  | fault => exact .stop fun _ => trivial
  | canary addr db _ => exact fun _ => ⟨addr, db, List.mem_cons_self⟩
  | burn self balance _ => exact .modify _

theorem calm_gasSum (x y : UInt64) : Calm (gasSum x y : Evm B UInt64) :=
  .bind (.modify _) fun _ => .pure _

end Calm

/-- The stack and the bytes in memory stay. -/
structure Held (s s' : Scope B) : Prop where
  stack : s'.stack = s.stack
  store : s'.mem.store = s.mem.store

theorem Held.refl (s : Scope B) : Held s s := ⟨rfl, rfl⟩

theorem Held.trans {s s' s'' : Scope B} (first : Held s s') (second : Held s' s'') : Held s s'' :=
  ⟨second.stack.trans first.stack, second.store.trans first.store⟩

section Parts

variable {s : Scope B} {allowed : Stop → Scope B → Prop}

variable {n : Nat} {rest : List Word} {amount : UInt64}

theorem ensures_back {Q : Word → Scope B → Prop} (deep : n < s.stack.length)
    (holds : ∀ x, s.stack[n]? = some x → Q x s)
    : Ensures SafeCode (back n) s Q := by
  have found := List.getElem?_eq_getElem deep
  unfold Ensures After back
  simp only [Bind.bind, Prog.bind, Prog.get, found]
  exact holds _ found

theorem ensures_pop {Q : Word → Scope B → Prop}
    (shape : s.stack = x :: rest) (holds : Q x { s with stack := rest })
    : Ensures allowed pop s Q := by
  unfold Ensures After pop
  rw [shape]
  exact holds

theorem ensures_checked {n : Option UInt64} {Q : UInt64 → Scope B → Prop}
    (holds : ∀ x, n = some x → Q x s)
    : Ensures SafeCode (checked n) s Q := by
  cases n with
  | none => trivial
  | some x => exact holds x rfl

theorem Calm.ensures {Q : α → Scope B → Prop} (calm : Calm p)
    (holds : ∀ a m, Q a { s with machine := m })
    : Ensures SafeCode (onMachine p) s Q :=
  (calm s.machine).mono fun a m _ => holds a m

theorem ensures_useGas {Q : Bool → Scope B → Prop}
    (holds : ∀ paid gas, Q paid { s with gas := gas })
    : Ensures SafeCode (useGas amount) s Q := by
  unfold Ensures After useGas
  split
  · exact holds false s.gas
  · exact holds true _

theorem ensures_returnGas {Q : Unit → Scope B → Prop}
    (holds : ∀ gas m, Q () { s with gas := gas, machine := m })
    : Ensures SafeCode (returnGas amount) s Q := by
  refine .get (.seq ?_)
  exact (calm_gasSum s.gas amount).ensures fun gas m => holds gas m

/-- Memory that is paid for is below the maximum. -/
theorem ensures_memoryGasCost (size : UInt64)
    : Ensures SafeCode (memoryGasCost size) s fun _ s' => Held s s' ∧ size ≤ maxMemory := by
  refine .ite (fun zero => ⟨.refl s, ?_⟩) fun _ => .ite (fun _ => trivial) fun small => ?_
  · rw [zero]
    exact UInt64.zero_le
  · have small := UInt64.not_lt.mp small
    refine .get (.ite (fun _ => ?_) fun _ => ?_)
    · exact ⟨⟨rfl, rfl⟩, small⟩
    · exact ⟨.refl s, small⟩

/-! The same rules for the first part of a sequence. -/

variable {f : α → Code B β} {Q : β → Scope B → Prop}

theorem then_back {f : Word → Code B β} (deep : n < s.stack.length)
    (next : ∀ x, s.stack[n]? = some x → Ensures SafeCode (f x) s Q)
    : Ensures SafeCode (back n >>= f) s Q :=
  .seq (ensures_back deep next)

theorem then_pop {f : Word → Code B β}
    (shape : s.stack = x :: rest) (next : Ensures allowed (f x) { s with stack := rest } Q)
    : Ensures allowed (pop >>= f) s Q :=
  .seq (ensures_pop shape next)

theorem then_push {f : Unit → Code B β}
    (next : Ensures allowed (f ()) { s with stack := x :: s.stack } Q)
    : Ensures allowed (push x >>= f) s Q :=
  .seq next

theorem then_checked {f : UInt64 → Code B β} {n : Option UInt64}
    (next : ∀ x, n = some x → Ensures SafeCode (f x) s Q)
    : Ensures SafeCode (checked n >>= f) s Q :=
  .seq (ensures_checked next)

theorem then_get {f : Scope B → Code B β} (next : Ensures allowed (f s) s Q)
    : Ensures allowed (Prog.get >>= f) s Q :=
  .seq next

theorem then_modify {f : Unit → Code B β} {change : Scope B → Scope B}
    (next : Ensures allowed (f ()) (change s) Q)
    : Ensures allowed (Prog.modify change >>= f) s Q :=
  .seq next

theorem Calm.andThen (calm : Calm p)
    (next : ∀ a m, Ensures SafeCode (f a) { s with machine := m } Q)
    : Ensures SafeCode (onMachine p >>= f) s Q :=
  .seq (calm.ensures next)

end Parts

/-- A gas function that works on a number of words of the stack. -/
def GasSafe (n : Nat) (gas : GasFunc B) : Prop :=
  ∀ contract size s, n ≤ s.stack.length
    → Ensures SafeCode (gas contract size) s fun _ s' => Held s s'

/-- A gas function that also checks the size of memory. -/
def MemoryGasSafe (n : Nat) (gas : GasFunc B) : Prop :=
  ∀ contract size s, n ≤ s.stack.length
    → Ensures SafeCode (gas contract size) s fun _ s' => Held s s' ∧ size ≤ maxMemory

section Gas

theorem memoryGasSafe_pure : MemoryGasSafe 0 (pureMemoryGascost : GasFunc B) :=
  fun _ size _ _ => ensures_memoryGasCost size

theorem memoryGasSafe_perWord (price : UInt64) (stackpos : Nat)
    : MemoryGasSafe (stackpos + 1) (perWordGas price stackpos : GasFunc B) := by
  intro contract size s deep
  refine (ensures_memoryGasCost size).bind fun gas s' held => ?_
  refine then_back (by rw [held.1.stack]; omega) fun length _ => ?_
  exact then_checked fun _ _ => then_checked fun _ _ => ensures_checked fun _ _ => held

theorem memoryGasSafe_makeGasLog (n : Nat) : MemoryGasSafe 2 (makeGasLog n : GasFunc B) := by
  intro contract size s deep
  refine then_back (by omega) fun _ _ => then_checked fun _ _ => ?_
  refine (ensures_memoryGasCost size).bind fun gas s' held => ?_
  exact then_checked fun _ _ => then_checked fun _ _ => then_checked fun _ _ =>
    ensures_checked fun _ _ => held

theorem gasSafe_gasExp (price : UInt64) : GasSafe 2 (gasExp price : GasFunc B) :=
  fun _ _ s deep => then_back (by omega) fun _ _ => ensures_checked fun _ _ => .refl s

theorem gasSafe_gasSLoadEIP2929 : GasSafe 1 (gasSLoadEIP2929 : GasFunc B) := by
  intro contract size s deep
  refine then_back (by omega) fun slot _ =>
    (simple_slotInAccessList _ _).calm.andThen fun present m => ?_
  refine .ite (fun _ => ⟨rfl, rfl⟩) fun _ => (calm_perform _).andThen fun _ m => ⟨rfl, rfl⟩

theorem gasSafe_accountCheck : GasSafe 1 (gasEip2929AccountCheck : GasFunc B) :=
  fun _ _ _ deep => then_back (by omega) fun _ _ =>
    (simple_warmAddress _).calm.andThen fun _ _ => ⟨rfl, rfl⟩

/-- The price of copying foreign code limits the memory. -/
theorem memoryGasSafe_gasExtCodeCopyEIP2929
    : MemoryGasSafe 4 (gasExtCodeCopyEIP2929 : GasFunc B) := by
  intro contract size s deep
  refine (memoryGasSafe_perWord copyGas 3 contract size s deep).bind fun gas s' held => ?_
  refine then_back (by rw [held.1.stack]; omega) fun addr _ =>
    (simple_warmAddress _).calm.andThen fun warm m => ?_
  have held := (⟨⟨held.1.stack, held.1.store⟩, held.2⟩
    : Held s { s' with machine := m } ∧ size ≤ maxMemory)
  split
  · exact held
  · refine ensures_checked ?_
    exact fun _ _ => held

variable (env : Env)

theorem gasSafe_gasSStore : GasSafe 2 (gasSStore env : GasFunc B) := by
  intro contract size s deep
  refine then_back (by omega) fun y _ => then_back (by omega) fun x _ =>
    (calm_query _ _).andThen fun current m => .ite (fun _ => .ite (fun _ => ⟨rfl, rfl⟩) fun _ => ?_)
      fun _ => (simple_charge _ _ _ _ _).calm.ensures fun _ _ => ⟨rfl, rfl⟩
  exact .ite (fun _ => (calm_perform _).andThen fun _ _ => ⟨rfl, rfl⟩) fun _ => ⟨rfl, rfl⟩

theorem gasSafe_gasSStoreEIP2200 : GasSafe 2 (gasSStoreEIP2200 : GasFunc B) :=
  fun _ _ _ deep => then_get (.ite (fun _ => trivial) fun _ =>
    then_back (by omega) fun _ _ => then_back (by omega) fun _ _ =>
      (calm_query _ _).andThen fun _ _ =>
        (simple_charge _ _ _ _ _).calm.ensures fun _ _ => ⟨rfl, rfl⟩)

theorem gasSafe_makeGasSStoreFunc (clearingRefund : UInt64)
    : GasSafe 2 (makeGasSStoreFunc clearingRefund : GasFunc B) :=
  fun _ _ _ deep => then_get (.ite (fun _ => trivial) fun _ =>
    then_back (by omega) fun _ _ => then_back (by omega) fun _ _ =>
      (calm_query _ _).andThen fun _ _ => (simple_coldSlotCost _ _).calm.andThen fun _ _ =>
        (simple_charge _ _ _ _ _).calm.ensures fun _ _ => ⟨rfl, rfl⟩)

theorem gasSafe_gasSelfdestruct : GasSafe 1 (gasSelfdestruct env : GasFunc B) := by
  intro contract size s deep
  have price : Ensures SafeCode (selfdestructPrice env contract.self) s fun _ s' => Held s s' := by
    refine .ite (fun _ => ?_) fun _ => Held.refl s
    refine then_back (by omega) fun address _ => Calm.andThen ?_ fun created m => ⟨rfl, rfl⟩
    exact .ite (simple_selfdestructNewAccount _ _).calm (.bind (calm_query _ _) fun _ => .pure _)
  exact price.bind fun gas s' held =>
    (simple_refundSelfdestruct _).calm.andThen fun _ _ => ⟨held.stack, held.store⟩

theorem gasSafe_makeSelfdestructGasFn (refundsEnabled : Bool)
    : GasSafe 1 (makeSelfdestructGasFn refundsEnabled : GasFunc B) := by
  intro contract size s deep
  refine then_back (by omega) fun _ _ => (simple_warmAddress _).calm.andThen fun _ _ =>
    (simple_selfdestructNewAccount _ _).calm.andThen fun _ _ => ?_
  cases refundsEnabled with
  | true => exact (simple_refundSelfdestruct _).calm.andThen fun _ _ => ⟨rfl, rfl⟩
  | false => exact ⟨rfl, rfl⟩

theorem ensures_forwardGas (gas : UInt64) {s : Scope B} (deep : 1 ≤ s.stack.length)
    : Ensures SafeCode (forwardGas env gas) s fun _ s' => Held s s' := by
  refine then_get (then_back (by omega) fun _ _ => then_checked fun temp _ => ?_)
  refine (Calm.modify _).andThen fun _ m => ?_
  exact ensures_checked fun _ _ => ⟨rfl, rfl⟩

theorem memoryGasSafe_gasCall : MemoryGasSafe 3 (gasCall env : GasFunc B) := by
  intro contract size s deep
  refine then_back (by omega) fun value _ => then_back (by omega) fun address _ =>
    (simple_newAccountGas env _ _).calm.andThen fun gas m => ?_
  refine (ensures_memoryGasCost size).bind fun _ s' held => then_checked fun gas _ => ?_
  have stack : s'.stack = s.stack := held.1.stack
  refine (ensures_forwardGas env gas (by rw [stack]; omega)).mono fun _ s'' after => ?_
  exact ⟨⟨after.stack.trans stack, after.store.trans held.1.store⟩, held.2⟩

theorem memoryGasSafe_gasCallCode : MemoryGasSafe 3 (gasCallCode env : GasFunc B) := by
  intro contract size s deep
  refine (ensures_memoryGasCost size).bind fun _ s' held => ?_
  refine then_back (by rw [held.1.stack]; omega) fun _ _ => then_checked fun gas _ => ?_
  refine (ensures_forwardGas env gas (by rw [held.1.stack]; omega)).mono fun _ s'' after => ?_
  exact ⟨held.1.trans after, held.2⟩

theorem memoryGasSafe_gasDelegateCall : MemoryGasSafe 2 (gasDelegateCall env : GasFunc B) := by
  intro contract size s deep
  refine (ensures_memoryGasCost size).bind fun gas s' held => ?_
  refine (ensures_forwardGas env gas (by rw [held.1.stack]; omega)).mono fun _ s'' after => ?_
  exact ⟨held.1.trans after, held.2⟩

variable {n : Nat} {old : GasFunc B}

/-- The price of a cold call limits the memory as the price before does. -/
theorem memoryGasSafe_callVariant (safe : MemoryGasSafe n old) (deep : 2 ≤ n)
    : MemoryGasSafe n (makeCallVariantGasCallEIP2929 old) := by
  intro contract size s enough
  have safe (gas : UInt64) (m : Machine B) :=
    safe contract size { s with gas := gas, machine := m } enough
  refine then_back (by omega) fun _ _ => (simple_warmAddress _).calm.andThen fun warm m => ?_
  split
  · exact (safe s.gas m).mono fun _ s' held => ⟨⟨held.1.stack, held.1.store⟩, held.2⟩
  · refine .seq (ensures_useGas fun paid gas => .ite (fun _ => ?_) fun _ => trivial)
    refine (safe gas m).bind fun cost s' held => ?_
    refine .seq (ensures_returnGas fun gas m => ?_)
    exact (calm_gasSum _ _).ensures fun _ _ => ⟨⟨held.1.stack, held.1.store⟩, held.2⟩

theorem memoryGasSafe_of_callGas {warm : Bool} {gas : GasFunc B}
    (safe : MemoryGasSafe n old) (deep : 2 ≤ n) (charged : CallGas warm old gas)
    : MemoryGasSafe n gas := by
  rw [charged]
  split
  · exact memoryGasSafe_callVariant safe deep
  · exact safe

end Gas

end GoBinacoin.Vm
