import GoBinacoin.Vm.Economy

/-! What gas functions quote: the price of memory, and the gas that a call forwards. -/

namespace GoBinacoin.Vm

open Program State

variable {B : Backend}

/-- The price of a number of words. -/
def memoryFee (words : Nat) : Nat := words * 3 + words * words / 512

theorem memoryFee_mono {a b : Nat} (le : a ≤ b) : memoryFee a ≤ memoryFee b := by
  have squares : a * a ≤ b * b := Nat.mul_le_mul le le
  have quotients := Nat.div_le_div_right (c := 512) squares
  unfold memoryFee
  omega

/-- The memory was paid for, as far as the last price goes. -/
def Priced (m : Memory) : Prop := m.lastGasCost.toNat ≤ memoryFee (m.store.length / 32)

/-- The price may be the one of the size that was asked for. -/
structure Repriced (size : UInt64) (m m' : Memory) : Prop where
  store : m'.store = m.store
  price : m'.lastGasCost = m.lastGasCost ∨ m'.lastGasCost.toNat ≤ memoryFee (size.toNat / 32)

theorem Repriced.refl (size : UInt64) (m : Memory) : Repriced size m m := ⟨rfl, .inl rfl⟩

variable {m m' : Memory} {size amount : UInt64} {Q : Unit → Scope B → Prop}

theorem Priced.grown (priced : Priced m)
    (grows : m.store.length ≤ m'.store.length) (price : m'.lastGasCost = m.lastGasCost)
    : Priced m' := by
  unfold Priced at *
  rw [price]
  exact priced.trans (memoryFee_mono (Nat.div_le_div_right grows))

/-- The memory has the size that was paid for. -/
theorem Repriced.resize (repriced : Repriced size m m')
    (priced : Priced m) (bounded : Bounded m') (small : size ≤ maxMemory)
    : Priced (m'.resize size) := by
  have length := (Memory.resize_length bounded small).1
  have price : (m'.resize size).lastGasCost = m'.lastGasCost := by
    unfold Memory.resize
    split
    · rfl
    · rfl
  unfold Priced at *
  rw [length, price, repriced.store]
  rcases repriced.price with same | atMost
  · rw [same]
    exact priced.trans (memoryFee_mono (Nat.div_le_div_right (Nat.le_max_left _ _)))
  · exact atMost.trans (memoryFee_mono (Nat.div_le_div_right (Nat.le_max_right _ _)))

/-- Whole words are not rounded. -/
theorem toWordSize_exact (words : 32 ∣ size.toNat) (small : size ≤ maxMemory)
    : (toWordSize size).toNat = size.toNat / 32 := by
  have small : size.toNat ≤ 0x1FFFFFFFE0 := UInt64.le_iff_toNat_le.mp small
  unfold toWordSize
  rw [if_neg]
  · have sum : (size + 31).toNat = size.toNat + 31 := by
      rw [UInt64.toNat_add]
      show (size.toNat + 31) % _ = _
      omega
    rw [UInt64.toNat_div, sum]
    show (size.toNat + 31) / 32 = _
    omega
  · rw [gt_iff_lt, UInt64.lt_iff_toNat_lt, Nat.not_lt]
    exact small.trans (by decide)

/-- The fee of the memory does not overflow. -/
theorem newTotalFee_exact {words : UInt64} (small : words.toNat ≤ 0xFFFFFFFF)
    : (words * memoryGas + words * words / quadCoeffDiv).toNat = memoryFee words.toNat
      ∧ memoryFee words.toNat ≤ 2 ^ 56 := by
  have square : words.toNat * words.toNat ≤ 0xFFFFFFFF * 0xFFFFFFFF := Nat.mul_le_mul small small
  have quotient : words.toNat * words.toNat / 512 ≤ 2 ^ 55 :=
    (Nat.div_le_div_right square).trans (by decide)
  have bound : memoryFee words.toNat ≤ 2 ^ 56 := by
    unfold memoryFee
    omega
  refine ⟨?_, bound⟩
  have linear : (words * memoryGas).toNat = words.toNat * 3 := by
    rw [UInt64.toNat_mul]
    show words.toNat * 3 % _ = _
    omega
  have quadratic : (words * words / quadCoeffDiv).toNat = words.toNat * words.toNat / 512 := by
    rw [UInt64.toNat_div, UInt64.toNat_mul, Nat.mod_eq_of_lt (by omega)]
    rfl
  rw [UInt64.toNat_add, linear, quadratic]
  exact Nat.mod_eq_of_lt (by unfold memoryFee at bound; omega)

/-! Quotes. -/

/-- Code that stopped has at most the gas it started with. -/
def EndedCode (n : Nat) (s : Scope B) (e : Stop) (s' : Scope B) : Prop :=
  s'.gas.toNat ≤ s.gas.toNat ∧ Ended n s.machine e s'.machine

/-- What a gas function leaves of a scope. -/
structure Quoted (size : UInt64) (s s' : Scope B) : Prop where
  gas : s'.gas = s.gas
  stack : s'.stack = s.stack
  mem : Repriced size s.mem s'.mem
  machine : Returned 0 s.machine s'.machine

/-- A gas function quotes a price: it uses no gas, and prices the memory at most once. -/
def Quotes (gas : GasFunc B) (P : List Word → UInt64 → Machine B → Prop) : Prop :=
  ∀ contract size s, Priced s.mem → Bounded s.mem → 32 ∣ size.toNat
    → Ensures (EndedCode 0 s) (gas contract size) s fun cost s' =>
        Quoted size s s' ∧ P s.stack cost s'.machine

theorem Quotes.mono {gas : GasFunc B} {P Q : List Word → UInt64 → Machine B → Prop}
    (quotes : Quotes gas P) (weaker : ∀ stack cost m, P stack cost m → Q stack cost m)
    : Quotes gas Q :=
  fun contract size s priced bounded words =>
    (quotes contract size s priced bounded words).mono fun _ _ quoted =>
      ⟨quoted.1, weaker _ _ _ quoted.2⟩

variable {allowed : Stop → Scope B → Prop} {s : Scope B}

theorem ensures_onModify {change : Machine B → Machine B}
    : Ensures allowed (onMachine (Prog.modify change)) s Q
      ↔ Q () { s with machine := change s.machine } :=
  Iff.rfl

theorem ensures_machineThen {α β : Type}
    {inside : Stop → Machine B → Prop} {p : Evm B α} {R : α → Machine B → Prop}
    {f : α → Code B β} {Q : β → Scope B → Prop} (inner : Ensures inside p s.machine R)
    (fails : ∀ e m, inside e m → allowed e { s with machine := m })
    (next : ∀ a m, R a m → Ensures allowed (f a) { s with machine := m } Q)
    : Ensures allowed (onMachine p >>= f) s Q := by
  refine .seq (.of_outcome (fun a run => ?_) fun e run => ?_)
  · exact next a _ (inner.returned (Prod.ext run rfl))
  · exact fails e _ (inner.stopped (Prod.ext run rfl))

theorem ensures_pay {Q : Bool → Scope B → Prop} (short : s.gas.toNat < amount.toNat → Q false s)
    (paid : amount.toNat ≤ s.gas.toNat → Q true { s with gas := s.gas - amount })
    : Ensures allowed (useGas amount) s Q := by
  unfold Ensures After useGas
  split
  · rename_i few
    exact short (UInt64.lt_iff_toNat_lt.mp few)
  · rename_i enough
    exact paid (UInt64.le_iff_toNat_le.mp (UInt64.not_lt.mp enough))

theorem ensures_returnGas_iff
    : Ensures allowed (returnGas amount) s Q
      ↔ Q () { s with gas := s.gas + amount, machine := s.machine.note (.gasSum s.gas amount) } :=
  Iff.rfl

theorem ensures_onGasSum {x y : UInt64} {Q : UInt64 → Scope B → Prop}
    : Ensures allowed (onMachine (gasSum x y)) s Q
      ↔ Q (x + y) { s with machine := s.machine.note (.gasSum x y) } :=
  Iff.rfl

variable {α : Type} {s' : Scope B}

section Quoted

variable {β : Type} {Q : β → Scope B → Prop}

theorem Quoted.refl (size : UInt64) (s : Scope B) : Quoted size s s :=
  ⟨rfl, rfl, .refl _ _, .refl _⟩

section

variable (quoted : Quoted size s s')

include quoted

theorem Quoted.stop {e : Stop} (fueled : e ≠ .panic .outOfFuel) : EndedCode 0 s e s' :=
  ⟨(congrArg UInt64.toNat quoted.gas).le, quoted.machine.stopped fueled⟩

theorem Quoted.moved {m : Machine B} (returned : Returned 0 s'.machine m)
    : Quoted size s { s' with machine := m } :=
  ⟨quoted.gas, quoted.stack, quoted.mem, quoted.machine.trans returned⟩

/-- A word of the stack is read. -/
theorem Quoted.back {n : Nat} {f : Word → Code B β}
    (next : ∀ x, s.stack[n]? = some x → Ensures (EndedCode 0 s) (f x) s' Q)
    : Ensures (EndedCode 0 s) (Vm.back n >>= f) s' Q := by
  unfold Vm.back
  rw [bind_assoc]
  refine .get ?_
  rw [quoted.stack]
  split
  · rename_i x found
    exact next x found
  · exact quoted.stop (by decide)

variable {n : Option UInt64} {f : UInt64 → Code B β} {p : Evm B α}

theorem Quoted.check {R : UInt64 → Scope B → Prop} (holds : ∀ x, n = some x → R x s')
    : Ensures (EndedCode 0 s) (checked n) s' R := by
  cases n with
  | none => exact quoted.stop (by decide)
  | some x => exact holds x rfl

theorem Quoted.checked (next : ∀ x, n = some x → Ensures (EndedCode 0 s) (f x) s' Q)
    : Ensures (EndedCode 0 s) (Vm.checked n >>= f) s' Q :=
  .seq (quoted.check next)

theorem Quoted.run {p : Evm B β} {R : β → Prop}
    (idle : Ensures (Ended 0 s'.machine) p s'.machine fun a m => R a ∧ Returned 0 s'.machine m)
    (holds : ∀ a m, R a → Quoted size s { s' with machine := m } → Q a { s' with machine := m })
    : Ensures (EndedCode 0 s) (onMachine p) s' Q := by
  refine .of_outcome (fun a run => ?_) fun e run => ?_
  · obtain ⟨value, returned⟩ := idle.returned (Prod.ext run rfl)
    exact holds a _ value (quoted.moved returned)
  · have ended := idle.stopped (Prod.ext run rfl)
    exact ⟨(congrArg UInt64.toNat quoted.gas).le, quoted.machine.ended ended⟩

theorem Quoted.machineThen {R : α → Prop} {f : α → Code B β}
    (idle : Ensures (Ended 0 s'.machine) p s'.machine fun a m => R a ∧ Returned 0 s'.machine m)
    (next : ∀ a m, R a → Quoted size s { s' with machine := m }
      → Ensures (EndedCode 0 s) (f a) { s' with machine := m } Q)
    : Ensures (EndedCode 0 s) (onMachine p >>= f) s' Q :=
  .seq (quoted.run idle next)

theorem Quoted.idleThen {f : α → Code B β} (idle : Idle p)
    (next : ∀ a m, Quoted size s { s' with machine := m }
      → Ensures (EndedCode 0 s) (f a) { s' with machine := m } Q)
    : Ensures (EndedCode 0 s) (onMachine p >>= f) s' Q :=
  quoted.machineThen (R := fun _ => True)
    ((idle s'.machine).mono fun _ _ returned => ⟨trivial, returned⟩) fun a m _ => next a m

/-- The memory is paid for. -/
theorem Quoted.memory (same : s'.mem = s.mem) (priced : Priced s.mem) (bounded : Bounded s.mem)
    (words : 32 ∣ size.toNat)
    (next : ∀ cost mem, cost.toNat ≤ 2 ^ 56 → Quoted size s { s' with mem := mem }
      → Ensures (EndedCode 0 s) (f cost) { s' with mem := mem } Q)
    : Ensures (EndedCode 0 s) (memoryGasCost size >>= f) s' Q := by
  have free := next 0 s'.mem (Nat.zero_le _) quoted
  refine .seq ?_
  refine .ite (fun _ => free) fun _ => .ite (fun _ => quoted.stop (by decide)) fun small => ?_
  refine .get (.ite (fun grows => ?_) fun _ => free)
  have small := UInt64.not_lt.mp small
  have exactWords := toWordSize_exact words small
  have few : (toWordSize size).toNat ≤ 0xFFFFFFFF := by
    have : size.toNat ≤ 0x1FFFFFFFE0 := UInt64.le_iff_toNat_le.mp small
    omega
  obtain ⟨fee, bound⟩ := newTotalFee_exact few
  have product : (toWordSize size * 32).toNat = (toWordSize size).toNat * 32 := by
    rw [UInt64.toNat_mul]
    show (toWordSize size).toNat * 32 % _ = _
    omega
  -- The last price is the one of a smaller memory.
  have below : s.mem.lastGasCost.toNat ≤ memoryFee (toWordSize size).toNat := by
    rw [gt_iff_lt, UInt64.lt_iff_toNat_lt, same, bounded.len, product] at grows
    exact priced.trans (memoryFee_mono (by omega))
  refine .seq (ensures_modify.mpr (next _ _ ?_ ?_))
  · rw [same, UInt64.toNat_sub_of_le _ _ (UInt64.le_iff_toNat_le.mpr (fee ▸ below)), fee]
    omega
  · refine ⟨quoted.gas, quoted.stack, ⟨quoted.mem.store, .inr ?_⟩, quoted.machine⟩
    show (toWordSize size * memoryGas + toWordSize size * toWordSize size / quadCoeffDiv).toNat ≤ _
    rw [fee, exactWords]

end

end Quoted

/-! Memory, data and storage. -/

/-- Any price. -/
abbrev AnyPrice : List Word → UInt64 → Machine B → Prop := fun _ _ _ => True

/-- A price that is not zero. -/
abbrev RealPrice : List Word → UInt64 → Machine B → Prop := fun _ cost _ => 0 < cost.toNat

theorem safeAdd_some {x y z : UInt64} (run : safeAdd x y = some z)
    : z.toNat = x.toNat + y.toNat := by
  unfold safeAdd at run
  split at run
  · rename_i noWrap
    rw [← Option.some.inj run, UInt64.toNat_add]
    exact Nat.mod_eq_of_lt noWrap
  · cases run

/-- The results of a program of the machine. -/
def Pays (R : UInt64 → Prop) (p : Evm B UInt64) : Prop := ∀ m, Yields p m fun cost _ => R cost

section Pays

variable {R : UInt64 → Prop}

theorem Pays.pure {cost : UInt64} (holds : R cost) : Pays R (Pure.pure cost : Evm B UInt64) :=
  fun _ => holds

theorem Pays.bind {p : Evm B α} {f : α → Evm B UInt64} (next : ∀ a, Pays R (f a))
    : Pays R (p >>= f) := by
  intro m
  refine Prog.Ensures.bind (R := fun _ _ => True) ?_ fun a m' _ => next a m'
  exact .of_outcome (fun _ _ => trivial) fun _ _ => trivial

theorem Pays.ite {c : Prop} [Decidable c] {p q : Evm B UInt64} (yes : Pays R p) (no : Pays R q)
    : Pays R (if c then p else q) :=
  fun m => .ite (fun _ => yes m) fun _ => no m

theorem Idle.paying {p : Evm B UInt64} (idle : Idle p) (pays : Pays R p) (m : Machine B)
    : Ensures (Ended 0 m) p m fun cost m' => R cost ∧ Returned 0 m m' := by
  refine .of_outcome (fun cost run => ?_) fun e run => ?_
  · exact ⟨(pays m).returned (Prod.ext run rfl), (idle m).returned (Prod.ext run rfl)⟩
  · exact (idle m).stopped (Prod.ext run rfl)

/-- A store costs one of four prices. -/
theorem pays_charge {p : NetMetering} (noop : R p.noop) (init : R p.init) (clean : R p.clean)
    (dirty : R p.dirty) (addr : Address) (key current value : Hash)
    : Pays R (p.charge addr key current value : Evm B UInt64) := by
  unfold NetMetering.charge
  refine .ite (.pure noop) (.bind fun original => .ite (.ite (.pure init) ?_) ?_)
  · split
    · exact .bind fun _ => .pure clean
    · exact .pure clean
  · extract_lets last rest
    have tail (r : Unit) : Pays R (rest r : Evm B UInt64) :=
      .ite (.ite (.bind fun _ => .pure dirty) (.bind fun _ => .pure dirty)) (.pure dirty)
    exact .ite (.ite (.bind tail) (.ite (.bind tail) (tail ()))) (tail ())

theorem pays_singCanary (addr : Address) (db : StateDB B)
    : Pays R (singCanary addr db : Evm B UInt64) :=
  fun _ => trivial

theorem pays_coldSlotCost (free : R 0) (cold : R coldSloadCostEIP2929) (addr : Address)
    (slot : Hash)
    : Pays R (coldSlotCost addr slot : Evm B UInt64) :=
  .bind fun _ => .bind fun _ => .ite (.pure free) (.bind fun _ =>
    .ite (.pure cold) (pays_singCanary addr _))

/-- A new account costs its price or nothing. -/
theorem pays_newAccountGas (free : R 0) (paid : R callNewAccountGas) (env : Env)
    (transfersValue : Bool) (address : Address)
    : Pays R (newAccountGas env transfersValue address : Evm B UInt64) := by
  have either (c : Bool)
      : Pays R (Pure.pure (if c then callNewAccountGas else 0) : Evm B UInt64) := by
    cases c with
    | true => exact .pure paid
    | false => exact .pure free
  refine .ite (.ite (.bind fun empty => either empty) (.pure free)) (.bind fun found => ?_)
  cases found with
  | true => exact .pure free
  | false => exact .pure paid

end Pays

section Gas

theorem quotes_pureMemoryGascost : Quotes (pureMemoryGascost : GasFunc B) AnyPrice := by
  intro contract size s priced bounded words
  show Ensures _ (memoryGasCost size) s _
  rw [← bind_pure (memoryGasCost size)]
  exact (Quoted.refl size s).memory rfl priced bounded words fun _ _ _ quoted => ⟨quoted, trivial⟩

theorem quotes_perWordGas (price : UInt64) (stackpos : Nat)
    : Quotes (perWordGas price stackpos : GasFunc B) AnyPrice := by
  intro contract size s priced bounded words
  refine (Quoted.refl size s).memory rfl priced bounded words fun gas mem _ quoted => ?_
  refine quoted.back fun length _ => quoted.checked fun _ _ => quoted.checked fun _ _ => ?_
  exact quoted.check fun _ _ => ⟨quoted, trivial⟩

/-- The price of a log grows with its topics and its data. -/
theorem quotes_makeGasLog (n : Nat) : Quotes (makeGasLog n : GasFunc B) RealPrice := by
  intro contract size s priced bounded words
  have start := Quoted.refl size s
  refine start.back fun _ _ => start.checked fun _ _ => ?_
  refine start.memory rfl priced bounded words fun gas mem _ quoted => ?_
  refine quoted.checked fun logged sum => quoted.checked fun topics sum' => ?_
  refine quoted.checked fun _ _ => quoted.check fun cost sum'' => ⟨quoted, ?_⟩
  have base : logGas.toNat = 375 := rfl
  have first := safeAdd_some sum
  have second := safeAdd_some sum'
  have third := safeAdd_some sum''
  omega

theorem quotes_gasExp (price : UInt64) : Quotes (gasExp price : GasFunc B) RealPrice := by
  intro contract size s _ _ _
  have start := Quoted.refl size s
  refine start.back fun _ _ => start.check fun cost sum => ⟨start, ?_⟩
  have base : expGas.toNat = 10 := rfl
  have total := safeAdd_some sum
  omega

/-- A slot is cold or warm. -/
theorem quotes_gasSLoadEIP2929 : Quotes (gasSLoadEIP2929 : GasFunc B) RealPrice := by
  intro contract size s _ _ _
  have start := Quoted.refl size s
  refine start.back fun slot _ => ?_
  have warmPrice : 0 < warmStorageReadCostEIP2929.toNat := by decide
  have coldPrice : 0 < coldSloadCostEIP2929.toNat := by decide
  refine start.idleThen (simple_slotInAccessList _ _).idle fun present m read => ?_
  refine .ite (fun _ => ⟨read, warmPrice⟩) fun _ => ?_
  exact read.idleThen (idle_perform _) fun _ m' warmed => ⟨warmed, coldPrice⟩

theorem quotes_accountCheck : Quotes (gasEip2929AccountCheck : GasFunc B) AnyPrice := by
  intro contract size s _ _ _
  have start := Quoted.refl size s
  refine start.back fun addr _ => ?_
  exact start.idleThen (simple_warmAddress _).idle fun _ _ warmed => ⟨warmed, trivial⟩

/-- An account is cold or warm. -/
theorem quotes_gasExtCodeCopyEIP2929 : Quotes (gasExtCodeCopyEIP2929 : GasFunc B) AnyPrice := by
  intro contract size s priced bounded words
  refine (quotes_perWordGas copyGas 3 contract size s priced bounded words).bind
    fun gas s' quoted => quoted.1.back fun addr _ => ?_
  refine quoted.1.idleThen (simple_warmAddress _).idle fun warm m warmed => ?_
  split
  · exact ⟨warmed, trivial⟩
  · generalize safeAdd gas coldCost = total
    exact warmed.check fun _ _ => ⟨warmed, trivial⟩

/-- A store has a real price under the first rules and the net ones. -/
theorem quotes_gasSStore (env : Env) : Quotes (gasSStore env : GasFunc B) RealPrice := by
  intro contract size s _ _ _
  have start := Quoted.refl size s
  refine start.back fun y _ => start.back fun x _ => ?_
  have setPrice : 0 < sstoreSetGas.toNat := by decide
  have clearPrice : 0 < sstoreClearGas.toNat := by decide
  have resetPrice : 0 < sstoreResetGas.toNat := by decide
  refine start.idleThen (idle_query _ _) fun current m read => .ite (fun _ => ?_) fun _ => ?_
  · refine .ite (fun _ => ⟨read, setPrice⟩) fun _ => .ite (fun _ => ?_) fun _ =>
      ⟨read, resetPrice⟩
    exact read.idleThen (idle_perform _) fun _ _ refunded => ⟨refunded, clearPrice⟩
  · refine read.run (R := fun cost => 0 < cost.toNat) ?_ fun _ _ paid charged => ⟨charged, paid⟩
    exact (simple_charge _ _ _ _ _).idle.paying
      (pays_charge (by decide) (by decide) (by decide) (by decide) _ _ _ _) _

/-- So it has under EIP-2200. -/
theorem quotes_gasSStoreEIP2200 : Quotes (gasSStoreEIP2200 : GasFunc B) RealPrice := by
  intro contract size s _ _ _
  have start := Quoted.refl size s
  refine .get (.ite (fun _ => start.stop (by decide)) fun _ => ?_)
  refine start.back fun y _ => start.back fun x _ => ?_
  refine start.idleThen (idle_query _ _) fun current m read => ?_
  refine read.run (R := fun cost => 0 < cost.toNat) ?_ fun _ _ paid charged => ⟨charged, paid⟩
  exact (simple_charge _ _ _ _ _).idle.paying
    (pays_charge (by decide) (by decide) (by decide) (by decide) _ _ _ _) _

theorem eip2929_real {cost : UInt64} (slot : cost = 0 ∨ cost = coldSloadCostEIP2929)
    (clearingRefund : UInt64)
    : 0 < (eip2929 cost clearingRefund).noop.toNat
      ∧ 0 < (eip2929 cost clearingRefund).init.toNat
      ∧ 0 < (eip2929 cost clearingRefund).clean.toNat
      ∧ 0 < (eip2929 cost clearingRefund).dirty.toNat := by
  unfold eip2929
  dsimp only
  rcases slot with rfl | rfl
  · decide
  · decide

/-- So it has since the access lists. -/
theorem quotes_makeGasSStoreFunc (clearingRefund : UInt64)
    : Quotes (makeGasSStoreFunc clearingRefund : GasFunc B) RealPrice := by
  intro contract size s _ _ _
  have start := Quoted.refl size s
  refine .get (.ite (fun _ => start.stop (by decide)) fun _ => ?_)
  refine start.back fun y _ => start.back fun x _ => ?_
  refine start.idleThen (idle_query _ _) fun current m read => ?_
  refine read.machineThen (R := fun cost => cost = 0 ∨ cost = coldSloadCostEIP2929)
    ((simple_coldSlotCost _ _).idle.paying (pays_coldSlotCost (.inl rfl) (.inr rfl) _ _) _)
    fun cost m slot warmed => ?_
  refine warmed.run (R := fun cost => 0 < cost.toNat) ?_ fun _ _ paid charged => ⟨charged, paid⟩
  obtain ⟨noop, init, clean, dirty⟩ := eip2929_real slot clearingRefund
  exact (simple_charge _ _ _ _ _).idle.paying
    (pays_charge (R := fun cost => 0 < cost.toNat) noop init clean dirty _ _ _ _) _

/-- A destruction may be free. -/
theorem quotes_gasSelfdestruct (env : Env) : Quotes (gasSelfdestruct env : GasFunc B) AnyPrice := by
  intro contract size s _ _ _
  have start := Quoted.refl size s
  have price : Ensures (EndedCode 0 s) (selfdestructPrice env contract.self) s
      fun _ s' => Quoted size s s' := by
    refine .ite (fun _ => start.back fun address _ => ?_) fun _ => start
    refine start.idleThen (Idle.ite (simple_selfdestructNewAccount _ _).idle ?_)
      fun _ _ read => read
    exact .bind (idle_query _ _) fun _ => .pure _
  exact price.bind fun gas s' quoted =>
    quoted.idleThen (simple_refundSelfdestruct _).idle fun _ _ refunded => ⟨refunded, trivial⟩

/-- So it may be since the access lists. -/
theorem quotes_makeSelfdestructGasFn (refundsEnabled : Bool)
    : Quotes (makeSelfdestructGasFn refundsEnabled : GasFunc B) AnyPrice := by
  intro contract size s _ _ _
  have start := Quoted.refl size s
  refine start.back fun address _ => ?_
  refine start.idleThen (simple_warmAddress _).idle fun _ _ warmed => ?_
  refine warmed.idleThen (simple_selfdestructNewAccount _ _).idle fun _ _ read => ?_
  rcases refundsEnabled with _ | _
  · exact ⟨read, trivial⟩
  · exact read.idleThen (simple_refundSelfdestruct _).idle fun _ _ refunded => ⟨refunded, trivial⟩

end Gas

/-! Calls. -/

/-- The price of the value of a call, which is the third word of its stack. -/
def valuePrice (withValue : Bool) (stack : List Word) : Nat :=
  if withValue = true ∧ stack[2]? ≠ some 0 then callValueTransferGas.toNat else 0

/-- The price of a call covers the gas that it forwards and the value that it transfers. -/
def Forwards (withValue : Bool) (stack : List Word) (cost : UInt64) (m : Machine B) : Prop :=
  m.callGasTemp.toNat + valuePrice withValue stack ≤ cost.toNat

/-- Since EIP-150 there is room for the price of a cold account. -/
def ForwardsCold (env : Env) (withValue : Bool) (stack : List Word) (cost : UInt64)
    (m : Machine B)
    : Prop :=
  Forwards withValue stack cost m ∧ (env.rules.isEIP150 = true → cost.toNat + 2 ^ 57 ≤ 2 ^ 64)

section Calls

variable {env : Env}

/-- The 63/64 rule leaves room even where the available gas wrapped. -/
theorem callGas_bound {available base gas : UInt64} {callCost : Word}
    (run : callGas true available base callCost = some gas)
    : gas.toNat ≤ 2 ^ 64 - 2 ^ 58 := by
  unfold callGas at run
  extract_lets rest most at run
  have below : most.toNat ≤ 2 ^ 64 - 2 ^ 58 := by
    have quotient : (rest / 64).toNat = rest.toNat / 64 := UInt64.toNat_div rest 64
    have le : rest / 64 ≤ rest := by
      rw [UInt64.le_iff_toNat_le, quotient]
      omega
    have := rest.toNat_lt
    rw [UInt64.toNat_sub_of_le _ _ le, quotient]
    omega
  split at run
  · exact Option.some.inj run ▸ below
  · rename_i asked
    obtain ⟨-, rfl⟩ := uint64WithOverflow_some run
    simp only [Bool.true_and, Bool.or_eq_true, decide_eq_true_eq, not_or, UInt64.not_lt] at asked
    exact (UInt64.le_iff_toNat_le.mp asked.2).trans below

/-- The gas that is forwarded is part of the cost. -/
theorem Quoted.forward {base : UInt64} (quoted : Quoted size s s') (small : base.toNat ≤ 2 ^ 57)
    : Ensures (EndedCode 0 s) (forwardGas env base) s' fun cost s'' =>
        Quoted size s s''
        ∧ cost.toNat = base.toNat + s''.machine.callGasTemp.toNat
        ∧ (env.rules.isEIP150 = true → cost.toNat + 2 ^ 57 ≤ 2 ^ 64) := by
  refine .get ?_
  refine quoted.back fun callCost _ => quoted.checked fun temp forwarded => ?_
  have noted : Quoted size s { s' with machine := { s'.machine with callGasTemp := temp } } :=
    quoted.moved ⟨⟨le_rfl, [], rfl, nofun⟩, rfl, rfl⟩
  refine .seq (ensures_onModify.mpr (noted.check fun cost sum => ?_))
  have total := safeAdd_some sum
  refine ⟨noted, total, fun eip150 => ?_⟩
  rw [eip150] at forwarded
  have bound := callGas_bound forwarded
  omega

theorem quotes_gasDelegateCall
    : Quotes (gasDelegateCall env : GasFunc B) (ForwardsCold env false) := by
  intro contract size s priced bounded words
  refine (Quoted.refl size s).memory rfl priced bounded words fun gas mem small quoted => ?_
  refine (quoted.forward (by omega)).mono fun cost s' after => ⟨after.1, ?_, after.2.2⟩
  have total := after.2.1
  unfold Forwards valuePrice
  rw [if_neg (by nofun)]
  omega

theorem valuePrice_of_found {stack : List Word} {value : Word} (found : stack[2]? = some value)
    : (if value ≠ 0 then callValueTransferGas else 0).toNat = valuePrice true stack := by
  unfold valuePrice
  rw [found]
  by_cases zero : value = 0
  · rw [if_neg (not_not.mpr zero), if_neg (fun priced => priced.2 (congrArg some zero))]
    rfl
  · rw [if_pos zero, if_pos ⟨rfl, fun same => zero (Option.some.inj same)⟩]

theorem valuePrice_le (withValue : Bool) (stack : List Word)
    : valuePrice withValue stack ≤ 9000 := by
  unfold valuePrice
  split
  · exact le_rfl
  · exact Nat.zero_le _

/-- A call of foreign code forwards gas. -/
theorem quotes_gasCallCode : Quotes (gasCallCode env : GasFunc B) (ForwardsCold env true) := by
  intro contract size s priced bounded words
  refine (Quoted.refl size s).memory rfl priced bounded words fun gas mem small quoted => ?_
  refine quoted.back fun value found => quoted.checked fun base sum => ?_
  have base := safeAdd_some sum
  rw [valuePrice_of_found found] at base
  have few := valuePrice_le true s.stack
  refine (quoted.forward (by omega)).mono fun cost s' after => ⟨after.1, ?_, after.2.2⟩
  have total := after.2.1
  unfold Forwards
  omega

/-- The price of a call before its memory: a new account and a value. -/
theorem callPrice {account : UInt64} (isPrice : account = 0 ∨ account = callNewAccountGas)
    (value : Word)
    : (if value ≠ 0 then account + callValueTransferGas else account).toNat
      = account.toNat + (if value ≠ 0 then callValueTransferGas else 0).toNat
      ∧ account.toNat ≤ 25000 := by
  rcases isPrice with rfl | rfl
  · split <;> decide
  · split <;> decide

/-- A call forwards gas. -/
theorem quotes_gasCall : Quotes (gasCall env : GasFunc B) (ForwardsCold env true) := by
  intro contract size s priced bounded words
  have start := Quoted.refl size s
  refine start.back fun value found => start.back fun address _ => ?_
  refine start.machineThen (R := fun gas => gas = 0 ∨ gas = callNewAccountGas)
    ((simple_newAccountGas _ _ _).idle.paying (pays_newAccountGas (.inl rfl) (.inr rfl) _ _ _) _)
    fun account m isPrice read => ?_
  refine read.memory rfl priced bounded words fun gas mem small quoted => ?_
  refine quoted.checked fun base sum => ?_
  have base := safeAdd_some sum
  have few := valuePrice_le true s.stack
  have price := callPrice isPrice value
  rw [valuePrice_of_found found] at price
  refine (quoted.forward (by omega)).mono fun cost s' after => ⟨after.1, ?_, after.2.2⟩
  have total := after.2.1
  unfold Forwards
  omega

theorem toNat_add_exact {x y : UInt64} (exact : x.toNat + y.toNat < 2 ^ 64)
    : (x + y).toNat = x.toNat + y.toNat := by
  rw [UInt64.toNat_add]
  exact Nat.mod_eq_of_lt exact

variable {withValue : Bool}

/-- The price of a cold account is given back and added to the result. -/
theorem quoted_cold {m : Machine B} {cost : UInt64}
    (warmed : Quoted size s { s with machine := m }) (enough : coldCost.toNat ≤ s.gas.toNat)
    (quoted : Quoted size { s with gas := s.gas - coldCost, machine := m } s')
    (forwards : Forwards withValue s.stack cost s'.machine) (room : cost.toNat + 2 ^ 57 ≤ 2 ^ 64)
    : Ensures (EndedCode 0 s) (do
        returnGas coldCost
        onMachine (gasSum cost coldCost)) s' fun cost s'' =>
          Quoted size s s'' ∧ Forwards withValue s.stack cost s''.machine := by
  have cold : coldCost.toNat = 2500 := rfl
  have gas : s'.gas.toNat = s.gas.toNat - 2500 := by
    rw [quoted.gas]
    exact UInt64.toNat_sub_of_le _ _ (UInt64.le_iff_toNat_le.mpr enough)
  have exactGas : s'.gas.toNat + coldCost.toNat < 2 ^ 64 := by
    have := s.gas.toNat_lt
    omega
  have exactCost : cost.toNat + coldCost.toNat < 2 ^ 64 := by omega
  refine .seq (ensures_returnGas_iff.mpr (ensures_onGasSum.mpr ⟨?_, ?_⟩))
  · have back : s'.gas + coldCost = s.gas :=
      UInt64.toNat_inj.mp (by rw [toNat_add_exact exactGas]; omega)
    have noted := (Returned.of_note (m := s'.machine) (e := .gasSum s'.gas coldCost) exactGas).trans
      (Returned.of_note (e := .gasSum cost coldCost) exactCost)
    exact ⟨back, quoted.stack, quoted.mem, (warmed.machine.trans quoted.machine).trans noted⟩
  · unfold Forwards at *
    rw [toNat_add_exact exactCost]
    exact forwards.trans (Nat.le_add_right _ _)

/-- The price of a cold account is taken before the 63/64 rule applies. -/
theorem quotes_callVariant {old : GasFunc B}
    (eip150 : env.rules.isEIP150 = true) (quotes : Quotes old (ForwardsCold env withValue))
    : Quotes (makeCallVariantGasCallEIP2929 old) (Forwards withValue) := by
  intro contract size s priced bounded words
  have start := Quoted.refl size s
  refine start.back fun addr _ => ?_
  refine start.idleThen (simple_warmAddress _).idle fun warm m warmed => ?_
  have quotes (gas : UInt64) := quotes contract size { s with gas := gas, machine := m }
    priced bounded words
  split
  · refine .of_outcome (fun cost run => ?_) fun e run => ?_
    · obtain ⟨quoted, forwards, _⟩ := (quotes s.gas).returned (Prod.ext run rfl)
      exact ⟨⟨quoted.gas, quoted.stack, quoted.mem, warmed.machine.trans quoted.machine⟩, forwards⟩
    · have ended := (quotes s.gas).stopped (Prod.ext run rfl)
      exact ⟨ended.1, warmed.machine.ended ended.2⟩
  · refine .seq (ensures_pay (fun _ => warmed.stop (by decide)) fun enough => ?_)
    refine .seq (.of_outcome (fun cost run => ?_) fun e run => ?_)
    · obtain ⟨quoted, forwards, room⟩ := (quotes (s.gas - coldCost)).returned (Prod.ext run rfl)
      exact quoted_cold warmed enough quoted forwards (room eip150)
    · have ended := (quotes (s.gas - coldCost)).stopped (Prod.ext run rfl)
      have less : (s.gas - coldCost).toNat ≤ s.gas.toNat := by
        rw [UInt64.toNat_sub_of_le _ _ (UInt64.le_iff_toNat_le.mpr enough)]
        exact Nat.sub_le _ _
      exact ⟨ended.1.trans less, warmed.machine.ended ended.2⟩

/-- A cold account adds to the price of a call. -/
theorem CallGas.quotes {warm : Bool} {old gas : GasFunc B}
    (charged : CallGas warm old gas) (eip150 : warm = true → env.rules.isEIP150 = true)
    (quotes : Quotes old (ForwardsCold env withValue))
    : Quotes gas (Forwards withValue) := by
  rw [charged]
  split
  · rename_i isWarm
    exact quotes_callVariant (eip150 isWarm) quotes
  · exact quotes.mono fun _ _ _ forwards => forwards.1

end Calls

end GoBinacoin.Vm
