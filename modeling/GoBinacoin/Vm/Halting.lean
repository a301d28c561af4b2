import GoBinacoin.Vm.Execution
import GoBinacoin.Vm.Quotes

/-! Runs halt within their gas: what a step pays for, what a frame pays for, and how deep frames
nest.
-/

namespace GoBinacoin.Vm

open Program State

variable {B : Backend}

/-- Code that used no gas and dispatched nothing. -/
structure Worked (s s' : Scope B) : Prop where
  gas : s'.gas = s.gas
  grows : s.mem.store.length ≤ s'.mem.store.length
  price : s'.mem.lastGasCost = s.mem.lastGasCost
  machine : Returned 0 s.machine s'.machine

theorem Worked.refl (s : Scope B) : Worked s s := ⟨rfl, le_rfl, rfl, .refl _⟩

variable {s s' s'' : Scope B} {e : Stop} {env : Env} {store : GasFunc B} {warm : Bool}
  {m : Machine B}

theorem Worked.trans (first : Worked s s') (second : Worked s' s'') : Worked s s'' :=
  ⟨second.gas.trans first.gas, first.grows.trans second.grows, second.price.trans first.price,
    first.machine.trans second.machine⟩

theorem Worked.stopped (worked : Worked s s') (fueled : e ≠ .panic .outOfFuel)
    : EndedCode 0 s e s' :=
  ⟨(congrArg UInt64.toNat worked.gas).le, worked.machine.stopped fueled⟩

theorem Worked.ended {n : Nat} (worked : Worked s s') (ended : EndedCode n s' e s'')
    : EndedCode n s e s'' :=
  ⟨worked.gas ▸ ended.1, (worked.machine.ended ended.2).mono (by omega)⟩

/-- Simple code takes no steps and no gas. -/
theorem SimpleCode.works {α : Type} {p : Code B α} (simple : SimpleCode False p) (s : Scope B)
    : Ensures (EndedCode 0 s) p s fun _ s' => Worked s s' := by
  induction simple generalizing s with
  | pure a => exact .refl s
  | get => exact .refl s
  | bind _ _ first second =>
    refine (first s).bind fun a s' before => ?_
    refine .of_outcome (fun b run => ?_) fun e run => ?_
    · exact before.trans ((second a s').returned (Prod.ext run rfl))
    · exact before.ended ((second a s').stopped (Prod.ext run rfl))
  | stop fueled => exact (Worked.refl s).stopped fueled
  | pop =>
    unfold Ensures After Vm.pop
    split
    · exact ⟨rfl, le_rfl, rfl, .refl _⟩
    · exact (Worked.refl s).stopped (by decide)
  | stack change => exact ⟨rfl, le_rfl, rfl, .refl _⟩
  | pc pc => exact ⟨rfl, le_rfl, rfl, .refl _⟩
  | @memory change extends_ =>
    refine .get (.seq ?_)
    obtain ⟨grown, fueled⟩ := extends_ s.mem
    rcases changed : change s.mem with e | mem
    · exact (Worked.refl s).stopped (fueled e changed)
    · obtain ⟨grows, price⟩ := grown mem changed
      exact ⟨rfl, grows, price, .refl _⟩
  | machine simple =>
    refine .of_outcome (fun a run => ?_) fun e run => ?_
    · exact ⟨rfl, le_rfl, rfl, (simple.idle s.machine).returned (Prod.ext run rfl)⟩
    · exact ⟨le_rfl, (simple.idle s.machine).stopped (Prod.ext run rfl)⟩

/-! Preparation. -/

/-- What the preparation of an operation leaves: its price was paid. -/
structure Prepared (operation : Operation B) (P : List Word → UInt64 → Machine B → Prop)
    (s s' : Scope B)
    : Prop where
  deep : operation.minStack ≤ s'.stack.length
  stack : s'.stack = s.stack
  priced : Priced s'.mem
  machine : Returned 0 s.machine s'.machine
  paid
    : ∃ cost : UInt64,
        s'.gas.toNat + operation.constantGas.toNat + cost.toNat = s.gas.toNat
        ∧ (operation.dynamicGas.isSome = true → P s.stack cost s'.machine)

variable {contract : Contract} {op : OpCode} {operation : Operation B}
  {P : List Word → UInt64 → Machine B → Prop}

section Preparation

theorem stays_stopped (fueled : e ≠ .panic .outOfFuel) : EndedCode 0 s e s :=
  (Worked.refl s).stopped fueled

theorem ensures_checkStack_ended
    : Ensures (EndedCode 0 s) (checkStack operation) s fun _ s' =>
        s' = s ∧ operation.minStack ≤ s.stack.length :=
  .get (.ite (fun _ => stays_stopped nofun) fun deep =>
    .ite (fun _ => stays_stopped nofun) fun _ => ⟨rfl, Nat.not_lt.mp deep⟩)

theorem ensures_checkWrites_ended
    : Ensures (EndedCode 0 s) (checkWrites env op operation) s fun _ s' => s' = s := by
  refine .get (.ite (fun _ => ?_) fun _ => rfl)
  refine .ite (fun _ => stays_stopped nofun) fun _ => .ite (fun _ => ?_) fun _ => rfl
  exact (Quoted.refl 0 s).back fun _ _ => .ite (fun _ => stays_stopped nofun) fun _ => rfl

theorem ensures_chargeGas_paid {amount : UInt64} (ended : EndedCode 0 s (.err .outOfGas) s')
    : Ensures (EndedCode 0 s) (chargeGas amount) s' fun _ s'' =>
        amount.toNat ≤ s'.gas.toNat ∧ s'' = { s' with gas := s'.gas - amount } :=
  .seq (ensures_pay (fun _ => ended) fun enough => ⟨enough, rfl⟩)

/-- The dynamic cost is as quoted. -/
theorem ensures_dynamicCost_quoted (contract : Contract) {size : UInt64}
    (quotes : ∀ gas ∈ operation.dynamicGas, Quotes gas P)
    (priced : Priced s.mem) (bounded : Bounded s.mem) (words : 32 ∣ size.toNat)
    : Ensures (EndedCode 0 s) (dynamicCost operation contract size) s fun cost s' =>
        Quoted size s s' ∧ (operation.dynamicGas.isSome = true → P s.stack cost s'.machine) := by
  unfold dynamicCost
  rcases charges : operation.dynamicGas with _ | gas
  · exact ⟨.refl size s, nofun⟩
  have quoted := quotes gas charges contract size s priced bounded words
  refine .seq (.of_outcome (fun r run => ?_) fun e run => ?_)
  · have run : (gas contract size s).1 = r := Except.ok.inj run
    rcases r with e | cost
    · have ended := quoted.stopped (Prod.ext run rfl)
      cases e with
      | err e => exact ended
      | panic f => exact ended
    · obtain ⟨same, price⟩ := quoted.returned (Prod.ext run rfl)
      exact ⟨same, fun _ => price⟩
  · cases run

/-- The memory asked for is a number of words. -/
theorem requestedMemory_words (sound : Sound operation) (deep : operation.minStack ≤ s.stack.length)
    : Ensures (EndedCode 0 s) (requestedMemory operation) s fun size s' =>
        s' = s ∧ 32 ∣ size.toNat ∧ (operation.memorySize = none → size = 0) := by
  unfold requestedMemory
  rcases asks : operation.memorySize with _ | size
  · exact ⟨rfl, Nat.dvd_zero 32, fun _ => rfl⟩
  obtain ⟨f, sizes⟩ := sound.memory size asks
  have start := Quoted.refl 0 s
  refine .seq (.of_returned (sizes.run s deep) ?_)
  refine start.checked fun x _ => start.check fun words product => ⟨rfl, ?_, nofun⟩
  unfold safeMul at product
  split at product
  · rename_i noWrap
    rw [← Option.some.inj product, UInt64.toNat_mul, Nat.mod_eq_of_lt noWrap]
    exact Nat.dvd_mul_left 32 _
  · cases product

/-- After the preparation the price is paid, and the memory is paid for. -/
theorem ensures_prepare_paid (sound : Sound operation)
    (quotes : ∀ gas ∈ operation.dynamicGas, Quotes gas P) (priced : Priced s.mem)
    (bounded : Bounded s.mem)
    : Ensures (EndedCode 0 s) (prepare env contract op operation) s fun _ s' =>
        Prepared operation P s s' := by
  refine ensures_checkStack_ended.bind fun _ s1 checked => ?_
  obtain ⟨rfl, deep⟩ := checked
  refine ensures_checkWrites_ended.bind fun _ s2 same => ?_
  subst same
  refine (ensures_chargeGas_paid (stays_stopped nofun)).bind fun _ s3 charged => ?_
  obtain ⟨enough, rfl⟩ := charged
  have rest : (s2.gas - operation.constantGas).toNat
      = s2.gas.toNat - operation.constantGas.toNat :=
    UInt64.toNat_sub_of_le _ _ (UInt64.le_iff_toNat_le.mpr enough)
  -- From here on the constant price is gone, also where the operation stops.
  have less {e : Stop} {s' : Scope B}
      (ended : EndedCode 0 { s2 with gas := s2.gas - operation.constantGas } e s')
      : EndedCode 0 s2 e s' :=
    ⟨ended.1.trans (by show (s2.gas - _).toNat ≤ _; omega), ended.2⟩
  have asks := requestedMemory_words (s := { s2 with gas := s2.gas - operation.constantGas })
    sound deep
  refine (asks.weaken fun _ _ => less).bind fun size s4 asked => ?_
  obtain ⟨rfl, words, unasked⟩ := asked
  have quotes := ensures_dynamicCost_quoted contract
    (s := { s2 with gas := s2.gas - operation.constantGas }) quotes priced bounded words
  have covers : Ensures SafeCode (dynamicCost operation contract size)
      { s2 with gas := s2.gas - operation.constantGas } _ :=
    ensures_dynamicCost (s := { s2 with gas := s2.gas - operation.constantGas }) sound deep size
  refine ((quotes.weaken fun _ _ => less).and covers).bind fun cost s5 quoted => ?_
  obtain ⟨⟨same, price⟩, -, small⟩ := quoted
  have gas : s5.gas.toNat = s2.gas.toNat - operation.constantGas.toNat :=
    (congrArg UInt64.toNat same.gas).trans rest
  refine (ensures_chargeGas_paid (less (same.stop nofun))).bind fun _ s6 charged => ?_
  obtain ⟨enough', rfl⟩ := charged
  have rest' : (s5.gas - cost).toNat = s5.gas.toNat - cost.toNat :=
    UInt64.toNat_sub_of_le _ _ (UInt64.le_iff_toNat_le.mpr enough')
  have total : (s5.gas - cost).toNat + operation.constantGas.toNat + cost.toNat = s2.gas.toNat := by
    omega
  have small : size ≤ maxMemory := by
    rcases asked : operation.memorySize with _ | size
    · rw [unasked asked]
      exact UInt64.zero_le
    · exact small (asked ▸ rfl)
  have bounded : Bounded s5.mem := by
    unfold Bounded
    rw [same.mem.store]
    exact bounded
  have resized := same.mem.resize priced bounded small
  have deep : operation.minStack ≤ s5.stack.length := same.stack ▸ deep
  refine ensures_modify.mpr ?_
  split
  · exact ⟨deep, same.stack, resized, same.machine, cost, total, price⟩
  · rename_i zero
    have zero : size = 0 := by simpa using zero
    have kept : s5.mem.resize size = s5.mem := by
      rw [zero]
      exact if_neg (by simp)
    rw [kept] at resized
    exact ⟨deep, same.stack, resized, same.machine, cost, total, price⟩

end Preparation

/-! Steps. -/

/-- An operation that did not end well has paid for twice the operations below it. -/
def Aborted (s : Scope B) (e : Stop) (s' : Scope B) : Prop :=
  s'.gas.toNat ≤ s.gas.toNat ∧ Ended (2 * (s.gas.toNat - s'.gas.toNat)) s.machine e s'.machine

/-- An operation has paid for twice the operations below it, and for itself if the loop goes on. -/
structure Stepped (continues : Prop) (s s' : Scope B) : Prop where
  gas : s'.gas.toNat ≤ s.gas.toNat
  priced : Priced s'.mem
  machine : Returned (2 * (s.gas.toNat - s'.gas.toNat)) s.machine s'.machine
  paid
    : continues → s'.gas.toNat < s.gas.toNat
        ∧ Returned (2 * (s.gas.toNat - s'.gas.toNat) - 1) s.machine s'.machine

/-- The loop goes on after the operation. -/
def Operation.continues (operation : Operation B) : Prop :=
  operation.halts = false ∧ operation.reverts = false

variable {n : Nat} {run : Runner B}

section Steps

variable {continues : Prop} {e : Stop} {withValue : Bool}

theorem EndedCode.aborted (ended : EndedCode 0 s e s') : Aborted s e s' :=
  ⟨ended.1, ended.2.mono (Nat.zero_le _)⟩

/-- The end of an operation. -/
theorem ensures_conclude {allowed : Stop → Scope B → Prop} (res : Bytes)
    (stepped : Stepped operation.continues s s')
    : Ensures allowed (do
        keepReturnData operation res
        conclude operation res) s' fun next s'' => Stepped (next = .go) s s'' := by
  have kept {m : Machine B} {pc : UInt64} (returned : Returned 0 s'.machine m) {next : Next}
      (goes : next = .go → operation.continues)
      : Stepped (next = .go) s { s' with machine := m, pc := pc } :=
    ⟨stepped.gas, stepped.priced, stepped.machine.trans returned, fun isGo =>
      ⟨(stepped.paid (goes isGo)).1, (stepped.paid (goes isGo)).2.trans returned⟩⟩
  have finish {m : Machine B} (returned : Returned 0 s'.machine m)
      : Ensures allowed (conclude operation res) { s' with machine := m }
          fun next s'' => Stepped (next = .go) s s'' := by
    refine .ite (fun _ => kept returned nofun) fun noRevert => ?_
    refine .ite (fun _ => kept returned nofun) fun noHalt => ?_
    have goes : operation.continues :=
      ⟨Bool.eq_false_iff.mpr noHalt, Bool.eq_false_iff.mpr noRevert⟩
    refine .ite (fun _ => kept returned fun _ => goes) fun _ => ?_
    exact .seq (kept returned fun _ => goes)
  refine .seq (.ite (fun _ => ?_) fun _ => ?_)
  · exact finish ⟨⟨le_rfl, [], rfl, nofun⟩, rfl, rfl⟩
  · exact finish (.refl s'.machine)

/-- An operation that starts no contract, and costs something unless it ends the loop. -/
structure Modest (operation : Operation B) : Prop where
  quotes
    : ∀ gas ∈ operation.dynamicGas, Quotes gas fun _ cost _ =>
        operation.continues → 0 < operation.constantGas.toNat + cost.toNat
  constant
    : operation.dynamicGas = none → operation.continues → 0 < operation.constantGas.toNat
  execute : ∀ contract, SimpleCode False (operation.execute contract)

/-- A modest operation that continues has been paid for. -/
theorem Modest.paid (modest : Modest operation)
    (prepared : Prepared operation
      (fun _ cost _ => operation.continues → 0 < operation.constantGas.toNat + cost.toNat) s s')
    : s'.gas.toNat ≤ s.gas.toNat
      ∧ (operation.continues → s'.gas.toNat < s.gas.toNat) := by
  obtain ⟨cost, total, price⟩ := prepared.paid
  refine ⟨by omega, fun goes => ?_⟩
  rcases charges : operation.dynamicGas with _ | gas
  · have := modest.constant charges goes
    omega
  · have := price (charges ▸ rfl) goes
    omega

/-- A modest operation pays for its step. -/
theorem Modest.step (modest : Modest operation) (sound : Sound operation) (priced : Priced s.mem)
    (bounded : Bounded s.mem)
    : Ensures (Aborted s) (stepOperation env contract op operation) s fun next s' =>
        Stepped (next = .go) s s' := by
  refine ((ensures_prepare_paid sound modest.quotes priced bounded).weaken
    fun _ _ => EndedCode.aborted).bind fun _ s1 prepared => ?_
  obtain ⟨less, paid⟩ := modest.paid prepared
  have works := (modest.execute contract).works s1
  refine Prog.Ensures.bind (R := fun _ s' => Worked s1 s') ?_ fun res s2 worked => ?_
  · refine works.weaken fun e s2 ended => EndedCode.aborted ⟨ended.1.trans less, ?_⟩
    exact prepared.machine.ended ended.2
  · have returned := prepared.machine.trans worked.machine
    have gas : s2.gas.toNat = s1.gas.toNat := congrArg UInt64.toNat worked.gas
    refine ensures_conclude res ⟨gas ▸ less, prepared.priced.grown worked.grows worked.price,
      returned.mono (Nat.zero_le _), fun goes => ⟨gas ▸ paid goes, returned.mono (Nat.zero_le _)⟩⟩

/-- A scope on the way through an operation that started contracts. -/
structure Within (s : Scope B) (n : Nat) (s' : Scope B) : Prop where
  gas : s'.gas.toNat ≤ s.gas.toNat
  machine : Returned n s.machine s'.machine
  paid : n ≤ 2 * (s.gas.toNat - s'.gas.toNat)

theorem Within.ended (within : Within s n s') (ended : EndedCode 0 s' e s'') : Aborted s e s'' := by
  obtain ⟨gas, machine, paid⟩ := within
  obtain ⟨less, ended⟩ := ended
  exact ⟨less.trans gas, (machine.ended ended).mono (by omega)⟩

theorem Within.simply {α β : Type} {p : Code B α} {f : α → Code B β}
    {Q : β → Scope B → Prop} (within : Within s n s') (simple : SimpleCode False p)
    (next : ∀ a s'', Worked s' s'' → Within s n s'' → Ensures (Aborted s) (f a) s'' Q)
    : Ensures (Aborted s) (p >>= f) s' Q := by
  refine ((simple.works s').weaken fun _ _ => within.ended).bind fun a s'' worked => ?_
  refine next a s'' worked ⟨worked.gas ▸ within.gas, within.machine.trans worked.machine, ?_⟩
  exact worked.gas ▸ within.paid

/-- Gas that is given back was paid before. -/
theorem ensures_giveBack {amount : UInt64} {rest : Code B Bytes}
    (within : Within s n s') (simple : SimpleCode False rest)
    (less : s'.gas.toNat + amount.toNat < s.gas.toNat)
    (paid : n + 1 ≤ 2 * (s.gas.toNat - (s'.gas.toNat + amount.toNat))) (priced : Priced s'.mem)
    : Ensures (Aborted s) (do
        returnGas amount
        rest) s' fun _ s'' => Stepped continues s s'' := by
  have exact : s'.gas.toNat + amount.toNat < 2 ^ 64 := less.trans s.gas.toNat_lt
  have sum := toNat_add_exact exact
  have noted : Returned 0 s'.machine (s'.machine.note (.gasSum s'.gas amount)) := .of_note exact
  have back : Within s n { s' with
      gas := s'.gas + amount, machine := s'.machine.note (.gasSum s'.gas amount) } :=
    ⟨by show (s'.gas + amount).toNat ≤ _; omega, within.machine.trans noted,
      by show n ≤ 2 * (_ - (s'.gas + amount).toNat); omega⟩
  refine .seq (ensures_returnGas_iff.mpr ?_)
  refine ((simple.works _).weaken fun _ _ => back.ended).mono fun _ s'' worked => ?_
  have gas : s''.gas.toNat = s'.gas.toNat + amount.toNat := (congrArg _ worked.gas).trans sum
  have returned := back.machine.trans worked.machine
  exact ⟨by omega, priced.grown worked.grows worked.price, returned.mono (by omega),
    fun _ => ⟨by omega, returned.mono (by omega)⟩⟩

theorem simpleCode_storeOutput (retOffset retSize : Word) (args : Bytes) (result : CallResult)
    : SimpleCode False (storeOutput retOffset retSize args result : Code B Unit) :=
  .ite (simpleCode_setMemory _ _ _) (.pure _)

theorem simpleCode_output (inOffset inSize : Word) (ret : Output)
    : SimpleCode False (match ret with
        | .bytes b => return b
        | .input => readMemory inOffset inSize : Code B Bytes) := by
  cases ret with
  | bytes b => exact .pure b
  | input => exact simpleCode_readMemory _ _

/-- The part of a call operation behind its stack: the value has brought its stipend. -/
theorem ensures_enter {temp : UInt64} {value : Word}
    {inOffset inSize retOffset retSize : Word} {args : Bytes} {enter : UInt64 → Evm B CallResult}
    (returned : Returned 0 s.machine s'.machine) (priced : Priced s'.mem)
    (price : s'.gas.toNat + temp.toNat + (if value ≠ 0 then callValueTransferGas else 0).toNat
      < s.gas.toNat)
    (thrifty : ∀ gas m, Returned 0 s.machine m → Thrifty gas CallResult.gas (enter gas) m)
    : Ensures (Aborted s) (do
        let gas ← onMachine (addStipend temp value)
        let result ← onMachine (enter gas)
        finishCall inOffset inSize retOffset retSize args result) s'
          fun _ s'' => Stepped continues s s'' := by
  -- The gas of the call, with its stipend, is paid for.
  have stipend : Ensures (Ended 0 s'.machine) (addStipend temp value) s'.machine
      fun gas m => s'.gas.toNat + gas.toNat < s.gas.toNat ∧ Returned 0 s'.machine m := by
    refine .ite (fun some => ?_) fun none => ?_
    · rw [if_pos some] at price
      have transfer : callValueTransferGas.toNat = 9000 := rfl
      have given : callStipend.toNat = 2300 := rfl
      have := s.gas.toNat_lt
      refine (ensures_gasSum (by omega) s'.machine).mono fun sum m' after => ⟨?_, after.2⟩
      have := after.1
      omega
    · rw [if_neg none] at price
      exact ⟨price, .refl _⟩
  have start : Within s 0 s' := ⟨by omega, returned, Nat.zero_le _⟩
  refine ensures_machineThen stipend (fun _ _ ended => start.ended ⟨le_rfl, ended⟩)
    fun gas m given => ?_
  obtain ⟨less, noted⟩ := given
  have before := returned.trans noted
  refine ensures_machineThen (thrifty gas m before) (fun e m' ended => ?_)
    fun result m' called => ?_
  · exact ⟨by show s'.gas.toNat ≤ _; omega,
      (before.ended ended).mono (by show _ ≤ 2 * (_ - s'.gas.toNat); omega)⟩
  · obtain ⟨spent, called⟩ := called
    have after : Within s (2 * (gas.toNat - result.gas.toNat) + 1) { s' with machine := m' } :=
      ⟨by show s'.gas.toNat ≤ _; omega, (before.trans called).mono (by omega),
        by show _ ≤ 2 * (_ - s'.gas.toNat); omega⟩
    refine after.simply (.push _) fun _ s1 pushed after => ?_
    refine after.simply (simpleCode_storeOutput _ _ _ _) fun _ s2 stored after => ?_
    have worked := pushed.trans stored
    have same : s2.gas.toNat = s'.gas.toNat := congrArg UInt64.toNat worked.gas
    exact ensures_giveBack after (simpleCode_output _ _ _) (by omega) (by omega)
      (priced.grown worked.grows worked.price)

theorem Prepared.forwards (prepared : Prepared operation (Forwards withValue) s s')
    (constant : 0 < operation.constantGas) (metered : operation.dynamicGas.isSome = true)
    : s'.gas.toNat + s'.machine.callGasTemp.toNat + valuePrice withValue s'.stack
      < s.gas.toNat := by
  obtain ⟨cost, total, forwards⟩ := prepared.paid
  have covered : s'.machine.callGasTemp.toNat + valuePrice withValue s.stack ≤ cost.toNat :=
    forwards metered
  have constant : 0 < operation.constantGas.toNat := UInt64.lt_iff_toNat_lt.mp constant
  rw [prepared.stack]
  omega

/-- A call pays for its step and for the steps of the callee. -/
theorem ensures_callOp {enter : Contract → Address → Bytes → UInt64 → Int → Evm B CallResult}
    (calls : operation.execute = callOp withValue enter)
    (prepared : Prepared operation (Forwards withValue) s s')
    (constant : 0 < operation.constantGas) (metered : operation.dynamicGas.isSome = true)
    (deep : cond withValue 7 6 ≤ s'.stack.length)
    (thrifty : ∀ addr args gas value m, Returned 0 s.machine m
      → Thrifty gas CallResult.gas (enter contract addr args gas value) m)
    : Ensures (Aborted s) (operation.execute contract) s' fun _ s'' =>
        Stepped operation.continues s s'' := by
  rw [calls]
  have price := prepared.forwards constant metered
  obtain ⟨c, gasWord, rest, shape, valued⟩ := exists_operands deep
  have value : valuePrice withValue s'.stack
      = (if c.value ≠ 0 then callValueTransferGas else 0).toNat := by
    rw [shape]
    rcases withValue with _ | _
    · rw [valued rfl]
      rfl
    · exact (valuePrice_of_found rfl).symm
  rw [value] at price
  refine .congr (callOp_eq contract shape valued) ?_
  have start : Within s 0 { s' with stack := rest } :=
    ⟨by show s'.gas.toNat ≤ _; omega, prepared.machine, Nat.zero_le _⟩
  refine start.simply (simpleCode_readMemory _ _) fun args s2 worked _ => ?_
  have same : s2.gas.toNat = s'.gas.toNat := congrArg UInt64.toNat worked.gas
  exact ensures_enter (prepared.machine.trans worked.machine)
    (prepared.priced.grown worked.grows worked.price) (same ▸ price)
    fun gas m returned => thrifty _ _ gas _ m returned

theorem Prepared.constant (prepared : Prepared operation P s s')
    (constant : 0 < operation.constantGas)
    : s'.gas.toNat < s.gas.toNat := by
  obtain ⟨cost, total, -⟩ := prepared.paid
  have constant : 0 < operation.constantGas.toNat := UInt64.lt_iff_toNat_lt.mp constant
  omega

/-- A creation behind its stack: it gets gas of the contract, and gives back. -/
theorem ensures_newContract {reserve : Bool} {offset size : Word}
    {create : Bytes → UInt64 → Evm B CreateResult} {success : CreateResult → Bool}
    (returned : Returned 0 s.machine s'.machine) (priced : Priced s'.mem)
    (price : s'.gas.toNat < s.gas.toNat)
    (thrifty : ∀ input gas m, Returned 0 s.machine m
      → Thrifty gas CreateResult.gas (create input gas) m)
    : Ensures (Aborted s) (do
        let input ← readMemory offset size
        let gas ← createGas reserve
        let result ← onMachine (create input gas)
        finishCreate (success result) result) s' fun _ s'' => Stepped continues s s'' := by
  have start : Within s 0 s' := ⟨price.le, returned, Nat.zero_le _⟩
  refine start.simply (simpleCode_readMemory _ _) fun input s2 worked _ => ?_
  have returned := returned.trans worked.machine
  rw [← worked.gas] at price
  have less : (if reserve then s2.gas - s2.gas / 64 else s2.gas).toNat ≤ s2.gas.toNat := by
    split
    · have quotient : s2.gas / 64 ≤ s2.gas := by
        rw [UInt64.le_iff_toNat_le, UInt64.toNat_div]
        exact Nat.div_le_self _ _
      rw [UInt64.toNat_sub_of_le _ _ quotient]
      exact Nat.sub_le _ _
    · exact le_rfl
  refine .seq (then_get (.seq ?_))
  generalize (if reserve then s2.gas - s2.gas / 64 else s2.gas) = gas at less ⊢
  refine ensures_pay (fun short => absurd short (Nat.not_lt.mpr less)) fun enough => ?_
  have rest : (s2.gas - gas).toNat = s2.gas.toNat - gas.toNat :=
    UInt64.toNat_sub_of_le _ _ (UInt64.le_iff_toNat_le.mpr enough)
  refine ensures_pure.mpr (ensures_machineThen (thrifty input gas s2.machine returned)
    (fun e m ended => ?_) fun result m called => ?_)
  · exact ⟨by show (s2.gas - gas).toNat ≤ _; omega,
      (returned.ended ended).mono (by show _ ≤ 2 * (_ - (s2.gas - gas).toNat); omega)⟩
  · obtain ⟨spent, called⟩ := called
    have after : Within s (2 * (gas.toNat - result.gas.toNat) + 1)
        { s2 with gas := s2.gas - gas, machine := m } :=
      ⟨by show (s2.gas - gas).toNat ≤ _; omega, (returned.trans called).mono (by omega),
        by show _ ≤ 2 * (_ - (s2.gas - gas).toNat); omega⟩
    refine after.simply (.push _) fun _ s1 pushed after => ?_
    have same : s1.gas.toNat = s2.gas.toNat - gas.toNat :=
      (congrArg UInt64.toNat pushed.gas).trans rest
    exact ensures_giveBack after (.pure _) (by omega) (by omega)
      ((priced.grown worked.grows worked.price).grown pushed.grows pushed.price)

variable (thrifty : ThriftyRunner n run) (room : Room n s.machine)
  (prepared : Prepared operation P s s') (constant : 0 < operation.constantGas)
include thrifty room prepared constant

theorem ensures_opCreate (deep : 3 ≤ s'.stack.length)
    : Ensures (Aborted s) (opCreate env run contract) s' fun _ s'' =>
        Stepped operation.continues s s'' := by
  obtain ⟨x, y, z, rest, shape⟩ := exists_three deep
  refine then_pop shape (then_pop rfl (then_pop rfl (ensures_newContract prepared.machine
    prepared.priced (prepared.constant constant) fun input gas m returned => ?_)))
  exact thrifty_create thrifty _ _ gas _ (room.after returned)

theorem ensures_opCreate2 (deep : 4 ≤ s'.stack.length)
    : Ensures (Aborted s) (opCreate2 env run contract) s' fun _ s'' =>
        Stepped operation.continues s s'' := by
  obtain ⟨w, x, y, z, rest, shape⟩ := exists_four deep
  refine then_pop shape (then_pop rfl (then_pop rfl (then_pop rfl (ensures_newContract
    prepared.machine prepared.priced (prepared.constant constant)
    fun input gas m returned => ?_))))
  exact thrifty_createAt thrifty _ _ gas _ _ (room.after returned)

end Steps

/-! Tables. -/

section Tables

theorem Modest.of_constant (paid : 0 < operation.constantGas)
    (quotes : ∀ gas ∈ operation.dynamicGas, Quotes gas AnyPrice)
    (execute : ∀ contract, SimpleCode False (operation.execute contract))
    : Modest operation := by
  have paid : 0 < operation.constantGas.toNat := UInt64.lt_iff_toNat_lt.mp paid
  exact ⟨fun gas metered => (quotes gas metered).mono fun _ _ _ _ _ => Nat.add_pos_left paid _,
    fun _ _ => paid, execute⟩

variable {gas : GasFunc B} {price : UInt64} {execute : Execute B} {pops push : Nat}

theorem Modest.of_dynamic (metered : operation.dynamicGas = some gas)
    (quotes : Quotes gas RealPrice)
    (execute : ∀ contract, SimpleCode False (operation.execute contract))
    : Modest operation := by
  refine ⟨fun other isGas => ?_, fun none => ?_, execute⟩
  · have isGas : operation.dynamicGas = some other := isGas
    obtain rfl := Option.some.inj (metered.symm.trans isGas)
    exact quotes.mono fun _ _ _ real _ => Nat.add_pos_right _ real
  · rw [metered] at none
    cases none

theorem Modest.of_ending (ends : ¬ operation.continues)
    (quotes : ∀ gas ∈ operation.dynamicGas, Quotes gas AnyPrice)
    (execute : ∀ contract, SimpleCode False (operation.execute contract))
    : Modest operation :=
  ⟨fun gas metered => (quotes gas metered).mono fun _ _ _ _ goes => absurd goes ends,
    fun _ goes => absurd goes ends, execute⟩

theorem quotes_only (quotes : Quotes gas P) : ∀ other ∈ some gas, Quotes other P :=
  fun _ isGas => Option.some.inj isGas ▸ quotes

/-- Operations that read are modest. -/
theorem ReaderGas.modest {gas : Option (GasFunc B)}
    (readerGas : ReaderGas price gas) {read : Contract → Word → Evm B Word} (reader : Reader read)
    : Modest { plain (readOp read) price 1 1 with dynamicGas := gas } := by
  have execute (contract : Contract) : SimpleCode False (readOp read contract) :=
    simpleCode_readOp contract reader
  cases readerGas with
  | constant _ paid => exact .of_constant paid nofun execute
  | account =>
    have paid : 0 < warmStorageReadCostEIP2929 := by decide
    exact .of_constant paid (quotes_only quotes_accountCheck) execute
  | slot => exact .of_dynamic rfl quotes_gasSLoadEIP2929 execute

theorem SelfdestructGas.quotes (charged : SelfdestructGas env price gas) : Quotes gas AnyPrice := by
  cases charged with
  | legacy => exact quotes_gasSelfdestruct env
  | eip2929 | eip3529 => exact quotes_makeSelfdestructGasFn _

/-- An operation that starts a contract, from its gas function on. -/
theorem ensures_starting (sound : Sound operation)
    (quotes : ∀ gas ∈ operation.dynamicGas, Quotes gas P) (priced : Priced s.mem)
    (bounded : Bounded s.mem)
    (execute : ∀ s', Prepared operation P s s'
      → Ensures (Aborted s) (operation.execute contract) s' fun _ s'' =>
          Stepped operation.continues s s'')
    : Ensures (Aborted s) (stepOperation env contract op operation) s fun next s' =>
        Stepped (next = .go) s s' := by
  refine ((ensures_prepare_paid sound quotes priced bounded).weaken
    fun _ _ => EndedCode.aborted).bind fun _ s1 prepared => ?_
  exact (execute s1 prepared).bind fun res s2 stepped => ensures_conclude res stepped

theorem modest_fast (simple : ∀ contract, SimpleCode False (execute contract))
    : Modest (plain execute gasFastestStep pops push) :=
  .of_constant (show 0 < gasFastestStep by decide) nofun simple

theorem modest_memory {size : MemorySize B} (quotes : Quotes gas AnyPrice)
    (simple : ∀ contract, SimpleCode False (execute contract))
    : Modest (onMemory execute gasFastestStep gas pops push size) :=
  .of_constant (show 0 < gasFastestStep by decide) (quotes_only quotes) simple

/-- Every operation of the table pays for its steps. -/
theorem Entry.steps (entry : Entry env run store warm op operation) (sound : Sound operation)
    (metered : Quotes store RealPrice) (eip150 : warm = true → env.rules.isEIP150 = true)
    (thrifty : ThriftyRunner n run) (room : Room n s.machine) (priced : Priced s.mem)
    (bounded : Bounded s.mem)
    : Ensures (Aborted s) (stepOperation env contract op operation) s fun next s' =>
        Stepped (next = .go) s s' := by
  have modestly (modest : Modest operation)
      : Ensures (Aborted s) (stepOperation env contract op operation) s fun next s' =>
          Stepped (next = .go) s s' :=
    modest.step sound priced bounded
  have creationPrice : (0 : UInt64) < 32000 := by decide
  cases entry with
  | unary f paid => exact modestly (.of_constant paid nofun fun c => simpleCode_unaryOp c f)
  | binary f paid => exact modestly (.of_constant paid nofun fun c => simpleCode_binaryOp c f)
  | exp price =>
    exact modestly (.of_dynamic rfl (quotes_gasExp price) fun c => simpleCode_binaryOp c _)
  | ternary f paid => exact modestly (.of_constant paid nofun fun c => simpleCode_ternaryOp c f)
  | push f paid => exact modestly (.of_constant paid nofun fun c => simpleCode_pushOp c f)
  | callDataLoad => exact modestly (modest_fast simpleCode_opCallDataLoad)
  | copy data =>
    exact modestly (modest_memory (quotes_perWordGas _ _) fun c => simpleCode_copyOp c data)
  | extCodeCopy paid gas =>
    refine modestly (.of_constant paid (quotes_only ?_) simpleCode_opExtCodeCopy)
    rcases gas with rfl | rfl
    · exact quotes_perWordGas _ _
    · exact quotes_gasExtCodeCopyEIP2929
  | returnDataCopy =>
    exact modestly (modest_memory (quotes_perWordGas _ _) simpleCode_opReturnDataCopy)
  | sha3 =>
    have paid : (0 : UInt64) < 30 := by decide
    exact modestly (.of_constant paid (quotes_only (quotes_perWordGas _ _))
      fun c => simpleCode_opSha3 c env)
  | pop => exact modestly (.of_constant (show 0 < gasQuickStep by decide) nofun simpleCode_opPop)
  | mload => exact modestly (modest_memory quotes_pureMemoryGascost simpleCode_opMload)
  | mstore => exact modestly (modest_memory quotes_pureMemoryGascost simpleCode_opMstore)
  | mstore8 => exact modestly (modest_memory quotes_pureMemoryGascost simpleCode_opMstore8)
  | jump => exact modestly (.of_constant (show 0 < gasMidStep by decide) nofun simpleCode_opJump)
  | jumpi => exact modestly (.of_constant (show 0 < gasSlowStep by decide) nofun simpleCode_opJumpi)
  | jumpdest =>
    exact modestly (.of_constant (show (0 : UInt64) < 1 by decide) nofun fun _ => .pure _)
  | push1 => exact modestly (modest_fast simpleCode_opPush1)
  | pushN n => exact modestly (modest_fast fun c => simpleCode_makePush c n)
  | dup n => exact modestly (modest_fast fun c => simpleCode_makeDup c _)
  | swap n => exact modestly (modest_fast fun c => simpleCode_makeSwap c _)
  | stop => exact modestly (.of_ending (fun goes => nomatch goes.1) nofun fun _ => .pure _)
  | ret =>
    exact modestly (.of_ending (fun goes => nomatch goes.1)
      (quotes_only quotes_pureMemoryGascost) simpleCode_opReturn)
  | revert =>
    exact modestly (.of_ending (fun goes => nomatch goes.2)
      (quotes_only quotes_pureMemoryGascost) simpleCode_opReturn)
  | reader read gas => exact modestly (gas.modest read)
  | selfBalance =>
    exact modestly (.of_constant (show 0 < gasFastStep by decide) nofun simpleCode_opSelfBalance)
  | sstore => exact modestly (.of_dynamic rfl metered simpleCode_opSstore)
  | log n =>
    exact modestly (.of_dynamic rfl (quotes_makeGasLog n) fun c => simpleCode_makeLog c env n)
  | selfdestruct gas =>
    exact modestly (.of_ending (fun goes => nomatch goes.1) (quotes_only gas.quotes)
      simpleCode_opSuicide)
  | create =>
    refine ensures_starting sound (quotes_only quotes_pureMemoryGascost) priced bounded
      fun s' prepared => ?_
    exact ensures_opCreate thrifty room prepared creationPrice prepared.deep
  | create2 =>
    refine ensures_starting sound (quotes_only (quotes_perWordGas _ _)) priced bounded
      fun s' prepared => ?_
    exact ensures_opCreate2 thrifty room prepared creationPrice prepared.deep
  | call paid gas =>
    refine ensures_starting sound (quotes_only (gas.quotes eip150 quotes_gasCall)) priced bounded
      fun s' prepared => ?_
    have calls : opCall env run = callOp true _ := rfl
    refine ensures_callOp calls prepared paid rfl prepared.deep fun _ _ gas _ m returned => ?_
    exact thrifty_call thrifty _ _ _ gas _ (room.after returned)
  | callCode paid gas =>
    refine ensures_starting sound (quotes_only (gas.quotes eip150 quotes_gasCallCode))
      priced bounded
      fun s' prepared => ?_
    have calls : opCallCode env run = callOp true _ := rfl
    refine ensures_callOp calls prepared paid rfl prepared.deep fun _ _ gas _ m returned => ?_
    exact thrifty_callCode thrifty _ _ _ gas _ (room.after returned)
  | delegateCall paid gas =>
    refine ensures_starting sound (quotes_only (gas.quotes eip150 quotes_gasDelegateCall))
      priced bounded
      fun s' prepared => ?_
    have calls : opDelegateCall env run = callOp false _ := rfl
    refine ensures_callOp calls prepared paid rfl prepared.deep fun _ _ gas _ m returned => ?_
    exact thrifty_delegateCall thrifty _ _ _ gas (room.after returned)
  | staticCall paid gas =>
    refine ensures_starting sound (quotes_only (gas.quotes eip150 quotes_gasDelegateCall))
      priced bounded
      fun s' prepared => ?_
    have calls : opStaticCall env run = callOp false _ := rfl
    refine ensures_callOp calls prepared paid rfl prepared.deep fun _ _ gas _ m returned => ?_
    exact thrifty_staticCall thrifty _ _ _ gas (room.after returned)

end Tables

/-! Frames. -/

theorem Metering.quotes (metering : Metering env store warm) : Quotes store RealPrice := by
  cases metering with
  | legacy => exact quotes_gasSStore env
  | istanbul => exact quotes_gasSStoreEIP2200
  | berlin | london => exact quotes_makeGasSStoreFunc _

theorem Metering.eip150 (metering : Metering env store warm) (ordered : env.rules.Ordered)
    : warm = true → env.rules.isEIP150 = true := by
  unfold Rules.Ordered Rules.forks at ordered
  simp only [List.pairwise_cons, List.mem_cons] at ordered
  cases metering with
  | legacy | istanbul => rintro ⟨⟩
  | berlin _ isBerlin => exact fun _ => ordered.2.1 _ (by simp) isBerlin
  | london isLondon => exact fun _ => ordered.2.1 _ (by simp) isLondon

section Frames

/-- What the rest of a frame pays for. -/
def FrameEnded (s : Scope B) (e : Stop) (s' : Scope B) : Prop :=
  s'.gas.toNat ≤ s.gas.toNat
  ∧ Ended (2 * (s.gas.toNat - s'.gas.toNat) + 1) s.machine e s'.machine

/-- A round of the loop. If it goes on, gas was used. -/
structure Round (continues : Prop) (s s' : Scope B) : Prop where
  gas : s'.gas.toNat ≤ s.gas.toNat
  priced : Priced s'.mem
  bounded : Bounded s'.mem
  machine : Returned (2 * (s.gas.toNat - s'.gas.toNat) + 1) s.machine s'.machine
  paid
    : continues → s'.gas.toNat < s.gas.toNat
        ∧ Returned (2 * (s.gas.toNat - s'.gas.toNat)) s.machine s'.machine

theorem returned_dispatch (m : Machine B) : Returned 1 m m.dispatch :=
  ⟨⟨le_rfl, [], rfl, nofun⟩, rfl, rfl⟩

variable (ordered : env.rules.Ordered) (calm : CalmRunner run) (thrifty : ThriftyRunner n run)
  (contract : Contract)
include ordered calm thrifty

/-- One round of the interpreter. -/
theorem ensures_round (room : Room n s.machine) (priced : Priced s.mem) (bounded : Bounded s.mem)
    : Ensures (FrameEnded s) (step env (instructionSet env run) contract) s fun next s' =>
        Round (next = .go) s s' := by
  obtain ⟨store, warm, metering, entries⟩ := instructionSet_entries env run
  have table := soundTable_of_mem calm (instructionSet_mem env run)
  have dispatched := returned_dispatch s.machine
  have steps : Ensures (FrameEnded s) (step env (instructionSet env run) contract) s
      fun next s' => Stepped (next = .go) { s with machine := s.machine.dispatch } s' := by
    refine .seq (ensures_onModify.mpr (then_get ?_))
    dsimp only
    split
    · exact ⟨le_rfl, dispatched.mono (by omega)⟩
    · rename_i operation found
      refine Prog.Ensures.weaken ((entries _ operation found).steps
        (s := { s with machine := s.machine.dispatch }) (table.sound _ operation found)
        metering.quotes (metering.eip150 ordered) thrifty (room.after dispatched) priced bounded)
        fun e s' aborted => ⟨aborted.1, (dispatched.ended aborted.2).mono ?_⟩
      show 1 + 2 * (s.gas.toNat - s'.gas.toNat) ≤ _
      omega
  refine (steps.and (ensures_step table bounded)).mono fun next s' after => ?_
  obtain ⟨stepped, -, bounded⟩ := after
  have gas : s'.gas.toNat ≤ s.gas.toNat := stepped.gas
  refine ⟨gas, stepped.priced, bounded, (dispatched.trans stepped.machine).mono ?_, fun goes => ?_⟩
  · show 1 + 2 * (s.gas.toNat - s'.gas.toNat) ≤ _
    omega
  · obtain ⟨less, returned⟩ := stepped.paid goes
    have less : s'.gas.toNat < s.gas.toNat := less
    refine ⟨less, (dispatched.trans returned).mono ?_⟩
    show 1 + (2 * (s.gas.toNat - s'.gas.toNat) - 1) ≤ _
    omega

/-- All rounds of a frame. Each that goes on uses gas, so the bound on rounds is not reached. -/
theorem ensures_rounds (fuel : Nat) (enough : s.gas.toNat < fuel)
    (room : Room n s.machine) (priced : Priced s.mem) (bounded : Bounded s.mem)
    : Ensures (FrameEnded s) (loop env (instructionSet env run) contract fuel) s fun _ s' =>
        s'.gas.toNat ≤ s.gas.toNat
        ∧ Returned (2 * (s.gas.toNat - s'.gas.toNat) + 1) s.machine s'.machine := by
  induction fuel generalizing s with
  | zero => omega
  | succ fuel ih =>
    refine (ensures_round ordered calm thrifty contract room priced bounded).bind
      fun next s' round => ?_
    cases next with
    | go =>
      obtain ⟨less, returned⟩ := round.paid rfl
      refine ((ih (by omega) (room.after returned) round.priced round.bounded).weaken
        fun e s'' ended => ?_).mono fun _ s'' after => ?_
      · obtain ⟨gas, ended⟩ := ended
        exact ⟨by omega, (returned.ended ended).mono (by omega)⟩
      · obtain ⟨gas, after⟩ := after
        exact ⟨by omega, (returned.trans after).mono (by omega)⟩
    | halted ret => exact ⟨round.gas, round.machine⟩
    | reverted ret => exact ⟨round.gas, round.machine⟩

omit ordered calm thrifty

variable {k : Nat} {m' : Machine B} {self : Address} {readOnly : Bool}

/-- Steps inside a frame count outside too. -/
theorem Spent.leave
    (spent : Spent k (m.enter self readOnly) m') (shallow : m.frames.length ≤ callCreateDepth)
    (wasReadOnly : Bool)
    : Spent k m (m'.leave wasReadOnly readOnly) := by
  obtain ⟨steps, new, events, fair⟩ := spent
  have frames : (m.enter self readOnly).frames.length = m.frames.length + 1 := rfl
  refine ⟨steps, new ++ [.state (self :: m.frames) m.db], ?_, fun e member => ?_⟩
  · show m'.events = _
    rw [events, List.append_assoc]
    rfl
  · rcases List.mem_append.mp member with inside | entering
    · have holds := fair e inside
      cases e with
      | gasSum x y => exact holds
      | canary addr db => exact holds
      | state frames db =>
        have holds : frames.length ≤ max (m.frames.length + 1) (callCreateDepth + 1) := holds
        show frames.length ≤ max m.frames.length (callCreateDepth + 1)
        omega
    · obtain rfl := List.mem_singleton.mp entering
      show m.frames.length + 1 ≤ max m.frames.length (callCreateDepth + 1)
      omega

theorem Returned.leave (returned : Returned k (m.enter self readOnly) m')
    (shallow : m.frames.length ≤ callCreateDepth) (wasReadOnly : Bool)
    : Returned k m (m'.leave wasReadOnly readOnly) := by
  refine ⟨returned.toSpent.leave shallow wasReadOnly, ?_, ?_⟩
  · show m'.depth - 1 = m.depth
    rw [returned.depth]
    rfl
  · show m'.frames.tail = m.frames
    rw [returned.frames]
    rfl

/-- The result of a frame has the gas that is left. -/
theorem runResult_thrifty {p : Code B (Bytes × Option VMError)}
    (rounds : Ensures (FrameEnded s) p s fun _ s' =>
      s'.gas.toNat ≤ s.gas.toNat
      ∧ Returned (2 * (s.gas.toNat - s'.gas.toNat) + 1) s.machine s'.machine)
    : (∀ result, runResult (p s).2.gas (p s).1 = .ok result
        → result.gas.toNat ≤ s.gas.toNat
          ∧ Returned (2 * (s.gas.toNat - result.gas.toNat) + 1) s.machine (p s).2.machine)
      ∧ ∀ e, runResult (p s).2.gas (p s).1 = .error e
        → ∃ f, e = .panic f ∧ f ≠ .outOfFuel
          ∧ Spent (2 * s.gas.toNat + 1) s.machine (p s).2.machine := by
  unfold Ensures After at rounds
  rcases outcome : (p s).1 with e | r
  · rw [outcome] at rounds
    obtain ⟨gas, ended⟩ := rounds
    cases e with
    | err e => exact ⟨fun result same => Except.ok.inj same ▸ ⟨gas, ended⟩, nofun⟩
    | panic f =>
      exact ⟨nofun, fun e same => ⟨f, (Except.error.inj same).symm, ended.1,
        ended.2.mono (by omega)⟩⟩
  · rw [outcome] at rounds
    exact ⟨fun result same => Except.ok.inj same ▸ rounds, nofun⟩

/-- The interpreter over a thrifty one is thrifty, and gives one frame more. -/
theorem thrifty_interpret (ordered : env.rules.Ordered) (calm : CalmRunner run)
    (thrifty : ThriftyRunner n run)
    : ThriftyRunner (n + 1) (interpret env run) := by
  intro contract gas input readOnly m room depth
  have shallow : m.frames.length ≤ callCreateDepth := room.frames.trans depth
  have inside : Room n (m.enter contract.self readOnly) :=
    ⟨Nat.succ_le_succ room.frames, by
      have := room.depth
      show callCreateDepth < m.depth + 1 + n
      omega⟩
  have ends := runResult_thrifty (ensures_rounds ordered calm thrifty
    { contract with input := input } (gas.toNat + 1)
    (s := { gas := gas, machine := m.enter contract.self readOnly })
    (Nat.lt_succ_self _) inside (Nat.zero_le _) (Nat.zero_le _))
  by_cases empty : contract.code.length = 0
  · have entered : Returned 0 (m.enter contract.self readOnly) (m.enter contract.self readOnly) :=
      .refl _
    refine .of_returned (if_pos empty) ⟨le_rfl, ?_⟩
    exact (entered.leave shallow m.readOnly).mono (Nat.zero_le _)
  · have ran : interpret env run contract gas input readOnly m = _ := if_neg empty
    refine .of_outcome ?_ ?_
    · rw [ran]
      intro result returned
      obtain ⟨less, returned⟩ := ends.1 result returned
      exact ⟨less, returned.leave shallow m.readOnly⟩
    · rw [ran]
      intro e stopped
      obtain ⟨f, rfl, fueled, spent⟩ := ends.2 e stopped
      exact ⟨fueled, spent.leave shallow m.readOnly⟩

/-- Frames are thrifty, by induction on the depth that is left. -/
theorem thrifty_runAt (ordered : env.rules.Ordered) (n : Nat)
    : ThriftyRunner n (runAt env n : Runner B) := by
  induction n with
  | zero =>
    intro contract gas input readOnly m room depth
    exact absurd room.depth (Nat.not_lt.mpr depth)
  | succ n ih => exact thrifty_interpret ordered (calm_runAt env n) ih

end Frames

variable (ordered : env.rules.Ordered) (e : Execution) (nested : m.frames.length ≤ m.depth)
include ordered nested

/-- All four calls and both creations. -/
theorem Execution.thrifty : Thrifty e.gas Outcome.gas (e.run env) m := by
  have runs := thrifty_runAt (B := B) ordered (callCreateDepth + 1)
  have room : Room (callCreateDepth + 1) m := ⟨nested, by omega⟩
  have called {gas : UInt64} {p : Evm B CallResult} (call : Thrifty gas CallResult.gas p m)
      : Thrifty gas Outcome.gas (p >>= fun result => return result.outcome) m :=
    call.andThen fun _ m' => ⟨le_rfl, .refl m'⟩
  have created {gas : UInt64} {p : Evm B CreateResult} (create : Thrifty gas CreateResult.gas p m)
      : Thrifty gas Outcome.gas (p >>= fun result => return result.outcome) m :=
    create.andThen fun _ m' => ⟨le_rfl, .refl m'⟩
  cases e with
  | call caller addr input gas value => exact called (thrifty_call runs _ _ _ gas _ room)
  | callCode caller addr input gas value => exact called (thrifty_callCode runs _ _ _ gas _ room)
  | delegateCall parent addr input gas => exact called (thrifty_delegateCall runs _ _ _ gas room)
  | staticCall caller addr input gas => exact called (thrifty_staticCall runs _ _ _ gas room)
  | create caller code gas value => exact created (thrifty_create runs _ _ gas _ room)
  | create2 caller code gas endowment salt => exact created (thrifty_createAt runs _ _ gas _ _ room)

/-- At most two steps for each unit of gas, and one more; the fuel is enough. -/
theorem Execution.spent
    : Spent (2 * e.gas.toNat + 1) m (e.run env m).2
      ∧ (e.run env m).1 ≠ .error (.panic .outOfFuel) := by
  have thrifty := e.thrifty ordered nested
  unfold Thrifty Ensures After at thrifty
  rcases outcome : (e.run env m).1 with stop | r
  · rw [outcome] at thrifty
    refine ⟨thrifty.spent, fun isFuel => ?_⟩
    rw [Except.error.inj isFuel] at thrifty
    exact thrifty.1 rfl
  · rw [outcome] at thrifty
    exact ⟨thrifty.2.toSpent.mono (by omega), nofun⟩

omit ordered nested

/-- Every execution halts within its gas: neither the bound on the rounds of a frame nor the one
on nested frames is reached, at most two operations are dispatched for each unit of gas and one
more, and frames nest at most 1025 deep.
-/
theorem execution_halts_within_gas (env : Env) (ordered : env.rules.Ordered) (e : Execution)
    {m : Machine B} (nested : m.frames.length ≤ m.depth)
    : (e.run env m).1 ≠ .error (.panic .outOfFuel)
      ∧ (e.run env m).2.steps ≤ m.steps + (2 * e.gas.toNat + 1)
      ∧ ∃ new, (e.run env m).2.events = new ++ m.events
        ∧ ∀ frames db, .state frames db ∈ new
          → frames.length ≤ max m.frames.length (callCreateDepth + 1) := by
  obtain ⟨spent, halts⟩ := e.spent ordered nested
  obtain ⟨new, events, fair⟩ := spent.events
  exact ⟨halts, spent.steps, new, events, fun frames db member => fair _ member⟩

/-- Account 16 has the code JUMPDEST, PUSH1 0, JUMP: a loop without an end. -/
def loopingState : StateDB plainBackend := plainState.setCode 16 (some [0x5b, 0x60, 0, 0x56])

theorem execution_halts_within_gas_loop
    : londonEnv.rules.Ordered
      ∧ 0 < ((Execution.call 1 16 [] 100 0).run londonEnv { db := loopingState }).2.steps
      ∧ ((Execution.call 1 16 [] 100 0).run londonEnv { db := loopingState }).1
        ≠ .error (.panic .outOfFuel)
      ∧ ((Execution.call 1 16 [] 100 0).run londonEnv { db := loopingState }).2.steps ≤ 201 := by
  have ordered : londonEnv.rules.Ordered := by
    unfold Rules.Ordered
    decide
  obtain ⟨halts, steps, -⟩ := execution_halts_within_gas londonEnv ordered (.call 1 16 [] 100 0)
    (m := { db := loopingState }) (Nat.zero_le _)
  have dispatches : decide (0 < ((Execution.call 1 16 [] 100 0).run londonEnv
      { db := loopingState }).2.steps) = true := by decide +kernel
  exact ⟨ordered, of_decide_eq_true dispatches, halts, steps⟩

/-- No gas is created: what remains is at most what was given, and no addition to an amount of
gas wraps.
-/
theorem execution_creates_no_gas (env : Env) (ordered : env.rules.Ordered) (e : Execution)
    {m : Machine B} (nested : m.frames.length ≤ m.depth)
    : (∀ outcome m', e.run env m = (.ok outcome, m') → outcome.gas ≤ e.gas)
      ∧ ∃ new, (e.run env m).2.events = new ++ m.events
        ∧ ∀ x y, .gasSum x y ∈ new → x.toNat + y.toNat < 2 ^ 64 := by
  refine ⟨fun outcome m' run => ?_, ?_⟩
  · exact UInt64.le_iff_toNat_le.mpr ((e.thrifty ordered nested).returned run).1
  · obtain ⟨new, events, fair⟩ := (e.spent ordered nested).1.events
    exact ⟨new, events, fun x y member => fair _ member⟩

/-- The amounts of an addition of gas. -/
def Event.sum : Event B → Option (UInt64 × UInt64)
  | .gasSum x y => some (x, y)
  | _ => none

/-- Account 16 calls account 17, which has no code, with 1000 gas. -/
def callingState : StateDB plainBackend :=
  plainState.setCode 16
    (some [0x60, 0, 0x60, 0, 0x60, 0, 0x60, 0, 0x60, 0, 0x60, 17, 0x61, 0x03, 0xe8, 0xf1, 0])

/-- The 1000 gas of the inner call come back, and twice what a first access pays in addition. -/
theorem execution_creates_no_gas_call
    : ∃ outcome m',
        (Execution.call 1 16 [] 10000 0).run londonEnv { db := callingState } = (.ok outcome, m')
        ∧ m'.events.filterMap Event.sum = [(6379, 1000), (1000, 2500), (7379, 2500)]
        ∧ outcome.gas ≤ 10000
        ∧ ∀ x y, .gasSum x y ∈ m'.events → x.toNat + y.toNat < 2 ^ 64 := by
  have ordered : londonEnv.rules.Ordered := by
    unfold Rules.Ordered
    decide
  obtain ⟨less, new, events, exact⟩ := execution_creates_no_gas londonEnv ordered
    (.call 1 16 [] 10000 0) (m := { db := callingState }) (Nat.zero_le _)
  have isOk : ((Execution.call 1 16 [] 10000 0).run londonEnv
      { db := callingState }).1.isOk = true := by decide +kernel
  obtain ⟨outcome, run⟩ := returns_of_isOk isOk
  refine ⟨outcome, _, run, by decide +kernel, less outcome _ run,
    fun x y member => exact x y ?_⟩
  rw [events] at member
  exact (List.append_nil new) ▸ member

end GoBinacoin.Vm
