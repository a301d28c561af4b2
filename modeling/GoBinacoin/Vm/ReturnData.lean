import GoBinacoin.Vm.SafeRun

/-! The data that a call returns. The identity precompile hands back a view of the caller's memory,
and the output is written to memory before that view is copied.
-/

namespace GoBinacoin.Vm

open Program State

variable {B : Backend} {m m' : Memory} {offset size : UInt64} {bytes value : Bytes}

theorem toNat_int64 {n : UInt64} (nonneg : 0 ≤ int64 n) : (int64 n).toNat = n.toNat := by
  have := n.toNat_lt
  unfold int64 at nonneg ⊢
  split at nonneg
  · rename_i small
    rw [if_pos small]
    rfl
  · omega

/-- What is read is what is stored. -/
theorem Memory.read_ok (read : m.read offset size = .ok bytes)
    : bytes.length ≤ size.toNat
      ∧ (bytes.length = size.toNat ∨ m.store.length ≤ offset.toNat)
      ∧ ∀ i < bytes.length, bytes[i]? = m.store[offset.toNat + i]? := by
  unfold Memory.read at read
  split at read
  · rename_i zero
    cases read
    rw [← toNat_int64 (Int.le_of_eq zero.symm), zero]
    exact ⟨Nat.zero_le _, .inl rfl, nofun⟩
  split at read
  · split at read
    · rename_i inside
      cases read
      have offsetNat := toNat_int64 inside.1
      have sizeNat := toNat_int64 inside.2.1
      rw [offsetNat, sizeNat]
      refine ⟨List.length_take_le _ _, .inl ?_, fun i below => ?_⟩
      · rw [List.length_take, List.length_drop]
        omega
      · rw [List.getElem?_take_of_lt (by simp at below; omega), List.getElem?_drop]
    · cases read
  · rename_i outside
    cases read
    have offsetNat := toNat_int64 (n := offset) (by omega)
    exact ⟨Nat.zero_le _, .inr (by omega), nofun⟩

/-- Only the bytes that are read matter. -/
theorem Memory.read_congr (length : m'.store.length = m.store.length)
    (same : ∀ i < size.toNat, m'.store[offset.toNat + i]? = m.store[offset.toNat + i]?)
    : m'.read offset size = m.read offset size := by
  unfold read
  rw [length]
  split
  · rfl
  split
  · split
    · rename_i inside
      refine congrArg Except.ok (List.ext_getElem? fun i => ?_)
      rw [toNat_int64 inside.1, toNat_int64 inside.2.1, List.getElem?_take, List.getElem?_take]
      split
      · rename_i below
        rw [List.getElem?_drop, List.getElem?_drop, same i below]
      · rfl
    · rfl
  · rfl

/-- Bytes are overwritten inside the value only. -/
theorem overwrite_getElem? {store : Bytes} {off : Nat} (inside : off + value.length ≤ store.length)
    (k : Nat)
    : (overwrite store off value)[k]?
      = if off ≤ k ∧ k < off + value.length then value[k - off]? else store[k]? := by
  have before : (store.take off).length = off := List.length_take_of_le (by omega)
  unfold overwrite
  rw [List.append_assoc, List.getElem?_append, List.getElem?_append, before]
  split
  · rw [List.getElem?_take_of_lt (by assumption), if_neg (by omega)]
  split
  · rw [if_pos (by omega)]
  · rw [if_neg (by omega), List.getElem?_drop]
    congr 1
    omega

/-- A write changes the bytes of the value only. -/
theorem Memory.set_ok (run : m.set offset size value = .ok m')
    : m'.store.length = m.store.length
      ∧ ∀ k, m'.store[k]? = if offset.toNat ≤ k ∧ k < offset.toNat + (value.take size.toNat).length
          then (value.take size.toNat)[k - offset.toNat]? else m.store[k]? := by
  unfold set at run
  split at run
  · rename_i zero
    cases run
    subst zero
    refine ⟨rfl, fun k => (if_neg ?_).symm⟩
    simp
  split at run
  · cases run
  · rename_i accepted
    have inside : offset.toNat + (value.take size.toNat).length ≤ m.store.length := by
      have := List.length_take_le size.toNat value
      have := Nat.mod_le m.store.length (2 ^ 64)
      simp only [gt_iff_lt, UInt64.lt_iff_toNat_lt, len, UInt64.toNat_add,
        UInt64.toNat_ofNat', not_or, not_lt] at accepted
      have := offset.toNat_lt
      have := size.toNat_lt
      omega
    cases run
    exact ⟨overwrite_length inside, overwrite_getElem? inside⟩

theorem Memory.set_prefix (run : m.set offset size value = .ok m')
    : (m'.store.drop offset.toNat).take (min size.toNat value.length)
      = value.take (min size.toNat value.length) := by
  refine List.ext_getElem? fun i => ?_
  rw [List.getElem?_take, List.getElem?_take]
  split
  · rename_i below
    rw [List.getElem?_drop, (set_ok run).2, if_pos (by simp; omega), Nat.add_sub_cancel_left,
      List.getElem?_take_of_lt (by omega)]
  · rfl

/-- Where an output as long as the input is written over the input, it writes what is there. -/
def Operands.Undisturbed (c : Operands) (m : Memory) : Prop :=
  ∀ j < min (uint64 c.retSize).toNat (uint64 c.inSize).toNat,
    (uint64 c.inOffset).toNat ≤ (uint64 c.retOffset).toNat + j →
    (uint64 c.retOffset).toNat + j < (uint64 c.inOffset).toNat + (uint64 c.inSize).toNat →
    m.store[(uint64 c.inOffset).toNat + j]? = m.store[(uint64 c.retOffset).toNat + j]?

/-- The view of the input shows it after the output was written, exactly if it was not disturbed. -/
theorem read_back_iff {c : Operands} {args : Bytes}
    (read : m.read (uint64 c.inOffset) (uint64 c.inSize) = .ok args)
    (written : m.set (uint64 c.retOffset) (uint64 c.retSize) args = .ok m')
    : m'.read (uint64 c.inOffset) (uint64 c.inSize) = .ok args ↔ c.Undisturbed m := by
  obtain ⟨short, whole, here⟩ := Memory.read_ok read
  obtain ⟨length, after⟩ := Memory.set_ok written
  constructor
  · intro back j bound low high
    obtain ⟨-, -, there⟩ := Memory.read_ok back
    rcases whole with whole | outside
    · have first := after ((uint64 c.retOffset).toNat + j)
      rw [if_pos (by rw [List.length_take]; omega), Nat.add_sub_cancel_left,
        List.getElem?_take_of_lt (by omega), here j (by omega)] at first
      have index : (uint64 c.inOffset).toNat
          + ((uint64 c.retOffset).toNat + j - (uint64 c.inOffset).toNat)
          = (uint64 c.retOffset).toNat + j := by omega
      have second := there ((uint64 c.retOffset).toNat + j - (uint64 c.inOffset).toNat) (by omega)
      rw [here _ (by omega), index] at second
      exact first.symm.trans second.symm
    · rw [List.getElem?_eq_none (by omega), List.getElem?_eq_none (by omega)]
  · intro undisturbed
    refine (Memory.read_congr length fun i below => ?_).trans read
    rw [after]
    split
    · rename_i hit
      rw [List.length_take] at hit
      have index : (uint64 c.retOffset).toNat
          + ((uint64 c.inOffset).toNat + i - (uint64 c.retOffset).toNat)
          = (uint64 c.inOffset).toNat + i := by omega
      have same := undisturbed ((uint64 c.inOffset).toNat + i - (uint64 c.retOffset).toNat)
        (by omega) (by omega) (by omega)
      rw [List.getElem?_take_of_lt (by omega), here _ (by omega), same, index]
    · rfl

section Calls

variable {c : Operands} {args b : Bytes} {result : CallResult} {s s' : Scope B}

theorem ofExcept_ok {α : Type} {x : Except Stop α} {a : α}
    (run : (Prog.ofExcept x : Code B α) s = (.ok a, s'))
    : x = .ok a ∧ s' = s := by
  rcases x with e | a
  · cases run
  · cases run
    exact ⟨rfl, rfl⟩

theorem onMachine_ok {α : Type} {p : Evm B α} {a : α} (run : onMachine p s = (.ok a, s'))
    : ∃ m, p s.machine = (.ok a, m) ∧ s' = { s with machine := m } := by
  obtain ⟨outcome, rfl⟩ := Prod.mk.inj run
  exact ⟨_, Prod.ext outcome rfl, rfl⟩

/-- The end of a call that did not fail writes the output, and then reads back a view of memory. -/
theorem finishCall_ok (settled : result.err = none ∨ result.err = some .executionReverted)
    (run : finishCall c.inOffset c.inSize c.retOffset c.retSize args result s = (.ok b, s'))
    : s.mem.set (uint64 c.retOffset) (uint64 c.retSize) (result.ret.content args) = .ok s'.mem
      ∧ (result.ret = .bytes b
        ∨ result.ret = .input ∧ s'.mem.read (uint64 c.inOffset) (uint64 c.inSize) = .ok b) := by
  obtain ⟨_, _, pushed, run⟩ := bind_eq_ok.mp run
  cases pushed
  obtain ⟨_, _, stored, run⟩ := bind_eq_ok.mp run
  unfold storeOutput at stored
  rw [if_pos settled] at stored
  obtain ⟨_, _, got, stored⟩ := bind_eq_ok.mp stored
  cases got
  obtain ⟨mem, _, changed, stored⟩ := bind_eq_ok.mp stored
  obtain ⟨written, rfl⟩ := ofExcept_ok changed
  cases stored
  obtain ⟨_, _, returned, run⟩ := bind_eq_ok.mp run
  cases returned
  obtain ⟨ret, gas, err⟩ := result
  cases ret with
  | bytes bytes =>
    cases run
    exact ⟨written, .inl rfl⟩
  | input =>
    obtain ⟨read, rfl⟩ := ofExcept_ok run
    exact ⟨written, .inr ⟨rfl, read⟩⟩

/-- What the operation of a call code enters, and whether it takes a value. -/
def callee (env : Env) (run : Runner B)
    : OpCode → Option (Bool × (Contract → Address → Bytes → UInt64 → Int → Evm B CallResult))
  | .call =>
      some (true, fun contract addr args gas value =>
        call env run contract.self addr args gas value)
  | .callcode =>
      some (true, fun contract addr args gas value =>
        callCode env run contract.self addr args gas value)
  | .delegatecall =>
      some (false, fun contract addr args gas _ => delegateCall env run contract addr args gas)
  | .staticcall =>
      some (false, fun contract addr args gas _ => staticCall env run contract.self addr args gas)
  | _ => none

variable {withValue : Bool} {contract : Contract} {rest : List Word} {gasWord : Word}
  {enter : Contract → Address → Bytes → UInt64 → Int → Evm B CallResult}

/-- The entries of every table for the call codes. -/
theorem callee_entry {env : Env} {run : Runner B} {op : OpCode} {operation : Operation B}
    (listed : instructionSet env run op = some operation)
    (enters : callee env run op = some (withValue, enter))
    : operation.execute = callOp withValue enter ∧ operation.returns = true := by
  have tables : instructionSet env run
      ∈ [newLondonInstructionSet env run, newBerlinInstructionSet env run,
        newIstanbulInstructionSet env run, newConstantinopleInstructionSet env run,
        newByzantiumInstructionSet env run, newSpuriousDragonInstructionSet env run,
        newTangerineWhistleInstructionSet env run, newHomesteadInstructionSet env run,
        newFrontierInstructionSet env run] := by
    unfold instructionSet
    split_ifs <;> simp only [List.mem_cons, true_or, or_true]
  simp only [List.mem_cons, List.not_mem_nil, or_false] at tables
  generalize instructionSet env run = table at listed tables
  unfold callee at enters
  split at enters
  case h_5 => cases enters
  all_goals
    cases enters
    rcases tables with rfl | rfl | rfl | rfl | rfl | rfl | rfl | rfl | rfl <;>
      cases listed <;> exact ⟨rfl, rfl⟩

/-- After a call operation whose callee did not fail, the memory has as much of what the callee
returned as was asked for. The return data is what the callee returned, exactly if that is not a
view of the input, or the output that was written did not disturb the input.
-/
theorem callOp_returnData {env : Env} {runner : Runner B} {op : OpCode} {operation : Operation B}
    (listed : instructionSet env runner op = some operation)
    (enters : callee env runner op = some (withValue, enter))
    (shape : s.stack = gasWord :: (c.words withValue ++ rest))
    (valued : withValue = false → c.value = 0)
    (run : (operation.execute contract >>= keepReturnData operation) s = (.ok (), s'))
    : ∃ args, s.mem.read (uint64 c.inOffset) (uint64 c.inSize) = .ok args
      ∧ ∃ gas m, addStipend s.machine.callGasTemp c.value s.machine = (.ok gas, m)
      ∧ ∃ result m', enter contract (wordAddress c.addr) args gas c.value.toNat m = (.ok result, m')
      ∧ (result.err = none ∨ result.err = some .executionReverted
        → let output := result.ret.content args
          let size := min (uint64 c.retSize).toNat output.length
          (s'.mem.store.drop (uint64 c.retOffset).toNat).take size = output.take size
          ∧ (s'.machine.returnData = output
            ↔ (result.ret = .input → c.Undisturbed s.mem))) := by
  obtain ⟨isCall, returns⟩ := callee_entry listed enters
  rw [isCall] at run
  obtain ⟨b, s1, called, kept⟩ := bind_eq_ok.mp run
  rw [callOp_eq contract shape valued] at called
  obtain ⟨args, _, first, called⟩ := bind_eq_ok.mp called
  obtain ⟨read, rfl⟩ := ofExcept_ok first
  obtain ⟨gas, _, second, called⟩ := bind_eq_ok.mp called
  obtain ⟨m, stipend, rfl⟩ := onMachine_ok second
  obtain ⟨result, _, third, finished⟩ := bind_eq_ok.mp called
  obtain ⟨m', returned, rfl⟩ := onMachine_ok third
  refine ⟨args, read, gas, m, stipend, result, m', returned, fun settled => ?_⟩
  obtain ⟨written, output⟩ := finishCall_ok settled finished
  unfold keepReturnData at kept
  rw [if_pos returns] at kept
  cases kept
  refine ⟨Memory.set_prefix written, ?_⟩
  rcases output with isBytes | ⟨isInput, readBack⟩
  · rw [isBytes]
    exact iff_of_true rfl nofun
  · rw [isInput] at written ⊢
    refine Iff.trans ?_ ⟨fun undisturbed _ => undisturbed, fun undisturbed => undisturbed rfl⟩
    rw [← read_back_iff read written, readBack]
    exact ⟨congrArg _, Except.ok.inj⟩

end Calls

/-- `STATICCALL` of the identity precompile, with the first two bytes of memory as its input. -/
def identityScope (store : Bytes) (retOffset : Word) : Scope plainBackend where
  stack := [0, 4, 0, 2, retOffset, 2]
  gas := 0
  mem := { store }
  machine := { db := plainState, callGasTemp := 100 }

/-- The entry of London for `STATICCALL`. -/
def staticCallOperation : Operation plainBackend :=
  (instructionSet londonEnv (runAt londonEnv 0) .staticcall).getD (plain opStop 0 0 0)

def identityCall (store : Bytes) (retOffset : Word) : Except Stop Unit × Scope plainBackend :=
  (staticCallOperation.execute { callerAddress := 1, self := 2, code := [], value := 0 }
    >>= keepReturnData staticCallOperation) (identityScope store retOffset)

/-- The output is written over the second byte of the input, which is the same as the first. -/
theorem callOp_returnData_repeated
    : ∃ s', identityCall [1, 1, 1, 1] 1 = (.ok (), s') ∧ s'.machine.returnData = [1, 1]
      ∧ (s'.mem.store.drop 1).take 2 = [1, 1] := by
  have isOk : (identityCall [1, 1, 1, 1] 1).1.isOk = true := by decide +kernel
  let c : Operands := { addr := 4, inOffset := 0, inSize := 2, retOffset := 1, retSize := 2 }
  obtain ⟨s', run⟩ : ∃ s', identityCall [1, 1, 1, 1] 1 = (.ok (), s') := by
    obtain ⟨_, run⟩ := returns_of_isOk isOk
    exact ⟨_, run⟩
  have listed : instructionSet londonEnv (runAt londonEnv 0) .staticcall
      = some staticCallOperation := rfl
  have shape : (identityScope [1, 1, 1, 1] 1).stack = 0 :: (c.words false ++ []) := rfl
  obtain ⟨args, read, gas, m, stipend, result, m', entered, outcome⟩ :=
    callOp_returnData listed rfl shape (fun _ => rfl) run
  have input : (identityScope [1, 1, 1, 1] 1).mem.read (uint64 c.inOffset) (uint64 c.inSize)
      = .ok [1, 1] := by
    decide +kernel
  obtain rfl := Except.ok.inj (input.symm.trans read)
  cases stipend
  have returned : (result.err, result.ret) = (none, .input) := by
    have evaluated := congrArg (fun r => r.1.toOption.map fun r => (r.err, r.ret)) entered
    exact Option.some.inj (evaluated.symm.trans (by decide +kernel))
  obtain ⟨err, ret⟩ := Prod.mk.inj returned
  obtain ⟨memory, exactly⟩ := outcome (.inl err)
  rw [ret] at memory exactly
  refine ⟨s', run, exactly.mpr fun _ => ?_, memory⟩
  intro j bound low high
  have cases : j = 0 ∨ j = 1 := by
    have : j < 2 := bound
    omega
  rcases cases with rfl | rfl <;> rfl

/-- The output is written over the second byte of the input, and the return data is read then. -/
theorem identityCall_overlapping
    : (runPrecompiledContract londonEnv .dataCopy [1, 2] 100).ret.content [1, 2] = [1, 2]
      ∧ (identityCall [1, 2, 0, 0] 1).1.isOk = true
      ∧ (identityCall [1, 2, 0, 0] 1).2.machine.returnData = [1, 1] := by
  decide +kernel

end GoBinacoin.Vm
