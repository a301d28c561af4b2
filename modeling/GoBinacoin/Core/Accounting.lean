import GoBinacoin.Core.StateTransition
import GoBinacoin.Vm.Value

/-! The accounts of a transaction: gas, refund, fees and balances. -/

namespace GoBinacoin.Core

open Program State Vm Arith

variable {B : Backend}

variable {evm : EVM B} {baseFee : Option Nat}

section Fees

variable (tx : Transaction) (sender : Address)

/-- The base fee of a header, which is there from London on and never negative. -/
structure AtHeader (evm : EVM B) (baseFee : Option Nat) : Prop where
  fee : evm.baseFee = baseFee.map Nat.cast
  london : evm.rules.isLondon = baseFee.isSome

/-- The message of a transaction under a header. -/
def messageAt (baseFee : Option Nat) : Message := tx.asMessage sender (baseFee.map Nat.cast)

/-- The checks of the fees do not apply to calls for free. -/
def Skips (evm : EVM B) : Prop :=
  evm.rules.isLondon = true ∧ evm.noBaseFee = true
    ∧ tx.fees.gasFeeCap = 0 ∧ tx.fees.gasTipCap = 0

theorem gasPrice_nonneg (baseFee : Option Nat) : 0 ≤ (messageAt tx sender baseFee).gasPrice := by
  rcases baseFee with _ | fee
  · exact Int.natCast_nonneg _
  · show 0 ≤ bigMin (tx.fees.gasTipCap + fee) tx.fees.gasFeeCap
    unfold bigMin
    split <;> omega

/-- The price is never above the fee cap. -/
theorem gasPrice_le (baseFee : Option Nat)
    : (messageAt tx sender baseFee).gasPrice ≤ tx.fees.gasFeeCap := by
  rcases baseFee with _ | fee
  · show (tx.fees.gasPrice : Int) ≤ tx.fees.gasFeeCap
    cases tx.fees with
    | legacy => exact Int.le_refl _
    | dynamicFee => exact Int.le_refl _
  · show bigMin (tx.fees.gasTipCap + fee) tx.fees.gasFeeCap ≤ tx.fees.gasFeeCap
    unfold bigMin
    split <;> omega

/-- The tip is what the price leaves above the base fee. -/
theorem effectiveTip_run (header : AtHeader evm baseFee) (st : StateTransition B)
    : effectiveTip evm (messageAt tx sender baseFee) st
      = (.ok ((messageAt tx sender baseFee).gasPrice - baseFee.getD 0), st) := by
  unfold effectiveTip
  rw [header.london, header.fee]
  rcases baseFee with _ | fee
  · simp only [Option.isSome_none, Bool.false_eq_true, if_false, Option.getD_none,
      Int.natCast_zero, sub_zero]
    rfl
  · have same : bigMin tx.fees.gasTipCap (tx.fees.gasFeeCap - fee)
        = bigMin (tx.fees.gasTipCap + fee) tx.fees.gasFeeCap - fee := by
      unfold bigMin
      split <;> split <;> omega
    show (Except.ok (bigMin tx.fees.gasTipCap (tx.fees.gasFeeCap - fee)), st) = _
    rw [same]
    rfl

theorem bigBitLen_pos {x : Int} (nonzero : x ≠ 0) : bigBitLen x > 0 := by
  unfold bigBitLen
  rw [if_neg nonzero]
  exact Nat.succ_pos _

/-- The fees were checked against the base fee, unless the check was skipped. -/
theorem yields_checkFees {fee : Nat} (context : evm.baseFee = some (fee : Int))
    (feeCap tipCap : Nat) (st : StateTransition B)
    : Yields (checkFees evm sender feeCap tipCap) st fun _ st' =>
        st' = st ∧ (fee ≤ feeCap ∨ evm.noBaseFee = true ∧ feeCap = 0 ∧ tipCap = 0) := by
  unfold checkFees
  rw [context]
  refine .ite (fun _ => ?_) fun skipped => ⟨rfl, .inr ?_⟩
  · refine .ite (fun _ => trivial) fun _ => .ite (fun _ => trivial) fun _ =>
      .ite (fun _ => trivial) fun _ => .ite (fun _ => trivial) fun covers => ⟨rfl, .inl ?_⟩
    omega
  · simp only [Bool.or_eq_true, Bool.not_eq_true', decide_eq_true_eq, not_or,
      Bool.not_eq_false] at skipped
    refine ⟨skipped.1.1, ?_, ?_⟩
    · exact_mod_cast not_imp_comm.mp bigBitLen_pos skipped.1.2
    · exact_mod_cast not_imp_comm.mp bigBitLen_pos skipped.2

/-- The fee cap covers the base fee, unless the checks were skipped. -/
theorem yields_checkLondon (header : AtHeader evm baseFee) (st : StateTransition B)
    : Yields (checkLondon evm (messageAt tx sender baseFee)) st fun _ st' =>
        st' = st ∧ (baseFee.getD 0 ≤ tx.fees.gasFeeCap ∨ Skips tx evm) := by
  unfold checkLondon
  rcases baseFee with _ | fee
  · exact .ite (fun london => nomatch header.london.symm.trans london) fun _ =>
      ⟨rfl, .inl (Nat.zero_le _)⟩
  · refine .ite (fun london => ?_) fun no => absurd header.london no
    exact (yields_checkFees sender header.fee _ _ st).mono fun _ _ covered =>
      ⟨covered.1, covered.2.imp_right fun free => ⟨london, free⟩⟩

end Fees

variable {x y : UInt64}

theorem Arith.exact_sub : (sub x y).Exact ↔ y.toNat ≤ x.toNat := UInt64.le_iff_toNat_le

theorem Arith.Exact.add (exact : (add x y).Exact) : (add x y).value.toNat = x.toNat + y.toNat :=
  (UInt64.toNat_add x y).trans (Nat.mod_eq_of_lt exact)

theorem Arith.Exact.sub (exact : (sub x y).Exact) : (sub x y).value.toNat = x.toNat - y.toNat :=
  UInt64.toNat_sub_of_le x y exact

theorem Arith.Exact.mul (exact : (mul x y).Exact) : (mul x y).value.toNat = x.toNat * y.toNat :=
  (UInt64.toNat_mul x y).trans (Nat.mod_eq_of_lt exact)

/-- A part that did exact computations only. -/
def Computes (st st' : StateTransition B) : Prop :=
  ∃ new, st' = { st with steps := new ++ st.steps } ∧ ∀ step ∈ new, step.Exact

variable {st : StateTransition B}

section Computes

variable {st' st'' : StateTransition B}

theorem Computes.refl (st : StateTransition B) : Computes st st :=
  ⟨[], rfl, fun _ member => (List.not_mem_nil member).elim⟩

theorem Computes.trans (first : Computes st st') (second : Computes st' st'')
    : Computes st st'' := by
  obtain ⟨new, rfl, exact⟩ := first
  obtain ⟨new', rfl, exact'⟩ := second
  refine ⟨new' ++ new, by simp only [List.append_assoc], fun step member => ?_⟩
  exact (List.mem_append.mp member).elim (exact' step) (exact step)

variable {allowed : TxStop → StateTransition B → Prop} {step : Arith}
  {Q : UInt64 → StateTransition B → Prop} {gas count price : UInt64}

theorem ensures_compute
    : Ensures allowed (compute step) st Q
      ↔ Q step.value { st with steps := step :: st.steps } :=
  Iff.rfl

theorem ensures_gasUsed
    : Ensures allowed gasUsed st Q
      ↔ Q (st.initialGas - st.gas)
          { st with steps := .sub st.initialGas st.gas :: st.steps } :=
  Iff.rfl

theorem yields_compute (exact : step.Exact) (st : StateTransition B)
    : Yields (compute step) st fun value st' => value = step.value ∧ Computes st st' :=
  ⟨rfl, [step], rfl, fun _ member => List.mem_singleton.mp member ▸ exact⟩

theorem yields_addPriced
    (fits : gas.toNat + count.toNat * price.toNat < 2 ^ 64) (st : StateTransition B)
    : Yields (addPriced gas count price) st fun value st' =>
        value.toNat = gas.toNat + count.toNat * price.toNat ∧ Computes st st' := by
  have product : (mul count price).Exact := by
    unfold Exact
    omega
  refine (yields_compute product st).bind fun cost st1 computed => ?_
  rw [← product.mul, ← computed.1] at fits ⊢
  refine (yields_compute (by exact fits) st1).mono fun value st2 added => ?_
  exact ⟨added.1 ▸ Exact.add fits, computed.2.trans added.2⟩

/-- The check against overflow leaves room for the product and the sum. -/
theorem fits_of_check (check : ¬ (0xffffffffffffffff - gas) / price < count)
    : gas.toNat + count.toNat * price.toNat < 2 ^ 64 := by
  have room : (0xffffffffffffffff - gas).toNat = 0xffffffffffffffff - gas.toNat :=
    UInt64.toNat_sub_of_le _ _ (UInt64.le_iff_toNat_le.mpr (by have := gas.toNat_lt; simp; omega))
  rw [UInt64.lt_iff_toNat_lt, UInt64.toNat_div, room, Nat.not_lt] at check
  have product := (Nat.mul_le_mul_right price.toNat check).trans (Nat.div_mul_le_self _ _)
  have bound := gas.toNat_lt
  omega

theorem toNat_ofNat_of_fits {n : Nat} (fits : n < 2 ^ 48) : (UInt64.ofNat n).toNat = n :=
  UInt64.toNat_ofNat_of_lt (fits.trans (by decide))

/-- The price of the data is computed without wrapping. -/
theorem yields_dataGas {data : Bytes} (fits : data.length < 2 ^ 48) (gas : UInt64)
    (isEIP2028 : Bool) (st : StateTransition B)
    : Yields (dataGas gas data isEIP2028) st fun value st' =>
        value.toNat ≤ gas.toNat + 68 * data.length ∧ Computes st st' := by
  have counted : data.countP (· ≠ 0) ≤ data.length := List.countP_le_length
  have nonZero := toNat_ofNat_of_fits (counted.trans_lt fits)
  have all := toNat_ofNat_of_fits fits
  have price : (if isEIP2028 then txDataNonZeroGasEIP2028
      else txDataNonZeroGasFrontier).toNat ≤ 68 := by
    cases isEIP2028 <;> decide
  have zeroPrice : txDataZeroGas.toNat = 4 := rfl
  refine .ite (fun _ => .ite (fun _ => trivial) fun check => ?_) fun _ => ⟨by omega, .refl st⟩
  have rest : (sub (UInt64.ofNat data.length) (UInt64.ofNat (data.countP (· ≠ 0)))).Exact := by
    rw [exact_sub, nonZero, all]
    exact counted
  refine (yields_addPriced (fits_of_check check) st).bind fun gas1 st1 first => ?_
  refine (yields_compute rest st1).bind fun zeros st2 second => ?_
  refine .ite (fun _ => trivial) fun check' => ?_
  refine (yields_addPriced (fits_of_check check') st2).mono fun gas2 st3 third => ?_
  refine ⟨?_, first.2.trans (second.2.trans third.2)⟩
  rw [third.1, first.1, second.1, rest.sub, nonZero, all, zeroPrice]
  have most := Nat.mul_le_mul_left (data.countP (· ≠ 0)) price
  omega

end Computes

/-- The intrinsic gas is computed without wrapping. -/
theorem yields_intrinsicGas (tx : Transaction) (isContractCreation isHomestead isEIP2028 : Bool)
    (st : StateTransition B)
    : Yields (intrinsicGas tx.data tx.accessList isContractCreation isHomestead isEIP2028) st
        fun _ st' => Computes st st' := by
  have fits := tx.fits
  have addresses := toNat_ofNat_of_fits (n := tx.accessList.length) (by omega)
  have keys := toNat_ofNat_of_fits (n := storageKeys tx.accessList) (by omega)
  have addressPrice : txAccessListAddressGas.toNat = 2400 := rfl
  have keyPrice : txAccessListStorageKeyGas.toNat = 1900 := rfl
  have base : (if (isContractCreation && isHomestead) = true then txGasContractCreation
      else txGas).toNat ≤ 53000 := by
    cases isContractCreation && isHomestead <;> decide
  refine (yields_dataGas (by omega) _ isEIP2028 st).bind fun gas1 st1 first => ?_
  refine (yields_addPriced ?_ st1).bind fun gas2 st2 second => ?_
  · rw [addresses, addressPrice]
    omega
  refine (yields_addPriced ?_ st2).mono fun gas3 st3 third => first.2.trans (second.2.trans third.2)
  rw [second.1, addresses, addressPrice, keys, keyPrice]
  omega

/-! Before the execution. -/

/-- A part that did exact computations and left no balance negative. -/
structure Progress (st st' : StateTransition B) : Prop where
  steps : ∃ new, st'.steps = new ++ st.steps ∧ ∀ step ∈ new, step.Exact
  stays : StaysSolvent st.machine st'.machine

theorem Progress.trans {st' st'' : StateTransition B} (first : Progress st st')
    (second : Progress st' st'')
    : Progress st st'' := by
  obtain ⟨new, steps, exact⟩ := first.steps
  obtain ⟨new', steps', exact'⟩ := second.steps
  refine ⟨⟨new' ++ new, by rw [steps', steps, List.append_assoc], fun step member => ?_⟩,
    first.stays.trans second.stays⟩
  exact (List.mem_append.mp member).elim (exact' step) (exact step)

theorem yields_quiet {α : Type} {p : Evm B α} (quiet : Quiet p) (st : StateTransition B)
    : Yields (onEVM p) st fun a st' =>
        ∃ m, st' = { st with machine := m } ∧ Hushed st.machine m
          ∧ p st.machine = (.ok a, m) := by
  have hushed := quiet st.machine
  unfold Yields Ensures After onEVM
  generalize p st.machine = result at hushed ⊢
  obtain ⟨_ | a, m⟩ := result
  · trivial
  · exact ⟨m, rfl, hushed, rfl⟩

variable {tx : Transaction} {sender : Address}

section Prepare

/-- The check of the nonce only reads. -/
theorem yields_checkNonces (st : StateTransition B)
    : Yields (checkNonces (messageAt tx sender baseFee)) st fun _ st' =>
        ∃ m, st' = { st with machine := m } ∧ Hushed st.machine m
          ∧ st.machine.db.nonceOf sender = tx.nonce := by
  refine .ite (fun _ => ?_) fun no => absurd rfl no
  refine (yields_quiet (quiet_query rfl _) st).bind fun nonce st1 read => ?_
  obtain ⟨m, rfl, hushed, run⟩ := read
  refine .ite (fun _ => trivial) fun notLow => .ite (fun _ => trivial) fun notHigh => ?_
  have value : nonce = st.machine.db.nonceOf sender := by
    rw [← StateDB.getNonce_value]
    exact (Except.ok.inj (Prod.mk.inj run).1).symm
  have equal : nonce = tx.nonce :=
    UInt64.le_antisymm (UInt64.not_lt.mp notHigh) (UInt64.not_lt.mp notLow)
  exact ⟨m, rfl, hushed, value.symm.trans equal⟩

/-- Gas is taken from the pool, which has enough of it. -/
theorem yields_subGas (amount : UInt64) (st : StateTransition B)
    : Yields (subGas amount) st fun _ st' =>
        ∃ gp step, st' = { st with gp := gp, steps := step :: st.steps } ∧ step.Exact
          ∧ gp.toNat + amount.toNat = st.gp.toNat := by
  refine .get ?_
  refine .ite (fun _ => trivial) fun enough => ?_
  have exact : (sub st.gp amount).Exact := UInt64.not_lt.mp enough
  refine ⟨st.gp - amount, _, rfl, exact, ?_⟩
  have small := exact_sub.mp exact
  have value : (st.gp - amount).toNat = _ := exact.sub
  omega

variable (s : StateDB B) (addr : Address) (amount : Int)

/-- The total falls with one balance. -/
theorem totalBalance_subBalance
    : totalBalance (s.subBalance addr amount) = totalBalance s - amount := by
  rw [Int.sub_eq_add_neg]
  have shift (other : Address) : (s.subBalance addr amount).balanceOf other
      = if other = addr then s.balanceOf other + -amount else s.balanceOf other := by
    rw [← Int.sub_eq_add_neg]
    exact s.balanceOf_subBalance addr amount other
  exact totalBalance_shift shift

theorem totalBalance_addBalance
    : totalBalance (s.addBalance addr amount) = totalBalance s + amount :=
  totalBalance_shift fun other => s.balanceOf_addBalance addr amount other

variable {s : StateDB B} {addr : Address} {amount : Int}

/-- No balance is negative after a payment that was affordable. -/
theorem solvent_subBalance (solvent : Solvent s) (enough : amount ≤ s.balanceOf addr)
    : Solvent (s.subBalance addr amount) := by
  intro other
  have positive := solvent other
  rw [StateDB.balanceOf_subBalance]
  split
  · rename_i here
    rw [here]
    omega
  · exact positive

/-- No balance is negative after an amount that leaves the account positive. -/
theorem solvent_addBalance (solvent : Solvent s) (enough : 0 ≤ s.balanceOf addr + amount)
    : Solvent (s.addBalance addr amount) := by
  intro other
  have positive := solvent other
  rw [StateDB.balanceOf_addBalance]
  split
  · rename_i here
    rw [here]
    exact enough
  · exact positive

/-- The gas was bought, at the price of the message. -/
structure Bought (tx : Transaction) (sender : Address) (price : Int) (st st' : StateTransition B)
    : Prop where
  progress : Progress st st'
  gp : st'.gp.toNat + tx.gas.toNat = st.gp.toNat
  gas : st'.gas = tx.gas
  initialGas : st'.initialGas = tx.gas
  total : totalBalance st'.machine.db = totalBalance st.machine.db - tx.gas.toNat * price
  nonce : st'.machine.db.nonceOf sender = st.machine.db.nonceOf sender
  forward : Forward st.machine.db st'.machine.db
  context : Context st.machine st'.machine

/-- What buying the gas changes. -/
theorem yields_buyGas (solvent : Solvent st.machine.db) (fresh : st.gas = 0)
    : Yields (buyGas (messageAt tx sender baseFee)) st fun _ st' =>
        Bought tx sender (messageAt tx sender baseFee).gasPrice st st' := by
  refine (yields_quiet (quiet_query rfl _) st).bind fun balance st1 read => ?_
  obtain ⟨m, rfl, hushed, run⟩ := read
  refine .ite (fun _ => trivial) fun enough => ?_
  refine (yields_subGas tx.gas _).bind fun _ st2 taken => ?_
  obtain ⟨gp, step, rfl, exact, pool⟩ := taken
  refine .get ?_
  have sum : (add st.gas tx.gas).Exact := by
    rw [fresh]
    show 0 + tx.gas.toNat < 2 ^ 64
    rw [Nat.zero_add]
    exact tx.gas.toNat_lt
  have accounts := hushed.alike.accounts
  have reads := hushed.solvent solvent
  have affordable
      : tx.gas.toNat * (messageAt tx sender baseFee).gasPrice ≤ m.db.balanceOf sender := by
    have covered : tx.gas.toNat * (tx.fees.gasFeeCap : Int) ≤ balance := not_lt.mp enough
    have value : balance = st.machine.db.balanceOf sender := by
      rw [← StateDB.getBalance_value]
      exact (Except.ok.inj (Prod.mk.inj run).1).symm
    have cheaper := Int.mul_le_mul_of_nonneg_left (gasPrice_le tx sender baseFee)
      (Int.natCast_nonneg tx.gas.toNat)
    rw [accounts.balance, ← value]
    exact cheaper.trans covered
  have paid := solvent_subBalance reads.solvent affordable
  have pays : Performs m (.subBalance sender
      (tx.gas.toNat * (messageAt tx sender baseFee).gasPrice)) _ :=
    ⟨_, rfl, rfl⟩
  refine
    {
      progress := ⟨⟨[add st.gas tx.gas, step], rfl, ?_⟩, reads.trans (.of_moved paid)⟩
      gp := pool
      gas := ?_
      initialGas := rfl
      total := ?_
      nonce := ?_
      forward := Forward.trans hushed.forward (pays.forward nofun)
      context := hushed.context.trans pays.context
    }
  · exact fun other member => (List.mem_pair.mp member).elim (· ▸ sum) (· ▸ exact)
  · show st.gas + tx.gas = tx.gas
    rw [fresh]
    exact UInt64.zero_add _
  · show totalBalance (m.db.subBalance sender _) = _
    rw [totalBalance_subBalance, totalBalance_congr accounts.balance]
    rfl
  · exact (StateDB.nonceOf_subBalance _ _ _ _).trans (accounts.nonce sender)

variable (st)

/-- The intrinsic gas is taken from the gas that was bought. -/
theorem yields_payIntrinsicGas
    : Yields (payIntrinsicGas evm (messageAt tx sender baseFee)) st fun _ st' =>
        ∃ gas new, st' = { st with gas := gas, steps := new ++ st.steps }
          ∧ (∀ step ∈ new, step.Exact) ∧ gas.toNat ≤ st.gas.toNat := by
  refine (yields_intrinsicGas tx _ _ _ st).bind fun gas st1 computes => ?_
  obtain ⟨new, rfl, exact⟩ := computes
  refine .get ?_
  refine .ite (fun _ => trivial) fun enough => ?_
  have difference : (sub st.gas gas).Exact := UInt64.not_lt.mp enough
  refine ⟨st.gas - gas, sub st.gas gas :: new, rfl, ?_, ?_⟩
  · exact List.forall_mem_cons.mpr ⟨difference, exact⟩
  · have value : (st.gas - gas).toNat = _ := difference.sub
    omega

theorem yields_checkTransfer (msg : Message)
    : Yields (checkTransfer msg) st fun _ st' =>
        ∃ m, st' = { st with machine := m } ∧ Hushed st.machine m := by
  refine .ite (fun _ => ?_) fun _ => ⟨st.machine, rfl, .refl⟩
  have quiet : Quiet (canTransfer msg.sender msg.amount : Evm B Bool) :=
    .bind (quiet_query rfl _) fun _ => .pure _
  refine (yields_quiet quiet st).bind fun able st1 read => ?_
  obtain ⟨m, rfl, hushed, -⟩ := read
  exact .ite (fun _ => ⟨m, rfl, hushed⟩) fun _ => trivial

variable {st}

theorem quiet_forM {α : Type} {f : α → Evm B Unit} (each : ∀ a, Quiet (f a)) (list : List α)
    : Quiet (list.forM f) := by
  induction list with
  | nil => exact .pure ()
  | cons a rest ih => exact .bind (each a) fun _ => ih

theorem quiet_prepareAccessList (sender : Address) (dst : Option Address)
    (precompiles : List Address) (list : List AccessTuple)
    : Quiet (prepareAccessList sender dst precompiles list : Evm B Unit) := by
  have quietTuple (tuple : AccessTuple) : Quiet (addTuple tuple : Evm B Unit) :=
    .bind (quiet_perform rfl) fun _ => quiet_forM (fun _ => quiet_perform rfl) _
  exact .bind (quiet_perform rfl) fun _ => .bind (quiet_forM (fun _ => quiet_perform rfl) _)
    fun _ => .bind (quiet_forM (fun _ => quiet_perform rfl) _) fun _ => quiet_forM quietTuple list

theorem yields_setupAccessList (evm : EVM B) (msg : Message) (st : StateTransition B)
    : Yields (setupAccessList evm msg) st fun _ st' =>
        ∃ m, st' = { st with machine := m } ∧ Hushed st.machine m := by
  refine .ite (fun _ => ?_) fun _ => ⟨st.machine, rfl, .refl⟩
  refine (yields_quiet (quiet_prepareAccessList _ _ _ _) st).mono fun _ st1 listed => ?_
  obtain ⟨m, rfl, hushed, -⟩ := listed
  exact ⟨m, rfl, hushed⟩

/-- What a transaction has paid for when it is executed. -/
structure Prepared (evm : EVM B) (tx : Transaction) (sender : Address) (baseFee : Option Nat)
    (st st' : StateTransition B)
    : Prop where
  progress : Progress st st'
  gp : st'.gp.toNat + tx.gas.toNat = st.gp.toNat
  initialGas : st'.initialGas = tx.gas
  gas : st'.gas.toNat ≤ tx.gas.toNat
  total
    : totalBalance st'.machine.db
      = totalBalance st.machine.db - tx.gas.toNat * (messageAt tx sender baseFee).gasPrice
  nonce : st'.machine.db.nonceOf sender = tx.nonce
  covered : baseFee.getD 0 ≤ tx.fees.gasFeeCap ∨ Skips tx evm
  forward : Forward st.machine.db st'.machine.db
  context : Context st.machine st'.machine

/-- What holds when the execution begins. -/
theorem yields_prepare (header : AtHeader evm baseFee) (solvent : Solvent st.machine.db)
    (fresh : st.gas = 0)
    : Yields (prepare evm (messageAt tx sender baseFee)) st fun _ st' =>
        Prepared evm tx sender baseFee st st' := by
  have checks : Yields (preCheck evm (messageAt tx sender baseFee)) st fun _ st' =>
      Bought tx sender (messageAt tx sender baseFee).gasPrice st st'
        ∧ st'.machine.db.nonceOf sender = tx.nonce
        ∧ (baseFee.getD 0 ≤ tx.fees.gasFeeCap ∨ Skips tx evm) := by
    refine (yields_checkNonces st).bind fun _ st1 checked => ?_
    obtain ⟨m, rfl, hushed, nonce⟩ := checked
    refine (yields_checkLondon tx sender header _).bind fun _ st2 fees => ?_
    obtain ⟨rfl, covered⟩ := fees
    have accounts := hushed.alike.accounts
    have reads := hushed.solvent solvent
    have earlier : Progress st { st with machine := m } := ⟨⟨[], rfl, nofun⟩, reads⟩
    refine (yields_buyGas (by exact reads.solvent) (by exact fresh)).mono fun _ st3 bought => ?_
    refine ⟨⟨?_, bought.gp, bought.gas, bought.initialGas, ?_, ?_, ?_, ?_⟩, ?_, covered⟩
    · exact earlier.trans bought.progress
    · rw [bought.total, totalBalance_congr accounts.balance]
    · exact bought.nonce.trans (accounts.nonce sender)
    · exact Forward.trans hushed.forward bought.forward
    · exact hushed.context.trans bought.context
    · exact bought.nonce.trans ((accounts.nonce sender).trans nonce)
  refine checks.bind fun _ st1 checked => ?_
  obtain ⟨bought, nonce, covered⟩ := checked
  refine (yields_payIntrinsicGas st1).bind fun _ st2 paid => ?_
  obtain ⟨gas, new, rfl, exact, less⟩ := paid
  refine (yields_checkTransfer _ _).bind fun _ st3 able => ?_
  obtain ⟨m, rfl, hushed⟩ := able
  refine (yields_setupAccessList evm _ _).mono fun _ st4 listed => ?_
  obtain ⟨m', rfl, hushed'⟩ := listed
  have both : Hushed st1.machine m' := hushed.trans hushed'
  have accounts := Hushed.alike both |>.accounts
  have reads := Hushed.solvent both bought.progress.stays.solvent
  exact
    {
      progress := bought.progress.trans ⟨⟨new, rfl, exact⟩, reads⟩
      gp := bought.gp
      initialGas := bought.initialGas
      gas := bought.gas ▸ less
      total := (totalBalance_congr accounts.balance).trans bought.total
      nonce := (accounts.nonce sender).trans nonce
      covered := covered
      forward := Forward.trans bought.forward (Hushed.forward both)
      context := bought.context.trans (Hushed.context both)
    }

end Prepare

/-! The execution and the settlement. -/

section Settle

theorem yields_onEVM {α : Type} (p : Evm B α) (st : StateTransition B)
    : Yields (onEVM p) st fun _ st' => st' = { st with machine := (p st.machine).2 } := by
  unfold Yields Ensures After onEVM
  generalize p st.machine = result
  obtain ⟨_ | a, m⟩ := result
  · trivial
  · rfl

theorem ensures_addBalance {allowed : TxStop → StateTransition B → Prop} {addr : Address}
    {amount : Int} {Q : Unit → StateTransition B → Prop}
    : Ensures allowed (onEVM (perform (.addBalance addr amount))) st Q
      ↔ Q () { st with machine := st.machine.moved (st.machine.db.addBalance addr amount) } :=
  Iff.rfl

/-- The computation with the nonce of the sender, which a creation leaves to the EVM. -/
def nonceStep (msg : Message) (s : StateDB B) : List Arith :=
  match msg.toAddr with
  | none => []
  | some _ => [.add (s.nonceOf msg.sender) 1]

/-- The execution leaves the pool alone, and its only other step is the nonce. -/
theorem yields_execute (evm : EVM B) (msg : Message) (st : StateTransition B)
    : Yields (execute evm msg) st fun _ st' =>
        st'.gp = st.gp ∧ st'.initialGas = st.initialGas
          ∧ st'.steps = nonceStep msg st.machine.db ++ st.steps := by
  unfold execute nonceStep
  refine .get ?_
  rcases msg.toAddr with _ | addr
  · refine (yields_onEVM _ st).bind fun _ st1 created => ?_
    subst created
    exact ⟨rfl, rfl, rfl⟩
  · refine (yields_quiet (quiet_query rfl _) st).bind fun nonce st1 read => ?_
    obtain ⟨m, rfl, -, run⟩ := read
    have value : nonce = st.machine.db.nonceOf msg.sender := by
      rw [← StateDB.getNonce_value]
      exact (Except.ok.inj (Prod.mk.inj run).1).symm
    refine .seq (ensures_compute.mpr ?_)
    refine (yields_onEVM _ _).bind fun _ st2 set => ?_
    refine (yields_onEVM _ st2).bind fun _ st3 called => ?_
    subst set called
    exact ⟨rfl, rfl, value ▸ rfl⟩

/-- Gas goes back to the pool; the code panics if the sum wraps. -/
theorem yields_addGas (amount : UInt64) (st : StateTransition B)
    : Yields (addGas amount) st fun _ st' =>
        ∃ gp step, st' = { st with gp := gp, steps := step :: st.steps } ∧ step.Exact
          ∧ gp.toNat = st.gp.toNat + amount.toNat := by
  refine .get ?_
  refine .ite (fun _ => trivial) fun fits => ?_
  have room : (0xffffffffffffffff - amount).toNat = 0xffffffffffffffff - amount.toNat := by
    refine UInt64.toNat_sub_of_le _ _ (UInt64.le_iff_toNat_le.mpr ?_)
    have bound := amount.toNat_lt
    simp
    omega
  have exact : (add st.gp amount).Exact := by
    have below := UInt64.le_iff_toNat_le.mp (UInt64.not_lt.mp fits)
    have bound := amount.toNat_lt
    rw [room] at below
    show st.gp.toNat + amount.toNat < 2 ^ 64
    omega
  exact ⟨st.gp + amount, _, rfl, exact, exact.add⟩

/-- The refund, and what the sender gets back. -/
structure Refunded (sender : Address) (price : Int) (quotient : Nat) (st st' : StateTransition B)
    : Prop where
  steps : ∃ new, st'.steps = new ++ st.steps ∧ ∀ step ∈ new, step.Exact
  machine
    : st'.machine
      = st.machine.moved (st.machine.db.addBalance sender (st'.gas.toNat * price))
  initialGas : st'.initialGas = st.initialGas
  gas : st'.gas.toNat = st.gas.toNat + st'.refunded.toNat
  refunded
    : st'.refunded.toNat
      = min ((st.initialGas.toNat - st.gas.toNat) / quotient) st.machine.db.refund.toNat
  gp : st'.gp.toNat = st.gp.toNat + st'.gas.toNat

/-- What the refund changes: it is the counter or its cap, whichever is smaller. -/
theorem yields_refundGas (msg : Message) (quotient : UInt64) (left : st.gas ≤ st.initialGas)
    : Yields (refundGas msg quotient) st fun _ st' =>
        Refunded msg.sender msg.gasPrice quotient.toNat st st' := by
  have difference : (sub st.initialGas st.gas).Exact := left
  have used : (st.initialGas - st.gas).toNat = _ := difference.sub
  have less := exact_sub.mp difference
  refine .seq (ensures_gasUsed.mpr (.seq ?_))
  rw [ensures_get]
  generalize isRefund : (if (st.initialGas - st.gas) / quotient > st.machine.db.refund
    then st.machine.db.refund else (st.initialGas - st.gas) / quotient) = refund
  have capped : refund.toNat
      = min ((st.initialGas.toNat - st.gas.toNat) / quotient.toNat)
        st.machine.db.refund.toNat := by
    rw [← used, ← UInt64.toNat_div, ← isRefund]
    split
    · rename_i more
      exact (Nat.min_eq_right (UInt64.le_of_lt more)).symm
    · rename_i less
      exact (Nat.min_eq_left (UInt64.not_lt.mp less)).symm
  have small := capped.trans_le ((Nat.min_le_left _ _).trans (Nat.div_le_self _ _))
  have sum : (add st.gas refund).Exact := by
    have bound := st.initialGas.toNat_lt
    show st.gas.toNat + refund.toNat < 2 ^ 64
    omega
  refine .seq (ensures_compute.mpr (.seq ?_))
  refine ensures_modify.mpr (.seq (ensures_addBalance.mpr ?_))
  refine (yields_addGas _ _).mono fun _ st' added => ?_
  obtain ⟨gp, step, rfl, exact, pool⟩ := added
  exact
    {
      steps := ⟨[step, .add st.gas refund, .sub st.initialGas st.gas], rfl, by simp [*]⟩
      machine := rfl
      initialGas := rfl
      gas := sum.add
      refunded := capped
      gp := pool
    }

/-- The fee of the miner is what the transaction pays over the base fee. -/
theorem payTip_run (header : AtHeader evm baseFee) (st : StateTransition B)
    : payTip evm (messageAt tx sender baseFee) st
      = (.ok (),
          { st with
            machine := st.machine.moved (st.machine.db.addBalance evm.coinbase
              ((st.initialGas - st.gas).toNat
                * ((messageAt tx sender baseFee).gasPrice - baseFee.getD 0)))
            steps := .sub st.initialGas st.gas :: st.steps }) := by
  show Prog.bind (effectiveTip evm (messageAt tx sender baseFee)) _ st = _
  unfold Prog.bind
  rw [effectiveTip_run tx sender header]
  rfl

/-- The interpreter conserves the balances but for what it burns. -/
theorem yields_execute_conserved (injective : B.Injective) (env : Env)
    (fee : Option Int) (noBaseFee : Bool) {msg : Message} (positive : 0 ≤ msg.amount)
    (ok : st.machine.db.Ok) (solvent : Solvent st.machine.db)
    (notStatic : st.machine.readOnly = false)
    : Yields (execute (newEVM env fee noBaseFee) msg) st fun _ st' =>
        Conserved st.machine st'.machine := by
  have writable : Writable env st.machine := fun forbidden => by
    rw [notStatic] at forbidden
    exact Bool.false_ne_true forbidden.1
  have conducts := conducts_runAt (B := B) env False (callCreateDepth + 1)
  unfold execute
  refine .get ?_
  rcases msg.toAddr with _ | addr
  · refine (yields_onEVM _ st).bind fun _ st1 created => ?_
    subst created
    have tracks : Abides env False msg.sender
        (create env (interpreter env) msg.sender msg.data st.gas msg.amount) st.machine :=
      tracks_create conducts writable positive msg.data
    exact tracks.always.conserved injective ok solvent
  · refine (yields_quiet (quiet_query rfl _) st).bind fun nonce st1 read => ?_
    obtain ⟨m, rfl, hushed, -⟩ := read
    refine .seq (ensures_compute.mpr ?_)
    refine (yields_onEVM _ _).bind fun _ st2 set => ?_
    refine (yields_onEVM _ st2).bind fun _ st3 called => ?_
    subst called
    have performs : Performs m (.setNonce msg.sender (nonce + 1)) st2.machine :=
      ⟨_, rfl, congrArg StateTransition.machine set⟩
    have reads := hushed.conserved solvent
    have conserved := reads.trans (performs.conserved (performs.balances rfl) reads.stays.solvent)
    have forward : Forward st.machine.db st2.machine.db :=
      Forward.trans hushed.forward (performs.forward nofun)
    have context : Context st.machine st2.machine := hushed.context.trans performs.context
    have tracks : Abides env False msg.sender
        (call env (interpreter env) msg.sender addr msg.data st.gas msg.amount) st2.machine :=
      tracks_call conducts (fun impossible => impossible.elim)
        (.inr ⟨context.writable writable, positive⟩)
    exact conserved.trans
      (tracks.always.conserved injective (forward.ok injective ok) conserved.stays.solvent)

end Settle

/-! The accounts. -/

/-- The gas that is charged if the execution leaves `left` gas and the refund counter at `refund`:
the refund is at most a fifth of the used gas since London, and a half before.
-/
def chargedGas (evm : EVM B) (tx : Transaction) (left refund : UInt64) : Nat :=
  let used := tx.gas.toNat - left.toNat
  used - min (used / (if evm.rules.isLondon then 5 else 2)) refund.toNat

/-- The accounts of a transaction that started in `s` with the pool `gp`. -/
structure Accounted (evm : EVM B) (tx : Transaction) (baseFee : Option Nat) (s : StateDB B)
    (gp : UInt64) (result : ExecutionResult) (st : StateTransition B)
    : Prop where
  pool : st.gp.toNat + result.usedGas.toNat = gp.toNat
  used : result.usedGas ≤ tx.gas
  refund
    : st.refunded.toNat
      ≤ (result.usedGas.toNat + st.refunded.toNat) / (if evm.rules.isLondon then 5 else 2)
  exact : ∀ step ∈ st.steps, step.Exact
  solvent : StaysSolvent (newStateTransition s gp).machine st.machine
  total
    : totalBalance st.machine.db
      = totalBalance s - result.usedGas.toNat * (baseFee.getD 0 : Nat)

section Accounted

theorem tip_nonneg (tx : Transaction) (sender : Address)
    (covered : baseFee.getD 0 ≤ tx.fees.gasFeeCap)
    : 0 ≤ (messageAt tx sender baseFee).gasPrice - (baseFee.getD 0 : Nat) := by
  rcases baseFee with _ | fee
  · have price := gasPrice_nonneg tx sender none
    simpa using price
  · have covered : fee ≤ tx.fees.gasFeeCap := covered
    show 0 ≤ bigMin (tx.fees.gasTipCap + fee) tx.fees.gasFeeCap - (fee : Int)
    unfold bigMin
    split <;> omega

/-- Where the checks are skipped, the price is zero. -/
theorem gasPrice_of_skips (header : AtHeader evm baseFee) (skips : Skips tx evm)
    : (messageAt tx sender baseFee).gasPrice = 0 := by
  obtain ⟨london, -, feeCap, tipCap⟩ := skips
  rcases baseFee with _ | fee
  · exact nomatch header.london.symm.trans london
  · show bigMin (tx.fees.gasTipCap + fee) tx.fees.gasFeeCap = 0
    unfold bigMin
    split <;> omega

/-- The computations are exact unless the nonce of the sender wraps. -/
theorem nonceStep_exact_iff (baseFee : Option Nat) {s : StateDB B}
    (nonce : s.nonceOf sender = tx.nonce)
    : (∀ step ∈ nonceStep (messageAt tx sender baseFee) s, step.Exact)
      ↔ (tx.toAddr ≠ none → tx.nonce ≠ 0xffffffffffffffff) := by
  have wraps : (add tx.nonce 1).Exact ↔ tx.nonce ≠ 0xffffffffffffffff := by
    have bound := tx.nonce.toNat_lt
    show tx.nonce.toNat + 1 < 2 ^ 64 ↔ _
    rw [Ne, ← UInt64.toNat_inj]
    simp only [UInt64.reduceToNat]
    omega
  unfold nonceStep
  show (∀ step ∈ (match tx.toAddr with
    | none => []
    | some _ => [add (s.nonceOf sender) 1]), step.Exact) ↔ _
  rw [nonce]
  cases tx.toAddr with
  | none => simp
  | some addr => simpa using wraps

section Refunded

variable {quotient : Nat} {st st' : StateTransition B}

theorem Refunded.stays {price : Int} (refunded : Refunded sender price quotient st st')
    (positive : 0 ≤ price) (solvent : Solvent st.machine.db)
    : StaysSolvent st.machine st'.machine := by
  have back := Int.mul_nonneg (Int.natCast_nonneg st'.gas.toNat) positive
  rw [refunded.machine]
  exact .of_moved (solvent_addBalance solvent (Int.add_nonneg (solvent sender) back))

/-- Without a price, the sender gets nothing back, whoever it is. -/
theorem Refunded.miner (header : AtHeader evm baseFee) (skips : Skips tx evm)
    (refunded : Refunded sender (messageAt tx sender baseFee).gasPrice quotient st st')
    : st'.machine.db.balanceOf evm.coinbase = st.machine.db.balanceOf evm.coinbase := by
  rw [refunded.machine]
  refine (StateDB.balanceOf_addBalance _ _ _ _).trans ?_
  rw [gasPrice_of_skips header skips, Int.mul_zero, Int.add_zero, ite_self]

/-- The fee of the miner is negative only if the checks of the fees were skipped. -/
theorem Refunded.solvent_iff (header : AtHeader evm baseFee)
    (refunded : Refunded sender (messageAt tx sender baseFee).gasPrice quotient st st')
    (solvent : Solvent st'.machine.db)
    (covered : baseFee.getD 0 ≤ tx.fees.gasFeeCap ∨ Skips tx evm) (used : Nat)
    : Solvent (st'.machine.db.addBalance evm.coinbase
        (used * ((messageAt tx sender baseFee).gasPrice - (baseFee.getD 0 : Nat))))
      ↔ (Skips tx evm
        → used * (baseFee.getD 0 : Nat) ≤ st.machine.db.balanceOf evm.coinbase) := by
  constructor
  · intro paid skips
    have positive := paid evm.coinbase
    rw [StateDB.balanceOf_addBalance, if_pos rfl, refunded.miner header skips,
      gasPrice_of_skips header skips, Int.zero_sub, Int.mul_neg] at positive
    omega
  · intro affordable
    refine solvent_addBalance solvent ?_
    rcases covered with covered | skips
    · have tip := tip_nonneg tx sender covered
      exact Int.add_nonneg (solvent evm.coinbase) (Int.mul_nonneg (Int.natCast_nonneg _) tip)
    · have enough := affordable skips
      rw [refunded.miner header skips, gasPrice_of_skips header skips, Int.zero_sub, Int.mul_neg]
      omega

/-- The gas that is charged, the refund and what is left make up the gas of the transaction. -/
theorem Refunded.charged {price : Int} {quotient : UInt64}
    (refunded : Refunded sender price quotient.toNat st st')
    (isQuotient : quotient.toNat = if evm.rules.isLondon then 5 else 2)
    (initial : st.initialGas = tx.gas) (left : st.gas.toNat ≤ tx.gas.toNat)
    : (sub st'.initialGas st'.gas).Exact
      ∧ (st'.initialGas - st'.gas).toNat = chargedGas evm tx st.gas st.machine.db.refund
      ∧ (st'.initialGas - st'.gas).toNat + st'.refunded.toNat = tx.gas.toNat - st.gas.toNat
      ∧ st'.refunded.toNat
        ≤ (tx.gas.toNat - st.gas.toNat) / (if evm.rules.isLondon then 5 else 2) := by
  have initial' : st'.initialGas = tx.gas := refunded.initialGas.trans initial
  have counted := refunded.refunded
  rw [isQuotient, initial] at counted
  have gas := refunded.gas
  have capped := counted.trans_le (Nat.min_le_left _ _)
  have small := capped.trans (Nat.div_le_self _ _)
  have difference : (sub st'.initialGas st'.gas).Exact := by
    rw [exact_sub, initial']
    omega
  have used : (st'.initialGas - st'.gas).toNat = tx.gas.toNat - st'.gas.toNat := by
    rw [← initial']
    exact difference.sub
  refine ⟨difference, ?_, by omega, capped⟩
  show _ = tx.gas.toNat - st.gas.toNat - min _ _
  rw [← counted]
  omega

end Refunded

/-- After the execution, the accounts are right exactly under the two conditions. -/
theorem yields_settle (header : AtHeader evm baseFee) {s : StateDB B} {gp : UInt64}
    {before after : StateTransition B}
    (prepared : Prepared evm tx sender baseFee (newStateTransition s gp) before)
    (pool : after.gp = before.gp) (initialGas : after.initialGas = before.initialGas)
    (steps
      : after.steps = nonceStep (messageAt tx sender baseFee) before.machine.db ++ before.steps)
    (leftover : after.gas ≤ before.gas)
    (conserves : totalBalance after.machine.db = totalBalance before.machine.db)
    (stays : StaysSolvent before.machine after.machine) (out : Bytes × Option VMError)
    : Yields (settle evm (messageAt tx sender baseFee) out) after fun result st =>
        Accounted evm tx baseFee s gp result st
          ↔ (tx.toAddr ≠ none → tx.nonce ≠ 0xffffffffffffffff)
            ∧ (Skips tx evm
              → chargedGas evm tx after.gas after.machine.db.refund * (baseFee.getD 0 : Nat)
                ≤ after.machine.db.balanceOf evm.coinbase) := by
  have initial : after.initialGas = tx.gas := initialGas.trans prepared.initialGas
  have unused : after.gas.toNat ≤ tx.gas.toNat :=
    (UInt64.le_iff_toNat_le.mp leftover).trans prepared.gas
  have left : after.gas ≤ after.initialGas := by
    rw [UInt64.le_iff_toNat_le, initial]
    exact unused
  refine (yields_refundGas _ _ left).bind fun _ st1 refunded => ?_
  refine .seq (.of_returned (payTip_run header st1) ?_)
  refine .seq (ensures_gasUsed.mpr ?_)
  have quotient : (if evm.rules.isLondon then refundQuotientEIP3529 else refundQuotient).toNat
      = if evm.rules.isLondon then 5 else 2 := by
    split <;> rfl
  obtain ⟨difference, charged, parts, capped⟩ := refunded.charged quotient initial unused
  have gas := refunded.gas
  have staysCredited : StaysSolvent (newStateTransition s gp).machine st1.machine :=
    prepared.progress.stays.trans (stays.trans
      (refunded.stays (gasPrice_nonneg tx sender baseFee) stays.solvent))
  have paid := refunded.solvent_iff header staysCredited.solvent prepared.covered
    (st1.initialGas - st1.gas).toNat
  rw [charged] at paid
  obtain ⟨new, newSteps, newExact⟩ := refunded.steps
  obtain ⟨old, oldSteps, oldExact⟩ := prepared.progress.steps
  have oldSteps : before.steps = old := oldSteps.trans (List.append_nil old)
  have nonces := nonceStep_exact_iff baseFee prepared.nonce
  refine ensures_pure.mpr (Iff.trans ?_ (and_congr nonces paid))
  constructor
  · intro accounted
    refine ⟨fun step member => accounted.exact step ?_, ?_⟩
    · rw [newSteps, steps]
      simp [member]
    · rw [← charged]
      exact accounted.solvent.solvent
  · rintro ⟨exact, solvent⟩
    rw [← charged] at solvent
    refine
      {
        pool := ?_
        used := ?_
        refund := ?_
        exact := ?_
        solvent := staysCredited.trans (.of_moved solvent)
        total := ?_
      }
    · show st1.gp.toNat + (st1.initialGas - st1.gas).toNat = gp.toNat
      have bought : before.gp.toNat + tx.gas.toNat = gp.toNat := prepared.gp
      have returned := refunded.gp
      rw [pool] at returned
      omega
    · show st1.initialGas - st1.gas ≤ tx.gas
      rw [UInt64.le_iff_toNat_le]
      omega
    · show st1.refunded.toNat ≤ ((st1.initialGas - st1.gas).toNat + st1.refunded.toNat) / _
      rw [parts]
      exact capped
    · have all : ∀ step ∈ sub st1.initialGas st1.gas
          :: sub st1.initialGas st1.gas :: st1.steps, step.Exact := by
        rw [newSteps, steps, oldSteps]
        simp only [List.forall_mem_cons, List.forall_mem_append]
        exact ⟨difference, difference, newExact, exact, oldExact⟩
      exact all
    · show totalBalance (st1.machine.db.addBalance _ _) = _
      have start : totalBalance before.machine.db = totalBalance s - _ := prepared.total
      have sum : (tx.gas.toNat : Int) = (st1.initialGas - st1.gas).toNat + st1.gas.toNat := by
        omega
      rw [totalBalance_addBalance, refunded.machine]
      show totalBalance (after.machine.db.addBalance _ _) + _ = _
      rw [totalBalance_addBalance, conserves, start, sum]
      show totalBalance s - (_ + _) * (messageAt tx sender baseFee).gasPrice
        + _ * (messageAt tx sender baseFee).gasPrice + _ = _
      ring

end Accounted

/-- A transaction that succeeds, whose execution leaves no more gas than it got, conserves the
total of the balances and makes none negative.
-/
structure Executed (evm : EVM B) (tx : Transaction) (sender : Address) (baseFee : Option Nat)
    (s : StateDB B) (gp : UInt64) (before after : StateTransition B)
    (out : Bytes × Option VMError) (result : ExecutionResult) (st : StateTransition B)
    : Prop where
  prepared
    : prepare evm (messageAt tx sender baseFee) (newStateTransition s gp) = (.ok (), before)
  executed : execute evm (messageAt tx sender baseFee) before = (.ok out, after)
  leftover : after.gas ≤ before.gas
  conserves : totalBalance after.machine.db = totalBalance before.machine.db
  stays : StaysSolvent before.machine after.machine
  run
    : transitionDb evm (messageAt tx sender baseFee) (newStateTransition s gp)
      = (.ok result, st)

/-- The pool loses the gas that was used, which is at most the gas of the transaction; the refund
is capped; all computations with 64 bits are exact; no balance becomes negative; and the total
loses the base fee of the gas that was used. This holds unless the nonce of the sender wraps, or
the fees were not checked and the miner has, after the execution, less than the base fee of the gas
that the leftover gas and the refund counter charge.
-/
theorem transitionDb_accounted_iff {evm : EVM B} {tx : Transaction} {sender : Address}
    {baseFee : Option Nat} (header : AtHeader evm baseFee) {s : StateDB B} (solvent : Solvent s)
    {gp : UInt64} {before after st : StateTransition B} {out : Bytes × Option VMError}
    {result : ExecutionResult}
    (executed : Executed evm tx sender baseFee s gp before after out result st)
    : Accounted evm tx baseFee s gp result st
      ↔ (tx.toAddr ≠ none → tx.nonce ≠ 0xffffffffffffffff)
        ∧ (Skips tx evm
          → chargedGas evm tx after.gas after.machine.db.refund * (baseFee.getD 0 : Nat)
            ≤ after.machine.db.balanceOf evm.coinbase) := by
  have ready := (yields_prepare header solvent rfl).returned executed.prepared
  obtain ⟨pool, initialGas, steps⟩ :=
    (yields_execute evm (messageAt tx sender baseFee) before).returned executed.executed
  have settled : settle evm (messageAt tx sender baseFee) out after = (.ok result, st) := by
    rw [← executed.run]
    unfold transitionDb
    rw [bind_of_ok executed.prepared, bind_of_ok executed.executed]
  exact (yields_settle header ready pool initialGas steps executed.leftover executed.conserves
    executed.stays out).returned settled

/-- The interpreter conserves the total of the balances where it burned none. -/
theorem executed_of_interpreter (injective : B.Injective) {env : Env}
    {fee : Option Int} {noBaseFee : Bool}
    (header : AtHeader (newEVM env fee noBaseFee : EVM B) baseFee)
    {s : StateDB B} (reachable : Reachable s) (solvent : Solvent s) {gp : UInt64}
    {before after : StateTransition B}
    (ready : prepare (newEVM env fee noBaseFee) (messageAt tx sender baseFee)
      (newStateTransition s gp) = (.ok (), before))
    {out : Bytes × Option VMError}
    (executed : execute (newEVM env fee noBaseFee) (messageAt tx sender baseFee) before
      = (.ok out, after))
    (leftover : after.gas ≤ before.gas) (burned : after.machine.burned = before.machine.burned)
    {result : ExecutionResult}
    (run : transitionDb (newEVM env fee noBaseFee) (messageAt tx sender baseFee)
      (newStateTransition s gp) = (.ok result, st))
    : Executed (newEVM env fee noBaseFee) tx sender baseFee s gp before after out result st := by
  have prepared := (yields_prepare header solvent rfl).returned ready
  have positive : 0 ≤ (messageAt tx sender baseFee).amount := Int.natCast_nonneg _
  have conserved := (yields_execute_conserved injective env fee noBaseFee positive
    (prepared.forward.ok injective (reachable.ok injective)) prepared.progress.stays.solvent
    prepared.context.readOnly).returned executed
  have total := conserved.total
  rw [burned] at total
  exact ⟨ready, executed, leftover, add_right_cancel total, conserved.stays, run⟩

/-- A transaction of account 1 that gives nothing to account 16. -/
def plainTransaction (nonce : UInt64) (fees : Fees) : Transaction where
  nonce := nonce
  gas := 30000
  fees := fees
  toAddr := some 16
  value := 0
  data := []
  accessList := []
  fits := fits_empty

/-- The rules of London with a base fee of 7. -/
def londonEVM (noBaseFee : Bool) : EVM plainBackend := newEVM londonEnv (some 7) noBaseFee

section Plain

variable (s : StateDB plainBackend) (nonce : UInt64) (fees : Fees) (noBaseFee : Bool)

/-- A plain transaction with a pool of 50000. -/
def plainRun : Except TxStop ExecutionResult × StateTransition plainBackend :=
  transitionDb (londonEVM noBaseFee) (messageAt (plainTransaction nonce fees) 1 (some 7))
    (newStateTransition s 50000)

/-- All parts of a plain transaction return, and its execution neither leaves more gas than it
got nor burns a balance.
-/
def plainCheck : Bool :=
  match prepare (londonEVM noBaseFee) (messageAt (plainTransaction nonce fees) 1 (some 7))
      (newStateTransition s 50000) with
  | (.error _, _) => false
  | (.ok (), before) =>
      match execute (londonEVM noBaseFee) (messageAt (plainTransaction nonce fees) 1 (some 7))
          before with
      | (.error _, _) => false
      | (.ok _, after) =>
          after.gas ≤ before.gas && after.machine.burned == before.machine.burned
            && (plainRun s nonce fees noBaseFee).1.isOk

/-- A plain transaction that passes the check is an execution as demanded. -/
theorem plainRun_executed (reachable : Reachable s) (solvent : Solvent s)
    (check : plainCheck s nonce fees noBaseFee = true)
    : ∃ before after out result, Executed (londonEVM noBaseFee) (plainTransaction nonce fees) 1
        (some 7) s 50000 before after out result (plainRun s nonce fees noBaseFee).2 := by
  unfold plainCheck plainRun at check
  split at check
  · cases check
  · rename_i before ready
    split at check
    · cases check
    · rename_i out after executed
      simp only [Bool.and_eq_true, decide_eq_true_eq, beq_iff_eq] at check
      obtain ⟨⟨leftover, burned⟩, run⟩ := check
      obtain ⟨result, returned⟩ := returns_of_isOk run
      exact ⟨before, after, out, result, executed_of_interpreter
        plainBackend_hashAddress_injective ⟨rfl, rfl⟩ reachable solvent ready executed leftover
        burned returned⟩

end Plain

theorem plainState_solvent : Solvent plainState := fun _ => Int.le_refl 0

def payingState : StateDB plainBackend := plainState.addBalance 1 1000000

theorem payingState_solvent : Solvent payingState :=
  solvent_addBalance plainState_solvent (by decide)

theorem transitionDb_accounted_iff_paying
    : ∃ result, Accounted (londonEVM false) (plainTransaction 0 (.dynamicFee 2 10)) (some 7)
        payingState 50000 result (plainRun payingState 0 (.dynamicFee 2 10) false).2 := by
  have reachable : Reachable payingState := .op (.addBalance 1 1000000) plainState_reachable rfl
  obtain ⟨before, after, out, result, executed⟩ :=
    plainRun_executed payingState 0 (.dynamicFee 2 10) false reachable payingState_solvent
      (by decide +kernel)
  refine ⟨result, (transitionDb_accounted_iff ⟨rfl, rfl⟩ payingState_solvent executed).mpr ?_⟩
  exact ⟨fun _ => by decide, fun skips => nomatch skips.2.1⟩

/-- Account 1 has used all nonces but the last one. -/
def exhaustedState : StateDB plainBackend := plainState.setNonce 1 0xffffffffffffffff

theorem exhaustedState_solvent : Solvent exhaustedState := by
  intro addr
  unfold exhaustedState
  rw [StateDB.balanceOf_setNonce]
  exact plainState_solvent addr

/-- With `NoBaseFee`, a transaction without fees takes the base fee from the miner; and the nonce
after the last one is zero.
-/
theorem transitionDb_unaccounted
    : (∃ before after out result,
        Executed (londonEVM true) (plainTransaction 0 (.dynamicFee 0 0)) 1 (some 7) plainState
          50000 before after out result (plainRun plainState 0 (.dynamicFee 0 0) true).2
        ∧ ¬ Accounted (londonEVM true) (plainTransaction 0 (.dynamicFee 0 0)) (some 7) plainState
          50000 result (plainRun plainState 0 (.dynamicFee 0 0) true).2)
      ∧ ∃ before after out result,
        Executed (londonEVM true) (plainTransaction 0xffffffffffffffff (.dynamicFee 0 0)) 1
          (some 7) exhaustedState 50000 before after out result
          (plainRun exhaustedState 0xffffffffffffffff (.dynamicFee 0 0) true).2
        ∧ ¬ Accounted (londonEVM true) (plainTransaction 0xffffffffffffffff (.dynamicFee 0 0))
          (some 7) exhaustedState 50000 result
          (plainRun exhaustedState 0xffffffffffffffff (.dynamicFee 0 0) true).2 := by
  constructor
  · obtain ⟨before, after, out, result, executed⟩ :=
      plainRun_executed plainState 0 (.dynamicFee 0 0) true plainState_reachable
        plainState_solvent (by decide +kernel)
    refine ⟨before, after, out, result, executed, fun accounted => ?_⟩
    have negative
        : ¬ 0 ≤ (plainRun plainState 0 (.dynamicFee 0 0) true).2.machine.db.balanceOf 0 := by
      decide +kernel
    exact negative (accounted.solvent.solvent 0)
  · have reachable : Reachable exhaustedState := .op (.setNonce 1 _) plainState_reachable rfl
    obtain ⟨before, after, out, result, executed⟩ :=
      plainRun_executed exhaustedState 0xffffffffffffffff (.dynamicFee 0 0) true reachable
        exhaustedState_solvent (by decide +kernel)
    refine ⟨before, after, out, result, executed, fun accounted => ?_⟩
    have wraps : add 0xffffffffffffffff 1
        ∈ (plainRun exhaustedState 0xffffffffffffffff (.dynamicFee 0 0) true).2.steps := by
      decide +kernel
    have bound : (0xffffffffffffffff : UInt64).toNat + (1 : UInt64).toNat < 2 ^ 64 :=
      accounted.exact _ wraps
    revert bound
    decide

end GoBinacoin.Core
