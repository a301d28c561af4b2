import GoBinacoin.Core.Accounting
import GoBinacoin.Vm.Failure

/-! The miner applies a transaction to the block it builds. When that fails, the state is reverted
to a snapshot, and the gas pool is left as the transition left it.
-/

namespace GoBinacoin.Miner

open Program State Vm GoBinacoin.Core

variable {B : Backend}

/-- `Receipt`, without what is copied from the header and computed from the logs. -/
structure Receipt where
  postState : Option Hash
  cumulativeGasUsed : UInt64
  successful : Bool
  txHash : Hash
  gasUsed : UInt64
  contractAddress : Option Address
  logs : List Log
  transactionIndex : UInt64

/-- `environment`, with the gas that its header has used. -/
structure Environment (B : Backend) where
  state : StateDB B
  gasPool : UInt64
  gasUsed : UInt64
  txs : List Transaction
  receipts : List Receipt

/-- What a block fixes for its transactions: the EVM at its header, the sender that its signer
finds, and the orders in which the maps of the state are visited.
-/
structure Context (B : Backend) (ε : Type) where
  evm : EVM B
  sender : Transaction → Except ε Address
  txHash : Transaction → Hash
  order : StateOrder

/-- An error for the sender or for the message. -/
inductive ApplyError (ε : Type) where
  | sender (e : ε)
  | message (e : TxError)
  deriving DecidableEq

inductive Outcome (ε α : Type) where
  | applied (a : α)
  | failed (e : ApplyError ε)
  | panicked

def Outcome.error {ε α : Type} : Outcome ε α → Option (ApplyError ε)
  | .failed e => some e
  | _ => none

variable {ε : Type}

/-- The pending changes enter the state; the root is computed before Byzantium. -/
def finish (ctx : Context B ε) (s : StateDB B) : Option (Option Hash × StateDB B) :=
  if ctx.evm.rules.isByzantium then some (none, s.finalise ctx.order true)
  else (s.intermediateRoot ctx.order ctx.evm.rules.isEIP158).map fun (root, s) => (some root, s)

def applyTransaction (ctx : Context B ε) (tx : Transaction) (env : Environment B)
    : Outcome ε Receipt × Environment B :=
  match ctx.sender tx with
  | .error e => (.failed (.sender e), env)
  | .ok sender =>
      let (result, st) := transitionDb ctx.evm (tx.asMessage sender ctx.evm.baseFee)
        (newStateTransition env.state env.gasPool)
      let env := { env with state := st.machine.db, gasPool := st.gp }
      match result with
      | .error (.err e) => (.failed (.message e), env)
      | .error _ => (.panicked, env)
      | .ok result =>
          match finish ctx env.state with
          | none => (.panicked, env)
          | some (root, s) =>
              let usedGas := env.gasUsed + result.usedGas
              let receipt :=
                {
                  postState := root
                  cumulativeGasUsed := usedGas
                  successful := result.err.isNone
                  txHash := ctx.txHash tx
                  gasUsed := result.usedGas
                  contractAddress :=
                    if tx.toAddr.isNone then some (createAddress B sender tx.nonce) else none
                  logs := (s.logs (ctx.txHash tx)).getD []
                  transactionIndex := s.txIndex
                }
              (.applied receipt, { env with state := s, gasUsed := usedGas })

def commitTransaction (ctx : Context B ε) (tx : Transaction) (env : Environment B)
    : Outcome ε (List Log) × Environment B :=
  let (snap, s) := env.state.snapshot
  match applyTransaction ctx tx { env with state := s } with
  | (.panicked, env) => (.panicked, env)
  | (.failed e, env) =>
      match env.state.revertToSnapshot snap with
      | none => (.panicked, env)
      | some s => (.failed e, { env with state := s })
  | (.applied receipt, env) =>
      (.applied receipt.logs,
        { env with txs := env.txs ++ [tx], receipts := env.receipts ++ [receipt] })

/-! A transaction is refused before gas is bought for it, by the nonce and the balance of its
sender, its fees and the pool.
-/

/-- The balance that the sender of a message needs. -/
def fundsNeeded (msg : Message) : Int :=
  match msg.gasFeeCap with
  | some gasFeeCap => msg.gasLimit.toNat * gasFeeCap
  | none => msg.gasLimit.toNat * msg.gasPrice

/-- London refuses the fees of a message. -/
def FeesRefused (evm : EVM B) (msg : Message) : Prop :=
  evm.rules.isLondon = true
  ∧ ∃ cap, msg.gasFeeCap = some cap
    ∧ (!evm.noBaseFee || bigBitLen cap > 0 || bigBitLen msg.gasTipCap > 0) = true
    ∧ (bigBitLen cap > 256 ∨ bigBitLen msg.gasTipCap > 256 ∨ cap < msg.gasTipCap
      ∨ ∃ baseFee, evm.baseFee = some baseFee ∧ cap < baseFee)

def Refused (evm : EVM B) (msg : Message) (s : StateDB B) (pool : UInt64) : Prop :=
  msg.checkNonce = true ∧ s.nonceOf msg.sender ≠ msg.nonce
  ∨ FeesRefused evm msg
  ∨ s.balanceOf msg.sender < fundsNeeded msg ∨ pool < msg.gasLimit

section Refused

variable (evm : EVM B) (msg : Message) (st : StateTransition B)

/-- An error means that the condition holds; to go on, that it does not. -/
def Decides {α : Type} (condition : Prop) (p : Transition B α)
    (Q : α → StateTransition B → Prop) : Prop :=
  Ensures (fun stop _ => ∀ e, stop = .err e → condition) p st fun a st' => ¬ condition ∧ Q a st'

theorem reads_quiet {α : Type} {p : Evm B α} (quiet : Quiet p) (condition : Prop)
    : Ensures (fun stop _ => ∀ e, stop = .err e → condition) (onEVM p) st fun a st' =>
        ∃ m, st' = { st with machine := m } ∧ Hushed st.machine m
          ∧ p st.machine = (.ok a, m) := by
  have hushed := quiet st.machine
  unfold Ensures After onEVM
  generalize p st.machine = result at hushed ⊢
  obtain ⟨_ | a, m⟩ := result
  · exact nofun
  · exact ⟨m, rfl, hushed, rfl⟩

/-- The check of the nonce decides by the nonce of the account. -/
theorem decides_checkNonces
    : Decides st (msg.checkNonce = true ∧ st.machine.db.nonceOf msg.sender ≠ msg.nonce)
        (checkNonces msg) fun _ st' =>
          ∃ m, st' = { st with machine := m } ∧ Hushed st.machine m := by
  refine .ite (fun check => ?_) fun free => ⟨fun both => free both.1, _, rfl, .refl⟩
  refine (reads_quiet st (quiet_query rfl _) _).bind fun nonce st1 read => ?_
  obtain ⟨m, rfl, hushed, run⟩ := read
  have value : nonce = st.machine.db.nonceOf msg.sender := by
    rw [← StateDB.getNonce_value]
    exact (Except.ok.inj (Prod.mk.inj run).1).symm
  rw [← value]
  refine .ite (fun low => ?_) fun notLow => .ite (fun high => ?_) fun notHigh => ?_
  · exact fun _ _ => ⟨check, UInt64.ne_of_lt low⟩
  · exact fun _ _ => ⟨check, (UInt64.ne_of_lt high).symm⟩
  · refine ⟨fun both => both.2 ?_, m, rfl, hushed⟩
    exact UInt64.le_antisymm (UInt64.not_lt.mp notHigh) (UInt64.not_lt.mp notLow)

/-- The check of the fees decides by the header and the message. -/
theorem decides_checkLondon
    : Decides st (FeesRefused evm msg) (checkLondon evm msg) fun _ st' => st' = st := by
  refine .ite (fun london => ?_) fun no => ⟨fun refused => no refused.1, rfl⟩
  unfold FeesRefused
  simp only [london, true_and]
  cases msg.gasFeeCap with
  | none => exact fun _ same => by cases same
  | some cap =>
    simp only [Option.some.injEq, exists_eq_left']
    refine .ite (fun checked => ?_) fun free => ⟨fun refused => free refused.1, rfl⟩
    simp only [checked, true_and]
    refine .ite (fun long => fun _ _ => .inl long) fun notLong => ?_
    refine .ite (fun long => fun _ _ => .inr (.inl long)) fun notLong' => ?_
    refine .ite (fun above => fun _ _ => .inr (.inr (.inl above))) fun notAbove => ?_
    cases evm.baseFee with
    | none => exact fun _ same => by cases same
    | some baseFee =>
      refine .ite (fun low => fun _ _ => ?_) fun covers => ⟨?_, rfl⟩
      · exact .inr (.inr (.inr ⟨baseFee, rfl, low⟩))
      · rintro (long | long | above | ⟨fee, same, low⟩)
        · exact notLong long
        · exact notLong' long
        · exact notAbove above
        · cases same
          exact covers low

/-- Buying gas decides by the balance of the sender and the pool. -/
theorem decides_buyGas
    : Decides st (st.machine.db.balanceOf msg.sender < fundsNeeded msg ∨ st.gp < msg.gasLimit)
        (buyGas msg) fun _ _ => True := by
  refine (reads_quiet st (quiet_query rfl _) _).bind fun balance st1 read => ?_
  obtain ⟨m, rfl, -, run⟩ := read
  have value : balance = st.machine.db.balanceOf msg.sender := by
    rw [← StateDB.getBalance_value]
    exact (Except.ok.inj (Prod.mk.inj run).1).symm
  rw [← value]
  refine .ite (fun poor => fun _ _ => .inl poor) fun enough => ?_
  refine .seq (.seq ?_)
  rw [ensures_get]
  refine .ite (fun short => fun _ _ => .inr short) fun room => ?_
  exact ⟨fun refused => refused.elim enough room, trivial⟩

/-- A message is refused by its nonce, its fees, its funds or the gas of the pool. -/
theorem decides_preCheck
    : Decides st (Refused evm msg st.machine.db st.gp) (preCheck evm msg) fun _ _ => True := by
  refine ((decides_checkNonces msg st).weaken fun _ _ refused e same =>
    .inl (refused e same)).bind fun _ st1 checked => ?_
  obtain ⟨nonce, m, rfl, hushed⟩ := checked
  refine ((decides_checkLondon evm msg _).weaken fun _ _ refused e same =>
    .inr (.inl (refused e same))).bind fun _ st2 covered => ?_
  obtain ⟨fees, rfl⟩ := covered
  have balance := hushed.alike.accounts.balance msg.sender
  refine ((decides_buyGas msg _).weaken fun _ _ refused e same => ?_).mono fun _ _ bought => ?_
  · exact .inr (.inr (balance ▸ refused e same))
  · refine ⟨?_, trivial⟩
    rintro (refused | refused | refused)
    · exact nonce refused
    · exact fees refused
    · exact bought.1 (balance ▸ refused)

end Refused

section Checks

variable {α β : Type} {st st' st'' : StateTransition B}

/-- The pool is as it was, and so are the snapshots of the state. -/
structure Untouched (st st' : StateTransition B) : Prop where
  gp : st'.gp = st.gp
  steady : Steady st.machine st'.machine

theorem Untouched.refl (st : StateTransition B) : Untouched st st := ⟨rfl, fun _ _ => id⟩

theorem Untouched.trans (first : Untouched st st') (second : Untouched st' st'')
    : Untouched st st'' :=
  ⟨second.gp.trans first.gp, fun start id since =>
    second.steady start id (first.steady start id since)⟩

/-- A part of the transition that takes nothing from the pool. -/
def Checks (p : Transition B α) : Prop :=
  ∀ st, Ensures (fun _ st' => Untouched st st') p st fun _ st' => Untouched st st'

namespace Checks

theorem pure (a : α) : Checks (Pure.pure a : Transition B α) := fun st => .refl st

theorem stop (e : TxStop) : Checks (Prog.stop e : Transition B α) := fun st => .refl st

theorem bind {p : Transition B α} {f : α → Transition B β} (first : Checks p)
    (second : ∀ a, Checks (f a))
    : Checks (p >>= f) := by
  intro st
  refine (first st).bind fun a st1 untouched => ?_
  exact ((second a st1).weaken fun _ _ => untouched.trans).mono fun _ _ => untouched.trans

theorem ite {c : Prop} [Decidable c] {p q : Transition B α} (yes : Checks p) (no : Checks q)
    : Checks (if c then p else q) := by
  split
  · exact yes
  · exact no

theorem get : Checks (Prog.get : Transition B (StateTransition B)) := fun st => .refl st

theorem modify {f : StateTransition B → StateTransition B} (gp : ∀ st, (f st).gp = st.gp)
    (machine : ∀ st, (f st).machine = st.machine)
    : Checks (Prog.modify f : Transition B Unit) := by
  intro st
  have same : Steady st.machine (f st).machine := by
    rw [machine]
    exact fun _ _ => id
  exact ⟨gp st, same⟩

theorem onEVM {p : Evm B α} (steady : Steadies p) : Checks (onEVM p) := by
  intro st
  have after := steady st.machine
  unfold Ensures After Core.onEVM
  generalize p st.machine = result at after ⊢
  obtain ⟨e | a, m⟩ := result
  · exact ⟨rfl, after⟩
  · exact ⟨rfl, after⟩

end Checks

theorem checks_compute (step : Arith) : Checks (compute step : Transition B UInt64) :=
  .bind (.modify (fun _ => rfl) fun _ => rfl) fun _ => .pure _

theorem checks_addPriced (gas count price : UInt64)
    : Checks (addPriced gas count price : Transition B UInt64) :=
  .bind (checks_compute _) fun _ => checks_compute _

theorem checks_intrinsicGas (data : Bytes) (accessList : List AccessTuple)
    (isContractCreation isHomestead isEIP2028 : Bool)
    : Checks (intrinsicGas data accessList isContractCreation isHomestead isEIP2028
        : Transition B UInt64) := by
  refine .bind (.ite (.ite (.stop _) ?_) (.pure _)) fun _ =>
    .bind (checks_addPriced _ _ _) fun _ => checks_addPriced _ _ _
  exact .bind (checks_addPriced _ _ _) fun _ => .bind (checks_compute _) fun _ =>
    .ite (.stop _) (checks_addPriced _ _ _)

/-- The check of the fees changes nothing. -/
theorem checks_checkLondon (evm : EVM B) (msg : Message) : Checks (checkLondon evm msg) := by
  refine .ite ?_ (.pure ())
  cases msg.gasFeeCap with
  | none => exact .stop _
  | some gasFeeCap =>
    refine .ite (.ite (.stop _) (.ite (.stop _) (.ite (.stop _) ?_))) (.pure ())
    cases evm.baseFee with
    | none => exact .stop _
    | some fee => exact .ite (.stop _) (.pure ())

theorem checks_payIntrinsicGas (evm : EVM B) (msg : Message) : Checks (payIntrinsicGas evm msg) :=
  .bind (checks_intrinsicGas _ _ _ _ _) fun _ => .bind .get fun _ => .ite (.stop _)
    (.bind (checks_compute _) fun _ => .modify (fun _ => rfl) fun _ => rfl)

variable (injective : B.Injective) (evm : EVM B) (msg : Message)

include injective

theorem checks_checkNonces : Checks (checkNonces msg : Transition B Unit) :=
  .ite (.bind (.onEVM (steady_query injective (by nofun))) fun _ =>
    .ite (.stop _) (.ite (.stop _) (.pure ()))) (.pure ())

/-- Gas is bought last: an error leaves the pool as it was. -/
theorem ensures_buyGas (st : StateTransition B)
    : Ensures (fun _ st' => Untouched st st') (buyGas msg) st fun _ st' =>
        st'.gp = st.gp - msg.gasLimit ∧ Steady st.machine st'.machine := by
  have balance : Checks (onEVM (getBalance msg.sender : Evm B Int)) :=
    .onEVM (steady_query injective (by nofun))
  refine (balance st).bind fun balance st1 untouched => .ite (fun _ => untouched) fun _ => ?_
  refine .seq (.seq ?_)
  rw [ensures_get]
  refine .ite (fun _ => untouched) fun _ => ?_
  -- Behind the purchase nothing refuses: the balance is taken in any case.
  have taken : Steadies (perform (.subBalance msg.sender (msg.gasLimit.toNat * msg.gasPrice))
      : Evm B Unit) :=
    steady_perform injective (by nofun)
  exact ⟨congrArg (· - msg.gasLimit) untouched.gp, fun start id since =>
    taken st1.machine start id (untouched.steady start id since)⟩

theorem checks_checkTransfer : Checks (checkTransfer msg : Transition B Unit) :=
  .ite (.bind (.onEVM (.bind (steady_query injective (by nofun)) fun _ => .pure _))
    fun _ => .ite (.pure ()) (.stop _)) (.pure ())

/-- An error of the checks leaves the pool as it was. -/
theorem ensures_preCheck (st : StateTransition B)
    : Ensures (fun _ st' => Untouched st st') (preCheck evm msg) st fun _ st' =>
        st'.gp = st.gp - msg.gasLimit ∧ Steady st.machine st'.machine := by
  refine (checks_checkNonces injective msg st).bind fun _ st1 first => ?_
  refine ((checks_checkLondon evm msg st1).weaken fun _ _ => first.trans).bind
    fun _ st2 second => ?_
  have untouched := first.trans second
  refine ((ensures_buyGas injective msg st2).weaken fun _ _ => untouched.trans).mono
    fun _ st3 bought => ?_
  rw [untouched.gp] at bought
  exact ⟨bought.1, fun start id since => bought.2 start id (untouched.steady start id since)⟩

end Checks

section Errors

variable {α β : Type}

/-- A program that stops with no error of the transition. -/
def NoError (p : Transition B α) : Prop :=
  ∀ st, Ensures (fun stop _ => ∀ e, stop ≠ .err e) p st fun _ _ => True

theorem NoError.pure (a : α) : NoError (Pure.pure a : Transition B α) := fun _ => trivial

theorem NoError.bind {p : Transition B α} {f : α → Transition B β} (first : NoError p)
    (second : ∀ a, NoError (f a))
    : NoError (p >>= f) :=
  fun st => (first st).bind fun a st1 _ => second a st1

theorem NoError.onEVM (p : Evm B α) : NoError (onEVM p) := by
  intro st
  unfold Ensures After Core.onEVM
  generalize p st.machine = result
  obtain ⟨e | a, m⟩ := result
  · exact nofun
  · trivial

theorem noError_execute (evm : EVM B) (msg : Message) : NoError (execute evm msg) := by
  refine .bind (fun _ => trivial) fun st => ?_
  rcases msg.toAddr with _ | addr
  · exact .bind (.onEVM _) fun _ => .bind (fun _ => trivial) fun _ => .pure _
  · exact .bind (.onEVM _) fun _ => .bind (fun _ => trivial) fun _ => .bind (.onEVM _) fun _ =>
      .bind (.onEVM _) fun _ => .bind (fun _ => trivial) fun _ => .pure _

/-- After the execution no error is returned. -/
theorem noError_settle (evm : EVM B) (msg : Message) (outcome : Bytes × Option VMError)
    : NoError (Core.settle evm msg outcome) := by
  have addGas (amount : UInt64) : NoError (addGas amount : Transition B Unit) :=
    .bind (fun _ => trivial) fun _ _ => .ite (fun _ => nofun) fun _ => trivial
  have tip : NoError (effectiveTip evm msg) := by
    intro st
    unfold effectiveTip
    split
    · split
      · trivial
      · exact nofun
    · trivial
  have gasUsed : NoError (gasUsed : Transition B UInt64) := fun _ => trivial
  refine .bind (.bind gasUsed fun _ => .bind (fun _ => trivial) fun _ =>
    .bind (fun _ => trivial) fun _ => .bind (fun _ => trivial) fun _ =>
      .bind (.onEVM _) fun _ => addGas _) fun _ => ?_
  exact .bind (.bind tip fun _ => .bind gasUsed fun _ => .onEVM _) fun _ =>
    .bind gasUsed fun _ => .pure _

/-- What an error leaves: the snapshots of the state, and the pool without the gas that was
bought.
-/
structure Aftermath (evm : EVM B) (msg : Message) (st st' : StateTransition B) : Prop where
  steady : Steady st.machine st'.machine
  early : Refused evm msg st.machine.db st.gp → st'.gp = st.gp
  late : ¬ Refused evm msg st.machine.db st.gp → st'.gp = st.gp - msg.gasLimit

/-- What an error leaves: the pool is short of the gas exactly if it was bought. -/
theorem ensures_transitionDb (injective : B.Injective) (evm : EVM B) (msg : Message)
    (st : StateTransition B)
    : Ensures (fun stop st' => ∀ e, stop = .err e → Aftermath evm msg st st')
        (transitionDb evm msg) st fun _ _ => True := by
  have none {stop : TxStop} {st' : StateTransition B} (noError : ∀ e, stop ≠ .err e)
      : ∀ e, stop = .err e → Aftermath evm msg st st' :=
    fun e same => absurd same (noError e)
  refine Prog.Ensures.bind (R := fun _ _ => True) ?_ fun _ st1 _ =>
    (NoError.bind (noError_execute evm msg) (noError_settle evm msg) st1).weaken
      fun _ _ => none
  have checked : Ensures (fun stop st' => ∀ e, stop = .err e → Aftermath evm msg st st')
      (preCheck evm msg) st fun _ st' =>
        ¬ Refused evm msg st.machine.db st.gp
        ∧ st'.gp = st.gp - msg.gasLimit ∧ Steady st.machine st'.machine := by
    have decided := decides_preCheck evm msg st
    have untouched := ensures_preCheck injective evm msg st
    refine .of_outcome (fun _ run => ?_) fun stop run e same => ?_
    · exact ⟨(decided.returned (Prod.ext run rfl)).1, untouched.returned (Prod.ext run rfl)⟩
    · have refused := decided.stopped (Prod.ext run rfl) e same
      have left := untouched.stopped (Prod.ext run rfl)
      exact ⟨left.steady, fun _ => left.gp, fun accepted => absurd refused accepted⟩
  refine checked.bind fun _ st1 bought => ?_
  have late {stop : TxStop} {st2 : StateTransition B} (untouched : Untouched st1 st2)
      : ∀ e, stop = .err e → Aftermath evm msg st st2 := by
    refine fun _ _ =>
      ⟨fun start id since => ?_, fun refused => absurd refused bought.1, fun _ => ?_⟩
    · exact untouched.steady start id (bought.2.2 start id since)
    · exact untouched.gp.trans bought.2.1
  refine ((checks_payIntrinsicGas evm msg st1).weaken fun _ _ => late).bind
    fun _ st2 untouched => ?_
  refine ((checks_checkTransfer injective msg st2).weaken fun _ _ more =>
    late (untouched.trans more)).bind fun _ st3 _ => ?_
  exact .ite (fun _ => (NoError.onEVM _ st3).weaken fun _ _ => none) fun _ => trivial

end Errors

section Failed

variable {ctx : Context B ε} {tx : Transaction} {env env' : Environment B} {e : ApplyError ε}

/-- The parts of an environment that a failure leaves, besides its state. -/
structure Kept (ctx : Context B ε) (tx : Transaction) (env env' : Environment B) : Prop where
  gasUsed : env'.gasUsed = env.gasUsed
  txs : env'.txs = env.txs
  receipts : env'.receipts = env.receipts
  gasPool
    : env'.gasPool = env.gasPool
      ↔ tx.gas = 0
        ∨ ∀ sender, ctx.sender tx = .ok sender
          → Refused ctx.evm (tx.asMessage sender ctx.evm.baseFee) env.state env.gasPool

/-- A failed transaction can be reverted, and only the pool may have changed. -/
theorem applyTransaction_failed (injective : B.Injective) {start : StateDB B} {id : Nat}
    (since : Since start id env.state) (run : applyTransaction ctx tx env = (.failed e, env'))
    : Since start id env'.state ∧ Kept ctx tx env env' := by
  unfold applyTransaction at run
  split at run
  · rename_i noSender
    cases run
    exact ⟨since, rfl, rfl, rfl,
      iff_of_true rfl (.inr fun _ found => by cases noSender.symm.trans found)⟩
  rename_i sender found
  have ensures := ensures_transitionDb injective ctx.evm (tx.asMessage sender ctx.evm.baseFee)
    (newStateTransition env.state env.gasPool)
  rcases outcome : transitionDb ctx.evm (tx.asMessage sender ctx.evm.baseFee)
    (newStateTransition env.state env.gasPool) with ⟨result, st⟩
  rw [outcome] at run
  dsimp only at run
  split at run
  · rename_i e
    cases run
    have after := ensures.stopped outcome e rfl
    refine ⟨after.steady start id since, rfl, rfl, rfl, ?_⟩
    have only : (∀ other, ctx.sender tx = .ok other
          → Refused ctx.evm (tx.asMessage other ctx.evm.baseFee) env.state env.gasPool)
        ↔ Refused ctx.evm (tx.asMessage sender ctx.evm.baseFee) env.state env.gasPool := by
      simp [found]
    rw [only]
    by_cases refused : Refused ctx.evm (tx.asMessage sender ctx.evm.baseFee) env.state env.gasPool
    · exact iff_of_true (after.early refused) (.inr refused)
    · have left : st.gp = env.gasPool - tx.gas := after.late refused
      have none : env.gasPool - tx.gas = env.gasPool ↔ tx.gas = 0 := by grind
      show st.gp = env.gasPool ↔ _
      rw [left, none, or_iff_left refused]
  · cases run
  · split at run <;> cases run

/-- A transaction that fails leaves the state, the gas of the header, the transactions and the
receipts; it leaves the gas pool exactly if it was refused before it had bought gas, or bought none.
-/
theorem commitTransaction_failed_leaves (injective : Function.Injective B.hashAddress)
    (reachable : Reachable env.state) (run : commitTransaction ctx tx env = (.failed e, env'))
    : Restored env.state env'.state ∧ Kept ctx tx env env' := by
  unfold commitTransaction at run
  dsimp only at run
  split at run
  · cases run
  · rename_i applied
    obtain ⟨since, kept⟩ := applyTransaction_failed injective
      (Since.snapshot injective (reachable.ok injective)) applied
    obtain ⟨back, reverted, same⟩ := since.revert injective
    rw [reverted] at run
    cases run
    exact ⟨same.restored, kept.gasUsed, kept.txs, kept.receipts, kept.gasPool⟩
  · cases run

end Failed

/-- A block of London whose signer always finds account 1. -/
def londonContext : Context plainBackend Empty where
  evm := londonEVM false
  sender _ := .ok 1
  txHash _ := 0
  order :=
    {
      journalDirties := []
      finaliseSlots := fun _ => []
      pendingRoots := []
      rootSlots := fun _ => ⟨[], []⟩
      pendingWrites := []
      dirtyObjects := []
      commitSlots := fun _ => ⟨[], []⟩
    }

def payingEnvironment : Environment plainBackend where
  state := payingState
  gasPool := 50000
  gasUsed := 0
  txs := []
  receipts := []

/-- Account 1 can pay for the gas and not for the value: the state is as before, and the pool is
not, since the gas was bought.
-/
theorem commitTransaction_failed_leaves_transfer
    : let tx := { plainTransaction 0 (.dynamicFee 2 10) with value := 2000000 }
      let run := commitTransaction londonContext tx payingEnvironment
      run.1.error = some (.message (.insufficientFundsForTransfer 1))
      ∧ Restored payingState run.2.state ∧ run.2.gasUsed = 0 ∧ run.2.gasPool ≠ 50000 := by
  intro tx run
  have error : run.1.error = some (.message (.insufficientFundsForTransfer 1)) := by
    decide +kernel
  have failed : run = (.failed (.message (.insufficientFundsForTransfer 1)), run.2) := by
    refine Prod.ext ?_ rfl
    rcases outcome : run.1 with _ | e | _
    · rw [outcome] at error
      cases error
    · rw [outcome] at error
      exact congrArg Outcome.failed (Option.some.inj error)
    · rw [outcome] at error
      cases error
  have reachable : Reachable payingState := .op (.addBalance 1 1000000) plainState_reachable rfl
  obtain ⟨restored, kept⟩ := commitTransaction_failed_leaves plainBackend_hashAddress_injective
    reachable failed
  refine ⟨error, restored, kept.gasUsed, fun same => ?_⟩
  rcases kept.gasPool.mp same with none | refused
  · cases none
  · rcases refused 1 rfl with ⟨-, nonce⟩ | ⟨-, cap, isCap, -, fees⟩ | poor | short
    · exact nonce (by decide +kernel)
    · cases isCap
      rcases fees with long | long | above | ⟨baseFee, isFee, low⟩
      · exact absurd long (by decide +kernel)
      · exact absurd long (by decide +kernel)
      · exact absurd above (by decide +kernel)
      · cases isFee
        exact absurd low (by decide +kernel)
    · exact absurd poor (by decide +kernel)
    · exact absurd short (by decide +kernel)

/-- Account 1 can pay for the gas and not for the value: the gas is missing from the pool. -/
theorem commitTransaction_loses_gas
    : let tx := { plainTransaction 0 (.dynamicFee 2 10) with value := 2000000 }
      let run := commitTransaction londonContext tx payingEnvironment
      run.1.error = some (.message (.insufficientFundsForTransfer 1))
      ∧ payingEnvironment.gasPool = 50000 ∧ run.2.gasPool = 20000 := by
  decide +kernel

end GoBinacoin.Miner
