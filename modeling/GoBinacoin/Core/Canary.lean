import GoBinacoin.Core.StateTransition
import GoBinacoin.Vm.Listed

/-! Under Berlin, a transaction finds every contract that it runs in the access list. -/

namespace GoBinacoin.Core

open Program State Vm

variable {B : Backend}

/-- No contract is running, and what was noted shows none outside of the access list. -/
structure Idle (m : Machine B) : Prop where
  ok : m.db.Ok
  frames : m.frames = []
  readOnly : m.readOnly = false
  notes : ∀ e ∈ m.events, e.listed

/-- The machine is idle again, and no address has left the access list. -/
structure Onward (m m' : Machine B) : Prop where
  idle : Idle m'
  kept : ∀ addrs, Listed m.db addrs → Listed m'.db addrs

theorem Onward.trans {m m' m'' : Machine B} (first : Onward m m') (second : Onward m' m'')
    : Onward m m'' :=
  ⟨second.idle, fun addrs listed => second.kept addrs (first.kept addrs listed)⟩

variable {m m' : Machine B}

theorem Idle.onward (idle : Idle m) : Onward m m := ⟨idle, fun _ => id⟩

theorem Idle.writable (idle : Idle m) (env : Env) : Writable env m := by
  rintro ⟨readOnly, -⟩
  rw [idle.readOnly] at readOnly
  cases readOnly

theorem Idle.noted (idle : Idle m) (notes : NotesListed m m') : ∀ e ∈ m'.events, e.listed := by
  obtain ⟨new, events, listed⟩ := notes
  rw [events]
  exact fun e member => (List.mem_append.mp member).elim (listed e) (idle.notes e)

/-- An operation on the database leaves the machine idle. -/
theorem Idle.performs (injective : B.Injective) {op : Op}
    (idle : Idle m) (notRevert : ∀ revid, op ≠ .revertToSnapshot revid)
    (performs : Performs m op m')
    : Onward m m' where
  idle :=
    {
      ok := (performs.forward notRevert).ok injective idle.ok
      frames := performs.context.frames.trans idle.frames
      readOnly := performs.context.readOnly.trans idle.readOnly
      notes := by
        refine idle.noted ((performs.ahead notRevert).notes ?_)
        rw [idle.frames]
        exact fun _ member => (List.not_mem_nil member).elim
    }
  kept _ := (performs.forward notRevert).listed

/-- A stop that is not the canary, after a run that shows no contract outside of the list. -/
def Untroubled (e : Stop) (m : Machine B) : Prop :=
  e ≠ .panic .accessListCanary ∧ ∀ e ∈ m.events, e.listed

variable {α : Type}

section Programs

/-- The canary would have been noted, so harmless notes rule it out. -/
theorem Onward.untroubled {p : Evm B α} (onward : Onward m (p m).2) (calm : Calm p)
    : Ensures Untroubled p m fun _ m' => Onward m m' := by
  refine .of_outcome (fun _ _ => onward) fun e stopped => ⟨?_, onward.idle.notes⟩
  rintro rfl
  have safe := calm m
  unfold Ensures After at safe
  rw [stopped] at safe
  obtain ⟨addr, db, sang⟩ := safe
  exact onward.idle.notes _ sang

/-- A program that runs no contract. -/
def IdlesEVM (p : Evm B α) : Prop :=
  ∀ m, Idle m → Ensures Untroubled p m fun _ m' => Onward m m'

theorem IdlesEVM.bind {p : Evm B Unit} {q : Evm B α} (first : IdlesEVM p) (second : IdlesEVM q)
    : IdlesEVM (p >>= fun _ => q) :=
  fun m idle => (first m idle).bind fun _ m' onward =>
    (second m' onward.idle).mono fun _ _ => onward.trans

theorem idlesEVM_forM {f : α → Evm B Unit} (each : ∀ a, IdlesEVM (f a)) (list : List α)
    : IdlesEVM (list.forM f) := by
  induction list with
  | nil => exact fun _ idle => idle.onward
  | cons a rest ih => exact (each a).bind ih

variable (injective : B.Injective)

include injective

theorem idlesEVM_perform {op : Op} (notRevert : ∀ revid, op ≠ .revertToSnapshot revid)
    : IdlesEVM (perform op : Evm B Unit) := by
  refine fun m idle => Onward.untroubled ?_ (calm_perform op)
  unfold perform
  split
  · rename_i db run
    exact idle.performs injective notRevert ⟨db, run, rfl⟩
  · exact idle.onward

theorem idlesEVM_query {op : Op} (notRevert : ∀ revid, op ≠ .revertToSnapshot revid)
    (value : StateDB B → α)
    : IdlesEVM (query op value) := by
  refine fun m idle => Onward.untroubled ?_ (calm_query op value)
  unfold query
  split
  · rename_i db run
    exact idle.performs injective notRevert ⟨db, run, rfl⟩
  · exact idle.onward

end Programs

/-- A stop of a transition that is not the canary. -/
def Harmless (e : TxStop) (st : StateTransition B) : Prop :=
  e ≠ .evm (.panic .accessListCanary) ∧ ∀ e ∈ st.machine.events, e.listed

/-- What the EVM does is harmless to the transition. -/
theorem ensures_onEVM {α : Type} {p : Evm B α} {st : StateTransition B}
    {Q : α → Machine B → Prop} (ensures : Ensures Untroubled p st.machine Q)
    : Ensures Harmless (onEVM p) st fun a st' => Q a st'.machine := by
  unfold Ensures After onEVM at *
  revert ensures
  generalize p st.machine = result
  obtain ⟨outcome, m⟩ := result
  intro ensures
  cases outcome with
  | ok a => exact ensures
  | error e => exact ⟨fun same => ensures.1 (TxStop.evm.inj same), ensures.2⟩

/-- A part of a transition that runs no contract. -/
def Idles {α : Type} (p : Transition B α) : Prop :=
  ∀ st, Idle st.machine
    → Ensures Harmless p st fun _ st' => Onward st.machine st'.machine

section Idles

variable {β : Type}

theorem Idles.pure (a : α) : Idles (Pure.pure a : Transition B α) := fun _ idle => idle.onward

theorem Idles.get : Idles (Prog.get : Transition B (StateTransition B)) := fun _ idle => idle.onward

theorem Idles.stop {e : TxStop} (isOwn : ∀ e', e ≠ .evm e')
    : Idles (Prog.stop e : Transition B α) :=
  fun _ idle => ⟨isOwn _, idle.notes⟩

theorem Idles.modify {change : StateTransition B → StateTransition B}
    (same : ∀ st, (change st).machine = st.machine)
    : Idles (Prog.modify change) := by
  intro st idle
  show Onward st.machine (change st).machine
  rw [same]
  exact idle.onward

theorem Idles.bind {p : Transition B α} {f : α → Transition B β} (first : Idles p)
    (second : ∀ a, Idles (f a))
    : Idles (p >>= f) :=
  fun st idle => (first st idle).bind fun a st' onward =>
    (second a st' onward.idle).mono fun _ _ => onward.trans

theorem Idles.ite {c : Prop} [Decidable c] {p q : Transition B α} (yes : Idles p) (no : Idles q)
    : Idles (if c then p else q) :=
  fun st idle => .ite (fun _ => yes st idle) fun _ => no st idle

theorem idles_compute (step : Arith) : Idles (compute step : Transition B UInt64) :=
  Idles.bind (.modify fun _ => rfl) fun _ => .pure _

theorem idles_onEVM {p : Evm B α} (idles : IdlesEVM p) : Idles (onEVM p) :=
  fun st idle => ensures_onEVM (idles st.machine idle)

end Idles

theorem idles_addPriced (gas count price : UInt64)
    : Idles (addPriced gas count price : Transition B UInt64) :=
  (idles_compute _).bind fun _ => idles_compute _

theorem idles_dataGas (gas : UInt64) (data : Bytes) (isEIP2028 : Bool)
    : Idles (dataGas gas data isEIP2028 : Transition B UInt64) := by
  refine .ite (.ite (.stop nofun) ?_) (.pure gas)
  exact (idles_addPriced _ _ _).bind fun _ => (idles_compute _).bind fun _ =>
    .ite (.stop nofun) (idles_addPriced _ _ _)

theorem idles_intrinsicGas (data : Bytes) (accessList : List AccessTuple)
    (isContractCreation isHomestead isEIP2028 : Bool)
    : Idles (intrinsicGas data accessList isContractCreation isHomestead isEIP2028
        : Transition B UInt64) :=
  (idles_dataGas _ _ _).bind fun _ => (idles_addPriced _ _ _).bind fun _ => idles_addPriced _ _ _

theorem idles_subGas (amount : UInt64) : Idles (subGas amount : Transition B Unit) :=
  Idles.get.bind fun _ => .ite (.stop nofun) ((idles_compute _).bind fun _ => .modify fun _ => rfl)

theorem idles_addGas (amount : UInt64) : Idles (addGas amount : Transition B Unit) :=
  Idles.get.bind fun _ => .ite (.stop nofun) ((idles_compute _).bind fun _ => .modify fun _ => rfl)

theorem idles_gasUsed : Idles (gasUsed : Transition B UInt64) :=
  Idles.get.bind fun _ => idles_compute _

theorem idles_checkFees (evm : EVM B) (sender : Address) (gasFeeCap gasTipCap : Int)
    : Idles (checkFees evm sender gasFeeCap gasTipCap) := by
  refine .ite (.ite (.stop nofun) (.ite (.stop nofun) (.ite (.stop nofun) ?_))) (.pure ())
  cases evm.baseFee with
  | none => exact .stop nofun
  | some baseFee => exact .ite (.stop nofun) (.pure ())

variable (evm : EVM B) (msg : Message)

theorem idles_checkLondon : Idles (checkLondon evm msg) := by
  refine .ite ?_ (.pure ())
  cases msg.gasFeeCap with
  | none => exact .stop nofun
  | some gasFeeCap => exact idles_checkFees evm msg.sender gasFeeCap msg.gasTipCap

theorem idles_payIntrinsicGas : Idles (payIntrinsicGas evm msg) :=
  (idles_intrinsicGas _ _ _ _ _).bind fun _ => Idles.get.bind fun _ =>
    .ite (.stop nofun) ((idles_compute _).bind fun _ => .modify fun _ => rfl)

theorem idles_effectiveTip : Idles (effectiveTip evm msg) := by
  refine .ite ?_ (.pure _)
  split
  · exact .pure _
  · exact .stop nofun

section Parts

variable (injective : B.Injective) (evm : EVM B) (msg : Message)

include injective

theorem idles_checkNonces : Idles (checkNonces msg : Transition B Unit) :=
  .ite ((idles_onEVM (idlesEVM_query injective (by nofun) _)).bind fun _ =>
    .ite (.stop nofun) (.ite (.stop nofun) (.pure ()))) (.pure ())

theorem idles_buyGas : Idles (buyGas msg : Transition B Unit) := by
  refine (idles_onEVM (idlesEVM_query injective (by nofun) _)).bind fun _ => .ite (.stop nofun) ?_
  exact (idles_subGas _).bind fun _ => Idles.get.bind fun _ => (idles_compute _).bind fun _ =>
    Idles.bind (.modify fun _ => rfl) fun _ => idles_onEVM (idlesEVM_perform injective (by nofun))

theorem idles_preCheck : Idles (preCheck evm msg) :=
  (idles_checkNonces injective msg).bind fun _ =>
    (idles_checkLondon evm msg).bind fun _ => idles_buyGas injective msg

theorem idles_checkTransfer : Idles (checkTransfer msg : Transition B Unit) := by
  refine .ite (Idles.bind (p := onEVM (canTransfer msg.sender msg.amount)) ?_ fun _ =>
    .ite (.pure ()) (.stop nofun)) (.pure ())
  refine idles_onEVM fun m idle =>
    Onward.untroubled ?_ (simple_canTransfer msg.sender msg.amount).calm
  have reads : Performs m (.getBalance msg.sender) _ := ⟨_, rfl, rfl⟩
  exact idle.performs injective (by nofun) reads

theorem idles_refundGas (quotient : UInt64)
    : Idles (refundGas msg quotient : Transition B Unit) := by
  refine idles_gasUsed.bind fun _ => Idles.get.bind fun _ => (idles_compute _).bind fun _ => ?_
  exact Idles.bind (.modify fun _ => rfl) fun _ =>
    (idles_onEVM (idlesEVM_perform injective (by nofun))).bind fun _ => idles_addGas _

theorem idles_payTip : Idles (payTip evm msg) :=
  (idles_effectiveTip evm msg).bind fun _ => idles_gasUsed.bind fun _ =>
    idles_onEVM (idlesEVM_perform injective (by nofun))

end Parts

section AccessList

variable (injective : B.Injective)

include injective

theorem idlesEVM_addTuple (tuple : AccessTuple) : IdlesEVM (addTuple tuple : Evm B Unit) :=
  (idlesEVM_perform injective (by nofun)).bind
    (idlesEVM_forM (fun _ => idlesEVM_perform injective (by nofun)) _)

theorem ensures_addAddress (idle : Idle m) (addr : Address)
    : Ensures Untroubled (perform (.addAddressToAccessList addr)) m
        fun _ m' => Onward m m' ∧ Listed m'.db [addr] := by
  have performs : Performs m (.addAddressToAccessList addr) _ := ⟨_, rfl, rfl⟩
  refine .of_returned (perform_total rfl) ⟨idle.performs injective (by nofun) performs, ?_⟩
  intro other member
  rw [List.mem_singleton.mp member]
  exact (m.db.addAddressToAccessList_listed addr).1

theorem ensures_addDst (idle : Idle m) (dst : Option Address)
    : Ensures Untroubled
        (dst.toList.forM fun addr => perform (.addAddressToAccessList addr)) m
        fun _ m' => Onward m m' ∧ Listed m'.db dst.toList := by
  cases dst with
  | none => exact ⟨idle.onward, fun _ member => (List.not_mem_nil member).elim⟩
  | some addr => exact (ensures_addAddress injective idle addr).bind fun _ _ added => added

/-- After the preparation the sender and the destination are in the access list. -/
theorem ensures_prepareAccessList (idle : Idle m) (sender : Address)
    (dst : Option Address) (precompiles : List Address) (list : List AccessTuple)
    : Ensures Untroubled (prepareAccessList sender dst precompiles list) m
        fun _ m' => Onward m m' ∧ Listed m'.db (sender :: dst.toList) := by
  refine (ensures_addAddress injective idle sender).bind fun _ m1 first => ?_
  refine (ensures_addDst injective first.1.idle dst).bind fun _ m2 second => ?_
  have rest : IdlesEVM (precompiles.forM (fun addr => perform (.addAddressToAccessList addr))
      >>= fun _ => list.forM addTuple : Evm B Unit) :=
    (idlesEVM_forM (fun _ => idlesEVM_perform injective (by nofun)) _).bind
      (idlesEVM_forM (idlesEVM_addTuple injective) list)
  refine (rest m2 second.1.idle).mono fun _ m3 further => ?_
  have both : Listed m2.db (sender :: dst.toList) :=
    List.forall_mem_cons.mpr ⟨second.1.kept _ first.2 sender List.mem_cons_self, second.2⟩
  exact ⟨first.1.trans (second.1.trans further), further.kept _ both⟩

end AccessList

section Execution

variable (injective : B.Injective) {env : Env} (berlin : env.rules.isBerlin = true)
  {sender : Address}

include injective berlin

/-- What an execution does from an idle machine leaves it idle. -/
theorem Idle.runs (idle : Idle m) (listed : Listed m.db [sender])
    (does : Does env True False sender m m')
    : Onward m m' := by
  have callers : Listed m.db (sender :: m.frames) := by
    rw [idle.frames]
    exact listed
  have stays := does.staysListed injective berlin idle.ok callers
  exact {
    idle :=
      {
        ok := (does.valid injective).1 idle.ok
        frames := does.context.frames.trans idle.frames
        readOnly := does.context.readOnly.trans idle.readOnly
        notes := idle.noted stays.notes
      }
    kept := stays.kept
  }

variable {value : Int} {st : StateTransition B}

/-- A call with listed parties stores to listed contracts only. -/
theorem ensures_call (idle : Idle m) {addr : Address} (listed : Listed m.db [sender, addr])
    (input : Bytes) (gas : UInt64) (positive : 0 ≤ value)
    : Ensures Untroubled (call env (interpreter env) sender addr input gas value) m
        fun _ m' => Onward m m' := by
  have admits : Admits env True sender addr m :=
    fun _ _ => .inl (listed addr (.tail _ List.mem_cons_self))
  have tracks : Abides env True sender
      (call env (interpreter env) sender addr input gas value) m :=
    tracks_call (conducts_runAt env True _) admits (.inr ⟨idle.writable env, positive⟩)
  have caller : Listed m.db [sender] := fun other member =>
    listed other (List.mem_cons.mpr (.inl (List.mem_singleton.mp member)))
  exact (idle.runs injective berlin caller tracks.always).untroubled
    (calm_call (calm_runAt env _) sender addr input gas value)

theorem ensures_create (idle : Idle m) (listed : Listed m.db [sender]) (code : Bytes)
    (gas : UInt64) (positive : 0 ≤ value)
    : Ensures Untroubled (create env (interpreter env) sender code gas value) m
        fun _ m' => Onward m m' := by
  have tracks : Abides env True sender
      (create env (interpreter env) sender code gas value) m :=
    tracks_create (conducts_runAt env True _) (idle.writable env) positive code
  exact (idle.runs injective berlin listed tracks.always).untroubled
    (.bind (calm_query _ _) fun _ => calm_createAt (calm_runAt env _) _ _ _ _ _)

variable {baseFee : Option Int} {noBaseFee : Bool} {msg : Message}

theorem ensures_setupAccessList (idle : Idle st.machine)
    : Ensures Harmless (setupAccessList (newEVM env baseFee noBaseFee) msg) st
        fun _ st' => Idle st'.machine
          ∧ Listed st'.machine.db (msg.sender :: msg.toAddr.toList) := by
  refine .ite (fun _ => ?_) fun no => absurd berlin no
  exact (ensures_onEVM (ensures_prepareAccessList injective idle _ _ _ _)).mono
    fun _ _ prepared => ⟨prepared.1.idle, prepared.2⟩

/-- The execution of a message from its prepared state is harmless. -/
theorem ensures_execute (positive : 0 ≤ msg.amount)
    (idle : Idle st.machine) (listed : Listed st.machine.db (msg.sender :: msg.toAddr.toList))
    : Ensures Harmless (execute (newEVM env baseFee noBaseFee) msg) st
        fun _ st' => Idle st'.machine := by
  unfold execute
  refine .get ?_
  rcases recipient : msg.toAddr with _ | addr
  · rw [recipient] at listed
    refine (ensures_onEVM (ensures_create injective berlin idle listed _ _ positive)).bind
      fun _ st' onward => ?_
    exact onward.idle
  · rw [recipient] at listed
    refine (idles_onEVM (idlesEVM_query injective (by nofun) _) st idle).bind
      fun nonce st1 read => ?_
    refine (idles_compute _ st1 read.idle).bind fun next st2 computed => ?_
    refine (idles_onEVM (idlesEVM_perform injective (by nofun)) st2 computed.idle).bind
      fun _ st3 set => ?_
    have here := set.kept _ (computed.kept _ (read.kept _ listed))
    refine (ensures_onEVM (ensures_call injective berlin set.idle here _ _ positive)).bind
      fun _ st' onward => ?_
    exact onward.idle

theorem ensures_prepare (idle : Idle st.machine)
    : Ensures Harmless (prepare (newEVM env baseFee noBaseFee) msg) st
        fun _ st' => Idle st'.machine
          ∧ Listed st'.machine.db (msg.sender :: msg.toAddr.toList) := by
  refine (idles_preCheck injective _ msg st idle).bind fun _ st1 checked => ?_
  refine (idles_payIntrinsicGas _ msg st1 checked.idle).bind fun _ st2 paid => ?_
  refine (idles_checkTransfer injective msg st2 paid.idle).bind fun _ st3 able => ?_
  exact ensures_setupAccessList injective berlin able.idle

/-- The parts of a transition, from one idle machine to the next. -/
theorem ensures_transitionDb (positive : 0 ≤ msg.amount) (idle : Idle st.machine)
    : Ensures Harmless (transitionDb (newEVM env baseFee noBaseFee) msg) st
        fun _ st' => Idle st'.machine := by
  refine (ensures_prepare injective berlin idle).bind fun _ st1 prepared => ?_
  refine (ensures_execute injective berlin positive prepared.1 prepared.2).bind
    fun _ st2 executed => ?_
  refine (idles_refundGas injective msg _ st2 executed).bind fun _ st3 refunded => ?_
  refine (idles_payTip injective _ msg st3 refunded.idle).bind fun _ st4 tipped => ?_
  exact (idles_gasUsed st4 tipped.idle).bind fun _ st5 used => used.idle

end Execution

/-- Under Berlin, whatever a message with a value that is not negative runs: at every change of
the state and whenever a contract starts, all contracts on the call stack are in the access list.
So no transaction ends with the panic of SSTORE.
-/
theorem transitionDb_frames_listed (injective : Function.Injective B.hashAddress) {env : Env}
    (berlin : env.rules.isBerlin = true) {s : StateDB B} (reachable : Reachable s)
    (baseFee : Option Int) (noBaseFee : Bool) (gp : UInt64) {msg : Message}
    (positive : 0 ≤ msg.amount)
    : (∀ frames db,
        Event.state frames db
          ∈ (transitionDb (newEVM env baseFee noBaseFee) msg
              (newStateTransition s gp)).2.machine.events
        → ∀ addr ∈ frames, db.addressInAccessList addr = true)
      ∧ (transitionDb (newEVM env baseFee noBaseFee) msg (newStateTransition s gp)).1
        ≠ .error (.evm (.panic .accessListCanary)) := by
  have idle : Idle (newStateTransition s gp).machine :=
    ⟨reachable.ok injective, rfl, rfl, fun _ member => (List.not_mem_nil member).elim⟩
  have ensures : Ensures Harmless (transitionDb (newEVM env baseFee noBaseFee) msg)
      (newStateTransition s gp) fun _ st' => Idle st'.machine :=
    ensures_transitionDb injective berlin positive idle
  unfold Ensures After at ensures
  cases outcome : (transitionDb (newEVM env baseFee noBaseFee) msg (newStateTransition s gp)).1 with
  | ok result =>
      rw [outcome] at ensures
      exact ⟨fun frames db member => ensures.notes _ member, nofun⟩
  | error e =>
      rw [outcome] at ensures
      exact ⟨fun frames db member => ensures.2 _ member,
        fun same => ensures.1 (Except.error.inj same)⟩

/-- Account 16 has the code PUSH1 1, PUSH1 0, SSTORE. -/
def storingState : StateDB plainBackend := plainState.setCode 16 (some [0x60, 1, 0x60, 0, 0x55])

/-- A transaction of account 1 that calls account 16 for free. -/
def storingTransaction : Transaction where
  nonce := 0
  gas := 100000
  fees := .legacy 0
  toAddr := some 16
  value := 0
  data := []
  accessList := []
  fits := fits_empty

/-- The run of a transaction with the rules of London and no base fee. -/
def storingRun : Except TxStop ExecutionResult × StateTransition plainBackend :=
  transitionDb (newEVM londonEnv (some 0) false) (storingTransaction.asMessage 1 (some 0))
    (newStateTransition storingState 100000)

/-- An event with a contract on the call stack. -/
def inContract : Event B → Bool
  | .state frames _ => !frames.isEmpty
  | _ => false

theorem transitionDb_frames_listed_storing
    : storingRun.2.machine.events.any inContract = true
      ∧ (∀ frames db, Event.state frames db ∈ storingRun.2.machine.events
        → ∀ addr ∈ frames, db.addressInAccessList addr = true)
      ∧ storingRun.1 ≠ .error (.evm (.panic .accessListCanary)) := by
  have positive : 0 ≤ (storingTransaction.asMessage 1 (some 0)).amount := Int.natCast_nonneg _
  have reachable : Reachable storingState := .op (.setCode 16 _) plainState_reachable rfl
  refine ⟨by decide +kernel, ?_⟩
  unfold storingRun
  exact transitionDb_frames_listed plainBackend_hashAddress_injective rfl reachable (some 0) false
    100000 positive

end GoBinacoin.Core
