import Mathlib.Algebra.BigOperators.Group.Finset.Piecewise
import Mathlib.Algebra.Order.BigOperators.Group.List
import Mathlib.Data.Fintype.Basic
import GoBinacoin.Vm.Execution

/-! Balances under execution: none becomes negative, and nothing is minted. -/

namespace GoBinacoin.Vm

open Program State StateDB

variable {B : Backend}

instance : Fintype Address :=
  .ofEquiv (Fin (2 ^ 160))
    {
      toFun := BitVec.ofFin
      invFun := BitVec.toFin
      left_inv := fun _ => rfl
      right_inv := fun _ => rfl
    }

/-- No account has a negative balance. -/
def Solvent (s : StateDB B) : Prop := ∀ addr, 0 ≤ s.balanceOf addr

/-- The sum of all balances. -/
def totalBalance (s : StateDB B) : Int := ∑ addr : Address, s.balanceOf addr

/-- What self-destructs that named themselves destroyed. -/
def totalBurned (burned : List (Address × Int)) : Int := (burned.map Prod.snd).sum

variable {s s' : StateDB B} {m m' : Machine B}

theorem totalBalance_congr (same : ∀ addr, s'.balanceOf addr = s.balanceOf addr)
    : totalBalance s' = totalBalance s :=
  Finset.sum_congr rfl fun addr _ => same addr

/-- The total shifts with one balance. -/
theorem totalBalance_shift {addr : Address} {amount : Int}
    (shift : ∀ other, s'.balanceOf other
      = if other = addr then s.balanceOf other + amount else s.balanceOf other)
    : totalBalance s' = totalBalance s + amount := by
  have split (other : Address)
      : s'.balanceOf other = s.balanceOf other + if other = addr then amount else 0 := by
    rw [shift]
    split
    · rfl
    · rw [add_zero]
  unfold totalBalance
  rw [Finset.sum_congr rfl fun other _ => split other, Finset.sum_add_distrib,
    Finset.sum_ite_eq' Finset.univ addr, if_pos (Finset.mem_univ addr)]

theorem totalBurned_append (first second : List (Address × Int))
    : totalBurned (first ++ second) = totalBurned first + totalBurned second := by
  simp [totalBurned]

/-- The databases that were noted have no negative balances, nor does the last one. -/
structure StaysSolvent (m m' : Machine B) : Prop where
  solvent : Solvent m'.db
  events
    : ∃ new, m'.events = new ++ m.events ∧ ∀ frames db, .state frames db ∈ new → Solvent db

theorem StaysSolvent.trans {m m' m'' : Machine B} (first : StaysSolvent m m')
    (second : StaysSolvent m' m'')
    : StaysSolvent m m'' := by
  obtain ⟨new, events, holds⟩ := first.events
  obtain ⟨new', events', holds'⟩ := second.events
  refine ⟨second.solvent, new' ++ new, by rw [events', events, List.append_assoc], ?_⟩
  intro frames db member
  exact (List.mem_append.mp member).elim (holds' frames db) (holds frames db)

theorem StaysSolvent.of_moved {db : StateDB B} (solvent : Solvent db)
    : StaysSolvent m (m.moved db) := by
  refine ⟨solvent, [.state m.frames db], rfl, fun frames other member => ?_⟩
  obtain ⟨-, rfl⟩ := Event.state.inj (List.mem_singleton.mp member)
  exact solvent

theorem Performs.solvent {op : Op} (performs : Performs m op m') (solvent : Solvent m'.db)
    : StaysSolvent m m' := by
  obtain ⟨db, -, rfl⟩ := performs
  exact .of_moved solvent

theorem Hush.solvent (hush : Hush m m') (solvent : Solvent m.db) : StaysSolvent m m' := by
  have after : Solvent m'.db := fun addr => (hush.alike.accounts.balance addr).symm ▸ solvent addr
  rcases hush with ⟨op, -, performs⟩ | scratch
  · exact performs.solvent after
  · obtain ⟨new, quiet, events⟩ := scratch.events
    refine ⟨after, new, events, fun frames db member => ?_⟩
    have other := quiet _ member
    cases other

theorem Hushed.solvent (hushed : Hushed m m') (solvent : Solvent m.db) : StaysSolvent m m' := by
  induction hushed with
  | refl => exact ⟨solvent, [], rfl, fun _ _ member => (List.not_mem_nil member).elim⟩
  | tail _ last ih => exact ih.trans (last.solvent ih.solvent)

/-- Balances stay solvent, and what is missing from their sum was burned. -/
structure Conserved (m m' : Machine B) : Prop where
  stays : StaysSolvent m m'
  total
    : totalBalance m'.db + totalBurned m'.burned = totalBalance m.db + totalBurned m.burned
  burned : ∃ new, m'.burned = new ++ m.burned ∧ ∀ entry ∈ new, 0 ≤ entry.2

section Conserved

variable {m m' m'' : Machine B}

/-- Value is conserved, in two steps. -/
theorem Conserved.trans (first : Conserved m m') (second : Conserved m' m'') : Conserved m m'' := by
  obtain ⟨new, burned, positive⟩ := first.burned
  obtain ⟨new', burned', positive'⟩ := second.burned
  refine ⟨first.stays.trans second.stays, second.total.trans first.total, new' ++ new, ?_, ?_⟩
  · rw [burned', burned, List.append_assoc]
  · intro entry member
    exact (List.mem_append.mp member).elim (positive' entry) (positive entry)

/-- Value is conserved where no balance changes. -/
theorem Conserved.of_balances (stays : StaysSolvent m m')
    (same : ∀ addr, m'.db.balanceOf addr = m.db.balanceOf addr) (burned : m'.burned = m.burned)
    : Conserved m m' :=
  ⟨stays, by rw [totalBalance_congr same, burned], [], burned,
    fun _ member => (List.not_mem_nil member).elim⟩

theorem Performs.conserved {op : Op} (performs : Performs m op m')
    (same : ∀ addr, m'.db.balanceOf addr = m.db.balanceOf addr) (solvent : Solvent m.db)
    : Conserved m m' := by
  refine .of_balances (performs.solvent fun addr => (same addr).symm ▸ solvent addr) same ?_
  obtain ⟨db, -, rfl⟩ := performs
  rfl

theorem Hushed.burned (hushed : Hushed m m') : m'.burned = m.burned := by
  induction hushed with
  | refl => rfl
  | tail _ last ih =>
    rcases last with ⟨op, -, db, -, rfl⟩ | scratch
    · exact ih
    · exact scratch.burned.trans ih

/-- Hushed steps conserve value. -/
theorem Hushed.conserved (hushed : Hushed m m') (solvent : Solvent m.db) : Conserved m m' :=
  .of_balances (hushed.solvent solvent) hushed.alike.accounts.balance hushed.burned

/-- Operations that leave all balances as they are. -/
def keepsBalances : Op → Bool
  | .addBalance _ amount => amount = 0
  | .setNonce _ _ => true
  | .setCode _ _ => true
  | .setState _ _ _ => true
  | .createAccount _ => true
  | .addLog _ => true
  | .addRefund _ => true
  | .subRefund _ => true
  | _ => false

/-- Most operations leave all balances alone. -/
theorem Performs.balances {op : Op} (performs : Performs m op m') (keeps : keepsBalances op = true)
    (addr : Address)
    : m'.db.balanceOf addr = m.db.balanceOf addr := by
  obtain ⟨db, run, rfl⟩ := performs
  show db.balanceOf addr = m.db.balanceOf addr
  cases op with
  | addBalance other amount =>
    have zero : amount = 0 := of_decide_eq_true keeps
    rw [← Option.some.inj run, StateDB.balanceOf_addBalance, zero, add_zero, ite_self]
  | setNonce other nonce => rw [← Option.some.inj run, StateDB.balanceOf_setNonce]
  | setCode other code => rw [← Option.some.inj run, StateDB.balanceOf_setCode]
  | setState other key value => rw [← Option.some.inj run, StateDB.balanceOf_setState]
  | createAccount other => rw [← Option.some.inj run, StateDB.balanceOf_createAccount]
  | addLog log => exact Option.some.inj run ▸ StateDB.balanceOf_congr rfl
  | addRefund gas => exact Option.some.inj run ▸ StateDB.balanceOf_congr rfl
  | subRefund gas =>
    have run : m.db.subRefund gas = some db := run
    unfold StateDB.subRefund at run
    split at run
    · cases run
    · exact Option.some.inj run ▸ StateDB.balanceOf_congr rfl
  | _ => cases keeps

/-- Metering a store moves no value. -/
theorem charge_conserved {p : NetMetering} {addr : Address} {key current value : Hash}
    {r : Except Stop UInt64} (run : p.charge addr key current value m = (r, m'))
    (solvent : Solvent m.db)
    : Conserved m m' := by
  have : IsPreorder (Machine B) fun m m' => Solvent m.db → Conserved m m' :=
    { refl := fun _ => Hushed.conserved .refl
      trans := fun _ _ _ first second solvent =>
        (first solvent).trans (second (first solvent).stays.solvent) }
  have keeps : Keeps (fun m m' : Machine B => Solvent m.db → Conserved m m')
      (p.charge addr key current value) :=
    keeps_charge p (fun performs => Hushed.conserved (.single (.inl ⟨_, rfl, performs⟩)))
      (fun performs => performs.conserved (performs.balances rfl))
      (fun performs => performs.conserved (performs.balances rfl))
  have conserved := keeps m solvent
  rw [run] at conserved
  exact conserved

theorem Performs.burned {op : Op} (performs : Performs m op m') : m'.burned = m.burned := by
  obtain ⟨db, -, rfl⟩ := performs
  rfl

/-- A transfer that is covered moves value and loses none. -/
theorem transfer_conserved {sender recipient : Address} {amount : Int}
    (run : transfer sender recipient amount m = (.ok (), m'))
    (guard : amount = 0 ∨ 0 ≤ amount ∧ amount ≤ m.db.balanceOf sender) (solvent : Solvent m.db)
    : Conserved m m' := by
  obtain ⟨middle, last, first, second, value⟩ := transfer_run sender recipient amount m
  rw [value] at run
  obtain rfl : last = m' := (Prod.mk.inj run).2
  have debit (addr : Address) : middle.db.balanceOf addr
      = if addr = sender then m.db.balanceOf addr + -amount else m.db.balanceOf addr := by
    obtain ⟨db, performed, rfl⟩ := first
    rw [← Int.sub_eq_add_neg]
    exact Option.some.inj performed ▸ m.db.balanceOf_subBalance sender amount addr
  have credit (addr : Address) : last.db.balanceOf addr
      = if addr = recipient then middle.db.balanceOf addr + amount
        else middle.db.balanceOf addr := by
    obtain ⟨db, performed, rfl⟩ := second
    exact Option.some.inj performed ▸ middle.db.balanceOf_addBalance recipient amount addr
  have positive : 0 ≤ amount := by omega
  have affordable : Solvent middle.db := by
    intro addr
    have enough := solvent addr
    rw [debit]
    split
    · rename_i isSender
      rw [isSender] at enough ⊢
      omega
    · exact enough
  have paid : Solvent last.db := by
    intro addr
    have enough := affordable addr
    rw [credit]
    split
    · omega
    · exact enough
  have burned : last.burned = m.burned := second.burned.trans first.burned
  refine ⟨(first.solvent affordable).trans (second.solvent paid), ?_, [], burned,
    fun _ member => (List.not_mem_nil member).elim⟩
  rw [burned, totalBalance_shift credit, totalBalance_shift debit]
  omega

/-- A destruction moves the balance, or burns it. -/
theorem suicideTo_conserved {self beneficiary : Address}
    (run : suicideTo self beneficiary m = (.ok (), m')) (solvent : Solvent m.db)
    : Conserved m m' := by
  obtain ⟨read, credited, destroyed, first, second, third, value⟩ :=
    suicideTo_run self beneficiary m
  rw [m.db.getBalance_value] at second value
  have hushed : Hushed m read := .single (.inl ⟨_, rfl, first⟩)
  have reads : Conserved m read := hushed.conserved solvent
  have same := hushed.alike.accounts.balance
  have credit (addr : Address) : credited.db.balanceOf addr
      = if addr = beneficiary then read.db.balanceOf addr + m.db.balanceOf self
        else read.db.balanceOf addr := by
    obtain ⟨db, performed, rfl⟩ := second
    exact Option.some.inj performed ▸ read.db.balanceOf_addBalance beneficiary _ addr
  have destroy (addr : Address) : destroyed.db.balanceOf addr
      = if addr = self then credited.db.balanceOf addr + -credited.db.balanceOf self
        else credited.db.balanceOf addr := by
    obtain ⟨db, performed, rfl⟩ := third
    refine (Option.some.inj performed ▸ credited.db.balanceOf_suicide self addr).trans ?_
    split
    · rename_i isSelf
      rw [isSelf, Int.add_right_neg]
    · rfl
  have positive := solvent self
  have paid : Solvent credited.db := by
    intro addr
    have enough := reads.stays.solvent addr
    rw [credit]
    split
    · omega
    · exact enough
  have cleared : Solvent destroyed.db := by
    intro addr
    have enough := paid addr
    rw [destroy]
    split
    · rename_i isSelf
      rw [isSelf]
      omega
    · exact enough
  have stays := reads.stays.trans ((second.solvent paid).trans (third.solvent cleared))
  have burned : destroyed.burned = m.burned :=
    third.burned.trans (second.burned.trans hushed.burned)
  have total := totalBalance_shift destroy
  rw [totalBalance_shift credit, totalBalance_congr same, credit, same] at total
  rw [value] at run
  rw [← (Prod.mk.inj run).2]
  split
  · rename_i isSelf
    rw [if_pos isSelf.symm] at total
    refine ⟨⟨stays.solvent, stays.events⟩, ?_, [(self, m.db.balanceOf self)], ?_, ?_⟩
    · show totalBalance destroyed.db + totalBurned ((self, m.db.balanceOf self) :: destroyed.burned)
        = _
      rw [total, burned, totalBurned, List.map_cons, List.sum_cons, ← totalBurned]
      omega
    · exact congrArg _ burned
    · intro entry member
      rw [List.mem_singleton.mp member]
      exact positive
  · rename_i other
    rw [if_neg (Ne.symm other)] at total
    refine ⟨stays, ?_, [], burned, fun _ member => (List.not_mem_nil member).elim⟩
    rw [total, burned]
    omega

end Conserved

/-- Everything a contract does conserves value, by induction on what it does. -/
theorem Does.conserved (injective : B.Injective) {env : Env}
    {listing strict : Prop} {self : Address}
    (does : Does env listing strict self m m') (ok : m.db.Ok) (solvent : Solvent m.db)
    : Conserved m m' := by
  induction does with
  | seq before _ first second =>
    have conserved := first ok solvent
    exact conserved.trans (second ((before.valid injective).1 ok) conserved.stays.solvent)
  | hush hushed => exact hushed.conserved solvent
  | addRefund _ _ run | subRefund _ _ _ run | store _ _ _ _ run | log _ _ run | touch _ run
  | createAbsent _ _ run | createFresh _ _ run | setNonce _ _ _ run | setCode _ _ _ run =>
    exact run.conserved (run.balances rfl) solvent
  | meteredStore p key value _ _ hushed charge run =>
    have read := hushed.conserved solvent
    have charged := read.trans (charge_conserved charge read.stays.solvent)
    exact charged.trans (run.conserved (run.balances rfl) charged.stays.solvent)
  | suicide _ _ run => exact suicideTo_conserved run solvent
  | @transfer _ self m m' addr value guard run =>
    rw [m.db.getBalance_value] at guard
    exact transfer_conserved run (guard.imp_right And.right) solvent
  | canary _ hushed =>
    have read := hushed.conserved solvent
    obtain ⟨new, events, holds⟩ := read.stays.events
    refine ⟨⟨read.stays.solvent, _ :: new, congrArg _ events, fun frames db member => ?_⟩,
      read.total, read.burned⟩
    rcases List.mem_cons.mp member with isCanary | before
    · cases isCanary
    · exact holds frames db before
  | snapshot => exact .of_balances (.of_moved solvent) (fun _ => rfl) rfl
  | @reverted _ self m m' db inside back rest =>
    have same := (inside.reverts injective ok back).accounts.balance
    have marked : StaysSolvent m m.marked := .of_moved solvent
    have inner := (rest (snapshot_ok ok) marked.solvent).stays
    have moved : StaysSolvent m' (m'.moved db) :=
      .of_moved fun addr => (same addr).symm ▸ solvent addr
    have stays := marked.trans (inner.trans moved)
    exact .of_balances ⟨stays.solvent, stays.events⟩ same rfl
  | @run _ _ m m' addr readOnly _ _ rest =>
    have entered : StaysSolvent m (m.enter addr readOnly) := by
      refine ⟨solvent, [.state (addr :: m.frames) m.db], rfl, fun frames db member => ?_⟩
      obtain ⟨-, rfl⟩ := Event.state.inj (List.mem_singleton.mp member)
      exact solvent
    have inner := rest ok solvent
    have stays := entered.trans inner.stays
    exact ⟨⟨stays.solvent, stays.events⟩, inner.total, inner.burned⟩

theorem totalBurned_nonneg {burned : List (Address × Int)}
    (positive : ∀ entry ∈ burned, 0 ≤ entry.2)
    : 0 ≤ totalBurned burned := by
  refine List.sum_nonneg fun amount member => ?_
  obtain ⟨entry, isEntry, rfl⟩ := List.mem_map.mp member
  exact positive entry isEntry

/-- An execution keeps every balance from becoming negative, at each access to the database, and
mints nothing. It burns only what self-destructs in favour of themselves had, as far as they were
not reverted.
-/
theorem execution_conserves_value (injective : Function.Injective B.hashAddress) (env : Env)
    (e : Execution) {m : Machine B} (reachable : Reachable m.db) (solvent : Solvent m.db)
    (notStatic : m.readOnly = false)
    : (∃ new, (e.run env m).2.events = new ++ m.events
        ∧ ∀ frames db, .state frames db ∈ new → Solvent db)
      ∧ Solvent (e.run env m).2.db
      ∧ totalBalance (e.run env m).2.db ≤ totalBalance m.db
      ∧ ((e.run env m).2.burned = m.burned
        → totalBalance (e.run env m).2.db = totalBalance m.db) := by
  have writable : Writable env m := fun forbidden => by
    rw [notStatic] at forbidden
    exact Bool.false_ne_true forbidden.1
  have does : Does env False False e.caller m (e.run env m).2 :=
    (e.tracks writable fun _ _ => False.elim).always
  obtain ⟨stays, total, new, burned, positive⟩ :=
    does.conserved injective (reachable.ok injective) solvent
  refine ⟨stays.events, stays.solvent, ?_, fun none => ?_⟩
  · have lost := totalBurned_nonneg positive
    rw [burned, totalBurned_append] at total
    omega
  · rw [none] at total
    omega

/-- Account 1 has five coins, and account 16 the code SELFDESTRUCT of its caller. -/
def fundedState : StateDB plainBackend :=
  (plainState.addBalance 1 5).setCode 16 (some [0x33, 0xff])

theorem fundedState_reachable : Reachable fundedState :=
  .op (.setCode 16 (some [0x33, 0xff])) (.op (.addBalance 1 5) plainState_reachable rfl) rfl

theorem fundedState_solvent : Solvent fundedState := by
  intro addr
  have none : plainState.balanceOf addr = 0 := rfl
  unfold fundedState
  rw [balanceOf_setCode, balanceOf_addBalance, none]
  split <;> decide

theorem execution_conserves_value_call
    : Solvent fundedState
      ∧ Solvent ((Execution.call 1 16 [] 100000 3).run londonEnv { db := fundedState }).2.db
      ∧ totalBalance ((Execution.call 1 16 [] 100000 3).run londonEnv { db := fundedState }).2.db
        ≤ totalBalance fundedState := by
  have conserves := execution_conserves_value plainBackend_hashAddress_injective londonEnv
    (.call 1 16 [] 100000 3) (m := { db := fundedState }) fundedState_reachable fundedState_solvent
    rfl
  exact ⟨fundedState_solvent, conserves.2.1, conserves.2.2.1⟩

end GoBinacoin.Vm
