import GoBinacoin.State.Frame
import GoBinacoin.Vm.Execution

/-! Calls and creations that fail leave no trace. -/

namespace GoBinacoin.Vm

open Program State StateDB

variable {B : Backend}

/-! What a failure leaves. -/

/-- Nothing that can be observed has changed, except that the nonce of one account may be one
higher and one address may have entered the access list. Slots are compared for accounts without
storage overrides.
-/
structure Leaves (bumped created : Option Address) (s s' : StateDB B) : Prop where
  balance : ∀ addr, s'.balanceOf addr = s.balanceOf addr
  nonce
    : ∀ addr, s'.nonceOf addr = s.nonceOf addr
        ∨ bumped = some addr ∧ s'.nonceOf addr = s.nonceOf addr + 1
  code : ∀ addr, s'.codeOf addr = s.codeOf addr
  suicided : ∀ addr, s'.suicidedOf addr = s.suicidedOf addr
  slot
    : ∀ addr key, s.overrides addr = none
        → s'.overrides addr = none ∧ s'.slotOf addr key = s.slotOf addr key
  logs : s'.logs = s.logs
  refund : s'.refund = s.refund
  accessList
    : s'.accessList = s.accessList
        ∨ ∃ addr, created = some addr ∧ s'.accessList = (s.accessList.addAddress addr).2

variable {s s' : StateDB B} {addr : Address} {m : Machine B}

theorem Same.overrides (same : StateDB.Same s s')
    : s'.overrides addr = none ↔ s.overrides addr = none := by
  unfold StateDB.overrides
  generalize s.live addr = found, s'.live addr = found', same.live addr = related
  cases related with
  | none => rfl
  | some sameObject => exact sameObject.fake

theorem Same.slotOf (same : Same s s') (plain : s.overrides addr = none) (key : Hash)
    : s'.slotOf addr key = s.slotOf addr key := by
  have restored := same.restored.state addr key plain
  rw [getState_value, getState_value] at restored
  exact restored

section Leaves

variable {bumped created : Option Address} {s'' : StateDB B}

/-- Nothing is left of what cannot be told apart. -/
theorem Leaves.of_same (same : Same s s') : Leaves bumped created s s' where
  balance := same.accounts.balance
  nonce addr := .inl (same.accounts.nonce addr)
  code := same.accounts.code
  suicided := same.accounts.suicided
  slot _ key plain := ⟨(Same.overrides same).mpr plain, Same.slotOf same plain key⟩
  logs := same.logs
  refund := same.refund
  accessList := .inl same.accessList

/-- Steps before that cannot be told apart add nothing. -/
theorem Leaves.after (same : Same s s') (leaves : Leaves bumped created s' s'')
    : Leaves bumped created s s'' where
  balance addr := (leaves.balance addr).trans (same.accounts.balance addr)
  nonce addr := same.accounts.nonce addr ▸ leaves.nonce addr
  code addr := (leaves.code addr).trans (same.accounts.code addr)
  suicided addr := (leaves.suicided addr).trans (same.accounts.suicided addr)
  slot addr key plain := by
    obtain ⟨still, slot⟩ := leaves.slot addr key ((Same.overrides same).mpr plain)
    exact ⟨still, slot.trans (Same.slotOf same plain key)⟩
  logs := leaves.logs.trans same.logs
  refund := leaves.refund.trans same.refund
  accessList := same.accessList ▸ leaves.accessList

/-- Nor do steps after. -/
theorem Leaves.before (leaves : Leaves bumped created s s') (same : Same s' s'')
    : Leaves bumped created s s'' where
  balance addr := (same.accounts.balance addr).trans (leaves.balance addr)
  nonce addr := (same.accounts.nonce addr).symm ▸ leaves.nonce addr
  code addr := (same.accounts.code addr).trans (leaves.code addr)
  suicided addr := (same.accounts.suicided addr).trans (leaves.suicided addr)
  slot addr key plain := by
    obtain ⟨still, slot⟩ := leaves.slot addr key plain
    exact ⟨(Same.overrides same).mpr still, (Same.slotOf same still key).trans slot⟩
  logs := same.logs.trans leaves.logs
  refund := same.refund.trans leaves.refund
  accessList := same.accessList.symm ▸ leaves.accessList

theorem OnObjects.lists (rest : OnObjects s s')
    : s'.logs = s.logs ∧ s'.refund = s.refund ∧ s'.accessList = s.accessList := by
  obtain ⟨_, _, _, _, rfl⟩ := rest
  exact ⟨rfl, rfl, rfl⟩

/-- The nonce of the creator is left. -/
theorem leaves_setNonce (injective : B.Injective) (tidy : s.Tidy) (caller : Address)
    : Leaves (some caller) created s (s.setNonce caller (s.nonceOf caller + 1))
      ∧ (s.setNonce caller (s.nonceOf caller + 1)).accessList = s.accessList := by
  have isObjects : Op.onObjects (Op.setNonce caller (s.nonceOf caller + 1)) = true := rfl
  have run : (Op.setNonce caller (s.nonceOf caller + 1)).run s
      = some (s.setNonce caller (s.nonceOf caller + 1)) := rfl
  obtain ⟨logs, refund, accessList⟩ := OnObjects.lists (Op.run_onObjects isObjects run)
  refine ⟨?_, accessList⟩
  exact
    {
      balance := s.balanceOf_setNonce caller _
      nonce := fun addr => by
        rw [nonceOf_setNonce]
        split
        · rename_i here
          rw [here]
          exact .inr ⟨rfl, rfl⟩
        · exact .inl rfl
      code := s.codeOf_setNonce caller _
      suicided := s.suicidedOf_setNonce caller _
      slot := fun addr key plain =>
        ⟨(s.overrides_setNonce caller _ addr).trans plain,
          s.slotOf_setNonce caller _ injective tidy addr key⟩
      logs := logs
      refund := refund
      accessList := .inl accessList
    }

theorem Alike.overrides (alike : StateDB.Alike s s') (addr : Address)
    : s'.overrides addr = s.overrides addr := by
  unfold StateDB.overrides
  generalize s.live addr = found, s'.live addr = found', alike.live addr = related
  cases related with
  | none => rfl
  | some one => exact one.2

/-- The list of the state gains the address. -/
theorem addAddressToAccessList_accessList (s : StateDB B) (addr : Address)
    : (s.addAddressToAccessList addr).accessList = (s.accessList.addAddress addr).2 := by
  unfold addAddressToAccessList
  split
  · rename_i al added
    rw [added]
    rfl
  · rename_i al present
    unfold AccessList.addAddress at present ⊢
    split at present
    · rfl
    · cases present

/-- The address of the new account is left in the list. -/
theorem Leaves.listed (leaves : Leaves bumped created s s')
    (accessList : s'.accessList = s.accessList) (addr : Address)
    : Leaves bumped (some addr) s (s'.addAddressToAccessList addr) := by
  have isQuiet : quiet (.addAddressToAccessList addr) = true := rfl
  have run : (Op.addAddressToAccessList addr).run s' = some (s'.addAddressToAccessList addr) := rfl
  have alike : Alike s' (s'.addAddressToAccessList addr) := (quiet_keeps isQuiet run).1
  exact
    {
      balance := fun other => (alike.accounts.balance other).trans (leaves.balance other)
      nonce := fun other => (alike.accounts.nonce other).symm ▸ leaves.nonce other
      code := fun other => (alike.accounts.code other).trans (leaves.code other)
      suicided := fun other => (alike.accounts.suicided other).trans (leaves.suicided other)
      slot := fun other key plain => by
        obtain ⟨still, slot⟩ := leaves.slot other key plain
        exact ⟨(Alike.overrides alike other).trans still, (alike.slotOf other key).trans slot⟩
      logs := alike.logs.trans leaves.logs
      refund := alike.refund.trans leaves.refund
      accessList := .inr ⟨addr, rfl, by rw [addAddressToAccessList_accessList, accessList]⟩
    }

end Leaves

/-- Snapshots that were valid are valid still. -/
def Steady (m m' : Machine B) : Prop :=
  ∀ start id, Since start id m.db → Since start id m'.db

/-- A program that keeps the snapshots before it. -/
def Steadies {α : Type} (p : Evm B α) : Prop := Keeps Steady p

instance : IsPreorder (Machine B) Steady where
  refl _ _ _ := id
  trans _ _ _ before after start id since := after start id (before start id since)

variable {α : Type} {env : Env} {n : Nat}

section Steady

variable {β : Type} (injective : B.Injective)

theorem steady_precompileOr (addr : Address) (input : Bytes) (gas : UInt64)
    {go : Evm B CallResult} (steady : Steadies go)
    : Steadies (precompileOr env addr input gas go) := by
  unfold precompileOr
  split
  · exact .pure _
  · exact steady

include injective

theorem steady_perform {op : Op} (notRevert : ∀ revid, op ≠ .revertToSnapshot revid)
    : Steadies (perform op : Evm B Unit) :=
  keeps_perform fun performs _ _ => (performs.forward notRevert).since injective

theorem steady_query {op : Op} (notRevert : ∀ revid, op ≠ .revertToSnapshot revid)
    {value : StateDB B → α}
    : Steadies (query op value) :=
  keeps_query fun performs _ _ => (performs.forward notRevert).since injective

theorem steady_performIf (condition : Bool) {op : Op}
    (notRevert : ∀ revid, op ≠ .revertToSnapshot revid)
    : Steadies (performIf condition op : Evm B Unit) :=
  .ite (steady_perform injective notRevert) (.pure ())

theorem steady_transfer (sender recipient : Address) (amount : Int)
    : Steadies (transfer sender recipient amount : Evm B Unit) :=
  .bind (steady_perform injective (by nofun)) fun _ => steady_perform injective (by nofun)

theorem steady_runAt (n : Nat) (contract : Contract) (gas : UInt64) (input : Bytes)
    (readOnly : Bool)
    : Steadies (runAt env n contract gas input readOnly : Evm B RunResult) := by
  intro m
  have admits : Admits env False contract.self contract.self m := fun impossible => impossible.elim
  exact (((conducts_runAt env False n).any admits).valid injective).2

theorem steady_runAccount (addr : Address) (callee : Bytes → Contract) (gas : UInt64)
    (input : Bytes) (readOnly : Bool)
    : Steadies (runAccount (runAt env n) addr callee gas input readOnly
        : Evm B CallResult) :=
  .bind (steady_query injective (by nofun)) fun _ =>
    .bind (steady_query injective (by nofun)) fun _ =>
      .bind (steady_runAt injective n _ _ _ _) fun _ => .pure _

theorem steady_callBody (caller addr : Address) (input : Bytes) (gas : UInt64) (value : Int)
    : Steadies (callBody env (runAt env n) caller addr input gas value
        : Evm B CallResult) :=
  steady_precompileOr addr input gas (.bind (steady_query injective (by nofun)) fun _ =>
    .ite (.pure _) (.bind (steady_query injective (by nofun)) fun _ =>
      .bind (steady_runAt injective n _ _ _ _) fun _ => .pure _))

theorem steady_storeCode (address : Address) (result : RunResult)
    : Steadies (storeCode address result : Evm B RunResult) :=
  .ite (.ite (.pure _) (.bind (steady_perform injective (by nofun)) fun _ => .pure _)) (.pure _)

end Steady

/-- The gas of a failed call is gone, unless the call asked for it or did not begin. -/
def GasRule (gas : UInt64) (err : Option VMError) : Prop :=
  gas = 0 ∨ err = some .executionReverted ∨ err = some .depth ∨ err = some .insufficientBalance

variable {start : StateDB B} {id : Nat}

section Calls

variable (injective : B.Injective)

theorem yields_steady {β : Type} {p : Evm B α} {f : α → Evm B β} {Q : β → Machine B → Prop}
    (since : Since start id m.db) (steady : Steadies p)
    (rest : ∀ a m', Since start id m'.db → Yields (f a) m' Q)
    : Yields (p >>= f) m Q :=
  Prog.Ensures.bind (R := fun _ m' => Since start id m'.db)
    (.of_outcome (fun _ _ => steady m start id since) fun _ _ => trivial) rest

theorem ensures_takeSnapshot {allowed : Stop → Machine B → Prop}
    {Q : Nat × List (Address × Int) → Machine B → Prop}
    : Ensures allowed takeSnapshot m Q ↔ Q (m.db.snapshot.1, m.burned) m.marked :=
  Iff.rfl

include injective

theorem revertTo_run (burned : List (Address × Int)) (since : Since start id m.db)
    : ∃ back, m.db.revertToSnapshot id = some back ∧ Same start back
        ∧ revertTo (id, burned) m = (.ok (), { m.moved back with burned := burned }) := by
  obtain ⟨back, reverted, same⟩ := since.revert injective
  refine ⟨back, reverted, same, ?_⟩
  simp only [revertTo, Bind.bind, Prog.bind, perform, Op.run, reverted]
  rfl

variable {burned : List (Address × Int)}

/-- Reverting to the snapshot restores the state in which it was taken. -/
theorem yields_revertTo (since : Since start id m.db)
    : Yields (revertTo (id, burned)) m fun _ m' => Same start m'.db := by
  obtain ⟨back, -, same, run⟩ := revertTo_run injective burned since
  exact .of_returned run same

/-- A failed body is reverted to its snapshot. -/
theorem yields_settle (since : Since start id m.db) (result : CallResult)
    : Yields (settle (id, burned) result) m fun result m' =>
        result.err ≠ none → Same start m'.db ∧ GasRule result.gas result.err := by
  refine .ite (fun fine => ?_) fun failed => ?_
  · exact fun failed => absurd fine failed
  · refine (yields_revertTo injective since).bind fun _ m' same => ?_
    split
    · rename_i reverted
      exact fun _ => ⟨same, .inr (.inl reverted)⟩
    · exact fun _ => ⟨same, .inl rfl⟩

theorem yields_snapshot {p : Evm B CallResult} (ok : m.db.Ok) (steady : Steadies p)
    : Yields (takeSnapshot >>= fun snapshot => p >>= settle snapshot) m fun result m' =>
        result.err ≠ none → Same m.db m'.db ∧ GasRule result.gas result.err := by
  have since : Since m.db m.db.snapshot.1 m.marked.db := .snapshot injective ok
  refine .seq (ensures_takeSnapshot.mpr ?_)
  exact yields_steady since steady fun result m' since => yields_settle injective since result

/-- What a failed call leaves. -/
def FailsClean (p : Evm B CallResult) (m : Machine B) : Prop :=
  Yields p m fun result m' =>
    result.err ≠ none → Same m.db m'.db ∧ GasRule result.gas result.err

omit injective in
theorem failsClean_refused {gas : UInt64} {go : Evm B CallResult} (clean : FailsClean go m)
    : FailsClean (refused env gas go) m := by
  refine .get (.ite (fun _ => ?_) fun _ => .ite (fun _ => ?_) fun _ => clean)
  · exact fun failed => absurd rfl failed
  · exact fun _ => ⟨.refl m.db, .inr (.inr (.inl rfl))⟩

theorem failsClean_afterBalance {f : Int → Evm B CallResult} (ok : m.db.Ok)
    (rest : ∀ balance m', m'.db.Ok → FailsClean (f balance) m')
    : FailsClean (getBalance addr >>= f) m := by
  have same := m.db.same_getBalance addr
  have still := m.db.ok_getBalance injective addr ok
  have read : getBalance addr m
      = (.ok (m.db.getBalance addr).1, m.moved (m.db.getBalance addr).2) := rfl
  refine .seq (.of_returned read ((rest _ _ (by exact still)).mono ?_))
  exact fun result m' clean failed => (clean failed).imp_left same.trans

variable (ok : m.db.Ok) (caller addr : Address) (input : Bytes) (gas : UInt64)
include ok

/-- A failed call is reverted. -/
theorem failsClean_callAccount (value : Int)
    : FailsClean (callAccount env (runAt env n) caller addr input gas value) m := by
  have since : Since m.db m.db.snapshot.1 m.marked.db := .snapshot injective ok
  refine .seq (ensures_takeSnapshot.mpr ?_)
  refine yields_steady since (steady_query injective (by nofun)) fun found m1 since => ?_
  refine .ite (fun _ failed => absurd rfl failed) fun _ => ?_
  refine yields_steady since (steady_performIf injective _ (by nofun)) fun _ m2 since => ?_
  refine yields_steady since (steady_transfer injective _ _ _) fun _ m3 since => ?_
  refine yields_steady since (steady_callBody injective _ _ _ _ _) fun result m4 since => ?_
  exact yields_settle injective since result

/-- So is one that is refused. -/
theorem failsClean_call (value : Int)
    : FailsClean (call env (runAt env n) caller addr input gas value) m := by
  refine failsClean_refused ?_
  have proceed (able : Bool) (m' : Machine B) (ok : m'.db.Ok) : FailsClean (if able then
      callAccount env (runAt env n) caller addr input gas value
      else return untouched gas (some .insufficientBalance)) m' := by
    refine .ite (fun _ => failsClean_callAccount injective ok caller addr input gas value) ?_
    exact fun _ _ => ⟨.refl m'.db, .inr (.inr (.inr rfl))⟩
  unfold affords
  by_cases zero : value ≠ 0
  · rw [if_pos zero]
    unfold canTransfer
    rw [bind_assoc]
    exact failsClean_afterBalance injective ok fun balance m' ok => proceed _ m' ok
  · rw [if_neg zero]
    exact proceed true m ok

theorem failsClean_callCode (value : Int)
    : FailsClean (callCode env (runAt env n) caller addr input gas value) m := by
  refine failsClean_refused ?_
  unfold canTransfer
  rw [bind_assoc]
  refine failsClean_afterBalance injective ok fun balance m' ok => ?_
  refine .ite (fun _ => ?_) fun _ _ => ⟨.refl m'.db, .inr (.inr (.inr rfl))⟩
  exact yields_snapshot injective ok (steady_precompileOr _ _ _
    (steady_runAccount injective _ _ _ _ _))

omit ok

theorem failsClean_delegateCall (ok : m.db.Ok) (parent : Contract) (addr : Address)
    (input : Bytes) (gas : UInt64)
    : FailsClean (delegateCall env (runAt env n) parent addr input gas) m :=
  failsClean_refused (yields_snapshot injective ok (steady_precompileOr _ _ _
    (steady_runAccount injective _ _ _ _ _)))

theorem failsClean_staticCall (ok : m.db.Ok) (caller addr : Address) (input : Bytes) (gas : UInt64)
    : FailsClean (staticCall env (runAt env n) caller addr input gas) m := by
  refine failsClean_refused ?_
  have since : Since m.db m.db.snapshot.1 m.marked.db := .snapshot injective ok
  refine .seq (ensures_takeSnapshot.mpr ?_)
  refine yields_steady since (steady_perform injective (by nofun)) fun _ m1 since => ?_
  refine yields_steady since (steady_precompileOr _ _ _ (steady_runAccount injective _ _ _ _ _))
    fun result m2 since => ?_
  exact yields_settle injective since result

end Calls

/-! Creations. -/

/-- A state that cannot be told apart is tidy too. -/
theorem Same.tidy (same : Same s s') (tidy : s.Tidy) : s'.Tidy := by
  have db : s'.db = s.db := congrArg Reads.db same.reads
  have snap : s'.snap = s.snap := congrArg Reads.snap same.reads
  refine ⟨?_, fun addr layer key enc absent present => ?_⟩
  · rw [db]
    exact tidy.emptyTrie
  · rw [stored_congr same.reads same.trie] at absent
    rw [snap] at present
    exact tidy.strays addr layer key enc absent present

/-- The new address of a creation, if it enters the access list. -/
def warmed (env : Env) (address : Address) : Option Address :=
  if env.rules.isBerlin then some address else none

theorem yields_afterRead {β : Type} {op : Op} {value : StateDB B → β}
    {f : β → Evm B CreateResult} {db : StateDB B} (run : op.run m.db = some db)
    {P P' : StateDB B → Prop} (weaker : ∀ s, P' s → P s)
    (rest : Yields (f (value m.db)) (m.moved db) fun result m' =>
      result.err ≠ none → P' m'.db ∧ GasRule result.gas result.err)
    : Yields (query op value >>= f) m fun result m' =>
        result.err ≠ none → P m'.db ∧ GasRule result.gas result.err := by
  have read : query op value m = (.ok (value m.db), m.moved db) := by
    simp only [query, run]
  refine .seq (.of_returned read (rest.mono ?_))
  exact fun result m' clean failed => (clean failed).imp_left (weaker m'.db)

section Creations

variable (injective : B.Injective) (homestead : env.rules.isHomestead = true)

include injective homestead

/-- So is a failed creation. -/
theorem yields_settleCreate {burned : List (Address × Int)} (since : Since start id m.db)
    (result : RunResult)
    : Yields (settleCreate env (id, burned) result) m fun result m' =>
        result.err ≠ none → Same start m'.db ∧ GasRule result.gas result.err := by
  refine .ite (fun _ => ?_) fun kept => ?_
  · refine (yields_revertTo injective since).bind fun _ m' same => ?_
    split
    · rename_i reverted
      exact fun _ => ⟨same, .inr (.inl reverted)⟩
    · exact fun _ => ⟨same, .inl rfl⟩
  · exact fun failed => absurd ⟨failed, .inl homestead⟩ kept

/-- A failed deployment is reverted. -/
theorem yields_deploy (ok : m.db.Ok) (caller : Address) (code : Bytes) (gas : UInt64)
    (value : Int) (address : Address)
    : Yields (deploy env (runAt env n) caller code gas value address) m fun result m' =>
        result.err ≠ none → Same m.db m'.db ∧ GasRule result.gas result.err := by
  have since : Since m.db m.db.snapshot.1 m.marked.db := .snapshot injective ok
  refine .seq (ensures_takeSnapshot.mpr ?_)
  refine yields_steady since (steady_perform injective (by nofun)) fun _ m1 since => ?_
  refine yields_steady since (steady_performIf injective _ (by nofun)) fun _ m2 since => ?_
  refine yields_steady since (steady_transfer injective _ _ _) fun _ m3 since => ?_
  refine .get (.ite (fun _ failed => absurd rfl failed) fun _ => ?_)
  refine yields_steady since (steady_runAt injective n _ _ _ _) fun result m4 since => ?_
  refine yields_steady since (steady_storeCode injective _ _) fun result m5 since => ?_
  exact (yields_settleCreate injective homestead since result).bind fun _ _ clean => clean

omit homestead in
/-- The new account is opened: the creator has one more nonce, and the address is warm. -/
theorem yields_open {β : Type} (tidy : m.db.Tidy) (ok : m.db.Ok) {caller address : Address}
    {nonce : UInt64} (isNonce : nonce = m.db.nonceOf caller) {f : Evm B β}
    {Q : β → Machine B → Prop}
    (rest : ∀ m', m'.db.Ok → Leaves (some caller) (warmed env address) m.db m'.db
      → Yields f m' Q)
    : Yields (do
        perform (.setNonce caller (nonce + 1))
        performIf env.rules.isBerlin (.addAddressToAccessList address)
        f) m Q := by
  subst isNonce
  have set : (Op.setNonce caller (m.db.nonceOf caller + 1)).run m.db
      = some (m.db.setNonce caller (m.db.nonceOf caller + 1)) := rfl
  have stillOk := Op.run_ok injective ok set
  obtain ⟨leaves, accessList⟩ : Leaves (some caller) (warmed env address) m.db _ ∧ _ :=
    leaves_setNonce injective tidy caller
  refine .seq (.of_returned (perform_total set) ?_)
  unfold performIf warmed at *
  rcases berlin : env.rules.isBerlin with _ | _
  · rw [berlin] at leaves rest
    exact .seq (rest _ stillOk leaves)
  rw [berlin] at rest
  have add : (Op.addAddressToAccessList address).run
      (m.moved (m.db.setNonce caller (m.db.nonceOf caller + 1))).db
      = some ((m.db.setNonce caller (m.db.nonceOf caller + 1)).addAddressToAccessList address) :=
    rfl
  refine .seq (.of_returned (perform_total add) (rest _ ?_ ?_))
  · exact Op.run_ok injective stillOk add
  · exact leaves.listed accessList address

/-- A creation whose address is taken ends there, and any other deploys. -/
theorem yields_unlessTaken (ok : m.db.Ok) (caller : Address) (code : Bytes) (gas : UInt64)
    (value : Int) (address : Address)
    : Yields (do
        let contractHash ← getCodeHash address
        let addressNonce ← getNonce address
        if addressNonce ≠ 0 ∨ (contractHash ≠ 0 ∧ contractHash ≠ B.emptyCodeHash) then
          return notCreated 0 .contractAddressCollision
        else deploy env (runAt env n) caller code gas value address) m fun result m' =>
      result.err ≠ none → Same m.db m'.db ∧ GasRule result.gas result.err := by
  have hashSame := m.db.same_getCodeHash address
  have nonceSame := (m.db.getCodeHash address).2.same_getNonce address
  have nonceOk := (m.db.getCodeHash address).2.ok_getNonce injective address
    (m.db.ok_getCodeHash injective address ok)
  refine yields_afterRead rfl (fun s => hashSame.trans) ?_
  refine yields_afterRead rfl (fun s => nonceSame.trans) ?_
  refine .ite (fun _ _ => ⟨.refl _, .inl rfl⟩) fun _ => ?_
  exact yields_deploy injective homestead nonceOk caller code gas value address

variable (tidy : m.db.Tidy) (ok : m.db.Ok) (caller : Address) (code : Bytes)
include tidy ok

/-- A failed creation leaves the nonce and the warm address. -/
theorem yields_createAt (gas : UInt64) (value : Int) (address : Address)
    : Yields (createAt env (runAt env n) caller code gas value address) m fun result m' =>
        result.err ≠ none → Leaves (some caller) (warmed env address) m.db m'.db
          ∧ GasRule result.gas result.err := by
  refine .get (.ite (fun _ _ => ?_) fun _ => ?_)
  · exact ⟨.of_same (.refl m.db), .inr (.inr (.inl rfl))⟩
  have balanceSame := m.db.same_getBalance caller
  have nonceSame := (m.db.getBalance caller).2.same_getNonce caller
  have nonceOk := (m.db.getBalance caller).2.ok_getNonce injective caller
    (m.db.ok_getBalance injective caller ok)
  have isNonce : ((m.db.getBalance caller).2.getNonce caller).1
      = ((m.db.getBalance caller).2.getNonce caller).2.nonceOf caller := by
    rw [getNonce_value, nonceSame.accounts.nonce]
  unfold canTransfer
  rw [bind_assoc]
  refine yields_afterRead rfl (fun s => Leaves.after balanceSame) (.ite (fun _ => ?_) ?_)
  swap
  · exact fun _ _ => ⟨.of_same (.refl _), .inr (.inr (.inr rfl))⟩
  refine yields_afterRead rfl (fun s => Leaves.after nonceSame) ?_
  refine yields_open injective (Same.tidy nonceSame (Same.tidy balanceSame tidy)) nonceOk isNonce
    fun m' ok leaves => ?_
  refine (yields_unlessTaken injective homestead ok caller code gas value address).mono ?_
  exact fun result m'' clean failed => (clean failed).imp_left leaves.before

theorem yields_create (gas : UInt64) (value : Int)
    : Yields (create env (runAt env n) caller code gas value) m fun result m' =>
        result.err ≠ none
          → Leaves (some caller)
              (warmed env (createAddress B caller (m.db.nonceOf caller))) m.db m'.db
            ∧ GasRule result.gas result.err := by
  have same := m.db.same_getNonce caller
  have stillOk := m.db.ok_getNonce injective caller ok
  refine yields_afterRead rfl (fun s => Leaves.after same) ?_
  rw [getNonce_value]
  exact yields_createAt injective homestead (Same.tidy same tidy) stillOk caller code gas value _

end Creations

/-- The account whose nonce may stay one higher. -/
def Execution.creator : Execution → Option Address
  | .create caller _ _ _ => some caller
  | .create2 caller _ _ _ _ => some caller
  | _ => none

/-- The address that may stay in the access list. -/
def Execution.warms (env : Env) (s : StateDB B) : Execution → Option Address
  | .create caller _ _ _ => warmed env (createAddress B caller (s.nonceOf caller))
  | .create2 caller code _ _ salt => warmed env (createAddress2 B caller salt (B.keccak code))
  | _ => none

/-- What a failed execution leaves, for all calls and creations. -/
theorem Execution.yields (injective : B.Injective) {env : Env}
    (homestead : env.rules.isHomestead = true) (e : Execution) (ok : m.db.Ok)
    (tidy : e.creator ≠ none → m.db.Tidy)
    : Yields (e.run env) m fun outcome m' =>
        outcome.err ≠ none
          → Leaves e.creator (e.warms env m.db) m.db m'.db
            ∧ GasRule outcome.gas outcome.err := by
  have called {p : Evm B CallResult} (clean : FailsClean p m)
      : Yields (p >>= fun result => return result.outcome) m fun outcome m' =>
          outcome.err ≠ none
            → Leaves none none m.db m'.db ∧ GasRule outcome.gas outcome.err :=
    clean.bind fun _ _ clean failed => (clean failed).imp_left .of_same
  cases e with
  | call caller addr input gas value => exact called (failsClean_call injective ok ..)
  | callCode caller addr input gas value => exact called (failsClean_callCode injective ok ..)
  | delegateCall parent addr input gas => exact called (failsClean_delegateCall injective ok ..)
  | staticCall caller addr input gas => exact called (failsClean_staticCall injective ok ..)
  | create caller code gas value =>
    have tidy := tidy (Option.some_ne_none caller)
    exact (yields_create injective homestead tidy ok caller code gas value).bind
      fun _ _ clean => clean
  | create2 caller code gas endowment salt =>
    have tidy := tidy (Option.some_ne_none caller)
    exact (yields_createAt injective homestead tidy ok caller code gas endowment _).bind
      fun _ _ clean => clean

/-- A failed call changes nothing that can be observed, and a failed creation only the nonce of
the creator and the access list; the gas is gone unless the code reverted or did not run. -/
theorem failed_execution_leaves (injective : Function.Injective B.hashAddress) (env : Env)
    (homestead : env.rules.isHomestead = true) (e : Execution) {m m' : Machine B}
    (reachable : Reachable m.db) (tidy : e.creator ≠ none → m.db.Tidy) {outcome : Outcome}
    (run : e.run env m = (.ok outcome, m')) (failed : outcome.err ≠ none)
    : Leaves e.creator (e.warms env m.db) m.db m'.db ∧ GasRule outcome.gas outcome.err := by
  have yields := e.yields injective homestead (reachable.ok injective) tidy
  unfold Yields Ensures After at yields
  rw [run] at yields
  exact yields failed

/-- Account 16 is warm and has the code PUSH1 2, PUSH1 0, SSTORE and the invalid operation 0xfe. -/
def failingState : StateDB plainBackend :=
  (plainState.setCode 16 (some [0x60, 2, 0x60, 0, 0x55, 0xfe])).addAddressToAccessList 16

theorem failingState_reachable : Reachable failingState :=
  .op (.addAddressToAccessList 16)
    (.op (.setCode 16 (some [0x60, 2, 0x60, 0, 0x55, 0xfe])) plainState_reachable rfl) rfl

theorem failed_execution_leaves_call
    : ∃ outcome m',
        (Execution.call 1 16 [] 100000 0).run londonEnv { db := failingState } = (.ok outcome, m')
        ∧ outcome.err ≠ none
        ∧ Leaves none none failingState m'.db
        ∧ GasRule outcome.gas outcome.err := by
  have fails : (match ((Execution.call 1 16 [] 100000 0).run londonEnv
      { db := failingState }).1 with
      | .ok outcome => outcome.err.isSome
      | .error _ => false) = true := by decide +kernel
  generalize result : (Execution.call 1 16 [] 100000 0).run londonEnv
    { db := failingState } = ran at fails
  obtain ⟨outcome | outcome, m'⟩ := ran
  · cases fails
  · have failed : outcome.err ≠ none := Option.isSome_iff_ne_none.mp fails
    obtain ⟨leaves, gas⟩ := failed_execution_leaves plainBackend_hashAddress_injective londonEnv
      rfl (.call 1 16 [] 100000 0) (m := { db := failingState }) failingState_reachable
      (fun creates => absurd rfl creates) result failed
    exact ⟨outcome, m', rfl, failed, leaves, gas⟩

/-- A failed call keeps what it wrote to an account with storage overrides. -/
theorem failed_execution_keeps_override
    : Reachable (failingState.setStorage 16 [(0, 1)])
      ∧ ∃ outcome m',
          (Execution.call 1 16 [] 100000 0).run londonEnv
              { db := failingState.setStorage 16 [(0, 1)] }
            = (.ok outcome, m')
          ∧ outcome.err ≠ none
          ∧ ((failingState.setStorage 16 [(0, 1)]).getState 16 0).1 = 1
          ∧ (m'.db.getState 16 0).1 = 2 := by
  refine ⟨.setStorage 16 _ failingState_reachable, ?_⟩
  have fails : (match (Execution.call 1 16 [] 100000 0).run londonEnv
      { db := failingState.setStorage 16 [(0, 1)] } with
      | (.ok outcome, m') => outcome.err.isSome && (m'.db.getState 16 0).1 == 2
      | (.error _, _) => false) = true := by decide +kernel
  generalize (Execution.call 1 16 [] 100000 0).run londonEnv
    { db := failingState.setStorage 16 [(0, 1)] } = ran at fails
  obtain ⟨outcome | outcome, m'⟩ := ran
  · cases fails
  · rw [Bool.and_eq_true] at fails
    have failed : outcome.err ≠ none := Option.isSome_iff_ne_none.mp fails.1
    have before : ((failingState.setStorage 16 [(0, 1)]).getState 16 0).1 = 1 := by
      decide +kernel
    exact ⟨outcome, m', rfl, failed, before, eq_of_beq fails.2⟩

end GoBinacoin.Vm
